import PcsSim.Modbus.Functions

/-!
# Write requests

The handlers of function 6 and function 16 are taken together: a request is
accepted or refused by what its PDU says, and one that is accepted writes the
bytes of the frame from an offset on.  Nothing compares the length of the PDU
with the number of these bytes, so they may be those of earlier traffic.
-/

namespace Mbs

variable {D : Type} {ops : Doubles D} {t : Tables D} {ctx : Fmodbus} {pdu : List UInt8}

section Requests

/-- The word at `pdu[i]`, high byte first. -/
def wordOf (pdu : List UInt8) (i : ℕ) : UInt16 :=
  (pdu.getD i 0).toUInt16 <<< 8 ||| (pdu.getD (i + 1) 0).toUInt16

def writeAddress (pdu : List UInt8) : UInt16 := wordOf pdu 1

def writeCount (pdu : List UInt8) : UInt16 := if pdu.getD 0 0 = 6 then 1 else wordOf pdu 3

/-- Where the values stand in the PDU. -/
def writeValues (pdu : List UInt8) : ℕ := if pdu.getD 0 0 = 6 then 3 else 6

/-- The checks of the handlers. -/
def WriteChecked (pdu : List UInt8) : Prop :=
  if pdu.getD 0 0 = 6 then pdu.length = 5
  else 6 ≤ pdu.length ∧ 1 ≤ writeCount pdu ∧ writeCount pdu ≤ 0x78 ∧
    pdu.getD 5 0 = (2 * writeCount pdu).toUInt8

def WriteAccepted (pdu : List UInt8) : Prop :=
  WriteChecked pdu ∧ (writeAddress pdu).toNat + (writeCount pdu).toNat ≤ regHoldingNregs

instance (pdu : List UInt8) : Decidable (WriteChecked pdu) :=
  inferInstanceAs (Decidable (if pdu.getD 0 0 = 6 then pdu.length = 5
    else 6 ≤ pdu.length ∧ 1 ≤ writeCount pdu ∧ writeCount pdu ≤ 0x78 ∧
      pdu.getD 5 0 = (2 * writeCount pdu).toUInt8))

instance (pdu : List UInt8) : Decidable (WriteAccepted pdu) := inferInstanceAs (Decidable (_ ∧ _))

/-- What a request that is not accepted is refused with. -/
def writeException (pdu : List UInt8) : MbException :=
  if WriteChecked pdu then .illegalDataAddress else .illegalDataValue

theorem writeException_ne_none (pdu : List UInt8) : writeException pdu ≠ .none := by
  unfold writeException
  split_ifs <;> decide

/-- The length that the request announces, by its count or its byte count. -/
def announced (pdu : List UInt8) : ℕ :=
  if pdu.getD 0 0 = 6 then 5
  else 6 + max (2 * (writeCount pdu).toNat) (pdu.getD 5 0).toNat

theorem pucFrame_of_received (h : ctx.Received pdu) {i : ℕ} (hi : i < pdu.length) :
    ctx.pucFrame i = pdu.getD i 0 := by
  rw [List.getD_eq_getElem _ _ hi]
  exact h.pucFrame i _ (List.getElem?_eq_getElem hi)

theorem frameWord_of_received (h : ctx.Received pdu) {i : ℕ} (hi : i + 1 < pdu.length) :
    ctx.frameWord i = wordOf pdu i := by
  rw [Fmodbus.frameWord, pucFrame_of_received h hi, pucFrame_of_received h (by omega), wordOf]

theorem pdu_of_received (h : ctx.Received pdu) {len : UInt16} (hlen : len.toNat ≤ pdu.length) :
    (ctx.withFrame ctx.ucRTUBuf len).pdu = pdu.take len.toNat := by
  apply List.ext_getElem
  · simpa [Fmodbus.pdu, Fmodbus.withFrame] using hlen
  · intro i hi hi'
    have hlt : i < pdu.length := by
      rw [List.length_take] at hi'
      omega
    simp only [Fmodbus.pdu, List.getElem_map, List.getElem_range, List.getElem_take]
    exact h.pucFrame i _ (List.getElem?_eq_getElem hlt)

end Requests

section Answers

def writeTables (ops : Doubles D) (t : Tables D) (usAddress usNRegs : UInt16)
    (data : ℕ → UInt8) : Tables D :=
  { t with
    slave := on06WriteSingleHoldingRegister ops ⟨t.slave.mdl,
      WordMemory.write t.slave.usHoldingRegisters usAddress.toNat usNRegs.toNat data⟩ }

theorem regHoldingCB_write {mbsidx : ℤ} (h : mbsidx = mbsidxMdl) {usAddress usNRegs : UInt16}
    (data : ℕ → UInt8) :
    regHoldingCB ops mbsidx data usAddress usNRegs .write t =
      if usAddress.toNat + usNRegs.toNat ≤ regHoldingNregs then
        (writeTables ops t usAddress usNRegs data, .enoerr, [])
      else (t, .enoreg, []) := by
  subst h
  split_ifs with hrange
  · rw [regHoldingCB, eMBRegHoldingCB_write _ hrange]
    rfl
  · rw [regHoldingCB, eMBRegHoldingCB_outOfRange _ hrange]
    rfl

/-- What both handlers do with a request. -/
def writeOutcome (ops : Doubles D) (pdu : List UInt8) : Handler D := fun t ctx ↦
  if WriteAccepted pdu then
    (writeTables ops t (writeAddress pdu) (writeCount pdu)
      (fun i ↦ ctx.pucFrame (writeValues pdu + i)), ctx.withFrame ctx.ucRTUBuf 5, .none)
  else (t, ctx, writeException pdu)

theorem eMBFuncWriteHoldingRegister_eq (h : ctx.Received pdu) (hcode : pdu.getD 0 0 = 6) :
    eMBFuncWriteHoldingRegister ops t ctx = writeOutcome ops pdu t ctx := by
  have hchecked : WriteChecked pdu ↔ pdu.length = 5 := by
    rw [WriteChecked, if_pos hcode]
  have hcount : writeCount pdu = 1 := if_pos hcode
  have hvalues : writeValues pdu = 3 := if_pos hcode
  have hlength : ctx.usLength = 4 + 1 ↔ pdu.length = 5 := by
    rw [← h.usLength, ← UInt16.toNat_inj]
    rfl
  unfold eMBFuncWriteHoldingRegister writeOutcome
  by_cases hfive : pdu.length = 5
  · have haddress : ctx.frameWord 1 = writeAddress pdu := frameWord_of_received h (by omega)
    have hsame : ctx.withFrame ctx.ucRTUBuf 5 = ctx := by
      have hlen : ctx.usLength = 5 := hlength.mpr hfive
      rw [← hlen]
      rfl
    rw [if_pos (hlength.mpr hfive)]
    simp only [haddress, regHoldingCB_write h.mbsidx]
    by_cases hrange : (writeAddress pdu).toNat + (1 : UInt16).toNat ≤ regHoldingNregs
    · have haccepted : WriteAccepted pdu := ⟨hchecked.mpr hfive, by rwa [hcount]⟩
      simp only [if_pos hrange, if_pos haccepted, hcount, hvalues, hsame]
      rfl
    · have hrefused : ¬WriteAccepted pdu := fun hacc ↦ hrange (hcount ▸ hacc.2)
      simp only [if_neg hrange, if_neg hrefused, writeException, if_pos (hchecked.mpr hfive)]
      rfl
  · have hrefused : ¬WriteAccepted pdu := fun hacc ↦ hfive (hchecked.mp hacc.1)
    rw [if_neg fun hlen ↦ hfive (hlength.mp hlen), if_neg hrefused, writeException,
      if_neg fun hc ↦ hfive (hchecked.mp hc)]

theorem eMBFuncWriteMultipleHoldingRegister_eq (h : ctx.Received pdu)
    (hcode : pdu.getD 0 0 = 16) :
    eMBFuncWriteMultipleHoldingRegister ops t ctx = writeOutcome ops pdu t ctx := by
  have hne : pdu.getD 0 0 ≠ 6 := by
    rw [hcode]
    decide
  have hchecked : WriteChecked pdu ↔ 6 ≤ pdu.length ∧ 1 ≤ writeCount pdu ∧
      writeCount pdu ≤ 0x78 ∧ pdu.getD 5 0 = (2 * writeCount pdu).toUInt8 := by
    rw [WriteChecked, if_neg hne]
  have hcount : writeCount pdu = wordOf pdu 3 := if_neg hne
  have hvalues : writeValues pdu = 6 := if_neg hne
  have hlength : 5 + 1 ≤ ctx.usLength ↔ 6 ≤ pdu.length := by
    rw [← h.usLength]
    rfl
  unfold eMBFuncWriteMultipleHoldingRegister writeOutcome
  by_cases hsix : 6 ≤ pdu.length
  · have haddress : ctx.frameWord 1 = writeAddress pdu := frameWord_of_received h (by omega)
    have hregs : ctx.frameWord 3 = writeCount pdu := by
      rw [hcount]
      exact frameWord_of_received h (by omega)
    have hbytes : ctx.pucFrame 5 = pdu.getD 5 0 := pucFrame_of_received h (by omega)
    rw [if_pos (hlength.mpr hsix)]
    simp only [haddress, hregs, hbytes]
    by_cases hfields : 1 ≤ writeCount pdu ∧ writeCount pdu ≤ 0x78 ∧
        pdu.getD 5 0 = (2 * writeCount pdu).toUInt8
    · have hcheck : WriteChecked pdu := hchecked.mpr ⟨hsix, hfields⟩
      rw [if_pos hfields]
      simp only [regHoldingCB_write h.mbsidx]
      by_cases hrange : (writeAddress pdu).toNat + (writeCount pdu).toNat ≤ regHoldingNregs
      · have haccepted : WriteAccepted pdu := ⟨hcheck, hrange⟩
        simp only [if_pos hrange, if_pos haccepted, hvalues]
        rfl
      · have hrefused : ¬WriteAccepted pdu := fun hacc ↦ hrange hacc.2
        simp only [if_neg hrange, if_neg hrefused, writeException, if_pos hcheck]
        rfl
    · have hcheck : ¬WriteChecked pdu := fun hc ↦ hfields (hchecked.mp hc).2
      rw [if_neg hfields, if_neg fun hacc ↦ hcheck hacc.1, writeException, if_neg hcheck]
  · have hcheck : ¬WriteChecked pdu := fun hc ↦ hsix (hchecked.mp hc).1
    rw [if_neg fun hlen ↦ hsix (hlength.mp hlen), if_neg fun hacc ↦ hcheck hacc.1,
      writeException, if_neg hcheck]

/-- The function code of a write. -/
def IsWrite (pdu : List UInt8) : Prop := pdu.getD 0 0 = 6 ∨ pdu.getD 0 0 = 16

theorem length_pos_of_isWrite (h : IsWrite pdu) : 0 < pdu.length := by
  apply List.length_pos_of_ne_nil
  rintro rfl
  revert h
  unfold IsWrite
  decide

theorem handler_of_write (h : ctx.Received pdu) (hwrite : IsWrite pdu) :
    ∃ pxHandler, (xFuncHandlers ops).lookup (ctx.pucFrame 0) = some pxHandler ∧
      pxHandler t ctx.executing = writeOutcome ops pdu t ctx.executing := by
  have hfirst := pucFrame_of_received h (length_pos_of_isWrite hwrite)
  rcases hwrite with hcode | hcode
  · refine ⟨eMBFuncWriteHoldingRegister ops, ?_,
      eMBFuncWriteHoldingRegister_eq h.executing hcode⟩
    rw [hfirst, hcode]
    rfl
  · refine ⟨eMBFuncWriteMultipleHoldingRegister ops, ?_,
      eMBFuncWriteMultipleHoldingRegister_eq h.executing hcode⟩
    rw [hfirst, hcode]
    rfl

theorem five_le_of_accepted (h : WriteAccepted pdu) : 5 ≤ pdu.length := by
  have hchecked := h.1
  unfold WriteChecked at hchecked
  split_ifs at hchecked
  · exact hchecked.ge
  · omega

theorem answer_of_accepted (h : ctx.Received pdu) (hwrite : IsWrite pdu)
    (haccepted : WriteAccepted pdu) :
    answer ops t ctx =
      (writeTables ops t (writeAddress pdu) (writeCount pdu)
        (fun i ↦ ctx.pucFrame (writeValues pdu + i)), ctx.sends (pdu.take 5)) := by
  obtain ⟨pxHandler, hlookup, hcall⟩ := @handler_of_write D ops t ctx pdu h hwrite
  rw [writeOutcome, if_pos haccepted] at hcall
  rw [answer_of_handler hlookup hcall, if_pos rfl]
  exact congrArg (fun reply ↦ (_, ctx.sends reply))
    (pdu_of_received h (five_le_of_accepted haccepted))

theorem answer_of_refused (h : ctx.Received pdu) (hwrite : IsWrite pdu)
    (hrefused : ¬WriteAccepted pdu) :
    answer ops t ctx = (t, ctx.sends (exceptionReply (pdu.getD 0 0) (writeException pdu))) := by
  obtain ⟨pxHandler, hlookup, hcall⟩ := @handler_of_write D ops t ctx pdu h hwrite
  rw [writeOutcome, if_neg hrefused] at hcall
  have hframe : pxHandler t ctx.executing =
      (t, ctx.executing.withFrame ctx.ucRTUBuf ctx.usLength, writeException pdu) := hcall
  rw [answer_of_handler hlookup hframe, if_neg (writeException_ne_none pdu),
    pucFrame_of_received h (length_pos_of_isWrite hwrite)]

end Answers

section Leftovers

/-- Two contexts that have taken the same frame, with its checksum, for the
same address.  Behind the frame anything may stand. -/
structure SameFrame (pdu : List UInt8) (ctx₁ ctx₂ : Fmodbus) : Prop where
  first : ctx₁.Received pdu
  second : ctx₂.Received pdu
  ucRcvAddress : ctx₁.ucRcvAddress = ctx₂.ucRcvAddress
  checksum : ∀ i < pdu.length + 2, ctx₁.pucFrame i = ctx₂.pucFrame i

/-- Registers, quantities and reply do not depend on what stands behind the
frame, and a request that announces more than it carries is refused. -/
structure WritesOwnBytes (ops : Doubles D) (pdu : List UInt8) : Prop where
  agree : ∀ (t₁ t₂ : Tables D) (ctx₁ ctx₂ : Fmodbus), t₁.slave = t₂.slave →
    SameFrame pdu ctx₁ ctx₂ →
      (answer ops t₁ ctx₁).1.slave = (answer ops t₂ ctx₂).1.slave ∧
        (answer ops t₁ ctx₁).2 = (answer ops t₂ ctx₂).2
  refused : pdu.length < announced pdu → ∃ eException, eException ≠ .none ∧
    ∀ (t : Tables D) (ctx : Fmodbus), ctx.Received pdu →
      answer ops t ctx = (t, ctx.sends (exceptionReply (pdu.getD 0 0) eException))

/-- The values of an accepted request lie within its PDU. -/
def ValuesCarried (pdu : List UInt8) : Prop :=
  WriteAccepted pdu → writeValues pdu + 2 * (writeCount pdu).toNat ≤ pdu.length

theorem announced_of_accepted (h : WriteAccepted pdu) :
    announced pdu = writeValues pdu + 2 * (writeCount pdu).toNat := by
  have hchecked := h.1
  unfold announced writeValues
  unfold WriteChecked at hchecked
  by_cases hcode : pdu.getD 0 0 = 6
  · have hcount : writeCount pdu = 1 := if_pos hcode
    rw [if_pos hcode, if_pos hcode, hcount]
    rfl
  · rw [if_neg hcode] at hchecked ⊢
    rw [if_neg hcode]
    obtain ⟨-, -, hle, hbytes⟩ := hchecked
    have hcount : (writeCount pdu).toNat ≤ 120 := hle
    have htwo : (pdu.getD 5 0).toNat = 2 * (writeCount pdu).toNat := by
      rw [hbytes, UInt16.toNat_toUInt8, UInt16.toNat_mul]
      change 2 * (writeCount pdu).toNat % 2 ^ 16 % 2 ^ 8 = _
      omega
    rw [htwo, max_self]

theorem announced_le_of_accepted (h : WriteAccepted pdu) :
    writeValues pdu + 2 * (writeCount pdu).toNat ≤ 246 := by
  have hchecked := h.1
  unfold WriteChecked at hchecked
  unfold writeValues
  by_cases hcode : pdu.getD 0 0 = 6
  · have hcount : writeCount pdu = 1 := if_pos hcode
    rw [if_pos hcode, hcount]
    decide
  · rw [if_neg hcode] at hchecked ⊢
    have hle : (writeCount pdu).toNat ≤ 120 := hchecked.2.2.1
    omega

theorem agree_of_valuesCarried (hwrite : IsWrite pdu) (hcarried : ValuesCarried pdu)
    {t₁ t₂ : Tables D} {ctx₁ ctx₂ : Fmodbus} (hslave : t₁.slave = t₂.slave)
    (h : SameFrame pdu ctx₁ ctx₂) :
    (answer ops t₁ ctx₁).1.slave = (answer ops t₂ ctx₂).1.slave ∧
      (answer ops t₁ ctx₁).2 = (answer ops t₂ ctx₂).2 := by
  have hsends (reply : List UInt8) : ctx₁.sends reply = ctx₂.sends reply := by
    rw [Fmodbus.sends, Fmodbus.sends, h.ucRcvAddress]
  by_cases haccepted : WriteAccepted pdu
  · rw [answer_of_accepted h.first hwrite haccepted, answer_of_accepted h.second hwrite haccepted]
    refine ⟨?_, hsends _⟩
    have hwritten : WordMemory.write t₂.slave.usHoldingRegisters (writeAddress pdu).toNat
        (writeCount pdu).toNat (fun i ↦ ctx₁.pucFrame (writeValues pdu + i)) =
          WordMemory.write t₂.slave.usHoldingRegisters (writeAddress pdu).toNat
            (writeCount pdu).toNat fun i ↦ ctx₂.pucFrame (writeValues pdu + i) := by
      apply WordMemory.write_congr
      intro i hi
      have hle := hcarried haccepted
      exact h.checksum _ (by omega)
    simp only [writeTables, hslave, hwritten]
  · rw [answer_of_refused h.first hwrite haccepted, answer_of_refused h.second hwrite haccepted]
    exact ⟨hslave, hsends _⟩

theorem writesOwnBytes_iff (ops : Doubles D) (hwrite : IsWrite pdu) :
    WritesOwnBytes ops pdu ↔ ValuesCarried pdu := by
  constructor
  · intro hown haccepted
    by_contra hlong
    rw [← announced_of_accepted haccepted, not_le] at hlong
    obtain ⟨eException, -, hrefused⟩ := hown.refused hlong
    -- the request is accepted all the same, and its reply is no exception
    have hlength : pdu.length < 65536 := by
      have hle := announced_le_of_accepted haccepted
      rw [← announced_of_accepted haccepted] at hle
      omega
    have hreceived := received_taken hlength fun _ ↦ 0
    have hanswer := hrefused ⟨⟨simInit ops, fun _ ↦ 0⟩, fun _ ↦ 0⟩ _ hreceived
    rw [answer_of_accepted hreceived hwrite haccepted, sends_of_unicast unicast_taken,
      sends_of_unicast unicast_taken] at hanswer
    have hreply := congrArg List.length (Option.some.inj (congrArg Prod.snd hanswer))
    have hfive := five_le_of_accepted haccepted
    simp [exceptionReply] at hreply
    omega
  · intro hcarried
    refine ⟨fun _ _ _ _ ↦ agree_of_valuesCarried hwrite hcarried, fun hover ↦ ?_⟩
    have hrefused : ¬WriteAccepted pdu := by
      intro haccepted
      have hle := hcarried haccepted
      rw [announced_of_accepted haccepted] at hover
      omega
    exact ⟨writeException pdu, writeException_ne_none pdu,
      fun _ _ h ↦ answer_of_refused h hwrite hrefused⟩

/-- Function 16 with one register. -/
theorem writesOwnBytes_one : WritesOwnBytes Doubles.rational [16, 0x60, 0x20, 0, 1, 2, 0xFA, 0] :=
  (writesOwnBytes_iff .rational (.inr rfl)).mpr fun _ ↦ by decide

/-- Function 16 with two registers announced and none carried: the second
register is loaded from what stands behind the frame. -/
theorem not_writesOwnBytes :
    ¬∀ pdu : List UInt8, IsWrite pdu → WritesOwnBytes Doubles.rational pdu := by
  intro h
  have hown := h [16, 0, 0, 0, 2, 4] (.inr rfl)
  let t : Tables ℚ := ⟨⟨simInit .rational, fun _ ↦ 0⟩, fun _ ↦ 0⟩
  have hzero := @received_taken [16, 0, 0, 0, 2, 4] (by decide) fun _ ↦ 0
  have hone := @received_taken [16, 0, 0, 0, 2, 4] (by decide) fun i ↦ if i < 9 then 0 else 1
  have hslave := (hown.agree t t _ _ rfl ⟨hzero, hone, rfl, by decide⟩).1
  rw [answer_of_accepted hzero (.inr rfl) (by decide),
    answer_of_accepted hone (.inr rfl) (by decide)] at hslave
  have hregister := congrArg (fun s ↦ s.usHoldingRegisters 1) hslave
  exact absurd hregister (by decide)

end Leftovers

end Mbs
