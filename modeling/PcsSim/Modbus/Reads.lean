import PcsSim.Modbus.Functions

/-!
# Read requests

A request of 5 bytes asks for `n` registers from `a` on.  The answers of both
handlers are computed by `answer_readRegisters`; they are compared with what
the request asks for, for every `a` and `n`.
-/

namespace Mbs

variable {D : Type} {ops : Doubles D} {t : Tables D} {ctx : Fmodbus} {a n : UInt16}

def readRequest (ucFunctionCode : UInt8) (a n : UInt16) : List UInt8 :=
  ucFunctionCode :: WordMemory.bytesOf a ++ WordMemory.bytesOf n

/-- The reply with the registers. -/
def registersReply (ucFunctionCode : UInt8) (regs : ℕ → UInt16) (a n : UInt16) : List UInt8 :=
  ucFunctionCode :: (2 * n.toNat).toUInt8 :: WordMemory.read regs a.toNat n.toNat

theorem registersReply_ne {ucFunctionCode : UInt8} (h : ucFunctionCode ≠ ucFunctionCode ||| 128)
    {regs : ℕ → UInt16} {eException : MbException} :
    registersReply ucFunctionCode regs a n ≠ exceptionReply ucFunctionCode eException := by
  intro heq
  exact h (List.cons.inj heq).1

section Decoding

variable {ucFunctionCode : UInt8} (h : ctx.Received (readRequest ucFunctionCode a n))
include h

theorem usLength_of_readRequest : ctx.usLength = 5 :=
  UInt16.toNat_inj.mp h.usLength

theorem code_of_readRequest : ctx.pucFrame 0 = ucFunctionCode :=
  h.pucFrame 0 _ rfl

theorem address_of_readRequest : ctx.frameWord 1 = a := by
  have hhigh : ctx.pucFrame 1 = (a >>> 8).toUInt8 := h.pucFrame 1 _ rfl
  have hlow : ctx.pucFrame 2 = (a &&& 0xFF).toUInt8 := h.pucFrame 2 _ rfl
  rw [Fmodbus.frameWord, hhigh, hlow, WordMemory.word_of_bytes]

theorem lowCount_of_readRequest : ctx.pucFrame 4 = (n &&& 0xFF).toUInt8 :=
  h.pucFrame 4 _ rfl

theorem count_of_readRequest : ctx.frameWord 3 = n := by
  have hhigh : ctx.pucFrame 3 = (n >>> 8).toUInt8 := h.pucFrame 3 _ rfl
  rw [Fmodbus.frameWord, hhigh, lowCount_of_readRequest h, WordMemory.word_of_bytes]

end Decoding

theorem toUInt8_mul_two (n : UInt16) : (n * 2).toUInt8 = (2 * n.toNat).toUInt8 := by
  apply UInt8.toNat_inj.mp
  simp
  omega

theorem answer_readRegisters {ucFunctionCode : UInt8} {usRegCount : UInt16} {valid : Bool}
    {callback : Callback D} {pxHandler : Handler D}
    (hlookup : (xFuncHandlers ops).lookup (ctx.pucFrame 0) = some pxHandler)
    (hhandler : pxHandler t ctx.executing =
      readRegisters ucFunctionCode usRegCount valid callback t ctx.executing)
    (hcode : ctx.pucFrame 0 = ucFunctionCode) (hunicast : ctx.ucRcvAddress ≠ 0)
    (hlength : ctx.usLength = 5) (hvalid : valid → usRegCount.toNat ≤ 125)
    (hbytes : (callback t).2.1 = .enoerr →
      (callback t).2.2.length = 2 * usRegCount.toNat) :
    answer ops t ctx =
      if valid then
        ((callback t).1, some (
          if (callback t).2.1 = .enoerr then
            ucFunctionCode :: (2 * usRegCount.toNat).toUInt8 :: (callback t).2.2
          else exceptionReply ucFunctionCode .illegalDataAddress))
      else (t, some (exceptionReply ucFunctionCode .illegalDataValue)) := by
  have hlength : ctx.executing.usLength = 4 + 1 := hlength
  rw [readRegisters, if_pos hlength] at hhandler
  cases hcheck : valid with
  | false =>
      rw [if_neg (by simp [hcheck])] at hhandler
      have hframe : pxHandler t ctx.executing =
          (t, ctx.executing.withFrame ctx.ucRTUBuf ctx.usLength, .illegalDataValue) := hhandler
      rw [answer_of_handler hlookup hframe, sends_of_unicast hunicast, hcode]
      rfl
  | true =>
      rw [if_pos hcheck] at hhandler
      rcases hcall : callback t with ⟨t', eRegStatus, bytes⟩
      simp only [hcall] at hhandler hbytes ⊢
      -- the bytes stored are those of the header followed by those of the callback
      have hstored : storeBytes (storeBytes ctx.ucRTUBuf ctx.ucMBFrame
          [ucFunctionCode, (usRegCount * 2).toUInt8]) (ctx.ucMBFrame + 2) bytes =
          storeBytes ctx.ucRTUBuf ctx.ucMBFrame
            (ucFunctionCode :: (usRegCount * 2).toUInt8 :: bytes) :=
        storeBytes_append bytes
      cases eRegStatus with
      | enoerr =>
          have hframe : pxHandler t ctx.executing = (t', ctx.executing.withFrame
              (storeBytes ctx.ucRTUBuf ctx.ucMBFrame
                (ucFunctionCode :: (usRegCount * 2).toUInt8 :: bytes))
              (2 + usRegCount * 2), .none) := by
            rw [hhandler, ← hstored]
            rfl
          have hcount := hvalid hcheck
          have hlen : (2 + usRegCount * 2).toNat =
              (ucFunctionCode :: (usRegCount * 2).toUInt8 :: bytes).length := by
            simp only [List.length_cons, hbytes rfl, UInt16.toNat_add, UInt16.toNat_mul]
            change (2 + usRegCount.toNat * 2 % 2 ^ 16) % 2 ^ 16 = _
            omega
          rw [answer_of_handler hlookup hframe, sends_of_unicast hunicast, if_pos rfl,
            pdu_storeBytes hlen, toUInt8_mul_two]
          rfl
      | enoreg =>
          have hframe : pxHandler t ctx.executing = (t', ctx.executing.withFrame
              (storeBytes ctx.ucRTUBuf ctx.ucMBFrame
                (ucFunctionCode :: (usRegCount * 2).toUInt8 :: bytes))
              2, .illegalDataAddress) := by
            rw [hhandler, ← hstored]
            rfl
          rw [answer_of_handler hlookup hframe, sends_of_unicast hunicast, hcode]
          rfl

/-! ## Holding registers -/

section Holding

/-- What the handler takes for the count. -/
def lowCount (n : UInt16) : UInt16 := (n &&& 0xFF).toUInt8.toUInt16

theorem toNat_lowCount (n : UInt16) : (lowCount n).toNat = n.toNat % 256 := by
  rw [lowCount, UInt8.toNat_toUInt16, WordMemory.toNat_low]

theorem regHoldingCB_read (pucRegBuffer : ℕ → UInt8) :
    regHoldingCB ops mbsidxMdl pucRegBuffer a n .read t =
      if a.toNat + n.toNat ≤ regHoldingNregs then
        ({ t with slave := on03ReadMultipleHoldingRegisters ops t.slave }, .enoerr,
          WordMemory.read (on03ReadMultipleHoldingRegisters ops t.slave).usHoldingRegisters
            a.toNat n.toNat)
      else (t, .enoreg, []) := by
  split_ifs with hrange
  · rw [regHoldingCB, eMBRegHoldingCB_read _ hrange]
    rfl
  · rw [regHoldingCB, eMBRegHoldingCB_outOfRange _ hrange]
    rfl

theorem answer_readHoldingRegister (h : ctx.Received (readRequest 3 a n))
    (hunicast : ctx.ucRcvAddress ≠ 0) :
    answer ops t ctx =
      if 1 ≤ lowCount n ∧ lowCount n ≤ 0x7D then
        if a.toNat + (lowCount n).toNat ≤ regHoldingNregs then
          ({ t with slave := on03ReadMultipleHoldingRegisters ops t.slave },
            some (registersReply 3
              (on03ReadMultipleHoldingRegisters ops t.slave).usHoldingRegisters a (lowCount n)))
        else (t, some (exceptionReply 3 .illegalDataAddress))
      else (t, some (exceptionReply 3 .illegalDataValue)) := by
  have hcount : (ctx.executing.pucFrame 4).toUInt16 = lowCount n := by
    rw [lowCount_of_readRequest h.executing, lowCount]
  have hhandler : eMBFuncReadHoldingRegister ops t ctx.executing =
      readRegisters 3 (lowCount n) (1 ≤ lowCount n ∧ lowCount n ≤ 0x7D)
        (regHoldingCB ops mbsidxMdl (fun i ↦ ctx.executing.pucFrame (2 + i)) a (lowCount n)
          .read) t ctx.executing := by
    simp only [eMBFuncReadHoldingRegister, hcount, address_of_readRequest h.executing,
      h.executing.mbsidx]
  have hlookup : (xFuncHandlers ops).lookup (ctx.pucFrame 0) =
      some (eMBFuncReadHoldingRegister ops) := by
    rw [code_of_readRequest h]
    rfl
  rw [answer_readRegisters hlookup hhandler (code_of_readRequest h) hunicast
    (usLength_of_readRequest h)]
  · simp only [decide_eq_true_eq, regHoldingCB_read]
    by_cases hrange : a.toNat + (lowCount n).toNat ≤ regHoldingNregs
    · simp only [if_pos hrange]
      rfl
    · simp only [if_neg hrange]
      rfl
  · intro hvalid
    exact (of_decide_eq_true hvalid).2
  · rw [regHoldingCB_read]
    split_ifs
    · intro _
      exact WordMemory.length_read _ _ _
    · intro hstatus
      cases hstatus

/-- The request is answered as it asks: with the registers if the count and the
range allow it, and otherwise with the exception that says what is wrong,
leaving everything as it was. -/
structure HoldingReadAnswered (ops : Doubles D) (t : Tables D) (ctx : Fmodbus) (a n : UInt16) :
    Prop where
  served : 1 ≤ n.toNat → n.toNat ≤ 125 → a.toNat + n.toNat ≤ regHoldingNregs →
    answer ops t ctx =
      ({ t with slave := on03ReadMultipleHoldingRegisters ops t.slave },
        some (registersReply 3
          (on03ReadMultipleHoldingRegisters ops t.slave).usHoldingRegisters a n))
  illegalValue : n.toNat = 0 ∨ 125 < n.toNat →
    answer ops t ctx = (t, some (exceptionReply 3 .illegalDataValue))
  illegalAddress : 1 ≤ n.toNat → n.toNat ≤ 125 → regHoldingNregs < a.toNat + n.toNat →
    answer ops t ctx = (t, some (exceptionReply 3 .illegalDataAddress))

/-- The count is below 256, or its low byte is no valid count either. -/
def CountRead (n : UInt16) : Prop :=
  n.toNat < 256 ∨ n.toNat % 256 = 0 ∨ 125 < n.toNat % 256

theorem holdingReadAnswered_iff (h : ctx.Received (readRequest 3 a n))
    (hunicast : ctx.ucRcvAddress ≠ 0) :
    HoldingReadAnswered ops t ctx a n ↔ CountRead n := by
  have hanswer := @answer_readHoldingRegister D ops t ctx a n h hunicast
  have hlow := toNat_lowCount n
  have hcheck : (1 ≤ lowCount n ∧ lowCount n ≤ 0x7D) ↔
      1 ≤ n.toNat % 256 ∧ n.toNat % 256 ≤ 125 := by
    rw [← hlow]
    exact Iff.rfl
  simp only [hcheck] at hanswer
  constructor
  · intro hread
    by_contra hcount
    simp only [CountRead, not_or, Nat.not_lt] at hcount
    -- the count is too high, but its low byte passes
    have hrefused := hread.illegalValue (.inr (by omega))
    rw [hanswer, if_pos (by omega)] at hrefused
    split_ifs at hrefused
    · exact registersReply_ne (by decide) (Option.some.inj (congrArg Prod.snd hrefused))
    · simp [exceptionReply, MbException.code] at hrefused
  · intro hcount
    by_cases hsmall : n.toNat < 256
    · obtain hsame : lowCount n = n := UInt16.toNat_inj.mp (by omega)
      rw [Nat.mod_eq_of_lt hsmall, hsame] at hanswer
      refine ⟨fun hpos hle hrange ↦ ?_, fun hbad ↦ ?_, fun hpos hle hrange ↦ ?_⟩
      · rw [hanswer, if_pos ⟨hpos, hle⟩, if_pos hrange]
      · rw [hanswer, if_neg (by omega)]
      · rw [hanswer, if_pos ⟨hpos, hle⟩, if_neg (by omega)]
    · -- the low byte is refused as the count has to be
      rw [if_neg (by unfold CountRead at hcount; omega)] at hanswer
      exact ⟨by omega, fun _ ↦ hanswer, by omega⟩

/-- Two registers from 0x6020 on. -/
theorem holdingReadAnswered_two :
    HoldingReadAnswered .rational ⟨⟨simInit .rational, fun _ ↦ 0⟩, fun _ ↦ 0⟩
      (.taken (readRequest 3 0x6020 2) fun _ ↦ 0) 0x6020 2 :=
  (holdingReadAnswered_iff (received_taken (by decide) _) unicast_taken).mpr (.inl (by decide))

/-- A count of 257 is answered with one register. -/
theorem not_holdingReadAnswered :
    ¬∀ ctx : Fmodbus, ctx.Received (readRequest 3 0 257) → ctx.ucRcvAddress ≠ 0 →
      HoldingReadAnswered .rational ⟨⟨simInit .rational, fun _ ↦ 0⟩, fun _ ↦ 0⟩ ctx 0 257 := by
  intro h
  have hread := @received_taken (readRequest 3 0 257) (by decide) fun _ ↦ 0
  have hrefused := (h _ hread unicast_taken).illegalValue (.inr (by decide))
  rw [answer_readHoldingRegister hread unicast_taken, if_pos (by decide), if_pos (by decide)]
    at hrefused
  exact registersReply_ne (by decide) (Option.some.inj (congrArg Prod.snd hrefused))

end Holding

section Inputs

/-- The handler adds one to the address. -/
theorem answer_readInputRegister (h : ctx.Received (readRequest 4 a n))
    (hunicast : ctx.ucRcvAddress ≠ 0) :
    answer ops t ctx =
      if 1 ≤ n ∧ n < 0x7D then
        if (a + 1).toNat + n.toNat ≤ regInputNregs then
          (on04ReadInputRegisters ops t,
            some (registersReply 4 (on04ReadInputRegisters ops t).usInputRegisters (a + 1) n))
        else (t, some (exceptionReply 4 .illegalDataAddress))
      else (t, some (exceptionReply 4 .illegalDataValue)) := by
  have hhandler : eMBFuncReadInputRegister ops t ctx.executing =
      readRegisters 4 n (1 ≤ n ∧ n < 0x7D) (eMBRegInputCB ops mbsidxMdl (a + 1) n) t
        ctx.executing := by
    simp only [eMBFuncReadInputRegister, count_of_readRequest h.executing,
      address_of_readRequest h.executing, h.executing.mbsidx]
  have hlookup : (xFuncHandlers ops).lookup (ctx.pucFrame 0) =
      some (eMBFuncReadInputRegister ops) := by
    rw [code_of_readRequest h]
    rfl
  have hcallback : eMBRegInputCB ops mbsidxMdl (a + 1) n t =
      if (a + 1).toNat + n.toNat ≤ regInputNregs then
        (on04ReadInputRegisters ops t, .enoerr,
          WordMemory.read (on04ReadInputRegisters ops t).usInputRegisters (a + 1).toNat n.toNat)
      else (t, .enoreg, []) := by
    rw [eMBRegInputCB, if_pos rfl, ← readLoop_eq]
  rw [answer_readRegisters hlookup hhandler (code_of_readRequest h) hunicast
    (usLength_of_readRequest h)]
  · simp only [decide_eq_true_eq, hcallback]
    by_cases hrange : (a + 1).toNat + n.toNat ≤ regInputNregs
    · simp only [if_pos hrange]
      rfl
    · simp only [if_neg hrange]
      rfl
  · intro hvalid
    have hlt : n.toNat < 125 := (of_decide_eq_true hvalid).2
    omega
  · rw [hcallback]
    split_ifs
    · intro _
      exact WordMemory.length_read _ _ _
    · intro hstatus
      cases hstatus

/-- The request is answered with the registers that it asks for if there are
so many, and otherwise with an exception. -/
structure InputReadAnswered (ops : Doubles D) (t : Tables D) (ctx : Fmodbus) (a n : UInt16) :
    Prop where
  served : 1 ≤ n.toNat → n.toNat ≤ 125 → a.toNat + n.toNat ≤ regInputNregs →
    (answer ops t ctx).2 =
      some (registersReply 4 (on04ReadInputRegisters ops t).usInputRegisters a n)
  refused : ¬(1 ≤ n.toNat ∧ n.toNat ≤ 125 ∧ a.toNat + n.toNat ≤ regInputNregs) →
    ∃ eException, eException ≠ .none ∧
      (answer ops t ctx).2 = some (exceptionReply 4 eException)

/-- Where the shift by one register makes no difference: what is to be served
has a further register behind it and holds one value throughout, this register
included, and what is to be refused does not start at 0xFFFF. -/
def ShiftUnseen (ops : Doubles D) (t : Tables D) (a n : UInt16) : Prop :=
  if 1 ≤ n.toNat ∧ n.toNat ≤ 125 ∧ a.toNat + n.toNat ≤ regInputNregs then
    n.toNat ≤ 124 ∧ a.toNat + 1 + n.toNat ≤ regInputNregs ∧
      ∀ i < n.toNat, (on04ReadInputRegisters ops t).usInputRegisters (a.toNat + 1 + i) =
        (on04ReadInputRegisters ops t).usInputRegisters (a.toNat + i)
  else n.toNat = 0 ∨ 125 ≤ n.toNat ∨ a ≠ 0xFFFF

theorem toNat_succ (h : a ≠ 0xFFFF) : (a + 1).toNat = a.toNat + 1 := by
  have hlt := a.toNat_lt
  have hne : a.toNat ≠ 65535 := fun heq ↦ h (UInt16.toNat_inj.mp heq)
  rw [UInt16.toNat_add]
  exact Nat.mod_eq_of_lt (by change a.toNat + 1 < 2 ^ 16; omega)

theorem inputReadAnswered_iff (h : ctx.Received (readRequest 4 a n))
    (hunicast : ctx.ucRcvAddress ≠ 0) :
    InputReadAnswered ops t ctx a n ↔ ShiftUnseen ops t a n := by
  have hanswer := @answer_readInputRegister D ops t ctx a n h hunicast
  have hcheck : (1 ≤ n ∧ n < 0x7D) ↔ 1 ≤ n.toNat ∧ n.toNat < 125 := Iff.rfl
  simp only [hcheck] at hanswer
  unfold ShiftUnseen
  by_cases hserve : 1 ≤ n.toNat ∧ n.toNat ≤ 125 ∧ a.toNat + n.toNat ≤ regInputNregs
  · have hlast : a ≠ 0xFFFF := by
      rintro rfl
      have hle : 65535 + n.toNat ≤ 0x5400 := hserve.2.2
      omega
    rw [if_pos hserve]
    rw [toNat_succ hlast] at hanswer
    constructor
    · intro hread
      have hserved := hread.served hserve.1 hserve.2.1 hserve.2.2
      rw [hanswer] at hserved
      split_ifs at hserved with hcount hrange
      · refine ⟨by omega, hrange, ?_⟩
        have hsame := List.cons.inj (Option.some.inj hserved)
        have hwords := WordMemory.read_eq_read_iff.mp (List.cons.inj hsame.2).2
        rwa [toNat_succ hlast] at hwords
      · exact absurd (Option.some.inj hserved).symm (registersReply_ne (by decide))
      · exact absurd (Option.some.inj hserved).symm (registersReply_ne (by decide))
    · rintro ⟨hcount, hrange, hwords⟩
      refine ⟨fun _ _ _ ↦ ?_, fun hbad ↦ absurd hserve hbad⟩
      rw [hanswer, if_pos (by omega), if_pos hrange]
      have hread := WordMemory.read_eq_read_iff.mpr hwords
      rw [registersReply, registersReply, toNat_succ hlast, hread]
  · rw [if_neg hserve]
    constructor
    · intro hread
      obtain ⟨eException, -, hrefused⟩ := hread.refused hserve
      by_contra hcond
      simp only [not_or, not_le, not_not] at hcond
      obtain ⟨hpos, hlt, rfl⟩ := hcond
      -- the address wraps around to 0, so the first registers are served
      have hzero : ((0xFFFF : UInt16) + 1).toNat = 0 := rfl
      rw [hanswer, if_pos (by omega), hzero, if_pos (by simp only [regInputNregs]; omega)]
        at hrefused
      exact registersReply_ne (by decide) (Option.some.inj hrefused)
    · intro hcond
      refine ⟨fun hpos hle hrange ↦ absurd ⟨hpos, hle, hrange⟩ hserve, fun _ ↦ ?_⟩
      rw [hanswer]
      split_ifs with hcount hrange
      · have hlast : a ≠ 0xFFFF := by
          rcases hcond with hzero | hge | hlast
          · omega
          · omega
          · exact hlast
        rw [toNat_succ hlast] at hrange
        omega
      · exact ⟨.illegalDataAddress, by decide, rfl⟩
      · exact ⟨.illegalDataValue, by decide, rfl⟩

/-- Two registers equal to the one behind them. -/
theorem inputReadAnswered_two :
    InputReadAnswered .rational ⟨⟨simInit .rational, fun _ ↦ 0⟩, fun _ ↦ 0⟩
      (.taken (readRequest 4 2 2) fun _ ↦ 0) 2 2 := by
  apply (inputReadAnswered_iff (received_taken (by decide) _) unicast_taken).mpr
  rw [ShiftUnseen, if_pos (by decide)]
  exact ⟨by decide, by decide, by decide⟩

/-- The input register `i` holds `i`. -/
def countingInputs : Tables ℚ := ⟨⟨simInit .rational, fun _ ↦ 0⟩, fun i ↦ i.toUInt16⟩

/-- A request for register 2 is answered with register 3. -/
theorem not_inputReadAnswered :
    ¬∀ ctx : Fmodbus, ctx.Received (readRequest 4 2 1) → ctx.ucRcvAddress ≠ 0 →
      InputReadAnswered .rational countingInputs ctx 2 1 := by
  intro h
  have hread := @received_taken (readRequest 4 2 1) (by decide) fun _ ↦ 0
  have hserved := (h _ hread unicast_taken).served (by decide) (by decide) (by decide)
  rw [answer_readInputRegister hread unicast_taken, if_pos (by decide), if_pos (by decide)]
    at hserved
  exact absurd hserved (by decide)

end Inputs

end Mbs
