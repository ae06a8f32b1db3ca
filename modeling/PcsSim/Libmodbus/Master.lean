import PcsSim.Libmodbus.Frames
import PcsSim.Modbus.Reads

/-!
# What a request makes of a reply

The frames of the requests, and the results for the three replies a slave
gives: registers, an echo of the request, and an exception.
-/

namespace Libmodbus

open Mbs (checksum rtuFrame crcBytes readRequest registersReply)

variable {line : List Arrival} {a a' n : UInt16} {adr adr' f code : UInt8}

section Requests

theorem byte_toNat (b : UInt8) : byte b.toNat = b := by
  apply UInt8.toNat_inj.mp
  have hlt := b.toNat_lt
  simp [byte]
  omega

theorem bytes_word (n : UInt16) :
    [byte (n.toNat / 256 : ℤ), byte n.toNat] = WordMemory.bytesOf n := by
  have hlt := n.toNat_lt
  have hhigh : byte (n.toNat / 256 : ℤ) = (n >>> 8).toUInt8 := by
    apply UInt8.toNat_inj.mp
    rw [WordMemory.toNat_high]
    simp [byte]
    omega
  have hlow : byte (n.toNat : ℤ) = (n &&& 0xFF).toUInt8 := by
    apply UInt8.toNat_inj.mp
    rw [WordMemory.toNat_low]
    simp [byte]
    omega
  rw [hhigh, hlow]
  rfl

theorem modbusRtuBuildRequestBasis_eq (adr f : UInt8) (a n : UInt16) :
    modbusRtuBuildRequestBasis ⟨adr.toNat⟩ f.toNat a.toNat n.toNat =
      .ok (adr :: readRequest f a n) := by
  have haddr := bytes_word a
  have hnb := bytes_word n
  rw [modbusRtuBuildRequestBasis, if_neg (by simp), byte_toNat, byte_toNat, readRequest,
    ← haddr, ← hnb]
  rfl

end Requests

section Replies

/-- The lengths of a frame that are told by its first three bytes. -/
theorem lengths_rtuFrame (b : UInt8) (rest : List UInt8)
    (hwhole : totalLength [adr, f, b] = rest.length + 5) :
    (rtuFrame adr (f :: b :: rest)).length = rest.length + 5 ∧
      totalLength (rtuFrame adr (f :: b :: rest)) = rest.length + 5 ∧
      headLength (rtuFrame adr (f :: b :: rest)) ≤ rest.length + 5 := by
  have hsplit : rtuFrame adr (f :: b :: rest) = [adr, f, b] ++ (rest ++
      crcBytes (UInt16.ofBitVec (checksum (adr :: f :: b :: rest)))) := by
    simp [rtuFrame]
  have htotal : totalLength (rtuFrame adr (f :: b :: rest)) = rest.length + 5 := by
    rw [hsplit, totalLength_append (by simp), hwhole]
  refine ⟨?_, htotal, ?_⟩
  · rw [hsplit]
    simp [crcBytes]
  · rw [← htotal]
    exact Nat.le_add_right _ _

theorem outcome_rtuFrame (b : UInt8) (rest : List UInt8)
    (hwhole : totalLength [adr, f, b] = rest.length + 5) (hroom : rest.length ≤ 251) :
    outcome (rtuFrame adr (f :: b :: rest)) = (.ok (rtuFrame adr (f :: b :: rest)), []) := by
  obtain ⟨hlength, htotal, hhead⟩ := lengths_rtuFrame b rest hwhole
  rw [outcome, confirmation, consumed, if_neg (by omega), if_neg (by omega), if_neg (by omega),
    if_neg (by omega), if_neg (by omega), htotal, ← hlength, List.take_length, List.drop_length,
    modbusRtuCheckIntegrity_eq (by omega), if_pos (Mbs.checksum_rtuFrame _ _)]

theorem exchange_written (req : List UInt8) (line : List Arrival) :
    exchange req (.ok (modbusRtuSendMsgPre req).length) line =
      ((receiveMsg line).1.bind fun rsp ↦
        (checkConfirmation req rsp).map fun rc ↦ some (rc, rsp), (receiveMsg line).2) := by
  have hpos : 0 < (modbusRtuSendMsgPre req).length := by
    simp [modbusRtuSendMsgPre]
  have hsent : sendMsg (modbusRtuSendMsgPre req) (.ok (modbusRtuSendMsgPre req).length) =
      .ok (modbusRtuSendMsgPre req).length := if_neg fun h ↦ h.2 rfl
  rw [exchange, hsent]
  simp only [if_pos hpos]

/-- A reply that comes whole, however divided, is compared with the request,
and nothing of it is left. -/
theorem exchange_eq {req : List UInt8} (b : UInt8) (rest : List UInt8)
    (hreply : Brings (rtuFrame adr (f :: b :: rest)) line)
    (hwhole : totalLength [adr, f, b] = rest.length + 5) (hroom : rest.length ≤ 251) :
    exchange req (.ok (modbusRtuSendMsgPre req).length) line =
      ((checkConfirmation req (rtuFrame adr (f :: b :: rest))).map fun rc ↦
        some (rc, rtuFrame adr (f :: b :: rest)), []) := by
  obtain ⟨line', hreceived, hleft⟩ := receiveMsg_eq hreply
  rw [outcome_rtuFrame b rest hwhole hroom] at hreceived hleft
  rw [exchange_written, hreceived, hleft.eq_nil]
  rfl

theorem getD_read (regs : ℕ → UInt16) (address count : ℕ) {i : ℕ} (hi : i < count) :
    (WordMemory.read regs address count).getD (2 * i) 0 = (regs (address + i) >>> 8).toUInt8 ∧
      (WordMemory.read regs address count).getD (2 * i + 1) 0 =
        (regs (address + i) &&& 0xFF).toUInt8 := by
  induction count generalizing address i with
  | zero => cases hi
  | succ count ih =>
      rw [WordMemory.read_succ]
      cases i with
      | zero => exact ⟨rfl, rfl⟩
      | succ i =>
          obtain ⟨hhigh, hlow⟩ := ih (address + 1) (Nat.lt_of_succ_lt_succ hi)
          rw [Nat.add_right_comm, Nat.add_assoc] at hhigh hlow
          exact ⟨hhigh, hlow⟩

/-- The request without its checksum. -/
def requestMsg (adr f : UInt8) (a n : UInt16) : List UInt8 := adr :: readRequest f a n

theorem getD_requestMsg : (requestMsg adr f a n).getD 1 0 = f := rfl

theorem wordAt_requestMsg : wordAt (requestMsg adr f a n) 4 = n.toNat := by
  have hhigh := WordMemory.toNat_high n
  have hlow := WordMemory.toNat_low n
  change (n >>> 8).toUInt8.toNat * 256 + (n &&& 0xFF).toUInt8.toNat = n.toNat
  omega

theorem checkConfirmation_of_values {req rsp : List UInt8} {k : ℕ}
    (hlength : computeResponseLengthFromRequest req = some rsp.length)
    (hfunction : rsp.getD 1 0 = req.getD 1 0)
    (hvalues : numberOfValues (rsp.getD 1 0) req rsp = (k, k)) :
    checkConfirmation req rsp = .ok k := by
  simp only [checkConfirmation, hlength, true_or, if_true, hvalues]
  rw [if_neg (not_not_intro hfunction)]

theorem computeResponseLength_read (hf : f = 3 ∨ f = 4) :
    computeResponseLengthFromRequest (requestMsg adr f a n) = some (5 + 2 * n.toNat) := by
  rw [computeResponseLengthFromRequest, getD_requestMsg, wordAt_requestMsg]
  rcases hf with rfl | rfl <;> simp <;> omega

theorem computeResponseLength_write {values : List UInt8} (hf : f = 5 ∨ f = 6 ∨ f = 16) :
    computeResponseLengthFromRequest (requestMsg adr f a n ++ values) = some 8 := by
  change computeResponseLengthFromRequest (adr :: f :: _) = some 8
  simp only [computeResponseLengthFromRequest, List.getD_cons_succ, List.getD_cons_zero]
  rcases hf with rfl | rfl | rfl <;> rfl

theorem checkConfirmation_registers (hf : f = 3 ∨ f = 4) (regs : ℕ → UInt16)
    (hn : n.toNat ≤ 125) :
    checkConfirmation (requestMsg adr f a' n) (rtuFrame adr' (registersReply f regs a n)) =
      .ok n.toNat := by
  have hlength : (rtuFrame adr' (registersReply f regs a n)).length = 5 + 2 * n.toNat := by
    simp [rtuFrame, registersReply, crcBytes]
    omega
  refine checkConfirmation_of_values
    ((computeResponseLength_read hf).trans (by rw [hlength])) rfl ?_
  have hcount : (2 * n.toNat).toUInt8.toNat / 2 = n.toNat := by
    simp
    omega
  change numberOfValues f (requestMsg adr f a' n) _ = _
  rw [numberOfValues, wordAt_requestMsg]
  rcases hf with rfl | rfl
  · exact congrArg (Prod.mk n.toNat) hcount
  · exact congrArg (Prod.mk n.toNat) hcount

/-- The reply to a write repeats the first bytes of the request. -/
theorem checkConfirmation_echo {values : List UInt8} (hf : f = 6 ∨ f = 16) :
    checkConfirmation (requestMsg adr f a n ++ values) (rtuFrame adr' (readRequest f a n)) =
      .ok (if f = 6 then 1 else n.toNat) := by
  have hlength : (rtuFrame adr' (readRequest f a n)).length = 8 := rfl
  refine checkConfirmation_of_values
    ((computeResponseLength_write (.inr hf)).trans (by rw [hlength])) rfl ?_
  change numberOfValues f (requestMsg adr f a n ++ values) _ = _
  have hreq : wordAt (requestMsg adr f a n ++ values) 4 = n.toNat :=
    @wordAt_requestMsg a n adr f
  have hrsp : wordAt (rtuFrame adr' (readRequest f a n)) 4 = n.toNat :=
    @wordAt_requestMsg a n adr' f
  simp only [numberOfValues, hreq, hrsp]
  rcases hf with rfl | rfl <;> rfl

/-- An exception is reported, unless the reply has the length of an answer. -/
theorem checkConfirmation_exception {req : List UInt8} (hf : f.toNat < 128)
    (hfunction : req.getD 1 0 = f) (hlength : computeResponseLengthFromRequest req ≠ none)
    (hlength' : computeResponseLengthFromRequest req ≠ some 5) (hcode : code.toNat < 12) :
    checkConfirmation req (rtuFrame adr' [f ||| 128, code]) = .error (.exception code) := by
  have hrsp : (rtuFrame adr' [f ||| 128, code]).length = 5 := rfl
  have hmarked : (f ||| 128).toNat = f.toNat + 128 := by
    have hor := Nat.two_pow_add_eq_or_of_lt (show f.toNat < 2 ^ 7 from hf) 1
    rw [UInt8.toNat_or, Nat.or_comm]
    change 2 ^ 7 * 1 ||| f.toNat = _
    omega
  have hdiffers : (f.toNat : ℤ) = ((rtuFrame adr' [f ||| 128, code]).getD 1 0).toNat - 0x80 := by
    change (f.toNat : ℤ) = ((f ||| 128).toNat : ℤ) - 128
    omega
  simp only [checkConfirmation, hrsp]
  rw [if_neg (by simp [hlength, hlength']), if_pos ⟨trivial, hfunction ▸ hdiffers⟩]
  exact if_pos hcode

end Replies

section Operations

/-- The operations of a channel on the registers of a slave.  The `int`s of the
source are words here: others than those of 16 bits are left out. -/
inductive Op
  | read (a n : UInt16)
  | readInput (a n : UInt16)
  | write (a value : UInt16)
  | writeBit (a : UInt16) (status : Bool)
  | writes (a n : UInt16) (src : ℕ → UInt16)

/-- The values of a write of several registers, with their number of bytes. -/
def values (n : UInt16) (src : ℕ → UInt16) : List UInt8 :=
  (2 * n).toUInt8 :: WordMemory.read src 0 n.toNat

def bitValue (status : Bool) : UInt16 := if status then 0xFF00 else 0

/-- Whether there are too many registers for a request. -/
def Op.TooMany : Op → Prop
  | read _ n => 125 < n.toNat
  | readInput _ n => 125 < n.toNat
  | write _ _ => False
  | writeBit _ _ => False
  | writes _ n _ => 123 < n.toNat

instance : (op : Op) → Decidable op.TooMany
  | .read _ n => inferInstanceAs (Decidable (125 < n.toNat))
  | .readInput _ n => inferInstanceAs (Decidable (125 < n.toNat))
  | .write _ _ => inferInstanceAs (Decidable False)
  | .writeBit _ _ => inferInstanceAs (Decidable False)
  | .writes _ n _ => inferInstanceAs (Decidable (123 < n.toNat))

/-- The request without address and checksum. -/
def Op.pdu : Op → List UInt8
  | read a n => readRequest 3 a n
  | readInput a n => readRequest 4 a n
  | write a value => readRequest 6 a value
  | writeBit a status => readRequest 5 a (bitValue status)
  | writes a n src => readRequest 16 a n ++ values n src

/-- What is sent. -/
def Op.frame (adr : UInt8) (op : Op) : List UInt8 := modbusRtuSendMsgPre (adr :: op.pdu)

/-- `rc` and what is stored. -/
def Op.run (ctx : Modbus) (written : Written) (line : List Arrival) :
    Op → Except Failure (ℕ × List UInt16) × List Arrival
  | read a n =>
      let (dest, line) := modbusReadRegisters ctx a.toNat n.toNat written line
      (dest.map fun dest ↦ (dest.length, dest), line)
  | readInput a n =>
      let (dest, line) := modbusReadInputRegisters ctx a.toNat n.toNat written line
      (dest.map fun dest ↦ (dest.length, dest), line)
  | write a value =>
      let (rc, line) := modbusWriteRegister ctx a.toNat value.toNat written line
      (rc.map fun rc ↦ (rc, []), line)
  | writeBit a status =>
      let (rc, line) := modbusWriteBit ctx a.toNat status written line
      (rc.map fun rc ↦ (rc, []), line)
  | writes a n src =>
      let (rc, line) := modbusWriteRegisters ctx a.toNat n.toNat src written line
      (rc.map fun rc ↦ (rc, []), line)

variable {written : Written} {op : Op}

theorem run_of_tooMany (h : op.TooMany) (ctx : Modbus) :
    op.run ctx written line = (.error (.errno .embMData), line) := by
  cases op with
  | read a n =>
      have hmax : modbusMaxReadRegisters < (n.toNat : ℤ) := Int.ofNat_lt.mpr h
      rw [Op.run, modbusReadRegisters, if_pos hmax]
      rfl
  | readInput a n =>
      have hmax : modbusMaxReadRegisters < (n.toNat : ℤ) := Int.ofNat_lt.mpr h
      rw [Op.run, modbusReadInputRegisters, if_pos hmax]
      rfl
  | write a value => cases h
  | writeBit a status => cases h
  | writes a n src =>
      have hmax : modbusMaxWriteRegisters < (n.toNat : ℤ) := Int.ofNat_lt.mpr h
      rw [Op.run, modbusWriteRegisters, if_pos hmax]
      rfl

/-- What the confirmation of a request is made into. -/
def Op.stored : Op → ℕ × List UInt8 → ℕ × List UInt16
  | read _ _, (rc, rsp) => (rc, registersOf rc rsp)
  | readInput _ _, (rc, rsp) => (rc, registersOf rc rsp)
  | write _ _, (rc, _) => (rc, [])
  | writeBit _ _, (rc, _) => (rc, [])
  | writes _ _ _, (rc, _) => (rc, [])

/-- The result of an operation, from that of its confirmation. -/
def Op.result (op : Op) (confirmed : Except Errno (ℕ × List UInt8)) :
    Except Failure (ℕ × List UInt16) :=
  match confirmed with
  | .error e => .error (.errno e)
  | .ok r => .ok (op.stored r)

variable {confirmed : Except Errno (ℕ × List UInt8)} {line' : List Arrival}

theorem readRegisters_of_exchange (hn : ¬125 < n.toNat)
    (hexchange : exchange (requestMsg adr f a n) written line = (confirmed.map some, line')) :
    readRegisters ⟨adr.toNat⟩ f.toNat a.toNat n.toNat written line =
      (match confirmed with
        | .error e => .error (.errno e)
        | .ok (rc, rsp) => .ok (registersOf rc rsp), line') := by
  have hmax : ¬modbusMaxReadRegisters < (n.toNat : ℤ) := fun h ↦ hn (Int.ofNat_lt.mp h)
  rw [requestMsg] at hexchange
  rw [readRegisters, if_neg hmax]
  simp only [request, modbusRtuBuildRequestBasis_eq, hexchange]
  cases confirmed <;> rfl

theorem writeSingle_of_exchange
    (hexchange : exchange (requestMsg adr f a n) written line = (confirmed.map some, line')) :
    writeSingle ⟨adr.toNat⟩ f.toNat a.toNat n.toNat written line =
      (match confirmed with
        | .error e => .error (.errno e)
        | .ok (rc, _) => .ok rc, line') := by
  rw [requestMsg] at hexchange
  rw [writeSingle]
  simp only [request, modbusRtuBuildRequestBasis_eq, hexchange]
  cases confirmed <;> rfl

theorem writeRegistersRequest_eq (src : ℕ → UInt16) :
    writeRegistersRequest ⟨adr.toNat⟩ a.toNat n.toNat src =
      .ok (adr :: (readRequest 16 a n ++ values n src)) := by
  have hbuild : modbusRtuBuildRequestBasis ⟨adr.toNat⟩ 0x10 a.toNat n.toNat =
      .ok (adr :: readRequest 16 a n) := modbusRtuBuildRequestBasis_eq adr 16 a n
  have hcount : byte (n.toNat * 2 : ℤ) = (2 * n).toUInt8 := by
    apply UInt8.toNat_inj.mp
    simp [byte]
    omega
  have hread : WordMemory.read src 0 n.toNat = (List.range n.toNat).flatMap fun i ↦
      [(src i >>> 8).toUInt8, (src i &&& 0xFF).toUInt8] := by
    simp only [WordMemory.read, Nat.zero_add]
    rfl
  rw [writeRegistersRequest]
  simp only [hbuild, bind, Except.bind, hcount, Int.toNat_natCast, ← hread]
  simp [values, pure, Except.pure]

theorem length_registersOf (rc : ℕ) (rsp : List UInt8) : (registersOf rc rsp).length = rc := by
  rw [registersOf, List.length_map, List.length_range]

theorem run_of_exchange (h : ¬op.TooMany)
    (hexchange : exchange (adr :: op.pdu) written line = (confirmed.map some, line')) :
    op.run ⟨adr.toNat⟩ written line = (op.result confirmed, line') := by
  cases op with
  | read a n =>
      have hmax : ¬modbusMaxReadRegisters < (n.toNat : ℤ) := fun hlt ↦ h (Int.ofNat_lt.mp hlt)
      have hread : readRegisters ⟨adr.toNat⟩ 0x03 a.toNat n.toNat written line = _ :=
        readRegisters_of_exchange h hexchange
      rw [Op.run, modbusReadRegisters, if_neg hmax, hread]
      cases confirmed with
      | error e => rfl
      | ok r => simp only [Except.map, length_registersOf, Op.result, Op.stored]
  | readInput a n =>
      have hmax : ¬modbusMaxReadRegisters < (n.toNat : ℤ) := fun hlt ↦ h (Int.ofNat_lt.mp hlt)
      have hread : readRegisters ⟨adr.toNat⟩ 0x04 a.toNat n.toNat written line = _ :=
        readRegisters_of_exchange h hexchange
      rw [Op.run, modbusReadInputRegisters, if_neg hmax, hread]
      cases confirmed with
      | error e => rfl
      | ok r => simp only [Except.map, length_registersOf, Op.result, Op.stored]
  | write a value =>
      have hwrite : writeSingle ⟨adr.toNat⟩ 0x06 a.toNat value.toNat written line = _ :=
        writeSingle_of_exchange hexchange
      rw [Op.run, modbusWriteRegister, hwrite]
      cases confirmed <;> rfl
  | writeBit a status =>
      have hwrite : writeSingle ⟨adr.toNat⟩ 0x05 a.toNat (bitValue status).toNat written line =
          _ := writeSingle_of_exchange hexchange
      have hvalue : (if status then 0xFF00 else 0 : ℤ) = (bitValue status).toNat := by
        cases status <;> rfl
      rw [Op.run, modbusWriteBit, hvalue, hwrite]
      cases confirmed <;> rfl
  | writes a n src =>
      have hmax : ¬modbusMaxWriteRegisters < (n.toNat : ℤ) := fun hlt ↦ h (Int.ofNat_lt.mp hlt)
      rw [Op.pdu] at hexchange
      rw [Op.run, modbusWriteRegisters, if_neg hmax]
      simp only [request, writeRegistersRequest_eq, hexchange]
      cases confirmed <;> rfl

end Operations

end Libmodbus
