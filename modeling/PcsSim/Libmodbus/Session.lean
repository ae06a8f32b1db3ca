import PcsSim.Libmodbus.Master
import PcsSim.Modbus.Broadcast
import PcsSim.Modbus.Exchange
import PcsSim.Modbus.Memory
import PcsSim.Modbus.Writes

/-!
# A channel and the slave

The requests of a channel and the slave's replies go over one line, divided in
any way.  Seen from the channel the slave is an object that executes one
operation after another, and with exact doubles its holding registers are a
memory.
-/

namespace Libmodbus

open Mbs (rtuFrame readRequest registersReply exceptionReply MbException Tables SlaveState
  PollInput Delivers Quiet Ready SameSlave regHoldingNregs regInputNregs)

variable {D : Type} {ops : Doubles D} {t t' : Tables D} {adr : UInt8} {op : Op}

section Results

variable {line : List Arrival} {a n : UInt16} {adr' f : UInt8} {eException : MbException}

theorem run_of_reply (b : UInt8) (rest : List UInt8) (h : ¬op.TooMany)
    (hreply : Brings (rtuFrame adr' (f :: b :: rest)) line)
    (hwhole : totalLength [adr', f, b] = rest.length + 5) (hroom : rest.length ≤ 251) :
    op.run ⟨adr.toNat⟩ (.ok (op.frame adr).length) line =
      (op.result ((checkConfirmation (adr :: op.pdu) (rtuFrame adr' (f :: b :: rest))).map
        fun rc ↦ (rc, rtuFrame adr' (f :: b :: rest))), []) := by
  have hexchange : exchange (adr :: op.pdu) (.ok (op.frame adr).length) line = _ :=
    exchange_eq b rest hreply hwhole hroom
  apply run_of_exchange h
  rw [hexchange]
  cases checkConfirmation (adr :: op.pdu) (rtuFrame adr' (f :: b :: rest)) <;> rfl

/-- The words of a read. -/
def words (regs : ℕ → UInt16) (a n : UInt16) : List UInt16 :=
  (List.range n.toNat).map fun i ↦ regs (a.toNat + i)

theorem registersOf_reply (regs : ℕ → UInt16) :
    registersOf n.toNat (rtuFrame adr' (registersReply f regs a n)) = words regs a n := by
  apply List.map_congr_left
  intro i hi
  have hlt := List.mem_range.mp hi
  obtain ⟨hhigh, hlow⟩ := getD_read regs a.toNat n.toNat hlt
  have hframe (j : ℕ) (hj : j < 2 * n.toNat) :
      (rtuFrame adr' (registersReply f regs a n)).getD (3 + j) 0 =
        (WordMemory.read regs a.toNat n.toNat).getD j 0 := by
    rw [Nat.add_comm 3]
    apply List.getD_append
    rw [registersReply, List.length_cons, List.length_cons, List.length_cons,
      WordMemory.length_read]
    omega
  have hsucc : 4 + 2 * i = 3 + (2 * i + 1) := by omega
  rw [hsucc, hframe _ (by omega), hframe _ (by omega), hhigh, hlow, WordMemory.word_of_bytes]

theorem run_of_registers (hf : f = 3 ∨ f = 4) (regs : ℕ → UInt16) (hn : n.toNat ≤ 125)
    {a' : UInt16} (h : ¬op.TooMany) (hpdu : op.pdu = readRequest f a' n)
    (hreply : Brings (rtuFrame adr' (registersReply f regs a n)) line) :
    op.run ⟨adr.toNat⟩ (.ok (op.frame adr).length) line =
      (.ok (op.stored (n.toNat, rtuFrame adr' (registersReply f regs a n))), []) := by
  have hwhole : totalLength [adr', f, (2 * n.toNat).toUInt8] =
      (WordMemory.read regs a.toNat n.toNat).length + 5 := by
    have hbyte : (2 * n.toNat).toUInt8.toNat = 2 * n.toNat := Nat.mod_eq_of_lt (by omega)
    rw [WordMemory.length_read]
    rcases hf with rfl | rfl
    · change 3 + ((2 * n.toNat).toUInt8.toNat + 2) = _
      omega
    · change 3 + ((2 * n.toNat).toUInt8.toNat + 2) = _
      omega
  have hchecked := @checkConfirmation_registers a a' n adr adr' f hf regs hn
  rw [requestMsg, ← hpdu] at hchecked
  rw [run_of_reply (2 * n.toNat).toUInt8 (WordMemory.read regs a.toNat n.toNat) h hreply
    hwhole (by rw [WordMemory.length_read]; omega), ← registersReply, hchecked]
  rfl

theorem run_of_echo {values : List UInt8} (hf : f = 6 ∨ f = 16) (h : ¬op.TooMany)
    (hpdu : op.pdu = readRequest f a n ++ values)
    (hreply : Brings (rtuFrame adr' (readRequest f a n)) line) :
    op.run ⟨adr.toNat⟩ (.ok (op.frame adr).length) line =
      (.ok (op.stored (if f = 6 then 1 else n.toNat, rtuFrame adr' (readRequest f a n))), []) := by
  have hwhole : totalLength [adr', f, (a >>> 8).toUInt8] = 3 + 5 := by
    rcases hf with rfl | rfl <;> rfl
  have hchecked := @checkConfirmation_echo a n adr adr' f values hf
  rw [requestMsg, List.cons_append, ← hpdu] at hchecked
  have hrun := @run_of_reply adr op line adr' f (a >>> 8).toUInt8
    ((a &&& 0xFF).toUInt8 :: WordMemory.bytesOf n) h hreply hwhole (by simp [WordMemory.bytesOf])
  have hframe : f :: (a >>> 8).toUInt8 :: (a &&& 0xFF).toUInt8 :: WordMemory.bytesOf n =
      readRequest f a n := rfl
  rw [hrun, hframe, hchecked]
  rfl

/-- A reply of five bytes with the function code marked. -/
theorem run_of_marked (hf : f = 3 ∨ f = 4 ∨ f = 5 ∨ f = 6 ∨ f = 16) (h : ¬op.TooMany)
    (hreply : Brings (rtuFrame adr' (exceptionReply f eException)) line) :
    op.run ⟨adr.toNat⟩ (.ok (op.frame adr).length) line =
      (op.result ((checkConfirmation (adr :: op.pdu)
        (rtuFrame adr' (exceptionReply f eException))).map
          fun rc ↦ (rc, rtuFrame adr' (exceptionReply f eException))), []) := by
  have hwhole : totalLength [adr', f ||| 128, eException.code] = 0 + 5 := by
    rcases hf with rfl | rfl | rfl | rfl | rfl <;> rfl
  exact run_of_reply eException.code [] h hreply hwhole (by simp)

theorem run_of_exception (hf : f = 3 ∨ f = 4 ∨ f = 5 ∨ f = 6 ∨ f = 16) (h : ¬op.TooMany)
    (hfunction : op.pdu.getD 0 0 = f) {length : ℕ}
    (hlength : computeResponseLengthFromRequest (adr :: op.pdu) = some length) (hne : length ≠ 5)
    (hreply : Brings (rtuFrame adr' (exceptionReply f eException)) line) :
    op.run ⟨adr.toNat⟩ (.ok (op.frame adr).length) line =
      (.error (.errno (.exception eException.code)), []) := by
  have hsmall : f.toNat < 128 := by
    rcases hf with rfl | rfl | rfl | rfl | rfl <;> decide
  have hcode : eException.code.toNat < 12 := by
    cases eException <;> decide
  have hchecked := @checkConfirmation_exception adr' f eException.code (adr :: op.pdu) hsmall
    hfunction (by simp [hlength]) (by simp [hlength, hne]) hcode
  rw [run_of_marked hf h hreply, exceptionReply, hchecked]
  rfl

/-- A read of no register expects a reply of the length of an exception. -/
theorem run_of_zero (hf : f = 3 ∨ f = 4) (hn : n.toNat = 0) (h : ¬op.TooMany)
    (hpdu : op.pdu = readRequest f a n)
    (hreply : Brings (rtuFrame adr' (exceptionReply f eException)) line) :
    op.run ⟨adr.toNat⟩ (.ok (op.frame adr).length) line =
      (.error (.errno .embBadData), []) := by
  have hlength : computeResponseLengthFromRequest (adr :: op.pdu) = some 5 := by
    rw [hpdu, ← requestMsg, computeResponseLength_read hf, hn]
  have hreplyLength : (rtuFrame adr' (exceptionReply f eException)).length = 5 := rfl
  have hfunction : (rtuFrame adr' (exceptionReply f eException)).getD 1 0 ≠
      (adr :: op.pdu).getD 1 0 := by
    rw [hpdu]
    change f ||| 128 ≠ f
    rcases hf with rfl | rfl <;> decide
  have hchecked : checkConfirmation (adr :: op.pdu)
      (rtuFrame adr' (exceptionReply f eException)) = .error .embBadData := by
    simp only [checkConfirmation, hlength, hreplyLength, true_or, if_true]
    exact if_pos hfunction
  have hf' : f = 3 ∨ f = 4 ∨ f = 5 ∨ f = 6 ∨ f = 16 := by
    rcases hf with rfl | rfl
    · exact .inl rfl
    · exact .inr (.inl rfl)
  rw [run_of_marked hf' h hreply, hchecked]
  rfl

/-- No reply comes. -/
theorem run_of_silence (h : ¬op.TooMany) :
    op.run ⟨adr.toNat⟩ (.ok (op.frame adr).length) [] =
      (.error (.errno .etimedout), []) := by
  have hexchange : exchange (adr :: op.pdu) (.ok (op.frame adr).length) [] =
      (.error .etimedout, []) := exchange_written _ _
  exact @run_of_exchange [] adr _ op (.error .etimedout) [] h hexchange

end Results

section Slave

/-- The object that a channel talks to. -/
def serve (ops : Doubles D) (t : Tables D) :
    Op → Tables D × Except Failure (ℕ × List UInt16)
  | .read a n =>
      -- the exception for it has the length of the reply that is expected
      if n.toNat = 0 then (t, .error (.errno .embBadData))
      else if a.toNat + n.toNat ≤ regHoldingNregs then
        let slave := Mbs.on03ReadMultipleHoldingRegisters ops t.slave
        ({ t with slave := slave }, .ok (n.toNat, words slave.usHoldingRegisters a n))
      else (t, .error (.errno (.exception 2)))
  | .readInput a n =>
      if n.toNat = 0 then (t, .error (.errno .embBadData))
      -- the slave serves one register less than a channel asks for, and from
      -- the next address on
      else if 125 ≤ n.toNat then (t, .error (.errno (.exception 3)))
      else if (a + 1).toNat + n.toNat ≤ regInputNregs then
        let t := Mbs.on04ReadInputRegisters ops t
        (t, .ok (n.toNat, words t.usInputRegisters (a + 1) n))
      else (t, .error (.errno (.exception 2)))
  | .write a value =>
      if a.toNat + 1 ≤ regHoldingNregs then
        let regs := Function.update t.slave.usHoldingRegisters a.toNat value
        ({ t with slave := Mbs.on06WriteSingleHoldingRegister ops ⟨t.slave.mdl, regs⟩ },
          .ok (1, []))
      else (t, .error (.errno (.exception 2)))
  -- the slave has no coils
  | .writeBit _ _ => (t, .error (.errno (.exception 1)))
  | .writes a n src =>
      -- the slave takes three registers less than a channel sends
      if n.toNat = 0 ∨ 120 < n.toNat then (t, .error (.errno (.exception 3)))
      else if a.toNat + n.toNat ≤ regHoldingNregs then
        let regs := fun i ↦ if a.toNat ≤ i ∧ i < a.toNat + n.toNat then src (i - a.toNat)
          else t.slave.usHoldingRegisters i
        ({ t with slave := Mbs.on06WriteSingleHoldingRegister ops ⟨t.slave.mdl, regs⟩ },
          .ok (n.toNat, []))
      else (t, .error (.errno (.exception 2)))

variable {ctx : Mbs.Fmodbus} {a n : UInt16} {src : ℕ → UInt16}

theorem lowCount_of_le (hn : n.toNat ≤ 125) : Mbs.lowCount n = n := by
  apply UInt16.toNat_inj.mp
  rw [Mbs.toNat_lowCount]
  omega

/-- The request for a write of several registers. -/
def writesPdu (a n : UInt16) (src : ℕ → UInt16) : List UInt8 := readRequest 16 a n ++ values n src

theorem wordOf_writesPdu : Mbs.writeAddress (writesPdu a n src) = a ∧
    Mbs.writeCount (writesPdu a n src) = n :=
  ⟨WordMemory.word_of_bytes a, WordMemory.word_of_bytes n⟩

theorem wordOf_write : Mbs.writeAddress (readRequest 6 a n) = a ∧
    Mbs.writeCount (readRequest 6 a n) = 1 :=
  ⟨WordMemory.word_of_bytes a, rfl⟩

theorem writeChecked_writesPdu :
    Mbs.WriteChecked (writesPdu a n src) ↔ 1 ≤ n.toNat ∧ n.toNat ≤ 120 := by
  have hlength : 6 ≤ (writesPdu a n src).length := by
    simp [writesPdu, readRequest, values, WordMemory.bytesOf]
  have hne : (writesPdu a n src).getD 0 0 ≠ 6 := by
    change (16 : UInt8) ≠ 6
    decide
  have hbytes : (writesPdu a n src).getD 5 0 = (2 * n).toUInt8 := rfl
  rw [Mbs.WriteChecked, if_neg hne, wordOf_writesPdu.2]
  constructor
  · rintro ⟨-, hpos, hle, -⟩
    exact ⟨hpos, hle⟩
  · rintro ⟨hpos, hle⟩
    exact ⟨hlength, hpos, hle, hbytes⟩

/-- The words that are written are those that the channel has. -/
theorem wordAt_values (h : ctx.Received (writesPdu a n src)) {i : ℕ} (hi : i < n.toNat) :
    WordMemory.wordAt (fun j ↦ ctx.pucFrame (6 + j)) i = src i := by
  obtain ⟨hhigh, hlow⟩ := getD_read src 0 n.toNat hi
  rw [Nat.zero_add] at hhigh hlow
  have hlength : (writesPdu a n src).length = 6 + 2 * n.toNat := by
    simp [writesPdu, readRequest, values, WordMemory.bytesOf]
    omega
  have hframe (j : ℕ) (hj : j < 2 * n.toNat) :
      ctx.pucFrame (6 + j) = (WordMemory.read src 0 n.toNat).getD j 0 := by
    rw [Mbs.pucFrame_of_received h (by omega), Nat.add_comm 6]
    rfl
  rw [WordMemory.wordAt, hframe _ (by omega), hframe _ (by omega), hhigh, hlow,
    WordMemory.word_of_bytes]

theorem write_values (h : ctx.Received (writesPdu a n src)) (mem : ℕ → UInt16) :
    WordMemory.write mem a.toNat n.toNat (fun j ↦ ctx.pucFrame (6 + j)) =
      fun i ↦ if a.toNat ≤ i ∧ i < a.toNat + n.toNat then src (i - a.toNat) else mem i := by
  funext i
  unfold WordMemory.write
  split_ifs with hin
  · exact wordAt_values h (by omega)
  · rfl

theorem write_value (h : ctx.Received (readRequest 6 a n)) (mem : ℕ → UInt16) :
    WordMemory.write mem a.toNat 1 (fun j ↦ ctx.pucFrame (3 + j)) =
      Function.update mem a.toNat n := by
  have hhigh : ctx.pucFrame 3 = (n >>> 8).toUInt8 := h.pucFrame 3 _ rfl
  have hlow : ctx.pucFrame 4 = (n &&& 0xFF).toUInt8 := h.pucFrame 4 _ rfl
  rw [WordMemory.write_succ, WordMemory.write_zero, WordMemory.wordAt]
  simp only [Nat.mul_zero, Nat.add_zero, Nat.zero_add, hhigh, hlow, WordMemory.word_of_bytes]

theorem isWrite_writesPdu : Mbs.IsWrite (writesPdu a n src) := .inr rfl

theorem isWrite_write : Mbs.IsWrite (readRequest 6 a n) := .inl rfl

end Slave

section Transactions

/-- What the slave answers and what the channel makes of it are as `serve`
has them. -/
def Answered (ops : Doubles D) (t : Tables D) (adr : UInt8) (op : Op) (ctx : Mbs.Fmodbus) :
    Prop :=
  ∃ t' reply, Mbs.answer ops t ctx = (t', some reply) ∧ (serve ops t op).1 = t' ∧
    ∀ line, Brings (rtuFrame adr reply) line →
      op.run ⟨adr.toNat⟩ (.ok (op.frame adr).length) line =
        ((serve ops t op).2, [])

variable {ctx : Mbs.Fmodbus} {a n : UInt16} {src : ℕ → UInt16}

theorem answered_read (h : ¬(Op.read a n).TooMany) (hreceived : ctx.Received (readRequest 3 a n))
    (hunicast : ctx.ucRcvAddress ≠ 0) : Answered ops t adr (.read a n) ctx := by
  have hn : ¬125 < n.toNat := h
  have hpdu : (Op.read a n).pdu = readRequest 3 a n := rfl
  have hlength : computeResponseLengthFromRequest (adr :: (Op.read a n).pdu) =
      some (5 + 2 * n.toNat) := computeResponseLength_read (.inl rfl)
  have hanswer := @Mbs.answer_readHoldingRegister D ops t ctx a n hreceived hunicast
  have hcheck : (1 ≤ n ∧ n ≤ 0x7D) ↔ n.toNat ≠ 0 :=
    ⟨fun hboth ↦ Nat.one_le_iff_ne_zero.mp hboth.1, fun hne ↦
      ⟨Nat.one_le_iff_ne_zero.mpr hne, Nat.le_of_not_lt hn⟩⟩
  rw [lowCount_of_le (by omega)] at hanswer
  simp only [hcheck] at hanswer
  by_cases hzero : n.toNat = 0
  · rw [if_neg (not_not_intro hzero)] at hanswer
    have hserve : serve ops t (.read a n) = (t, .error (.errno .embBadData)) := if_pos hzero
    refine ⟨_, _, hanswer, congrArg Prod.fst hserve, fun line hreply ↦ ?_⟩
    rw [hserve]
    exact run_of_zero (.inl rfl) hzero h hpdu hreply
  · rw [if_pos hzero] at hanswer
    by_cases hrange : a.toNat + n.toNat ≤ regHoldingNregs
    · rw [if_pos hrange] at hanswer
      refine ⟨_, _, hanswer, ?_, fun line hreply ↦ ?_⟩
      · rw [serve, if_neg hzero, if_pos hrange]
      · rw [serve, if_neg hzero, if_pos hrange,
          run_of_registers (.inl rfl) _ (Nat.le_of_not_lt hn) h hpdu hreply, Op.stored,
          registersOf_reply]
    · rw [if_neg hrange] at hanswer
      refine ⟨_, _, hanswer, ?_, fun line hreply ↦ ?_⟩
      · rw [serve, if_neg hzero, if_neg hrange]
      · rw [serve, if_neg hzero, if_neg hrange]
        exact run_of_exception (.inl rfl) h rfl hlength (by omega) hreply

theorem answered_readInput (h : ¬(Op.readInput a n).TooMany)
    (hreceived : ctx.Received (readRequest 4 a n)) (hunicast : ctx.ucRcvAddress ≠ 0) :
    Answered ops t adr (.readInput a n) ctx := by
  have hn : ¬125 < n.toNat := h
  have hpdu : (Op.readInput a n).pdu = readRequest 4 a n := rfl
  have hlength : computeResponseLengthFromRequest (adr :: (Op.readInput a n).pdu) =
      some (5 + 2 * n.toNat) := computeResponseLength_read (.inr rfl)
  have hanswer := @Mbs.answer_readInputRegister D ops t ctx a n hreceived hunicast
  have hcheck : (1 ≤ n ∧ n < 0x7D) ↔ 1 ≤ n.toNat ∧ n.toNat < 125 := Iff.rfl
  simp only [hcheck] at hanswer
  by_cases hzero : n.toNat = 0
  · rw [if_neg (by omega)] at hanswer
    have hserve : serve ops t (.readInput a n) = (t, .error (.errno .embBadData)) := if_pos hzero
    refine ⟨_, _, hanswer, congrArg Prod.fst hserve, fun line hreply ↦ ?_⟩
    rw [hserve]
    exact run_of_zero (.inr rfl) hzero h hpdu hreply
  · by_cases hlast : 125 ≤ n.toNat
    · rw [if_neg (by omega)] at hanswer
      refine ⟨_, _, hanswer, ?_, fun line hreply ↦ ?_⟩
      · rw [serve, if_neg hzero, if_pos hlast]
      · rw [serve, if_neg hzero, if_pos hlast]
        exact run_of_exception (.inr (.inl rfl)) h rfl hlength (by omega) hreply
    · rw [if_pos (by omega)] at hanswer
      by_cases hrange : (a + 1).toNat + n.toNat ≤ regInputNregs
      · rw [if_pos hrange] at hanswer
        refine ⟨_, _, hanswer, ?_, fun line hreply ↦ ?_⟩
        · rw [serve, if_neg hzero, if_neg hlast, if_pos hrange]
        · rw [serve, if_neg hzero, if_neg hlast, if_pos hrange,
            run_of_registers (.inr rfl) _ (Nat.le_of_not_lt hn) h hpdu hreply, Op.stored,
            registersOf_reply]
      · rw [if_neg hrange] at hanswer
        refine ⟨_, _, hanswer, ?_, fun line hreply ↦ ?_⟩
        · rw [serve, if_neg hzero, if_neg hlast, if_neg hrange]
        · rw [serve, if_neg hzero, if_neg hlast, if_neg hrange]
          exact run_of_exception (.inr (.inl rfl)) h rfl hlength (by omega) hreply

/-- A write that the slave refuses. -/
theorem answered_of_refused {f : UInt8} {values : List UInt8} (hf : f = 6 ∨ f = 16)
    (h : ¬op.TooMany) (hpdu : op.pdu = readRequest f a n ++ values)
    (hreceived : ctx.Received op.pdu) (hunicast : ctx.ucRcvAddress ≠ 0)
    (hwrite : Mbs.IsWrite op.pdu) (hrefused : ¬Mbs.WriteAccepted op.pdu)
    (hserve : serve ops t op =
      (t, .error (.errno (.exception (Mbs.writeException op.pdu).code)))) :
    Answered ops t adr op ctx := by
  have hanswer := @Mbs.answer_of_refused D ops t ctx _ hreceived hwrite hrefused
  have hfunction : op.pdu.getD 0 0 = f := by
    rw [hpdu]
    rfl
  have hlength : computeResponseLengthFromRequest (adr :: op.pdu) = some 8 := by
    rw [hpdu]
    exact computeResponseLength_write (.inr hf)
  rw [Mbs.sends_of_unicast hunicast, hfunction] at hanswer
  refine ⟨_, _, hanswer, congrArg Prod.fst hserve, fun line hreply ↦ ?_⟩
  rw [hserve]
  exact run_of_exception (.inr (.inr (.inr hf))) h hfunction hlength (by decide) hreply

theorem answered_write (hreceived : ctx.Received (readRequest 6 a n))
    (hunicast : ctx.ucRcvAddress ≠ 0) : Answered ops t adr (.write a n) ctx := by
  have hfew : ¬(Op.write a n).TooMany := not_false
  have hpdu : (Op.write a n).pdu = readRequest 6 a n ++ [] := (List.append_nil _).symm
  have hchecked : Mbs.WriteChecked (readRequest 6 a n) := rfl
  obtain ⟨haddress, hcount⟩ := @wordOf_write a n
  by_cases hrange : a.toNat + 1 ≤ regHoldingNregs
  · have haccepted : Mbs.WriteAccepted (readRequest 6 a n) := by
      refine ⟨hchecked, ?_⟩
      rwa [haddress, hcount]
    have hanswer := @Mbs.answer_of_accepted D ops t ctx _ hreceived isWrite_write haccepted
    rw [Mbs.sends_of_unicast hunicast, haddress, hcount, Mbs.writeTables] at hanswer
    have hwritten := write_value hreceived t.slave.usHoldingRegisters
    refine ⟨_, _, hanswer, ?_, fun line hreply ↦ ?_⟩
    · rw [serve, if_pos hrange, ← hwritten]
      rfl
    · rw [serve, if_pos hrange]
      exact run_of_echo (.inl rfl) hfew hpdu hreply
  · have hrefused : ¬Mbs.WriteAccepted (readRequest 6 a n) := by
      intro haccepted
      have hin := haccepted.2
      rw [haddress, hcount] at hin
      exact hrange hin
    apply answered_of_refused (.inl rfl) hfew hpdu hreceived hunicast isWrite_write hrefused
    change _ = (t, Except.error (Failure.errno (.exception
      (Mbs.writeException (readRequest 6 a n)).code)))
    rw [serve, if_neg hrange, Mbs.writeException, if_pos hchecked]
    rfl

theorem answered_writeBit {status : Bool}
    (hreceived : ctx.Received (readRequest 5 a (bitValue status)))
    (hunicast : ctx.ucRcvAddress ≠ 0) : Answered ops t adr (.writeBit a status) ctx := by
  have hfew : ¬(Op.writeBit a status).TooMany := not_false
  have hcode : ctx.pucFrame 0 = 5 := hreceived.pucFrame 0 _ rfl
  have hanswer := @Mbs.answer_of_unknown D ops t ctx (by rw [hcode]; rfl)
  rw [Mbs.sends_of_unicast hunicast, hcode] at hanswer
  refine ⟨_, _, hanswer, rfl, fun line hreply ↦ ?_⟩
  have hlength : computeResponseLengthFromRequest
      (adr :: (readRequest 5 a (bitValue status) ++ [])) = some 8 :=
    computeResponseLength_write (.inl rfl)
  rw [List.append_nil] at hlength
  exact run_of_exception (.inr (.inr (.inl rfl))) hfew rfl hlength (by decide) hreply

theorem answered_writes (h : ¬(Op.writes a n src).TooMany)
    (hreceived : ctx.Received (writesPdu a n src)) (hunicast : ctx.ucRcvAddress ≠ 0) :
    Answered ops t adr (.writes a n src) ctx := by
  have hpdu : (Op.writes a n src).pdu = readRequest 16 a n ++ values n src := rfl
  obtain ⟨haddress, hcount⟩ := @wordOf_writesPdu a n src
  have hchecked := @writeChecked_writesPdu a n src
  by_cases hvalid : 1 ≤ n.toNat ∧ n.toNat ≤ 120
  · have hok : ¬(n.toNat = 0 ∨ 120 < n.toNat) := by omega
    by_cases hrange : a.toNat + n.toNat ≤ regHoldingNregs
    · have haccepted : Mbs.WriteAccepted (writesPdu a n src) := by
        refine ⟨hchecked.mpr hvalid, ?_⟩
        rwa [haddress, hcount]
      have hanswer := @Mbs.answer_of_accepted D ops t ctx _ hreceived isWrite_writesPdu haccepted
      rw [Mbs.sends_of_unicast hunicast, haddress, hcount, Mbs.writeTables] at hanswer
      have hwritten := write_values hreceived t.slave.usHoldingRegisters
      refine ⟨_, _, hanswer, ?_, fun line hreply ↦ ?_⟩
      · rw [serve, if_neg hok, if_pos hrange, ← hwritten]
        rfl
      · rw [serve, if_neg hok, if_pos hrange]
        exact run_of_echo (.inr rfl) h hpdu hreply
    · have hrefused : ¬Mbs.WriteAccepted (writesPdu a n src) := by
        intro haccepted
        have hin := haccepted.2
        rw [haddress, hcount] at hin
        exact hrange hin
      apply answered_of_refused (.inr rfl) h hpdu hreceived hunicast isWrite_writesPdu hrefused
      change _ = (t, Except.error (Failure.errno (.exception
        (Mbs.writeException (writesPdu a n src)).code)))
      rw [serve, if_neg hok, if_neg hrange, Mbs.writeException, if_pos (hchecked.mpr hvalid)]
      rfl
  · have hrefused : ¬Mbs.WriteAccepted (writesPdu a n src) := fun haccepted ↦
      hvalid (hchecked.mp haccepted.1)
    apply answered_of_refused (.inr rfl) h hpdu hreceived hunicast isWrite_writesPdu hrefused
    change _ = (t, Except.error (Failure.errno (.exception
      (Mbs.writeException (writesPdu a n src)).code)))
    rw [serve, if_pos (by omega), Mbs.writeException, if_neg (mt hchecked.mp hvalid)]
    rfl

theorem answered (h : ¬op.TooMany) (hreceived : ctx.Received op.pdu)
    (hunicast : ctx.ucRcvAddress ≠ 0) : Answered ops t adr op ctx := by
  cases op with
  | read a n => exact answered_read h hreceived hunicast
  | readInput a n => exact answered_readInput h hreceived hunicast
  | write a value => exact answered_write hreceived hunicast
  | writeBit a status => exact answered_writeBit hreceived hunicast
  | writes a n src => exact answered_writes h hreceived hunicast

/-- A request to an address, with the object at `own`: a broadcast is served
without a reply, and what is for others is not heard. -/
def addressed {σ : Type} (exec : σ → Op → σ × Except Failure (ℕ × List UInt16)) (own : UInt8)
    (s : σ) (request : UInt8 × Op) : σ × Except Failure (ℕ × List UInt16) :=
  if request.2.TooMany then (s, .error (.errno .embMData))
  else if request.1 = own then exec s request.2
  else if request.1 = 0 then ((exec s request.2).1, .error (.errno .etimedout))
  else (s, .error (.errno .etimedout))

theorem pdu_ne_nil (op : Op) : op.pdu ≠ [] := by
  cases op <;> exact List.cons_ne_nil _ _

theorem length_pdu (h : ¬op.TooMany) : op.pdu.length ≤ 252 := by
  cases op with
  | read a n => simp [Op.pdu, readRequest, WordMemory.bytesOf]
  | readInput a n => simp [Op.pdu, readRequest, WordMemory.bytesOf]
  | write a value => simp [Op.pdu, readRequest, WordMemory.bytesOf]
  | writeBit a status => simp [Op.pdu, readRequest, WordMemory.bytesOf]
  | writes a n src =>
      have hn : ¬123 < n.toNat := h
      simp [Op.pdu, readRequest, values, WordMemory.bytesOf]
      omega

theorem fitsBuffer_request (h : ¬op.TooMany) :
    Mbs.BelowMaximum (op.frame adr) := by
  have hle := length_pdu h
  rw [Op.frame, modbusRtuSendMsgPre_eq]
  refine ⟨List.cons_ne_nil _ _, ?_⟩
  simp [rtuFrame, Mbs.crcBytes]
  omega

variable {ctx₀ : Mbs.Fmodbus} {pdu written : List UInt8}

theorem framePdu_rtuFrame : Mbs.framePdu (rtuFrame adr pdu) = pdu := by
  simp [Mbs.framePdu, rtuFrame, Mbs.crcBytes]

theorem undamaged_rtuFrame (hpdu : pdu ≠ []) : Mbs.Undamaged (rtuFrame adr pdu) := by
  have hpos := List.length_pos_iff.mpr hpdu
  refine ⟨?_, Mbs.checksum_rtuFrame adr pdu⟩
  simp [rtuFrame, Mbs.crcBytes]
  omega

/-- What comes of a request, by the address that it is for. -/
theorem exchange_request (hready : Ready ctx₀) (h : ¬op.TooMany)
    (hexchange : Mbs.Exchange ops ctx₀ t (rtuFrame adr op.pdu) t' written)
    {line : List Arrival} (hline : Brings written line) :
    ∃ result, op.run ⟨adr.toNat⟩ (.ok (op.frame adr).length) line =
        (result, []) ∧ addressed (serve ops) ctx₀.ucMBAddress t (adr, op) = (t', result) := by
  have haddress : Mbs.frameAddress (rtuFrame adr op.pdu) = adr := rfl
  have hwhole := @undamaged_rtuFrame adr op.pdu (pdu_ne_nil op)
  have hunheard : written = [] → line = [] := fun hnil ↦ (hnil ▸ hline).eq_nil
  cases hexchange with
  | ignored hother =>
      have hmine : ¬(adr = ctx₀.ucMBAddress ∨ adr = 0) := fun hmine ↦ hother ⟨hwhole, hmine⟩
      rw [hunheard rfl, run_of_silence h]
      refine ⟨_, rfl, ?_⟩
      rw [addressed, if_neg h, if_neg fun hsame ↦ hmine (.inl hsame),
        if_neg fun hzero ↦ hmine (.inr hzero)]
  | @silent ctx _ hmine hsame hreceived hrcv hanswer =>
      rw [framePdu_rtuFrame] at hreceived
      rw [haddress] at hrcv
      by_cases hzero : adr = 0
      · -- the tables are those of the same request to the slave alone
        have hreceived' : ({ ctx with ucRcvAddress := 1 } : Mbs.Fmodbus).Received op.pdu :=
          ⟨hreceived.mbsidx, hreceived.usLength, hreceived.pucFrame⟩
        have hone : (1 : UInt8) ≠ 0 := by decide
        obtain ⟨t₁, reply, hanswer₁, hserve, -⟩ := @answered D ops t adr op _ h hreceived' hone
        have htables := @Mbs.answer_fst_readdressed D ops t ctx 1
        rw [hanswer, hanswer₁] at htables
        have hother : adr ≠ ctx₀.ucMBAddress := fun hsame ↦ hready.unicast (hsame ▸ hzero)
        rw [hunheard rfl, run_of_silence h]
        refine ⟨_, rfl, ?_⟩
        rw [addressed, if_neg h, if_neg hother, if_pos hzero]
        exact congrArg (·, _) (hserve.trans htables)
      · obtain ⟨t₁, reply, hanswer₁, -⟩ := @answered D ops t adr op _ h hreceived (hrcv ▸ hzero)
        rw [hanswer] at hanswer₁
        cases hanswer₁
  | @answered ctx _ reply hmine hsame hreceived hrcv hanswer =>
      rw [framePdu_rtuFrame] at hreceived
      rw [haddress] at hrcv
      have hunicast : adr ≠ 0 := by
        intro hzero
        have hnone := @Mbs.answer_snd_of_broadcast D ops t ctx
          (hreceived.usLength.trans_le (length_pdu h))
          (hsame.usMBSlaveIDLen ▸ hready.usMBSlaveIDLen) (hrcv.trans hzero)
        rw [hanswer] at hnone
        cases hnone
      obtain rfl : adr = ctx₀.ucMBAddress := hmine.2.resolve_right hunicast
      obtain ⟨t₁, reply₁, hanswer₁, hserve, hrun⟩ :=
        @Libmodbus.answered D ops t ctx₀.ucMBAddress op _ h hreceived (hrcv ▸ hunicast)
      rw [hanswer] at hanswer₁
      cases hanswer₁
      refine ⟨_, hrun line hline, ?_⟩
      rw [addressed, if_neg h, if_pos rfl]
      exact congrArg (·, _) hserve

/-- The slave that a request is delivered to, and what it writes. -/
theorem polls_request {s : SlaveState D} {inputs quiet : List PollInput} (hready : Ready s.2)
    (h : ¬op.TooMany) (hdelivers : Delivers (op.frame adr) inputs)
    (hquiet : Quiet quiet) (hfour : 4 ≤ quiet.length) :
    ∃ s' written, Mbs.polls ops s (inputs ++ quiet) = .ok (s', written) ∧ Ready s'.2 ∧
      s'.2.ucMBAddress = s.2.ucMBAddress ∧ ∀ line, Brings written line →
        ∃ result, op.run ⟨adr.toNat⟩ (.ok (op.frame adr).length) line = (result, []) ∧
          addressed (serve ops) s.2.ucMBAddress s.1 (adr, op) = (s'.1, result) := by
  obtain ⟨t, c⟩ := s
  have hready : Ready c := hready
  obtain ⟨t', c', written, hpolls, hidle, hexchange⟩ :=
    @Mbs.polls_exchange D ops t _ _ _ _ _ hready.idle hready hdelivers
      (fitsBuffer_request h) hquiet hfour
  rw [Op.frame, modbusRtuSendMsgPre_eq] at hexchange
  exact ⟨(t', c'), written, hpolls, hidle.ready hready, hidle.sameSlave.ucMBAddress,
    fun line hline ↦ exchange_request hready h hexchange hline⟩

/-- A slave and the line on which its replies come. -/
abbrev End (D : Type) := SlaveState D × List Arrival

/-- An operation of the channel.  A request that is made is delivered to the
slave, which has the time to reply, and what it writes comes behind what is
left on the line. -/
inductive Transacts (ops : Doubles D) :
    End D → UInt8 × Op → End D → Except Failure (ℕ × List UInt16) → Prop
  | refused {adr : UInt8} {op : Op} {s : SlaveState D} {line line' : List Arrival}
      {written : Written} {result : Except Failure (ℕ × List UInt16)} (h : op.TooMany)
      (hrun : op.run ⟨adr.toNat⟩ written line = (result, line')) :
      Transacts ops (s, line) (adr, op) (s, line') result
  | carried {adr : UInt8} {op : Op} {s s' : SlaveState D} {line line' reply : List Arrival}
      {written : List UInt8} {inputs quiet : List PollInput}
      {result : Except Failure (ℕ × List UInt16)} (h : ¬op.TooMany)
      (hdelivers : Delivers (op.frame adr) inputs) (hquiet : Quiet quiet)
      (hfour : 4 ≤ quiet.length) (hpolls : Mbs.polls ops s (inputs ++ quiet) = .ok (s', written))
      (hreply : Brings written reply)
      (hrun : op.run ⟨adr.toNat⟩ (.ok (op.frame adr).length) (line ++ reply) =
        (result, line')) :
      Transacts ops (s, line) (adr, op) (s', line') result

/-- Between two operations the slave waits, and the line is empty. -/
structure AtRest (own : UInt8) (e : End D) : Prop where
  ready : Ready e.1.2
  ucMBAddress : e.1.2.ucMBAddress = own
  line : e.2 = []

variable {own : UInt8} {e e' : End D}

theorem transacts_serve {request : UInt8 × Op} {result : Except Failure (ℕ × List UInt16)}
    (he : AtRest own e) (h : Transacts ops e request e' result) :
    addressed (serve ops) own e.1.1 request = (e'.1.1, result) ∧ AtRest own e' := by
  obtain ⟨hready, rfl, hline⟩ := he
  cases h with
  | refused h hrun =>
      obtain rfl := hline
      rw [run_of_tooMany h] at hrun
      cases hrun
      exact ⟨if_pos h, hready, rfl, rfl⟩
  | carried h hdelivers hquiet hfour hpolls hreply hrun =>
      obtain rfl := hline
      obtain ⟨s₁, written, hpolls', hready', hown, hcarried⟩ :=
        @polls_request D ops _ _ _ _ _ hready h hdelivers hquiet hfour
      rw [hpolls] at hpolls'
      cases hpolls'
      obtain ⟨result', hrun', hserve⟩ := hcarried _ hreply
      rw [List.nil_append, hrun'] at hrun
      cases hrun
      exact ⟨hserve, hready', hown, rfl⟩

/-- One operation after another. -/
abbrev Session (ops : Doubles D) :
    End D → List (UInt8 × Op) → End D → List (Except Failure (ℕ × List UInt16)) → Prop :=
  Objects.Run (Transacts ops)

variable {requests : List (UInt8 × Op)} {results : List (Except Failure (ℕ × List UInt16))}

/-- The slave is the object that `serve` is, and so is what `serve` simulates. -/
theorem transacts_refines {σ : Type} {R : Tables D → σ → Prop}
    {spec : σ → UInt8 × Op → σ × Except Failure (ℕ × List UInt16)}
    (hsimulates : Objects.Simulates R (addressed (serve ops) own) spec) :
    Objects.Refines (fun e mem ↦ R e.1.1 mem ∧ AtRest own e) (Transacts ops) spec := by
  rintro e mem request e' result ⟨hmem, he⟩ h
  obtain ⟨hserve, he'⟩ := transacts_serve he h
  obtain ⟨hmem', hresult⟩ := hsimulates e.1.1 mem request hmem
  rw [hserve] at hmem' hresult
  exact ⟨⟨hmem', he'⟩, hresult⟩

/-- In a session the channel gets what `serve` replies, and the tables of the
slave are those of `serve`; nothing is left on the line. -/
theorem session_serve (he : AtRest own e) (h : Session ops e requests e' results) :
    results = Objects.replies (addressed (serve ops) own) e.1.1 requests ∧
      e'.1.1 = Objects.after (addressed (serve ops) own) e.1.1 requests ∧ AtRest own e' := by
  have hsame : Objects.Simulates Eq (addressed (serve ops) own) (addressed (serve ops) own) := by
    rintro t _ request rfl
    exact ⟨rfl, rfl⟩
  exact (transacts_refines hsame).run ⟨rfl, he⟩ h

/-- Whatever a channel asks for, there is an operation for it. -/
theorem exists_transacts (he : AtRest own e) (request : UInt8 × Op) :
    ∃ e' result, Transacts ops e request e' result ∧ AtRest own e' := by
  obtain ⟨⟨t, c⟩, line⟩ := e
  obtain ⟨adr, op⟩ := request
  obtain ⟨hready, hown, hline⟩ := he
  obtain rfl : line = [] := hline
  have hready : Ready c := hready
  by_cases hmany : op.TooMany
  · have hrefused : Transacts ops ((t, c), []) (adr, op) ((t, c), [])
        (.error (.errno .embMData)) :=
      .refused hmany (@run_of_tooMany [] (.ok 0) op hmany ⟨adr.toNat⟩)
    exact ⟨_, _, hrefused, hready, hown, rfl⟩
  · -- the request comes in one read
    have hfits := @fitsBuffer_request adr op hmany
    let input : PollInput := ⟨[.chunk ⟨op.frame adr, hfits.1, hfits.2.le⟩], true⟩
    have hdelivers : Delivers (op.frame adr) [input] := by
      have hcontent : input.content = op.frame adr := List.append_nil _
      rw [← hcontent]
      exact .silent rfl
    have hquiet : Quiet (List.replicate 4 Mbs.silence) := by
      intro input hinput
      rw [List.eq_of_mem_replicate hinput]
      rfl
    obtain ⟨s₁, written, hpolls, hready₁, hown₁, hrun⟩ :=
      @polls_request D ops adr op (t, c) _ _ hready hmany hdelivers hquiet (by decide)
    obtain ⟨line, hline⟩ := exists_brings written
    obtain ⟨result, hresult, -⟩ := hrun line hline
    exact ⟨_, result, .carried hmany hdelivers hquiet (by decide) hpolls hline hresult,
      hready₁, hown₁.trans hown, rfl⟩

theorem exists_session (he : AtRest own e) (requests : List (UInt8 × Op)) :
    ∃ e' results, Session ops e requests e' results :=
  Objects.exists_run (fun _ request he ↦ exists_transacts he request) he requests

/-- A write of the line voltage `uab`, one to all slaves, and a read. -/
theorem session_serve_write : ∃ e' results,
    Session .rational ((Mbs.tablesStart, .ready), [])
        [(1, .write 0x6020 1234), (0, .write 0x6021 4), (1, .read 0x6020 1)] e' results ∧
      results = Objects.replies (addressed (serve .rational) 1) Mbs.tablesStart
        [(1, .write 0x6020 1234), (0, .write 0x6021 4), (1, .read 0x6020 1)] ∧
      e'.1.1 = Objects.after (addressed (serve .rational) 1) Mbs.tablesStart
        [(1, .write 0x6020 1234), (0, .write 0x6021 4), (1, .read 0x6020 1)] ∧ AtRest 1 e' := by
  have hrest : AtRest 1 ((Mbs.tablesStart, Mbs.Fmodbus.ready), []) := ⟨Mbs.ready_ready, rfl, rfl⟩
  obtain ⟨e', results, h⟩ := @exists_session ℚ .rational 1 _ hrest
    [(1, .write 0x6020 1234), (0, .write 0x6021 4), (1, .read 0x6020 1)]
  exact ⟨e', results, h, session_serve hrest h⟩

end Transactions

section Memory

open Mbs (Coherent)

/-- The memory that a channel may take the holding registers for, beside input
registers that do not change. -/
def remember (inputs mem : ℕ → UInt16) :
    Op → (ℕ → UInt16) × Except Failure (ℕ × List UInt16)
  | .read a n =>
      if n.toNat = 0 then (mem, .error (.errno .embBadData))
      else if a.toNat + n.toNat ≤ regHoldingNregs then (mem, .ok (n.toNat, words mem a n))
      else (mem, .error (.errno (.exception 2)))
  | .readInput a n =>
      if n.toNat = 0 then (mem, .error (.errno .embBadData))
      else if 125 ≤ n.toNat then (mem, .error (.errno (.exception 3)))
      else if (a + 1).toNat + n.toNat ≤ regInputNregs then
        (mem, .ok (n.toNat, words inputs (a + 1) n))
      else (mem, .error (.errno (.exception 2)))
  | .write a value =>
      if a.toNat + 1 ≤ regHoldingNregs then (Function.update mem a.toNat value, .ok (1, []))
      else (mem, .error (.errno (.exception 2)))
  | .writeBit _ _ => (mem, .error (.errno (.exception 1)))
  | .writes a n src =>
      if n.toNat = 0 ∨ 120 < n.toNat then (mem, .error (.errno (.exception 3)))
      else if a.toNat + n.toNat ≤ regHoldingNregs then
        (fun i ↦ if a.toNat ≤ i ∧ i < a.toNat + n.toNat then src (i - a.toNat) else mem i,
          .ok (n.toNat, []))
      else (mem, .error (.errno (.exception 2)))

/-- The registers are `mem`, and so are the quantities; a read finds `inputs`. -/
structure Remembers (inputs : ℕ → UInt16) (t : Tables ℚ) (mem : ℕ → UInt16) : Prop where
  coherent : Coherent t.slave
  usHoldingRegisters : t.slave.usHoldingRegisters = mem
  usInputRegisters : (Mbs.on04ReadInputRegisters .rational t).usInputRegisters = inputs

variable {inputs mem : ℕ → UInt16} {t : Tables ℚ}

theorem Remembers.on04 (h : Remembers inputs t mem) :
    Remembers inputs (Mbs.on04ReadInputRegisters .rational t) mem := by
  refine ⟨h.coherent, h.usHoldingRegisters, ?_⟩
  rw [← h.usInputRegisters]
  funext i
  simp only [Mbs.on04ReadInputRegisters, Function.update_apply]
  split_ifs <;> rfl

theorem Remembers.on06 (h : Remembers inputs t mem) (regs : ℕ → UInt16) :
    Remembers inputs { t with
      slave := Mbs.on06WriteSingleHoldingRegister .rational ⟨t.slave.mdl, regs⟩ } regs :=
  ⟨Mbs.coherent_on06 _, rfl, h.usInputRegisters⟩

theorem simulates_remember : Objects.Simulates (Remembers inputs) (serve .rational)
    (remember inputs) := by
  rintro t mem op h
  obtain rfl := h.usHoldingRegisters
  cases op with
  | read a n =>
      simp only [serve, remember, Mbs.on03_of_coherent h.coherent]
      split_ifs
      · exact ⟨h, rfl⟩
      · exact ⟨h, rfl⟩
      · exact ⟨h, rfl⟩
  | readInput a n =>
      simp only [serve, remember, h.usInputRegisters]
      split_ifs
      · exact ⟨h, rfl⟩
      · exact ⟨h, rfl⟩
      · exact ⟨h.on04, rfl⟩
      · exact ⟨h, rfl⟩
  | write a value =>
      simp only [serve, remember]
      split_ifs
      · exact ⟨h.on06 _, rfl⟩
      · exact ⟨h, rfl⟩
  | writeBit a status => exact ⟨h, rfl⟩
  | writes a n src =>
      simp only [serve, remember]
      split_ifs
      · exact ⟨h, rfl⟩
      · exact ⟨h.on06 _, rfl⟩
      · exact ⟨h, rfl⟩

theorem simulates_addressed {σ τ : Type} {R : σ → τ → Prop}
    {exec : σ → Op → σ × Except Failure (ℕ × List UInt16)}
    {spec : τ → Op → τ × Except Failure (ℕ × List UInt16)} (h : Objects.Simulates R exec spec)
    (own : UInt8) : Objects.Simulates R (addressed exec own) (addressed spec own) := by
  rintro s m ⟨adr, op⟩ hsm
  obtain ⟨hnext, hresult⟩ := h s m op hsm
  unfold addressed
  split_ifs
  · exact ⟨hsm, rfl⟩
  · exact ⟨hnext, hresult⟩
  · exact ⟨hnext, rfl⟩
  · exact ⟨hsm, rfl⟩

variable {e e' : End ℚ} {own : UInt8} {requests : List (UInt8 × Op)}
  {results : List (Except Failure (ℕ × List UInt16))}

/-- With exact doubles, and from a state in which the quantities are those of
their registers, a channel cannot tell the device from a memory. -/
theorem session_remember (he : AtRest own e) (hmem : Remembers inputs e.1.1 mem)
    (h : Session .rational e requests e' results) :
    results = Objects.replies (addressed (remember inputs) own) mem requests ∧
      Remembers inputs e'.1.1 (Objects.after (addressed (remember inputs) own) mem requests) ∧
      AtRest own e' :=
  (transacts_refines (simulates_addressed simulates_remember own)).run ⟨hmem, he⟩ h

/-- A device whose quantities are all zero. -/
def tablesZero : Tables ℚ := ⟨⟨⟨0, 0, 0, 0, 0, 0, 0, 0⟩, fun _ ↦ 0⟩, fun _ ↦ 0⟩

theorem remembers_zero : Remembers (fun _ ↦ 0) tablesZero fun _ ↦ 0 := by
  refine ⟨fun q ↦ ?_, rfl, ?_⟩
  · have hzero : (0 : ℚ) = (0 : ℕ) / 10 := by norm_num
    cases q <;> exact hzero
  · have hzero : Doubles.rational.toUShort 0 = 0 := by decide
    funext i
    simp only [Mbs.on04ReadInputRegisters, tablesZero, Function.update_apply, hzero, ite_self]

/-- A broadcast is reported as a failure but takes effect. -/
theorem session_remember_write : ∃ e',
    Session .rational ((tablesZero, .ready), [])
        [(1, .write 0x6020 1234), (0, .write 0x6021 4), (1, .read 0x6020 2)] e'
        [.ok (1, []), .error (.errno .etimedout), .ok (2, [1234, 4])] ∧
      Remembers (fun _ ↦ 0) e'.1.1 (Objects.after (addressed (remember fun _ ↦ 0) 1) (fun _ ↦ 0)
        [(1, .write 0x6020 1234), (0, .write 0x6021 4), (1, .read 0x6020 2)]) ∧ AtRest 1 e' := by
  have hrest : AtRest 1 ((tablesZero, Mbs.Fmodbus.ready), []) := ⟨Mbs.ready_ready, rfl, rfl⟩
  obtain ⟨e', results, h⟩ := @exists_session ℚ .rational 1 _ hrest
    [(1, .write 0x6020 1234), (0, .write 0x6021 4), (1, .read 0x6020 2)]
  obtain ⟨rfl, hmem, hrest'⟩ := session_remember hrest remembers_zero h
  exact ⟨e', h, hmem, hrest'⟩

end Memory

end Libmodbus
