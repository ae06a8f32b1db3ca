import PcsSim.Lib.Objects
import PcsSim.Modbus.Holding

/-!
# The holding map is a memory

With the doubles of `MDL` taken as exact rationals, and from a state in which
each quantity is its shadow register divided by 10, the slave cannot be told
from one plain array of words.
-/

namespace Mbs

structure HoldingRequest where
  eMode : MbRegisterMode
  usAddress : UInt16
  usNRegs : UInt16
  pucRegBuffer : ℕ → UInt8

def holdingExec (s : Slave ℚ) (r : HoldingRequest) : Slave ℚ × HoldingReply :=
  eMBRegHoldingCB .rational mbsidxMdl s r.pucRegBuffer r.usAddress r.usNRegs r.eMode

def HoldingRequest.InRange (r : HoldingRequest) : Prop :=
  r.usAddress.toNat + r.usNRegs.toNat ≤ regHoldingNregs

instance (r : HoldingRequest) : Decidable r.InRange := inferInstanceAs (Decidable (_ ≤ _))

def memoryExec (mem : ℕ → UInt16) (r : HoldingRequest) : (ℕ → UInt16) × HoldingReply :=
  if r.InRange then
    match r.eMode with
    | .read => (mem, ⟨some .enoerr, WordMemory.read mem r.usAddress.toNat r.usNRegs.toNat⟩)
    | .write => (WordMemory.write mem r.usAddress.toNat r.usNRegs.toNat r.pucRegBuffer,
        ⟨some .enoerr, []⟩)
  else (mem, ⟨some .enoreg, []⟩)

/-- Each quantity is its shadow register divided by 10. -/
def Coherent (s : Slave ℚ) : Prop :=
  ∀ q : Quantity, s.mdl.get q = (s.usHoldingRegisters q.register).toNat / 10

theorem toRegister_div_ten (n : UInt16) : Doubles.rational.toRegister (n.toNat / 10) = n := by
  have hmul : (n.toNat : ℚ) / 10 * 10 = n.toNat := by
    field_simp
  have hnonneg : (0 : ℚ) ≤ n.toNat := Nat.cast_nonneg _
  have hlt : n.toNat % 2 ^ 16 = n.toNat := Nat.mod_eq_of_lt n.toNat_lt
  simp only [Doubles.toRegister, Doubles.rational, hmul, if_pos hnonneg, Int.floor_natCast,
    BitVec.ofInt_natCast, BitVec.toNat_ofNat, hlt]
  exact UInt16.ofNat_toNat

theorem on03_of_coherent {s : Slave ℚ} (h : Coherent s) :
    on03ReadMultipleHoldingRegisters .rational s = s := by
  have hregisters : (on03ReadMultipleHoldingRegisters .rational s).usHoldingRegisters =
      s.usHoldingRegisters := by
    funext i
    by_cases hi : ∃ q : Quantity, q.register = i
    · obtain ⟨q, rfl⟩ := hi
      rw [on03_register, h q, toRegister_div_ten]
    · exact on03_of_ne _ s fun q hq ↦ hi ⟨q, hq⟩
  obtain ⟨mdl, regs⟩ := s
  exact congrArg (Slave.mk mdl) hregisters

theorem coherent_on06 (s : Slave ℚ) : Coherent (on06WriteSingleHoldingRegister .rational s) :=
  fun q ↦ get_on06 .rational s q

/-- Every request keeps a slave coherent, and does to its registers and
replies what the memory does. -/
theorem simulates : Objects.Simulates
    (fun (s : Slave ℚ) (mem : ℕ → UInt16) ↦ Coherent s ∧ s.usHoldingRegisters = mem)
    holdingExec memoryExec := by
  rintro s mem r ⟨hcoherent, rfl⟩
  obtain ⟨eMode, usAddress, usNRegs, pucRegBuffer⟩ := r
  by_cases hrange : usAddress.toNat + usNRegs.toNat ≤ regHoldingNregs
  · have hin : HoldingRequest.InRange ⟨eMode, usAddress, usNRegs, pucRegBuffer⟩ := hrange
    rw [memoryExec, if_pos hin, holdingExec]
    cases eMode with
    | read =>
        rw [eMBRegHoldingCB_read _ hrange, on03_of_coherent hcoherent]
        exact ⟨⟨hcoherent, rfl⟩, rfl⟩
    | write =>
        rw [eMBRegHoldingCB_write _ hrange]
        exact ⟨⟨coherent_on06 _, rfl⟩, rfl⟩
  · have hout : ¬ HoldingRequest.InRange ⟨eMode, usAddress, usNRegs, pucRegBuffer⟩ := hrange
    rw [memoryExec, if_neg hout, holdingExec, eMBRegHoldingCB_outOfRange _ hrange]
    exact ⟨⟨hcoherent, rfl⟩, rfl⟩

/-- A quantity is a whole number of tenths that fits a register. -/
def Mdl.IsTenths (mdl : Mdl ℚ) (q : Quantity) : Prop :=
  ∃ k : ℕ, k ≤ 65535 ∧ mdl.get q = k / 10

/-- An accepted read makes the slave coherent if the quantities are whole
numbers of tenths. -/
theorem coherent_of_read {s : Slave ℚ} (h : ∀ q, Mdl.IsTenths s.mdl q) {r : HoldingRequest}
    (hread : r.eMode = .read) (hrange : r.InRange) : Coherent (holdingExec s r).1 := by
  obtain ⟨eMode, usAddress, usNRegs, pucRegBuffer⟩ := r
  obtain rfl : eMode = .read := hread
  intro q
  obtain ⟨k, hk, hq⟩ := h q
  have hword : (k.toUInt16).toNat = k := Nat.mod_eq_of_lt (by omega)
  rw [holdingExec, eMBRegHoldingCB_read _ hrange, mdl_on03, on03_register, hq]
  rw [← hword, toRegister_div_ten]

/-- What it means for a slave to be a memory: after any requests the replies
are those of the plain array that started with its registers, the registers
are that array, each quantity is its word divided by 10, and a further request
out of range is refused and changes nothing. -/
structure BehavesAsMemory (s : Slave ℚ) : Prop where
  replies : ∀ rs, Objects.replies holdingExec s rs =
    Objects.replies memoryExec s.usHoldingRegisters rs
  registers : ∀ rs, (Objects.after holdingExec s rs).usHoldingRegisters =
    Objects.after memoryExec s.usHoldingRegisters rs
  quantities : ∀ rs q, (Objects.after holdingExec s rs).mdl.get q =
    (Objects.after memoryExec s.usHoldingRegisters rs q.register).toNat / 10
  refused : ∀ rs (r : HoldingRequest), ¬ r.InRange →
    holdingExec (Objects.after holdingExec s rs) r =
      (Objects.after holdingExec s rs, ⟨some .enoreg, []⟩)

/-- The slave is a memory from any coherent state, and an accepted read of
whole tenths leads to one. -/
theorem behavesAsMemory : (∀ s, Coherent s → BehavesAsMemory s) ∧
    ∀ s r, (∀ q, Mdl.IsTenths s.mdl q) → r.eMode = .read → r.InRange →
      BehavesAsMemory (holdingExec s r).1 := by
  have hcoherent : ∀ s, Coherent s → BehavesAsMemory s := by
    intro s h
    have hafter := fun rs ↦ simulates.after ⟨h, rfl⟩ rs
    refine ⟨simulates.replies ⟨h, rfl⟩, fun rs ↦ (hafter rs).2, fun rs q ↦ ?_, ?_⟩
    · rw [(hafter rs).1 q, (hafter rs).2]
    · intro rs r hr
      exact eMBRegHoldingCB_outOfRange _ hr _
  exact ⟨hcoherent, fun s r htenths hread hrange ↦
    hcoherent _ (coherent_of_read htenths hread hrange)⟩

/-- The device after `sim_init`, once its holding registers have been read. -/
theorem behavesAsMemory_start : BehavesAsMemory
    (holdingExec ⟨simInit .rational, fun _ ↦ 0⟩ ⟨.read, 0, 1, fun _ ↦ 0⟩).1 := by
  refine behavesAsMemory.2 _ _ (fun q ↦ ?_) rfl (by decide)
  cases q with
  | uab => exact ⟨4001, by decide, rfl⟩
  | ubc => exact ⟨4002, by decide, rfl⟩
  | uca => exact ⟨4003, by decide, rfl⟩
  | ia | ib | ic => exact ⟨0, by decide, rfl⟩

end Mbs
