import PcsSim.Lib.Runs
import PcsSim.Modbus.Holding

/-!
# What a write does to the quantities it does not address

Every accepted write loads all six quantities back from their shadow
registers, and only reads refresh the shadow.  A quantity that the write does
not address keeps its value exactly when it is equal to its shadow.
-/

namespace Mbs

/-- What reaches the slave: requests on the holding registers, and the cloud
command `set uab`. -/
inductive Input (D : Type)
  | holding (eMode : MbRegisterMode) (usAddress usNRegs : UInt16) (pucRegBuffer : ℕ → UInt8)
  | setUab (param : D)

variable {D : Type}

def step (ops : Doubles D) (s : Slave D) : Input D → Option (Slave D)
  | .holding eMode usAddress usNRegs pucRegBuffer =>
      some (eMBRegHoldingCB ops mbsidxMdl s pucRegBuffer usAddress usNRegs eMode).1
  | .setUab param => some { s with mdl := { s.mdl with uab := param } }

def Slave.start (ops : Doubles D) : Slave D := ⟨simInit ops, fun _ ↦ 0⟩

def Quantity.Addressed (q : Quantity) (usAddress usNRegs : UInt16) : Prop :=
  usAddress.toNat ≤ q.register ∧ q.register < usAddress.toNat + usNRegs.toNat

instance (q : Quantity) (usAddress usNRegs : UInt16) :
    Decidable (Quantity.Addressed q usAddress usNRegs) :=
  inferInstanceAs (Decidable (_ ∧ _))

/-- An accepted write leaves the quantities it does not address as they were. -/
def KeepsUnaddressed (ops : Doubles D) (s : Slave D) : Input D → Prop
  | .holding .write usAddress usNRegs pucRegBuffer =>
      let (s', reply) := eMBRegHoldingCB ops mbsidxMdl s pucRegBuffer usAddress usNRegs .write
      reply.eStatus = some .enoerr →
        ∀ q, ¬ Quantity.Addressed q usAddress usNRegs → s'.mdl.get q = s.mdl.get q
  | _ => True

/-- Before a write within range, the quantities it does not address are equal
to their shadow registers divided by 10. -/
def ShadowsAgree (ops : Doubles D) (s : Slave D) : Input D → Prop
  | .holding .write usAddress usNRegs _ =>
      usAddress.toNat + usNRegs.toNat ≤ regHoldingNregs →
        ∀ q, ¬ Quantity.Addressed q usAddress usNRegs →
          s.mdl.get q = ops.ofUShortDiv10 (s.usHoldingRegisters q.register)
  | _ => True

theorem keepsUnaddressed_iff (ops : Doubles D) (s : Slave D) (i : Input D) :
    KeepsUnaddressed ops s i ↔ ShadowsAgree ops s i := by
  cases i with
  | setUab param => exact Iff.rfl
  | holding eMode usAddress usNRegs pucRegBuffer =>
      cases eMode with
      | read => exact Iff.rfl
      | write =>
          by_cases hrange : usAddress.toNat + usNRegs.toNat ≤ regHoldingNregs
          · simp only [KeepsUnaddressed, ShadowsAgree, eMBRegHoldingCB_write _ hrange, hrange,
              true_imp_iff, get_on06]
            apply forall₂_congr
            intro q hq
            rw [WordMemory.write_of_not_mem hq]
            exact eq_comm
          · simp [KeepsUnaddressed, ShadowsAgree, eMBRegHoldingCB_outOfRange _ hrange, hrange]

/-- In a run from start-up all accepted writes keep what they do not address
exactly when the shadow of it agrees before each of them. -/
theorem always_keepsUnaddressed_iff (ops : Doubles D) (is : List (Input D)) :
    Runs.Always (step ops) (KeepsUnaddressed ops) (Slave.start ops) is ↔
      Runs.Always (step ops) (ShadowsAgree ops) (Slave.start ops) is :=
  Runs.always_congr (P := fun _ ↦ True) (fun _ _ _ _ _ ↦ trivial)
    (fun s i _ ↦ keepsUnaddressed_iff ops s i) trivial

/-- The first write after start-up, of register 0, sets the line voltages to
zero. -/
theorem not_always_keepsUnaddressed :
    ¬ ∀ is, Runs.Always (step .rational) (KeepsUnaddressed .rational)
      (Slave.start .rational) is := by
  intro h
  have hwrite := (h [.holding .write 0 1 fun _ ↦ 0]).1
  have huab : ((0 : ℕ) : ℚ) / 10 = (4001 : ℕ) / 10 := hwrite rfl .uab (by decide)
  norm_num at huab

end Mbs
