import PcsSim.Lib.WordMemory
import PcsSim.Mdl

/-!
# The holding registers of the Modbus slave

`mbs.c` keeps an array of shadow registers.  A read first stores six
quantities of `MDL` into their registers; a write last loads the six
quantities back from their registers, whatever was written.
-/

namespace Mbs

inductive MbErrorCode
  | enoerr
  | enoreg
  deriving DecidableEq

inductive MbRegisterMode
  | read
  | write
  deriving DecidableEq

def mbsidxMdl : ℤ := 0

def regHoldingNregs : ℕ := 0x6200

structure Slave (D : Type) where
  mdl : Mdl D
  usHoldingRegisters : ℕ → UInt16

variable {D : Type}

def Slave.setRegister (s : Slave D) (i : ℕ) (val : UInt16) : Slave D :=
  { s with usHoldingRegisters := Function.update s.usHoldingRegisters i val }

def on03ReadMultipleHoldingRegisters (ops : Doubles D) (s : Slave D) : Slave D :=
  ((((((s.setRegister 0x6020 (ops.toRegister s.mdl.uab)).setRegister
    0x6021 (ops.toRegister s.mdl.ubc)).setRegister
    0x6022 (ops.toRegister s.mdl.uca)).setRegister
    0x6026 (ops.toRegister s.mdl.ia)).setRegister
    0x6027 (ops.toRegister s.mdl.ib)).setRegister
    0x6028 (ops.toRegister s.mdl.ic))

def on06WriteSingleHoldingRegister (ops : Doubles D) (s : Slave D) : Slave D :=
  { s with
    mdl :=
      { s.mdl with
        uab := ops.ofUShortDiv10 (s.usHoldingRegisters 0x6020)
        ubc := ops.ofUShortDiv10 (s.usHoldingRegisters 0x6021)
        uca := ops.ofUShortDiv10 (s.usHoldingRegisters 0x6022)
        ia := ops.ofUShortDiv10 (s.usHoldingRegisters 0x6026)
        ib := ops.ofUShortDiv10 (s.usHoldingRegisters 0x6027)
        ic := ops.ofUShortDiv10 (s.usHoldingRegisters 0x6028) } }

/-- `while (usNRegs > 0)` of a read: the bytes stored into the buffer. -/
def readLoop (regs : ℕ → UInt16) : ℕ → ℕ → List UInt8
  | _, 0 => []
  | iRegIndex, usNRegs + 1 =>
      (regs iRegIndex >>> 8).toUInt8 :: (regs iRegIndex &&& 0xFF).toUInt8 ::
        readLoop regs (iRegIndex + 1) usNRegs

/-- `while (usNRegs > 0)` of a write. -/
def writeLoop (pucRegBuffer : ℕ → UInt8) : (ℕ → UInt16) → ℕ → ℕ → ℕ → UInt16
  | regs, _, 0 => regs
  | regs, iRegIndex, usNRegs + 1 =>
      let regs := Function.update regs iRegIndex ((pucRegBuffer 0).toUInt16 <<< 8)
      let regs := Function.update regs iRegIndex
        (regs iRegIndex ||| (pucRegBuffer 1).toUInt16)
      writeLoop (fun i ↦ pucRegBuffer (i + 2)) regs (iRegIndex + 1) usNRegs

/-- The status returned and the bytes stored into the buffer.  No status is
returned for a slave that is not the one of `MDL`: the function falls off its
end. -/
structure HoldingReply where
  eStatus : Option MbErrorCode
  bytes : List UInt8
  deriving DecidableEq

def eMBRegHoldingCB (ops : Doubles D) (mbsidx : ℤ) (s : Slave D) (pucRegBuffer : ℕ → UInt8)
    (usAddress usNRegs : UInt16) (eMode : MbRegisterMode) : Slave D × HoldingReply :=
  if mbsidx = mbsidxMdl then
    -- the sum is computed in int
    if usAddress.toNat + usNRegs.toNat ≤ regHoldingNregs then
      match eMode with
      | .read =>
          let s := on03ReadMultipleHoldingRegisters ops s
          (s, ⟨some .enoerr, readLoop s.usHoldingRegisters usAddress.toNat usNRegs.toNat⟩)
      | .write =>
          let regs := writeLoop pucRegBuffer s.usHoldingRegisters usAddress.toNat usNRegs.toNat
          (on06WriteSingleHoldingRegister ops { s with usHoldingRegisters := regs },
            ⟨some .enoerr, []⟩)
    else (s, ⟨some .enoreg, []⟩)
  else (s, ⟨none, []⟩)

/-! ## What the loops and the two handlers do -/

theorem readLoop_eq (regs : ℕ → UInt16) (iRegIndex usNRegs : ℕ) :
    readLoop regs iRegIndex usNRegs = WordMemory.read regs iRegIndex usNRegs := by
  induction usNRegs generalizing iRegIndex with
  | zero => rfl
  | succ n ih =>
      rw [readLoop, ih, WordMemory.read_succ]
      rfl

theorem writeLoop_eq (pucRegBuffer : ℕ → UInt8) (regs : ℕ → UInt16)
    (iRegIndex usNRegs : ℕ) :
    writeLoop pucRegBuffer regs iRegIndex usNRegs =
      WordMemory.write regs iRegIndex usNRegs pucRegBuffer := by
  induction usNRegs generalizing pucRegBuffer regs iRegIndex with
  | zero => exact (WordMemory.write_zero regs iRegIndex pucRegBuffer).symm
  | succ n ih =>
      simp only [writeLoop, Function.update_self, Function.update_idem, ih,
        WordMemory.write_succ, WordMemory.wordAt]

variable (ops : Doubles D) (s : Slave D)

theorem on03_register (q : Quantity) :
    (on03ReadMultipleHoldingRegisters ops s).usHoldingRegisters q.register =
      ops.toRegister (s.mdl.get q) := by
  cases q <;>
    simp [on03ReadMultipleHoldingRegisters, Slave.setRegister, Quantity.register, Mdl.get]

theorem on03_of_ne {i : ℕ} (h : ∀ q : Quantity, q.register ≠ i) :
    (on03ReadMultipleHoldingRegisters ops s).usHoldingRegisters i =
      s.usHoldingRegisters i := by
  have huab : i ≠ 0x6020 := (h .uab).symm
  have hubc : i ≠ 0x6021 := (h .ubc).symm
  have huca : i ≠ 0x6022 := (h .uca).symm
  have hia : i ≠ 0x6026 := (h .ia).symm
  have hib : i ≠ 0x6027 := (h .ib).symm
  have hic : i ≠ 0x6028 := (h .ic).symm
  simp only [on03ReadMultipleHoldingRegisters, Slave.setRegister, Function.update_of_ne hic,
    Function.update_of_ne hib, Function.update_of_ne hia, Function.update_of_ne huca,
    Function.update_of_ne hubc, Function.update_of_ne huab]

@[simp] theorem mdl_on03 : (on03ReadMultipleHoldingRegisters ops s).mdl = s.mdl := rfl

@[simp] theorem get_on06 (q : Quantity) :
    (on06WriteSingleHoldingRegister ops s).mdl.get q =
      ops.ofUShortDiv10 (s.usHoldingRegisters q.register) := by
  cases q <;> rfl

@[simp] theorem registers_on06 :
    (on06WriteSingleHoldingRegister ops s).usHoldingRegisters = s.usHoldingRegisters := rfl

section Callback

variable {ops s} {usAddress usNRegs : UInt16} (pucRegBuffer : ℕ → UInt8)

theorem eMBRegHoldingCB_read (h : usAddress.toNat + usNRegs.toNat ≤ regHoldingNregs) :
    eMBRegHoldingCB ops mbsidxMdl s pucRegBuffer usAddress usNRegs .read =
      (on03ReadMultipleHoldingRegisters ops s, ⟨some .enoerr,
        WordMemory.read (on03ReadMultipleHoldingRegisters ops s).usHoldingRegisters
          usAddress.toNat usNRegs.toNat⟩) := by
  rw [eMBRegHoldingCB, if_pos rfl, if_pos h]
  simp only [readLoop_eq]

theorem eMBRegHoldingCB_write (h : usAddress.toNat + usNRegs.toNat ≤ regHoldingNregs) :
    eMBRegHoldingCB ops mbsidxMdl s pucRegBuffer usAddress usNRegs .write =
      (on06WriteSingleHoldingRegister ops ⟨s.mdl,
        WordMemory.write s.usHoldingRegisters usAddress.toNat usNRegs.toNat pucRegBuffer⟩,
        ⟨some .enoerr, []⟩) := by
  rw [eMBRegHoldingCB, if_pos rfl, if_pos h]
  simp only [writeLoop_eq]

theorem eMBRegHoldingCB_outOfRange (h : ¬ usAddress.toNat + usNRegs.toNat ≤ regHoldingNregs)
    (eMode : MbRegisterMode) :
    eMBRegHoldingCB ops mbsidxMdl s pucRegBuffer usAddress usNRegs eMode =
      (s, ⟨some .enoreg, []⟩) := by
  unfold eMBRegHoldingCB
  rw [if_pos rfl, if_neg h]

end Callback

end Mbs
