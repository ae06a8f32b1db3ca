import Mathlib.Data.Rat.Floor

/-!
# The quantities of the simulated device

`Mdl` holds the fields of the global `MDL` that are served over Modbus and
MQTT.  The type `D` of the `double`s is a parameter, with the operations of
the program on them; `Doubles.rational` takes them as exact rationals.
-/

structure Mdl (D : Type) where
  uab : D
  ubc : D
  uca : D
  ua : D
  ub : D
  ia : D
  ib : D
  ic : D

structure Doubles (D : Type) where
  /-- the literal of `sim_init` with the given tenths -/
  tenths : ℕ → D
  /-- `x * 10` -/
  mul10 : D → D
  /-- the conversion to `unsigned short` -/
  toUShort : D → UInt16
  /-- `n / 10.0` -/
  ofUShortDiv10 : UInt16 → D

/-- `MDL.x * 10` stored into a register. -/
def Doubles.toRegister {D : Type} (ops : Doubles D) (x : D) : UInt16 :=
  ops.toUShort (ops.mul10 x)

/-- Exact rationals; the conversion truncates, and keeps the low 16 bits of
what does not fit. -/
def Doubles.rational : Doubles ℚ where
  tenths n := n / 10
  mul10 x := x * 10
  toUShort x := (BitVec.ofInt 16 (if 0 ≤ x then ⌊x⌋ else ⌈x⌉)).toNat.toUInt16
  ofUShortDiv10 n := n.toNat / 10

/-- The zero-initialised `MDL` after `sim_init`. -/
def simInit {D : Type} (ops : Doubles D) : Mdl D where
  uab := ops.tenths 4001
  ubc := ops.tenths 4002
  uca := ops.tenths 4003
  ua := ops.tenths 0
  ub := ops.tenths 0
  ia := ops.tenths 0
  ib := ops.tenths 0
  ic := ops.tenths 0

inductive Quantity
  | uab
  | ubc
  | uca
  | ia
  | ib
  | ic
  deriving DecidableEq

namespace Quantity

def register : Quantity → ℕ
  | uab => 0x6020
  | ubc => 0x6021
  | uca => 0x6022
  | ia => 0x6026
  | ib => 0x6027
  | ic => 0x6028

end Quantity

def Mdl.get {D : Type} (mdl : Mdl D) : Quantity → D
  | .uab => mdl.uab
  | .ubc => mdl.ubc
  | .uca => mdl.uca
  | .ia => mdl.ia
  | .ib => mdl.ib
  | .ic => mdl.ic
