import PcsSim.Cloud.SetUab
import PcsSim.Lib.Binary64
import PcsSim.Lib.Runs
import PcsSim.Modbus.Holding

/-!
# Which quantities fit a register

A read converts ten times each quantity to `unsigned short`, which is defined
below 65536 only.  Writes of registers keep to this range.  The parameter of a
`set uab` is stored as it is: every state of a run is in range exactly when all
the parameters received are.
-/

/-- The operations on doubles; what does not fit `unsigned short` keeps its low
16 bits. -/
def Doubles.binary64 : Doubles Binary64 where
  tenths n := .round (n / 10)
  mul10 x := x.mul (.finite 10)
  toUShort
    | .infinite _ | .nan => 0
    | x => (BitVec.ofInt 16 (if 0 ≤ x.toRat then ⌊x.toRat⌋ else ⌈x.toRat⌉)).toNat.toUInt16
  ofUShortDiv10 n := Binary64.divBy 10 (.finite n.toNat)

/-- The operations of the JSON parser on doubles. -/
def CJson.Numbers.binary64 : CJson.Numbers Binary64 where
  zero := .finite 0
  strtod text := .signed (text.head? = some 45) (decimalValue text)
  geIntMax
    | .infinite negative => !negative
    | .nan => false
    | x => intMax ≤ x.toRat
  leIntMin
    | .infinite negative => negative
    | .nan => false
    | x => x.toRat ≤ intMin
  toInt
    | .infinite _ | .nan => intMin
    | x => if 0 ≤ x.toRat then ⌊x.toRat⌋ else ⌈x.toRat⌉

namespace Mbs

open CJson Mqtt

structure FitsUShort (x : Binary64) : Prop where
  finite : x.isFinite
  nonneg : 0 ≤ x.toRat
  lt : x.toRat < 65536

/-- Ten times `x` fits a register. -/
def Fits (x : Binary64) : Prop := FitsUShort (Doubles.binary64.mul10 x)

/-- Ten times each quantity fits its register, and what a master reads there is
that number without its fraction. -/
structure Representable (s : Slave Binary64) : Prop where
  fits : ∀ q, Fits (s.mdl.get q)
  read : ∀ q,
    (((on03ReadMultipleHoldingRegisters .binary64 s).usHoldingRegisters q.register).toNat : ℤ) =
      ⌊(Doubles.binary64.mul10 (s.mdl.get q)).toRat⌋

theorem toUShort_of_isFinite {x : Binary64} (hx : x.isFinite) : Doubles.binary64.toUShort x =
    (BitVec.ofInt 16 (if 0 ≤ x.toRat then ⌊x.toRat⌋ else ⌈x.toRat⌉)).toNat.toUInt16 := by
  cases x with
  | finite q | negZero => rfl
  | infinite negative | nan => cases hx

theorem toUShort_of_fits {x : Binary64} (h : FitsUShort x) :
    ((Doubles.binary64.toUShort x).toNat : ℤ) = ⌊x.toRat⌋ := by
  have hfloor : 0 ≤ ⌊x.toRat⌋ := Int.floor_nonneg.mpr h.nonneg
  have hlt : ⌊x.toRat⌋ < 65536 := Int.floor_lt.mpr (by exact_mod_cast h.lt)
  obtain ⟨n, hn⟩ := Int.eq_ofNat_of_zero_le hfloor
  have hnat : n < 2 ^ 16 := by omega
  rw [toUShort_of_isFinite h.finite, if_pos h.nonneg, hn, BitVec.ofInt_natCast,
    BitVec.toNat_ofNat, Nat.mod_eq_of_lt hnat]
  exact_mod_cast Nat.mod_eq_of_lt hnat

theorem representable_iff {s : Slave Binary64} :
    Representable s ↔ ∀ q, Fits (s.mdl.get q) := by
  constructor
  · exact fun h ↦ h.fits
  · intro h
    refine ⟨h, fun q ↦ ?_⟩
    rw [on03_register, Doubles.toRegister]
    exact toUShort_of_fits (h q)

section Ranges

theorem fits_round {x : ℚ} (hzero : 0 ≤ x) (h : x ≤ 13107 / 2) : Fits (.round x) := by
  obtain ⟨y, hy, hyzero, hyle⟩ := Binary64.round_between (q := x) (k := -1) (n := 13107)
    (by norm_num) (by norm_num) (by norm_num) hzero (by norm_num; linarith)
  have hbound : y * 10 ≤ (65535 : ℤ) * 2 ^ (0 : ℤ) := by
    norm_num at hyle ⊢
    linarith
  obtain ⟨r, hr, hrzero, hrle⟩ := Binary64.round_between (q := y * 10) (k := 0) (n := 65535)
    (by norm_num) (by norm_num) (by norm_num) (by positivity) hbound
  have hten : Doubles.binary64.mul10 (.round x) = .finite r := by
    have hpositive : decide (y < 0) = false := decide_eq_false hyzero.not_gt
    have hmul : (Binary64.finite y).mul (.finite 10) =
        .signed (decide (y < 0) != decide ((10 : ℚ) < 0)) (y * 10) := rfl
    rw [hy, ← hr, ← Binary64.signed_false]
    change (Binary64.finite y).mul (.finite 10) = _
    rw [hmul, hpositive]
    rfl
  rw [Fits, hten]
  refine ⟨rfl, hrzero, ?_⟩
  norm_num at hrle
  change r < 65536
  linarith

theorem ofUShortDiv10_eq (n : UInt16) :
    Doubles.binary64.ofUShortDiv10 n = .round (n.toNat / 10) := by
  have hpositive : decide ((n.toNat : ℚ) < 0) = false :=
    decide_eq_false (Nat.cast_nonneg _).not_gt
  have hdiv : Doubles.binary64.ofUShortDiv10 n =
      .signed (decide ((n.toNat : ℚ) < 0) != decide ((10 : ℚ) < 0)) (n.toNat / 10) := rfl
  rw [hdiv, hpositive, ← Binary64.signed_false]
  rfl

theorem fits_ofUShortDiv10 (n : UInt16) : Fits (Doubles.binary64.ofUShortDiv10 n) := by
  have hn : (n.toNat : ℚ) ≤ 65535 := by exact_mod_cast Nat.le_of_lt_succ n.toNat_lt
  rw [ofUShortDiv10_eq]
  exact fits_round (by positivity) (by linarith)

theorem fits_tenths {n : ℕ} (hn : n ≤ 65535) : Fits (Doubles.binary64.tenths n) := by
  have hn : (n : ℚ) ≤ 65535 := by exact_mod_cast hn
  exact fits_round (by positivity) (by linarith)

end Ranges

/-! ## Runs -/

/-- What reaches the device: requests on the holding registers, and messages of
the cloud. -/
inductive Traffic
  | holding (eMode : MbRegisterMode) (usAddress usNRegs : UInt16) (pucRegBuffer : ℕ → UInt8)
  | received (time : Int64) (e : Element)

/-- There is no step after a message that `cloud_proc_recv` does not survive. -/
def deviceStep (env : Cloud.Env Binary64) (s : Slave Binary64) :
    Traffic → Option (Slave Binary64)
  | .holding eMode usAddress usNRegs pucRegBuffer =>
      some (eMBRegHoldingCB .binary64 mbsidxMdl s pucRegBuffer usAddress usNRegs eMode).1
  | .received time e =>
      match Cloud.cloudProcRecv env time (some e) ⟨s.mdl, [], []⟩ with
      | .ok c => some { s with mdl := c.mdl }
      | .error _ => none

def Slave.sim : Slave Binary64 := ⟨simInit .binary64, fun _ ↦ 0⟩

/-- Whatever the message stores into `MDL.uab` fits. -/
def StoresFit (env : Cloud.Env Binary64) : Traffic → Prop
  | .holding .. => True
  | .received _ e => ∀ uab, Cloud.storedUab env.numbers e = some uab → Fits uab

theorem deviceStep_received {env : Cloud.Env Binary64} {s t : Slave Binary64} {time : Int64}
    {e : Element} (h : deviceStep env s (.received time e) = some t) :
    t = { s with mdl := Cloud.storeUab s.mdl (Cloud.storedUab env.numbers e) } := by
  unfold deviceStep at h
  cases hcall : Cloud.cloudProcRecv env time (some e) ⟨s.mdl, [], []⟩ with
  | error fault => simp [hcall] at h
  | ok c =>
      have hmdl := Cloud.mdl_of_handled (Cloud.cloudProcRecv_eq_ok_iff.mp hcall)
      simp only [hcall, Option.some.injEq] at h
      rw [← h, hmdl]

theorem get_storeUab {mdl : Mdl Binary64} {uab : Binary64} (q : Quantity) :
    (Cloud.storeUab mdl (some uab)).get q = if q = .uab then uab else mdl.get q := by
  cases q <;> rfl

theorem representable_step {env : Cloud.Env Binary64} {s t : Slave Binary64} {l : Traffic}
    (hs : Representable s) (h : deviceStep env s l = some t) :
    Representable t ↔ StoresFit env l := by
  rw [representable_iff] at hs ⊢
  cases l with
  | holding eMode usAddress usNRegs pucRegBuffer =>
      refine iff_of_true ?_ trivial
      simp only [deviceStep, Option.some.injEq] at h
      subst h
      by_cases hrange : usAddress.toNat + usNRegs.toNat ≤ regHoldingNregs
      · cases eMode with
        | read =>
            rw [eMBRegHoldingCB_read _ hrange]
            exact hs
        | write =>
            intro q
            rw [eMBRegHoldingCB_write _ hrange, get_on06]
            exact fits_ofUShortDiv10 _
      · rw [eMBRegHoldingCB_outOfRange _ hrange]
        exact hs
  | received time e =>
      obtain rfl := deviceStep_received h
      simp only [StoresFit]
      cases huab : Cloud.storedUab env.numbers e with
      | none => exact iff_of_true hs (by simp)
      | some uab =>
          simp only [get_storeUab, Option.some.injEq, forall_eq']
          constructor
          · intro hfits
            simpa using hfits .uab
          · intro huab q
            split_ifs with hq
            · exact huab
            · exact hs q

theorem representable_sim : Representable Slave.sim := by
  rw [representable_iff]
  intro q
  cases q with
  | uab => exact fits_tenths (n := 4001) (by norm_num)
  | ubc => exact fits_tenths (n := 4002) (by norm_num)
  | uca => exact fits_tenths (n := 4003) (by norm_num)
  | ia | ib | ic => exact fits_tenths (n := 0) (by norm_num)

/-- In the states of the run up to each of its steps, ten times every quantity
fits its register. -/
def AlwaysRepresentable (env : Cloud.Env Binary64) (ls : List Traffic) : Prop :=
  ∀ before, before <+: ls → ∀ s, Runs.run (deviceStep env) Slave.sim before = some s →
    Representable s

/-- The quantities stay in range along a run exactly when the parameters of all
the `set uab` received do. -/
theorem alwaysRepresentable_iff {env : Cloud.Env Binary64} {ls : List Traffic}
    {s : Slave Binary64} (hrun : Runs.run (deviceStep env) Slave.sim ls = some s) :
    AlwaysRepresentable env ls ↔ ∀ l ∈ ls, StoresFit env l := by
  apply Runs.prefixes_iff _ representable_sim hrun
  intro s l t hs h
  exact representable_step hs h

/-- A device named `pcs` whose numbers are doubles. -/
def pcsEnv : Cloud.Env Binary64 where
  numbers := .binary64
  szDevName := ascii "pcs"
  nullText := none

def setUab (param : String) : Traffic :=
  .received 0 (Cloud.message (ascii ("\x7b\"cmd\":\"set uab\",\"param\":" ++ param ++ "\x7d")))

/-- A parameter in range and a write of all ones. -/
theorem alwaysRepresentable_run :
    AlwaysRepresentable pcsEnv [setUab "400.5", .holding .write 0x6020 1 fun _ ↦ 255] := by
  have hrun : (Runs.run (deviceStep pcsEnv) Slave.sim
      [setUab "400.5", .holding .write 0x6020 1 fun _ ↦ 255]).isSome := by decide +kernel
  obtain ⟨s, hs⟩ := Option.isSome_iff_exists.mp hrun
  apply (alwaysRepresentable_iff hs).mpr
  intro l hl
  obtain rfl | rfl : l = setUab "400.5" ∨ l = .holding .write 0x6020 1 fun _ ↦ 255 := by
    simpa using hl
  · intro uab huab
    have hstored : Cloud.storedUab pcsEnv.numbers (Cloud.message
        (ascii "\x7b\"cmd\":\"set uab\",\"param\":400.5\x7d")) = some (.finite (801 / 2)) := by
      decide +kernel
    obtain rfl : Binary64.finite (801 / 2) = uab := Option.some.inj (hstored.symm.trans huab)
    have hten : Doubles.binary64.mul10 (.finite (801 / 2)) = .finite 4005 := by decide +kernel
    rw [Fits, hten]
    constructor <;> decide +kernel
  · trivial

/-- The parameter -1. -/
theorem not_alwaysRepresentable :
    (Runs.run (deviceStep pcsEnv) Slave.sim [setUab "-1"]).isSome ∧
      ¬AlwaysRepresentable pcsEnv [setUab "-1"] := by
  have hrun : (Runs.run (deviceStep pcsEnv) Slave.sim [setUab "-1"]).isSome := by decide +kernel
  refine ⟨hrun, fun h ↦ ?_⟩
  obtain ⟨s, hs⟩ := Option.isSome_iff_exists.mp hrun
  have hstored : Cloud.storedUab pcsEnv.numbers (Cloud.message
      (ascii "\x7b\"cmd\":\"set uab\",\"param\":-1\x7d")) = some (.finite (-1)) := by
    decide +kernel
  have hstep : deviceStep pcsEnv Slave.sim (setUab "-1") = some s := by simpa using hs
  have hfit := (representable_step representable_sim hstep).mp (h _ List.prefix_rfl s hs)
  have hten : Doubles.binary64.mul10 (.finite (-1)) = .finite (-10) := by decide +kernel
  have hnonneg := (hfit _ hstored).nonneg
  rw [hten] at hnonneg
  exact absurd hnonneg (by decide +kernel)

end Mbs
