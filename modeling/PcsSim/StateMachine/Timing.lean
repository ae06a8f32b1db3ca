import Mathlib.Algebra.Order.Field.Rat
import Mathlib.Data.Nat.Cast.Order.Field
import Mathlib.Order.Bounds.Basic
import Mathlib.Order.Monotone.Basic
import Mathlib.Tactic.FieldSimp
import Mathlib.Tactic.Positivity
import Mathlib.Tactic.Ring
import PcsSim.StateMachine.Sm

/-!
# The timing statistics

After a reset `sm_cal_timing` closes a window every `timing_prd` calls.  The
sums over the windows telescope.
-/

namespace StateMachine

/-- The call resets the statistics. -/
def Resets (sm : StateMachine) : Prop := sm.timingTimer < 0

/-- The call closes a window. -/
def Closes (sm : StateMachine) : Prop :=
  0 ≤ sm.timingTimer ∧ sm.timingPrd ≤ sm.timingTimer + 1

instance (sm : StateMachine) : Decidable sm.Resets := inferInstanceAs (Decidable (_ < _))

instance (sm : StateMachine) : Decidable sm.Closes := inferInstanceAs (Decidable (_ ∧ _))

/-- Call `n` reads the clock `clock n`. -/
def calls (sm : StateMachine) (clock : ℕ → ℚ) : ℕ → StateMachine
  | 0 => sm
  | n + 1 => (calls sm clock n).calTiming (clock n)

/-- The calls after `sm_reset_timing`. -/
def timed (sm : StateMachine) (prd tickPrd : ℕ) (clock : ℕ → ℚ) : ℕ → StateMachine :=
  calls (sm.resetTiming prd tickPrd) clock

structure IsLastReset (s : ℕ → StateMachine) (r n : ℕ) : Prop where
  lt : r < n
  resets : (s r).Resets
  noneSince : ∀ i, r < i → i < n → ¬(s i).Resets

/-- The calls after `r` and before `n` that close a window. -/
def closedWindows (s : ℕ → StateMachine) (r n : ℕ) : List ℕ :=
  (List.range n).filter fun i ↦ r < i ∧ (s i).Closes

def windowMean (prd : ℕ) (clock : ℕ → ℚ) (r i : ℕ) : ℚ :=
  (clock (r + (i + 1) * prd) - clock (r + i * prd)) / prd

/-- The statistics of the windows `closed` since the reset by call `r`. -/
structure Telescopes (prd : ℕ) (clock : ℕ → ℚ) (r : ℕ) (closed : List ℕ)
    (sm : StateMachine) : Prop where
  windows : closed = (List.range closed.length).map fun i ↦ r + (i + 1) * prd
  totalcnt : sm.timingTotalcnt = prd * closed.length
  totaltime : sm.timingTotaltime = clock (closed.getLastD r) - clock r
  ave : closed ≠ [] → sm.timingAve = sm.timingTotaltime / sm.timingTotalcnt
  max : closed ≠ [] →
    IsGreatest {mean | ∃ i < closed.length, mean = windowMean prd clock r i} sm.timingMax

section Steps

variable {sm : StateMachine} (now : ℚ)

@[simp] theorem timingPrd_calTiming : (sm.calTiming now).timingPrd = sm.timingPrd :=
  (calTiming_apart sm now).2.2.1

@[simp] theorem tickPrd_calTiming : (sm.calTiming now).tickPrd = sm.tickPrd :=
  (calTiming_apart sm now).2.2.2.1

theorem tickTimer_calTiming : (sm.calTiming now).tickTimer =
    if sm.tickTimer ≥ sm.tickPrd then 0 else sm.tickTimer + 1 :=
  (calTiming_apart sm now).2.2.2.2.1

theorem tick_calTiming : (sm.calTiming now).tick =
    if sm.tickTimer ≥ sm.tickPrd then sm.tick + 1 else sm.tick :=
  (calTiming_apart sm now).2.2.2.2.2

theorem calTiming_of_resets (h : sm.Resets) :
    (sm.calTiming now).timingTimer = 0 ∧ (sm.calTiming now).timingTslastrun = now ∧
      (sm.calTiming now).timingTotalcnt = 0 ∧ (sm.calTiming now).timingTotaltime = 0 ∧
        (sm.calTiming now).timingMax = -1 := by
  have hneg : sm.timingTimer < 0 := h
  simp only [calTiming, if_pos hneg]
  split_ifs <;> exact ⟨rfl, rfl, rfl, rfl, rfl⟩

theorem calTiming_of_between (h : ¬sm.Resets) (hopen : ¬sm.Closes) :
    (sm.calTiming now).timingTimer = sm.timingTimer + 1 ∧
      (sm.calTiming now).timingTslastrun = sm.timingTslastrun ∧
        (sm.calTiming now).timingTotalcnt = sm.timingTotalcnt ∧
          (sm.calTiming now).timingTotaltime = sm.timingTotaltime ∧
            (sm.calTiming now).timingAve = sm.timingAve ∧
              (sm.calTiming now).timingMax = sm.timingMax := by
  have hneg : ¬sm.timingTimer < 0 := h
  have hprd : ¬sm.timingTimer + 1 ≥ sm.timingPrd := fun hle ↦ hopen ⟨not_lt.mp h, hle⟩
  simp only [calTiming, if_neg hneg, if_neg hprd]
  split_ifs <;> exact ⟨rfl, rfl, rfl, rfl, rfl, rfl⟩

theorem calTiming_of_closes (h : sm.Closes) :
    ((sm.calTiming now).timingTimer = 0 ∨ (sm.calTiming now).timingTimer = -1) ∧
      (sm.calTiming now).timingTslastrun = now ∧
        (sm.calTiming now).timingTotalcnt = sm.timingTotalcnt + sm.timingPrd ∧
          (sm.calTiming now).timingTotaltime = sm.timingTotaltime + (now - sm.timingTslastrun) ∧
            (sm.calTiming now).timingAve =
              (sm.calTiming now).timingTotaltime / (sm.calTiming now).timingTotalcnt ∧
              (sm.calTiming now).timingMax =
                max sm.timingMax ((now - sm.timingTslastrun) / sm.timingPrd) := by
  have hprd : sm.timingTimer + 1 ≥ sm.timingPrd := h.2
  have hmax : ∀ cur, (if cur > sm.timingMax then cur else sm.timingMax) =
      max sm.timingMax cur := by
    intro cur
    split_ifs with hcur
    · exact (max_eq_right hcur.le).symm
    · exact (max_eq_left (not_lt.mp hcur)).symm
  simp only [calTiming, if_neg (not_lt.mpr h.1), if_pos hprd, closeWindow, hmax]
  split_ifs <;> simp

end Steps

section Ticks

variable {sm : StateMachine} {clock : ℕ → ℚ} {prd tickPrd : ℕ}

theorem timed_succ (n : ℕ) :
    timed sm prd tickPrd clock (n + 1) = (timed sm prd tickPrd clock n).calTiming (clock n) := rfl

theorem timingPrd_timed (n : ℕ) :
    (timed sm prd tickPrd clock n).timingPrd = prd := by
  induction n with
  | zero => rfl
  | succ n ih => rw [timed_succ, timingPrd_calTiming, ih]

theorem tickPrd_timed (n : ℕ) :
    (timed sm prd tickPrd clock n).tickPrd = tickPrd := by
  induction n with
  | zero => rfl
  | succ n ih => rw [timed_succ, tickPrd_calTiming, ih]

/-- The timer compares before it counts, so a tick is one call longer than
`tick_prd`. -/
theorem tick_timed (n : ℕ) :
    (timed sm prd tickPrd clock n).tickTimer = (n % (tickPrd + 1) : ℕ) ∧
      (timed sm prd tickPrd clock n).tick = UInt8.ofNat (n / (tickPrd + 1)) := by
  induction n with
  | zero => exact ⟨by simp [timed, calls, resetTiming], by simp [timed, calls, resetTiming]⟩
  | succ n ih =>
      obtain ⟨htimer, htick⟩ := ih
      rw [timed_succ, tickTimer_calTiming, tick_calTiming, tickPrd_timed, htimer, htick]
      have hlt : n % (tickPrd + 1) < tickPrd + 1 := Nat.mod_lt n (Nat.succ_pos _)
      by_cases hlast : n % (tickPrd + 1) = tickPrd
      · have hge : ((n % (tickPrd + 1) : ℕ) : ℤ) ≥ tickPrd := by rw [hlast]
        rw [if_pos hge, if_pos hge]
        have hmod : (n + 1) % (tickPrd + 1) = 0 := by
          rw [Nat.add_mod, hlast]
          rcases Nat.eq_zero_or_pos tickPrd with rfl | hpos
          · simp
          · rw [Nat.mod_eq_of_lt (show 1 < tickPrd + 1 by omega), Nat.mod_self]
        have hdiv : (n + 1) / (tickPrd + 1) = n / (tickPrd + 1) + 1 :=
          Nat.succ_div_of_dvd (Nat.dvd_of_mod_eq_zero hmod)
        rw [hmod, hdiv]
        exact ⟨rfl, by simp⟩
      · have hge : ¬((n % (tickPrd + 1) : ℕ) : ℤ) ≥ tickPrd := by omega
        rw [if_neg hge, if_neg hge]
        have hmod : (n + 1) % (tickPrd + 1) = n % (tickPrd + 1) + 1 := by
          rw [Nat.add_mod, Nat.mod_eq_of_lt (show 1 < tickPrd + 1 by omega),
            Nat.mod_eq_of_lt (show n % (tickPrd + 1) + 1 < tickPrd + 1 by omega)]
        have hdiv : (n + 1) / (tickPrd + 1) = n / (tickPrd + 1) := by
          apply Nat.succ_div_of_not_dvd
          intro hdvd
          rw [Nat.mod_eq_zero_of_dvd hdvd] at hmod
          omega
        rw [hmod, hdiv]
        exact ⟨by push_cast; rfl, rfl⟩

end Ticks

section Windows

variable {prd : ℕ} {clock : ℕ → ℚ} {r n : ℕ} {s : ℕ → StateMachine}

theorem IsLastReset.unique {r' : ℕ} (h : IsLastReset s r n) (h' : IsLastReset s r' n) :
    r = r' := by
  rcases lt_trichotomy r r' with hlt | heq | hlt
  · exact absurd h'.resets (h.noneSince r' hlt h'.lt)
  · exact heq
  · exact absurd h.resets (h'.noneSince r hlt h.lt)

theorem IsLastReset.of_resets (h : (s n).Resets) : IsLastReset s n (n + 1) where
  lt := Nat.lt_succ_self n
  resets := h
  noneSince i hlow hhigh := by omega

theorem IsLastReset.succ (h : IsLastReset s r n) (hn : ¬(s n).Resets) :
    IsLastReset s r (n + 1) where
  lt := h.lt.trans (Nat.lt_succ_self n)
  resets := h.resets
  noneSince i hlow hhigh := by
    rcases Nat.lt_succ_iff_lt_or_eq.mp hhigh with hlt | rfl
    · exact h.noneSince i hlow hlt
    · exact hn

theorem closedWindows_self : closedWindows s n (n + 1) = [] := by
  apply List.filter_eq_nil_iff.mpr
  intro i hi
  have hlt := List.mem_range.mp hi
  simp only [decide_eq_true_eq, not_and]
  omega

theorem closedWindows_succ (hr : r < n) :
    closedWindows s r (n + 1) = closedWindows s r n ++ if (s n).Closes then [n] else [] := by
  rw [closedWindows, closedWindows, List.range_succ, List.filter_append]
  by_cases hn : (s n).Closes
  · simp [hr, hn]
  · simp [hn]

theorem windowMean_nonneg (hclock : Monotone clock) (i : ℕ) :
    0 ≤ windowMean prd clock r i := by
  have hle : clock (r + i * prd) ≤ clock (r + (i + 1) * prd) := by
    apply hclock
    have hmul : i * prd ≤ (i + 1) * prd := Nat.mul_le_mul_right prd (Nat.le_succ i)
    omega
  exact div_nonneg (sub_nonneg.mpr hle) (Nat.cast_nonneg prd)

theorem isGreatest_windowMean_succ {k : ℕ} {greatest : ℚ}
    (h : IsGreatest {mean | ∃ i < k, mean = windowMean prd clock r i} greatest) :
    IsGreatest {mean | ∃ i < k + 1, mean = windowMean prd clock r i}
      (max greatest (windowMean prd clock r k)) := by
  have hset : {mean | ∃ i < k + 1, mean = windowMean prd clock r i} =
      insert (windowMean prd clock r k) {mean | ∃ i < k, mean = windowMean prd clock r i} := by
    ext mean
    simp only [Set.mem_ofPred_eq, Set.mem_insert_iff]
    constructor
    · rintro ⟨i, hi, rfl⟩
      rcases Nat.lt_succ_iff_lt_or_eq.mp hi with hlt | rfl
      · exact .inr ⟨i, hlt, rfl⟩
      · exact .inl rfl
    · rintro (rfl | ⟨i, hi, rfl⟩)
      · exact ⟨k, Nat.lt_succ_self k, rfl⟩
      · exact ⟨i, hi.trans (Nat.lt_succ_self k), rfl⟩
  rw [hset, max_comm]
  exact h.insert _

/-- What the state is before call `n`, with `c` calls since the last window. -/
structure Counting (prd : ℕ) (clock : ℕ → ℚ) (r : ℕ) (closed : List ℕ) (c n : ℕ)
    (sm : StateMachine) : Prop extends Telescopes prd clock r closed sm where
  position : n = r + 1 + closed.length * prd + c
  open' : c < prd
  timer : sm.timingTimer = c ∨ sm.timingTimer = -1 ∧ c = 0
  lastrun : sm.timingTslastrun = clock (r + closed.length * prd)
  noMax : closed = [] → sm.timingMax = -1

theorem Counting.of_resets {sm : StateMachine} (hprd : 1 ≤ prd) (h : sm.Resets) :
    Counting prd clock n [] 0 (n + 1) (sm.calTiming (clock n)) := by
  obtain ⟨htimer, hlastrun, htotalcnt, htotaltime, hmax⟩ := calTiming_of_resets (clock n) h
  refine ⟨⟨rfl, ?_, ?_, fun hne ↦ absurd rfl hne, fun hne ↦ absurd rfl hne⟩, ?_, hprd,
    .inl htimer, ?_, fun _ ↦ hmax⟩
  · simpa using htotalcnt
  · simpa using htotaltime
  · simp
  · simpa using hlastrun

variable {closed : List ℕ} {c : ℕ} {sm : StateMachine}

theorem Counting.between (h : Counting prd clock r closed c n sm) (hprd : sm.timingPrd = prd)
    (hreset : ¬sm.Resets) (hopen : ¬sm.Closes) :
    Counting prd clock r closed (c + 1) (n + 1) (sm.calTiming (clock n)) := by
  obtain ⟨htimer, hlastrun, htotalcnt, htotaltime, haverage, hmax⟩ :=
    calTiming_of_between (clock n) hreset hopen
  have hc : sm.timingTimer = c := by
    rcases h.timer with hc | ⟨hneg, -⟩
    · exact hc
    · exact absurd (show sm.timingTimer < 0 by omega) hreset
  have hlt : sm.timingTimer + 1 < sm.timingPrd := by
    by_contra hge
    exact hopen ⟨not_lt.mp hreset, not_lt.mp hge⟩
  refine ⟨⟨h.windows, ?_, ?_, ?_, ?_⟩, ?_, by omega, .inl ?_, ?_, ?_⟩
  · rw [htotalcnt, h.totalcnt]
  · rw [htotaltime, h.totaltime]
  · rw [haverage, htotalcnt, htotaltime]
    exact h.ave
  · rw [hmax]
    exact h.max
  · rw [h.position, Nat.add_assoc]
  · rw [htimer, hc]
    rfl
  · rw [hlastrun, h.lastrun]
  · rw [hmax]
    exact h.noMax

/-- The window that is closed began where the one before it was closed. -/
theorem Counting.closes (hclock : Monotone clock) (h : Counting prd clock r closed c n sm)
    (hprd : sm.timingPrd = prd) (hcloses : sm.Closes) :
    Counting prd clock r (closed ++ [n]) 0 (n + 1) (sm.calTiming (clock n)) := by
  obtain ⟨htimer, hlastrun, htotalcnt, htotaltime, haverage, hmax⟩ :=
    calTiming_of_closes (clock n) hcloses
  have hc : sm.timingTimer = c := by
    rcases h.timer with hc | ⟨hneg, -⟩
    · exact hc
    · exact absurd hcloses.1 (by omega)
  have hlast : c + 1 = prd := by
    have hle := hcloses.2
    have hlt := h.open'
    omega
  have hn : n = r + (closed.length + 1) * prd := by
    rw [h.position, Nat.add_mul, Nat.one_mul]
    omega
  have hmean : (clock n - sm.timingTslastrun) / sm.timingPrd =
      windowMean prd clock r closed.length := by
    rw [windowMean, ← hn, h.lastrun, hprd, Int.cast_natCast]
  have hlength : (closed ++ [n]).length = closed.length + 1 := by simp
  have hend : clock (closed.getLastD r) = clock (r + closed.length * prd) := by
    rw [h.windows]
    cases hk : closed.length with
    | zero => simp
    | succ k => simp [List.range_succ]
  refine ⟨⟨?_, ?_, ?_, fun _ ↦ haverage, fun _ ↦ ?_⟩, ?_, by omega, ?_, ?_, by simp⟩
  · rw [hlength, List.range_succ, List.map_append, ← h.windows, List.map_singleton, ← hn]
  · rw [htotalcnt, h.totalcnt, hprd, hlength]
    push_cast
    ring
  · rw [htotaltime, h.totaltime, h.lastrun, hend, List.getLastD_concat]
    ring
  · rw [hmax, hmean, hlength]
    cases hclosed : closed with
    | nil =>
        rw [h.noMax hclosed, List.length_nil, max_eq_right]
        · refine ⟨⟨0, Nat.zero_lt_one, rfl⟩, ?_⟩
          rintro mean ⟨i, hi, rfl⟩
          rw [Nat.lt_one_iff.mp hi]
        · exact le_trans (by norm_num) (windowMean_nonneg hclock 0)
    | cons i rest =>
        rw [← hclosed]
        exact isGreatest_windowMean_succ (h.max (by simp [hclosed]))
  · rw [hlength]
    omega
  · rcases htimer with hzero | hneg
    · exact .inl hzero
    · exact .inr ⟨hneg, rfl⟩
  · rw [hlastrun, hlength, ← hn]

end Windows

section Runs

variable (sm : StateMachine) {prd : ℕ} (tickPrd : ℕ) {clock : ℕ → ℚ}

theorem counting_timed (hprd : 1 ≤ prd) (hclock : Monotone clock) (n : ℕ) :
    ∃ r c, IsLastReset (timed sm prd tickPrd clock) r (n + 1) ∧
      Counting prd clock r (closedWindows (timed sm prd tickPrd clock) r (n + 1)) c (n + 1)
        (timed sm prd tickPrd clock (n + 1)) := by
  induction n with
  | zero =>
      have hresets : (timed sm prd tickPrd clock 0).Resets := (by decide : (-1 : ℤ) < 0)
      refine ⟨0, 0, .of_resets hresets, ?_⟩
      rw [closedWindows_self]
      exact .of_resets hprd hresets
  | succ n ih =>
      obtain ⟨r, c, hlast, hcounting⟩ := ih
      have hprd' : (timed sm prd tickPrd clock (n + 1)).timingPrd = prd := timingPrd_timed (n + 1)
      by_cases hresets : (timed sm prd tickPrd clock (n + 1)).Resets
      · refine ⟨n + 1, 0, .of_resets hresets, ?_⟩
        rw [closedWindows_self]
        exact .of_resets hprd hresets
      rw [timed_succ]
      by_cases hcloses : (timed sm prd tickPrd clock (n + 1)).Closes
      · refine ⟨r, 0, hlast.succ hresets, ?_⟩
        rw [closedWindows_succ hlast.lt, if_pos hcloses]
        exact hcounting.closes hclock hprd' hcloses
      · refine ⟨r, c + 1, hlast.succ hresets, ?_⟩
        rw [closedWindows_succ hlast.lt, if_neg hcloses, List.append_nil]
        exact hcounting.between hprd' hresets hcloses

theorem exists_isLastReset (hprd : 1 ≤ prd) (hclock : Monotone clock) {n : ℕ} (hn : 0 < n) :
    ∃ r, IsLastReset (timed sm prd tickPrd clock) r n := by
  obtain ⟨m, rfl⟩ := Nat.exists_eq_succ_of_ne_zero hn.ne'
  obtain ⟨r, c, hlast, -⟩ := counting_timed sm tickPrd hprd hclock m
  exact ⟨r, hlast⟩

theorem telescopes_timed (hprd : 1 ≤ prd) (hclock : Monotone clock) {r n : ℕ}
    (h : IsLastReset (timed sm prd tickPrd clock) r n) :
    Telescopes prd clock r (closedWindows (timed sm prd tickPrd clock) r n)
      (timed sm prd tickPrd clock n) := by
  obtain ⟨m, rfl⟩ := Nat.exists_eq_succ_of_ne_zero (Nat.ne_zero_of_lt h.lt)
  obtain ⟨r', c, hlast, hcounting⟩ := counting_timed sm tickPrd hprd hclock m
  obtain rfl : r' = r := hlast.unique h
  exact hcounting.toTelescopes

/-- A window is closed with some calls to divide by. -/
theorem totalcnt_pos_of_closes (hprd : 1 ≤ prd) (hclock : Monotone clock) {n : ℕ}
    (h : (timed sm prd tickPrd clock n).Closes) :
    0 < (timed sm prd tickPrd clock n).timingTotalcnt +
      (timed sm prd tickPrd clock n).timingPrd := by
  have hn : 0 < n := by
    apply Nat.pos_of_ne_zero
    rintro rfl
    exact absurd h.1 (by decide : ¬(0 : ℤ) ≤ -1)
  obtain ⟨r, hr⟩ := exists_isLastReset sm tickPrd hprd hclock hn
  have hpos : (0 : ℚ) < prd := Nat.cast_pos.mpr hprd
  rw [(telescopes_timed sm tickPrd hprd hclock hr).totalcnt, timingPrd_timed, Int.cast_natCast]
  positivity

/-- After `n` calls: the statistics are those of the windows closed since the
last reset, a call that divides divides by numbers that are not 0, and the ticks
go on through the resets. -/
theorem timing_telescopes (hprd : 1 ≤ prd) (hclock : Monotone clock) (n : ℕ) :
    (0 < n → ∃ r, IsLastReset (timed sm prd tickPrd clock) r n) ∧
    (∀ r, IsLastReset (timed sm prd tickPrd clock) r n →
      Telescopes prd clock r (closedWindows (timed sm prd tickPrd clock) r n)
        (timed sm prd tickPrd clock n)) ∧
    ((timed sm prd tickPrd clock n).Closes →
      (timed sm prd tickPrd clock n).timingTotalcnt +
          (timed sm prd tickPrd clock n).timingPrd ≠ 0 ∧
        (timed sm prd tickPrd clock n).timingPrd ≠ 0) ∧
    (timed sm prd tickPrd clock n).tick.toNat = n / (tickPrd + 1) % 256 := by
  refine ⟨exists_isLastReset sm tickPrd hprd hclock,
    fun r ↦ telescopes_timed sm tickPrd hprd hclock, ?_, ?_⟩
  · intro h
    refine ⟨(totalcnt_pos_of_closes sm tickPrd hprd hclock h).ne', ?_⟩
    rw [timingPrd_timed]
    exact Int.natCast_ne_zero.mpr (Nat.ne_zero_of_lt hprd)
  · rw [(tick_timed n).2, UInt8.toNat_ofNat']

end Runs

def cleared : StateMachine where
  states := []
  errs := []
  state := 0
  szstate := []
  step := 0
  count := 0
  szerrcode := []
  tick := 0
  tickTimer := 0
  tickPrd := 0
  timingTimer := 0
  timingPrd := 0
  timingTslastrun := 0
  timingTotalcnt := 0
  timingTotaltime := 0
  timingAve := 0
  timingMax := 0
  timingCur := 0

/-- Five calls, one in each millisecond, with windows of two. -/
theorem timing_telescopes_five :
    Telescopes 2 (fun n ↦ n) 0 [2, 4] (timed cleared 2 1 (fun n ↦ n) 5) := by
  have hnone : ∀ i < 5, 0 < i → ¬(timed cleared 2 1 (fun n ↦ n) i).Resets := by decide +kernel
  have hlast : IsLastReset (timed cleared 2 1 fun n ↦ n) 0 5 :=
    ⟨by decide, by decide +kernel, fun i hlow hhigh ↦ hnone i hhigh hlow⟩
  have hclosed : closedWindows (timed cleared 2 1 fun n ↦ n) 0 5 = [2, 4] := by decide +kernel
  have htelescopes := (timing_telescopes cleared 1 (by decide) Nat.mono_cast 5).2.1 0 hlast
  rwa [hclosed] at htelescopes

end StateMachine
