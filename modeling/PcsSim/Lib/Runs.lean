import Mathlib.Data.List.Basic
import Mathlib.Tactic.Common

/-!
# Runs of a partial step function

A labelled system is given by a partial step: `step s l = none` says that the
label `l` is not enabled in `s`.  A run folds the step over a list of labels.
The two rules used everywhere are `run_invariant`, for properties kept by
every step, and `run_invariant_of_always`, for properties kept by every step
that meets a side condition.
-/

namespace Runs

variable {σ ι : Type*}

def run (step : σ → ι → Option σ) : σ → List ι → Option σ
  | s, [] => some s
  | s, l :: ls => (step s l).bind fun t ↦ run step t ls

/-- Every step of the run is taken from a state and with a label meeting `ok`.
Nothing is asked past the first label that is not enabled. -/
def Always (step : σ → ι → Option σ) (ok : σ → ι → Prop) : σ → List ι → Prop
  | _, [] => True
  | s, l :: ls => ok s l ∧ ∀ t, step s l = some t → Always step ok t ls

instance decidableAlways (step : σ → ι → Option σ) (ok : σ → ι → Prop)
    [∀ s l, Decidable (ok s l)] : ∀ s ls, Decidable (Always step ok s ls)
  | _, [] => .isTrue trivial
  | s, l :: ls =>
      match h : step s l with
      | none => decidable_of_iff (ok s l) (by simp [Always, h])
      | some t =>
          have := decidableAlways step ok t ls
          decidable_of_iff (ok s l ∧ Always step ok t ls) (by simp [Always, h])

variable {step : σ → ι → Option σ}

@[simp] theorem run_nil (s : σ) : run step s [] = some s := rfl

@[simp] theorem run_cons (s : σ) (l : ι) (ls : List ι) :
    run step s (l :: ls) = (step s l).bind fun t ↦ run step t ls := rfl

theorem run_append (s : σ) (xs ys : List ι) :
    run step s (xs ++ ys) = (run step s xs).bind fun t ↦ run step t ys := by
  induction xs generalizing s with
  | nil => rfl
  | cons x xs ih =>
      cases h : step s x with
      | none => simp [h]
      | some t => simpa [h] using ih t

theorem run_cons_eq_some_iff {s u : σ} {l : ι} {ls : List ι} :
    run step s (l :: ls) = some u ↔
      ∃ t, step s l = some t ∧ run step t ls = some u := by
  simp [Option.bind_eq_some_iff]

theorem run_cons_of_step {s t : σ} {l : ι} (h : step s l = some t) (ls : List ι) :
    run step s (l :: ls) = run step t ls := by
  rw [run_cons, h, Option.bind_some]

/-- A property kept by every step that meets the side condition holds at the
end of every run whose steps all meet it. -/
theorem run_invariant_of_always {ok : σ → ι → Prop} {P : σ → Prop}
    (hstep : ∀ s l t, ok s l → P s → step s l = some t → P t)
    {s u : σ} {ls : List ι} (hok : Always step ok s ls)
    (hs : P s) (hrun : run step s ls = some u) : P u := by
  induction ls generalizing s with
  | nil =>
      obtain rfl : s = u := by simpa using hrun
      exact hs
  | cons l ls ih =>
      obtain ⟨t, ht, hu⟩ := run_cons_eq_some_iff.mp hrun
      exact ih (hok.2 t ht) (hstep s l t hok.1 hs ht) hu

theorem always_of_forall {ok : ι → Prop} {ls : List ι} (h : ∀ l ∈ ls, ok l) (s : σ) :
    Always step (fun _ l ↦ ok l) s ls := by
  induction ls generalizing s with
  | nil => trivial
  | cons l ls ih =>
      exact ⟨h l List.mem_cons_self, fun t _ ↦ ih (fun l hl ↦ h l (List.mem_cons_of_mem _ hl)) t⟩

theorem run_invariant {P : σ → Prop}
    (hstep : ∀ s l t, P s → step s l = some t → P t)
    {s u : σ} {ls : List ι} (hs : P s) (hrun : run step s ls = some u) : P u := by
  have hok : Always step (fun _ _ ↦ True) s ls := always_of_forall (fun _ _ ↦ trivial) s
  exact run_invariant_of_always (fun s l t _ ↦ hstep s l t) hok hs hrun

/-- A property that each step keeps exactly when it meets the side condition
holds at the end of a run exactly when it held at the start and every step met
the condition. -/
theorem run_iff_always {ok : σ → ι → Prop} {I P : σ → Prop}
    (hstep : ∀ s l t, I s → step s l = some t → I t ∧ (P t ↔ P s ∧ ok s l))
    {s u : σ} {ls : List ι} (hs : I s) (hrun : run step s ls = some u) :
    P u ↔ P s ∧ Always step ok s ls := by
  induction ls generalizing s with
  | nil =>
      obtain rfl : s = u := by simpa using hrun
      simp [Always]
  | cons l ls ih =>
      obtain ⟨t, ht, hu⟩ := run_cons_eq_some_iff.mp hrun
      obtain ⟨hI, hiff⟩ := hstep s l t hs ht
      rw [ih hI hu, hiff, Always, and_assoc]
      refine and_congr_right fun _ ↦ and_congr_right fun _ ↦ ⟨fun h t' ht' ↦ ?_, fun h ↦ h t ht⟩
      obtain rfl : t = t' := Option.some.inj (ht.symm.trans ht')
      exact h

theorem forall_prefix_cons {Q : List ι → Prop} {l : ι} {ls : List ι} :
    (∀ before, before <+: l :: ls → Q before) ↔
      Q [] ∧ ∀ before, before <+: ls → Q (l :: before) := by
  constructor
  · intro h
    refine ⟨h [] List.nil_prefix, fun before hbefore ↦ ?_⟩
    exact h (l :: before) ((List.prefix_cons_inj l).mpr hbefore)
  · rintro ⟨hnil, hcons⟩ before hbefore
    rcases List.prefix_cons_iff.mp hbefore with rfl | ⟨before', rfl, hbefore'⟩
    · exact hnil
    · exact hcons before' hbefore'

/-- A property that a step from a state with it keeps exactly when the label
meets `ok` holds all along a run exactly when all labels do. -/
theorem prefixes_iff {ok : ι → Prop} {P : σ → Prop}
    (hstep : ∀ s l t, P s → step s l = some t → (P t ↔ ok l))
    {s u : σ} {ls : List ι} (hs : P s) (hrun : run step s ls = some u) :
    (∀ before, before <+: ls → ∀ t, run step s before = some t → P t) ↔ ∀ l ∈ ls, ok l := by
  induction ls generalizing s with
  | nil =>
      refine iff_of_true (fun before hbefore t ht ↦ ?_) (by simp)
      rw [List.prefix_nil.mp hbefore, run_nil, Option.some.injEq] at ht
      exact ht ▸ hs
  | cons l ls ih =>
      obtain ⟨v, hv, hu⟩ := run_cons_eq_some_iff.mp hrun
      simp only [forall_prefix_cons, List.forall_mem_cons, run_cons_of_step hv]
      constructor
      · rintro ⟨-, h⟩
        have hPv : P v := h [] List.nil_prefix v rfl
        exact ⟨(hstep s l v hs hv).mp hPv, (ih hPv hu).mp h⟩
      · rintro ⟨hl, hls⟩
        have hPv : P v := (hstep s l v hs hv).mpr hl
        refine ⟨fun t ht ↦ ?_, (ih hPv hu).mpr hls⟩
        exact Option.some.inj ht ▸ hs

/-- The same for a condition on the state and the label, beside an invariant,
where the steps may also fail to be enabled. -/
theorem prefixes_iff_always {ok : σ → ι → Prop} {I P : σ → Prop}
    (hinv : ∀ s l t, I s → step s l = some t → I t)
    (hstep : ∀ s l, I s → P s → ((∃ t, step s l = some t ∧ P t) ↔ ok s l))
    {s : σ} {ls : List ι} (hI : I s) (hs : P s) :
    (∀ before, before <+: ls → ∃ t, run step s before = some t ∧ P t) ↔ Always step ok s ls := by
  induction ls generalizing s with
  | nil =>
      refine iff_of_true (fun before hbefore ↦ ?_) trivial
      rw [List.prefix_nil.mp hbefore]
      exact ⟨s, rfl, hs⟩
  | cons l ls ih =>
      rw [forall_prefix_cons]
      constructor
      · rintro ⟨-, h⟩
        obtain ⟨v, hv, hPv⟩ : ∃ v, step s l = some v ∧ P v := by simpa using h [] List.nil_prefix
        refine ⟨(hstep s l hI hs).mp ⟨v, hv, hPv⟩, fun t ht ↦ ?_⟩
        obtain rfl : v = t := Option.some.inj (hv.symm.trans ht)
        simp only [run_cons_of_step hv] at h
        exact (ih (hinv s l v hI hv) hPv).mp h
      · rintro ⟨hok, hls⟩
        obtain ⟨v, hv, hPv⟩ := (hstep s l hI hs).mpr hok
        simp only [run_cons_of_step hv]
        exact ⟨⟨s, rfl, hs⟩, (ih (hinv s l v hI hv) hPv).mpr (hls v hv)⟩

/-- Two side conditions that agree wherever an invariant holds that steps
meeting the first keep agree along every run from a state with the invariant. -/
theorem always_iff_of_invariant {ok ok' : σ → ι → Prop} {P : σ → Prop}
    (hstep : ∀ s l, P s → (ok s l ↔ ok' s l) ∧ (ok s l → ∀ t, step s l = some t → P t))
    {s : σ} {ls : List ι} (hs : P s) : Always step ok s ls ↔ Always step ok' s ls := by
  induction ls generalizing s with
  | nil => exact Iff.rfl
  | cons l ls ih =>
      obtain ⟨hiff, hnext⟩ := hstep s l hs
      simp only [Always, ← hiff]
      refine and_congr_right fun hok ↦ forall₂_congr fun t ht ↦ ih (hnext hok t ht)

theorem always_congr {ok ok' : σ → ι → Prop} {P : σ → Prop}
    (hstep : ∀ s l t, P s → step s l = some t → P t)
    (hiff : ∀ s l, P s → (ok s l ↔ ok' s l)) {s : σ} {ls : List ι} (hs : P s) :
    Always step ok s ls ↔ Always step ok' s ls :=
  always_iff_of_invariant (fun s l hs ↦ ⟨hiff s l hs, fun _ t ht ↦ hstep s l t hs ht⟩) hs

theorem Always.mono_of_forall {ok ok' : σ → ι → Prop} {okLabel : ι → Prop}
    (himp : ∀ s l, ok s l → okLabel l → ok' s l) {s : σ} {ls : List ι}
    (h : Always step ok s ls) (hls : ∀ l ∈ ls, okLabel l) : Always step ok' s ls := by
  induction ls generalizing s with
  | nil => trivial
  | cons l ls ih =>
      refine ⟨himp s l h.1 (hls l List.mem_cons_self), fun t ht ↦ ih (h.2 t ht) ?_⟩
      exact fun l hl ↦ hls l (List.mem_cons_of_mem _ hl)

/-- Some run over labels that meet `ok` leads from `s` to `t`. -/
def Reaches (step : σ → ι → Option σ) (ok : ι → Prop) (s t : σ) : Prop :=
  ∃ ls, (∀ l ∈ ls, ok l) ∧ run step s ls = some t

namespace Reaches

variable {ok : ι → Prop} {s t u : σ}

theorem refl (s : σ) : Reaches step ok s s := ⟨[], by simp, rfl⟩

theorem single {l : ι} (hok : ok l) (h : step s l = some t) : Reaches step ok s t :=
  ⟨[l], by simpa using hok, by simp [h]⟩

theorem trans (hst : Reaches step ok s t) (htu : Reaches step ok t u) : Reaches step ok s u := by
  obtain ⟨xs, hxs, hrun⟩ := hst
  obtain ⟨ys, hys, hrun'⟩ := htu
  refine ⟨xs ++ ys, ?_, by rw [run_append, hrun, Option.bind_some, hrun']⟩
  intro l hl
  rcases List.mem_append.mp hl with hx | hy
  · exact hxs l hx
  · exact hys l hy

end Reaches

/-- An endless run: `labels n` is taken in `states n`. -/
def IsRun (step : σ → ι → Option σ) (labels : ℕ → ι) (states : ℕ → σ) : Prop :=
  ∀ n, step (states n) (labels n) = some (states (n + 1))

theorem exists_isRun {labels : ℕ → ι} (henabled : ∀ s n, (step s (labels n)).isSome) (s : σ) :
    ∃ states, states 0 = s ∧ IsRun step labels states := by
  let states : ℕ → σ := fun n ↦ n.rec s fun n t ↦ (step t (labels n)).get (henabled t n)
  exact ⟨states, rfl, fun n ↦ (Option.some_get (henabled (states n) n)).symm⟩

theorem IsRun.invariant {labels : ℕ → ι} {states : ℕ → σ} {P : σ → Prop}
    (hrun : IsRun step labels states) (hstep : ∀ s l t, P s → step s l = some t → P t)
    (hstart : P (states 0)) (n : ℕ) : P (states n) := by
  induction n with
  | zero => exact hstart
  | succ n ih => exact hstep _ _ _ ih (hrun n)

theorem IsRun.run_range {labels : ℕ → ι} {states : ℕ → σ} (hrun : IsRun step labels states)
    (n : ℕ) : run step (states 0) ((List.range n).map labels) = some (states n) := by
  induction n with
  | zero => rfl
  | succ n ih => simp [List.range_succ, run_append, ih, hrun n]

end Runs
