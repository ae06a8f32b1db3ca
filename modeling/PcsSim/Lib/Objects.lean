import Mathlib.Data.List.Basic

/-!
# Deterministic objects and forward simulation

An object answers each call with a reply and a new state.  If a relation
between the states of two objects is kept by every call, and related states
give equal replies, then the two objects cannot be told apart by any sequence
of calls.
-/

namespace Objects

variable {σ τ κ ρ : Type*}

def replies (exec : σ → κ → σ × ρ) : σ → List κ → List ρ
  | _, [] => []
  | s, c :: cs => (exec s c).2 :: replies exec (exec s c).1 cs

def after (exec : σ → κ → σ × ρ) : σ → List κ → σ
  | s, [] => s
  | s, c :: cs => after exec (exec s c).1 cs

@[simp] theorem replies_nil (exec : σ → κ → σ × ρ) (s : σ) : replies exec s [] = [] := rfl

@[simp] theorem replies_cons (exec : σ → κ → σ × ρ) (s : σ) (c : κ) (cs : List κ) :
    replies exec s (c :: cs) = (exec s c).2 :: replies exec (exec s c).1 cs := rfl

@[simp] theorem after_nil (exec : σ → κ → σ × ρ) (s : σ) : after exec s [] = s := rfl

@[simp] theorem after_cons (exec : σ → κ → σ × ρ) (s : σ) (c : κ) (cs : List κ) :
    after exec s (c :: cs) = after exec (exec s c).1 cs := rfl

/-- `R` is kept by every call and related states reply alike. -/
def Simulates (R : σ → τ → Prop) (exec : σ → κ → σ × ρ) (spec : τ → κ → τ × ρ) : Prop :=
  ∀ s t c, R s t → R (exec s c).1 (spec t c).1 ∧ (exec s c).2 = (spec t c).2

variable {R : σ → τ → Prop} {exec : σ → κ → σ × ρ} {spec : τ → κ → τ × ρ}

theorem Simulates.after (h : Simulates R exec spec) {s : σ} {t : τ} (hst : R s t)
    (cs : List κ) : R (after exec s cs) (Objects.after spec t cs) := by
  induction cs generalizing s t with
  | nil => exact hst
  | cons c cs ih => exact ih (h s t c hst).1

theorem Simulates.replies (h : Simulates R exec spec) {s : σ} {t : τ} (hst : R s t)
    (cs : List κ) : replies exec s cs = Objects.replies spec t cs := by
  induction cs generalizing s t with
  | nil => rfl
  | cons c cs ih =>
      rw [replies_cons, replies_cons, (h s t c hst).2, ih (h s t c hst).1]

section Runs

/-- The calls of a run of a relation, one after another, and their replies. -/
inductive Run (step : σ → κ → σ → ρ → Prop) : σ → List κ → σ → List ρ → Prop
  | nil {s : σ} : Run step s [] s []
  | cons {s s₁ s₂ : σ} {c : κ} {cs : List κ} {r : ρ} {rs : List ρ} (h : step s c s₁ r)
      (hrest : Run step s₁ cs s₂ rs) : Run step s (c :: cs) s₂ (r :: rs)

/-- Every step from a related state does what the object does. -/
def Refines (R : σ → τ → Prop) (step : σ → κ → σ → ρ → Prop) (spec : τ → κ → τ × ρ) : Prop :=
  ∀ ⦃s t c s' r⦄, R s t → step s c s' r → R s' (spec t c).1 ∧ r = (spec t c).2

variable {step : σ → κ → σ → ρ → Prop}

theorem Refines.run (h : Refines R step spec) {s s' : σ} {t : τ} {cs : List κ} {rs : List ρ}
    (hst : R s t) (hrun : Run step s cs s' rs) :
    rs = Objects.replies spec t cs ∧ R s' (Objects.after spec t cs) := by
  induction hrun generalizing t with
  | nil => exact ⟨rfl, hst⟩
  | cons hstep _ ih =>
      obtain ⟨hnext, hreply⟩ := h hst hstep
      obtain ⟨hreplies, hafter⟩ := ih hnext
      rw [Objects.replies_cons, Objects.after_cons, hreplies, ← hreply]
      exact ⟨rfl, hafter⟩

theorem exists_run {P : σ → Prop} (h : ∀ s c, P s → ∃ s' r, step s c s' r ∧ P s') {s : σ}
    (hs : P s) (cs : List κ) : ∃ s' rs, Run step s cs s' rs := by
  induction cs generalizing s with
  | nil => exact ⟨s, [], .nil⟩
  | cons c cs ih =>
      obtain ⟨s₁, r, hstep, hs₁⟩ := h s c hs
      obtain ⟨s', rs, hrun⟩ := ih hs₁
      exact ⟨s', r :: rs, .cons hstep hrun⟩

end Runs

end Objects
