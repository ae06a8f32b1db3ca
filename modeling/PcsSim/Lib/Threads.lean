import PcsSim.Lib.Runs

/-!
# A looping thread among other threads

`Code` is the text of a thread: a tree of atomic actions, each followed by
what the thread does on each reply.  A `System` runs one such text again and
again (`while (1) body`), and lets an environment act between any two actions.

Part of the state is written by the thread alone.  A `Rule` says, for that
part, what must hold before each action and what may hold after it; a reply
that depends on the rest of the state is left open.  `wp` computes from a rule
the weakest precondition of a text.  An `Outline` is an invariant of the owned
part for the boundary between two rounds.  `Outline.run_invariant` then gives,
for runs with any interleaving, the precondition of every action performed,
and every state invariant kept by each action under its precondition and by
each environment step.  `System.beside` puts a second thread into the environment,
with an outline of its own.
-/

namespace Threads

/-- Finished, or an atomic action and what follows each of its replies. -/
inductive Code (Op : Type) (Reply : Op → Type) (α : Type) : Type
  | done (a : α)
  | call (op : Op) (next : Reply op → Code Op Reply α)

namespace Code

variable {Op : Type} {Reply : Op → Type} {α β : Type}

def bind : Code Op Reply α → (α → Code Op Reply β) → Code Op Reply β
  | done a, f => f a
  | call op next, f => call op fun r ↦ (next r).bind f

instance : Monad (Code Op Reply) where
  pure := done
  bind := bind

@[simp] def perform (op : Op) : Code Op Reply (Reply op) := call op done

@[simp] theorem pure_eq (a : α) : (pure a : Code Op Reply α) = done a := rfl

@[simp] theorem done_bind (a : α) (f : α → Code Op Reply β) : done a >>= f = f a := rfl

@[simp] theorem call_bind (op : Op) (next : Reply op → Code Op Reply α)
    (f : α → Code Op Reply β) :
    call op next >>= f = call op fun r ↦ next r >>= f := rfl

end Code

/-- The performing of an action may fail to be enabled (`none`): a lock that
is taken, or an action that ends the process. -/
structure System (Op : Type) (Reply : Op → Type) (σ ι ε : Type) where
  exec : (op : Op) → ι → σ → Option (Reply op × σ)
  env : ε → σ → Option σ
  body : Code Op Reply Unit

inductive Label (ι ε : Type) : Type
  | own (outcome : ι)
  | env (event : ε)

structure Config (Op : Type) (Reply : Op → Type) (σ : Type) where
  code : Code Op Reply Unit
  state : σ

variable {Op : Type} {Reply : Op → Type} {σ κ ι ε α β : Type}

/-- The thread starts a new round from `done`, and otherwise performs its next
action; the environment acts at any point. -/
def System.step (S : System Op Reply σ ι ε) :
    Config Op Reply σ → Label ι ε → Option (Config Op Reply σ)
  | ⟨.done _, s⟩, .own _ => some ⟨S.body, s⟩
  | ⟨.call op next, s⟩, .own i => (S.exec op i s).map fun p ↦ ⟨next p.1, p.2⟩
  | ⟨code, s⟩, .env e => (S.env e s).map fun t ↦ ⟨code, t⟩

theorem System.step_cases {S : System Op Reply σ ι ε} {c d : Config Op Reply σ}
    {l : Label ι ε} (h : S.step c l = some d) :
    (∃ a i, c.code = .done a ∧ l = .own i ∧ d = ⟨S.body, c.state⟩) ∨
    (∃ op next i r t, c.code = .call op next ∧ l = .own i ∧
      S.exec op i c.state = some (r, t) ∧ d = ⟨next r, t⟩) ∨
    (∃ e t, l = .env e ∧ S.env e c.state = some t ∧ d = ⟨c.code, t⟩) := by
  obtain ⟨code, s⟩ := c
  cases l with
  | env e =>
      obtain ⟨t, ht, rfl⟩ : ∃ t, S.env e s = some t ∧ (⟨code, t⟩ : Config Op Reply σ) = d := by
        cases code <;> simpa [System.step] using h
      exact .inr (.inr ⟨e, t, rfl, ht, rfl⟩)
  | own i =>
      cases code with
      | done a => exact .inl ⟨a, i, rfl, rfl, by simpa [System.step] using h.symm⟩
      | call op next =>
          obtain ⟨r, t, ht, rfl⟩ : ∃ r t, S.exec op i s = some (r, t) ∧
              (⟨next r, t⟩ : Config Op Reply σ) = d := by
            simpa [System.step] using h
          exact .inr (.inl ⟨op, next, i, r, t, rfl, rfl, ht, rfl⟩)

theorem System.run_done {S : System Op Reply σ ι ε} (a : Unit) (i : ι) (s : σ)
    (ls : List (Label ι ε)) :
    Runs.run S.step ⟨.done a, s⟩ (.own i :: ls) = Runs.run S.step ⟨S.body, s⟩ ls := rfl

theorem System.run_call {S : System Op Reply σ ι ε} {op : Op} {i : ι} {s t : σ} {r : Reply op}
    (h : S.exec op i s = some (r, t)) (next : Reply op → Code Op Reply Unit)
    (ls : List (Label ι ε)) :
    Runs.run S.step ⟨.call op next, s⟩ (.own i :: ls) = Runs.run S.step ⟨next r, t⟩ ls := by
  rw [Runs.run_cons, System.step, h]
  rfl

section Alone

variable {exec : (op : Op) → ι → σ → Option (Reply op × σ)} {outcome : Op → ι}

/-- The text to its end, with no step of another thread in between. -/
def Code.eval (exec : (op : Op) → ι → σ → Option (Reply op × σ)) (outcome : Op → ι) :
    Code Op Reply α → σ → Option (α × σ)
  | .done a, s => some (a, s)
  | .call op next, s => (exec op (outcome op) s).bind fun p ↦ (next p.1).eval exec outcome p.2

@[simp] theorem Code.eval_done (a : α) (s : σ) :
    (Code.done a : Code Op Reply α).eval exec outcome s = some (a, s) := rfl

theorem Code.eval_call {op : Op} {s t : σ} {r : Reply op} (h : exec op (outcome op) s = some (r, t))
    (next : Reply op → Code Op Reply α) :
    (Code.call op next).eval exec outcome s = (next r).eval exec outcome t := by
  rw [Code.eval, h, Option.bind_some]

theorem System.run_of_eval {S : System Op Reply σ ι ε} {code : Code Op Reply Unit} {s t : σ}
    (h : code.eval S.exec outcome s = some ((), t)) :
    ∃ is : List ι, Runs.run S.step ⟨code, s⟩ (is.map .own) = some ⟨.done (), t⟩ := by
  induction code generalizing s with
  | done a =>
      obtain ⟨rfl, rfl⟩ : a = () ∧ s = t := by simpa using h
      exact ⟨[], rfl⟩
  | call op next ih =>
      obtain ⟨⟨r, u⟩, hexec, hrest⟩ := Option.bind_eq_some_iff.mp h
      obtain ⟨is, hrun⟩ := ih r hrest
      refine ⟨outcome op :: is, ?_⟩
      rw [List.map_cons, System.run_call hexec]
      exact hrun

end Alone

/-- Two threads on one state: the second runs in the environment of the first. -/
def System.beside {Op₂ : Type} {Reply₂ : Op₂ → Type} {ι₂ ε₂ : Type}
    (S : System Op Reply σ ι ε) (S₂ : System Op₂ Reply₂ σ ι₂ ε₂) :
    System Op Reply (Config Op₂ Reply₂ σ) ι (ι₂ ⊕ ε) where
  exec op i c := (S.exec op i c.state).map fun p ↦ (p.1, ⟨c.code, p.2⟩)
  env
    | .inl i, c => S₂.step c (.own i)
    | .inr e, c => (S.env e c.state).map fun t ↦ ⟨c.code, t⟩
  body := S.body

/-- An action is enabled only where the guard holds. -/
def System.guard (S : System Op Reply σ ι ε) (G : Op → σ → Prop) [∀ op s, Decidable (G op s)] :
    System Op Reply σ ι ε where
  exec op i s := if G op s then S.exec op i s else none
  env := S.env
  body := S.body

/-- What an action asks of the owned part, and the postconditions it is sure
to establish. -/
structure Rule (Op : Type) (Reply : Op → Type) (κ : Type) where
  pre : Op → κ → Prop
  post : (op : Op) → κ → (Reply op → κ → Prop) → Prop

section WeakestPrecondition

variable (R : Rule Op Reply κ)

def wp : Code Op Reply α → (α → κ → Prop) → κ → Prop
  | .done a, Q, k => Q a k
  | .call op next, Q, k => R.pre op k ∧ R.post op k fun r k ↦ wp (next r) Q k

@[simp] theorem wp_done (a : α) (Q : α → κ → Prop) (k : κ) :
    wp R (.done a : Code Op Reply α) Q k ↔ Q a k := Iff.rfl

@[simp] theorem wp_call (op : Op) (next : Reply op → Code Op Reply α) (Q : α → κ → Prop)
    (k : κ) : wp R (.call op next) Q k ↔
      R.pre op k ∧ R.post op k fun r k ↦ wp R (next r) Q k := Iff.rfl

variable {R}

theorem wp_bind {p : Code Op Reply α} {f : α → Code Op Reply β}
    {Q : β → κ → Prop} {k : κ} :
    wp R (p >>= f) Q k ↔ wp R p (fun a ↦ wp R (f a) Q) k := by
  induction p generalizing k with
  | done a => rfl
  | call op next ih => simp only [Code.call_bind, wp, ih]

end WeakestPrecondition

/-- A proof outline of the thread: the rule is sound for the owned part of the
state, and `Q` holds of it between two rounds. -/
structure Outline (S : System Op Reply σ ι ε) (own : σ → κ) (R : Rule Op Reply κ)
    (Q : κ → Prop) : Prop where
  env_own : ∀ e s t, S.env e s = some t → own t = own s
  sound : ∀ op i s r t P, R.post op (own s) P → S.exec op i s = some (r, t) → P r (own t)
  body : ∀ k, Q k → wp R S.body (fun _ ↦ Q) k

namespace Outline

variable {S : System Op Reply σ ι ε} {own : σ → κ} {R : Rule Op Reply κ} {Q : κ → Prop}

/-- What is left of the round is fit to be run from the present state. -/
def Fit (own : σ → κ) (R : Rule Op Reply κ) (Q : κ → Prop) (c : Config Op Reply σ) : Prop :=
  wp R c.code (fun _ ↦ Q) (own c.state)

theorem Fit.boundary {c : Config Op Reply σ} {a : Unit} (h : Fit own R Q c)
    (hcode : c.code = .done a) : Q (own c.state) := by
  simpa only [Fit, hcode, wp_done] using h

theorem Fit.pre {c : Config Op Reply σ} {op : Op} {next : Reply op → Code Op Reply Unit}
    (h : Fit own R Q c) (hcode : c.code = .call op next) : R.pre op (own c.state) := by
  rw [Fit, hcode] at h
  exact h.1

theorem fit_step (h : Outline S own R Q) {c d : Config Op Reply σ} {l : Label ι ε}
    (hc : Fit own R Q c) (hstep : S.step c l = some d) : Fit own R Q d := by
  rcases System.step_cases hstep with
    ⟨a, -, hcode, -, rfl⟩ | ⟨op, next, i, r, t, hcode, -, ht, rfl⟩ | ⟨e, t, -, ht, rfl⟩
  · exact h.body _ (hc.boundary hcode)
  · rw [Fit, hcode] at hc
    exact h.sound op i _ r t _ hc.2 ht
  · simpa only [Fit, h.env_own e _ t ht] using hc

/-- A side condition on the actions performed and on the environment steps, as
a condition on the steps of a run. -/
def Allowed (own : Op → σ → Prop) (env : ε → σ → Prop) : Config Op Reply σ → Label ι ε → Prop
  | ⟨.call op _, s⟩, .own _ => own op s
  | ⟨.done _, _⟩, .own _ => True
  | ⟨_, s⟩, .env e => env e s

instance {own : Op → σ → Prop} {env : ε → σ → Prop} [∀ op s, Decidable (own op s)]
    [∀ e s, Decidable (env e s)] (c : Config Op Reply σ) (l : Label ι ε) :
    Decidable (Allowed own env c l) :=
  match c, l with
  | ⟨.call op _, s⟩, .own _ => inferInstanceAs (Decidable (own op s))
  | ⟨.done _, _⟩, .own _ => inferInstanceAs (Decidable True)
  | ⟨.call _ _, s⟩, .env e => inferInstanceAs (Decidable (env e s))
  | ⟨.done _, s⟩, .env e => inferInstanceAs (Decidable (env e s))

/-- The same for a side condition that also reads the outcome of an action. -/
def Permitted (own : Op → ι → σ → Prop) (env : ε → σ → Prop) :
    Config Op Reply σ → Label ι ε → Prop
  | ⟨.call op _, s⟩, .own i => own op i s
  | ⟨.done _, _⟩, .own _ => True
  | ⟨_, s⟩, .env e => env e s

instance {own : Op → ι → σ → Prop} {env : ε → σ → Prop} [∀ op i s, Decidable (own op i s)]
    [∀ e s, Decidable (env e s)] (c : Config Op Reply σ) (l : Label ι ε) :
    Decidable (Permitted own env c l) :=
  match c, l with
  | ⟨.call op _, s⟩, .own i => inferInstanceAs (Decidable (own op i s))
  | ⟨.done _, _⟩, .own _ => inferInstanceAs (Decidable True)
  | ⟨.call _ _, s⟩, .env e => inferInstanceAs (Decidable (env e s))
  | ⟨.done _, s⟩, .env e => inferInstanceAs (Decidable (env e s))

theorem permitted_const (own : Op → σ → Prop) (env : ε → σ → Prop) :
    (Permitted (fun op _ ↦ own op) env : Config Op Reply σ → Label ι ε → Prop) =
      Allowed own env := by
  funext ⟨code, s⟩ l
  cases code <;> cases l <;> rfl

section Guard

variable {G : Op → σ → Prop} [∀ op s, Decidable (G op s)]

theorem step_guard {c : Config Op Reply σ} {l : Label ι ε}
    (h : Allowed G (fun (_ : ε) _ ↦ True) c l) : (S.guard G).step c l = S.step c l := by
  obtain ⟨code, s⟩ := c
  cases l with
  | env e => cases code <;> rfl
  | own i =>
      cases code with
      | done a => rfl
      | call op next =>
          have hG : G op s := h
          simp only [System.step, System.guard, if_pos hG]

theorem run_guard {c : Config Op Reply σ} {ls : List (Label ι ε)}
    (h : Runs.Always S.step (Allowed G fun _ _ ↦ True) c ls) :
    Runs.run (S.guard G).step c ls = Runs.run S.step c ls := by
  induction ls generalizing c with
  | nil => rfl
  | cons l ls ih =>
      rw [Runs.run_cons, Runs.run_cons, step_guard h.1]
      cases hstep : S.step c l with
      | none => rfl
      | some d => exact ih (h.2 d hstep)

/-- An outline of the guarded system, for the runs whose actions meet the
guard. -/
theorem fit_of_guarded_run (h : Outline (S.guard G) own R Q) {c d : Config Op Reply σ}
    {ls : List (Label ι ε)} (hok : Runs.Always S.step (Allowed G fun _ _ ↦ True) c ls)
    (hfit : Fit own R Q c) (hrun : Runs.run S.step c ls = some d) : Fit own R Q d :=
  Runs.run_invariant (fun _ _ _ hc hstep ↦ h.fit_step hc hstep) hfit
    ((run_guard hok).trans hrun)

end Guard

section Rules

variable {I P : σ → Prop} {G : Op → σ → Prop} {E : ε → σ → Prop}

/-- State invariants over runs with any interleaving, for runs whose steps
meet a side condition. -/
theorem run_invariant_of_allowed (h : Outline S own R Q)
    (hown : ∀ op i s r t, G op s → R.pre op (own s) → I s →
      S.exec op i s = some (r, t) → I t)
    (henv : ∀ e s t, E e s → I s → S.env e s = some t → I t)
    {c d : Config Op Reply σ} {ls : List (Label ι ε)}
    (hok : Runs.Always S.step (Allowed G E) c ls)
    (hfit : Fit own R Q c) (hI : I c.state) (hrun : Runs.run S.step c ls = some d) :
    Fit own R Q d ∧ I d.state := by
  refine Runs.run_invariant_of_always (P := fun c ↦ Fit own R Q c ∧ I c.state)
    ?_ hok ⟨hfit, hI⟩ hrun
  rintro ⟨code, s⟩ l d hallowed ⟨hc, hs⟩ hstep
  refine ⟨h.fit_step hc hstep, ?_⟩
  rcases System.step_cases hstep with
    ⟨a, -, -, -, rfl⟩ | ⟨op, next, i, r, t, rfl, rfl, ht, rfl⟩ | ⟨e, t, rfl, ht, rfl⟩
  · exact hs
  · exact hown op i s r t hallowed (hc.pre rfl) hs ht
  · refine henv e s t ?_ hs ht
    cases code <;> exact hallowed

/-- State invariants over runs with any interleaving: every action keeps `I`
under its precondition, and every environment step keeps it. -/
theorem run_invariant (h : Outline S own R Q)
    (hown : ∀ op i s r t, R.pre op (own s) → I s → S.exec op i s = some (r, t) → I t)
    (henv : ∀ e s t, I s → S.env e s = some t → I t)
    {c d : Config Op Reply σ} {ls : List (Label ι ε)}
    (hfit : Fit own R Q c) (hI : I c.state) (hrun : Runs.run S.step c ls = some d) :
    Fit own R Q d ∧ I d.state := by
  refine Runs.run_invariant (P := fun c ↦ Fit own R Q c ∧ I c.state) ?_ ⟨hfit, hI⟩ hrun
  rintro ⟨code, s⟩ l d ⟨hc, hs⟩ hstep
  refine ⟨h.fit_step hc hstep, ?_⟩
  rcases System.step_cases hstep with
    ⟨a, -, -, -, rfl⟩ | ⟨op, next, i, r, t, rfl, -, ht, rfl⟩ | ⟨e, t, -, ht, rfl⟩
  · exact hs
  · exact hown op i s r t (hc.pre rfl) hs ht
  · exact henv e s t hs ht

/-- A property that each step keeps exactly when it meets the side condition
holds at the end of a run exactly when it held at the start and every step met
the condition. -/
theorem run_iff_permitted {G : Op → ι → σ → Prop} (h : Outline S own R Q)
    (hown : ∀ op i s r t, R.pre op (own s) → I s → S.exec op i s = some (r, t) →
      I t ∧ (P t ↔ P s ∧ G op i s))
    (henv : ∀ e s t, I s → S.env e s = some t → I t ∧ (P t ↔ P s ∧ E e s))
    {c d : Config Op Reply σ} {ls : List (Label ι ε)}
    (hfit : Fit own R Q c) (hI : I c.state) (hrun : Runs.run S.step c ls = some d) :
    P d.state ↔ P c.state ∧ Runs.Always S.step (Permitted G E) c ls := by
  refine Runs.run_iff_always (I := fun c ↦ Fit own R Q c ∧ I c.state)
    (P := fun c ↦ P c.state) ?_ ⟨hfit, hI⟩ hrun
  rintro ⟨code, s⟩ l d ⟨hc, hs⟩ hstep
  have hfit' := h.fit_step hc hstep
  rcases System.step_cases hstep with
    ⟨a, i, rfl, rfl, rfl⟩ | ⟨op, next, i, r, t, rfl, rfl, ht, rfl⟩ | ⟨e, t, rfl, ht, rfl⟩
  · exact ⟨⟨hfit', hs⟩, by simp [Permitted]⟩
  · obtain ⟨hI', hiff⟩ := hown op i s r t (hc.pre rfl) hs ht
    exact ⟨⟨hfit', hI'⟩, hiff⟩
  · obtain ⟨hI', hiff⟩ := henv e s t hs ht
    refine ⟨⟨hfit', hI'⟩, ?_⟩
    cases code <;> exact hiff

theorem run_iff_always (h : Outline S own R Q)
    (hown : ∀ op i s r t, R.pre op (own s) → I s → S.exec op i s = some (r, t) →
      I t ∧ (P t ↔ P s ∧ G op s))
    (henv : ∀ e s t, I s → S.env e s = some t → I t ∧ (P t ↔ P s ∧ E e s))
    {c d : Config Op Reply σ} {ls : List (Label ι ε)}
    (hfit : Fit own R Q c) (hI : I c.state) (hrun : Runs.run S.step c ls = some d) :
    P d.state ↔ P c.state ∧ Runs.Always S.step (Allowed G E) c ls := by
  rw [← permitted_const]
  exact h.run_iff_permitted hown henv hfit hI hrun

end Rules

section Beside

variable {Op₂ : Type} {Reply₂ : Op₂ → Type} {ι₂ ε₂ κ₂ : Type}
  {S₂ : System Op₂ Reply₂ σ ι₂ ε₂} {own₂ : σ → κ₂} {R₂ : Rule Op₂ Reply₂ κ₂} {Q₂ : κ₂ → Prop}

/-- The outline of a thread stands beside another thread that leaves its part
of the state alone. -/
theorem beside (h : Outline S own R Q)
    (hown : ∀ op i s r t, S₂.exec op i s = some (r, t) → own t = own s) :
    Outline (S.beside S₂) (fun c ↦ own c.state) R Q where
  env_own e c d hstep := by
    cases e with
    | inl i =>
        rcases System.step_cases hstep with
          ⟨a, -, -, -, rfl⟩ | ⟨op, next, j, r, t, -, -, ht, rfl⟩ | ⟨e, t, hl, -, -⟩
        · rfl
        · exact hown op j _ r t ht
        · cases hl
    | inr e =>
        obtain ⟨t, ht, rfl⟩ := Option.map_eq_some_iff.mp hstep
        exact h.env_own e _ t ht
  sound op i c r d P hpost hexec := by
    obtain ⟨⟨r', t⟩, ht, heq⟩ := Option.map_eq_some_iff.mp hexec
    obtain ⟨rfl, rfl⟩ := Prod.mk.inj heq
    exact h.sound op i _ r' t P hpost ht
  body := h.body

/-- A side condition on the actions of the second thread and on the steps of
the environment of both. -/
def AllowedBeside (own : Op₂ → ι₂ → σ → Prop) (env : ε → σ → Prop) :
    ι₂ ⊕ ε → Config Op₂ Reply₂ σ → Prop
  | .inl i, ⟨.call op _, s⟩ => own op i s
  | .inl _, ⟨.done _, _⟩ => True
  | .inr e, c => env e c.state

instance {own : Op₂ → ι₂ → σ → Prop} {env : ε → σ → Prop} [∀ op i s, Decidable (own op i s)]
    [∀ e s, Decidable (env e s)] (l : ι₂ ⊕ ε) (c : Config Op₂ Reply₂ σ) :
    Decidable (AllowedBeside own env l c) :=
  match l, c with
  | .inl i, ⟨.call op _, s⟩ => inferInstanceAs (Decidable (own op i s))
  | .inl _, ⟨.done _, _⟩ => inferInstanceAs (Decidable True)
  | .inr e, c => inferInstanceAs (Decidable (env e c.state))

/-- State invariants over runs of two threads with any interleaving, for runs
whose steps meet a side condition: each action keeps the invariant under its
precondition, and neither thread writes the part of the other. -/
theorem beside_run_invariant {I : σ → Prop} {G : Op → σ → Prop} {G₂ : Op₂ → ι₂ → σ → Prop}
    {E : ε → σ → Prop} (h : Outline S own R Q) (h₂ : Outline S₂ own₂ R₂ Q₂)
    (hown : ∀ op i s r t, S₂.exec op i s = some (r, t) → own t = own s)
    (hown₂ : ∀ op i s r t, S.exec op i s = some (r, t) → own₂ t = own₂ s)
    (henv₂ : ∀ e s t, S.env e s = some t → own₂ t = own₂ s)
    (hfirst : ∀ op i s r t, G op s → R.pre op (own s) → I s →
      S.exec op i s = some (r, t) → I t)
    (hsecond : ∀ op i s r t, G₂ op i s → R₂.pre op (own₂ s) → I s →
      S₂.exec op i s = some (r, t) → I t)
    (henv : ∀ e s t, E e s → I s → S.env e s = some t → I t)
    {c d : Config Op Reply (Config Op₂ Reply₂ σ)} {ls : List (Label ι (ι₂ ⊕ ε))}
    (hok : Runs.Always (S.beside S₂).step
      (Allowed (fun op c ↦ G op c.state) (AllowedBeside G₂ E)) c ls)
    (hfit : Fit (fun c ↦ own c.state) R Q c) (hfit₂ : Fit own₂ R₂ Q₂ c.state)
    (hI : I c.state.state) (hrun : Runs.run (S.beside S₂).step c ls = some d) :
    I d.state.state := by
  refine ((h.beside hown).run_invariant_of_allowed
    (I := fun c ↦ Fit own₂ R₂ Q₂ c ∧ I c.state) ?_ ?_ hok hfit ⟨hfit₂, hI⟩ hrun).2.2
  · rintro op i ⟨code, s⟩ r d hG hpre ⟨hc, hs⟩ hexec
    obtain ⟨⟨r', t⟩, ht, heq⟩ := Option.map_eq_some_iff.mp hexec
    obtain ⟨rfl, rfl⟩ := Prod.mk.inj heq
    refine ⟨?_, hfirst op i s r' t hG hpre hs ht⟩
    simpa only [Fit, hown₂ op i s r' t ht] using hc
  · rintro (i | e) ⟨code, s⟩ d hok ⟨hc, hs⟩ hstep
    · refine ⟨h₂.fit_step hc hstep, ?_⟩
      rcases System.step_cases hstep with
        ⟨a, -, -, -, rfl⟩ | ⟨op, next, j, r, t, rfl, hl, ht, rfl⟩ | ⟨e, t, hl, -, -⟩
      · exact hs
      · cases hl
        exact hsecond op i s r t hok (hc.pre rfl) hs ht
      · cases hl
    · obtain ⟨t, ht, rfl⟩ := Option.map_eq_some_iff.mp hstep
      refine ⟨?_, henv e s t hok hs ht⟩
      simpa only [Fit, henv₂ e s t ht] using hc

end Beside

end Outline

end Threads
