import PcsSim.Lib.CString

/-!
# Calls that C leaves undefined

A computation in `Except Fault` stops at the first call whose behaviour is
undefined: a NULL pointer read, a NULL text passed on, an array overrun.
-/

inductive Fault
  | nullPointer
  | nullString
  | overrun

theorem Except.bind_eq_ok_iff {ε α β : Type} {x : Except ε α} {f : α → Except ε β} {b : β} :
    x >>= f = .ok b ↔ ∃ a, x = .ok a ∧ f a = .ok b := by
  cases x with
  | error e => simp [bind, Except.bind]
  | ok a => simp [bind, Except.bind]

theorem Except.foldlM_cons_eq_ok_iff {ε α β : Type} {f : β → α → Except ε β} {x : α}
    {xs : List α} {b c : β} :
    (x :: xs).foldlM f b = .ok c ↔ ∃ a, f b x = .ok a ∧ xs.foldlM f a = .ok c := by
  rw [List.foldlM_cons]
  exact Except.bind_eq_ok_iff

/-- A property that each element keeps. -/
theorem Except.foldlM_invariant {ε α β : Type} {f : β → α → Except ε β} {P : β → Prop}
    {xs : List α} (hstep : ∀ x ∈ xs, ∀ b c, P b → f b x = .ok c → P c) {b c : β} (hb : P b)
    (h : xs.foldlM f b = .ok c) : P c := by
  induction xs generalizing b with
  | nil => exact Except.ok.inj h ▸ hb
  | cons x xs ih =>
      obtain ⟨a, hx, hxs⟩ := Except.foldlM_cons_eq_ok_iff.mp h
      apply ih (fun y hy ↦ hstep y (List.mem_cons_of_mem x hy)) _ hxs
      exact hstep x List.mem_cons_self b a hb hx

@[simp] theorem Except.ok_bind_eq {ε α β : Type} (a : α) (f : α → Except ε β) :
    Except.ok a >>= f = f a := rfl

@[simp] theorem Except.error_bind_eq {ε α β : Type} (e : ε) (f : α → Except ε β) :
    Except.error e >>= f = .error e := rfl

@[simp] theorem Except.toOption_eq_some_iff {ε α : Type} {x : Except ε α} {a : α} :
    x.toOption = some a ↔ x = .ok a := by
  cases x with
  | error e => simp [Except.toOption]
  | ok b => simp [Except.toOption]

theorem Except.exists_of_isOk {ε α : Type} {x : Except ε α} (h : x.isOk = true) :
    ∃ a, x = .ok a := by
  cases x with
  | error e => cases h
  | ok a => exact ⟨a, rfl⟩

section Calls

variable {α : Type}

/-- `p->` -/
def deref : Option α → Except Fault α
  | some x => .ok x
  | none => .error .nullPointer

/-- `strcmp(s, t) == 0` -/
def strcmpZero (s : Option Bytes) (t : Bytes) : Except Fault Bool :=
  match s with
  | some s => .ok (s = t)
  | none => .error .nullString

/-- `%s`, where `nullText` is what the library prints for NULL, if it prints
anything. -/
def formatString (nullText : Option Bytes) : Option Bytes → Except Fault Bytes
  | some s => .ok s
  | none =>
    match nullText with
    | some s => .ok s
    | none => .error .nullString

/-- A log line with the given `%s` arguments. -/
def logDbg (nullText : Option Bytes) : List (Option Bytes) → Except Fault Unit
  | [] => .ok ()
  | s :: l => do
    let _ ← formatString nullText s
    logDbg nullText l

def sscanf : Option Bytes → Except Fault Unit
  | some _ => .ok ()
  | none => .error .nullString

/-- The text must fit the array with its NUL. -/
def sprintf (size : ℕ) (text : Bytes) : Except Fault Bytes :=
  if text.length < size then .ok text else .error .overrun

def snprintf (size : ℕ) (text : Bytes) : Bytes := text.take (size - 1)

@[simp] theorem deref_eq_ok {p : Option α} {x : α} : deref p = .ok x ↔ p = some x := by
  cases p with
  | none => simp [deref]
  | some y => simp [deref]

@[simp] theorem strcmpZero_some (s t : Bytes) :
    strcmpZero (some s) t = .ok (decide (s = t)) := rfl

@[simp] theorem strcmpZero_none (t : Bytes) : strcmpZero none t = .error .nullString := rfl

theorem strcmpZero_eq_ok {s : Option Bytes} {t : Bytes} {b : Bool} :
    strcmpZero s t = .ok b ↔ ∃ text, s = some text ∧ b = decide (text = t) := by
  cases s with
  | none => simp
  | some text => simp [eq_comm]

@[simp] theorem formatString_some (nullText : Option Bytes) (s : Bytes) :
    formatString nullText (some s) = .ok s := rfl

@[simp] theorem formatString_none : formatString none none = .error .nullString := rfl

@[simp] theorem logDbg_strict {l : List (Option Bytes)} :
    logDbg none l = .ok () ↔ ∀ s ∈ l, s.isSome := by
  induction l with
  | nil => simp [logDbg]
  | cons s l ih =>
      cases s with
      | none => simp [logDbg]
      | some s => simp [logDbg, ih]

@[simp] theorem sscanf_some (s : Bytes) : sscanf (some s) = .ok () := rfl

@[simp] theorem sprintf_eq_ok {size : ℕ} {text result : Bytes} :
    sprintf size text = .ok result ↔ text.length < size ∧ result = text := by
  unfold sprintf
  split_ifs with h
  · simp [h, eq_comm]
  · simp [h]

end Calls
