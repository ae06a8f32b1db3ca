import Mathlib.Data.Nat.Basic
import Mathlib.Tactic.Common

/-!
# A lock that locks again by itself

While open it counts the rounds, and the first round that finds the count at
`limit` locks it and clears the count.  An order obeyed later in the round
opens or locks it and leaves the count alone.
-/

@[ext] structure TimedLock where
  isOpen : Bool
  count : ℕ
deriving DecidableEq

namespace TimedLock

inductive Order
  | lock
  | unlock
deriving DecidableEq

variable {limit : ℕ} {orders : ℕ → Option Order} {l : TimedLock} {t u : ℕ}

/-- The next round locks it. -/
def Expired (limit : ℕ) (l : TimedLock) : Prop :=
  l.isOpen = true ∧ limit ≤ l.count

def tick (limit : ℕ) (l : TimedLock) : TimedLock :=
  if l.isOpen then
    if limit ≤ l.count then ⟨false, 0⟩ else ⟨true, l.count + 1⟩
  else l

def obey : Option Order → TimedLock → TimedLock
  | none, l => l
  | some .lock, l => { l with isOpen := false }
  | some .unlock, l => { l with isOpen := true }

/-- The lock before round `t`, when `orders` are given from round 0 on. -/
def after (limit : ℕ) (orders : ℕ → Option Order) : ℕ → TimedLock
  | 0 => ⟨false, 0⟩
  | t + 1 => obey (orders t) ((after limit orders t).tick limit)

@[simp] theorem after_zero : after limit orders 0 = ⟨false, 0⟩ := rfl

@[simp] theorem after_succ :
    after limit orders (t + 1) = obey (orders t) ((after limit orders t).tick limit) := rfl

@[simp] theorem count_obey (o : Option Order) : (obey o l).count = l.count := by
  rcases o with _ | _ | _ <;> rfl

theorem isOpen_obey {o : Option Order} :
    (obey o l).isOpen = true ↔ o = some .unlock ∨ l.isOpen = true ∧ o ≠ some .lock := by
  rcases o with _ | _ | _ <;> simp [obey]

theorem isOpen_tick : (l.tick limit).isOpen = true ↔ l.isOpen = true ∧ l.count < limit := by
  unfold tick
  split_ifs with hopen hlimit <;> simp_all

theorem tick_of_isOpen (hopen : l.isOpen = true) (hlt : l.count < limit) :
    l.tick limit = ⟨true, l.count + 1⟩ := by
  rw [tick, if_pos hopen, if_neg hlt.not_ge]

theorem count_tick_le (h : l.count ≤ limit) : (l.tick limit).count ≤ limit := by
  unfold tick
  split_ifs with hopen hlimit
  · exact Nat.zero_le limit
  · exact Nat.lt_of_not_le hlimit
  · exact h

theorem count_after_le (t : ℕ) : (after limit orders t).count ≤ limit := by
  induction t with
  | zero => exact Nat.zero_le limit
  | succ t ih =>
      rw [after_succ, count_obey]
      exact count_tick_le ih

/-- Round `u` opened it, and nothing has locked it since, up to the tick of
round `t`. -/
structure OpenSince (limit : ℕ) (orders : ℕ → Option Order) (u t : ℕ) : Prop where
  unlocked : orders u = some .unlock
  not_locked : ∀ v, u < v → v < t → orders v ≠ some .lock
  not_expired : ∀ v, u < v → v ≤ t → ¬(after limit orders v).Expired limit

/-- The last order that opened an open lock is no older than the count. -/
theorem exists_unlocked (h : (after limit orders t).isOpen = true) :
    ∃ u < t, t ≤ u + 1 + (after limit orders t).count ∧ orders u = some .unlock ∧
      ∀ v, u < v → v < t →
        orders v ≠ some .lock ∧ ¬(after limit orders v).Expired limit := by
  induction t with
  | zero => simp at h
  | succ t ih =>
      rw [after_succ, isOpen_obey] at h
      rcases h with hunlock | ⟨htick, hlock⟩
      · refine ⟨t, Nat.lt_succ_self t, by omega, hunlock, ?_⟩
        intro v huv hvt
        omega
      · obtain ⟨hopen, hlt⟩ := isOpen_tick.mp htick
        obtain ⟨u, hu, hage, hunlock, hsince⟩ := ih hopen
        refine ⟨u, by omega, ?_, hunlock, ?_⟩
        · rw [after_succ, count_obey, tick_of_isOpen hopen hlt]
          change t + 1 ≤ u + 1 + ((after limit orders t).count + 1)
          omega
        · intro v huv hvt
          rcases Nat.lt_succ_iff_lt_or_eq.mp hvt with hv | rfl
          · exact hsince v huv hv
          · exact ⟨hlock, fun hexp ↦ absurd hexp.2 (by omega)⟩

theorem exists_openSince (h : ((after limit orders t).tick limit).isOpen = true) :
    ∃ u < t, t - u ≤ limit ∧ OpenSince limit orders u t := by
  obtain ⟨hopen, hlt⟩ := isOpen_tick.mp h
  obtain ⟨u, hu, hage, hunlock, hsince⟩ := exists_unlocked hopen
  refine ⟨u, hu, by omega, hunlock, fun v huv hvt ↦ (hsince v huv hvt).1, ?_⟩
  intro v huv hvt
  rcases Nat.lt_or_eq_of_le hvt with hv | rfl
  · exact (hsince v huv hv).2
  · exact fun hexp ↦ absurd hexp.2 (by omega)

/-- Round `u` opens it for `limit` rounds, but for an order to lock it. -/
def StaysOpen (limit : ℕ) (orders : ℕ → Option Order) (u : ℕ) : Prop :=
  ∀ t, u < t → t ≤ u + limit → (∀ v, u < v → v < t → orders v ≠ some .lock) →
    ((after limit orders t).tick limit).isOpen = true

/-- An open lock that is not locked counts each round up to `limit`. -/
theorem after_add_of_not_locked {k : ℕ} (hopen : (after limit orders t).isOpen = true)
    (hk : (after limit orders t).count + k ≤ limit)
    (hlock : ∀ v, t ≤ v → v < t + k → orders v ≠ some .lock) :
    after limit orders (t + k) = ⟨true, (after limit orders t).count + k⟩ := by
  induction k with
  | zero => exact TimedLock.ext hopen rfl
  | succ k ih =>
      have hprev := ih (by omega) fun v htv hvk ↦ hlock v htv (by omega)
      have htick : (after limit orders (t + k)).tick limit =
          ⟨true, (after limit orders t).count + (k + 1)⟩ := by
        rw [hprev, tick_of_isOpen rfl (by simpa using by omega)]
        rfl
      rw [← Nat.add_assoc, after_succ, htick]
      ext
      · exact isOpen_obey.mpr (.inr ⟨rfl, hlock _ (by omega) (by omega)⟩)
      · exact count_obey _

/-- What is left of the window is `limit` less what the lock had counted. -/
theorem staysOpen_iff (hunlock : orders u = some .unlock) :
    StaysOpen limit orders u ↔
      ((after limit orders u).tick limit).count = 0 ∨
        ∃ v, u < v ∧ v + ((after limit orders u).tick limit).count ≤ u + limit ∧
          orders v = some .lock := by
  have hcount : (after limit orders (u + 1)).count = ((after limit orders u).tick limit).count := by
    rw [after_succ, count_obey]
  have hopen : (after limit orders (u + 1)).isOpen = true := by
    rw [after_succ, isOpen_obey]
    exact .inl hunlock
  have hle := @count_after_le limit orders (u + 1)
  rw [← hcount]
  generalize hc : (after limit orders (u + 1)).count = c at hle
  have hafter : ∀ k, c + k ≤ limit → (∀ v, u < v → v < u + 1 + k → orders v ≠ some .lock) →
      after limit orders (u + 1 + k) = ⟨true, c + k⟩ := fun k hk hlock ↦
    hc ▸ after_add_of_not_locked hopen (hc ▸ hk) hlock
  constructor
  · intro hstays
    by_contra! hshort
    obtain ⟨hpos, hlock⟩ := hshort
    -- the count reaches the limit while the window should last
    have hexp := hafter (limit - c) (by omega) fun v huv hv ↦ hlock v huv (by omega)
    have htick := hstays (u + 1 + (limit - c)) (by omega) (by omega) fun v huv hv ↦
      hlock v huv (by omega)
    rw [hexp, isOpen_tick] at htick
    have := htick.2
    simp only at this
    omega
  · rintro hlong t hut htl hlock
    obtain ⟨k, rfl⟩ : ∃ k, t = u + 1 + k := ⟨t - (u + 1), by omega⟩
    have hk : c + k < limit := by
      rcases hlong with rfl | ⟨v, huv, hv, hvlock⟩
      · omega
      · by_contra hge
        exact hlock v huv (by omega) hvlock
    rw [hafter k (Nat.le_of_lt hk) hlock, isOpen_tick]
    exact ⟨rfl, hk⟩

end TimedLock
