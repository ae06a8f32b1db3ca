import Mathlib.Data.List.Nodup
import PcsSim.Lib.DropOldest

/-!
# Items between a bounded queue and a store

Items enter a bounded queue that drops its oldest item when it is full.  A
consumer delivers the oldest item and then removes the oldest.  A mover saves
the oldest item to a store and then removes the oldest, and later restores the
first stored item to the queue and then forgets the first stored one.

Each of these takes two actions, and others may act between them.  `Inv` is
kept by every action that finds in place what its party has last seen there,
and it accounts for every item that has entered.
-/

structure Stock (α : Type*) where
  entered : List α
  queue : List α
  store : List α
  delivered : List α
  dropped : List α
  /-- delivered, and to be removed from the queue -/
  delivering : Option α
  /-- saved, and to be removed from the queue -/
  storing : Option α
  /-- restored, and to be removed from the store -/
  restoring : Option α

namespace Stock

variable {α : Type*} {s : Stock α} {x y : α}

def Kept (s : Stock α) (x : α) : Prop := x ∈ s.queue ∨ x ∈ s.delivered ∨ x ∈ s.dropped

/-- No item is lost, and none is both delivered and stored. -/
structure Conserved (s : Stock α) : Prop where
  accounted : ∀ x ∈ s.entered, s.Kept x ∨ x ∈ s.store
  apart : ∀ x ∈ s.delivered, x ∉ s.store

structure Inv (s : Stock α) : Prop extends Conserved s where
  queue : ∀ x ∈ s.queue, x ∈ s.entered
  store : ∀ x ∈ s.store, x ∈ s.entered
  delivered : ∀ x ∈ s.delivered, x ∈ s.entered
  queueNodup : s.queue.Nodup
  storeNodup : s.store.Nodup
  /-- An item is in the queue and in the store only on its way. -/
  overlap : ∀ x ∈ s.queue, x ∈ s.store → s.storing = some x ∨ s.restoring = some x
  undelivered : ∀ x ∈ s.queue, x ∈ s.delivered → s.delivering = some x
  delivering : ∀ x, s.delivering = some x → x ∈ s.delivered
  storing : ∀ x, s.storing = some x → x ∈ s.store
  restoring : ∀ x, s.restoring = some x → s.store.head? = some x ∧ s.Kept x

/-! ## The actions -/

def enter (s : Stock α) (cap : ℕ) (x : α) : Stock α :=
  { s with
    entered := s.entered ++ [x]
    queue := DropOldest.push cap s.queue x
    dropped := if s.queue.length = cap then s.dropped ++ s.queue.head?.toList else s.dropped }

def deliver (s : Stock α) (x : α) : Stock α :=
  { s with delivered := s.delivered ++ [x], delivering := some x }

def removeDelivered (s : Stock α) : Stock α :=
  { s with queue := s.queue.tail, delivering := none }

def save (s : Stock α) (x : α) : Stock α :=
  { s with store := s.store ++ [x], storing := some x }

def removeStored (s : Stock α) : Stock α :=
  { s with queue := s.queue.tail, storing := none }

def restore (s : Stock α) (x : α) : Stock α :=
  { s with queue := s.queue ++ [x], restoring := some x }

def forget (s : Stock α) : Stock α :=
  { s with store := s.store.tail, restoring := none }

theorem mem_queue_enter {cap : ℕ} (h : y ∈ (s.enter cap x).queue) : y ∈ s.queue ∨ y = x := by
  have hmem := (DropOldest.push_suffix cap s.queue x).subset h
  simpa using hmem

theorem Kept.enter (h : s.Kept y) (cap : ℕ) (x : α) : (s.enter cap x).Kept y := by
  rcases h with hqueue | hdelivered | hdropped
  · by_cases hfull : s.queue.length = cap
    · obtain ⟨oldest, rest, hcons⟩ := List.exists_cons_of_ne_nil (List.ne_nil_of_mem hqueue)
      rw [hcons] at hqueue hfull
      rcases List.mem_cons.mp hqueue with rfl | hrest
      · refine .inr (.inr ?_)
        simp only [Stock.enter, hcons, if_pos hfull]
        exact List.mem_append_right _ (List.mem_singleton_self y)
      · refine .inl ?_
        simp only [Stock.enter, hcons, DropOldest.push_of_length_eq x hfull]
        exact List.mem_append_left _ hrest
    · refine .inl ?_
      simp only [Stock.enter, DropOldest.push, if_neg hfull]
      exact List.mem_append_left _ hqueue
  · exact .inr (.inl hdelivered)
  · refine .inr (.inr ?_)
    simp only [Stock.enter]
    split
    · exact List.mem_append_left _ hdropped
    · exact hdropped

theorem Kept.deliver (h : s.Kept y) (x : α) : (s.deliver x).Kept y :=
  h.imp_right (.imp_left (List.mem_append_left _))

theorem Kept.restore (h : s.Kept y) (x : α) : (s.restore x).Kept y :=
  h.imp_left (List.mem_append_left _)

theorem Kept.of_queue_cons {rest : List α} (h : s.Kept y) (hcons : s.queue = x :: rest) :
    y = x ∨ y ∈ s.queue.tail ∨ y ∈ s.delivered ∨ y ∈ s.dropped := by
  rcases h with hqueue | hgone
  · rw [hcons] at hqueue ⊢
    exact (List.mem_cons.mp hqueue).imp_right .inl
  · exact .inr (.inr hgone)

theorem Kept.removeDelivered {rest : List α} (h : s.Kept y) (hcons : s.queue = x :: rest)
    (hx : x ∈ s.delivered) : s.removeDelivered.Kept y := by
  rcases h.of_queue_cons hcons with rfl | hkept
  · exact .inr (.inl hx)
  · exact hkept

theorem notMem_tail {l rest : List α} (hnodup : l.Nodup) (hcons : l = x :: rest) : x ∉ l.tail := by
  rw [hcons] at hnodup ⊢
  exact (List.nodup_cons.mp hnodup).1

theorem nodup_append_singleton {l : List α} (hnodup : l.Nodup) (hnew : x ∉ l) :
    (l ++ [x]).Nodup := by
  rw [← List.concat_eq_append]
  exact hnodup.concat hnew

theorem forall_mem_append_singleton {l : List α} {P : α → Prop} (hl : ∀ y ∈ l, P y) (hx : P x) :
    ∀ y ∈ l ++ [x], P y := by
  intro y hy
  rcases List.mem_append.mp hy with hold | hself
  · exact hl y hold
  · exact List.mem_singleton.mp hself ▸ hx

namespace Inv

theorem stored {l : List α} (hnodup : l.Nodup) :
    Inv ⟨l, [], l, [], [], none, none, none⟩ where
  accounted _ hx := .inr hx
  apart _ hx := absurd hx List.not_mem_nil
  queue _ hx := absurd hx List.not_mem_nil
  store _ hx := hx
  delivered _ hx := absurd hx List.not_mem_nil
  queueNodup := .nil
  storeNodup := hnodup
  overlap _ hx := absurd hx List.not_mem_nil
  undelivered _ hx := absurd hx List.not_mem_nil
  delivering _ hx := nomatch hx
  storing _ hx := nomatch hx
  restoring _ hx := nomatch hx

theorem enter (h : s.Inv) (hnew : x ∉ s.entered) (cap : ℕ) : (s.enter cap x).Inv where
  accounted := by
    refine forall_mem_append_singleton (fun y hy ↦ ?_) ?_
    · exact (h.accounted y hy).imp_left fun hkept ↦ hkept.enter cap x
    · exact .inl (.inl (List.mem_append_right _ (List.mem_singleton_self x)))
  apart := h.apart
  queue y hy := by
    rcases mem_queue_enter hy with hold | rfl
    · exact List.mem_append_left _ (h.queue y hold)
    · exact List.mem_append_right _ (List.mem_singleton_self y)
  store y hy := List.mem_append_left _ (h.store y hy)
  delivered y hy := List.mem_append_left _ (h.delivered y hy)
  queueNodup := by
    apply (DropOldest.push_suffix cap s.queue x).sublist.nodup
    exact nodup_append_singleton h.queueNodup fun hx ↦ hnew (h.queue x hx)
  storeNodup := h.storeNodup
  overlap y hy hstored := by
    rcases mem_queue_enter hy with hold | rfl
    · exact h.overlap y hold hstored
    · exact absurd (h.store y hstored) hnew
  undelivered y hy hdelivered := by
    rcases mem_queue_enter hy with hold | rfl
    · exact h.undelivered y hold hdelivered
    · exact absurd (h.delivered y hdelivered) hnew
  delivering := h.delivering
  storing := h.storing
  restoring y hy := ⟨(h.restoring y hy).1, (h.restoring y hy).2.enter cap x⟩

/-- The oldest item, unless it is on its way, is not in the store. -/
theorem notMem_store (h : s.Inv) (hhead : s.queue.head? = some x)
    (hstoring : s.storing ≠ some x) (hrestoring : s.restoring ≠ some x) : x ∉ s.store := by
  intro hstored
  rcases h.overlap x (List.mem_of_head? hhead) hstored with heq | heq
  · exact hstoring heq
  · exact hrestoring heq

theorem deliver (h : s.Inv) (hidle : s.delivering = none) (hhead : s.queue.head? = some x)
    (hstoring : s.storing ≠ some x) (hrestoring : s.restoring ≠ some x) : (s.deliver x).Inv where
  accounted y hy := (h.accounted y hy).imp_left fun hkept ↦ hkept.deliver x
  apart := forall_mem_append_singleton h.apart (h.notMem_store hhead hstoring hrestoring)
  queue := h.queue
  store := h.store
  delivered := forall_mem_append_singleton h.delivered (h.queue x (List.mem_of_head? hhead))
  queueNodup := h.queueNodup
  storeNodup := h.storeNodup
  overlap := h.overlap
  undelivered y hy hdelivered := by
    rcases List.mem_append.mp hdelivered with hold | hself
    · have heq := h.undelivered y hy hold
      simp [hidle] at heq
    · rw [List.mem_singleton.mp hself]
      rfl
  delivering y hy := by
    obtain rfl : x = y := Option.some.inj hy
    exact List.mem_append_right _ (List.mem_singleton_self x)
  storing := h.storing
  restoring y hy := ⟨(h.restoring y hy).1, (h.restoring y hy).2.deliver x⟩

theorem removeDelivered (h : s.Inv) (hdelivering : s.delivering = some x) {rest : List α}
    (hcons : s.queue = x :: rest) : s.removeDelivered.Inv where
  accounted y hy := by
    apply (h.accounted y hy).imp_left
    exact fun hkept ↦ hkept.removeDelivered hcons (h.delivering x hdelivering)
  apart := h.apart
  queue y hy := h.queue y (List.mem_of_mem_tail hy)
  store := h.store
  delivered := h.delivered
  queueNodup := h.queueNodup.sublist (List.tail_sublist s.queue)
  storeNodup := h.storeNodup
  overlap y hy := h.overlap y (List.mem_of_mem_tail hy)
  undelivered y hy hdelivered := by
    have heq := h.undelivered y (List.mem_of_mem_tail hy) hdelivered
    obtain rfl : x = y := Option.some.inj (hdelivering.symm.trans heq)
    exact absurd hy (notMem_tail h.queueNodup hcons)
  delivering y hy := nomatch hy
  storing := h.storing
  restoring y hy := by
    obtain ⟨hhead, hkept⟩ := h.restoring y hy
    exact ⟨hhead, hkept.removeDelivered hcons (h.delivering x hdelivering)⟩

theorem save (h : s.Inv) (hstoring : s.storing = none) (hrestoring : s.restoring = none)
    (hhead : s.queue.head? = some x) (hdelivering : s.delivering ≠ some x) : (s.save x).Inv where
  accounted y hy := (h.accounted y hy).imp_right (List.mem_append_left _)
  apart y hy hstored := by
    rcases List.mem_append.mp hstored with hold | hself
    · exact h.apart y hy hold
    · obtain rfl := List.mem_singleton.mp hself
      exact hdelivering (h.undelivered y (List.mem_of_head? hhead) hy)
  queue := h.queue
  store := forall_mem_append_singleton h.store (h.queue x (List.mem_of_head? hhead))
  delivered := h.delivered
  queueNodup := h.queueNodup
  storeNodup := by
    apply nodup_append_singleton h.storeNodup
    exact h.notMem_store hhead (by simp [hstoring]) (by simp [hrestoring])
  overlap y hy hstored := by
    rcases List.mem_append.mp hstored with hold | hself
    · have heq := h.overlap y hy hold
      simp [hstoring, hrestoring] at heq
    · rw [List.mem_singleton.mp hself]
      exact .inl rfl
  undelivered := h.undelivered
  delivering := h.delivering
  storing y hy := by
    obtain rfl : x = y := Option.some.inj hy
    exact List.mem_append_right _ (List.mem_singleton_self x)
  restoring y hy := by
    have hy : s.restoring = some y := hy
    simp [hrestoring] at hy

theorem removeStored (h : s.Inv) (hstoring : s.storing = some x) (hrestoring : s.restoring = none)
    {rest : List α} (hcons : s.queue = x :: rest) : s.removeStored.Inv where
  accounted y hy := by
    rcases h.accounted y hy with hkept | hstored
    · rcases hkept.of_queue_cons hcons with rfl | hkept
      · exact .inr (h.storing y hstoring)
      · exact .inl hkept
    · exact .inr hstored
  apart := h.apart
  queue y hy := h.queue y (List.mem_of_mem_tail hy)
  store := h.store
  delivered := h.delivered
  queueNodup := h.queueNodup.sublist (List.tail_sublist s.queue)
  storeNodup := h.storeNodup
  overlap y hy hstored := by
    rcases h.overlap y (List.mem_of_mem_tail hy) hstored with heq | heq
    · obtain rfl : x = y := Option.some.inj (hstoring.symm.trans heq)
      exact absurd hy (notMem_tail h.queueNodup hcons)
    · exact .inr heq
  undelivered y hy := h.undelivered y (List.mem_of_mem_tail hy)
  delivering := h.delivering
  storing y hy := nomatch hy
  restoring y hy := by
    have hy : s.restoring = some y := hy
    simp [hrestoring] at hy

theorem restore (h : s.Inv) (hstoring : s.storing = none) (hrestoring : s.restoring = none)
    (hhead : s.store.head? = some x) : (s.restore x).Inv where
  accounted y hy := (h.accounted y hy).imp_left fun hkept ↦ hkept.restore x
  apart := h.apart
  queue := forall_mem_append_singleton h.queue (h.store x (List.mem_of_head? hhead))
  store := h.store
  delivered := h.delivered
  queueNodup := by
    apply nodup_append_singleton h.queueNodup
    intro hqueue
    have heq := h.overlap x hqueue (List.mem_of_head? hhead)
    simp [hstoring, hrestoring] at heq
  storeNodup := h.storeNodup
  overlap y hy hstored := by
    rcases List.mem_append.mp hy with hold | hself
    · have heq := h.overlap y hold hstored
      simp [hstoring, hrestoring] at heq
    · rw [List.mem_singleton.mp hself]
      exact .inr rfl
  undelivered y hy hdelivered := by
    rcases List.mem_append.mp hy with hold | hself
    · exact h.undelivered y hold hdelivered
    · obtain rfl := List.mem_singleton.mp hself
      exact absurd (List.mem_of_head? hhead) (h.apart y hdelivered)
  delivering := h.delivering
  storing := h.storing
  restoring y hy := by
    obtain rfl : x = y := Option.some.inj hy
    exact ⟨hhead, .inl (List.mem_append_right _ (List.mem_singleton_self x))⟩

theorem forget (h : s.Inv) (hstoring : s.storing = none) (hrestoring : s.restoring = some x)
    {rest : List α} (hcons : s.store = x :: rest) : s.forget.Inv where
  accounted y hy := by
    rcases h.accounted y hy with hkept | hstored
    · exact .inl hkept
    · rw [hcons] at hstored
      rcases List.mem_cons.mp hstored with rfl | hrest
      · exact .inl (h.restoring y hrestoring).2
      · refine .inr ?_
        rwa [Stock.forget, hcons]
  apart y hy hstored := h.apart y hy (List.mem_of_mem_tail hstored)
  queue := h.queue
  store y hy := h.store y (List.mem_of_mem_tail hy)
  delivered := h.delivered
  queueNodup := h.queueNodup
  storeNodup := h.storeNodup.sublist (List.tail_sublist s.store)
  overlap y hy hstored := by
    rcases h.overlap y hy (List.mem_of_mem_tail hstored) with heq | heq
    · exact .inl heq
    · obtain rfl : x = y := Option.some.inj (hrestoring.symm.trans heq)
      exact absurd hstored (notMem_tail h.storeNodup hcons)
  undelivered := h.undelivered
  delivering := h.delivering
  storing y hy := by
    have hy : s.storing = some y := hy
    simp [hstoring] at hy
  restoring y hy := nomatch hy

end Inv

end Stock
