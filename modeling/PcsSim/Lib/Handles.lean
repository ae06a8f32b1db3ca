import Mathlib.Data.List.Nodup

/-!
# Handles of a library

A library hands out fresh handles, which may be opened and are to be freed once.
A program that holds at most one handle at a time is `Sole` when every handle that
has not been freed is the one it holds.
-/

structure Handles where
  /-- those below have been created -/
  next : ℕ
  opened : List ℕ
  /-- in the order of the calls, the last one first -/
  freed : List ℕ

namespace Handles

variable {h : Handles} {c : ℕ}

def create (h : Handles) : Handles := { h with next := h.next + 1 }

def markOpened (h : Handles) (c : ℕ) : Handles := { h with opened := c :: h.opened }

def free (h : Handles) (c : ℕ) : Handles := { h with freed := c :: h.freed }

def initial : Handles := ⟨0, [], []⟩

/-- The handle held is live, no handle has been freed twice, and no other handle
is left unfreed. -/
structure Sole (h : Handles) (held : Option ℕ) : Prop where
  live : ∀ c ∈ held, c < h.next ∧ c ∉ h.freed
  once : h.freed.Nodup
  created : ∀ c ∈ h.freed, c < h.next
  unfreed : ∀ c, c < h.next → c ∉ h.freed → held = some c

/-- In addition the handle held was opened. -/
structure Tidy (h : Handles) (held : Option ℕ) : Prop extends Sole h held where
  opened : ∀ c ∈ held, c ∈ h.opened

theorem tidy_initial : initial.Tidy none where
  live _ hc := nomatch hc
  once := .nil
  created _ hc := absurd hc List.not_mem_nil
  unfreed _ hc := absurd hc (Nat.not_lt_zero _)
  opened _ hc := nomatch hc

theorem Sole.tidy_none (hs : h.Sole none) : h.Tidy none where
  toSole := hs
  opened _ hc := nomatch hc

theorem Sole.create (hs : h.Sole none) : h.create.Sole (some h.next) where
  live c hc := by
    obtain rfl : h.next = c := by simpa using hc
    exact ⟨Nat.lt_succ_self _, fun hfreed ↦ Nat.lt_irrefl _ (hs.created _ hfreed)⟩
  once := hs.once
  created c hc := Nat.lt_succ_of_lt (hs.created c hc)
  unfreed c hc hfreed := by
    rcases Nat.lt_succ_iff_lt_or_eq.mp hc with hold | rfl
    · exact absurd (hs.unfreed c hold hfreed) (by simp)
    · rfl

theorem Sole.free (hs : h.Sole (some c)) : (h.free c).Sole none where
  live _ hc := nomatch hc
  once := List.nodup_cons.mpr ⟨(hs.live c rfl).2, hs.once⟩
  created d hd := by
    rcases List.mem_cons.mp hd with rfl | hd
    · exact (hs.live d rfl).1
    · exact hs.created d hd
  unfreed d hd hfreed := by
    obtain ⟨hne, hfreed⟩ := not_or.mp (mt List.mem_cons.mpr hfreed)
    obtain rfl : c = d := Option.some.inj (hs.unfreed d hd hfreed)
    exact absurd rfl hne

theorem Sole.markOpened (hs : h.Sole (some c)) : (h.markOpened c).Tidy (some c) where
  live := hs.live
  once := hs.once
  created := hs.created
  unfreed := hs.unfreed
  opened d hd := by
    obtain rfl : c = d := by simpa using hd
    exact List.mem_cons_self

theorem not_tidy_free (h : Handles) (c : ℕ) : ¬(h.free c).Tidy (some c) :=
  fun ht ↦ (ht.live c rfl).2 List.mem_cons_self

theorem not_tidy_of_live {held : Option ℕ} (hnext : c < h.next) (hfreed : c ∉ h.freed)
    (hheld : held ≠ some c) : ¬h.Tidy held :=
  fun ht ↦ hheld (ht.unfreed c hnext hfreed)

end Handles
