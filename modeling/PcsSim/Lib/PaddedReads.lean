import Mathlib.Data.List.Basic
import Mathlib.Tactic.Common

/-!
# Records read from a stream one chunk at a time

A reader that takes each chunk for a whole record, filled up with zeros, and keeps
those that pass a test that no record of zeros passes.  It gets the records that were
sent exactly when no chunk spans two records and each chunk but the first of a record
has zeros only.
-/

namespace PaddedReads

variable {α : Type*} [Zero α]

def Zeros (l : List α) : Prop := ∀ b ∈ l, b = 0

section Zeros

variable {l l' : List α}

theorem zeros_append : Zeros (l ++ l') ↔ Zeros l ∧ Zeros l' := List.forall_mem_append

theorem zeros_replicate (m : ℕ) : Zeros (List.replicate m (0 : α)) :=
  fun _ hb ↦ List.eq_of_mem_replicate hb

theorem Zeros.eq_replicate (h : Zeros l) : l = List.replicate l.length 0 :=
  List.eq_replicate_of_mem h

theorem zeros_flatten {ls : List (List α)} : Zeros ls.flatten ↔ ∀ l ∈ ls, Zeros l := by
  induction ls with
  | nil => simp [Zeros]
  | cons l ls ih => rw [List.flatten_cons, zeros_append, ih, List.forall_mem_cons]

theorem zeros_rightpad (n : ℕ) : Zeros (l.rightpad n 0) ↔ Zeros l := by
  rw [List.rightpad, zeros_append]
  exact and_iff_left (zeros_replicate _)

end Zeros

variable (keep : List α → Bool) (n : ℕ)

/-- The records the reader takes from the chunks. -/
def reads (chunks : List (List α)) : List (List α) :=
  (chunks.map (List.rightpad n 0)).filter keep

/-- Each record comes as a first chunk and further ones that have zeros only. -/
inductive CutAtZeros : List (List α) → List (List α) → Prop
  | nil : CutAtZeros [] []
  | cons {first record : List α} {zeros chunks records : List (List α)}
      (hrecord : first ++ zeros.flatten = record) (hzeros : ∀ z ∈ zeros, Zeros z)
      (hkeep : keep record) (hrest : CutAtZeros chunks records) :
      CutAtZeros (first :: (zeros ++ chunks)) (record :: records)

section Reads

variable {keep n} {c : List α} {chunks chunks' records : List (List α)}

theorem reads_cons_of_keep (h : keep (c.rightpad n 0)) :
    reads keep n (c :: chunks) = c.rightpad n 0 :: reads keep n chunks := by
  rw [reads, List.map_cons, List.filter_cons_of_pos h, reads]

theorem reads_cons_of_not_keep (h : ¬keep (c.rightpad n 0)) :
    reads keep n (c :: chunks) = reads keep n chunks := by
  rw [reads, List.map_cons, List.filter_cons_of_neg h, reads]

theorem reads_append : reads keep n (chunks ++ chunks') =
    reads keep n chunks ++ reads keep n chunks' := by
  simp [reads]

variable (hkeep : ∀ r, keep r → ¬Zeros r)

include hkeep

theorem not_zeros_of_keep (h : keep (c.rightpad n 0)) : ¬Zeros c :=
  fun hc ↦ hkeep _ h ((zeros_rightpad n).mpr hc)

theorem reads_of_zeros (h : ∀ z ∈ chunks, Zeros z) : reads keep n chunks = [] := by
  rw [reads, List.filter_eq_nil_iff]
  intro r hr hkept
  obtain ⟨z, hz, rfl⟩ := List.mem_map.mp hr
  exact hkeep _ hkept ((zeros_rightpad n).mpr (h z hz))

theorem CutAtZeros.reads_eq (h : CutAtZeros keep chunks records)
    (hlength : ∀ r ∈ records, r.length = n) : reads keep n chunks = records := by
  induction h with
  | nil => rfl
  | @cons first record zeros chunks records hrecord hzeros hkept hrest ih =>
      obtain ⟨hn, hlength⟩ := List.forall_mem_cons.mp hlength
      have hpad : first.rightpad n 0 = record := by
        have hlen := congrArg List.length hrecord
        rw [List.length_append, hn] at hlen
        rw [List.rightpad, ← hrecord, (zeros_flatten.mpr hzeros).eq_replicate]
        congr 2
        omega
      rw [reads_cons_of_keep (hpad ▸ hkept), hpad, reads_append, reads_of_zeros hkeep hzeros,
        ih hlength, List.nil_append]

end Reads

variable [DecidableEq α]

instance (l : List α) : Decidable (Zeros l) := inferInstanceAs (Decidable (∀ b ∈ l, b = 0))

def lead (l : List α) : ℕ := (l.takeWhile (· = 0)).length

/-- The number of elements that are not zero. -/
def weight (l : List α) : ℕ := l.countP (· ≠ 0)

section Counts

variable {l l' : List α}

theorem lead_append_of_zeros (h : Zeros l) (l' : List α) :
    lead (l ++ l') = l.length + lead l' := by
  have hdecide : ∀ b ∈ l, decide (b = 0) = true := fun b hb ↦ decide_eq_true (h b hb)
  rw [lead, List.takeWhile_append_of_pos hdecide, List.length_append, lead]

theorem lead_append_of_not_zeros (h : ¬Zeros l) (l' : List α) : lead (l ++ l') = lead l := by
  induction l with
  | nil => exact absurd (fun _ hb ↦ absurd hb List.not_mem_nil) h
  | cons b l ih =>
      by_cases hb : b = 0
      · have hl : ¬Zeros l := fun hl ↦ h (List.forall_mem_cons.mpr ⟨hb, hl⟩)
        have hrest : lead (l ++ l') = lead l := ih hl
        simp only [lead] at hrest
        simp [lead, hb, hrest]
      · simp [lead, hb]

theorem weight_append (l l' : List α) : weight (l ++ l') = weight l + weight l' :=
  List.countP_append

theorem weight_eq_zero_iff : weight l = 0 ↔ Zeros l := by
  simp [weight, List.countP_eq_zero, Zeros]

theorem weight_rightpad (n : ℕ) (l : List α) : weight (l.rightpad n 0) = weight l := by
  rw [List.rightpad, weight_append, weight_eq_zero_iff.mpr (zeros_replicate _), Nat.add_zero]

end Counts

section Reads

variable {keep n} {chunks records : List (List α)}

/-- What is kept and what is dropped make up the stream. -/
theorem weight_reads (keep : List α → Bool) (n : ℕ) (chunks : List (List α)) :
    weight chunks.flatten = weight (reads keep n chunks).flatten +
      weight (chunks.filter fun c ↦ ¬keep (c.rightpad n 0)).flatten := by
  induction chunks with
  | nil => rfl
  | cons c chunks ih =>
      rw [List.flatten_cons, weight_append, ih]
      by_cases hkeep : keep (c.rightpad n 0)
      · rw [reads_cons_of_keep hkeep, List.flatten_cons, weight_append, weight_rightpad,
          List.filter_cons_of_neg (by simpa using hkeep), Nat.add_assoc]
      · rw [reads_cons_of_not_keep hkeep, List.filter_cons_of_pos (by simpa using hkeep),
          List.flatten_cons, weight_append, Nat.add_left_comm]

/-- A reader that gets what was sent has dropped zeros only. -/
theorem zeros_of_dropped (hflat : chunks.flatten = (reads keep n chunks).flatten) :
    ∀ c ∈ chunks, ¬keep (c.rightpad n 0) → Zeros c := by
  intro c hc hkeep
  have hweight := weight_reads keep n chunks
  rw [← hflat] at hweight
  have hdropped := weight_eq_zero_iff.mp (Nat.left_eq_add.mp hweight)
  exact zeros_flatten.mp hdropped c (List.mem_filter.mpr ⟨hc, by simpa using hkeep⟩)

variable (hkeep : ∀ r, keep r → ¬Zeros r)

include hkeep

/-- Zeros that are dropped only delay the first record. -/
theorem lead_le (hdropped : ∀ c ∈ chunks, ¬keep (c.rightpad n 0) → Zeros c) {r : List α}
    (h : reads keep n chunks = r :: records) : lead r ≤ lead chunks.flatten := by
  induction chunks with
  | nil => cases h
  | cons c chunks ih =>
      rw [List.flatten_cons]
      by_cases hc : keep (c.rightpad n 0)
      · rw [reads_cons_of_keep hc] at h
        obtain ⟨rfl, -⟩ := List.cons.inj h
        have hzeros := not_zeros_of_keep hkeep hc
        have hlead : lead (c.rightpad n 0) = lead (c ++ chunks.flatten) := by
          rw [List.rightpad, lead_append_of_not_zeros hzeros, lead_append_of_not_zeros hzeros]
        exact Nat.le_of_eq hlead
      · rw [reads_cons_of_not_keep hc] at h
        rw [lead_append_of_zeros (hdropped c List.mem_cons_self hc)]
        have hrest := ih (fun c hc ↦ hdropped c (List.mem_cons_of_mem _ hc)) h
        exact Nat.le_trans hrest (Nat.le_add_left _ _)

theorem eq_zero_of_keep {c : List α} {m : ℕ} (hc : keep (c.rightpad n 0)) {l l' : List α}
    (hflat : c ++ l = List.replicate m 0 ++ (c ++ l')) : m = 0 := by
  have hzeros := not_zeros_of_keep hkeep hc
  have hlead := congrArg lead hflat
  rw [lead_append_of_not_zeros hzeros, lead_append_of_zeros (zeros_replicate m),
    lead_append_of_not_zeros hzeros, List.length_replicate] at hlead
  omega

theorem length_le_of_dropped {c : List α} {m : ℕ} (hzeros : Zeros c)
    (hdropped : ∀ c ∈ chunks, ¬keep (c.rightpad n 0) → Zeros c)
    (h : reads keep n chunks = records)
    (hflat : c ++ chunks.flatten = List.replicate m 0 ++ records.flatten) : c.length ≤ m := by
  cases records with
  | nil =>
      have hlength := congrArg List.length hflat
      simp only [List.length_append, List.length_replicate, List.flatten_nil,
        List.length_nil] at hlength
      omega
  | cons r records =>
      have hr : keep r := by
        have hmem : r ∈ reads keep n chunks := h ▸ List.mem_cons_self
        exact (List.mem_filter.mp hmem).2
      have hfirst := lead_le hkeep hdropped h
      have hlead := congrArg lead hflat
      rw [lead_append_of_zeros hzeros, lead_append_of_zeros (zeros_replicate m),
        List.flatten_cons, lead_append_of_not_zeros (hkeep r hr), List.length_replicate] at hlead
      omega

/-- With `m` zeros of an earlier record in front. -/
theorem exists_cut (hdropped : ∀ c ∈ chunks, ¬keep (c.rightpad n 0) → Zeros c) {m : ℕ}
    (h : reads keep n chunks = records)
    (hflat : chunks.flatten = List.replicate m 0 ++ records.flatten) :
    ∃ zeros rest, chunks = zeros ++ rest ∧ (∀ z ∈ zeros, Zeros z) ∧
      zeros.flatten.length = m ∧ CutAtZeros keep rest records := by
  induction chunks generalizing m records with
  | nil =>
      subst h
      have hm : m = 0 := by simpa [reads] using congrArg List.length hflat.symm
      exact ⟨[], [], rfl, by simp, hm.symm, .nil⟩
  | cons c chunks ih =>
      have hdropped' := fun c hc ↦ hdropped c (List.mem_cons_of_mem _ hc)
      rw [List.flatten_cons] at hflat
      by_cases hc : keep (c.rightpad n 0)
      · rw [reads_cons_of_keep hc] at h
        subst h
        rw [List.flatten_cons, List.rightpad, List.append_assoc] at hflat
        obtain rfl : m = 0 := eq_zero_of_keep hkeep hc hflat
        have hrest := List.append_cancel_left hflat
        obtain ⟨zeros, rest, rfl, hz, hlength, hcut⟩ := ih hdropped' rfl hrest
        refine ⟨[], _, rfl, by simp, rfl, .cons ?_ hz hc hcut⟩
        rw [List.rightpad, (zeros_flatten.mpr hz).eq_replicate, hlength]
      · have hzeros := hdropped c List.mem_cons_self hc
        rw [reads_cons_of_not_keep hc] at h
        have hle : c.length ≤ m := length_le_of_dropped hkeep hzeros hdropped' h hflat
        have hrest : chunks.flatten = List.replicate (m - c.length) 0 ++ records.flatten := by
          rw [hzeros.eq_replicate, ← Nat.add_sub_of_le hle, List.replicate_add,
            List.append_assoc] at hflat
          simpa using List.append_cancel_left hflat
        obtain ⟨zeros, rest, rfl, hz, hlength, hcut⟩ := ih hdropped' h hrest
        refine ⟨c :: zeros, rest, rfl, List.forall_mem_cons.mpr ⟨hzeros, hz⟩, ?_, hcut⟩
        rw [List.flatten_cons, List.length_append, hlength, Nat.add_sub_of_le hle]

/-- The reader gets the records that were sent. -/
theorem reads_eq_iff (hchunks : ∀ c ∈ chunks, c ≠ []) (hlength : ∀ r ∈ records, r.length = n)
    (hflat : chunks.flatten = records.flatten) :
    reads keep n chunks = records ↔ CutAtZeros keep chunks records := by
  constructor
  · intro h
    have hdropped := zeros_of_dropped (h ▸ hflat)
    obtain ⟨zeros, rest, rfl, -, hempty, hcut⟩ := exists_cut hkeep hdropped (m := 0) h hflat
    suffices hnil : zeros = [] by rwa [hnil]
    rw [List.eq_nil_iff_forall_not_mem]
    intro z hz
    have hflatten := List.flatten_eq_nil_iff.mp (List.eq_nil_of_length_eq_zero hempty)
    exact hchunks z (List.mem_append_left _ hz) (hflatten z hz)
  · exact fun h ↦ h.reads_eq hkeep hlength

end Reads

end PaddedReads
