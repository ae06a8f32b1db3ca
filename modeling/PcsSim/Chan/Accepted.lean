import Mathlib.Data.List.Nodup
import PcsSim.Chan.Transmit

/-!
# What the channel has accepted

The threads drop the result of `write`.  The bytes accepted are those of the
entries that have left the buffer exactly when no `write` falls short.
-/

namespace Chan.Tx

open Threads

variable {kind : Kind}

theorem Kind.image_ne_nil (data : kind.Data) : kind.image data ≠ [] := by
  cases kind with
  | serial => exact List.cons_ne_nil data []
  | tcpservCan =>
      intro hnil
      have hsize := data.size
      rw [show data.image = [] from hnil] at hsize
      cases hsize

@[simp] theorem Kind.bytes_append (xs ys : List (Entry kind.Data)) :
    kind.bytes (xs ++ ys) = kind.bytes xs ++ kind.bytes ys :=
  List.flatMap_append

theorem Kind.bytes_ne_nil {es : List (Entry kind.Data)} (h : es ≠ []) : kind.bytes es ≠ [] := by
  obtain ⟨e, rest, rfl⟩ := List.exists_cons_of_ne_nil h
  rw [Kind.bytes, List.flatMap_cons]
  exact List.append_ne_nil_of_left_ne_nil (image_ne_nil e.data) _

namespace World

variable {w : World kind.Data}

theorem isFull_iff (w : World kind.Data) :
    w.txrb.isFull kind.mask ≠ 0 ↔ w.held.length = 127 := by
  rw [Kind.mask_eq]
  exact RingBuffer.isFull_iff_length (k := 7) w.txrb

theorem txrbQueue_of_room (hroom : w.held.length ≠ 127) (data : kind.Data) :
    (w.txrbQueue data).held = w.held ++ [w.stamp data] ∧
      (w.txrbQueue data).evicted = w.evicted := by
  have hheld := RingBuffer.contents_queue_of_room (k := 7) (by decide) w.inRange hroom
    (w.stamp data)
  rw [← Kind.mask_eq kind] at hheld
  exact ⟨hheld, if_neg (mt (isFull_iff w).mp hroom)⟩

theorem txrbQueue_of_full (hfull : w.held.length = 127) (data : kind.Data) :
    ∃ oldest rest, w.held = oldest :: rest ∧
      (w.txrbQueue data).held = rest ++ [w.stamp data] ∧
      (w.txrbQueue data).evicted = w.evicted ++ [oldest.serial] := by
  obtain ⟨oldest, rest, hcons, hheld, hpeek⟩ := RingBuffer.contents_queue_of_full (k := 7)
    (by decide) w.inRange hfull (w.stamp data)
  rw [← Kind.mask_eq kind] at hheld hpeek
  refine ⟨oldest, rest, hcons, hheld, ?_⟩
  rw [txrbQueue, if_pos ((isFull_iff w).mpr hfull), hpeek]
  rfl

end World

theorem filter_ne_of_nodup {D : Type} {e : Entry D} {xs ys : List (Entry D)}
    (h : ((xs ++ e :: ys).map Entry.serial).Nodup) :
    (xs ++ e :: ys).filter (fun x ↦ x.serial ≠ e.serial) = xs ++ ys := by
  rw [List.map_append, List.map_cons, List.nodup_middle, ← List.map_append,
    List.nodup_cons] at h
  have hne : ∀ x ∈ xs ++ ys, x.serial ≠ e.serial := by
    rintro x hx heq
    exact h.1 (heq ▸ List.mem_map_of_mem hx)
  rw [List.filter_append, List.filter_cons_of_neg (by simp), ← List.filter_append]
  apply List.filter_eq_self.mpr
  simpa using hne

theorem append_take_eq_iff {xs ys given : Bytes} {n : ℕ} (hle : xs.length ≤ ys.length)
    (hn : n ≤ given.length) : xs ++ given.take n = ys ++ given ↔ xs = ys ∧ n = given.length := by
  constructor
  · intro heq
    have hlength := congrArg List.length heq
    rw [List.length_append, List.length_append, List.length_take, min_eq_left hn] at hlength
    exact ⟨(List.append_inj heq (by omega)).1, by omega⟩
  · rintro ⟨rfl, rfl⟩
    rw [List.take_length]

/-- `sent` has been handed to `write`. -/
def Handed (sent : List (Entry kind.Data)) (w : World kind.Data) : Prop :=
  w.kept = sent ++ w.inFlight ++ w.held

theorem Handed.faithful_iff {sent : List (Entry kind.Data)} {w : World kind.Data}
    (h : Handed sent w) : Faithful kind w ↔ w.accepted = kind.bytes sent := by
  constructor
  · rintro ⟨sent', hkept, haccepted⟩
    have heq : sent' ++ (w.inFlight ++ w.held) = sent ++ (w.inFlight ++ w.held) := by
      rw [← List.append_assoc, ← hkept, ← List.append_assoc]
      exact h
    rw [haccepted, List.append_cancel_right heq]
  · exact fun haccepted ↦ ⟨sent, h, haccepted⟩

structure Inv (w : World kind.Data) : Prop where
  serials : w.queued.map Entry.serial = List.range w.queued.length
  evicted : ∀ s ∈ w.evicted, s < w.queued.length
  handed : ∃ sent, Handed sent w ∧ w.accepted.length ≤ (kind.bytes sent).length

namespace Inv

variable {w w' : World kind.Data}

theorem serial_lt (h : Inv w) {e : Entry kind.Data} (he : e ∈ w.queued) :
    e.serial < w.queued.length := by
  have hmem : e.serial ∈ w.queued.map Entry.serial := List.mem_map_of_mem he
  rwa [h.serials, List.mem_range] at hmem

theorem serial_lt_of_held (h : Inv w) {e : Entry kind.Data} (he : e ∈ w.held) :
    e.serial < w.queued.length := by
  obtain ⟨sent, hsent, -⟩ := h.handed
  have hmem : e ∈ w.kept := by
    rw [hsent]
    exact List.mem_append_right _ he
  exact h.serial_lt (List.mem_of_mem_filter hmem)

theorem nodup_kept (h : Inv w) : (w.kept.map Entry.serial).Nodup := by
  have hqueued : (w.queued.map Entry.serial).Nodup := h.serials ▸ List.nodup_range
  exact hqueued.sublist (List.filter_sublist.map Entry.serial)

/-! ### An entry is queued -/

theorem handed_txrbQueue (h : Inv w) (data : kind.Data) {sent : List (Entry kind.Data)}
    (hsent : Handed sent w) : Handed sent (w.txrbQueue data) := by
  have hfresh : w.queued.length ∉ w.evicted := fun hmem ↦ (h.evicted _ hmem).false
  by_cases hfull : w.held.length = 127
  · obtain ⟨oldest, rest, hcons, hheld, hevicted⟩ := World.txrbQueue_of_full hfull data
    have holdest := h.serial_lt_of_held (hcons ▸ List.mem_cons_self : oldest ∈ w.held)
    have hkept : (w.txrbQueue data).kept =
        w.kept.filter (fun e ↦ e.serial ≠ oldest.serial) ++ [w.stamp data] := by
      rw [World.kept, hevicted]
      simp [World.txrbQueue, World.kept, World.stamp, hfresh, holdest.ne', List.filter_filter,
        and_comm]
    have hnodup := h.nodup_kept
    rw [Handed, hcons] at hsent
    rw [hsent] at hnodup
    rw [Handed, hkept, hheld, hsent, filter_ne_of_nodup hnodup]
    simp [World.txrbQueue]
  · obtain ⟨hheld, hevicted⟩ := World.txrbQueue_of_room hfull data
    have hkept : (w.txrbQueue data).kept = w.kept ++ [w.stamp data] := by
      rw [World.kept, hevicted]
      simp [World.txrbQueue, World.kept, World.stamp, hfresh]
    rw [Handed, hkept, hheld, hsent]
    simp [World.txrbQueue]

theorem txrbQueue (h : Inv w) (data : kind.Data) : Inv (w.txrbQueue data) := by
  obtain ⟨sent, hsent, hle⟩ := h.handed
  have hlength : (w.txrbQueue data).queued.length = w.queued.length + 1 := by
    simp [World.txrbQueue]
  refine ⟨?_, fun s hs ↦ ?_, sent, h.handed_txrbQueue data hsent, hle⟩
  · rw [hlength, List.range_succ, ← h.serials]
    simp [World.txrbQueue, World.stamp]
  · rw [hlength]
    apply Nat.lt_succ_of_lt
    by_cases hfull : w.held.length = 127
    · obtain ⟨oldest, rest, hcons, -, hevicted⟩ := World.txrbQueue_of_full hfull data
      rw [hevicted, List.mem_append, List.mem_singleton] at hs
      rcases hs with hs | rfl
      · exact h.evicted s hs
      · exact h.serial_lt_of_held (hcons ▸ List.mem_cons_self)
    · rw [(World.txrbQueue_of_room hfull data).2] at hs
      exact h.evicted s hs

/-! ### The actions of the thread -/

/-- A step that moves entries from the buffer to the thread at most. -/
theorem frame (h : Inv w) (hqueued : w'.queued = w.queued) (hevicted : w'.evicted = w.evicted)
    (haccepted : w'.accepted = w.accepted)
    (hrest : w'.inFlight ++ w'.held = w.inFlight ++ w.held) :
    Inv w' ∧ (Faithful kind w' ↔ Faithful kind w ∧ True) := by
  obtain ⟨sent, hsent, hle⟩ := h.handed
  have hsent' : Handed sent w' := by
    rw [Handed, World.kept, hqueued, hevicted, List.append_assoc, hrest, ← List.append_assoc]
    exact hsent
  refine ⟨⟨?_, ?_, sent, hsent', ?_⟩, ?_⟩
  · rw [hqueued]
    exact h.serials
  · rw [hqueued, hevicted]
    exact h.evicted
  · rwa [haccepted]
  · rw [and_true, hsent.faithful_iff, hsent'.faithful_iff, haccepted]

theorem write (h : Inv w) {first count : ℕ} {rc : ℤ}
    (hpre : rulePre (.write first count) w.owned)
    (hrc : -1 ≤ rc ∧ rc ≤ (kind.bytes (w.slice first count)).length)
    (hw' : w' = { w with
      accepted := w.accepted ++ (kind.bytes (w.slice first count)).take rc.toNat
      inFlight := w.inFlight.drop count }) :
    Inv w' ∧ (Faithful kind w' ↔
      Faithful kind w ∧ WritesAll kind (.write first count) rc w) := by
  obtain ⟨sent, hsent, hle⟩ := h.handed
  obtain ⟨hpos, rest, hrest⟩ := hpre
  replace hrest : w.inFlight = w.slice first count ++ rest := hrest.symm
  have hcount : (w.slice first count).length = count := by
    rw [World.slice, List.length_map, List.length_range']
  have hsent' : Handed (sent ++ w.slice first count) w' := by
    have hdrop : w'.inFlight = rest := by
      rw [hw', hrest, List.drop_left' hcount]
    have hsame : w'.kept = w.kept ∧ w'.held = w.held := by
      rw [hw']
      exact ⟨rfl, rfl⟩
    rw [Handed, hdrop, hsame.1, hsame.2, hsent, hrest]
    simp only [List.append_assoc]
  have haccepted : w'.accepted =
      w.accepted ++ (kind.bytes (w.slice first count)).take rc.toNat := by rw [hw']
  have hgiven : 0 < (kind.bytes (w.slice first count)).length := by
    apply List.length_pos_iff.mpr
    apply Kind.bytes_ne_nil
    exact List.ne_nil_of_length_pos (hpos.trans_eq hcount.symm)
  refine ⟨⟨?_, ?_, _, hsent', ?_⟩, ?_⟩
  · rw [hw']
    exact h.serials
  · rw [hw']
    exact h.evicted
  · rw [haccepted, Kind.bytes_append, List.length_append, List.length_append, List.length_take]
    omega
  · rw [hsent.faithful_iff, hsent'.faithful_iff, haccepted, Kind.bytes_append,
      append_take_eq_iff hle (by omega), WritesAll]
    apply and_congr_right
    intro _
    omega

theorem exec (h : Inv w) {op : Op} {rc : ℤ} {r : op.Reply} (hpre : rulePre op w.owned)
    (hexec : Tx.exec kind op rc w = some (r, w')) :
    Inv w' ∧ (Faithful kind w' ↔ Faithful kind w ∧ WritesAll kind op rc w) := by
  cases op with
  | chanLock =>
      obtain ⟨-, -, rfl⟩ := by
        simpa only [Tx.exec, Option.ite_none_right_eq_some, Option.some.injEq] using hexec
      exact h.frame rfl rfl rfl rfl
  | txrbNumItems =>
      obtain ⟨-, rfl⟩ := by simpa only [Tx.exec, Option.some.injEq] using hexec
      exact h.frame rfl rfl rfl rfl
  | txrbDequeueArr len =>
      obtain ⟨hheld, hinFlight, -⟩ := World.txrbDequeueArr_spec len w
      have hw' : w' = (w.txrbDequeueArr len).2 := (congrArg Prod.snd (Option.some.inj hexec)).symm
      have hrest : w'.inFlight ++ w'.held = w.inFlight ++ w.held := by
        rw [hw', hheld, hinFlight, List.append_assoc, List.take_append_drop]
      exact h.frame (by rw [hw']; rfl) (by rw [hw']; rfl) (by rw [hw']; rfl) hrest
  | chanUnlock =>
      obtain ⟨-, rfl⟩ := by simpa only [Tx.exec, Option.some.injEq] using hexec
      exact h.frame rfl rfl rfl rfl
  | write first count =>
      obtain ⟨hrc, -, rfl⟩ := by
        simpa only [Tx.exec, Option.ite_none_right_eq_some, Option.some.injEq] using hexec
      exact h.write hpre hrc rfl

theorem env (h : Inv w) {e : Event kind.Data} (hstep : Tx.env kind e w = some w') :
    Inv w' ∧ (Faithful kind w' ↔ Faithful kind w ∧ True) := by
  cases e with
  | txrbQueue data =>
      obtain ⟨-, rfl⟩ := by
        simpa only [Tx.env, Option.ite_none_right_eq_some, Option.some.injEq] using hstep
      obtain ⟨sent, hsent, -⟩ := h.handed
      refine ⟨h.txrbQueue data, ?_⟩
      rw [and_true, hsent.faithful_iff, (h.handed_txrbQueue data hsent).faithful_iff]
      rfl
  | chanLock | chanUnlock =>
      obtain ⟨-, rfl⟩ := by
        simpa only [Tx.env, Option.ite_none_right_eq_some, Option.some.injEq] using hstep
      exact h.frame rfl rfl rfl rfl

end Inv

theorem handed_start (txrb : RingBuffer (Entry kind.Data)) (eArr : ℕ → Entry kind.Data) :
    Handed [] (World.start txrb eArr) := by
  have hheld : (World.start txrb eArr).held = [] := RingBuffer.contents_init (k := 7) txrb
  rw [Handed, hheld]
  rfl

theorem Inv.start (txrb : RingBuffer (Entry kind.Data)) (eArr : ℕ → Entry kind.Data) :
    Inv (World.start txrb eArr) where
  serials := rfl
  evicted _ hs := absurd hs List.not_mem_nil
  handed := ⟨[], handed_start txrb eArr, le_rfl⟩

/-- At any time, for either thread, the bytes accepted are those of the entries that
are neither evicted nor still to be sent, in order and each once, exactly when
every `write` so far has accepted all that it was given. -/
theorem faithful_iff_writesAll (kind : Kind) (txrb : RingBuffer (Entry kind.Data))
    (eArr : ℕ → Entry kind.Data) {ls : List (Label ℤ (Event kind.Data))} {c : Config kind}
    (hrun : Runs.run (system kind).step (start kind txrb eArr) ls = some c) :
    Faithful kind c.state ↔ Runs.Always (system kind).step
      (Outline.Permitted (WritesAll kind) fun _ _ ↦ True) (start kind txrb eArr) ls := by
  have hiff := (outline kind).run_iff_permitted (c := start kind txrb eArr) (I := Inv)
    (P := Faithful kind) (G := WritesAll kind) (E := fun _ _ ↦ True)
    (fun _ _ _ _ _ hpre h hexec ↦ h.exec hpre hexec)
    (fun _ _ _ h hstep ↦ h.env hstep) rfl (Inv.start txrb eArr) hrun
  rw [hiff]
  apply and_iff_right
  exact (handed_start txrb eArr).faithful_iff.mpr rfl

/-! ### Schedules -/

def Entry.zero : Entry UInt8 := ⟨0, 0⟩

def emptyBuffer : RingBuffer (Entry UInt8) := ⟨fun _ ↦ .zero, 0, 0⟩

/-- The bytes 7 and 8 are queued, and the thread goes up to its `write`, which
returns `rc`. -/
def sendTwo (rc : ℤ) : List (Label ℤ (Event UInt8)) :=
  [.env .chanLock, .env (.txrbQueue 7), .env (.txrbQueue 8), .env .chanUnlock] ++
    List.replicate 5 (.own 0) ++ [.own rc]

theorem faithful_sendTwo : ∃ c : Config .serial,
    Runs.run (system .serial).step (start .serial emptyBuffer fun _ ↦ .zero) (sendTwo 2) = some c ∧
      c.state.accepted = [7, 8] ∧ Faithful .serial c.state := by
  obtain ⟨c, hrun, haccepted⟩ : ∃ c : Config .serial,
      Runs.run (system .serial).step (start .serial emptyBuffer fun _ ↦ .zero) (sendTwo 2) =
        some c ∧ c.state.accepted = [7, 8] := ⟨_, rfl, rfl⟩
  exact ⟨c, hrun, haccepted, (faithful_iff_writesAll .serial _ _ hrun).mpr (by decide)⟩

/-- The byte 8 is lost. -/
theorem not_faithful_short : ∃ (ls : List (Label ℤ (Event UInt8))) (c : Config .serial),
    Runs.run (system .serial).step (start .serial emptyBuffer fun _ ↦ .zero) ls = some c ∧
      ¬Faithful .serial c.state := by
  obtain ⟨c, hrun, haccepted, hhanded⟩ : ∃ c : Config .serial,
      Runs.run (system .serial).step (start .serial emptyBuffer fun _ ↦ .zero) (sendTwo 1) =
        some c ∧ c.state.accepted = [7] ∧ Handed [⟨0, 7⟩, ⟨1, 8⟩] c.state := ⟨_, rfl, rfl, rfl⟩
  refine ⟨sendTwo 1, c, hrun, fun h ↦ ?_⟩
  have hall := hhanded.faithful_iff.mp h
  rw [haccepted] at hall
  cases hall

end Chan.Tx
