import Mathlib.Data.List.Sort
import PcsSim.Mqtt.TxBuffer

/-!
# What becomes of a message in the transmit buffer

The thread publishes the oldest message of the buffer and removes the oldest
message afterwards, in two critical sections.  In between the producers may
fill the buffer and evict the message that is being published.

`TxInv` ties the buffer and the histories together through the serial numbers.
It gives the order of the published messages without further conditions, and
that no message is lost exactly when nothing is evicted between the peek and
the dequeue of a message.
-/

namespace Mqtt

open Threads

/-- The oldest message is `p`, or an eviction since the peek has taken `p`
away. -/
structure Pending (p : Message) (w : World) : Prop where
  mem : p ∈ w.enqueued
  dequeued : ∀ d ∈ w.owned.dequeued, d.serial < p.serial
  head : w.evictedSincePeek = false → w.held.head? = some p
  gone : w.evictedSincePeek = true → w.held ≠ [] ∧ ∀ m ∈ w.held, p.serial < m.serial

/-- The pending message is no younger than any message held, and the buffer is
not empty. -/
theorem Pending.exists_cons {p : Message} {w : World} (hp : Pending p w) :
    ∃ oldest rest, w.held = oldest :: rest ∧ p.serial ≤ oldest.serial ∧
      (w.evictedSincePeek = false → oldest = p) ∧
      (w.evictedSincePeek = true → p.serial < oldest.serial) := by
  cases hgone : w.evictedSincePeek with
  | false =>
      obtain ⟨rest, hrest⟩ := List.head?_eq_some_iff.mp (hp.head hgone)
      exact ⟨p, rest, hrest, le_rfl, fun _ ↦ rfl, fun hcontra ↦ by simp at hcontra⟩
  | true =>
      obtain ⟨hne, hlt⟩ := hp.gone hgone
      obtain ⟨oldest, rest, hcons⟩ := List.exists_cons_of_ne_nil hne
      have holdest := hlt oldest (hcons ▸ List.mem_cons_self ..)
      exact ⟨oldest, rest, hcons, holdest.le, fun hcontra ↦ by simp at hcontra, fun _ ↦ holdest⟩

/-- Everything published or dequeued so far is older than everything held. -/
def Settled (w : World) : Prop :=
  ∀ m ∈ w.held, (∀ d ∈ w.owned.published, d.serial < m.serial) ∧
    ∀ d ∈ w.owned.dequeued, d.serial < m.serial

def TxPhase (w : World) : Prop :=
  match w.owned.phase with
  | .idle => Settled w
  | .peeked p => Pending p w ∧ ∀ d ∈ w.owned.published, d.serial < p.serial
  | .published p => Pending p w ∧ p ∈ w.owned.published ∧
      ∀ d ∈ w.owned.published, d.serial ≤ p.serial

structure TxInv (w : World) : Prop where
  inRange : w.txInRange
  serials : w.enqueued.map Message.serial = List.range w.enqueued.length
  held : w.held <:+ w.enqueued
  left : ∀ m ∈ w.enqueued, m ∈ w.held ∨ m ∈ w.owned.dequeued ∨ m ∈ w.evicted
  dequeued : ∀ m ∈ w.owned.dequeued, m ∈ w.enqueued
  published : ∀ m ∈ w.owned.published, m ∈ w.enqueued
  sorted : w.owned.published.Pairwise fun a b ↦ a.serial < b.serial
  phase : TxPhase w

namespace TxInv

variable {w w' : World}

theorem serial_lt (h : TxInv w) {m : Message} (hm : m ∈ w.enqueued) :
    m.serial < w.enqueued.length := by
  have hmem : m.serial ∈ w.enqueued.map Message.serial := List.mem_map_of_mem hm
  rwa [h.serials, List.mem_range] at hmem

theorem enqueued_sorted (h : TxInv w) :
    w.enqueued.Pairwise fun a b ↦ a.serial < b.serial := by
  rw [← List.pairwise_map (f := Message.serial) (R := (· < ·)), h.serials]
  exact List.pairwise_lt_range

theorem held_sorted (h : TxInv w) : w.held.Pairwise fun a b ↦ a.serial < b.serial :=
  h.enqueued_sorted.sublist h.held.sublist

theorem serial_lt_of_held_cons (h : TxInv w) {oldest : Message} {rest : List Message}
    (hcons : w.held = oldest :: rest) : ∀ m ∈ rest, oldest.serial < m.serial := by
  have hsorted := h.held_sorted
  rw [hcons, List.pairwise_cons] at hsorted
  exact hsorted.1

/-! ### An enqueue -/

theorem pending_queue (h : TxInv w) {p : Message} (hp : Pending p w) (data : Element) :
    Pending p (w.mqttQueueTxbuf data) := by
  have hpstamp : p.serial < (w.stamp data).serial := h.serial_lt hp.mem
  by_cases hfull : w.held.length = 255
  · obtain ⟨oldest, rest, hcons, hheld, -, hgone⟩ := World.queue_of_full h.inRange hfull data
    refine ⟨List.mem_append_left _ hp.mem, hp.dequeued, by simp [hgone], fun _ ↦ ?_⟩
    obtain ⟨oldest', rest', hcons', hle, -, -⟩ := hp.exists_cons
    obtain ⟨rfl, rfl⟩ := List.cons.inj (hcons.symm.trans hcons')
    rw [hheld]
    refine ⟨by simp, fun m hm ↦ ?_⟩
    rcases List.mem_append.mp hm with hm | hm
    · exact hle.trans_lt (h.serial_lt_of_held_cons hcons m hm)
    · rwa [List.mem_singleton.mp hm]
  · obtain ⟨hheld, -, hsame⟩ := World.queue_of_room h.inRange hfull data
    refine ⟨List.mem_append_left _ hp.mem, hp.dequeued, fun hgone ↦ ?_, fun hgone ↦ ?_⟩
    · rw [hsame] at hgone
      rw [hheld, List.head?_append, hp.head hgone]
      rfl
    · rw [hsame] at hgone
      obtain ⟨-, hlt⟩ := hp.gone hgone
      rw [hheld]
      refine ⟨by simp, fun m hm ↦ ?_⟩
      rcases List.mem_append.mp hm with hm | hm
      · exact hlt m hm
      · rwa [List.mem_singleton.mp hm]

theorem mem_held_queue (h : TxInv w) {data : Element} {m : Message}
    (hm : m ∈ (w.mqttQueueTxbuf data).held) : m ∈ w.held ∨ m = w.stamp data := by
  rw [World.held_queue h.inRange] at hm
  simpa using (DropOldest.push_suffix _ _ _).subset hm

theorem settled_queue (h : TxInv w) (hs : Settled w) (data : Element) :
    Settled (w.mqttQueueTxbuf data) := by
  intro m hm
  rcases h.mem_held_queue hm with hm | rfl
  · exact hs m hm
  · exact ⟨fun d hd ↦ h.serial_lt (h.published d hd), fun d hd ↦ h.serial_lt (h.dequeued d hd)⟩

theorem phase_queue (h : TxInv w) (data : Element) : TxPhase (w.mqttQueueTxbuf data) := by
  have hphase := h.phase
  unfold TxPhase at hphase ⊢
  rw [World.owned_queue]
  split at hphase
  · exact h.settled_queue hphase data
  · exact ⟨h.pending_queue hphase.1 data, hphase.2⟩
  · exact ⟨h.pending_queue hphase.1 data, hphase.2⟩

theorem left_queue (h : TxInv w) (data : Element) :
    ∀ m ∈ (w.mqttQueueTxbuf data).enqueued, m ∈ (w.mqttQueueTxbuf data).held ∨
      m ∈ w.owned.dequeued ∨ m ∈ (w.mqttQueueTxbuf data).evicted := by
  intro m hm
  rw [World.enqueued_queue, List.mem_append, List.mem_singleton] at hm
  by_cases hfull : w.held.length = 255
  · obtain ⟨oldest, rest, hcons, hheld, hevicted, -⟩ := World.queue_of_full h.inRange hfull data
    rw [hheld, hevicted]
    rcases hm with hm | rfl
    · rcases h.left m hm with hmem | hmem | hmem
      · rcases List.mem_cons.mp (hcons ▸ hmem) with rfl | hmem
        · exact .inr (.inr (List.mem_append_right _ List.mem_cons_self))
        · exact .inl (List.mem_append_left _ hmem)
      · exact .inr (.inl hmem)
      · exact .inr (.inr (List.mem_append_left _ hmem))
    · exact .inl (List.mem_append_right _ List.mem_cons_self)
  · obtain ⟨hheld, hevicted, -⟩ := World.queue_of_room h.inRange hfull data
    rw [hheld, hevicted]
    rcases hm with hm | rfl
    · exact (h.left m hm).imp_left (List.mem_append_left _)
    · exact .inl (List.mem_append_right _ List.mem_cons_self)

theorem mqttQueueTxbuf (h : TxInv w) (data : Element) : TxInv (w.mqttQueueTxbuf data) where
  inRange := World.txInRange_queue h.inRange data
  serials := by simp [h.serials, List.range_succ, World.stamp]
  held := by
    rw [World.held_queue h.inRange]
    refine (DropOldest.push_suffix _ _ _).trans ?_
    obtain ⟨older, holder⟩ := h.held
    exact ⟨older, by rw [World.enqueued_queue, ← holder, List.append_assoc]⟩
  left := h.left_queue data
  dequeued m hm := List.mem_append_left _ (h.dequeued m hm)
  published m hm := List.mem_append_left _ (h.published m hm)
  sorted := h.sorted
  phase := h.phase_queue data

/-! ### The actions of the thread -/

theorem frame (h : TxInv w) (htxbuf : w'.txbuf = w.txbuf) (henqueued : w'.enqueued = w.enqueued)
    (hevicted : w'.evicted = w.evicted) (hsince : w'.evictedSincePeek = w.evictedSincePeek)
    (hphase : w'.owned.phase = w.owned.phase)
    (hpublished : w'.owned.published = w.owned.published)
    (hdequeued : w'.owned.dequeued = w.owned.dequeued) : TxInv w' := by
  have hheld : w'.held = w.held := by rw [World.held, htxbuf, ← World.held]
  constructor
  case inRange => simpa only [World.txInRange, htxbuf] using h.inRange
  case serials => simpa only [henqueued] using h.serials
  case held => simpa only [hheld, henqueued] using h.held
  case left => simpa only [hheld, henqueued, hdequeued, hevicted] using h.left
  case dequeued => simpa only [henqueued, hdequeued] using h.dequeued
  case published => simpa only [henqueued, hpublished] using h.published
  case sorted => simpa only [hpublished] using h.sorted
  case phase =>
    have hold := h.phase
    have hpending : ∀ p, Pending p w → Pending p w' := fun p hp ↦ by
      constructor
      case mem => simpa only [henqueued] using hp.mem
      case dequeued => simpa only [hdequeued] using hp.dequeued
      case head => simpa only [hheld, hsince] using hp.head
      case gone => simpa only [hheld, hsince] using hp.gone
    unfold TxPhase at hold ⊢
    rw [hphase]
    split at hold
    · simpa only [Settled, hheld, hpublished, hdequeued] using hold
    · exact ⟨hpending _ hold.1, by simpa only [hpublished] using hold.2⟩
    · exact ⟨hpending _ hold.1, by simpa only [hpublished] using hold.2⟩

theorem peek (h : TxInv w) (hidle : w.owned.phase = .idle) :
    TxInv { w.setOwned (w.owned.afterPeek w.held[0]?) with evictedSincePeek := false } := by
  have hsettled : Settled w := by
    have hphase := h.phase
    rwa [TxPhase, hidle] at hphase
  refine ⟨h.inRange, h.serials, h.held, h.left, h.dequeued, h.published, h.sorted, ?_⟩
  cases hheld : w.held with
  | nil =>
      intro m hm
      have hnil : m ∈ w.held := hm
      simp [hheld] at hnil
  | cons oldest rest =>
      have hmem : oldest ∈ w.held := hheld ▸ List.mem_cons_self ..
      refine ⟨⟨h.held.subset hmem, (hsettled oldest hmem).2, fun _ ↦ ?_, by simp⟩,
        (hsettled oldest hmem).1⟩
      change w.held.head? = some oldest
      simp [hheld]

theorem pubReturned (h : TxInv w) {m : Message} {ret : ℤ} (hpeeked : w.owned.phase = .peeked m)
    (hhanded : ret = 0 → w.owned.handed = m.texts) :
    TxInv (w.setOwned (w.owned.afterPub m ret)) := by
  obtain ⟨hpending, hbefore⟩ : Pending m w ∧ ∀ d ∈ w.owned.published, d.serial < m.serial := by
    have hphase := h.phase
    rwa [TxPhase, hpeeked] at hphase
  obtain ⟨oldest, rest, hcons, hle, -, -⟩ := hpending.exists_cons
  by_cases hret : ret = 0
  · rw [hret, Owned.afterPub_of_handed (hhanded hret)]
    refine ⟨h.inRange, h.serials, h.held, h.left, h.dequeued, ?_, ?_, ?_⟩
    · intro d hd
      rcases List.mem_append.mp hd with hd | hd
      · exact h.published d hd
      · exact List.mem_singleton.mp hd ▸ hpending.mem
    · refine List.pairwise_append.mpr ⟨h.sorted, List.pairwise_singleton .., ?_⟩
      intro d hd m' hm'
      exact List.mem_singleton.mp hm' ▸ hbefore d hd
    · refine ⟨⟨hpending.mem, hpending.dequeued, hpending.head, hpending.gone⟩,
        List.mem_append_right _ (List.mem_singleton_self m), fun d hd ↦ ?_⟩
      rcases List.mem_append.mp hd with hd | hd
      · exact (hbefore d hd).le
      · exact (congrArg Message.serial (List.mem_singleton.mp hd)).le
  · rw [Owned.afterPub_of_ne_zero hret]
    refine ⟨h.inRange, h.serials, h.held, h.left, h.dequeued, h.published, h.sorted, ?_⟩
    -- the message stays where it is, and so does everything behind it
    intro d hd
    have hge : m.serial ≤ d.serial := by
      have hd : d ∈ w.held := hd
      rw [hcons] at hd
      rcases List.mem_cons.mp hd with rfl | hd
      · exact hle
      · exact hle.trans (h.serial_lt_of_held_cons hcons d hd).le
    exact ⟨fun p hp ↦ (hbefore p hp).trans_le hge,
      fun p hp ↦ (hpending.dequeued p hp).trans_le hge⟩

theorem dequeue (h : TxInv w) {m : Message} (hphase : w.owned.phase = .published m)
    {txbuf : RingBuffer Message} {data : Option Message}
    (htxbuf : (mqttRingbufferDequeue w.txbuf).1 = txbuf)
    (hdata : (mqttRingbufferDequeue w.txbuf).2.2 = data) :
    TxInv { w.setOwned (w.owned.afterDequeue data) with txbuf := txbuf } ∧
      ∃ oldest, data = some oldest ∧
        (oldest ∈ w.owned.published ↔ w.evictedSincePeek = false) := by
  obtain ⟨hpending, hmem, hbefore⟩ : Pending m w ∧ m ∈ w.owned.published ∧
      ∀ d ∈ w.owned.published, d.serial ≤ m.serial := by
    have hold := h.phase
    rwa [TxPhase, hphase] at hold
  obtain ⟨oldest, rest, hcons, hle, hsame, hgone⟩ := hpending.exists_cons
  obtain ⟨hrange, hheld, hsome⟩ := World.dequeue_of_cons h.inRange hcons
  rw [htxbuf] at hrange hheld
  obtain rfl : data = some oldest := hdata.symm.trans hsome
  have hrest : rest <:+ w.held := ⟨[oldest], hcons.symm⟩
  have hyounger := h.serial_lt_of_held_cons hcons
  refine ⟨⟨hrange, h.serials, ?_, ?_, ?_, h.published, h.sorted, ?_⟩, oldest, rfl, ?_⟩
  case refine_1 =>
    change txbuf.contents (2 ^ 8) <:+ w.enqueued
    rw [hheld]
    exact hrest.trans h.held
  case refine_2 =>
    intro d hd
    change d ∈ txbuf.contents (2 ^ 8) ∨ d ∈ w.owned.dequeued ++ [oldest] ∨ d ∈ w.evicted
    rw [hheld]
    rcases h.left d hd with hmem | hmem | hmem
    · rcases List.mem_cons.mp (hcons ▸ hmem) with rfl | hmem
      · exact .inr (.inl (List.mem_append_right _ List.mem_cons_self))
      · exact .inl hmem
    · exact .inr (.inl (List.mem_append_left _ hmem))
    · exact .inr (.inr hmem)
  case refine_3 =>
    intro d hd
    rcases List.mem_append.mp hd with hd | hd
    · exact h.dequeued d hd
    · obtain rfl : d = oldest := by simpa using hd
      exact h.held.subset (hcons ▸ List.mem_cons_self ..)
  case refine_4 =>
    intro d hd
    have hd' : d ∈ rest := by
      change d ∈ txbuf.contents (2 ^ 8) at hd
      rwa [hheld] at hd
    have hlt : m.serial < d.serial := hle.trans_lt (hyounger d hd')
    refine ⟨fun p hp ↦ (hbefore p hp).trans_lt hlt, fun p hp ↦ ?_⟩
    rcases List.mem_append.mp hp with hp | hp
    · exact (hpending.dequeued p hp).trans hlt
    · obtain rfl : p = oldest := by simpa using hp
      exact hyounger d hd'
  case refine_5 =>
    constructor
    · intro hpub
      by_contra hsince
      exact absurd (hbefore oldest hpub) (hgone (by simpa using hsince)).not_ge
    · intro hsince
      exact hsame hsince ▸ hmem

end TxInv

/-! ## Order and no duplication -/

/-- The dequeue takes out nothing that was not published. -/
def DequeuesPublished (w : World) : Prop := ∀ m ∈ w.owned.dequeued, m ∈ w.owned.published

/-- No message is evicted between a peek and the dequeue that follows it. -/
def NoEvictionSincePeek : Op → World → Prop
  | .mqttDequeueTxbuf, w => w.evictedSincePeek = false
  | _, _ => True

def Op.isDequeue : Op → Bool
  | .mqttDequeueTxbuf => true
  | _ => false

theorem noEvictionSincePeek_iff (op : Op) (w : World) :
    NoEvictionSincePeek op w ↔ (op.isDequeue && w.evictedSincePeek) = false := by
  cases op with
  | mqttDequeueTxbuf => exact Iff.rfl
  | _ => exact iff_of_true trivial rfl

instance (op : Op) (w : World) : Decidable (NoEvictionSincePeek op w) :=
  decidable_of_iff _ (noEvictionSincePeek_iff op w).symm

namespace TxInv

variable {w w' : World}

/-- Each action of the thread keeps the invariant, and what is taken out was
published as before unless the action is a dequeue after an eviction. -/
theorem exec (h : TxInv w) {op : Op} {i : Outcome} {r : op.Reply} (hpre : rulePre op w.owned)
    (hexec : exec op i w = some (r, w')) :
    TxInv w' ∧ (DequeuesPublished w' ↔ DequeuesPublished w ∧ NoEvictionSincePeek op w) := by
  cases op with
  | mqttPeekTxbuf =>
      obtain ⟨rfl, rfl⟩ := by simpa only [Mqtt.exec, Option.some.injEq] using hexec
      have hpeek : (mqttRingbufferPeek w.txbuf 0).2 = w.held[0]? := by
        rw [World.mqttRingbufferPeek_zero]
        rfl
      rw [hpeek]
      exact ⟨h.peek hpre, (and_true _).symm.to_iff⟩
  | mqttPubReturned m ret =>
      obtain ⟨rfl, rfl⟩ := by simpa only [Mqtt.exec, Option.some.injEq] using hexec
      refine ⟨h.pubReturned hpre.1 hpre.2, ?_⟩
      have hnew : m ∉ w.owned.dequeued := by
        have hphase := h.phase
        rw [TxPhase, hpre.1] at hphase
        exact fun hm ↦ (hphase.1.dequeued m hm).false
      simp only [DequeuesPublished, NoEvictionSincePeek, and_true, World.owned_setOwned]
      by_cases hret : ret = 0
      · rw [hret, Owned.afterPub_of_handed (hpre.2 hret)]
        apply forall₂_congr
        intro d hd
        have hne : d ≠ m := fun heq ↦ hnew (heq ▸ hd)
        simp [hne]
      · rw [Owned.afterPub_of_ne_zero hret]
  | mqttDequeueTxbuf =>
      obtain ⟨m, hphase⟩ := hpre
      obtain ⟨rfl, rfl⟩ := by simpa only [Mqtt.exec, Option.some.injEq] using hexec
      obtain ⟨hinv, oldest, hdata, hiff⟩ := h.dequeue hphase rfl rfl
      refine ⟨hinv, ?_⟩
      simp only [DequeuesPublished, NoEvictionSincePeek, Owned.afterDequeue,
        World.owned_setOwned, hdata, Option.toList_some, List.mem_append,
        List.mem_singleton, or_imp, forall_and, forall_eq, hiff]
  | clientCreate uri id =>
      obtain ⟨rfl, rfl⟩ := by simpa only [Mqtt.exec, Option.some.injEq] using hexec
      unfold Owned.clientCreate
      split <;> exact ⟨h.frame rfl rfl rfl rfl rfl rfl rfl, (and_true _).symm.to_iff⟩
  | clientConnect =>
      obtain ⟨c, -, rfl, rfl⟩ := by simpa only [Mqtt.exec, Option.map_eq_some_iff] using hexec
      unfold Owned.clientConnect
      split <;> exact ⟨h.frame rfl rfl rfl rfl rfl rfl rfl, (and_true _).symm.to_iff⟩
  | clientSubscribe topic qos =>
      obtain ⟨c, -, rfl, rfl⟩ := by simpa only [Mqtt.exec, Option.map_eq_some_iff] using hexec
      unfold Owned.clientSubscribe
      split <;> exact ⟨h.frame rfl rfl rfl rfl rfl rfl rfl, (and_true _).symm.to_iff⟩
  | publishMessage =>
      obtain ⟨c, -, rfl, rfl⟩ := by simpa only [Mqtt.exec, Option.map_eq_some_iff] using hexec
      exact ⟨h.frame rfl rfl rfl rfl rfl rfl rfl, (and_true _).symm.to_iff⟩
  | uuid4 | sprintf | mqttLockTxbuf =>
      obtain ⟨-, rfl, rfl⟩ := by
        simpa only [Mqtt.exec, Option.ite_none_right_eq_some, Option.some.injEq] using hexec
      exact ⟨h.frame rfl rfl rfl rfl rfl rfl rfl, (and_true _).symm.to_iff⟩
  | _ =>
      obtain ⟨rfl, rfl⟩ := by simpa only [Mqtt.exec, Option.some.injEq] using hexec
      exact ⟨h.frame rfl rfl rfl rfl rfl rfl rfl, (and_true _).symm.to_iff⟩

theorem env (h : TxInv w) {e : Event} (hstep : env e w = some w') :
    TxInv w' ∧ (DequeuesPublished w' ↔ DequeuesPublished w ∧ True) := by
  rw [and_true, DequeuesPublished, env_owned e w w' hstep, ← DequeuesPublished]
  refine ⟨?_, Iff.rfl⟩
  cases e with
  | queueTxbuf i data =>
      obtain ⟨-, rfl⟩ := by
        simpa only [Mqtt.env, Option.ite_none_right_eq_some, Option.some.injEq] using hstep
      exact h.mqttQueueTxbuf data
  | lockTxbuf | unlockTxbuf | mqttConnlost =>
      obtain ⟨-, rfl⟩ := by
        simpa only [Mqtt.env, Option.ite_none_right_eq_some, Option.some.injEq] using hstep
      exact h.frame rfl rfl rfl rfl rfl rfl rfl
  | _ =>
      obtain rfl := by simpa only [Mqtt.env, Option.some.injEq] using hstep
      exact h.frame rfl rfl rfl rfl rfl rfl rfl

theorem start (mdl : Settings) (tx : RingBuffer Message) (rx : RingBuffer Element) :
    TxInv (World.start mdl tx rx) where
  inRange := RingBuffer.inRange_init (k := 8) tx
  serials := rfl
  held := by
    have hnil : (World.start mdl tx rx).held = [] := RingBuffer.contents_init (k := 8) tx
    exact hnil ▸ List.nil_suffix
  left := fun _ hm ↦ absurd hm List.not_mem_nil
  dequeued := fun _ hm ↦ absurd hm List.not_mem_nil
  published := fun _ hm ↦ absurd hm List.not_mem_nil
  sorted := .nil
  phase := fun _ _ ↦ ⟨fun _ hd ↦ absurd hd List.not_mem_nil,
    fun _ hd ↦ absurd hd List.not_mem_nil⟩

theorem of_run {mdl : Settings} {tx : RingBuffer Message} {rx : RingBuffer Element}
    {ls : List (Label Outcome Event)} {c : Config}
    (hrun : Runs.run system.step (Config.start mdl tx rx) ls = some c) : TxInv c.state :=
  ((outline env_owned).run_invariant (c := Config.start mdl tx rx)
    (fun _ _ _ _ _ hpre h hexec ↦ (h.exec hpre hexec).1) (fun _ _ _ h hstep ↦ (h.env hstep).1)
    (boundary_start mdl tx rx) (start mdl tx rx) hrun).2

end TxInv

/-- The messages published are some of the messages queued, in the order in
which they were queued, and no two messages queued are the same. -/
theorem published_sublist_of_run {mdl : Settings} {tx : RingBuffer Message}
    {rx : RingBuffer Element} {ls : List (Label Outcome Event)} {c : Config}
    (hrun : Runs.run system.step (Config.start mdl tx rx) ls = some c) :
    c.state.owned.published.Sublist c.state.enqueued ∧ c.state.enqueued.Nodup := by
  have hinv := TxInv.of_run hrun
  have : Std.Antisymm fun a b : Message ↦ a.serial < b.serial :=
    ⟨fun _ _ hab hba ↦ absurd hba hab.not_gt⟩
  have hnodup : ∀ {l : List Message}, (l.Pairwise fun a b ↦ a.serial < b.serial) → l.Nodup :=
    fun hl ↦ hl.imp fun hlt heq ↦ hlt.ne (congrArg Message.serial heq)
  refine ⟨?_, hnodup hinv.enqueued_sorted⟩
  exact List.sublist_of_subperm_of_pairwise
    (List.subperm_of_subset (hnodup hinv.sorted) hinv.published) hinv.sorted hinv.enqueued_sorted

/-! ### Schedules -/

def produce (n : ℕ) : List (Label Outcome Event) :=
  (List.replicate n
    [.env (.lockTxbuf 0), .env (.queueTxbuf 0 default), .env (.unlockTxbuf 0)]).flatten

/-- The device connects, `n` messages are queued, and the thread peeks at the
oldest one and unlocks. -/
def untilPeeked (n : ℕ) : List (Label Outcome Event) :=
  steps 11 ++ .env (.mqttSendSmCmd cmdSmReady) :: steps 25 ++ produce n ++ steps 11 ++ steps 14

theorem published_sublist_once : ∃ c : Config,
    Runs.run system.step Config.local (untilPeeked 1 ++ steps 10 ++ produce 1) = some c ∧
      c.state.owned.published = [⟨0, default⟩] ∧ c.state.enqueued.length = 2 ∧
      c.state.owned.published.Sublist c.state.enqueued ∧ c.state.enqueued.Nodup := by
  obtain ⟨c, hrun, hpublished, henqueued⟩ : ∃ c : Config,
      Runs.run system.step Config.local (untilPeeked 1 ++ steps 10 ++ produce 1) = some c ∧
      c.state.owned.published = [⟨0, default⟩] ∧ c.state.enqueued.length = 2 :=
    ⟨_, rfl, rfl, rfl⟩
  exact ⟨c, hrun, hpublished, henqueued, published_sublist_of_run hrun⟩

/-! ## No message lost -/

/-- What has left the buffer was published or evicted, and what was dequeued
was published. -/
def LossFree (w : World) : Prop :=
  (∀ m ∈ w.enqueued, m ∉ w.held → m ∈ w.owned.published ∨ m ∈ w.evicted) ∧
    DequeuesPublished w

theorem TxInv.lossFree_iff {w : World} (h : TxInv w) : LossFree w ↔ DequeuesPublished w := by
  refine ⟨And.right, fun hdequeues ↦ ⟨fun m hm hnot ↦ ?_, hdequeues⟩⟩
  rcases h.left m hm with hheld | hdequeued | hevicted
  · exact absurd hheld hnot
  · exact .inl (hdequeues m hdequeued)
  · exact .inr hevicted

/-- No message is lost in a run exactly when every dequeue of the run comes
without an eviction since its peek. -/
theorem lossFree_iff_noEvictionSincePeek {mdl : Settings} {tx : RingBuffer Message}
    {rx : RingBuffer Element} {ls : List (Label Outcome Event)} {c : Config}
    (hrun : Runs.run system.step (Config.start mdl tx rx) ls = some c) :
    LossFree c.state ↔ Runs.Always system.step
      (Outline.Allowed NoEvictionSincePeek fun _ _ ↦ True) (Config.start mdl tx rx) ls := by
  have hiff := (outline env_owned).run_iff_always (c := Config.start mdl tx rx)
    (P := DequeuesPublished) (G := NoEvictionSincePeek) (E := fun _ _ ↦ True)
    (fun _ _ _ _ _ hpre h hexec ↦ TxInv.exec h hpre hexec)
    (fun _ _ _ h hstep ↦ TxInv.env h hstep)
    (boundary_start mdl tx rx) (TxInv.start mdl tx rx) hrun
  rw [(TxInv.of_run hrun).lossFree_iff, hiff]
  exact and_iff_right fun _ hm ↦ absurd hm List.not_mem_nil

theorem lossFree_once : ∃ c : Config,
    Runs.run system.step Config.local (untilPeeked 1 ++ produce 1 ++ steps 9) = some c ∧
      c.state.owned.dequeued = [⟨0, default⟩] ∧ LossFree c.state := by
  obtain ⟨c, hrun, hdequeued⟩ : ∃ c : Config,
      Runs.run system.step Config.local (untilPeeked 1 ++ produce 1 ++ steps 9) = some c ∧
      c.state.owned.dequeued = [⟨0, default⟩] := ⟨_, rfl, rfl⟩
  exact ⟨c, hrun, hdequeued, (lossFree_iff_noEvictionSincePeek hrun).mpr (by decide +kernel)⟩

/-- A message is queued into the full buffer while the oldest one is being
published: the dequeue takes out the second oldest, which nobody has
published. -/
theorem not_lossFree_full : ∃ (ls : List (Label Outcome Event)) (c : Config),
    Runs.run system.step Config.local ls = some c ∧ ¬ LossFree c.state := by
  have hserials : (Runs.run system.step Config.local
      (untilPeeked 255 ++ produce 1 ++ steps 9)).map (fun c ↦
        (c.state.owned.dequeued.map Message.serial,
          c.state.owned.published.map Message.serial)) = some ([1], [0]) := by
    decide +kernel
  obtain ⟨c, hrun, hserials⟩ := Option.map_eq_some_iff.mp hserials
  obtain ⟨hdequeued, hpublished⟩ := Prod.mk.inj hserials
  refine ⟨_, c, hrun, fun h ↦ ?_⟩
  obtain ⟨m, hm, hserial⟩ := List.mem_map.mp (hdequeued ▸ List.mem_singleton_self 1)
  have hmem := List.mem_map_of_mem (f := Message.serial) (h.2 m hm)
  simp [hpublished, hserial] at hmem

end Mqtt
