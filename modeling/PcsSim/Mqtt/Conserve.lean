import PcsSim.Lib.Stock
import PcsSim.Mqtt.Spool
import PcsSim.Mqtt.TxBuffer

/-!
# What spooling keeps

Both threads take the oldest message out of the buffer some time after they
have looked at it, and nothing keeps the other one or a producer from taking
it in between.
-/

namespace Mqtt

open Threads

/-! ## The outline of the spooling thread -/

def spoolPre : SpoolOp → SpoolPhase → Prop
  | .mqttCacheWriteOnePayload _, k | .mqttCacheGetPayloadNb, k | .mqttCacheFreeMemory, k =>
      k = .idle
  | .mqttDequeueTxbuf, k => ∃ m, k = .written m
  | .mqttCacheReadOnePayload, k => k = .counted
  | .mqttQueueTxbuf row, k => k = .read row
  | .mqttCacheDeleteOnePayload rowid, k =>
      ∃ row, k = .putBack row ∧ rowid = cacheItemIdx row
  | _, _ => True

def spoolPost : (op : SpoolOp) → SpoolPhase → (op.Reply → SpoolPhase → Prop) → Prop
  | .getHandle, k, P => ∀ handle, P handle k
  | .getTxbufUsage, k, P => ∀ usage, P usage k
  | .mqttCacheGetMemorySize, k, P => ∀ size, P size k
  | .mqttCacheWriteOnePayload e, k, P => ∀ rc, P rc (if rc = 0 then .written e else k)
  | .mqttCacheGetPayloadNb, k, P =>
      ∀ rc nb, P (rc, nb) (if nb > 0 ∧ rc = 0 then .counted else k)
  | .mqttCacheReadOnePayload, _, P => ∀ row, P row (.read row)
  | .mqttCacheDeleteOnePayload _, _, P => P () .idle
  | .mqttCacheFreeMemory, k, P | .resetCount, k, P => P () k
  | .incCount, k, P => ∀ count, P count k
  | .mqttLockTxbuf, k, P | .mqttUnlockTxbuf, k, P => P () k
  | .mqttPeekTxbuf, k, P => ∀ rc data, P (rc, data) k
  | .mqttDequeueTxbuf, _, P => ∀ rc data, P (rc, data) .idle
  | .mqttQueueTxbuf row, _, P => P () (.putBack row)

def spoolRule : Rule SpoolOp SpoolOp.Reply SpoolPhase := ⟨spoolPre, spoolPost⟩

theorem spoolRule_sound (op : SpoolOp) (i : SpoolOutcome) (s : Depot) (r : op.Reply) (s' : Depot)
    (P : op.Reply → SpoolPhase → Prop) (hpost : spoolRule.post op s.phase P)
    (hexec : spoolExec op i s = some (r, s')) : P r s'.phase := by
  cases op with
  | mqttCacheWriteOnePayload e =>
      obtain ⟨rfl, rfl⟩ := by simpa only [spoolExec, Option.some.injEq] using hexec
      have h := hpost i.rc
      by_cases hrc : i.rc = 0
      · simpa only [if_pos hrc] using h
      · simpa only [if_neg hrc] using h
  | mqttCacheGetPayloadNb =>
      obtain ⟨rfl, rfl⟩ := by simpa only [spoolExec, Option.some.injEq] using hexec
      have h := hpost i.rc (s.payloadNb i.rc)
      by_cases hnb : s.payloadNb i.rc > 0 ∧ i.rc = 0
      · simpa only [if_pos hnb] using h
      · simpa only [if_neg hnb] using h
  | mqttCacheFreeMemory =>
      obtain ⟨rfl, rfl⟩ := by simpa only [spoolExec, Option.some.injEq] using hexec
      split <;> exact hpost
  | mqttLockTxbuf =>
      obtain ⟨-, rfl, rfl⟩ := by
        simpa only [spoolExec, Option.ite_none_right_eq_some, Option.some.injEq] using hexec
      exact hpost
  | _ =>
      obtain ⟨rfl, rfl⟩ := by simpa only [spoolExec, Option.some.injEq] using hexec
      first
        | exact hpost
        | exact hpost _
        | exact hpost _ _

theorem wp_spool {α : Type} (op : SpoolOp) (next : op.Reply → SpoolCode α)
    (P : α → SpoolPhase → Prop) (k : SpoolPhase) : wp spoolRule (.call op next) P k ↔
      spoolPre op k ∧ spoolPost op k fun r k ↦ wp spoolRule (next r) P k := Iff.rfl

theorem wp_mqttSpill : wp spoolRule mqttSpill (fun _ k ↦ k = .idle) .idle := by
  simp only [mqttSpill, Code.perform, Code.call_bind, Code.done_bind, wp_spool, spoolPre,
    spoolPost, true_and]
  intro size
  split_ifs
  · simp only [wp_spool, spoolPre, spoolPost, true_and]
    intro rc data
    split_ifs
    · simp only [wp_spool, spoolPre, spoolPost, true_and]
      intro rc
      split_ifs with hrc
      · simp only [wp_spool, spoolPre, spoolPost, true_and]
        exact ⟨⟨_, rfl⟩, fun _ _ ↦ rfl⟩
      · rfl
    · rfl
  · rfl

theorem wp_mqttRefill : wp spoolRule mqttRefill (fun _ k ↦ k = .idle) .idle := by
  simp only [mqttRefill, Code.perform, Code.call_bind, Code.done_bind, wp_spool, spoolPre,
    spoolPost, true_and]
  intro rc nb
  split_ifs with hnb
  · simp only [wp_spool, spoolPre, spoolPost, true_and]
    intro row
    refine ⟨⟨row, rfl, rfl⟩, fun count ↦ ?_⟩
    split_ifs
    · simp only [wp_spool, spoolPre, spoolPost, true_and]
      rfl
    · rfl
  · rfl

theorem wp_mqttDealWithCache : wp spoolRule mqttDealWithCache (fun _ k ↦ k = .idle) .idle := by
  simp only [mqttDealWithCache, Code.perform, Code.call_bind, Code.done_bind, wp_spool, spoolPre,
    spoolPost, true_and]
  intro handle
  split_ifs
  · simp only [wp_spool, spoolPre, spoolPost, true_and]
    intro usage
    split_ifs
    · exact wp_mqttSpill
    · simp only [wp_spool, spoolPre, spoolPost, true_and]
      intro usage
      split_ifs
      · exact wp_mqttRefill
      · rfl
  · rfl

theorem spoolOutline : Outline spoolThread Depot.phase spoolRule (· = .idle) where
  env_own e := nomatch e
  sound := spoolRule_sound
  body _ hk := hk ▸ wp_mqttDealWithCache

theorem smOutline : Outline smThread (fun s ↦ s.world.owned) rule Owned.Boundary where
  env_own e s t h := by
    simp only [smThread, Option.ite_none_left_eq_some, Option.map_eq_some_iff] at h
    obtain ⟨-, w, hw, rfl⟩ := h
    exact env_owned e _ w hw
  sound op i s r t P hpost hexec := by
    obtain ⟨⟨r', w⟩, hw, heq⟩ := Option.map_eq_some_iff.mp hexec
    obtain ⟨rfl, rfl⟩ := Prod.mk.inj heq
    exact rule_sound op i _ r' w P hpost hw
  body _ hk := wp_mqttSm hk

theorem owned_spoolExec {op : SpoolOp} {i : SpoolOutcome} {s s' : Depot} {r : op.Reply}
    (hexec : spoolExec op i s = some (r, s')) : s'.world.owned = s.world.owned := by
  cases op with
  | mqttCacheWriteOnePayload | mqttCacheGetPayloadNb | mqttCacheFreeMemory =>
      obtain ⟨rfl, rfl⟩ := by simpa only [spoolExec, Option.some.injEq] using hexec
      split <;> rfl
  | mqttLockTxbuf =>
      obtain ⟨-, rfl, rfl⟩ := by
        simpa only [spoolExec, Option.ite_none_right_eq_some, Option.some.injEq] using hexec
      rfl
  | mqttQueueTxbuf row =>
      obtain ⟨rfl, rfl⟩ := by simpa only [spoolExec, Option.some.injEq] using hexec
      cases row <;> rfl
  | _ =>
      obtain ⟨rfl, rfl⟩ := by simpa only [spoolExec, Option.some.injEq] using hexec
      rfl

/-! ## The messages as a stock -/

def Phase.delivering : Phase → Option ℕ
  | .published m => some m.serial
  | _ => none

def SpoolPhase.storing : SpoolPhase → Option ℕ
  | .written m => some m.serial
  | _ => none

def SpoolPhase.restoring : SpoolPhase → Option ℕ
  | .putBack row => row.map Row.serial
  | _ => none

/-- The messages by their numbers. -/
def Depot.stock (s : Depot) : Stock ℕ where
  entered := s.world.enqueued.map Message.serial
  queue := s.world.held.map Message.serial
  store := s.table.rows.map Row.serial
  delivered := s.world.owned.published.map Message.serial
  dropped := s.world.evicted.map Message.serial
  delivering := s.world.owned.phase.delivering
  storing := s.phase.storing
  restoring := s.phase.restoring

/-- Every message that was queued is in the buffer, in the table, published or
evicted by a producer, no message is published and in the table, and no row
that was put back has evicted a message. -/
structure Depot.Conserved (s : Depot) : Prop where
  stock : s.stock.Conserved
  refills : s.refillEvicted = []

/-- The message that is published or taken out is still the oldest of the
buffer, and the other thread is not moving it. -/
def SmInTime : Op → Depot → Prop
  | .mqttPubReturned m ret, s => ret = 0 → s.stock.queue.head? = some m.serial ∧
      s.stock.storing ≠ some m.serial ∧ s.stock.restoring ≠ some m.serial
  | .mqttDequeueTxbuf, s => s.stock.queue.head? = s.stock.delivering
  | _, _ => True

/-- The message that is written or taken out is still the oldest of the buffer,
the other thread has not just published it, its texts have no quotes, and a row
is put back where there is room and its id is an `int`. -/
def SpoolInTime : SpoolOp → Depot → Prop
  | .mqttCacheWriteOnePayload e, s => MqttCache.NoQuotes e.element ∧
      s.stock.queue.head? = some e.serial ∧ s.stock.delivering ≠ some e.serial
  | .mqttDequeueTxbuf, s => s.stock.queue.head? = s.stock.storing
  | .mqttQueueTxbuf row, s => mqttRingbufferIsFull s.world.txbuf = 0 ∧
      ∀ first ∈ row, first.rowid < 2 ^ 31
  | _, _ => True

instance (op : Op) (s : Depot) : Decidable (SmInTime op s) := by
  cases op with
  | mqttPubReturned m ret =>
      exact decidable_of_iff (¬ret = 0 ∨ s.stock.queue.head? = some m.serial ∧
        s.stock.storing ≠ some m.serial ∧ s.stock.restoring ≠ some m.serial) imp_iff_not_or.symm
  | _ => unfold SmInTime; infer_instance

instance (op : SpoolOp) (s : Depot) : Decidable (SpoolInTime op s) := by
  cases op <;> unfold SpoolInTime <;> infer_instance

/-- Where the table has been found to have rows it still has them, and what was
read is the first of them. -/
def Depot.RowSeen (s : Depot) : Prop :=
  match s.phase with
  | .counted => s.table.rows ≠ []
  | .read row => ∃ first, row = some first ∧ s.table.rows.head? = some first
  | .putBack row => ∃ first, row = some first ∧ s.table.rows.head? = some first ∧
      first.rowid < 2 ^ 31
  | _ => True

structure SpoolInv (s : Depot) : Prop where
  inRange : s.world.txInRange
  serials : s.world.enqueued.map Message.serial = List.range s.world.enqueued.length
  stock : s.stock.Inv
  refills : s.refillEvicted = []
  rowSeen : s.RowSeen

namespace SpoolInv

variable {s s' : Depot} {w : World}

theorem conserved (h : SpoolInv s) : s.Conserved := ⟨h.stock.toConserved, h.refills⟩

theorem notMem_entered (h : SpoolInv s) : s.world.enqueued.length ∉ s.stock.entered := by
  change _ ∉ s.world.enqueued.map Message.serial
  simp [h.serials]

/-! ### The buffer -/

theorem stock_queue (h : SpoolInv s) (data : Element) :
    (s.setWorld (s.world.mqttQueueTxbuf data)).stock =
      s.stock.enter 255 s.world.enqueued.length := by
  have hqueue : (s.world.mqttQueueTxbuf data).held.map Message.serial =
      DropOldest.push 255 (s.world.held.map Message.serial) s.world.enqueued.length := by
    rw [World.held_queue h.inRange, DropOldest.map_push, World.stamp]
  have hdropped : (s.world.mqttQueueTxbuf data).evicted.map Message.serial =
      if (s.world.held.map Message.serial).length = 255 then
        s.world.evicted.map Message.serial ++ (s.world.held.map Message.serial).head?.toList
      else s.world.evicted.map Message.serial := by
    by_cases hfull : s.world.held.length = 255
    · obtain ⟨oldest, rest, hcons, -, hevicted, -⟩ := World.queue_of_full h.inRange hfull data
      rw [hevicted, List.length_map, if_pos hfull, hcons]
      simp
    · obtain ⟨-, hevicted, -⟩ := World.queue_of_room h.inRange hfull data
      rw [hevicted, List.length_map, if_neg hfull]
  simp only [Depot.stock, Depot.setWorld, Stock.enter, hqueue, hdropped, World.enqueued_queue,
    World.owned_queue, List.map_append, List.map_singleton, World.stamp]
  rfl

theorem mqttQueueTxbuf (h : SpoolInv s) (data : Element) :
    SpoolInv (s.setWorld (s.world.mqttQueueTxbuf data)) where
  inRange := World.txInRange_queue h.inRange data
  serials := by
    have hserials : (s.world.mqttQueueTxbuf data).enqueued.map Message.serial =
        List.range (s.world.mqttQueueTxbuf data).enqueued.length := by
      simp [h.serials, List.range_succ, World.stamp]
    exact hserials
  stock := by
    rw [h.stock_queue data]
    exact h.stock.enter h.notMem_entered 255
  refills := h.refills
  rowSeen := h.rowSeen

theorem held_dequeue (h : SpoolInv s) :
    (mqttRingbufferDequeue s.world.txbuf).1.InRange (2 ^ 8) ∧
      ((mqttRingbufferDequeue s.world.txbuf).1.contents (2 ^ 8)).map Message.serial =
        s.stock.queue.tail := by
  refine ⟨RingBuffer.InRange.dequeue (k := 8) h.inRange, ?_⟩
  have hcontents := (RingBuffer.dequeue_spec (k := 8) h.inRange).1
  exact (congrArg (List.map Message.serial) hcontents).trans List.map_tail

/-! ### The thread of `mqtt_sm` -/

theorem frame (h : SpoolInv s) (htxbuf : w.txbuf = s.world.txbuf)
    (henqueued : w.enqueued = s.world.enqueued) (hevicted : w.evicted = s.world.evicted)
    (hdelivering : w.owned.phase.delivering = s.world.owned.phase.delivering)
    (hpublished : w.owned.published = s.world.owned.published) : SpoolInv (s.setWorld w) := by
  have hheld : w.held = s.world.held := by rw [World.held, htxbuf, ← World.held]
  have hstock : (s.setWorld w).stock = s.stock := by
    simp only [Depot.stock, Depot.setWorld, hheld, henqueued, hevicted, hdelivering, hpublished]
  constructor
  case inRange => simpa only [World.txInRange, Depot.setWorld, htxbuf] using h.inRange
  case serials => simpa only [Depot.setWorld, henqueued] using h.serials
  case stock => simpa only [hstock] using h.stock
  case refills => exact h.refills
  case rowSeen => exact h.rowSeen

theorem pubReturned (h : SpoolInv s) {m : Message} {ret : ℤ}
    (hpeeked : s.world.owned.phase = .peeked m)
    (hhanded : ret = 0 → s.world.owned.handed = m.texts)
    (hok : SmInTime (.mqttPubReturned m ret) s) :
    SpoolInv (s.setWorld (s.world.setOwned (s.world.owned.afterPub m ret))) := by
  have hidle : s.stock.delivering = none := by
    change s.world.owned.phase.delivering = none
    rw [hpeeked]
    rfl
  by_cases hret : ret = 0
  · obtain ⟨hhead, hstoring, hrestoring⟩ := hok hret
    have hstock : (s.setWorld (s.world.setOwned (s.world.owned.afterPub m ret))).stock =
        s.stock.deliver m.serial := by
      rw [hret, Owned.afterPub_of_handed (hhanded hret)]
      simp only [Depot.stock, Depot.setWorld, World.setOwned, Stock.deliver, Phase.delivering,
        List.map_append, List.map_singleton]
      rfl
    refine ⟨h.inRange, h.serials, ?_, h.refills, h.rowSeen⟩
    rw [hstock]
    exact h.stock.deliver hidle hhead hstoring hrestoring
  · rw [Owned.afterPub_of_ne_zero hret]
    exact h.frame rfl rfl rfl hidle.symm rfl

theorem dequeue (h : SpoolInv s) {m : Message} (hphase : s.world.owned.phase = .published m)
    (hok : SmInTime .mqttDequeueTxbuf s) (data : Option Message) :
    SpoolInv (s.setWorld { s.world.setOwned (s.world.owned.afterDequeue data) with
      txbuf := (mqttRingbufferDequeue s.world.txbuf).1 }) := by
  have hdelivering : s.stock.delivering = some m.serial := by
    change s.world.owned.phase.delivering = _
    rw [hphase]
    rfl
  obtain ⟨rest, hcons⟩ := List.head?_eq_some_iff.mp (hok.trans hdelivering)
  obtain ⟨hinRange, hqueue⟩ := h.held_dequeue
  refine ⟨hinRange, h.serials, ?_, h.refills, h.rowSeen⟩
  have hstock := h.stock.removeDelivered hdelivering hcons
  rw [Stock.removeDelivered, ← hqueue] at hstock
  exact hstock

theorem sm_exec (h : SpoolInv s) {op : Op} {i : Outcome} {r : op.Reply} (hok : SmInTime op s)
    (hpre : rulePre op s.world.owned) (hexec : exec op i s.world = some (r, w)) :
    SpoolInv (s.setWorld w) := by
  cases op with
  | mqttPeekTxbuf =>
      obtain ⟨rfl, rfl⟩ := by simpa only [exec, Option.some.injEq] using hexec
      have hidle : s.world.owned.phase.delivering = none := by
        rw [show s.world.owned.phase = .idle from hpre]
        rfl
      refine h.frame rfl rfl rfl ?_ rfl
      rw [hidle]
      simp only [World.owned_setOwned, Owned.afterPeek]
      split <;> rfl
  | mqttPubReturned m ret =>
      obtain ⟨rfl, rfl⟩ := by simpa only [exec, Option.some.injEq] using hexec
      exact h.pubReturned hpre.1 hpre.2 hok
  | mqttDequeueTxbuf =>
      obtain ⟨m, hphase⟩ := hpre
      obtain ⟨rfl, rfl⟩ := by simpa only [exec, Option.some.injEq] using hexec
      exact h.dequeue hphase hok _
  | clientCreate uri id =>
      obtain ⟨rfl, rfl⟩ := by simpa only [exec, Option.some.injEq] using hexec
      unfold Owned.clientCreate
      split <;> exact h.frame rfl rfl rfl rfl rfl
  | clientConnect =>
      obtain ⟨c, -, rfl, rfl⟩ := by simpa only [exec, Option.map_eq_some_iff] using hexec
      unfold Owned.clientConnect
      split <;> exact h.frame rfl rfl rfl rfl rfl
  | clientSubscribe topic qos =>
      obtain ⟨c, -, rfl, rfl⟩ := by simpa only [exec, Option.map_eq_some_iff] using hexec
      unfold Owned.clientSubscribe
      split <;> exact h.frame rfl rfl rfl rfl rfl
  | publishMessage =>
      obtain ⟨c, -, rfl, rfl⟩ := by simpa only [exec, Option.map_eq_some_iff] using hexec
      exact h.frame rfl rfl rfl rfl rfl
  | uuid4 | sprintf | mqttLockTxbuf =>
      obtain ⟨-, rfl, rfl⟩ := by
        simpa only [exec, Option.ite_none_right_eq_some, Option.some.injEq] using hexec
      exact h.frame rfl rfl rfl rfl rfl
  | _ =>
      obtain ⟨rfl, rfl⟩ := by simpa only [exec, Option.some.injEq] using hexec
      exact h.frame rfl rfl rfl rfl rfl

theorem env (h : SpoolInv s) {e : Event} (hstep : env e s.world = some w) :
    SpoolInv (s.setWorld w) := by
  cases e with
  | queueTxbuf i data =>
      obtain ⟨-, rfl⟩ := by
        simpa only [Mqtt.env, Option.ite_none_right_eq_some, Option.some.injEq] using hstep
      exact h.mqttQueueTxbuf data
  | lockTxbuf | unlockTxbuf | mqttConnlost =>
      obtain ⟨-, rfl⟩ := by
        simpa only [Mqtt.env, Option.ite_none_right_eq_some, Option.some.injEq] using hstep
      exact h.frame rfl rfl rfl rfl rfl
  | _ =>
      obtain rfl := by simpa only [Mqtt.env, Option.some.injEq] using hstep
      exact h.frame rfl rfl rfl rfl rfl

/-! ### The thread of the data base -/

theorem write (h : SpoolInv s) {e : Message} (hphase : s.phase = .idle)
    (hok : SpoolInTime (.mqttCacheWriteOnePayload e) s) (otherwise : Table) :
    SpoolInv { s with table := s.table.write e otherwise, phase := .written e } := by
  obtain ⟨hquotes, hhead, hdelivering⟩ := hok
  rw [Table.write_of_noQuotes hquotes]
  have hstoring : s.stock.storing = none := congrArg SpoolPhase.storing hphase
  have hrestoring : s.stock.restoring = none := congrArg SpoolPhase.restoring hphase
  refine ⟨h.inRange, h.serials, ?_, h.refills, trivial⟩
  have hstock := h.stock.save hstoring hrestoring hhead hdelivering
  have heq : Depot.stock { s with table := s.table.insert e, phase := .written e } =
      s.stock.save e.serial := by
    simp only [Depot.stock, Table.insert, Stock.save, SpoolPhase.storing, SpoolPhase.restoring,
      hphase, List.map_append, List.map_singleton]
  rwa [heq]

theorem removeWritten (h : SpoolInv s) {m : Message} (hphase : s.phase = .written m)
    (hok : SpoolInTime .mqttDequeueTxbuf s) :
    SpoolInv { s with
      world := { s.world with txbuf := (mqttRingbufferDequeue s.world.txbuf).1 }
      phase := .idle } := by
  have hstoring : s.stock.storing = some m.serial := congrArg SpoolPhase.storing hphase
  have hrestoring : s.stock.restoring = none := congrArg SpoolPhase.restoring hphase
  obtain ⟨rest, hcons⟩ := List.head?_eq_some_iff.mp (hok.trans hstoring)
  obtain ⟨hinRange, hqueue⟩ := h.held_dequeue
  refine ⟨hinRange, h.serials, ?_, h.refills, trivial⟩
  have hstock := h.stock.removeStored hstoring hrestoring hcons
  have heq : Depot.stock { s with
      world := { s.world with txbuf := (mqttRingbufferDequeue s.world.txbuf).1 }
      phase := .idle } = s.stock.removeStored := by
    rw [Stock.removeStored, ← hqueue]
    simp only [Depot.stock, World.held, SpoolPhase.storing, SpoolPhase.restoring, hphase]
  rwa [heq]

theorem count (h : SpoolInv s) (hphase : s.phase = .idle) (hnb : s.table.rows ≠ []) :
    SpoolInv { s with phase := .counted } := by
  refine ⟨h.inRange, h.serials, ?_, h.refills, hnb⟩
  have heq : Depot.stock { s with phase := .counted } = s.stock := by
    simp only [Depot.stock, SpoolPhase.storing, SpoolPhase.restoring, hphase]
  rw [heq]
  exact h.stock

theorem read (h : SpoolInv s) (hphase : s.phase = .counted) :
    SpoolInv { s with phase := .read s.table.rows.head? } := by
  have hne : s.table.rows ≠ [] := by
    have hseen := h.rowSeen
    rwa [Depot.RowSeen, hphase] at hseen
  obtain ⟨first, rest, hcons⟩ := List.exists_cons_of_ne_nil hne
  have hhead : s.table.rows.head? = some first := by rw [hcons, List.head?_cons]
  refine ⟨h.inRange, h.serials, ?_, h.refills, first, hhead, hhead⟩
  have heq : Depot.stock { s with phase := .read s.table.rows.head? } = s.stock := by
    simp only [Depot.stock, SpoolPhase.storing, SpoolPhase.restoring, hphase]
  rw [heq]
  exact h.stock

theorem putBack (h : SpoolInv s) {row : Option Row} (hphase : s.phase = .read row)
    (hok : SpoolInTime (.mqttQueueTxbuf row) s) :
    SpoolInv { s.queue row with phase := .putBack row } := by
  obtain ⟨first, rfl, hhead⟩ : ∃ first, row = some first ∧ s.table.rows.head? = some first := by
    have hseen := h.rowSeen
    rwa [Depot.RowSeen, hphase] at hseen
  obtain ⟨hroom, hidx⟩ := hok
  have hstoring : s.stock.storing = none := congrArg SpoolPhase.storing hphase
  have hrestoring : s.stock.restoring = none := congrArg SpoolPhase.restoring hphase
  have hlength : s.world.held.length ≠ 255 :=
    mt (World.isFull_iff s.world.txbuf).mpr (not_not_intro hroom)
  have hheld : (s.world.requeue first).held = s.world.held ++ [first.message] := by
    have hpush : (s.world.requeue first).held = DropOldest.push 255 s.world.held first.message :=
      RingBuffer.contents_queue (k := 8) (by decide) h.inRange first.message
    rw [hpush, DropOldest.push, if_neg hlength]
  constructor
  case inRange => exact RingBuffer.InRange.queue (k := 8) h.inRange first.message
  case serials => exact h.serials
  case stock =>
    have hstore : s.stock.store.head? = some first.serial := by
      change (s.table.rows.map Row.serial).head? = _
      rw [List.head?_map, hhead]
      rfl
    have hstock := h.stock.restore hstoring hrestoring hstore
    have heq : Depot.stock { s.queue (some first) with phase := .putBack (some first) } =
        s.stock.restore first.serial := by
      simp only [Depot.stock, Depot.queue, hheld, Stock.restore, SpoolPhase.storing,
        SpoolPhase.restoring, hphase, List.map_append, List.map_singleton, Option.map_some]
      rfl
    rwa [heq]
  case refills =>
    simp only [Depot.queue, if_neg (not_not_intro hroom)]
    exact h.refills
  case rowSeen => exact ⟨first, rfl, hhead, hidx first rfl⟩

theorem delete (h : SpoolInv s) {row : Option Row} (hphase : s.phase = .putBack row) :
    SpoolInv { s with table := s.table.delete (cacheItemIdx row), phase := .idle } := by
  obtain ⟨first, rfl, hhead, hidx⟩ : ∃ first, row = some first ∧
      s.table.rows.head? = some first ∧ first.rowid < 2 ^ 31 := by
    have hseen := h.rowSeen
    rwa [Depot.RowSeen, hphase] at hseen
  obtain ⟨rest, hcons⟩ := List.head?_eq_some_iff.mp hhead
  have hpositive := s.table.positive first (hcons ▸ List.mem_cons_self)
  have hdelete : (s.table.delete (cacheItemIdx (some first))).rows = rest := by
    rw [cacheItemIdx_some hpositive hidx]
    exact Table.delete_of_cons hcons
  have hstoring : s.stock.storing = none := congrArg SpoolPhase.storing hphase
  have hrestoring : s.stock.restoring = some first.serial := congrArg SpoolPhase.restoring hphase
  have hstore : s.stock.store = first.serial :: rest.map Row.serial := by
    change s.table.rows.map Row.serial = _
    rw [hcons, List.map_cons]
  refine ⟨h.inRange, h.serials, ?_, h.refills, trivial⟩
  have hstock := h.stock.forget hstoring hrestoring hstore
  have heq : Depot.stock { s with
      table := s.table.delete (cacheItemIdx (some first)), phase := .idle } = s.stock.forget := by
    simp only [Stock.forget, hstore, List.tail_cons]
    simp only [Depot.stock, hdelete, SpoolPhase.storing, SpoolPhase.restoring, hphase]
  rwa [heq]

theorem vacuum (h : SpoolInv s) (hphase : s.phase = .idle) :
    SpoolInv { s with table := s.table.vacuum } := by
  refine ⟨h.inRange, h.serials, ?_, h.refills, ?_⟩
  · have heq : Depot.stock { s with table := s.table.vacuum } = s.stock := by
      simp only [Depot.stock, Table.serials_vacuum]
    rw [heq]
    exact h.stock
  · rw [Depot.RowSeen, hphase]
    trivial

theorem spool_exec (h : SpoolInv s) {op : SpoolOp} {i : SpoolOutcome} {r : op.Reply}
    (hrc : i.rc = 0) (hok : SpoolInTime op s) (hpre : spoolPre op s.phase)
    (hexec : spoolExec op i s = some (r, s')) : SpoolInv s' := by
  cases op with
  | mqttCacheWriteOnePayload e =>
      obtain ⟨rfl, rfl⟩ := by simpa only [spoolExec, Option.some.injEq] using hexec
      rw [if_pos hrc]
      exact h.write hpre hok i.otherwise
  | mqttCacheGetPayloadNb =>
      obtain ⟨rfl, rfl⟩ := by simpa only [spoolExec, Option.some.injEq] using hexec
      split
      next hnb =>
        refine h.count hpre fun hnil ↦ ?_
        simp [Depot.payloadNb, hnil, hrc, toInt] at hnb
      next => exact h
  | mqttCacheReadOnePayload =>
      obtain ⟨rfl, rfl⟩ := by simpa only [spoolExec, Option.some.injEq] using hexec
      simp only [if_pos hrc]
      exact h.read hpre
  | mqttCacheDeleteOnePayload rowid =>
      obtain ⟨row, hphase, rfl⟩ := hpre
      obtain ⟨rfl, rfl⟩ := by simpa only [spoolExec, Option.some.injEq] using hexec
      simp only [if_pos hrc]
      exact h.delete hphase
  | mqttCacheFreeMemory =>
      obtain ⟨rfl, rfl⟩ := by simpa only [spoolExec, Option.some.injEq] using hexec
      rw [if_pos hrc]
      exact h.vacuum hpre
  | mqttLockTxbuf =>
      obtain ⟨-, rfl, rfl⟩ := by
        simpa only [spoolExec, Option.ite_none_right_eq_some, Option.some.injEq] using hexec
      exact h.frame rfl rfl rfl rfl rfl
  | mqttUnlockTxbuf =>
      obtain ⟨rfl, rfl⟩ := by simpa only [spoolExec, Option.some.injEq] using hexec
      exact h.frame rfl rfl rfl rfl rfl
  | mqttDequeueTxbuf =>
      obtain ⟨m, hphase⟩ := hpre
      obtain ⟨rfl, rfl⟩ := by simpa only [spoolExec, Option.some.injEq] using hexec
      exact h.removeWritten hphase hok
  | mqttQueueTxbuf row =>
      obtain ⟨rfl, rfl⟩ := by simpa only [spoolExec, Option.some.injEq] using hexec
      exact h.putBack hpre hok
  | incCount | resetCount =>
      obtain ⟨rfl, rfl⟩ := by simpa only [spoolExec, Option.some.injEq] using hexec
      exact ⟨h.inRange, h.serials, h.stock, h.refills, h.rowSeen⟩
  | getHandle | getTxbufUsage | mqttCacheGetMemorySize | mqttPeekTxbuf =>
      obtain ⟨rfl, rfl⟩ := by simpa only [spoolExec, Option.some.injEq] using hexec
      exact h

theorem start (mdl : Settings) (tx : RingBuffer Message) (rx : RingBuffer Element)
    (handle : Bool) (table : Table) : SpoolInv (.start mdl tx rx handle table) := by
  have hheld : (Depot.start mdl tx rx handle table).world.held = [] :=
    RingBuffer.contents_init (k := 8) tx
  have hentered : (table.stamp.rows.map Row.message).map Message.serial =
      table.stamp.rows.map Row.serial := by
    rw [List.map_map]
    rfl
  have hstore := Table.serials_stamp table
  constructor
  case inRange => exact RingBuffer.inRange_init (k := 8) tx
  case serials =>
    change (table.stamp.rows.map Row.message).map Message.serial =
      List.range (table.stamp.rows.map Row.message).length
    rw [hentered, hstore]
    simp [Table.stamp]
  case stock =>
    have heq : (Depot.start mdl tx rx handle table).stock =
        ⟨table.stamp.rows.map Row.serial, [], table.stamp.rows.map Row.serial, [], [],
          none, none, none⟩ := by
      simp only [Depot.stock, hheld]
      simp only [Depot.start, hentered]
      rfl
    rw [heq]
    exact .stored (hstore ▸ List.nodup_range)
  case refills => rfl
  case rowSeen => trivial

end SpoolInv

/-! ## Runs -/

/-- The call of the data base succeeds, where the step is one. -/
def DatabaseSucceeds : Label Outcome (SpoolOutcome ⊕ Event) → Prop
  | .env (.inl i) => i.rc = 0
  | _ => True

instance (l : Label Outcome (SpoolOutcome ⊕ Event)) : Decidable (DatabaseSucceeds l) := by
  rcases l with _ | _ | _ <;> unfold DatabaseSucceeds <;> infer_instance

/-- Both threads act in time. -/
abbrev InTime : SpoolConfig → Label Outcome (SpoolOutcome ⊕ Event) → Prop :=
  Outline.Allowed (fun op c ↦ SmInTime op c.state)
    (Outline.AllowedBeside (fun op _ s ↦ SpoolInTime op s) fun _ _ ↦ True)

theorem conserved_of_inTime {mdl : Settings} {tx : RingBuffer Message} {rx : RingBuffer Element}
    {handle : Bool} {table : Table} {ls : List (Label Outcome (SpoolOutcome ⊕ Event))}
    {c : SpoolConfig} (hdatabase : ∀ l ∈ ls, DatabaseSucceeds l)
    (hok : Runs.Always spoolSystem.step InTime (SpoolConfig.start mdl tx rx handle table) ls)
    (hrun : Runs.run spoolSystem.step (SpoolConfig.start mdl tx rx handle table) ls = some c) :
    c.state.state.Conserved := by
  have hallowed : Runs.Always spoolSystem.step (Outline.Allowed (fun op c ↦ SmInTime op c.state)
      (Outline.AllowedBeside (fun op i s ↦ i.rc = 0 ∧ SpoolInTime op s) fun _ _ ↦ True))
      (SpoolConfig.start mdl tx rx handle table) ls := by
    refine hok.mono_of_forall ?_ hdatabase
    rintro ⟨code, code₂, s⟩ (i | i | e) hstep hrc
    · cases code <;> exact hstep
    · cases code <;> cases code₂ <;> first | exact ⟨hrc, hstep⟩ | trivial
    · cases code <;> trivial
  refine SpoolInv.conserved (smOutline.beside_run_invariant (I := SpoolInv) spoolOutline
    ?_ ?_ ?_ ?_ ?_ ?_ hallowed (boundary_start mdl tx rx) rfl
    (SpoolInv.start mdl tx rx handle table) hrun)
  · intro op i s r t hexec
    exact owned_spoolExec hexec
  · intro op i s r t hexec
    obtain ⟨⟨r', w⟩, -, heq⟩ := Option.map_eq_some_iff.mp hexec
    obtain ⟨rfl, rfl⟩ := Prod.mk.inj heq
    rfl
  · intro e s t hstep
    simp only [smThread, Option.ite_none_left_eq_some, Option.map_eq_some_iff] at hstep
    obtain ⟨-, w, -, rfl⟩ := hstep
    rfl
  · intro op i s r t hintime hpre h hexec
    obtain ⟨⟨r', w⟩, hw, heq⟩ := Option.map_eq_some_iff.mp hexec
    obtain ⟨rfl, rfl⟩ := Prod.mk.inj heq
    exact h.sm_exec hintime hpre hw
  · intro op i s r t hintime hpre h hexec
    exact h.spool_exec hintime.1 hintime.2 hpre hexec
  · intro e s t _ h hstep
    simp only [smThread, Option.ite_none_left_eq_some, Option.map_eq_some_iff] at hstep
    obtain ⟨-, w, hw, rfl⟩ := hstep
    exact h.env hw

/-! ### Schedules -/

def SpoolConfig.local : SpoolConfig :=
  .start ⟨ascii "pcs", 1, ascii "127.0.0.1", 1883⟩ ⟨fun _ ↦ default, 0, 0⟩
    ⟨fun _ ↦ default, 0, 0⟩ true .empty

/-- `n` steps of the thread of the data base, whose file is small. -/
def spoolSteps (n : ℕ) : List (Label Outcome (SpoolOutcome ⊕ Event)) :=
  .replicate n (.env (.inl ⟨0, some 4096, some 2, .empty⟩))

/-- The device connects and 193 messages are queued, which is three quarters of
the buffer. -/
def untilFilled : List (Label Outcome (SpoolOutcome ⊕ Event)) :=
  steps 11 ++ .env (.inr (.mqttSendSmCmd cmdSmReady)) :: steps 25 ++
    (List.replicate 193 [.env (.inr (.lockTxbuf 1)), .env (.inr (.queueTxbuf 1 default)),
      .env (.inr (.unlockTxbuf 1))]).flatten ++ steps 11

/-- The thread of `mqtt_sm` publishes a message and removes it, and the next one
is moved to the table. -/
theorem conserved_apart : ∃ c : SpoolConfig,
    Runs.run spoolSystem.step SpoolConfig.local (untilFilled ++ steps 24 ++ spoolSteps 11) =
      some c ∧ c.state.state.stock.delivered = [0] ∧ c.state.state.stock.store = [1] ∧
      c.state.state.Conserved := by
  have hlists : (Runs.run spoolSystem.step SpoolConfig.local
      (untilFilled ++ steps 24 ++ spoolSteps 11)).map (fun c ↦
        (c.state.state.stock.delivered, c.state.state.stock.store)) = some ([0], [1]) := by
    decide +kernel
  obtain ⟨c, hrun, hlists⟩ := Option.map_eq_some_iff.mp hlists
  obtain ⟨hdelivered, hstore⟩ := Prod.mk.inj hlists
  refine ⟨c, hrun, hdelivered, hstore, conserved_of_inTime ?_ ?_ hrun⟩
  · decide +kernel
  · decide +kernel

/-- The message that the thread of `mqtt_sm` has peeked at is moved to the table
and then published, and the message after it is removed from the buffer. -/
theorem not_conserved_bothPeeked : ∃ (ls : List (Label Outcome (SpoolOutcome ⊕ Event)))
    (c : SpoolConfig), (∀ l ∈ ls, DatabaseSucceeds l) ∧
      Runs.run spoolSystem.step SpoolConfig.local ls = some c ∧ ¬ c.state.state.Conserved := by
  have hlists : (Runs.run spoolSystem.step SpoolConfig.local
      (untilFilled ++ steps 14 ++ spoolSteps 11 ++ steps 10)).map (fun c ↦
        (c.state.state.stock.delivered, c.state.state.stock.store)) = some ([0], [0]) := by
    decide +kernel
  obtain ⟨c, hrun, hlists⟩ := Option.map_eq_some_iff.mp hlists
  obtain ⟨hdelivered, hstore⟩ := Prod.mk.inj hlists
  refine ⟨_, c, by decide +kernel, hrun, fun h ↦ ?_⟩
  exact h.stock.apart 0 (hdelivered ▸ List.mem_singleton_self 0)
    (hstore ▸ List.mem_singleton_self 0)

end Mqtt
