import Mathlib.Data.Multiset.AddSub
import PcsSim.Mqtt.Spool
import PcsSim.Mqtt.TxBuffer

/-!
# One call of `mqtt_deal_with_cache`

The call is run with no other thread in between.  It moves the oldest message
of the buffer into the table, or the first row back, or does neither.
-/

namespace Mqtt

open Threads

/-- What the data base answers to the calls of one round: their return codes, the
true size of its file, which a query that fails does not report, and what it
leaves of the table where quotes make something else of an insert. -/
structure Database where
  pageSize : ℤ
  pageCount : ℤ
  pageSizeRc : ℤ
  pageCountRc : ℤ
  insertRc : ℤ
  countRc : ℤ
  selectRc : ℤ
  deleteRc : ℤ
  vacuumRc : ℤ
  otherwise : Table

namespace Database

def sizeOutcome (d : Database) : SpoolOutcome where
  rc := 0
  pageSize := if d.pageSizeRc = 0 then some d.pageSize else none
  pageCount := if d.pageCountRc = 0 then some d.pageCount else none
  otherwise := d.otherwise

def outcome (d : Database) : SpoolOp → SpoolOutcome
  | .mqttCacheGetMemorySize => d.sizeOutcome
  | .mqttCacheWriteOnePayload _ => ⟨d.insertRc, none, none, d.otherwise⟩
  | .mqttCacheGetPayloadNb => ⟨d.countRc, none, none, d.otherwise⟩
  | .mqttCacheReadOnePayload => ⟨d.selectRc, none, none, d.otherwise⟩
  | .mqttCacheDeleteOnePayload _ => ⟨d.deleteRc, none, none, d.otherwise⟩
  | .mqttCacheFreeMemory => ⟨d.vacuumRc, none, none, d.otherwise⟩
  | _ => ⟨0, none, none, d.otherwise⟩

/-- `cache_memroy_size`, which starts at 0. -/
def cacheMemorySize (d : Database) : ℤ :=
  (mqttCacheGetMemorySize d.sizeOutcome.pageSize d.sizeOutcome.pageCount).2.getD 0

end Database

/-- What the data base keeps of a message. -/
def Row.texts (row : Row) : Bytes × Bytes := (row.sztopic, row.szpayload)

namespace Table

def texts (t : Table) : List (Bytes × Bytes) := t.rows.map Row.texts

theorem texts_insert (t : Table) (m : Message) : (t.insert m).texts = t.texts ++ [m.texts] := by
  rw [texts, insert, List.map_append]
  rfl

theorem texts_vacuum (t : Table) : t.vacuum.texts = t.texts := by
  apply List.ext_getElem <;> simp [texts, vacuum, Row.texts]

end Table

namespace Depot

variable {d : Database} {s t : Depot}

/-- A call does not get by a mutex that is held. -/
def dealWithCache (d : Database) (s : Depot) : Option Depot :=
  (mqttDealWithCache.eval spoolExec d.outcome s).map Prod.snd

/-- The call is a run of the thread. -/
theorem run_of_dealWithCache (h : s.dealWithCache d = some t) :
    ∃ is : List SpoolOutcome,
      Runs.run spoolThread.step ⟨mqttDealWithCache, s⟩ (is.map .own) = some ⟨.done (), t⟩ := by
  obtain ⟨⟨⟨⟩, t'⟩, heval, rfl⟩ := Option.map_eq_some_iff.mp h
  exact System.run_of_eval heval

structure Spills (s : Depot) : Prop where
  handle : s.handle = true
  usage : txBuffToCacheUsage < s.world.owned.dev.txbufUsage

structure Refills (s : Depot) : Prop where
  handle : s.handle = true
  usage : s.world.owned.dev.txbufUsage < cacheToTxBuffUsage

theorem Refills.not_spills (h : s.Refills) : ¬s.Spills := by
  intro hspills
  have hlt := hspills.usage.trans h.usage
  exact absurd hlt (by decide +kernel)

/-! ## The actions -/

section Actions

def hold (s : Depot) (holder : Option Holder) : Depot :=
  s.setWorld { s.world with txbufMutex := holder }

def seen (s : Depot) (phase : SpoolPhase) : Depot := { s with phase := phase }

def inserted (d : Database) (s : Depot) (e : Message) : Depot :=
  { s with table := s.table.write e d.otherwise, phase := .written e }

def dequeued (s : Depot) : Depot :=
  { s with
    world := { s.world with txbuf := (mqttRingbufferDequeue s.world.txbuf).1 }
    phase := .idle }

/-- What the select stores, if it stores anything. -/
def selected (d : Database) (s : Depot) : Option Row :=
  if d.selectRc = 0 then s.table.rows.head? else none

def deleted (d : Database) (s : Depot) (rowid : ℤ) : Depot :=
  { s with table := if d.deleteRc = 0 then s.table.delete rowid else s.table, phase := .idle }

def setCount (s : Depot) (count : ℤ) : Depot := { s with count := count }

def vacuumed (d : Database) (s : Depot) : Depot :=
  if d.vacuumRc = 0 then { s with table := s.table.vacuum } else s

variable {holder : Option Holder} {i : SpoolOutcome}

@[simp] theorem txbuf_hold : (s.hold holder).world.txbuf = s.world.txbuf := rfl

theorem table_queue (row : Option Row) : (s.queue row).table = s.table := by
  cases row with
  | none => rfl
  | some row => rfl

theorem exec_lock (hfree : s.world.txbufMutex = none) :
    spoolExec .mqttLockTxbuf i s = some ((), s.hold (some (.producer 0))) := if_pos hfree

theorem exec_unlock : spoolExec .mqttUnlockTxbuf i s = some ((), s.hold none) := rfl

theorem exec_size : spoolExec .mqttCacheGetMemorySize (d.outcome .mqttCacheGetMemorySize) s =
    some (d.cacheMemorySize, s) := rfl

theorem exec_peek : spoolExec .mqttPeekTxbuf i s = some (mqttRingbufferPeek s.world.txbuf 0, s) :=
  rfl

theorem exec_dequeue :
    spoolExec .mqttDequeueTxbuf i s = some ((mqttRingbufferDequeue s.world.txbuf).2, s.dequeued) :=
  rfl

theorem exec_insert (e : Message) :
    spoolExec (.mqttCacheWriteOnePayload e) (d.outcome (.mqttCacheWriteOnePayload e)) s =
      some (d.insertRc, if d.insertRc = 0 then s.inserted d e else s) := rfl

theorem exec_select :
    spoolExec .mqttCacheReadOnePayload (d.outcome .mqttCacheReadOnePayload) s =
      some (s.selected d, s.seen (.read (s.selected d))) := rfl

theorem exec_queue (row : Option Row) :
    spoolExec (.mqttQueueTxbuf row) i s = some ((), (s.queue row).seen (.putBack row)) := rfl

theorem exec_delete (rowid : ℤ) :
    spoolExec (.mqttCacheDeleteOnePayload rowid) (d.outcome (.mqttCacheDeleteOnePayload rowid)) s =
      some ((), s.deleted d rowid) := rfl

theorem exec_incCount :
    spoolExec .incCount i s = some (s.count + 1, s.setCount (s.count + 1)) := rfl

theorem exec_resetCount : spoolExec .resetCount i s = some ((), s.setCount 0) := rfl

theorem exec_vacuum : spoolExec .mqttCacheFreeMemory (d.outcome .mqttCacheFreeMemory) s =
    some ((), s.vacuumed d) := rfl

theorem held_vacuumed : (s.vacuumed d).world.held = s.world.held := by
  unfold vacuumed
  split_ifs with hrc
  · rfl
  · rfl

theorem texts_vacuumed : (s.vacuumed d).table.texts = s.table.texts := by
  unfold vacuumed
  split_ifs with hrc
  · exact s.table.texts_vacuum
  · rfl

end Actions

/-! ## The two directions -/

section Directions

theorem eval_of_spills (h : s.Spills) :
    mqttDealWithCache.eval spoolExec d.outcome s = mqttSpill.eval spoolExec d.outcome s := by
  simp only [mqttDealWithCache, Code.perform, Code.call_bind, Code.done_bind, Code.eval,
    spoolExec, Option.bind_some, if_pos h.handle, if_pos h.usage]

theorem eval_of_refills (h : s.Refills) :
    mqttDealWithCache.eval spoolExec d.outcome s = mqttRefill.eval spoolExec d.outcome s := by
  have hspills : ¬txBuffToCacheUsage < s.world.owned.dev.txbufUsage :=
    fun husage ↦ h.not_spills ⟨h.handle, husage⟩
  simp only [mqttDealWithCache, Code.perform, Code.call_bind, Code.done_bind, Code.eval,
    spoolExec, Option.bind_some, if_pos h.handle, if_neg hspills, if_pos h.usage]

theorem eval_of_idle (hspills : ¬s.Spills) (hrefills : ¬s.Refills) :
    mqttDealWithCache.eval spoolExec d.outcome s = some ((), s) := by
  by_cases hhandle : s.handle = true
  · have husage : ¬txBuffToCacheUsage < s.world.owned.dev.txbufUsage :=
      fun h ↦ hspills ⟨hhandle, h⟩
    have hroom : ¬s.world.owned.dev.txbufUsage < cacheToTxBuffUsage :=
      fun h ↦ hrefills ⟨hhandle, h⟩
    simp only [mqttDealWithCache, Code.perform, Code.call_bind, Code.done_bind, Code.eval,
      spoolExec, Option.bind_some, if_pos hhandle, if_neg husage, if_neg hroom, Code.pure_eq]
  · simp only [mqttDealWithCache, Code.perform, Code.call_bind, Code.done_bind, Code.eval,
      spoolExec, Option.bind_some, if_neg hhandle, Code.pure_eq]

/-- The buffer and the table are those before the call. -/
structure Kept (s t : Depot) : Prop where
  txbuf : t.world.txbuf = s.world.txbuf
  table : t.table = s.table

/-- The message `e` is written to the table instead of being in the buffer. -/
structure Moved (d : Database) (s t : Depot) (e : Message) : Prop where
  held : s.world.held = e :: t.world.held
  table : t.table = s.table.write e d.otherwise

/-- A message is put into the table if the file was found small enough, there
is one and the insert succeeds. -/
structure Inserts (d : Database) (s : Depot) : Prop where
  size : d.cacheMemorySize ≤ cacheFileMemorySizeMax
  held : s.world.held ≠ []
  insertRc : d.insertRc = 0

theorem peek_eq (s : Depot) : mqttRingbufferPeek s.world.txbuf 0 =
    (if s.world.held = [] then 0 else 1, s.world.held.head?) := by
  rw [World.mqttRingbufferPeek_zero]
  change (if 0 < s.world.held.length then 1 else 0, s.world.held[0]?) = _
  cases s.world.held with
  | nil => rfl
  | cons m rest => rfl

theorem mqttSpill_of_inserts (hrange : s.world.txInRange) (hfree : s.world.txbufMutex = none)
    (h : Inserts d s) :
    ∃ t e, mqttSpill.eval spoolExec d.outcome s = some ((), t) ∧ Moved d s t e := by
  obtain ⟨e, rest, hheld⟩ := List.exists_cons_of_ne_nil h.held
  obtain ⟨-, hcontents, -⟩ := World.dequeue_of_cons hrange hheld
  have hpeek : mqttRingbufferPeek (s.hold (some (.producer 0))).world.txbuf 0 = (1, some e) := by
    rw [txbuf_hold, peek_eq, hheld]
    rfl
  refine ⟨((((s.hold (some (.producer 0))).hold none).inserted d e).hold
    (some (.producer 0))).dequeued.hold none, e, ?_, ?_, rfl⟩
  · simp only [mqttSpill, Code.perform, Code.call_bind, Code.done_bind]
    rw [Code.eval_call exec_size, if_pos h.size, Code.eval_call (exec_lock hfree),
      Code.eval_call exec_peek, Code.eval_call exec_unlock, hpeek, if_pos rfl, Option.getD_some,
      Code.eval_call (exec_insert e), if_pos h.insertRc, if_pos h.insertRc,
      Code.eval_call (exec_lock rfl), Code.eval_call exec_dequeue, Code.eval_call exec_unlock]
    rfl
  · rw [hheld]
    exact congrArg (e :: ·) hcontents.symm

theorem mqttSpill_of_not_inserts (hfree : s.world.txbufMutex = none) (h : ¬Inserts d s) :
    ∃ t, mqttSpill.eval spoolExec d.outcome s = some ((), t) ∧ Kept s t := by
  simp only [mqttSpill, Code.perform, Code.call_bind, Code.done_bind]
  rw [Code.eval_call exec_size]
  by_cases hsize : d.cacheMemorySize ≤ cacheFileMemorySizeMax
  · rw [if_pos hsize, Code.eval_call (exec_lock hfree), Code.eval_call exec_peek,
      Code.eval_call exec_unlock, txbuf_hold, peek_eq]
    refine ⟨(s.hold (some (.producer 0))).hold none, ?_, rfl, rfl⟩
    by_cases hheld : s.world.held = []
    · rw [if_pos hheld]
      rfl
    · have hrc : d.insertRc ≠ 0 := fun hrc ↦ h ⟨hsize, hheld, hrc⟩
      rw [if_neg hheld, if_pos rfl, Code.eval_call (exec_insert _), if_neg hrc, if_neg hrc]
      rfl
  · rw [if_neg hsize]
    exact ⟨s, rfl, rfl, rfl⟩

/-- A row is put back if the count succeeds and is positive as an `int`. -/
structure Restores (d : Database) (s : Depot) : Prop where
  countRc : d.countRc = 0
  rows : 0 < toInt s.table.rows.length

theorem payloadNb_pos_iff :
    (s.payloadNb d.countRc > 0 ∧ d.countRc = 0) ↔ Restores d s := by
  constructor
  · rintro ⟨hpos, hrc⟩
    rw [payloadNb, if_pos hrc] at hpos
    exact ⟨hrc, hpos⟩
  · rintro ⟨hrc, hpos⟩
    rw [payloadNb, if_pos hrc]
    exact ⟨hpos, hrc⟩

theorem exec_count : spoolExec .mqttCacheGetPayloadNb (d.outcome .mqttCacheGetPayloadNb) s =
    some ((d.countRc, s.payloadNb d.countRc),
      if s.payloadNb d.countRc > 0 ∧ d.countRc = 0 then s.seen .counted else s) := rfl

theorem held_queue (hrange : s.world.txInRange) (hroom : s.world.held.length ≠ 255)
    (row : Option Row) : ∃ m : Message, (s.queue row).world.held = s.world.held ++ [m] ∧
      m.texts = (row.map Row.texts).getD ([], []) := by
  cases row with
  | none =>
      obtain ⟨hheld, -, -⟩ := World.queue_of_room hrange hroom ⟨cmdMqttSendkv, [], []⟩
      exact ⟨_, hheld, rfl⟩
  | some row =>
      have hpush : (s.world.requeue row).held = DropOldest.push 255 s.world.held row.message :=
        RingBuffer.contents_queue (k := 8) (by decide) hrange row.message
      rw [DropOldest.push, if_neg hroom] at hpush
      exact ⟨row.message, hpush, rfl⟩

theorem mqttRefill_of_restores (hrange : s.world.txInRange) (hroom : s.world.held.length ≠ 255)
    (hfree : s.world.txbufMutex = none) (h : Restores d s) :
    ∃ t m, mqttRefill.eval spoolExec d.outcome s = some ((), t) ∧
      t.world.held = s.world.held ++ [m] ∧
      m.texts = ((s.selected d).map Row.texts).getD ([], []) ∧
      t.table.texts = (s.deleted d (cacheItemIdx (s.selected d))).table.texts := by
  have hpos := payloadNb_pos_iff.mpr h
  let row := s.selected d
  let u := ((s.seen .counted).seen (.read row)).hold (some (.producer 0))
  obtain ⟨m, hheld, htexts⟩ : ∃ m : Message, (u.queue row).world.held = s.world.held ++ [m] ∧
      m.texts = (row.map Row.texts).getD ([], []) := u.held_queue hrange hroom row
  let w := (((u.queue row).seen (.putBack row)).hold none).deleted d (cacheItemIdx row)
  have htable : w.table = (s.deleted d (cacheItemIdx row)).table := by
    change (if d.deleteRc = 0 then (u.queue row).table.delete _ else (u.queue row).table) = _
    rw [table_queue]
    rfl
  have hselect : spoolExec .mqttCacheReadOnePayload (d.outcome .mqttCacheReadOnePayload)
      (s.seen .counted) = some (row, (s.seen .counted).seen (.read row)) := exec_select
  have hlock : spoolExec .mqttLockTxbuf (d.outcome .mqttLockTxbuf)
      ((s.seen .counted).seen (.read row)) = some ((), u) := exec_lock hfree
  simp only [mqttRefill, Code.perform, Code.call_bind, Code.done_bind]
  rw [Code.eval_call exec_count, if_pos hpos, if_pos hpos, Code.eval_call hselect,
    Code.eval_call hlock, Code.eval_call (exec_queue row), Code.eval_call exec_unlock,
    Code.eval_call (exec_delete _), Code.eval_call exec_incCount]
  split_ifs with hcount
  · rw [Code.eval_call exec_resetCount, Code.eval_call exec_vacuum]
    refine ⟨_, m, rfl, ?_, htexts, ?_⟩
    · rw [← hheld]
      exact held_vacuumed
    · rw [← htable]
      exact texts_vacuumed
  · exact ⟨_, m, rfl, hheld, htexts, congrArg Table.texts htable⟩

theorem mqttRefill_of_not_restores (h : ¬Restores d s) :
    mqttRefill.eval spoolExec d.outcome s = some ((), s) := by
  have hpos := mt payloadNb_pos_iff.mp h
  simp only [mqttRefill, Code.perform, Code.call_bind, Code.done_bind]
  rw [Code.eval_call exec_count, if_neg hpos, if_neg hpos]
  rfl

end Directions

end Depot

end Mqtt
