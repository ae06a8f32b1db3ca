import PcsSim.Mqtt.Insert
import PcsSim.Mqtt.Outline

/-!
# Spooling to the cache

The thread of `mqtt_db_cache_thrd_main` moves messages from a transmit buffer
that fills up into a table of the data base, and back when there is room.  It
runs beside the thread of `mqtt_thrd_main`.
-/

namespace Mqtt

open Threads

def txBuffToCacheUsage : ℚ := 75
def cacheToTxBuffUsage : ℚ := 65
def cacheFileMemorySizeMax : ℤ := 40 * 1024 * 1024

structure Row where
  rowid : ℤ
  /-- ghost: the number of the message -/
  serial : ℕ
  sztopic : Bytes
  szpayload : Bytes
  deriving DecidableEq

/-- The message with the values that the statement for its texts has, if it is an
insert of two quoted tokens. -/
def Message.inserted (m : Message) : Option Message :=
  (MqttCache.readValues (MqttCache.insertOpening ++ MqttCache.insertValues m.element)).map
    fun (sztopic, szpayload) ↦ ⟨m.serial, ⟨m.element.cmd, sztopic, szpayload⟩⟩

/-- What `mqtt_deal_with_cache` makes of a row. -/
def Row.message (row : Row) : Message :=
  ⟨row.serial, ⟨cmdMqttSendkv, row.sztopic, row.szpayload⟩⟩

/-- The table `mqtt_cache`, in the order of its row ids, which the data base
gives out from 1. -/
structure Table where
  rows : List Row
  sorted : rows.Pairwise fun a b ↦ a.rowid < b.rowid
  positive : ∀ row ∈ rows, 0 < row.rowid

namespace Table

def empty : Table := ⟨[], .nil, by simp⟩

/-- One more than the largest row id. -/
def nextRowid (rows : List Row) : ℤ :=
  match rows with
  | [] => 1
  | [row] => row.rowid + 1
  | _ :: rows => nextRowid rows

theorem rowid_lt_nextRowid {rows : List Row}
    (hsorted : rows.Pairwise fun a b ↦ a.rowid < b.rowid) :
    ∀ row ∈ rows, row.rowid < nextRowid rows := by
  induction rows with
  | nil => simp
  | cons first rest ih =>
      obtain ⟨hfirst, hrest⟩ := List.pairwise_cons.mp hsorted
      cases rest with
      | nil =>
          intro row hrow
          rw [List.mem_singleton.mp hrow]
          exact lt_add_one first.rowid
      | cons second rest =>
          intro row hrow
          rcases List.mem_cons.mp hrow with rfl | hrow
          · exact (hfirst second List.mem_cons_self).trans (ih hrest second List.mem_cons_self)
          · exact ih hrest row hrow

theorem nextRowid_pos {rows : List Row} (hpositive : ∀ row ∈ rows, 0 < row.rowid) :
    0 < nextRowid rows := by
  induction rows with
  | nil => exact one_pos
  | cons first rest ih =>
      cases rest with
      | nil => exact (hpositive first List.mem_cons_self).trans (lt_add_one first.rowid)
      | cons second rest => exact ih fun row hrow ↦ hpositive row (List.mem_cons_of_mem _ hrow)

/-- `insert into mqtt_cache values(…)` -/
def insert (t : Table) (m : Message) : Table where
  rows := t.rows ++ [⟨nextRowid t.rows, m.serial, m.element.sztopic, m.element.szpayload⟩]
  sorted := by
    refine List.pairwise_append.mpr ⟨t.sorted, List.pairwise_singleton .., ?_⟩
    intro row hrow new hnew
    rw [List.mem_singleton.mp hnew]
    exact rowid_lt_nextRowid t.sorted row hrow
  positive row hrow := by
    rcases List.mem_append.mp hrow with hold | hnew
    · exact t.positive row hold
    · rw [List.mem_singleton.mp hnew]
      exact nextRowid_pos t.positive

/-- After the statement for the texts of a message.  Where quotes in these make
something else of it than an insert of two tokens, it leaves the table
`otherwise`. -/
def write (t : Table) (m : Message) (otherwise : Table) : Table :=
  match m.inserted with
  | some row => t.insert row
  | none => otherwise

theorem write_of_noQuotes {m : Message} (h : MqttCache.NoQuotes m.element) (t otherwise : Table) :
    t.write m otherwise = t.insert m := by
  have hinserted : m.inserted = some m := by
    rw [Message.inserted, MqttCache.noQuotes_iff.mp h]
    rfl
  rw [write, hinserted]

/-- `delete from mqtt_cache where rowid = …` -/
def delete (t : Table) (rowid : ℤ) : Table where
  rows := t.rows.filter (·.rowid ≠ rowid)
  sorted := t.sorted.filter _
  positive row hrow := t.positive row (List.mem_of_mem_filter hrow)

theorem delete_of_cons {t : Table} {row : Row} {rest : List Row} (hcons : t.rows = row :: rest) :
    (t.delete row.rowid).rows = rest := by
  have hsorted := t.sorted
  rw [hcons] at hsorted
  have hlt := (List.pairwise_cons.mp hsorted).1
  simp only [delete]
  rw [hcons, List.filter_cons_of_neg (by simp), List.filter_eq_self]
  exact fun other hother ↦ by simpa using (hlt other hother).ne'

/-- `vacuum`, which numbers the rows afresh. -/
def vacuum (t : Table) : Table where
  rows := t.rows.mapIdx fun k row ↦ { row with rowid := k + 1 }
  sorted := by
    rw [List.pairwise_iff_getElem]
    intro i j hi hj hij
    simpa using hij
  positive row hrow := by
    obtain ⟨k, hk, rfl⟩ := List.mem_iff_getElem.mp hrow
    simp only [List.getElem_mapIdx]
    omega

theorem serials_vacuum (t : Table) :
    t.vacuum.rows.map Row.serial = t.rows.map Row.serial := by
  apply List.ext_getElem <;> simp [vacuum]

/-- The rows that are found at the start are the messages before all others. -/
def stamp (t : Table) : Table where
  rows := t.rows.mapIdx fun k row ↦ { row with serial := k }
  sorted := by
    rw [List.pairwise_iff_getElem]
    intro i j hi hj hij
    simpa using
      List.pairwise_iff_getElem.mp t.sorted i j (by simpa using hi) (by simpa using hj) hij
  positive row hrow := by
    obtain ⟨k, hk, rfl⟩ := List.mem_iff_getElem.mp hrow
    simpa using t.positive _ (List.getElem_mem (by simpa using hk))

theorem serials_stamp (t : Table) :
    t.stamp.rows.map Row.serial = List.range t.rows.length := by
  apply List.ext_getElem <;> simp [stamp]

end Table

/-- How far the thread is with a message or a row. -/
inductive SpoolPhase
  | idle
  /-- the message is in the table and not yet taken out of the buffer -/
  | written (m : Message)
  /-- there are rows -/
  | counted
  /-- the row has been read, if there was one -/
  | read (row : Option Row)
  /-- it has been queued and not yet deleted -/
  | putBack (row : Option Row)

/-- What both threads share. -/
structure Depot where
  world : World
  /-- `mqtt_cache_handle != NULL` -/
  handle : Bool
  table : Table
  /-- the static `count` of `mqtt_deal_with_cache` -/
  count : ℤ
  /-- ghost -/
  phase : SpoolPhase
  /-- ghost: the messages that a row put back has overwritten -/
  refillEvicted : List Message

/-- The row goes into the buffer as the message that it was. -/
def World.requeue (w : World) (row : Row) : World :=
  { w with
    txbuf := mqttRingbufferQueue w.txbuf row.message
    evictedSincePeek := w.evictedSincePeek || decide (mqttRingbufferIsFull w.txbuf ≠ 0) }

inductive SpoolOp
  | getHandle
  | getTxbufUsage
  | mqttCacheGetMemorySize
  | mqttCacheWriteOnePayload (e : Message)
  | mqttCacheGetPayloadNb
  | mqttCacheReadOnePayload
  | mqttCacheDeleteOnePayload (rowid : ℤ)
  | mqttCacheFreeMemory
  | incCount
  | resetCount
  | mqttLockTxbuf
  | mqttUnlockTxbuf
  | mqttPeekTxbuf
  | mqttDequeueTxbuf
  | mqttQueueTxbuf (row : Option Row)

@[reducible] def SpoolOp.Reply : SpoolOp → Type
  | .getHandle => Bool
  | .getTxbufUsage => ℚ
  | .mqttCacheGetMemorySize | .mqttCacheWriteOnePayload _ | .incCount => ℤ
  | .mqttCacheGetPayloadNb => ℤ × ℤ
  | .mqttCacheReadOnePayload => Option Row
  | .mqttPeekTxbuf | .mqttDequeueTxbuf => ℤ × Option Message
  | _ => Unit

/-- What the data base answers: the return code of the call, what the two
queries for the size of its file find, if they succeed, and what it makes of a
statement that is no insert of two tokens. -/
structure SpoolOutcome where
  rc : ℤ
  pageSize : Option ℤ
  pageCount : Option ℤ
  otherwise : Table

/-- `atoi`, and the product of two `int`s. -/
def toInt (n : ℤ) : ℤ := n.bmod (2 ^ 32)

/-- The return code, and the size where it is stored. -/
def mqttCacheGetMemorySize (pageSize pageCount : Option ℤ) : ℤ × Option ℤ :=
  match pageSize, pageCount with
  | none, _ => (-1, none)
  | some _, none => (-2, none)
  | some pageSize, some pageCount => (0, some (toInt (toInt pageSize * toInt pageCount)))

/-- `cache_item_idx`, which stays 0 where no row is read. -/
def cacheItemIdx (row : Option Row) : ℤ := (row.map fun row ↦ toInt row.rowid).getD 0

theorem toInt_of_lt {n : ℤ} (hpositive : 0 < n) (hlt : n < 2 ^ 31) : toInt n = n := by
  apply Int.bmod_eq_of_le <;> omega

theorem cacheItemIdx_some {row : Row} (hpositive : 0 < row.rowid) (hlt : row.rowid < 2 ^ 31) :
    cacheItemIdx (some row) = row.rowid :=
  toInt_of_lt hpositive hlt

namespace Depot

/-- Without a row the texts of the element are empty, and it is a new message. -/
def queue (s : Depot) : Option Row → Depot
  | none => { s with world := s.world.mqttQueueTxbuf ⟨cmdMqttSendkv, [], []⟩ }
  | some row =>
    { s with
      world := s.world.requeue row
      refillEvicted := if mqttRingbufferIsFull s.world.txbuf ≠ 0 then
        s.refillEvicted ++ (mqttRingbufferPeek s.world.txbuf 0).2.toList else s.refillEvicted }

/-- The number of rows is stored only if the call succeeds. -/
def payloadNb (s : Depot) (rc : ℤ) : ℤ := if rc = 0 then toInt s.table.rows.length else 0

def setWorld (s : Depot) (w : World) : Depot := { s with world := w }

end Depot

/-- The mutex counts the thread as producer 0. -/
def spoolExec : (op : SpoolOp) → SpoolOutcome → Depot → Option (op.Reply × Depot)
  | .getHandle, _, s => some (s.handle, s)
  | .getTxbufUsage, _, s => some (s.world.owned.dev.txbufUsage, s)
  | .mqttCacheGetMemorySize, i, s =>
      -- `cache_memroy_size` starts at 0
      some ((Mqtt.mqttCacheGetMemorySize i.pageSize i.pageCount).2.getD 0, s)
  | .mqttCacheWriteOnePayload e, i, s =>
      some (i.rc, if i.rc = 0 then
        { s with table := s.table.write e i.otherwise, phase := .written e } else s)
  | .mqttCacheGetPayloadNb, i, s =>
      some ((i.rc, s.payloadNb i.rc), if s.payloadNb i.rc > 0 ∧ i.rc = 0 then
        { s with phase := .counted } else s)
  | .mqttCacheReadOnePayload, i, s =>
      let row := if i.rc = 0 then s.table.rows.head? else none
      some (row, { s with phase := .read row })
  | .mqttCacheDeleteOnePayload rowid, i, s =>
      some ((), { s with
        table := if i.rc = 0 then s.table.delete rowid else s.table
        phase := .idle })
  | .mqttCacheFreeMemory, i, s =>
      some ((), if i.rc = 0 then { s with table := s.table.vacuum } else s)
  | .incCount, _, s => some (s.count + 1, { s with count := s.count + 1 })
  | .resetCount, _, s => some ((), { s with count := 0 })
  | .mqttLockTxbuf, _, s =>
      if s.world.txbufMutex = none then
        some ((), s.setWorld { s.world with txbufMutex := some (.producer 0) })
      else none
  | .mqttUnlockTxbuf, _, s => some ((), s.setWorld { s.world with txbufMutex := none })
  | .mqttPeekTxbuf, _, s => some (mqttRingbufferPeek s.world.txbuf 0, s)
  | .mqttDequeueTxbuf, _, s =>
      let (txbuf, r) := mqttRingbufferDequeue s.world.txbuf
      some (r, { s with world := { s.world with txbuf := txbuf }, phase := .idle })
  | .mqttQueueTxbuf row, _, s => some ((), { s.queue row with phase := .putBack row })

abbrev SpoolCode := Code SpoolOp SpoolOp.Reply

abbrev spoolPerform (op : SpoolOp) : SpoolCode op.Reply := .perform op

/-- `*txbuf_usage > TX_BUFF_TO_CACHE_USAGE` -/
def mqttSpill : SpoolCode Unit := do
  let cacheMemorySize ← spoolPerform .mqttCacheGetMemorySize
  if cacheMemorySize ≤ cacheFileMemorySizeMax then
    spoolPerform .mqttLockTxbuf
    let (rc, data) ← spoolPerform .mqttPeekTxbuf
    spoolPerform .mqttUnlockTxbuf
    if rc = 1 then
      let e := data.getD default
      let rc ← spoolPerform (.mqttCacheWriteOnePayload e)
      if rc = 0 then
        spoolPerform .mqttLockTxbuf
        let _ ← spoolPerform .mqttDequeueTxbuf
        spoolPerform .mqttUnlockTxbuf

/-- `*txbuf_usage < CACHE_TO_TX_BUFF_USAGE` -/
def mqttRefill : SpoolCode Unit := do
  let (rc, cacheItemNb) ← spoolPerform .mqttCacheGetPayloadNb
  if cacheItemNb > 0 ∧ rc = 0 then
    let row ← spoolPerform .mqttCacheReadOnePayload
    spoolPerform .mqttLockTxbuf
    spoolPerform (.mqttQueueTxbuf row)
    spoolPerform .mqttUnlockTxbuf
    spoolPerform (.mqttCacheDeleteOnePayload (cacheItemIdx row))
    let count ← spoolPerform .incCount
    if count > 500 then
      spoolPerform .resetCount
      spoolPerform .mqttCacheFreeMemory

def mqttDealWithCache : SpoolCode Unit := do
  let handle ← spoolPerform .getHandle
  if handle then
    let txbufUsage ← spoolPerform .getTxbufUsage
    if txbufUsage > txBuffToCacheUsage then mqttSpill
    else
      let txbufUsage ← spoolPerform .getTxbufUsage
      if txbufUsage < cacheToTxBuffUsage then mqttRefill

/-! ## Both threads -/

/-- The thread alone. -/
def spoolThread : System SpoolOp SpoolOp.Reply Depot SpoolOutcome Empty where
  exec := spoolExec
  env e := nomatch e
  body := mqttDealWithCache

/-- The producer that an event is an action of. -/
def Event.producer : Event → Option ℕ
  | .lockTxbuf i | .queueTxbuf i _ | .unlockTxbuf i => some i
  | _ => none

/-- The thread of `mqtt_sm` on the depot; the producers are numbered from 1. -/
def smThread : System Op Op.Reply Depot Outcome Event where
  exec op i s := (exec op i s.world).map fun p ↦ (p.1, s.setWorld p.2)
  env e s := if e.producer = some 0 then none else (env e s.world).map s.setWorld
  body := mqttSm

def spoolSystem := smThread.beside spoolThread

abbrev SpoolConfig := Threads.Config Op Op.Reply (Threads.Config SpoolOp SpoolOp.Reply Depot)

/-- The rows that an earlier run has left are messages enqueued before. -/
def Depot.start (mdl : Settings) (tx : RingBuffer Message) (rx : RingBuffer Element)
    (handle : Bool) (table : Table) : Depot where
  world := { World.start mdl tx rx with enqueued := table.stamp.rows.map Row.message }
  handle := handle
  table := table.stamp
  count := 0
  phase := .idle
  refillEvicted := []

def SpoolConfig.start (mdl : Settings) (tx : RingBuffer Message) (rx : RingBuffer Element)
    (handle : Bool) (table : Table) : SpoolConfig :=
  ⟨.done (), .done (), .start mdl tx rx handle table⟩

end Mqtt
