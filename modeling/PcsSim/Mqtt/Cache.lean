import PcsSim.Lib.CharArray
import PcsSim.Mqtt.Spool

/-!
# The table of the cache

`mqtt_cache_write_one_payload` pastes the texts of a message into a statement.
SQLite is a parameter; of what it documents, `FollowsRules` states what is used
here.
-/

namespace MqttCache

open CJson (isDigit digitsValue)
open Mqtt (Element toInt)

variable {R : Type}

def bufPayloadMaxLen : ℕ := 8000

def bufTopicMaxLen : ℕ := 128

def mqttCacheTable : Bytes := ascii "mqtt_cache"

def sqliteOk : ℤ := 0

structure CacheRow where
  rowid : ℤ
  sztopic : Bytes
  szpayload : Bytes
  deriving DecidableEq

/-- The rows of `mqtt_cache` in the order of their ids, and all else that the
data base holds. -/
structure Db (R : Type) where
  rows : List CacheRow
  rest : R

/-- A column as a callback is given it. -/
structure Column where
  columnname : Bytes
  columnvalue : Option Bytes

def CacheRow.columns (row : CacheRow) : List Column :=
  [⟨ascii "rowid", some (decimal row.rowid)⟩, ⟨ascii "topic", some row.sztopic⟩,
    ⟨ascii "payload", some row.szpayload⟩]

structure Sqlite (R : Type) where
  /-- `sqlite3_exec`: the return code, the data base after it and the rows that
  the callback is called for -/
  exec : Bytes → Db R → ℤ × Db R × List (List Column)
  /-- whether the data base takes a row with these texts -/
  accepts : Db R → Bytes → Bytes → Bool
  keyword : Bytes → Bool

/-! ## The functions of `mqtt_cache.c` -/

section Functions

def isspace (b : UInt8) : Bool := b = 32 ∨ (9 ≤ b ∧ b ≤ 13)

def atoi (text : Bytes) : ℤ :=
  match text.dropWhile isspace with
  | [] => 0
  | b :: l =>
    if b = 45 then toInt (-digitsValue (l.takeWhile isDigit))
    else if b = 43 then toInt (digitsValue (l.takeWhile isDigit))
    else toInt (digitsValue ((b :: l).takeWhile isDigit))

/-- What `struct mqtt_cache_sqlite_data` points to. -/
structure CacheItem where
  rowid : ℤ
  sztopic : CharArray bufTopicMaxLen
  szpayload : CharArray bufPayloadMaxLen

def readColumn (item : CacheItem) (column : Column) : Except Fault CacheItem :=
  if column.columnname = ascii "rowid" then do
    let text ← deref column.columnvalue
    return { item with rowid := atoi text }
  else if column.columnname = ascii "topic" then do
    let text ← deref column.columnvalue
    let sztopic ← item.sztopic.strcpy text
    return { item with sztopic := sztopic }
  else if column.columnname = ascii "payload" then do
    let text ← deref column.columnvalue
    let szpayload ← item.szpayload.strcpy text
    return { item with szpayload := szpayload }
  else
    return item

def callbackReadOneItem (item : CacheItem) (columns : List Column) : Except Fault CacheItem :=
  columns.foldlM readColumn item

def mqttCacheReadOnePayload (sql : Sqlite R) (tableName : Bytes) (item : CacheItem) (db : Db R) :
    Except Fault (ℤ × CacheItem) := do
  let sqlSelect ← sprintf 128 (ascii "select rowid,* from " ++ tableName ++ ascii " limit 1")
  let (rc, _, rows) := sql.exec sqlSelect db
  let item ← rows.foldlM callbackReadOneItem item
  return (if rc ≠ sqliteOk then -1 else 0, item)

def mqttCacheWriteOnePayload (sql : Sqlite R) (tableName : Bytes) (e : Element) (db : Db R) :
    Except Fault (ℤ × Db R) := do
  let sqlInsert ← sprintf (bufPayloadMaxLen + bufTopicMaxLen + 128)
    (ascii "insert into " ++ tableName ++ ascii " values(\"" ++ e.sztopic ++ ascii "\",\"" ++
      e.szpayload ++ ascii "\")")
  let (rc, db, _) := sql.exec sqlInsert db
  return (if rc ≠ sqliteOk then -1 else 0, db)

end Functions

/-! ## What SQLite documents -/

def isNameByte (b : UInt8) : Bool :=
  isDigit b ∨ (65 ≤ b ∧ b ≤ 90) ∨ b = 95 ∨ (97 ≤ b ∧ b ≤ 122) ∨ b = 36 ∨ 128 ≤ b

structure Name (name : Bytes) : Prop where
  nonempty : name ≠ []
  bytes : ∀ b ∈ name, isNameByte b

def maxRowid : ℤ := 2 ^ 63 - 1

/-- The row is put among the others under an id that none of these has, and
behind them all while the ids last. -/
structure InsertedAt (before after : List CacheRow) (row : CacheRow) : Prop where
  fresh : ∀ old ∈ before ++ after, old.rowid ≠ row.rowid
  last : (∀ old ∈ before ++ after, old.rowid < maxRowid) → after = []

structure Sqlite.FollowsRules (sql : Sqlite R) : Prop where
  insert : ∀ db l topic payload, Values l topic payload (ascii ")") →
    sql.accepts db topic payload → ∃ row before after,
      row.sztopic = topic ∧ row.szpayload = payload ∧ db.rows = before ++ after ∧
        InsertedAt before after row ∧
          sql.exec (insertOpening ++ l) db = (sqliteOk, ⟨before ++ row :: after, db.rest⟩, [])
  refused : ∀ db l topic payload, Values l topic payload (ascii ")") →
    ¬sql.accepts db topic payload → (sql.exec (insertOpening ++ l) db).1 ≠ sqliteOk
  /-- a value is not followed by a name -/
  name : ∀ db l topic payload name rest, Values l topic payload (name ++ rest) → Name name →
    (∀ b ∈ rest.head?, ¬isNameByte b) → ¬sql.keyword name →
      (sql.exec (insertOpening ++ l) db).1 ≠ sqliteOk
  keyword : ¬sql.keyword (ascii "ts")
  select : ∀ db row, db.rows.head? = some row →
    sql.exec (ascii "select rowid,* from mqtt_cache limit 1") db = (sqliteOk, db, [row.columns])

end MqttCache
