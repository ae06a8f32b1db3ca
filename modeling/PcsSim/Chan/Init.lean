import PcsSim.Chan.Context
import PcsSim.Mqtt.Cache

/-!
# Loading the channels

`chan_init` reads the table `chan` row by row.  The callback counts the rows and
clears `ret`, which nothing else sets.
-/

namespace Chan

open MqttCache (Column atoi sqliteOk)

def chanNbrMax : ℕ := 8

/-- An entry of `chan`, with the texts that its arrays hold. -/
structure Channel extends State where
  szinfo : Bytes
  szdev : Bytes
  szparity : Bytes
  servip : Bytes
  port : ℤ
  baud : ℤ
  servport : ℤ
  dbg : ℤ

structure Channels where
  chan : ℕ → Channel
  channbr : ℕ

/-! ## The callback -/

/-- The columns that `chan_dbcb_0` knows. -/
inductive Field
  | info
  | dev
  | mode
  | port
  | baud
  | parity
  | servip
  | servport
  | restartTimes
  | retryTimes
  deriving DecidableEq

namespace Field

def columnname : Field → Bytes
  | info => ascii "info"
  | dev => ascii "dev"
  | mode => ascii "mode"
  | port => ascii "port"
  | baud => ascii "baud"
  | parity => ascii "parity"
  | servip => ascii "servip"
  | servport => ascii "servport"
  | restartTimes => ascii "restart_times"
  | retryTimes => ascii "retry_times"

/-- In the order of the comparisons. -/
def all : List Field :=
  [info, dev, mode, port, baud, parity, servip, servport, restartTimes, retryTimes]

/-- The size of the array, for a column that `strcpy` takes. -/
def size : Field → Option ℕ
  | info => some 32
  | dev => some 32
  | mode => some 32
  | parity => some 8
  | servip => some 16
  | port | baud | servport | restartTimes | retryTimes => none

def store (text : Bytes) (ch : Channel) : Field → Channel
  | info => { ch with szinfo := text }
  | dev => { ch with szdev := text }
  | mode => { ch with ch := { ch.ch with szmode := text, mode := chanModeStr2nbr text } }
  | port => { ch with port := atoi text }
  | baud => { ch with baud := atoi text }
  | parity => { ch with szparity := text }
  | servip => { ch with servip := text }
  | servport => { ch with servport := atoi text }
  | restartTimes => { ch with ch := { ch.ch with restartTimes := atoi text } }
  | retryTimes => { ch with ch := { ch.ch with retryTimes := atoi text } }

/-- The text that is copied must fit its array; the one that is converted may
have any length. -/
def copied (f : Field) (text : Bytes) : Except Fault Bytes :=
  match f.size with
  | some n => sprintf n text
  | none => .ok text

end Field

def fieldOf (columnname : Bytes) : Option Field :=
  Field.all.find? fun f ↦ f.columnname = columnname

def storeColumn (ch : Channel) (column : Column) : Except Fault Channel :=
  match fieldOf column.columnname with
  | none => .ok ch
  | some f => do
      let text ← deref column.columnvalue
      let text ← f.copied text
      return f.store text ch

/-- `chan[i]`; behind the end of the array only a column that is stored does harm. -/
def writeColumn (i : ℕ) (chan : ℕ → Channel) (column : Column) : Except Fault (ℕ → Channel) :=
  if i ≤ chanNbrMax then do
    let ch ← storeColumn (chan i) column
    return Function.update chan i ch
  else if (fieldOf column.columnname).isSome then .error .overrun
  else .ok chan

/-- `struct dbcbparam_t` and the channels. -/
structure Loading where
  ret : ℤ
  nrow : ℕ
  chan : ℕ → Channel

def chanDbcb0 (s : Loading) (columns : List Column) : Except Fault Loading := do
  let nrow := s.nrow + 1
  let chan ← columns.foldlM (writeColumn nrow) s.chan
  return { ret := 0, nrow := nrow, chan := chan }

/-! ## `chan_init` -/

/-- The table `chan`; its columns have different names. -/
structure Table where
  rows : List (List Column)
  distinct : ∀ row ∈ rows, (row.map Column.columnname).Nodup

/-- What `sqlite3_exec` does: it calls the callback for the first rows of the
table, and for all of them when it succeeds. -/
structure Exec (t : Table) where
  result : ℤ
  delivered : ℕ
  complete : result = sqliteOk → t.rows.length ≤ delivered

def Exec.rows {t : Table} (exec : Exec t) : List (List Column) := t.rows.take exec.delivered

def Channel.prepare (ch : Channel) : Channel :=
  { ch with dbg := 0, ch := { ch.ch with errcnt := 0, ctx := none, started := 0 } }

/-- `for (i = 1; i <= chan_get_nbr(); i++)`, with `n` rounds to go. -/
def startLoop (outcome : ℕ → Outcome) : ℕ → ℕ → (ℕ → Channel) → Except Fault (ℕ → Channel)
  | 0, _, chan => .ok chan
  | n + 1, i, chan =>
      if i ≤ chanNbrMax then do
        let ch := (chan i).prepare
        let (_, s) ← chanStart (outcome i) ch.toState
        startLoop outcome n (i + 1) (Function.update chan i { ch with toState := s })
      else .error .overrun

/-- `ret` is what `cbparam.ret` held before. -/
def chanInit {t : Table} (exec : Exec t) (outcome : ℕ → Outcome) (s : Channels) (ret : ℤ) :
    Except Fault (ℤ × Channels) := do
  let loaded ← exec.rows.foldlM chanDbcb0 { ret := ret, nrow := 0, chan := s.chan }
  if exec.result ≠ sqliteOk then
    return (-1, { s with chan := loaded.chan })
  else if loaded.ret ≠ 0 then
    return (-2, { s with chan := loaded.chan })
  else
    let chan ← startLoop outcome loaded.nrow 1 loaded.chan
    return (0, { chan := chan, channbr := loaded.nrow })

/-! ## What is stored -/

/-- The entry holds what the column says. -/
def Field.Holds (text : Bytes) (ch : Channel) : Field → Prop
  | info => ch.szinfo = text
  | dev => ch.szdev = text
  | mode => ch.ch.szmode = text ∧ ch.ch.mode = chanModeStr2nbr text
  | port => ch.port = atoi text
  | baud => ch.baud = atoi text
  | parity => ch.szparity = text
  | servip => ch.servip = text
  | servport => ch.servport = atoi text
  | restartTimes => ch.ch.restartTimes = atoi text
  | retryTimes => ch.ch.retryTimes = atoi text

def StoresRow (row : List Column) (ch : Channel) : Prop :=
  ∀ column ∈ row, ∀ f, fieldOf column.columnname = some f →
    ∃ text, column.columnvalue = some text ∧ f.Holds text ch

/-- A column that is stored is not NULL, fits and belongs to an entry of the array. -/
def ColumnFits (i : ℕ) (column : Column) : Prop :=
  ∀ f, fieldOf column.columnname = some f →
    i ≤ chanNbrMax ∧ ∃ text, column.columnvalue = some text ∧ ∀ n ∈ f.size, text.length < n

section Columns

variable {f g : Field} {text : Bytes} {ch ch' : Channel} {column : Column}

theorem fieldOf_eq_some_iff {columnname : Bytes} :
    fieldOf columnname = some f ↔ columnname = f.columnname := by
  constructor
  · intro h
    rw [fieldOf] at h
    have hname := List.find?_some h
    exact (of_decide_eq_true hname).symm
  · rintro rfl
    cases f <;> decide

theorem Field.holds_store (f : Field) (text : Bytes) (ch : Channel) :
    f.Holds text (f.store text ch) := by
  cases f
  case mode => exact ⟨rfl, rfl⟩
  all_goals rfl

theorem Field.holds_store_of_ne (hne : f ≠ g) {text' : Bytes} :
    f.Holds text (g.store text' ch) ↔ f.Holds text ch := by
  cases f <;> cases g <;> first | exact absurd rfl hne | exact Iff.rfl

theorem Field.mode_store_of_ne (hne : f ≠ .mode) : (f.store text ch).ch.mode = ch.ch.mode := by
  cases f <;> first | exact absurd rfl hne | rfl

theorem Field.copied_eq_ok_iff {result : Bytes} :
    f.copied text = .ok result ↔ (∀ n ∈ f.size, text.length < n) ∧ result = text := by
  rw [Field.copied]
  cases f.size with
  | none => simp [eq_comm]
  | some n => simp

theorem storeColumn_of_none (h : fieldOf column.columnname = none) :
    storeColumn ch column = .ok ch := by
  rw [storeColumn, h]

theorem storeColumn_of_some (h : fieldOf column.columnname = some f) :
    storeColumn ch column = .ok ch' ↔ ∃ text, column.columnvalue = some text ∧
      (∀ n ∈ f.size, text.length < n) ∧ ch' = f.store text ch := by
  rw [storeColumn, h]
  simp only [Except.bind_eq_ok_iff, deref_eq_ok, Field.copied_eq_ok_iff]
  constructor
  · rintro ⟨text, hvalue, _, ⟨hfits, rfl⟩, hch⟩
    exact ⟨_, hvalue, hfits, (Except.ok.inj hch).symm⟩
  · rintro ⟨text, hvalue, hfits, rfl⟩
    exact ⟨text, hvalue, text, ⟨hfits, rfl⟩, rfl⟩

theorem holds_of_storeColumn (h : storeColumn ch column = .ok ch')
    (hf : fieldOf column.columnname ≠ some f) (hholds : f.Holds text ch) : f.Holds text ch' := by
  cases hg : fieldOf column.columnname with
  | none =>
      rw [storeColumn_of_none hg] at h
      exact Except.ok.inj h ▸ hholds
  | some g =>
      obtain ⟨text', -, -, rfl⟩ := (storeColumn_of_some hg).mp h
      have hne : f ≠ g := by
        rintro rfl
        exact hf hg
      exact (Field.holds_store_of_ne hne).mpr hholds

theorem mode_of_storeColumn (h : storeColumn ch column = .ok ch')
    (hf : fieldOf column.columnname ≠ some .mode) : ch'.ch.mode = ch.ch.mode := by
  cases hg : fieldOf column.columnname with
  | none =>
      rw [storeColumn_of_none hg] at h
      rw [Except.ok.inj h]
  | some g =>
      obtain ⟨text', -, -, rfl⟩ := (storeColumn_of_some hg).mp h
      apply Field.mode_store_of_ne
      rintro rfl
      exact hf hg

end Columns

section Rows

variable {ch ch' : Channel} {row : List Column}

theorem holds_of_foldlM {f : Field} {text : Bytes} (h : row.foldlM storeColumn ch = .ok ch')
    (hf : ∀ column ∈ row, fieldOf column.columnname ≠ some f) (hholds : f.Holds text ch) :
    f.Holds text ch' := by
  refine Except.foldlM_invariant (P := f.Holds text) ?_ hholds h
  intro column hmem ch₁ ch₂ hholds₁ hcolumn
  exact holds_of_storeColumn hcolumn (hf column hmem) hholds₁

theorem mode_of_foldlM (h : row.foldlM storeColumn ch = .ok ch')
    (hf : ∀ column ∈ row, fieldOf column.columnname ≠ some .mode) :
    ch'.ch.mode = ch.ch.mode := by
  refine Except.foldlM_invariant (P := fun ch₁ ↦ ch₁.ch.mode = ch.ch.mode) ?_ rfl h
  intro column hmem ch₁ ch₂ hmode hcolumn
  exact (mode_of_storeColumn hcolumn (hf column hmem)).trans hmode

/-- With different names no column is stored over another one. -/
theorem storesRow_of_foldlM (hdistinct : (row.map Column.columnname).Nodup)
    (h : row.foldlM storeColumn ch = .ok ch') : StoresRow row ch' := by
  induction row generalizing ch with
  | nil => exact fun column hmem ↦ absurd hmem List.not_mem_nil
  | cons column row ih =>
      obtain ⟨ch₁, hcolumn, hrow⟩ := Except.foldlM_cons_eq_ok_iff.mp h
      obtain ⟨hnotMem, hrest⟩ := List.nodup_cons.mp hdistinct
      rintro c (_ | ⟨_, hc⟩) f hf
      · obtain ⟨text, hvalue, -, rfl⟩ := (storeColumn_of_some hf).mp hcolumn
        refine ⟨text, hvalue, holds_of_foldlM hrow ?_ (f.holds_store text ch)⟩
        intro c hc hfc
        apply hnotMem
        have hname : column.columnname = c.columnname :=
          (fieldOf_eq_some_iff.mp hf).trans (fieldOf_eq_some_iff.mp hfc).symm
        rw [hname]
        exact List.mem_map_of_mem hc
      · exact ih hrest hrow c hc f hf

end Rows

end Chan
