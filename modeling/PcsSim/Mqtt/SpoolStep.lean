import Mathlib.Tactic.NormNum
import PcsSim.Mqtt.SpoolCall

/-!
# Messages in one call of `mqtt_deal_with_cache`

A message is pasted into its statement with the quotes that it has.  A row is
put back whether or not it could be read, and whether or not it can be deleted.
-/

namespace Mqtt

/-- What `mqtt_sm` stores in `txbuf_usage`. -/
def World.usage (w : World) : ℚ := mqttRingbufferNumItems w.txbuf / mqttRingBufferSize * 100

theorem World.usage_eq (w : World) : w.usage = w.held.length / 256 * 100 := by
  have hitems : mqttRingbufferNumItems w.txbuf = w.held.length := by
    rw [World.held, RingBuffer.length_contents]
    exact RingBuffer.numItems_eq (k := 8) w.txbuf
  rw [usage, hitems]
  rfl

namespace Depot

variable {d : Database} {s t : Depot}

def messages (s : Depot) : Multiset (Bytes × Bytes) :=
  ↑(s.world.held.map Message.texts) + ↑s.table.texts

/-- The call returns and neither loses nor duplicates nor invents a message. -/
def ConservesMessages (d : Database) (s : Depot) : Prop :=
  ∃ t, s.dealWithCache d = some t ∧ t.messages = s.messages

/-- The select and the delete succeed, and the row id is an `int`. -/
structure RestoresWell (d : Database) (s : Depot) : Prop where
  selectRc : d.selectRc = 0
  deleteRc : d.deleteRc = 0
  rowid : ∀ row ∈ s.table.rows.head?, row.rowid < 2 ^ 31

/-- The statement for the oldest message puts its texts into the table: they have
no quotes, or these make something else than an insert of two tokens, which
leaves the table with that row. -/
def WritesWell (d : Database) (s : Depot) : Prop :=
  ∀ m ∈ s.world.held.head?, MqttCache.NoQuotes m.element ∨
    m.inserted = none ∧ (d.otherwise.texts : Multiset (Bytes × Bytes)) = m.texts ::ₘ s.table.texts

theorem conservesMessages_of_eval
    (h : mqttDealWithCache.eval spoolExec d.outcome s = some ((), t)) :
    ConservesMessages d s ↔ t.messages = s.messages := by
  have hcall : s.dealWithCache d = some t := by rw [dealWithCache, h, Option.map_some]
  constructor
  · rintro ⟨t', ht', hmessages⟩
    obtain rfl : t = t' := Option.some.inj (hcall.symm.trans ht')
    exact hmessages
  · intro hmessages
    exact ⟨t, hcall, hmessages⟩

section Spill

theorem messages_of_kept (h : Kept s t) : t.messages = s.messages := by
  have hheld : t.world.held = s.world.held := congrArg (RingBuffer.contents (2 ^ 8)) h.txbuf
  rw [messages, messages, hheld, h.table]

theorem messages_of_moved {e : Message} (h : Moved d s t e) : t.messages = s.messages ↔
    (t.table.texts : Multiset (Bytes × Bytes)) = e.texts ::ₘ s.table.texts := by
  rw [messages, messages, h.held, List.map_cons, ← Multiset.cons_coe, Multiset.cons_add,
    ← Multiset.add_cons, Multiset.add_right_inj]

theorem texts_of_inserted {e row : Message} (h : e.inserted = some row) :
    row.texts = e.texts ↔ MqttCache.NoQuotes e.element := by
  obtain ⟨⟨topic, payload⟩, hvalues, rfl⟩ := Option.map_eq_some_iff.mp h
  rw [MqttCache.noQuotes_iff, hvalues, Option.some.injEq]
  rfl

/-- The row of a message has its texts exactly if these have no quotes. -/
theorem texts_write_iff (t otherwise : Table) (e : Message) :
    ((t.write e otherwise).texts : Multiset (Bytes × Bytes)) = e.texts ::ₘ t.texts ↔
      MqttCache.NoQuotes e.element ∨ e.inserted = none ∧
        (otherwise.texts : Multiset (Bytes × Bytes)) = e.texts ::ₘ t.texts := by
  cases hinserted : e.inserted with
  | some row =>
      have hwrite : t.write e otherwise = t.insert row := by rw [Table.write, hinserted]
      have hrow : (t.insert row).texts = row.texts ::ₘ (t.texts : Multiset (Bytes × Bytes)) := by
        rw [Table.texts_insert, ← Multiset.coe_add, Multiset.coe_singleton, Multiset.add_comm,
          Multiset.singleton_add]
      rw [hwrite, hrow, Multiset.cons_inj_left, texts_of_inserted hinserted]
      simp
  | none =>
      have hwrite : t.write e otherwise = otherwise := by rw [Table.write, hinserted]
      have hquotes : ¬MqttCache.NoQuotes e.element := by
        intro h
        rw [Message.inserted, MqttCache.noQuotes_iff.mp h] at hinserted
        cases hinserted
      rw [hwrite]
      simp [hquotes]

theorem conservesMessages_iff_of_inserts (hrange : s.world.txInRange)
    (hfree : s.world.txbufMutex = none) (h : s.Spills) (hinserts : Inserts d s) :
    ConservesMessages d s ↔ WritesWell d s := by
  obtain ⟨t, e, heval, hmoved⟩ := mqttSpill_of_inserts hrange hfree hinserts
  rw [conservesMessages_of_eval ((eval_of_spills h).trans heval), messages_of_moved hmoved,
    hmoved.table, texts_write_iff, WritesWell, hmoved.held, List.head?_cons]
  simp only [Option.mem_def, Option.some.injEq, forall_eq']

theorem conservesMessages_of_not_inserts (hfree : s.world.txbufMutex = none) (h : s.Spills)
    (hinserts : ¬Inserts d s) : ConservesMessages d s := by
  obtain ⟨t, heval, hkept⟩ := mqttSpill_of_not_inserts hfree hinserts
  rw [conservesMessages_of_eval ((eval_of_spills h).trans heval)]
  exact messages_of_kept hkept

end Spill

section Refill

theorem room_of_refills (h : s.Refills) (husage : s.world.owned.dev.txbufUsage = s.world.usage) :
    s.world.held.length ≠ 255 := by
  intro hfull
  have hlow := h.usage
  rw [husage, World.usage_eq, hfull] at hlow
  norm_num [cacheToTxBuffUsage] at hlow

theorem toInt_lt (n : ℤ) : toInt n < 2 ^ 31 := by
  have hlt : n.bmod (2 ^ 32) < ((2 ^ 32 : ℕ) + 1) / 2 := Int.bmod_lt (by decide)
  exact hlt.trans_le (by decide)

theorem delete_of_forall_ne {table : Table} {rowid : ℤ}
    (h : ∀ row ∈ table.rows, row.rowid ≠ rowid) : (table.delete rowid).rows = table.rows := by
  apply List.filter_eq_self.mpr
  intro row hrow
  simpa using h row hrow

theorem selected_of_restoresWell {first : Row} {rest : List Row}
    (hcons : s.table.rows = first :: rest) (h : RestoresWell d s) :
    s.selected d = some first := by
  rw [selected, if_pos h.selectRc, hcons, List.head?_cons]

/-- The row that is read is deleted if its id survives `atoi`. -/
theorem texts_deleted_of_restoresWell {first : Row} {rest : List Row}
    (hcons : s.table.rows = first :: rest) (h : RestoresWell d s) :
    (s.deleted d (cacheItemIdx (s.selected d))).table.texts = rest.map Row.texts := by
  have hpositive := s.table.positive first (hcons ▸ List.mem_cons_self)
  have hrowid : first.rowid < 2 ^ 31 := by
    apply h.rowid
    rw [hcons]
    exact List.head?_cons
  rw [selected_of_restoresWell hcons h, cacheItemIdx_some hpositive hrowid, deleted,
    if_pos h.deleteRc, Table.texts, Table.delete_of_cons hcons]

/-- There is no row with the id that is used if none is read, or if the first
one has an id beyond `int`. -/
theorem rowid_ne_of_not_restoresWell (h : ¬RestoresWell d s) (hdelete : d.deleteRc = 0) :
    ∀ row ∈ s.table.rows, row.rowid ≠ cacheItemIdx (s.selected d) := by
  intro row hrow
  cases hselected : s.selected d with
  | none => exact (s.table.positive row hrow).ne'
  | some first =>
      have hselect : d.selectRc = 0 := by
        by_contra hselect
        rw [selected, if_neg hselect] at hselected
        cases hselected
      rw [selected, if_pos hselect] at hselected
      have hlarge : ¬first.rowid < 2 ^ 31 := by
        intro hrowid
        refine h ⟨hselect, hdelete, fun row' hrow' ↦ ?_⟩
        obtain rfl : first = row' := Option.some.inj (hselected.symm.trans hrow')
        exact hrowid
      have hle : first.rowid ≤ row.rowid := by
        obtain ⟨rest, hcons⟩ := List.head?_eq_some_iff.mp hselected
        have hsorted := s.table.sorted
        rw [hcons] at hsorted hrow
        rcases List.mem_cons.mp hrow with rfl | hrest
        · exact le_rfl
        · exact ((List.pairwise_cons.mp hsorted).1 row hrest).le
      have hlt := toInt_lt first.rowid
      intro heq
      change row.rowid = toInt first.rowid at heq
      omega

theorem texts_deleted_of_not_restoresWell (h : ¬RestoresWell d s) :
    (s.deleted d (cacheItemIdx (s.selected d))).table.texts = s.table.texts := by
  by_cases hdelete : d.deleteRc = 0
  · have hne := rowid_ne_of_not_restoresWell h hdelete
    rw [deleted, if_pos hdelete, Table.texts, delete_of_forall_ne hne]
    rfl
  · rw [deleted, if_neg hdelete]

theorem conservesMessages_iff_of_restores (hrange : s.world.txInRange)
    (hfree : s.world.txbufMutex = none) (hroom : s.world.held.length ≠ 255) (h : s.Refills)
    (hrestores : Restores d s) : ConservesMessages d s ↔ RestoresWell d s := by
  obtain ⟨t, m, heval, hheld, htexts, htable⟩ := mqttRefill_of_restores hrange hroom hfree hrestores
  have hne : s.table.rows ≠ [] := by
    intro hnil
    have hpos := hrestores.rows
    rw [hnil] at hpos
    exact absurd hpos (by decide)
  obtain ⟨first, rest, hcons⟩ := List.exists_cons_of_ne_nil hne
  rw [conservesMessages_of_eval ((eval_of_refills h).trans heval), messages, hheld, htable]
  by_cases hwell : RestoresWell d s
  · refine iff_of_true ?_ hwell
    have hrows := texts_deleted_of_restoresWell hcons hwell
    rw [selected_of_restoresWell hcons hwell] at htexts
    have hmessages : s.table.texts = m.texts :: rest.map Row.texts := by
      rw [Table.texts, hcons, htexts]
      rfl
    rw [hrows, messages, hmessages, List.map_append, ← Multiset.coe_add, Multiset.add_assoc,
      ← Multiset.cons_coe, ← Multiset.singleton_add]
    rfl
  · -- the row is still in the table
    refine iff_of_false (fun heq ↦ ?_) hwell
    have hrows := texts_deleted_of_not_restoresWell hwell
    have hcard := congrArg Multiset.card heq
    rw [hrows, messages] at hcard
    simp only [Multiset.card_add, Multiset.coe_card, List.length_map, List.length_append,
      List.length_singleton] at hcard
    omega

end Refill

theorem conservesMessages_iff (hrange : s.world.txInRange) (hfree : s.world.txbufMutex = none)
    (husage : s.world.owned.dev.txbufUsage = s.world.usage) :
    ConservesMessages d s ↔ (s.Spills → Inserts d s → WritesWell d s) ∧
      (s.Refills → Restores d s → RestoresWell d s) := by
  by_cases hspills : s.Spills
  · have hrefills : ¬s.Refills := fun h ↦ h.not_spills hspills
    by_cases hinserts : Inserts d s
    · rw [conservesMessages_iff_of_inserts hrange hfree hspills hinserts]
      simp only [hspills, hinserts, hrefills, forall_const, false_imp_iff, and_true]
    · refine iff_of_true (conservesMessages_of_not_inserts hfree hspills hinserts) ?_
      exact ⟨fun _ h ↦ absurd h hinserts, fun h ↦ absurd h hrefills⟩
  · by_cases hrefills : s.Refills
    · by_cases hrestores : Restores d s
      · rw [conservesMessages_iff_of_restores hrange hfree (room_of_refills hrefills husage)
          hrefills hrestores]
        simp only [hspills, hrefills, hrestores, forall_const, false_imp_iff, true_and]
      · have heval := (eval_of_refills hrefills).trans (mqttRefill_of_not_restores hrestores)
        exact iff_of_true ⟨s, by rw [dealWithCache, heval, Option.map_some], rfl⟩
          ⟨fun h ↦ absurd h hspills, fun _ h ↦ absurd h hrestores⟩
    · have heval : mqttDealWithCache.eval spoolExec d.outcome s = some ((), s) :=
        eval_of_idle hspills hrefills
      exact iff_of_true ⟨s, by rw [dealWithCache, heval, Option.map_some], rfl⟩
        ⟨fun h ↦ absurd h hspills, fun h ↦ absurd h hrefills⟩

/-- An empty buffer, and a table with one row. -/
def oneRow : Depot :=
  .start ⟨ascii "pcs", 1, ascii "127.0.0.1", 1883⟩ ⟨fun _ ↦ default, 0, 0⟩
    ⟨fun _ ↦ default, 0, 0⟩ true
    (Table.empty.insert ⟨0, ⟨cmdMqttSendkv, ascii "pcs", ascii "ready"⟩⟩)

theorem txInRange_oneRow : oneRow.world.txInRange := by
  constructor <;> decide

theorem usage_oneRow : oneRow.world.owned.dev.txbufUsage = oneRow.world.usage := by
  decide +kernel

theorem conservesMessages_oneRow :
    ConservesMessages ⟨4096, 2, 0, 0, 0, 0, 0, 0, 0, .empty⟩ oneRow :=
  (conservesMessages_iff txInRange_oneRow rfl usage_oneRow).mpr
    ⟨fun h ↦ absurd h.usage (by decide +kernel), fun _ _ ↦ ⟨rfl, rfl, by decide⟩⟩

/-- The select fails: an empty message is queued and the row stays. -/
theorem not_conservesMessages_unread :
    ¬ConservesMessages ⟨4096, 2, 0, 0, 0, 0, 1, 0, 0, .empty⟩ oneRow := by
  intro h
  have hrefills : oneRow.Refills := ⟨rfl, by decide +kernel⟩
  have hwell := (conservesMessages_iff_of_restores txInRange_oneRow rfl
    (room_of_refills hrefills usage_oneRow) hrefills ⟨rfl, by decide⟩).mp h
  exact absurd hwell.selectRc (by decide)

end Depot

end Mqtt
