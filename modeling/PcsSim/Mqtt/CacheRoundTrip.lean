import PcsSim.CJson.Compose
import PcsSim.Mqtt.Cache
import PcsSim.Mqtt.SpoolCall

/-!
# What the cache gives back

A message whose texts have no quotes is stored and read back as it was.  A
quote in a text ends its token in the statement.
-/

namespace MqttCache

open CJson (quote comma colon isDigit digitsValue)
open DelimitedToken (read doubled)
open Mqtt (Element toInt)

variable {R : Type} {sql : Sqlite R} {e : Element} {db db' : Db R}

/-- The texts of an element in the transmit buffer. -/
structure Fits (e : Element) : Prop where
  topic : e.sztopic.length < bufTopicMaxLen
  payload : e.szpayload.length < bufPayloadMaxLen
  topicText : 0 ∉ e.sztopic
  payloadText : 0 ∉ e.szpayload

def CacheItem.cleared : CacheItem :=
  ⟨0, ⟨List.replicate bufTopicMaxLen 0, List.length_replicate⟩,
    ⟨List.replicate bufPayloadMaxLen 0, List.length_replicate⟩⟩

/-- What `cloud_update` prints to `e.szpayload`. -/
def cloudUpdatePayload (tsBuf ostr : Bytes) : Bytes :=
  ascii "\x7b\"ts\":\"" ++ tsBuf ++ ascii "\",\"data\":" ++ ostr ++ ascii "\x7d"

/-- Where the row is the first of the table, reading gives the texts of `e`. -/
def ReadsBack (sql : Sqlite R) (e : Element) (row : CacheRow) : Prop :=
  ∀ (db : Db R) (item : CacheItem), db.rows.head? = some row →
    ∃ item', mqttCacheReadOnePayload sql mqttCacheTable item db = .ok (0, item') ∧
      item'.rowid = toInt row.rowid ∧ item'.sztopic.string = .ok e.sztopic ∧
        item'.szpayload.string = .ok e.szpayload

/-- One new row is all that has changed. -/
def OneRowAdded (sql : Sqlite R) (e : Element) (db db' : Db R) : Prop :=
  ∃ row before after, db.rows = before ++ after ∧ db' = ⟨before ++ row :: after, db.rest⟩ ∧
    InsertedAt before after row ∧ ReadsBack sql e row

/-- A write that returns 0 has stored what it was given, and for the payloads of
`cloud_update` it does return 0 if the data base takes the row. -/
structure StoresAsGiven (sql : Sqlite R) (e : Element) (db : Db R) : Prop where
  stored : ∀ db', mqttCacheWriteOnePayload sql mqttCacheTable e db = .ok (0, db') →
    OneRowAdded sql e db db'
  accepted : ∀ tsBuf ostr, e.szpayload = cloudUpdatePayload tsBuf ostr →
    sql.accepts db e.sztopic e.szpayload →
      ∃ db', mqttCacheWriteOnePayload sql mqttCacheTable e db = .ok (0, db')

/-- The statement has two values, and the data base takes a row with these. -/
def Takes (sql : Sqlite R) (db : Db R) (e : Element) : Prop :=
  ∃ topic payload, Values (insertValues e) topic payload (ascii ")") ∧
    sql.accepts db topic payload

inductive Refuses (sql : Sqlite R) (db : Db R) (e : Element) : Prop
  | row {topic payload : Bytes} (hvalues : Values (insertValues e) topic payload (ascii ")"))
      (hrefused : ¬sql.accepts db topic payload)
  | name {topic payload name rest : Bytes}
      (hvalues : Values (insertValues e) topic payload (name ++ rest)) (hname : Name name)
      (hend : ∀ b ∈ rest.head?, ¬isNameByte b) (hkeyword : ¬sql.keyword name)

/-- A message of `cloud_update` that the data base takes as a row. -/
def Updates (sql : Sqlite R) (db : Db R) (e : Element) : Prop :=
  (∃ tsBuf ostr, e.szpayload = cloudUpdatePayload tsBuf ostr) ∧
    sql.accepts db e.sztopic e.szpayload

section Reading

theorem digitsValue_decimalNat (n : ℕ) : digitsValue (decimalNat n) = n := by
  have hdigit : ∀ (m : ℕ), ∀ c ∈ Nat.toDigits 10 n,
      10 * m + ((Char.toUInt8 c).toNat - 48) = 10 * m + (c.toNat - '0'.toNat) := by
    intro m c hc
    have hisDigit : c.isDigit := Nat.isDigit_of_mem_toDigits (by decide) (by decide) hc
    simp only [Char.isDigit, Bool.and_eq_true, decide_eq_true_eq, UInt32.le_iff_toNat_le]
      at hisDigit
    have hhigh : c.toNat ≤ 57 := hisDigit.2
    have hbyte : (Char.toUInt8 c).toNat = c.toNat := by
      rw [Char.toUInt8, UInt32.toNat_toUInt8]
      exact Nat.mod_eq_of_lt (by change c.toNat < 2 ^ 8; omega)
    rw [hbyte]
    rfl
  rw [digitsValue, decimalNat, List.foldl_map, List.foldl_ext _ _ 0 hdigit,
    ← Nat.ofDigitChars_eq_foldl, Nat.ofDigitChars_ten_toDigits]

theorem takeWhile_isDigit_decimalNat (n : ℕ) :
    (decimalNat n).takeWhile isDigit = decimalNat n := by
  apply List.takeWhile_eq_self_iff.mpr
  intro b hb
  simpa [isDigit] using digit_of_mem_decimalNat hb

theorem atoi_decimal (z : ℤ) : atoi (decimal z) = toInt z := by
  cases z with
  | negSucc n =>
      have hspace : (45 :: decimalNat (n + 1)).dropWhile isspace = 45 :: decimalNat (n + 1) := by
        simp [isspace]
      change atoi (45 :: decimalNat (n + 1)) = _
      rw [atoi, hspace]
      simp only [if_true]
      rw [takeWhile_isDigit_decimalNat, digitsValue_decimalNat]
      rfl
  | ofNat n =>
      obtain ⟨b, l, hl⟩ := List.exists_cons_of_ne_nil (decimalNat_ne_nil n)
      have hb := digit_of_mem_decimalNat (n := n) (b := b) (by simp [hl])
      have hspace : isspace b = false := by
        rw [isspace, decide_eq_false_iff_not]
        rintro (rfl | ⟨-, hle⟩)
        · exact absurd hb.1 (by decide)
        · exact absurd (UInt8.le_trans hb.1 hle) (by decide)
      have hminus : b ≠ 45 := by
        rintro rfl
        exact absurd hb.1 (by decide)
      have hplus : b ≠ 43 := by
        rintro rfl
        exact absurd hb.1 (by decide)
      change atoi (decimalNat n) = _
      rw [atoi, hl, List.dropWhile_cons_of_neg (by simp [hspace])]
      simp only [if_neg hminus, if_neg hplus]
      rw [← hl, takeWhile_isDigit_decimalNat, digitsValue_decimalNat]
      rfl

theorem string_of_strcpy {n : ℕ} (dst : CharArray n) {src : Bytes} (h : src.length < n)
    (hsrc : 0 ∉ src) : ∃ a, dst.strcpy src = .ok a ∧ a.string = .ok src := by
  obtain ⟨a, ha, hbytes⟩ := CharArray.strcpy_eq_ok h dst
  refine ⟨a, ha, ?_⟩
  have hmem : 0 ∈ a.bytes := by
    rw [hbytes]
    exact List.mem_append_right src List.mem_cons_self
  rw [CharArray.string, if_pos hmem, hbytes, CharArray.takeWhile_ne_zero hsrc]
  simp

theorem readColumn_rowid (item : CacheItem) (rowid : ℤ) :
    readColumn item ⟨ascii "rowid", some (decimal rowid)⟩ =
      .ok { item with rowid := toInt rowid } := by
  rw [← atoi_decimal]
  rfl

theorem readColumn_topic (item : CacheItem) (text : Bytes) :
    readColumn item ⟨ascii "topic", some text⟩ = do
      let sztopic ← item.sztopic.strcpy text
      return { item with sztopic := sztopic } := by
  have hname : ascii "topic" ≠ ascii "rowid" := by decide
  rw [readColumn, if_neg hname, if_pos rfl, deref, Except.ok_bind_eq]

theorem readColumn_payload (item : CacheItem) (text : Bytes) :
    readColumn item ⟨ascii "payload", some text⟩ = do
      let szpayload ← item.szpayload.strcpy text
      return { item with szpayload := szpayload } := by
  have hname : ascii "payload" ≠ ascii "rowid" := by decide
  have hname' : ascii "payload" ≠ ascii "topic" := by decide
  rw [readColumn, if_neg hname, if_neg hname', if_pos rfl, deref, Except.ok_bind_eq]

theorem callbackReadOneItem_columns (item : CacheItem) (row : CacheRow) :
    callbackReadOneItem item row.columns = do
      let sztopic ← item.sztopic.strcpy row.sztopic
      let szpayload ← item.szpayload.strcpy row.szpayload
      return ⟨toInt row.rowid, sztopic, szpayload⟩ := by
  rw [CacheRow.columns, callbackReadOneItem, List.foldlM_cons, readColumn_rowid,
    Except.ok_bind_eq, List.foldlM_cons, readColumn_topic]
  cases item.sztopic.strcpy row.sztopic with
  | error fault => rfl
  | ok sztopic =>
      rw [Except.ok_bind_eq, Except.ok_bind_eq, pure_bind, List.foldlM_cons, readColumn_payload]
      cases item.szpayload.strcpy row.szpayload with
      | error fault => rfl
      | ok szpayload => rfl

theorem mqttCacheReadOnePayload_eq (hsql : sql.FollowsRules) {row : CacheRow} {item : CacheItem}
    (hrow : db.rows.head? = some row) :
    mqttCacheReadOnePayload sql mqttCacheTable item db =
      (callbackReadOneItem item row.columns).map fun item' ↦ (0, item') := by
  have hselect : sql.exec (ascii "select rowid,* from " ++ mqttCacheTable ++ ascii " limit 1") db =
      (sqliteOk, db, [row.columns]) := hsql.select db row hrow
  have hfits : (ascii "select rowid,* from " ++ mqttCacheTable ++ ascii " limit 1").length <
      128 := by decide
  rw [mqttCacheReadOnePayload, sprintf, if_pos hfits, Except.ok_bind_eq, hselect]
  dsimp only
  rw [List.foldlM_cons]
  cases callbackReadOneItem item row.columns with
  | error fault => rfl
  | ok item' => rfl

theorem readsBack_of_select (hsql : sql.FollowsRules) (he : Fits e) {row : CacheRow}
    (htopic : row.sztopic = e.sztopic) (hpayload : row.szpayload = e.szpayload) :
    ReadsBack sql e row := by
  intro db item hrow
  obtain ⟨sztopic, hsztopic, htopicString⟩ :=
    string_of_strcpy item.sztopic he.topic he.topicText
  obtain ⟨szpayload, hszpayload, hpayloadString⟩ :=
    string_of_strcpy item.szpayload he.payload he.payloadText
  refine ⟨⟨toInt row.rowid, sztopic, szpayload⟩, ?_, rfl, htopicString, hpayloadString⟩
  rw [mqttCacheReadOnePayload_eq hsql hrow, callbackReadOneItem_columns, htopic, hpayload,
    hsztopic, Except.ok_bind_eq, hszpayload]
  rfl

/-- Reading gives the texts of the row and no others. -/
theorem texts_of_readsBack (hsql : sql.FollowsRules) {row : CacheRow} (rest : R)
    (htopic : 0 ∉ row.sztopic) (hpayload : 0 ∉ row.szpayload) (h : ReadsBack sql e row) :
    row.sztopic = e.sztopic ∧ row.szpayload = e.szpayload := by
  obtain ⟨item, hread, -, htopicString, hpayloadString⟩ :=
    h ⟨[row], rest⟩ CacheItem.cleared (List.head?_cons ..)
  rw [mqttCacheReadOnePayload_eq hsql (List.head?_cons ..), callbackReadOneItem_columns] at hread
  cases hsztopic : CacheItem.cleared.sztopic.strcpy row.sztopic with
  | error fault =>
      rw [hsztopic] at hread
      cases hread
  | ok sztopic =>
      cases hszpayload : CacheItem.cleared.szpayload.strcpy row.szpayload with
      | error fault =>
          rw [hsztopic, hszpayload] at hread
          cases hread
      | ok szpayload =>
          rw [hsztopic, hszpayload] at hread
          cases hread
          obtain ⟨a, ha, haString⟩ :=
            string_of_strcpy CacheItem.cleared.sztopic (CharArray.lt_of_strcpy hsztopic) htopic
          obtain ⟨b, hb, hbString⟩ :=
            string_of_strcpy CacheItem.cleared.szpayload (CharArray.lt_of_strcpy hszpayload)
              hpayload
          obtain rfl : sztopic = a := Except.ok.inj (hsztopic.symm.trans ha)
          obtain rfl : szpayload = b := Except.ok.inj (hszpayload.symm.trans hb)
          exact ⟨Except.ok.inj (haString.symm.trans htopicString),
            Except.ok.inj (hbString.symm.trans hpayloadString)⟩

end Reading

section Writing

theorem mqttCacheWriteOnePayload_eq (he : Fits e) :
    mqttCacheWriteOnePayload sql mqttCacheTable e db =
      .ok (if (sql.exec (insertOpening ++ insertValues e) db).1 ≠ sqliteOk then -1 else 0,
        (sql.exec (insertOpening ++ insertValues e) db).2.1) := by
  have htext : ascii "insert into " ++ mqttCacheTable ++ ascii " values(\"" ++ e.sztopic ++
      ascii "\",\"" ++ e.szpayload ++ ascii "\")" = insertOpening ++ insertValues e := by
    have hopen : ascii "insert into " ++ mqttCacheTable ++ ascii " values(\"" = insertOpening := by
      decide
    have hbetween : ascii "\",\"" = [quote, comma, quote] := by decide
    have hclose : ascii "\")" = quote :: ascii ")" := by decide
    rw [hopen, hbetween, hclose, insertValues]
    simp
  have hlength : (insertOpening ++ insertValues e).length <
      bufPayloadMaxLen + bufTopicMaxLen + 128 := by
    have hopen : insertOpening.length = 31 := by decide
    have hclose : (ascii ")").length = 1 := by decide
    have htopic := he.topic
    have hpayload := he.payload
    simp only [insertValues, List.length_append, List.length_cons]
    omega
  rw [mqttCacheWriteOnePayload, htext, sprintf, if_pos hlength, Except.ok_bind_eq]
  rfl

theorem zero_notMem_of_values (he : Fits e) {topic payload rest : Bytes}
    (h : Values (insertValues e) topic payload rest) : 0 ∉ topic ∧ 0 ∉ payload := by
  have htext : 0 ∉ insertValues e := by
    have hclose : (0 : UInt8) ∉ quote :: ascii ")" := by decide
    have hbetween : (0 : UInt8) ∉ [quote, comma, quote] := by decide
    have happend : insertValues e =
        e.sztopic ++ ([quote, comma, quote] ++ (e.szpayload ++ quote :: ascii ")")) := rfl
    rw [happend]
    simp only [List.mem_append, not_or]
    exact ⟨he.topicText, hbetween, he.payloadText, hclose⟩
  rw [insertValues_of_values h] at htext
  constructor
  · intro hzero
    exact htext (List.mem_append_left _ (DelimitedToken.mem_doubled hzero))
  · intro hzero
    apply htext
    apply List.mem_append_right
    iterate 3 apply List.mem_cons_of_mem
    exact List.mem_append_left _ (DelimitedToken.mem_doubled hzero)

/-- What follows `{` in the payload is outside of the quotes. -/
theorem refuses_of_cloudUpdate (hsql : sql.FollowsRules) (htopic : quote ∉ e.sztopic)
    {tsBuf ostr : Bytes} (hpayload : e.szpayload = cloudUpdatePayload tsBuf ostr) :
    Refuses sql db e := by
  let rest := quote :: colon :: quote :: (tsBuf ++ (ascii "\",\"data\":" ++ (ostr ++
    (ascii "\x7d" ++ quote :: ascii ")"))))
  have htext : e.szpayload ++ quote :: ascii ")" =
      ascii "\x7b" ++ quote :: (ascii "ts" ++ rest) := by
    have hopen : ascii "\x7b\"ts\":\"" = ascii "\x7b" ++ quote :: (ascii "ts" ++
      [quote, colon, quote]) := by decide
    rw [hpayload, cloudUpdatePayload, hopen]
    simp [rest]
  have hsecond : read quote (e.szpayload ++ quote :: ascii ")") =
      some (ascii "\x7b", ascii "ts" ++ rest) := by
    rw [htext]
    apply DelimitedToken.read_append (by decide)
    have hhead : (ascii "ts" ++ rest).head? = some 116 := rfl
    rw [hhead]
    decide
  have hend : ∀ b ∈ rest.head?, ¬isNameByte b := by
    rw [List.head?_cons]
    decide +kernel
  have hname : Name (ascii "ts") := ⟨by decide, by decide +kernel⟩
  exact .name ⟨_, read_insertValues htopic, hsecond⟩ hname hend hsql.keyword

end Writing

section Storing

theorem write_zero (he : Fits e)
    (h : mqttCacheWriteOnePayload sql mqttCacheTable e db = .ok (0, db')) :
    (sql.exec (insertOpening ++ insertValues e) db).1 = sqliteOk ∧
      (sql.exec (insertOpening ++ insertValues e) db).2.1 = db' := by
  rw [mqttCacheWriteOnePayload_eq he] at h
  obtain ⟨hrc, hdb⟩ := Prod.mk.inj (Except.ok.inj h)
  refine ⟨?_, hdb⟩
  by_contra hne
  rw [if_pos hne] at hrc
  cases hrc

theorem write_of_exec (he : Fits e)
    (h : (sql.exec (insertOpening ++ insertValues e) db).1 = sqliteOk) :
    mqttCacheWriteOnePayload sql mqttCacheTable e db =
      .ok (0, (sql.exec (insertOpening ++ insertValues e) db).2.1) := by
  rw [mqttCacheWriteOnePayload_eq he, if_neg (not_not_intro h)]

theorem write_of_values (hsql : sql.FollowsRules) (he : Fits e) {topic payload : Bytes}
    (hvalues : Values (insertValues e) topic payload (ascii ")"))
    (haccepts : sql.accepts db topic payload) :
    ∃ row before after, row.sztopic = topic ∧ row.szpayload = payload ∧
      db.rows = before ++ after ∧ InsertedAt before after row ∧
        mqttCacheWriteOnePayload sql mqttCacheTable e db =
          .ok (0, ⟨before ++ row :: after, db.rest⟩) := by
  obtain ⟨row, before, after, htopic, hpayload, hrows, hinserted, hexec⟩ :=
    hsql.insert db _ _ _ hvalues haccepts
  refine ⟨row, before, after, htopic, hpayload, hrows, hinserted, ?_⟩
  rw [write_of_exec he (by rw [hexec]), hexec]

theorem write_ne_zero (hsql : sql.FollowsRules) (he : Fits e) (h : Refuses sql db e) :
    mqttCacheWriteOnePayload sql mqttCacheTable e db ≠ .ok (0, db') := by
  intro hwrite
  have hexec := (write_zero he hwrite).1
  cases h with
  | row hvalues hrefused => exact hsql.refused _ _ _ _ hvalues hrefused hexec
  | name hvalues hname hend hkeyword =>
      exact hsql.name _ _ _ _ _ _ hvalues hname hend hkeyword hexec

theorem accepts_of_write (hsql : sql.FollowsRules) (he : Fits e) (h : NoQuotes e)
    (hwrite : mqttCacheWriteOnePayload sql mqttCacheTable e db = .ok (0, db')) :
    sql.accepts db e.sztopic e.szpayload := by
  by_contra hrefused
  exact write_ne_zero hsql he (.row (values_of_noQuotes h) hrefused) hwrite

theorem storesAsGiven_of_noQuotes (hsql : sql.FollowsRules) (he : Fits e) (db : Db R)
    (h : NoQuotes e) : StoresAsGiven sql e db := by
  have hvalues := values_of_noQuotes h
  constructor
  · intro db' hwrite
    have haccepts := accepts_of_write hsql he h hwrite
    obtain ⟨row, before, after, htopic, hpayload, hrows, hinserted, hrow⟩ :=
      write_of_values hsql he hvalues haccepts
    obtain ⟨-, rfl⟩ := Prod.mk.inj (Except.ok.inj (hwrite.symm.trans hrow))
    have hback : ReadsBack sql e row := readsBack_of_select hsql he htopic hpayload
    exact ⟨row, before, after, hrows, rfl, hinserted, hback⟩
  · intro _ _ _ haccepts
    obtain ⟨row, before, after, -, -, -, -, hrow⟩ := write_of_values hsql he hvalues haccepts
    exact ⟨_, hrow⟩

/-- A row that is read back has the texts of the element, and the statement has
these as its values only if there are no quotes in them. -/
theorem noQuotes_of_storesAsGiven (hsql : sql.FollowsRules) (he : Fits e) (h : Takes sql db e)
    (hstores : StoresAsGiven sql e db) : NoQuotes e := by
  obtain ⟨topic, payload, hvalues, haccepts⟩ := h
  obtain ⟨row, before, after, rfl, rfl, hrows, hinserted, hwrite⟩ :=
    write_of_values hsql he hvalues haccepts
  obtain ⟨row', before', after', hrows', hdb, -, hback⟩ := hstores.stored _ hwrite
  obtain rfl : row = row' := by
    have hrowsEq : before ++ row :: after = before' ++ row' :: after' := congrArg Db.rows hdb
    have hmem : row ∈ before' ++ row' :: after' := hrowsEq ▸ List.mem_append_cons_self
    rcases List.mem_cons.mp (List.perm_middle.mem_iff.mp hmem) with hrow | hrow
    · exact hrow
    · rw [← hrows', hrows] at hrow
      exact absurd rfl (hinserted.fresh row hrow)
  obtain ⟨htopicText, hpayloadText⟩ := zero_notMem_of_values he hvalues
  obtain ⟨htopic, hpayload⟩ := texts_of_readsBack hsql db.rest htopicText hpayloadText hback
  rw [htopic, hpayload] at hvalues
  exact noQuotes_of_values hvalues

theorem storesAsGiven_iff_of_refuses (hsql : sql.FollowsRules) (he : Fits e)
    (h : Refuses sql db e) : StoresAsGiven sql e db ↔ ¬Updates sql db e := by
  constructor
  · rintro hstores ⟨⟨tsBuf, ostr, hpayload⟩, haccepts⟩
    obtain ⟨db', hwrite⟩ := hstores.accepted tsBuf ostr hpayload haccepts
    exact write_ne_zero hsql he h hwrite
  · intro hupdates
    constructor
    · intro db' hwrite
      exact absurd hwrite (write_ne_zero hsql he h)
    · intro tsBuf ostr hpayload haccepts
      exact absurd ⟨⟨tsBuf, ostr, hpayload⟩, haccepts⟩ hupdates

/-- Texts without quotes are stored as given.  Of the statements that the rules
take these are the only such ones; one that they refuse loses a message where the
call had to take it. -/
theorem storesAsGiven_noQuotes (hsql : sql.FollowsRules) (he : Fits e) (db : Db R) :
    (NoQuotes e → StoresAsGiven sql e db) ∧
      (Takes sql db e → (StoresAsGiven sql e db ↔ NoQuotes e)) ∧
        (Refuses sql db e → (StoresAsGiven sql e db ↔ ¬Updates sql db e)) := by
  refine ⟨storesAsGiven_of_noQuotes hsql he db, ?_, storesAsGiven_iff_of_refuses hsql he⟩
  intro htakes
  constructor
  · exact noQuotes_of_storesAsGiven hsql he htakes
  · exact storesAsGiven_of_noQuotes hsql he db

end Storing

section Tables

def CacheRow.texts (row : CacheRow) : Bytes × Bytes := (row.sztopic, row.szpayload)

variable {s : Mqtt.Depot} {m : Mqtt.Message} {rc : ℤ}

theorem exists_table (l : List (Bytes × Bytes)) : ∃ t : Mqtt.Table, t.texts = l := by
  induction l using List.reverseRecOn with
  | nil => exact ⟨.empty, rfl⟩
  | append_singleton l texts ih =>
      obtain ⟨t, rfl⟩ := ih
      exact ⟨t.insert ⟨0, ⟨Mqtt.cmdMqttSendkv, texts.1, texts.2⟩⟩, Mqtt.Table.texts_insert ..⟩

theorem values_of_inserted {row : Mqtt.Message} (h : m.inserted = some row) :
    Values (insertValues m.element) row.element.sztopic row.element.szpayload (ascii ")") := by
  obtain ⟨⟨topic, payload⟩, hvalues, rfl⟩ := Option.map_eq_some_iff.mp h
  exact values_of_readValues hvalues

/-- A statement that inserts two tokens puts these into the table, whichever
texts they were pasted from. -/
theorem texts_of_write (hsql : sql.FollowsRules) (he : Fits m.element)
    (hids : ∀ old ∈ db.rows, old.rowid < maxRowid)
    (hwrite : mqttCacheWriteOnePayload sql mqttCacheTable m.element db = .ok (0, db'))
    {row : Mqtt.Message} (hrow : m.inserted = some row) :
    db'.rows.map CacheRow.texts = db.rows.map CacheRow.texts ++ [row.texts] := by
  have hvalues := values_of_inserted hrow
  have haccepts : sql.accepts db row.element.sztopic row.element.szpayload := by
    by_contra hrefused
    exact write_ne_zero hsql he (.row hvalues hrefused) hwrite
  obtain ⟨new, before, after, htopic, hpayload, hrows, hinserted, hexec⟩ :=
    write_of_values hsql he hvalues haccepts
  obtain ⟨-, rfl⟩ := Prod.mk.inj (Except.ok.inj (hwrite.symm.trans hexec))
  obtain rfl : after = [] := hinserted.last (hrows ▸ hids)
  rw [hrows, List.append_nil, List.map_append, List.map_singleton, CacheRow.texts, htopic,
    hpayload]
  rfl

/-- The write of the spool is the one of `mqtt_cache.c`, where a call that fails
changes nothing. -/
theorem spoolExec_write (hsql : sql.FollowsRules) (he : Fits m.element)
    (hids : ∀ old ∈ db.rows, old.rowid < maxRowid)
    (hwrite : mqttCacheWriteOnePayload sql mqttCacheTable m.element db = .ok (rc, db'))
    (hfails : rc ≠ 0 → db' = db) (hs : db.rows.map CacheRow.texts = s.table.texts) :
    ∃ i s', Mqtt.spoolExec (.mqttCacheWriteOnePayload m) i s = some (rc, s') ∧
      db'.rows.map CacheRow.texts = s'.table.texts := by
  obtain ⟨otherwise, hotherwise⟩ := exists_table (db'.rows.map CacheRow.texts)
  refine ⟨⟨rc, none, none, otherwise⟩, _, rfl, ?_⟩
  by_cases hrc : rc = 0
  · subst hrc
    rw [if_pos rfl]
    change _ = (s.table.write m otherwise).texts
    cases hrow : m.inserted with
    | none => rw [Mqtt.Table.write, hrow, hotherwise]
    | some row =>
        rw [texts_of_write hsql he hids hwrite hrow, hs, Mqtt.Table.write, hrow,
          Mqtt.Table.texts_insert]
  · rw [if_neg hrc, hfails hrc, hs]

/-- The read of the spool gives the message that `mqtt_cache_read_one_payload`
copies into the element, and the id that it stores. -/
theorem spoolExec_read (hsql : sql.FollowsRules) {row : Mqtt.Row}
    (hrow : s.table.rows.head? = some row) (he : Fits row.message.element)
    (hs : db.rows.head? = some ⟨row.rowid, row.sztopic, row.szpayload⟩) (item : CacheItem) :
    ∃ i s' item', Mqtt.spoolExec .mqttCacheReadOnePayload i s = some (some row, s') ∧
      mqttCacheReadOnePayload sql mqttCacheTable item db = .ok (0, item') ∧
        item'.rowid = Mqtt.cacheItemIdx (some row) ∧
          item'.sztopic.string = .ok row.message.element.sztopic ∧
            item'.szpayload.string = .ok row.message.element.szpayload := by
  obtain ⟨item', hread, hrowid, htopic, hpayload⟩ :=
    readsBack_of_select (e := row.message.element) hsql he rfl rfl db item hs
  refine ⟨⟨0, none, none, s.table⟩, { s with phase := .read (some row) }, item', ?_, hread, hrowid,
    htopic, hpayload⟩
  simp only [Mqtt.spoolExec, if_true, hrow]

end Tables

/-! ### A data base that takes such statements -/

section Inserts

def nextRowid (rows : List CacheRow) : ℤ := rows.foldr (fun row n ↦ max n (row.rowid + 1)) 1

theorem lt_nextRowid {rows : List CacheRow} : ∀ row ∈ rows, row.rowid < nextRowid rows := by
  induction rows with
  | nil => simp
  | cons first rows ih =>
      intro row hrow
      have hstep : nextRowid (first :: rows) = max (nextRowid rows) (first.rowid + 1) := rfl
      rw [hstep]
      rcases List.mem_cons.mp hrow with rfl | hrow
      · exact (lt_add_one _).trans_le (le_max_right _ _)
      · exact (ih row hrow).trans_le (le_max_left _ _)

/-- A data base that knows the statements of the cache and no others. -/
def Sqlite.cacheOnly : Sqlite Unit where
  exec statement db :=
    if statement = ascii "select rowid,* from mqtt_cache limit 1" then
      (sqliteOk, db, db.rows.head?.toList.map CacheRow.columns)
    else
      match readValues statement with
      | some (topic, payload) =>
        (sqliteOk, ⟨db.rows ++ [⟨nextRowid db.rows, topic, payload⟩], db.rest⟩, [])
      | none => (1, db, [])
  accepts _ _ _ := true
  keyword _ := false

theorem exec_cacheOnly (db : Db Unit) (l : Bytes) :
    Sqlite.cacheOnly.exec (insertOpening ++ l) db =
      match readValues (insertOpening ++ l) with
      | some (topic, payload) =>
        (sqliteOk, ⟨db.rows ++ [⟨nextRowid db.rows, topic, payload⟩], db.rest⟩, [])
      | none => (1, db, []) := by
  have hne : insertOpening ++ l ≠ ascii "select rowid,* from mqtt_cache limit 1" := by
    intro h
    have hhead : some (105 : UInt8) = some 115 := congrArg List.head? h
    exact absurd hhead (by decide)
  simp only [Sqlite.cacheOnly, if_neg hne]

theorem followsRules_cacheOnly : Sqlite.cacheOnly.FollowsRules where
  insert db l topic payload h _ := by
    have hinserted : InsertedAt db.rows [] ⟨nextRowid db.rows, topic, payload⟩ := by
      refine ⟨?_, fun _ ↦ rfl⟩
      rw [List.append_nil]
      exact fun old hold ↦ (lt_nextRowid old hold).ne
    refine ⟨_, db.rows, [], rfl, rfl, (List.append_nil _).symm, hinserted, ?_⟩
    rw [exec_cacheOnly, readValues_of_values h, if_pos rfl]
  refused _ _ _ _ _ h := absurd rfl h
  name db l topic payload name rest h hname _ _ := by
    have hne : name ++ rest ≠ ascii ")" := by
      intro heq
      obtain ⟨b, tail, rfl⟩ := List.exists_cons_of_ne_nil hname.nonempty
      obtain ⟨rfl, -⟩ := List.cons.inj (heq.trans (by decide : ascii ")" = [41]))
      exact absurd (hname.bytes 41 List.mem_cons_self) (by decide)
    rw [exec_cacheOnly, readValues_of_values h, if_neg hne]
    exact (by decide : (1 : ℤ) ≠ sqliteOk)
  keyword := by decide
  select db row h := by
    have hexec : Sqlite.cacheOnly.exec (ascii "select rowid,* from mqtt_cache limit 1") db =
        (sqliteOk, db, db.rows.head?.toList.map CacheRow.columns) := by
      simp only [Sqlite.cacheOnly, if_true]
    rw [hexec, h]
    rfl

/-- A message with the payload `ready`. -/
def ready : Element := ⟨Mqtt.cmdMqttSendkv, ascii "pcs", ascii "ready"⟩

theorem fits_ready : Fits ready := by
  constructor <;> decide

theorem storesAsGiven_ready :
    StoresAsGiven Sqlite.cacheOnly ready ⟨[], ()⟩ ∧ Takes Sqlite.cacheOnly ⟨[], ()⟩ ready := by
  have hready : NoQuotes ready := by constructor <;> decide
  exact ⟨(storesAsGiven_noQuotes followsRules_cacheOnly fits_ready ⟨[], ()⟩).1 hready,
    _, _, values_of_noQuotes hready, rfl⟩

/-- A message of `cloud_update`. -/
def update : Element :=
  ⟨Mqtt.cmdMqttSendkv, ascii "pcs",
    cloudUpdatePayload (ascii "2024-01-01 00:00:00") (ascii "\x7b\"uab\":380\x7d")⟩

theorem not_storesAsGiven_update : ¬StoresAsGiven Sqlite.cacheOnly update ⟨[], ()⟩ := by
  have hfits : Fits update := by constructor <;> decide
  have hrefuses : Refuses Sqlite.cacheOnly ⟨[], ()⟩ update :=
    refuses_of_cloudUpdate followsRules_cacheOnly (by decide) rfl
  intro hstores
  exact (storesAsGiven_iff_of_refuses followsRules_cacheOnly hfits hrefuses).mp hstores
    ⟨⟨_, _, rfl⟩, rfl⟩

end Inserts

end MqttCache
