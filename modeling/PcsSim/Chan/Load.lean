import PcsSim.Chan.Init

/-!
# When the table is loaded

All rows are stored and counted, or `chan_init` reports a failure.
-/

namespace Chan

open MqttCache (Column sqliteOk)

section Writes

variable {i : ℕ} {chan chan' : ℕ → Channel} {column : Column} {columns : List Column}

/-- What writing to `chan[i]` does to the array. -/
structure Written (i : ℕ) (columns : List Column) (chan chan' : ℕ → Channel) : Prop where
  fits : ∀ column ∈ columns, ColumnFits i column
  others : ∀ j, j ≠ i ∨ chanNbrMax < j → chan' j = chan j
  entry : i ≤ chanNbrMax → columns.foldlM storeColumn (chan i) = .ok (chan' i)

theorem columnFits_of_storeColumn {ch ch' : Channel} (hi : i ≤ chanNbrMax)
    (h : storeColumn ch column = .ok ch') : ColumnFits i column := by
  intro f hf
  obtain ⟨text, hvalue, hfits, -⟩ := (storeColumn_of_some hf).mp h
  exact ⟨hi, text, hvalue, hfits⟩

theorem exists_storeColumn (h : ColumnFits i column) (ch : Channel) :
    ∃ ch', storeColumn ch column = .ok ch' := by
  cases hf : fieldOf column.columnname with
  | none => exact ⟨ch, storeColumn_of_none hf⟩
  | some f =>
      obtain ⟨-, text, hvalue, hfits⟩ := h f hf
      exact ⟨f.store text ch, (storeColumn_of_some hf).mpr ⟨text, hvalue, hfits, rfl⟩⟩

theorem writeColumn_spec (h : writeColumn i chan column = .ok chan') :
    Written i [column] chan chan' := by
  by_cases hi : i ≤ chanNbrMax
  · rw [writeColumn, if_pos hi] at h
    obtain ⟨ch, hstore, hch⟩ := Except.bind_eq_ok_iff.mp h
    obtain rfl := Except.ok.inj hch
    refine ⟨?_, ?_, fun _ ↦ ?_⟩
    · rintro c (_ | ⟨_, hc⟩)
      · exact columnFits_of_storeColumn hi hstore
      · cases hc
    · intro j hj
      apply Function.update_of_ne
      rintro rfl
      omega
    · rw [Function.update_self]
      exact Except.foldlM_cons_eq_ok_iff.mpr ⟨ch, hstore, rfl⟩
  · rw [writeColumn, if_neg hi] at h
    split_ifs at h with hsome
    obtain rfl := Except.ok.inj h
    refine ⟨?_, fun _ _ ↦ rfl, fun hle ↦ absurd hle hi⟩
    rintro c (_ | ⟨_, hc⟩) f hf
    · rw [hf] at hsome
      exact absurd rfl hsome
    · cases hc

theorem exists_writeColumn (h : ColumnFits i column) (chan : ℕ → Channel) :
    ∃ chan', writeColumn i chan column = .ok chan' := by
  by_cases hi : i ≤ chanNbrMax
  · obtain ⟨ch, hstore⟩ := exists_storeColumn h (chan i)
    refine ⟨Function.update chan i ch, ?_⟩
    rw [writeColumn, if_pos hi, hstore]
    rfl
  · refine ⟨chan, ?_⟩
    rw [writeColumn, if_neg hi, if_neg]
    intro hsome
    obtain ⟨f, hf⟩ := Option.isSome_iff_exists.mp hsome
    exact hi (h f hf).1

theorem Written.cons {chan'' : ℕ → Channel} (h : Written i [column] chan chan')
    (h' : Written i columns chan' chan'') : Written i (column :: columns) chan chan'' where
  fits := by
    rintro c (_ | ⟨_, hc⟩)
    · exact h.fits _ List.mem_cons_self
    · exact h'.fits c hc
  others j hj := (h'.others j hj).trans (h.others j hj)
  entry hi := by
    obtain ⟨ch, hstore, hch⟩ := Except.foldlM_cons_eq_ok_iff.mp (h.entry hi)
    obtain rfl := Except.ok.inj hch
    exact Except.foldlM_cons_eq_ok_iff.mpr ⟨_, hstore, h'.entry hi⟩

theorem writeRow_spec (h : columns.foldlM (writeColumn i) chan = .ok chan') :
    Written i columns chan chan' := by
  induction columns generalizing chan with
  | nil =>
      obtain rfl := Except.ok.inj h
      exact ⟨fun c hc ↦ absurd hc List.not_mem_nil, fun _ _ ↦ rfl, fun _ ↦ rfl⟩
  | cons column columns ih =>
      obtain ⟨chan₁, hcolumn, hrest⟩ := Except.foldlM_cons_eq_ok_iff.mp h
      exact (writeColumn_spec hcolumn).cons (ih hrest)

theorem exists_writeRow (h : ∀ column ∈ columns, ColumnFits i column) (chan : ℕ → Channel) :
    ∃ chan', columns.foldlM (writeColumn i) chan = .ok chan' := by
  induction columns generalizing chan with
  | nil => exact ⟨chan, rfl⟩
  | cons column columns ih =>
      obtain ⟨chan₁, hcolumn⟩ := exists_writeColumn (h column List.mem_cons_self) chan
      obtain ⟨chan₂, hrest⟩ := ih (fun c hc ↦ h c (List.mem_cons_of_mem column hc)) chan₁
      exact ⟨chan₂, Except.foldlM_cons_eq_ok_iff.mpr ⟨chan₁, hcolumn, hrest⟩⟩

end Writes

section Load

variable {rows : List (List Column)} {s s' : Loading}

/-- The rows go to the entries from `nrow + 1` on. -/
structure Loaded (rows : List (List Column)) (s s' : Loading) : Prop where
  nrow : s'.nrow = s.nrow + rows.length
  ret : s'.ret = if rows = [] then s.ret else 0
  fits : ∀ k row, rows[k]? = some row → ∀ column ∈ row, ColumnFits (s.nrow + 1 + k) column
  others : ∀ j, j ≤ s.nrow ∨ chanNbrMax < j → s'.chan j = s.chan j
  entry : ∀ k row, rows[k]? = some row → s.nrow + 1 + k ≤ chanNbrMax →
    row.foldlM storeColumn (s.chan (s.nrow + 1 + k)) = .ok (s'.chan (s.nrow + 1 + k))

theorem chanDbcb0_eq_ok_iff {row : List Column} :
    chanDbcb0 s row = .ok s' ↔ ∃ chan', row.foldlM (writeColumn (s.nrow + 1)) s.chan = .ok chan' ∧
      s' = ⟨0, s.nrow + 1, chan'⟩ := by
  rw [chanDbcb0, Except.bind_eq_ok_iff]
  constructor
  · rintro ⟨chan', hrow, hs⟩
    exact ⟨chan', hrow, (Except.ok.inj hs).symm⟩
  · rintro ⟨chan', hrow, rfl⟩
    exact ⟨chan', hrow, rfl⟩

theorem load_spec (h : rows.foldlM chanDbcb0 s = .ok s') : Loaded rows s s' := by
  induction rows generalizing s with
  | nil =>
      obtain rfl := Except.ok.inj h
      exact ⟨rfl, rfl, by simp, fun _ _ ↦ rfl, by simp⟩
  | cons row rows ih =>
      obtain ⟨s₁, hfirst, hrest⟩ := Except.foldlM_cons_eq_ok_iff.mp h
      obtain ⟨chan₁, hrow, rfl⟩ := chanDbcb0_eq_ok_iff.mp hfirst
      have hwritten := writeRow_spec hrow
      have hloaded := ih hrest
      refine ⟨?_, ?_, ?_, ?_, ?_⟩
      · rw [hloaded.nrow, List.length_cons]
        dsimp only
        omega
      · rw [hloaded.ret, if_neg (List.cons_ne_nil row rows)]
        exact ite_self 0
      · intro k row' hk
        cases k with
        | zero =>
            obtain rfl := Option.some.inj hk
            exact hwritten.fits
        | succ k =>
            have hindex : s.nrow + 1 + (k + 1) = s.nrow + 1 + 1 + k := by omega
            rw [hindex]
            exact hloaded.fits k row' hk
      · intro j hj
        rw [hloaded.others j (hj.imp Nat.le_succ_of_le id)]
        exact hwritten.others j (hj.imp (fun hle ↦ by omega) id)
      · intro k row' hk hle
        cases k with
        | zero =>
            obtain rfl := Option.some.inj hk
            rw [hloaded.others _ (.inl le_rfl)]
            exact hwritten.entry hle
        | succ k =>
            have hne : s.nrow + 1 + (k + 1) ≠ s.nrow + 1 := by omega
            have hindex : s.nrow + 1 + (k + 1) = s.nrow + 1 + 1 + k := by omega
            rw [← hwritten.others _ (.inl hne), hindex]
            exact hloaded.entry k row' hk (hindex ▸ hle)

theorem exists_load (h : ∀ k row, rows[k]? = some row →
    ∀ column ∈ row, ColumnFits (s.nrow + 1 + k) column) :
    ∃ s', rows.foldlM chanDbcb0 s = .ok s' := by
  induction rows generalizing s with
  | nil => exact ⟨s, rfl⟩
  | cons row rows ih =>
      obtain ⟨chan₁, hrow⟩ := exists_writeRow (h 0 row rfl) s.chan
      have hfirst : chanDbcb0 s row = .ok ⟨0, s.nrow + 1, chan₁⟩ :=
        chanDbcb0_eq_ok_iff.mpr ⟨chan₁, hrow, rfl⟩
      have hfits : ∀ k row', rows[k]? = some row' →
          ∀ column ∈ row', ColumnFits (s.nrow + 1 + 1 + k) column := by
        intro k row' hk
        have hindex : s.nrow + 1 + 1 + k = s.nrow + 1 + (k + 1) := by omega
        rw [hindex]
        exact h (k + 1) row' hk
      obtain ⟨s₂, hrest⟩ := ih (s := ⟨0, s.nrow + 1, chan₁⟩) hfits
      exact ⟨s₂, Except.foldlM_cons_eq_ok_iff.mpr ⟨_, hfirst, hrest⟩⟩

/-- A row is enough to forget what `ret` was. -/
theorem load_ret (hne : rows ≠ []) (ret ret' : ℤ) (chan : ℕ → Channel) :
    rows.foldlM chanDbcb0 ⟨ret, 0, chan⟩ = rows.foldlM chanDbcb0 ⟨ret', 0, chan⟩ := by
  cases rows with
  | nil => exact absurd rfl hne
  | cons row rows => rfl

end Load

section Start

variable {outcome : ℕ → Outcome} {chan chan' : ℕ → Channel}

theorem chanStart_returns_iff {o : Outcome} {s : State} :
    (∃ r, chanStart o s = .ok r) ↔ (s.ch.mode = .modbusRtu → o.created = true) := by
  refine ⟨?_, chanStart_returns⟩
  rintro ⟨r, hr⟩ hrtu
  by_contra hcreated
  have hstart : chanStart o s = chanStartRtu o (s.setStarted 0) := by
    simp [chanStart, State.setStarted, hrtu]
  rw [hstart, chanStartRtu_of_not_created (Bool.eq_false_iff.mpr hcreated)] at hr
  cases hr

/-- What the start of the entries from `i` on does to the array. -/
structure Started (outcome : ℕ → Outcome) (n i : ℕ) (chan chan' : ℕ → Channel) : Prop where
  bound : 0 < n → i + n ≤ chanNbrMax + 1
  others : ∀ j, j < i ∨ i + n ≤ j → chan' j = chan j
  entry : ∀ j, i ≤ j → j < i + n → ∃ r, chanStart (outcome j) (chan j).prepare.toState = .ok r ∧
    chan' j = { (chan j).prepare with toState := r.2 }

theorem startLoop_spec {n i : ℕ} (h : startLoop outcome n i chan = .ok chan') :
    Started outcome n i chan chan' := by
  induction n generalizing i chan with
  | zero =>
      obtain rfl := Except.ok.inj h
      exact ⟨fun hpos ↦ absurd hpos (Nat.lt_irrefl 0), fun _ _ ↦ rfl, fun j hle hlt ↦ by omega⟩
  | succ n ih =>
      rw [startLoop] at h
      split_ifs at h with hi
      obtain ⟨⟨ret, s⟩, hstart, hrest⟩ := Except.bind_eq_ok_iff.mp h
      have hstarted := ih hrest
      refine ⟨fun _ ↦ ?_, ?_, ?_⟩
      · rcases Nat.eq_zero_or_pos n with rfl | hpos
        · omega
        · have := hstarted.bound hpos
          omega
      · intro j hj
        rw [hstarted.others j (by omega)]
        exact Function.update_of_ne (by omega) _ _
      · intro j hle hlt
        rcases Nat.eq_or_lt_of_le hle with rfl | hgt
        · refine ⟨(ret, s), hstart, ?_⟩
          rw [hstarted.others i (.inl (Nat.lt_succ_self i)), Function.update_self]
        · obtain ⟨r, hr, hentry⟩ := hstarted.entry j hgt (by omega)
          rw [Function.update_of_ne (by omega)] at hr hentry
          exact ⟨r, hr, hentry⟩

theorem exists_startLoop {n i : ℕ} (hbound : i + n ≤ chanNbrMax + 1)
    (h : ∀ j, i ≤ j → j < i + n → ∃ r, chanStart (outcome j) (chan j).prepare.toState = .ok r) :
    ∃ chan', startLoop outcome n i chan = .ok chan' := by
  induction n generalizing i chan with
  | zero => exact ⟨chan, rfl⟩
  | succ n ih =>
      obtain ⟨r, hr⟩ := h i le_rfl (by omega)
      let chan₁ := Function.update chan i { (chan i).prepare with toState := r.2 }
      have hlater : ∀ j, i + 1 ≤ j → j < i + 1 + n →
          ∃ r, chanStart (outcome j) (chan₁ j).prepare.toState = .ok r := by
        intro j hle hlt
        rw [show chan₁ j = chan j from Function.update_of_ne (by omega) _ _]
        exact h j (by omega) (by omega)
      obtain ⟨chan', hrest⟩ := ih (by omega) hlater
      refine ⟨chan', ?_⟩
      rw [startLoop, if_pos (by omega)]
      simp only [hr, Except.ok_bind_eq]
      exact hrest

theorem Field.Holds.started {f : Field} {text : Bytes} {ch : Channel} {o : Outcome}
    {r : ℤ × State} (h : f.Holds text ch) (hr : chanStart o ch.prepare.toState = .ok r) :
    f.Holds text { ch.prepare with toState := r.2 } := by
  have hsame := SameSettings.chanStart hr
  cases f
  case mode => exact ⟨hsame.szmode.trans h.1, hsame.mode.trans h.2⟩
  case restartTimes => exact hsame.restartTimes.trans h
  case retryTimes => exact hsame.retryTimes.trans h
  all_goals exact h

theorem StoresRow.started {row : List Column} {ch : Channel} {o : Outcome} {r : ℤ × State}
    (h : StoresRow row ch) (hr : chanStart o ch.prepare.toState = .ok r) :
    StoresRow row { ch.prepare with toState := r.2 } := by
  intro column hmem f hf
  obtain ⟨text, hvalue, hholds⟩ := h column hmem f hf
  exact ⟨text, hvalue, hholds.started hr⟩

end Start

/-! ## Loading -/

/-- The mode of an entry after its row is stored. -/
def rowMode (old : Mode) (row : List Column) : Mode :=
  match row.find? fun column ↦ column.columnname = ascii "mode" with
  | some ⟨_, some text⟩ => chanModeStr2nbr text
  | _ => old

theorem mode_eq_rowMode {row : List Column} {ch ch' : Channel}
    (hdistinct : (row.map Column.columnname).Nodup) (h : row.foldlM storeColumn ch = .ok ch') :
    ch'.ch.mode = rowMode ch.ch.mode row := by
  rw [rowMode]
  cases hfind : row.find? fun column ↦ column.columnname = ascii "mode" with
  | none =>
      apply mode_of_foldlM h
      intro column hmem hf
      have hname := List.find?_eq_none.mp hfind column hmem
      exact hname (decide_eq_true (fieldOf_eq_some_iff.mp hf))
  | some column =>
      obtain ⟨columnname, columnvalue⟩ := column
      have hfound := List.find?_some hfind
      have hname : columnname = ascii "mode" := of_decide_eq_true hfound
      have hf : fieldOf columnname = some .mode := fieldOf_eq_some_iff.mpr hname
      obtain ⟨text, hvalue, hholds⟩ :=
        storesRow_of_foldlM hdistinct h _ (List.mem_of_find?_eq_some hfind) .mode hf
      obtain rfl : columnvalue = some text := hvalue
      exact hholds.2

/-- All rows are stored, or a failure is reported; nothing is written beside the
entries from 1 on, and what `ret` was does not matter. -/
def LoadsTable {t : Table} (exec : Exec t) (outcome : ℕ → Outcome) (s : Channels) : Prop :=
  ∃ result s', (∀ ret, chanInit exec outcome s ret = .ok (result, s')) ∧
    (∀ i, ¬(1 ≤ i ∧ i ≤ chanNbrMax) → s'.chan i = s.chan i) ∧
      (result ≠ 0 ∨ s'.channbr = t.rows.length ∧ t.rows.length ≤ chanNbrMax ∧
        ∀ k row, t.rows[k]? = some row → StoresRow row (s'.chan (1 + k)))

structure Loadable {t : Table} (exec : Exec t) (outcome : ℕ → Outcome) (s : Channels) :
    Prop where
  fits : ∀ k row, exec.rows[k]? = some row → ∀ column ∈ row, ColumnFits (1 + k) column
  number : exec.result = sqliteOk → 1 ≤ t.rows.length ∧ t.rows.length ≤ chanNbrMax
  starts : exec.result = sqliteOk → ∀ k row, t.rows[k]? = some row →
    rowMode (s.chan (1 + k)).ch.mode row = .modbusRtu → (outcome (1 + k)).created = true

section Loading

variable {t : Table} {exec : Exec t} {outcome : ℕ → Outcome} {s : Channels}

theorem rows_of_complete (h : exec.result = sqliteOk) : exec.rows = t.rows :=
  List.take_of_length_le (exec.complete h)

theorem chanInit_of_load {ret : ℤ} {loaded : Loading}
    (h : exec.rows.foldlM chanDbcb0 ⟨ret, 0, s.chan⟩ = .ok loaded) :
    chanInit exec outcome s ret =
      if exec.result ≠ sqliteOk then .ok (-1, { s with chan := loaded.chan })
      else if loaded.ret ≠ 0 then .ok (-2, { s with chan := loaded.chan })
      else startLoop outcome loaded.nrow 1 loaded.chan >>= fun chan ↦
        .ok (0, { chan := chan, channbr := loaded.nrow }) := by
  rw [chanInit, h]
  rfl

theorem not_loadsTable_of_empty (hresult : exec.result = sqliteOk) (hrows : t.rows = []) :
    ¬LoadsTable exec outcome s := by
  rintro ⟨result, s', hall, -⟩
  have hnone : exec.rows = [] := (rows_of_complete hresult).trans hrows
  have hload : ∀ ret, exec.rows.foldlM chanDbcb0 ⟨ret, 0, s.chan⟩ = .ok ⟨ret, 0, s.chan⟩ := by
    intro ret
    rw [hnone]
    rfl
  have hzero := hall 0
  have hone := hall 1
  rw [chanInit_of_load (hload 0), if_neg (not_not.mpr hresult), if_neg (by simp)] at hzero
  rw [chanInit_of_load (hload 1), if_neg (not_not.mpr hresult), if_pos (by simp)] at hone
  have hresult₀ : (0 : ℤ) = result := congrArg Prod.fst (Except.ok.inj hzero)
  have hresult₁ : (-2 : ℤ) = result := congrArg Prod.fst (Except.ok.inj hone)
  omega

/-- The rows that were stored, and the mode that each entry has got. -/
theorem Loaded.mode {loaded : Loading} (h : Loaded t.rows ⟨0, 0, s.chan⟩ loaded) {k : ℕ}
    {row : List Column} (hk : t.rows[k]? = some row) (hle : 1 + k ≤ chanNbrMax) :
    StoresRow row (loaded.chan (1 + k)) ∧
      (loaded.chan (1 + k)).ch.mode = rowMode (s.chan (1 + k)).ch.mode row := by
  have hdistinct := t.distinct row (List.mem_of_getElem? hk)
  have hentry := h.entry k row hk (by simpa using hle)
  rw [Nat.zero_add] at hentry
  exact ⟨storesRow_of_foldlM hdistinct hentry, mode_eq_rowMode hdistinct hentry⟩

theorem loadable_of_loadsTable (h : LoadsTable exec outcome s) : Loadable exec outcome s := by
  obtain ⟨result, s', hall, -, -⟩ := id h
  obtain ⟨loaded, hload, -⟩ := Except.bind_eq_ok_iff.mp (hall 0)
  have hloaded := load_spec hload
  have hinit := hall 0
  rw [chanInit_of_load hload] at hinit
  refine ⟨fun k row hk ↦ ?_, ?_, ?_⟩
  · simpa using hloaded.fits k row hk
  all_goals
    intro hresult
    rw [rows_of_complete hresult] at hloaded
    have hne : t.rows ≠ [] := fun hnil ↦ not_loadsTable_of_empty hresult hnil h
    have hret : loaded.ret = 0 := by rw [hloaded.ret, if_neg hne]
    rw [if_neg (not_not.mpr hresult), if_neg (not_not.mpr hret)] at hinit
    obtain ⟨chan, hloop, -⟩ := Except.bind_eq_ok_iff.mp hinit
    have hstarted := startLoop_spec hloop
    have hpos := List.length_pos_iff.mpr hne
    have hnrow : loaded.nrow = t.rows.length := by rw [hloaded.nrow, Nat.zero_add]
    rw [hnrow] at hstarted
    have hbound := hstarted.bound hpos
  · omega
  · intro k row hk
    have hlt : k < t.rows.length := (List.getElem?_eq_some_iff.mp hk).1
    obtain ⟨r, hr, -⟩ := hstarted.entry (1 + k) (by omega) (by omega)
    rw [← (hloaded.mode hk (by omega)).2]
    intro hrtu
    exact chanStart_returns_iff.mp ⟨r, hr⟩ hrtu

theorem exists_loaded (h : Loadable exec outcome s) :
    ∃ nrow chan, ∀ ret, exec.rows.foldlM chanDbcb0 ⟨ret, 0, s.chan⟩ =
      .ok ⟨if exec.rows = [] then ret else 0, nrow, chan⟩ := by
  have hfits : ∀ k row, exec.rows[k]? = some row →
      ∀ column ∈ row, ColumnFits ((⟨0, 0, s.chan⟩ : Loading).nrow + 1 + k) column := by
    intro k row hk
    simpa using h.fits k row hk
  obtain ⟨⟨ret₀, nrow, chan⟩, hload⟩ := exists_load hfits
  refine ⟨nrow, chan, fun ret ↦ ?_⟩
  by_cases hnil : exec.rows = []
  · rw [hnil] at hload ⊢
    obtain ⟨-, rfl, rfl⟩ := Loading.mk.inj (Except.ok.inj hload)
    rfl
  · have hret : ret₀ = 0 := by
      have hspec := (load_spec hload).ret
      rwa [if_neg hnil] at hspec
    rw [load_ret hnil ret 0, hload, if_neg hnil, hret]

theorem loadsTable_of_loadable (h : Loadable exec outcome s) : LoadsTable exec outcome s := by
  obtain ⟨nrow, chan, hload⟩ := exists_loaded h
  have hloaded := load_spec (hload 0)
  have houtside : ∀ i, ¬(1 ≤ i ∧ i ≤ chanNbrMax) → chan i = s.chan i := by
    intro i hi
    exact hloaded.others i (by dsimp only; omega)
  by_cases hresult : exec.result = sqliteOk
  · obtain ⟨hpos, hmax⟩ := h.number hresult
    rw [rows_of_complete hresult] at hloaded
    have hne : exec.rows ≠ [] := by
      rw [rows_of_complete hresult]
      exact List.length_pos_iff.mp hpos
    have hnrow : nrow = t.rows.length := by
      rw [show nrow = _ from hloaded.nrow, Nat.zero_add]
    have hreturns : ∀ j, 1 ≤ j → j < 1 + nrow →
        ∃ r, chanStart (outcome j) (chan j).prepare.toState = .ok r := by
      intro j hle hlt
      obtain ⟨k, rfl⟩ := Nat.exists_eq_add_of_le hle
      have hk : t.rows[k]? = some t.rows[k] := List.getElem?_eq_getElem (by omega)
      apply chanStart_returns
      intro hrtu
      apply h.starts hresult k _ hk
      rw [← (hloaded.mode hk (by omega)).2]
      exact hrtu
    obtain ⟨chan', hloop⟩ := exists_startLoop (by omega) hreturns
    have hstarted := startLoop_spec hloop
    refine ⟨0, ⟨chan', nrow⟩, fun ret ↦ ?_, fun i hi ↦ ?_, .inr ⟨hnrow, hmax, fun k row hk ↦ ?_⟩⟩
    · rw [chanInit_of_load (hload ret), if_neg (not_not.mpr hresult), if_neg hne,
        if_neg (not_not.mpr rfl), hloop]
      rfl
    · exact (hstarted.others i (by omega)).trans (houtside i hi)
    · have hlt : k < t.rows.length := (List.getElem?_eq_some_iff.mp hk).1
      obtain ⟨r, hr, hentry⟩ := hstarted.entry (1 + k) (by omega) (by omega)
      have hstored := (hloaded.mode hk (by omega)).1.started hr
      rw [← hentry] at hstored
      exact hstored
  · refine ⟨-1, { s with chan := chan }, fun ret ↦ ?_, houtside, .inl (by decide)⟩
    rw [chanInit_of_load (hload ret), if_pos hresult]

/-- A table without rows leaves `ret` as it was, and the bound of the array is not
checked. -/
theorem loadsTable_iff (exec : Exec t) (outcome : ℕ → Outcome) (s : Channels) :
    LoadsTable exec outcome s ↔ Loadable exec outcome s :=
  ⟨loadable_of_loadsTable, loadsTable_of_loadable⟩

end Loading

/-- The query for all of a table succeeds. -/
def succeeds (t : Table) : Exec t := ⟨sqliteOk, t.rows.length, fun _ ↦ le_rfl⟩

def emptyTable : Table := ⟨[], fun _ hrow ↦ absurd hrow List.not_mem_nil⟩

def blank : Channels where
  chan _ :=
    { toState := .start [] 0 0, szinfo := [], szdev := [], szparity := [], servip := [], port := 0
      baud := 0, servport := 0, dbg := 0 }
  channbr := 0

theorem not_loadsTable_emptyTable :
    chanInit (succeeds emptyTable) (fun _ ↦ ⟨true, true, 0⟩) blank 0 = .ok (0, blank) ∧
      chanInit (succeeds emptyTable) (fun _ ↦ ⟨true, true, 0⟩) blank 1 = .ok (-2, blank) ∧
        ¬LoadsTable (succeeds emptyTable) (fun _ ↦ ⟨true, true, 0⟩) blank :=
  ⟨rfl, rfl, not_loadsTable_of_empty rfl rfl⟩

end Chan
