import PcsSim.CJson.Digits

/-!
# Printing what was parsed

A tree that `cJSON_Parse` returned can be printed, and its text parsed again:
the second tree is the first one up to the last digits of its numbers.
-/

namespace CJson

open Binary64 (IsDouble isDouble_zero)

section Parsed

variable {D : Type} {ops : Numbers D}

theorem Within.setString {n : ℕ} {x : CJson D} (h : Within n x) (name : Option Bytes) :
    Within n { x with string := name } := by
  cases h with
  | leaf array object => exact .leaf array object
  | nested below => exact .nested below

theorem within_scalars (n : ℕ) : Scalars ops fun _ x _ ↦ Within n x where
  null _ := .leaf CJsonType.noConfusion CJsonType.noConfusion
  false_ _ := .leaf CJsonType.noConfusion CJsonType.noConfusion
  true_ _ := .leaf CJsonType.noConfusion CJsonType.noConfusion
  string _ _ _ _ := .leaf CJsonType.noConfusion CJsonType.noConfusion
  number := by
    intro l x rest h
    simp only [parseNumber] at h
    split_ifs at h
    cases h
    exact .leaf CJsonType.noConfusion CJsonType.noConfusion

/-- The parser does not go deeper than it is allowed to. -/
theorem within_parseValue (n : ℕ) : (parseValue ops n).Yields (Within n) := by
  induction n with
  | zero =>
      exact meets_parseKinds (within_scalars 0) (fun _ _ _ h ↦ by cases h)
        (fun _ _ _ h ↦ by cases h)
  | succ n ih =>
      apply meets_parseKinds (within_scalars (n + 1))
      · intro l x rest h
        simp only [parseArray, Option.map_eq_some_iff, Prod.mk.injEq] at h
        obtain ⟨⟨xs, rest'⟩, hxs, rfl, rfl⟩ := h
        exact .nested (yields_parseItems ih _ _ _ hxs)
      · have hmember : (parseMember (parseValue ops n)).Yields (Within n) := by
          intro l x rest h
          obtain ⟨name, tail, tail', y, -, -, hy, rfl⟩ := parseMember_eq_some h
          exact (ih _ _ _ hy).setString (some name)
        intro l x rest h
        simp only [parseObject, Option.map_eq_some_iff, Prod.mk.injEq] at h
        obtain ⟨⟨xs, rest'⟩, hxs, rfl, rfl⟩ := h
        exact .nested (yields_parseItems hmember _ _ _ hxs)

theorem within_of_parse {value : Bytes} {x : CJson D} (h : parse ops value = some x) :
    Within nestingLimit x := by
  simp only [parse, Option.map_eq_some_iff] at h
  obtain ⟨⟨y, rest⟩, hy, rfl⟩ := h
  exact within_parseValue nestingLimit _ _ _ hy

end Parsed

section Storable

/-- C strings, a number that a `double` can hold, and a type that the parser
gives. -/
structure Storable (x : CJson Binary64) : Prop where
  ordinary : Ordinary x
  valuestring : 0 ∉ x.valuestring.getD []
  string : 0 ∉ x.string.getD []
  valuedouble : x.valuedouble.IsDouble

theorem storable_newItem {type : CJsonType} (hvalid : type ≠ .invalid) (hraw : type ≠ .raw)
    (child : List (CJson Binary64)) :
    Storable { newItem Numbers.binary64 type with child := child } :=
  ⟨⟨hvalid, hraw⟩, List.not_mem_nil, List.not_mem_nil, isDouble_zero false⟩

theorem everywhere_leaf {P : CJson Binary64 → Prop} {x : CJson Binary64} (hx : P x)
    (hchild : x.child = []) : Everywhere P x := by
  refine .item hx ?_
  rw [hchild]
  exact List.forall_mem_nil _

theorem storable_scalars : Scalars Numbers.binary64 fun _ x _ ↦ Everywhere Storable x where
  null _ :=
    everywhere_leaf (storable_newItem CJsonType.noConfusion CJsonType.noConfusion []) rfl
  false_ _ :=
    everywhere_leaf (storable_newItem CJsonType.noConfusion CJsonType.noConfusion []) rfl
  true_ _ :=
    everywhere_leaf ⟨⟨CJsonType.noConfusion, CJsonType.noConfusion⟩, List.not_mem_nil,
      List.not_mem_nil, isDouble_zero false⟩ rfl
  string _ _ _ h :=
    everywhere_leaf ⟨⟨CJsonType.noConfusion, CJsonType.noConfusion⟩,
      zero_not_mem_of_parseString h, List.not_mem_nil, isDouble_zero false⟩ rfl
  number := by
    intro l x rest h
    simp only [parseNumber] at h
    split_ifs at h
    cases h
    exact everywhere_leaf ⟨⟨CJsonType.noConfusion, CJsonType.noConfusion⟩, List.not_mem_nil,
      List.not_mem_nil, Binary64.isDouble_signed _ _⟩ rfl

theorem storable_of_parse {value : Bytes} {x : CJson Binary64}
    (h : parse Numbers.binary64 value = some x) : Everywhere Storable x := by
  simp only [parse, Option.map_eq_some_iff] at h
  obtain ⟨⟨y, rest⟩, hy, rfl⟩ := h
  refine meets_parseValue storable_scalars (fun value hvalue ↦ ?_) (fun value hvalue ↦ ?_) _ _ _ _
    hy
  · intro l x rest h
    simp only [parseArray, Option.map_eq_some_iff, Prod.mk.injEq] at h
    obtain ⟨⟨xs, rest'⟩, hxs, rfl, rfl⟩ := h
    exact .item (storable_newItem CJsonType.noConfusion CJsonType.noConfusion xs)
      (yields_parseItems hvalue _ _ _ hxs)
  · have hmember : (parseMember value).Yields (Everywhere Storable) := by
      intro l x rest h
      obtain ⟨name, tail, tail', y, hname, -, hy, rfl⟩ := parseMember_eq_some h
      cases hvalue _ _ _ hy with
      | item here below =>
          exact .item ⟨⟨here.ordinary.valid, here.ordinary.raw⟩, here.valuestring,
            zero_not_mem_of_parseString hname, here.valuedouble⟩ below
    intro l x rest h
    simp only [parseObject, Option.map_eq_some_iff, Prod.mk.injEq] at h
    obtain ⟨⟨xs, rest'⟩, hxs, rfl, rfl⟩ := h
    exact .item (storable_newItem CJsonType.noConfusion CJsonType.noConfusion xs)
      (yields_parseItems hmember _ _ _ hxs)

theorem Storable.readable {x : CJson Binary64} (h : Storable x) : Readable .binary64 x :=
  ⟨⟨shortNumber_of_isDouble h.valuedouble, h.valuestring, h.string⟩, h.ordinary⟩

end Storable

section Agreement

/-- `y` is `x` with numbers that were written in digits and read back; numbers
that are not finite are lost. -/
inductive Agrees : CJson Binary64 → CJson Binary64 → Prop
  | number {x y : CJson Binary64} (type : x.type = .number) (value : x.valuedouble.isFinite)
      (type' : y.type = .number) (reads : ReadsBack x.valuedouble y.valuedouble) : Agrees x y
  | lost {x y : CJson Binary64} (type : x.type = .number) (value : ¬x.valuedouble.isFinite)
      (type' : y.type = .null) : Agrees x y
  | other {x y : CJson Binary64} (type : x.type ≠ .number) (type' : y.type = x.type)
      (text : y.valuestring = x.valuestring)
      (names : y.child.map CJson.string = x.child.map CJson.string)
      (below : ∀ p ∈ x.child.zip y.child, Agrees p.1 p.2) : Agrees x y

variable {x y : CJson Binary64}

theorem Agrees.setString (h : Agrees x y) (name : Option Bytes) :
    Agrees x { y with string := name } := by
  cases h with
  | number type value type' reads => exact .number type value type' reads
  | lost type value type' => exact .lost type value type'
  | other type type' text names below => exact .other type type' text names below

variable {D : Type}

theorem rereadElements_eq_map (ops : Printing D) (items : List (CJson D)) :
    rereadElements ops items = items.map (reread ops) := by
  induction items with
  | nil => rw [rereadElements, List.map_nil]
  | cons x items ih => rw [rereadElements, ih, List.map_cons]

theorem rereadMembers_eq_map (ops : Printing D) (items : List (CJson D)) :
    rereadMembers ops items =
      items.map fun item ↦ { reread ops item with string := some (item.string.getD []) } := by
  induction items with
  | nil => rw [rereadMembers, List.map_nil]
  | cons x items ih => rw [rereadMembers, ih, List.map_cons]

theorem string_reread (ops : Printing D) (x : CJson D) : (reread ops x).string = none := by
  obtain ⟨type, valuestring, valueint, valuedouble, string, child⟩ := x
  cases type with
  | number =>
      rw [reread, rereadNumber]
      split_ifs <;> rfl
  | _ => rw [reread]; rfl

theorem agrees_zip {items : List (CJson Binary64)} {f : CJson Binary64 → CJson Binary64}
    (h : ∀ x ∈ items, Agrees x (f x)) : ∀ p ∈ items.zip (items.map f), Agrees p.1 p.2 := by
  intro p hp
  have hzip : items.zip (items.map f) = items.map fun x ↦ (x, f x) := by
    have hmap := @List.zip_map' _ _ _ id f items
    rwa [List.map_id] at hmap
  rw [hzip] at hp
  obtain ⟨x, hx, rfl⟩ := List.mem_map.mp hp
  exact h x hx

theorem agrees_rereadNumber (type : x.type = .number) (hx : x.valuedouble.IsDouble) :
    Agrees x (rereadNumber .binary64 x.valuedouble) := by
  rw [rereadNumber]
  split_ifs with hvalue
  · exact .number type hvalue rfl (readsBack_numberText hx hvalue)
  · exact .lost type hvalue rfl

theorem some_getD_of_isSome {text : Option Bytes} (h : text.isSome) :
    some (text.getD []) = text := by
  obtain ⟨s, rfl⟩ := Option.isSome_iff_exists.mp h
  rfl

theorem agrees_leaf (hformed : WellFormed x) (type : x.type ≠ .number) (array : x.type ≠ .array)
    (object : x.type ≠ .object) (type' : y.type = x.type) (text : y.valuestring = x.valuestring)
    (hchild : y.child = []) : Agrees x y := by
  have hempty : x.child = [] := by
    cases hformed with
    | item _ leaf _ _ =>
        by_contra hne
        exact (leaf hne).elim array object
  apply Agrees.other type type' text
  · rw [hempty, hchild]
  · rw [hempty, List.zip_nil_left]
    exact List.forall_mem_nil _

theorem agrees_reread (hx : Everywhere Storable x) (hformed : WellFormed x) :
    Agrees x (reread .binary64 x) := by
  induction x using children_induction with
  | h x ih =>
  have hchild : ∀ y ∈ x.child, Agrees y (reread .binary64 y) := by
    intro y hy
    cases hx with
    | item _ below => exact ih y hy (below y hy) (hformed.of_mem hy)
  have hnames : ∀ y ∈ x.child, (y.string.isSome ↔ x.type = .object) := fun y hy ↦ hformed.named hy
  have htext := hformed.text
  have hnumber := hx.here.valuedouble
  have hordinary := hx.here.ordinary
  obtain ⟨type, valuestring, valueint, valuedouble, string, child⟩ := x
  have hplain : type ≠ .string → valuestring = none := by
    intro hne
    simpa [hne] using htext
  cases type with
  | null | false_ | true_ =>
      exact agrees_leaf hformed CJsonType.noConfusion CJsonType.noConfusion CJsonType.noConfusion
        rfl (hplain CJsonType.noConfusion).symm rfl
  | number => exact agrees_rereadNumber rfl hnumber
  | string =>
      exact agrees_leaf hformed CJsonType.noConfusion CJsonType.noConfusion CJsonType.noConfusion
        rfl (some_getD_of_isSome (htext.mpr rfl)) rfl
  | array =>
      rw [reread, rereadElements_eq_map]
      refine Agrees.other CJsonType.noConfusion rfl (hplain CJsonType.noConfusion).symm ?_ ?_
      · rw [List.map_map]
        apply List.map_congr_left
        intro y hy
        have hnone : y.string = none := by simpa using hnames y hy
        rw [Function.comp_apply, string_reread, hnone]
      · exact agrees_zip hchild
  | object =>
      rw [reread, rereadMembers_eq_map]
      refine Agrees.other CJsonType.noConfusion rfl (hplain CJsonType.noConfusion).symm ?_ ?_
      · rw [List.map_map]
        apply List.map_congr_left
        intro y hy
        exact some_getD_of_isSome ((hnames y hy).mpr rfl)
      · exact agrees_zip fun y hy ↦ (hchild y hy).setString _
  | raw => exact absurd rfl hordinary.raw
  | invalid => exact absurd rfl hordinary.valid

/-- What was parsed is printed without a fault, and what is printed parses to
the same tree up to the last digits of its numbers. -/
theorem parse_print_parse {value : Bytes} (h : parse Numbers.binary64 value = some x)
    (format : Bool) :
    (∃ text y, print .binary64 format x = .ok text ∧ parse Numbers.binary64 text = some y ∧
      Agrees x y) ∨
    print .binary64 format x = .error .refused ∧
      maxSize < (printed .binary64 format x 0).length + 2 := by
  have hstorable := storable_of_parse h
  have hreadable : Everywhere (Readable .binary64) x := hstorable.imp fun _ hy ↦ hy.readable
  have hparse := parse_printed followsPrintf_binary64 hreadable (within_of_parse h) format
  rw [print_of_readable hreadable format]
  split_ifs with hroom
  · exact .inl ⟨_, _, rfl, hparse, agrees_reread hstorable (wellFormed_of_parse h)⟩
  · exact .inr ⟨rfl, not_le.mp hroom⟩

theorem parse_print_parse_array :
    ∃ x, parse Numbers.binary64 (ascii "[0.1,\x7b\"a\":null\x7d]") = some x ∧
      ((∃ text y, print .binary64 true x = .ok text ∧ parse Numbers.binary64 text = some y ∧
        Agrees x y) ∨
      print .binary64 true x = .error .refused ∧
        maxSize < (printed .binary64 true x 0).length + 2) := by
  have hparses : (parse Numbers.binary64 (ascii "[0.1,\x7b\"a\":null\x7d]")).isSome := by
    decide +kernel
  obtain ⟨x, hx⟩ := Option.isSome_iff_exists.mp hparses
  exact ⟨x, hx, parse_print_parse hx true⟩

end Agreement

end CJson
