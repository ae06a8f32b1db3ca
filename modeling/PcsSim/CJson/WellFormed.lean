import Mathlib.Data.List.TakeWhile
import PcsSim.CJson.Parse

/-!
# What the parser returns

An induction over the values read, and from it: the trees are well formed, and
the loops over items end because the text does.
-/

namespace CJson

variable {D : Type} {ops : Numbers D}

/-- The shape of a parsed item: a text exactly on strings, children only under
arrays and objects, names exactly on the members of objects. -/
inductive WellFormed : CJson D → Prop
  | item {x : CJson D}
      (text : x.valuestring.isSome ↔ x.type = .string)
      (leaf : x.child ≠ [] → x.type = .array ∨ x.type = .object)
      (named : ∀ y ∈ x.child, (y.string.isSome ↔ x.type = .object))
      (below : ∀ y ∈ x.child, WellFormed y) : WellFormed x

namespace WellFormed

variable {x y : CJson D}

theorem text (h : WellFormed x) : x.valuestring.isSome ↔ x.type = .string := by
  cases h with
  | item text _ _ _ => exact text

theorem named (h : WellFormed x) (hy : y ∈ x.child) : y.string.isSome ↔ x.type = .object := by
  cases h with
  | item _ _ named _ => exact named y hy

theorem of_mem (h : WellFormed x) (hy : y ∈ x.child) : WellFormed y := by
  cases h with
  | item _ _ _ below => exact below y hy

theorem child_eq_nil (h : WellFormed x) (hx : x.isString) : x.child = [] := by
  cases h with
  | item _ leaf _ _ =>
      by_contra hchild
      rcases leaf hchild with htype | htype <;> simp [isString, htype] at hx

theorem valuestring_eq_none (h : WellFormed x) (hx : ¬x.isString) : x.valuestring = none := by
  have htext := h.text
  simp only [isString, decide_eq_true_eq] at hx
  simpa [hx] using htext

theorem exists_valuestring (h : WellFormed x) (hx : x.isString) :
    ∃ s, x.valuestring = some s := by
  have htext := h.text
  simp only [isString, decide_eq_true_eq] at hx
  exact Option.isSome_iff_exists.mp (htext.mpr hx)

theorem isString_of_valuestring {s : Bytes} (h : WellFormed x) (hs : x.valuestring = some s) :
    x.isString := by
  have htext := h.text
  simp only [hs, Option.isSome_some, true_iff] at htext
  simp [isString, htext]

theorem of_getObjectItem {name : Bytes} (h : WellFormed x)
    (hy : x.getObjectItem name = some y) : WellFormed y :=
  h.of_mem (mem_child_of_getObjectItem hy)

theorem setString (h : WellFormed x) (name : Option Bytes) :
    WellFormed { x with string := name } := by
  cases h with
  | item text leaf named below => exact .item text leaf named below

theorem newItem_of_ne {type : CJsonType} (htype : type ≠ .string) :
    WellFormed (newItem ops type) :=
  .item (by simp [newItem, htype]) (by simp [newItem]) (by simp [newItem]) (by simp [newItem])

end WellFormed

section Induction

variable {Q : Bytes → CJson D → Bytes → Prop}

structure Scalars (ops : Numbers D) (Q : Bytes → CJson D → Bytes → Prop) : Prop where
  null : ∀ l, Q l (newItem ops .null) (l.drop 4)
  false_ : ∀ l, Q l (newItem ops .false_) (l.drop 5)
  true_ : ∀ l, Q l { newItem ops .true_ with valueint := 1 } (l.drop 4)
  string : ∀ l s rest, parseString l = some (s, rest) →
    Q l { newItem ops .string with valuestring := some s } rest
  number : Reader.Meets (parseNumber ops) Q

theorem meets_parseKinds {array object : Reader UInt8 (CJson D)} (hscalar : Scalars ops Q)
    (harray : array.Meets Q) (hobject : object.Meets Q) :
    Reader.Meets (parseKinds ops array object) Q := by
  intro l x rest h
  unfold parseKinds at h
  split_ifs at h
  · cases h
    exact hscalar.null l
  · cases h
    exact hscalar.false_ l
  · cases h
    exact hscalar.true_ l
  · cases hl : l.head? with
    | none => simp [hl] at h
    | some b =>
        simp only [hl] at h
        split_ifs at h
        · simp only [Option.map_eq_some_iff, Prod.mk.injEq] at h
          obtain ⟨⟨s, rest'⟩, hs, rfl, rfl⟩ := h
          exact hscalar.string l s rest' hs
        · exact hscalar.number _ _ _ h
        · exact harray _ _ _ h
        · exact hobject _ _ _ h

/-- What holds of the scalars and passes through arrays and objects holds of
every value. -/
theorem meets_parseValue (hscalar : Scalars ops Q)
    (harray : ∀ value, Reader.Meets value Q → Reader.Meets (parseArray ops value) Q)
    (hobject : ∀ value, Reader.Meets value Q → Reader.Meets (parseObject ops value) Q)
    (depthLeft : ℕ) : Reader.Meets (parseValue ops depthLeft) Q := by
  induction depthLeft with
  | zero => exact meets_parseKinds hscalar (fun _ _ _ h ↦ by cases h) (fun _ _ _ h ↦ by cases h)
  | succ d ih => exact meets_parseKinds hscalar (harray _ ih) (hobject _ ih)

end Induction

section Trees

theorem yields_parseItems {P : CJson D → Prop} {item : Reader UInt8 (CJson D)} {close : UInt8}
    (hitem : item.Yields P) : (parseItems close item).Yields fun xs ↦ ∀ x ∈ xs, P x := by
  intro l xs rest h
  unfold parseItems at h
  cases hl : skipWhitespace l with
  | nil => simp [hl] at h
  | cons b tail =>
      simp only [hl] at h
      split_ifs at h
      · cases h
        simp
      · exact Reader.yields_separated hitem _ _ _ _ h

theorem parseMember_eq_some {value : Reader UInt8 (CJson D)} {l rest : Bytes} {x : CJson D}
    (h : parseMember value l = some (x, rest)) :
    ∃ name tail tail' y, parseString l = some (name, tail) ∧
      skipWhitespace tail = colon :: tail' ∧
      value (skipWhitespace tail') = some (y, rest) ∧ x = { y with string := some name } := by
  unfold parseMember at h
  cases hname : parseString l with
  | none => simp [hname] at h
  | some r =>
      obtain ⟨name, tail⟩ := r
      cases htail : skipWhitespace tail with
      | nil => simp [hname, htail] at h
      | cons b tail' =>
          simp only [hname, htail] at h
          split_ifs at h with hb
          simp only [Option.map_eq_some_iff, Prod.mk.injEq] at h
          obtain ⟨⟨y, rest'⟩, hy, rfl, rfl⟩ := h
          exact ⟨name, tail, tail', y, rfl, by rw [htail, not_not.mp hb], hy, rfl⟩

def WellFormedValue (x : CJson D) : Prop := WellFormed x ∧ x.string = none

theorem wellFormedValue_scalars :
    Scalars ops fun _ x _ ↦ WellFormedValue x where
  null _ := ⟨.newItem_of_ne (by decide), rfl⟩
  false_ _ := ⟨.newItem_of_ne (by decide), rfl⟩
  true_ _ := ⟨.item (by simp [newItem]) (by simp [newItem]) (by simp [newItem])
    (by simp [newItem]), rfl⟩
  string _ _ _ _ := ⟨.item (by simp [newItem]) (by simp [newItem]) (by simp [newItem])
    (by simp [newItem]), rfl⟩
  number := by
    intro l x rest h
    unfold parseNumber at h
    simp only at h
    split_ifs at h
    cases h
    exact ⟨.item (by simp [newItem]) (by simp [newItem]) (by simp [newItem])
      (by simp [newItem]), rfl⟩

theorem wellFormedValue_parseArray {value : Reader UInt8 (CJson D)}
    (hvalue : value.Yields WellFormedValue) : (parseArray ops value).Yields WellFormedValue := by
  intro l x rest h
  simp only [parseArray, Option.map_eq_some_iff, Prod.mk.injEq] at h
  obtain ⟨⟨xs, rest'⟩, hxs, rfl, rfl⟩ := h
  have hchild : ∀ y ∈ xs, WellFormedValue y := yields_parseItems hvalue _ _ _ hxs
  refine ⟨.item ?_ ?_ ?_ ?_, rfl⟩
  · simp [newItem]
  · simp [newItem]
  · intro y hy
    simp [newItem, (hchild y hy).2]
  · exact fun y hy ↦ (hchild y hy).1

theorem wellFormedValue_parseObject {value : Reader UInt8 (CJson D)}
    (hvalue : value.Yields WellFormedValue) : (parseObject ops value).Yields WellFormedValue := by
  have hmember : (parseMember value).Yields fun y ↦ WellFormed y ∧ y.string.isSome := by
    intro l x rest h
    obtain ⟨name, tail, tail', y, -, -, hy, rfl⟩ := parseMember_eq_some h
    exact ⟨(hvalue _ _ _ hy).1.setString (some name), rfl⟩
  intro l x rest h
  simp only [parseObject, Option.map_eq_some_iff, Prod.mk.injEq] at h
  obtain ⟨⟨xs, rest'⟩, hxs, rfl, rfl⟩ := h
  have hchild := yields_parseItems hmember _ _ _ hxs
  refine ⟨.item ?_ ?_ ?_ ?_, rfl⟩
  · simp [newItem]
  · simp [newItem]
  · intro y hy
    simp [newItem, (hchild y hy).2]
  · exact fun y hy ↦ (hchild y hy).1

theorem wellFormed_of_parse {value : Bytes} {x : CJson D} (h : parse ops value = some x) :
    WellFormed x := by
  simp only [parse, Option.map_eq_some_iff] at h
  obtain ⟨⟨y, rest⟩, hy, rfl⟩ := h
  exact (meets_parseValue wellFormedValue_scalars (fun _ ↦ wellFormedValue_parseArray)
    (fun _ ↦ wellFormedValue_parseObject) _ _ _ _ hy).1

end Trees

section Everywhere

/-- `P` holds of the item and of all items below it. -/
inductive Everywhere (P : CJson D → Prop) : CJson D → Prop
  | item {x : CJson D} (here : P x) (below : ∀ y ∈ x.child, Everywhere P y) : Everywhere P x

namespace Everywhere

variable {P : CJson D → Prop} {x y : CJson D}

theorem here (h : Everywhere P x) : P x := by
  cases h with
  | item here _ => exact here

theorem of_getObjectItem {name : Bytes} (h : Everywhere P x)
    (hy : x.getObjectItem name = some y) : Everywhere P y := by
  cases h with
  | item _ below => exact below y (mem_child_of_getObjectItem hy)

end Everywhere

/-- What a parsed item is, apart from its name, decides `P`: then `P` need be
checked of the scalars and of arrays and objects, whatever they hold. -/
theorem everywhere_of_parse {P : CJson D → Prop}
    (hname : ∀ x name, P x → P { x with string := name })
    (hscalar : Scalars ops fun _ x _ ↦ P x ∧ x.child = [])
    (harray : ∀ xs, P { newItem ops .array with child := xs })
    (hobject : ∀ xs, P { newItem ops .object with child := xs })
    {value : Bytes} {x : CJson D} (h : parse ops value = some x) : Everywhere P x := by
  have hleaf : ∀ y : CJson D, P y ∧ y.child = [] → Everywhere P y := by
    rintro y ⟨hy, hchild⟩
    exact .item hy (by simp [hchild])
  have hscalars : Scalars ops fun _ y _ ↦ Everywhere P y :=
    ⟨fun l ↦ hleaf _ (hscalar.null l), fun l ↦ hleaf _ (hscalar.false_ l),
      fun l ↦ hleaf _ (hscalar.true_ l), fun l s rest hs ↦ hleaf _ (hscalar.string l s rest hs),
      fun l y rest hy ↦ hleaf _ (hscalar.number l y rest hy)⟩
  simp only [parse, Option.map_eq_some_iff] at h
  obtain ⟨⟨y, rest⟩, hy, rfl⟩ := h
  refine meets_parseValue hscalars (fun value hvalue ↦ ?_) (fun value hvalue ↦ ?_) _ _ _ _ hy
  · intro l x rest h
    simp only [parseArray, Option.map_eq_some_iff, Prod.mk.injEq] at h
    obtain ⟨⟨xs, rest'⟩, hxs, rfl, rfl⟩ := h
    exact .item (harray xs) (yields_parseItems hvalue _ _ _ hxs)
  · have hmember : (parseMember value).Yields (Everywhere P) := by
      intro l x rest h
      obtain ⟨name, tail, tail', y, -, -, hy, rfl⟩ := parseMember_eq_some h
      cases hvalue _ _ _ hy with
      | item here below => exact .item (hname _ _ here) below
    intro l x rest h
    simp only [parseObject, Option.map_eq_some_iff, Prod.mk.injEq] at h
    obtain ⟨⟨xs, rest'⟩, hxs, rfl, rfl⟩ := h
    exact .item (hobject xs) (yields_parseItems hmember _ _ _ hxs)

/-- Items of other types hold the value of a cleared item. -/
def NumberOrZero (ops : Numbers D) (x : CJson D) : Prop :=
  x.type ≠ .number → x.valuedouble = ops.zero

theorem numberOrZero_of_parse {value : Bytes} {x : CJson D} (h : parse ops value = some x) :
    Everywhere (NumberOrZero ops) x := by
  refine everywhere_of_parse (fun _ _ ↦ id) ?_ (fun _ _ ↦ rfl) (fun _ _ ↦ rfl) h
  refine ⟨fun _ ↦ ⟨fun _ ↦ rfl, rfl⟩, fun _ ↦ ⟨fun _ ↦ rfl, rfl⟩, fun _ ↦ ⟨fun _ ↦ rfl, rfl⟩,
    fun _ _ _ _ ↦ ⟨fun _ ↦ rfl, rfl⟩, ?_⟩
  intro l x rest h
  unfold parseNumber at h
  simp only at h
  split_ifs at h
  cases h
  exact ⟨fun hne ↦ absurd rfl hne, rfl⟩

theorem zero_not_mem_of_parseString {l rest s : Bytes} (h : parseString l = some (s, rest)) :
    0 ∉ s := by
  cases l with
  | nil => simp [parseString] at h
  | cons b input =>
      simp only [parseString] at h
      split_ifs at h
      cases hn : stringLength input with
      | none => simp [hn] at h
      | some n =>
          simp only [hn, Option.map_eq_some_iff, Prod.mk.injEq] at h
          obtain ⟨output, -, rfl, -⟩ := h
          intro hzero
          simpa using List.mem_takeWhile_imp hzero

theorem zero_not_mem_of_parse {value : Bytes} {x : CJson D} (h : parse ops value = some x) :
    Everywhere (fun y ↦ ∀ s ∈ y.valuestring, 0 ∉ s) x := by
  refine everywhere_of_parse (fun _ _ ↦ id) ?_ (fun _ _ hs ↦ nomatch hs)
    (fun _ _ hs ↦ nomatch hs) h
  refine ⟨fun _ ↦ ⟨fun _ hs ↦ (nomatch hs), rfl⟩, fun _ ↦ ⟨fun _ hs ↦ (nomatch hs), rfl⟩,
    fun _ ↦ ⟨fun _ hs ↦ (nomatch hs), rfl⟩, fun l s rest hs ↦ ⟨?_, rfl⟩, ?_⟩
  · intro t ht
    obtain rfl : s = t := by simpa using ht
    exact zero_not_mem_of_parseString hs
  · intro l x rest h
    unfold parseNumber at h
    simp only at h
    split_ifs at h
    cases h
    exact ⟨fun _ hs ↦ (nomatch hs), rfl⟩

end Everywhere

section Rounds

theorem length_skipWhitespace_le (l : Bytes) : (skipWhitespace l).length ≤ l.length := by
  unfold skipWhitespace
  have hdrop : (l.dropWhile (· ≤ 32)).length ≤ l.length :=
    (List.dropWhile_suffix _).length_le
  cases hrest : l.dropWhile (· ≤ 32) with
  | nil =>
      cases l with
      | nil => simp
      | cons b l => simp [List.getLast?_eq_some_getLast (List.cons_ne_nil b l)]
  | cons b rest => simpa [hrest] using hdrop

theorem length_parseString_lt {l rest s : Bytes} (h : parseString l = some (s, rest)) :
    rest.length < l.length := by
  cases l with
  | nil => simp [parseString] at h
  | cons b input =>
      simp only [parseString] at h
      split_ifs at h
      cases hn : stringLength input with
      | none => simp [hn] at h
      | some n =>
          simp only [hn, Option.map_eq_some_iff, Prod.mk.injEq] at h
          obtain ⟨output, -, -, rfl⟩ := h
          simp only [List.length_drop, List.length_cons]
          omega

theorem shrinks_parseItems {item : Reader UInt8 (CJson D)} {close : UInt8}
    (hitem : item.Shrinks) : (parseItems close item).Shrinks := by
  intro l xs rest h
  unfold parseItems at h
  have hskip := length_skipWhitespace_le l
  cases hl : skipWhitespace l with
  | nil => simp [hl] at h
  | cons b tail =>
      rw [hl] at hskip
      simp only [hl] at h
      split_ifs at h
      · cases h
        simp only [List.length_cons] at hskip
        omega
      · have hrest := Reader.shrinks_separated length_skipWhitespace_le hitem _ _ _ _ h
        exact hrest.trans hskip

theorem shrinks_parseMember {value : Reader UInt8 (CJson D)} (hvalue : value.Shrinks) :
    (parseMember value).Shrinks := by
  intro l x rest h
  obtain ⟨name, tail, tail', y, hname, htail, hy, -⟩ := parseMember_eq_some h
  have h₁ := length_parseString_lt hname
  have h₂ := length_skipWhitespace_le tail
  have h₃ := length_skipWhitespace_le tail'
  have h₄ := hvalue _ _ _ hy
  rw [htail, List.length_cons] at h₂
  omega

theorem shrinks_scalars : Scalars ops fun l _ rest ↦ rest.length ≤ l.length where
  null _ := by simp
  false_ _ := by simp
  true_ _ := by simp
  string _ _ _ h := (length_parseString_lt h).le
  number := by
    intro l x rest h
    unfold parseNumber at h
    simp only at h
    split_ifs at h
    cases h
    simp

theorem shrinks_parseValue (depthLeft : ℕ) : (parseValue ops depthLeft).Shrinks := by
  refine meets_parseValue shrinks_scalars ?_ ?_ depthLeft
  · intro value hvalue l x rest h
    simp only [parseArray, Option.map_eq_some_iff, Prod.mk.injEq] at h
    obtain ⟨⟨xs, rest'⟩, hxs, -, rfl⟩ := h
    have hrest := shrinks_parseItems hvalue _ _ _ hxs
    exact hrest.trans (by simp)
  · intro value hvalue l x rest h
    simp only [parseObject, Option.map_eq_some_iff, Prod.mk.injEq] at h
    obtain ⟨⟨xs, rest'⟩, hxs, -, rfl⟩ := h
    have hrest := shrinks_parseItems (shrinks_parseMember hvalue) _ _ _ hxs
    exact hrest.trans (by simp)

/-- The bound on the rounds in `parseItems` cuts nothing off. -/
theorem parseItems_rounds {item : Reader UInt8 (CJson D)} {close b : UInt8} {l rest : Bytes}
    (hitem : item.Shrinks) (hl : skipWhitespace l = b :: rest) (hb : b ≠ close) {n : ℕ}
    (hn : rest.length + 1 < n) :
    parseItems close item l =
      Reader.separated comma close skipWhitespace item n (b :: rest) := by
  unfold parseItems
  simp only [hl, if_neg hb]
  exact Reader.separated_rounds length_skipWhitespace_le hitem (by simp) (by simpa using hn)

end Rounds

end CJson
