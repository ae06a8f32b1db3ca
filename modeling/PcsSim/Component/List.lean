import Mathlib.Logic.Function.Basic
import PcsSim.Lib.CCalls
import PcsSim.Lib.ExchangeSort

/-!
# The list component

Nodes lie in a heap under addresses; `none` is the null pointer.  `list_sort`
exchanges values and leaves the nodes where they are.
-/

namespace Component

structure ListNode (Addr V : Type) where
  prev : Option Addr
  next : Option Addr
  val : V

structure ListT (Addr V : Type) where
  head : Option Addr
  tail : Option Addr
  len : UInt32
  match' : V → V → ℤ

abbrev Heap (Addr V : Type) := Addr → Option (ListNode Addr V)

variable {Addr V : Type}

inductive ListFault
  /-- a pointer that is null or dangling -/
  | badPointer
  | outOfFuel

def Heap.read (heap : Heap Addr V) : Option Addr → Except ListFault (ListNode Addr V)
  | none => .error .badPointer
  | some a =>
      match heap a with
      | none => .error .badPointer
      | some node => .ok node

section Code

variable [DecidableEq Addr]

def Heap.setVal (heap : Heap Addr V) (p : Option Addr) (val : V) :
    Except ListFault (Heap Addr V) := do
  let node ← heap.read p
  match p with
  | none => .error .badPointer
  | some a => return Function.update heap a (some { node with val := val })

/-- The length, converted to `int`. -/
def listLen (self : ListT Addr V) : Int32 := self.len.toInt32

def exchange (self : ListT Addr V) (heap : Heap Addr V) (inode jnode : Option Addr) :
    Except ListFault (Heap Addr V) := do
  let i ← heap.read inode
  let j ← heap.read jnode
  if self.match' i.val j.val = 0 then
    let heap ← heap.setVal inode j.val
    heap.setVal jnode i.val
  else
    return heap

/-- `while (jnode != NULL)`. -/
def sortInner (self : ListT Addr V) (inode : Option Addr) :
    ℕ → Heap Addr V → Option Addr → Except ListFault (Heap Addr V)
  | 0, _, _ => .error .outOfFuel
  | _ + 1, heap, none => .ok heap
  | fuel + 1, heap, some jnode => do
      let heap ← exchange self heap inode (some jnode)
      sortInner self inode fuel heap (← heap.read (some jnode)).next

/-- `while (inode != self->tail)`. -/
def sortOuter (self : ListT Addr V) :
    ℕ → Heap Addr V → Option Addr → Except ListFault (Heap Addr V)
  | 0, _, _ => .error .outOfFuel
  | fuel + 1, heap, inode =>
      if inode ≠ self.tail then do
        let heap ← sortInner self inode fuel heap (← heap.read inode).next
        sortOuter self fuel heap (← heap.read inode).next
      else
        .ok heap

/-- Each loop may go `fuel` rounds. -/
def listSort (fuel : ℕ) (heap : Heap Addr V) (self : ListT Addr V) :
    Except ListFault (Heap Addr V) :=
  if listLen self ≤ 1 then .ok heap
  else sortOuter self fuel heap self.head

end Code

/-! ## Well-formed lists -/

def ListNode.links (node : ListNode Addr V) : Option Addr × Option Addr := (node.prev, node.next)

/-- The nodes are linked in both directions, from the one after `prev` to the
last one. -/
def Linked (heap : Heap Addr V) : Option Addr → List Addr → Prop
  | _, [] => True
  | prev, a :: nodes =>
      (heap a).map ListNode.links = some (prev, nodes.head?) ∧ Linked heap (some a) nodes

structure WellFormed (heap : Heap Addr V) (list : ListT Addr V) (nodes : List Addr) : Prop where
  linked : Linked heap none nodes
  nodup : nodes.Nodup
  head : list.head = nodes.head?
  tail : list.tail = nodes.getLast?
  len : list.len.toNat = nodes.length

def Holds (heap : Heap Addr V) (nodes : List Addr) (vals : List V) : Prop :=
  List.Forall₂ (fun a val ↦ (heap a).map ListNode.val = some val) nodes vals

/-- Only the values of `nodes` may differ. -/
structure OnlyValues (nodes : List Addr) (heap heap' : Heap Addr V) : Prop where
  links : ∀ a, (heap' a).map ListNode.links = (heap a).map ListNode.links
  frame : ∀ a, a ∉ nodes → heap' a = heap a

/-- `x` may come before `y`. -/
def InOrder (self : ListT Addr V) (x y : V) : Prop := self.match' x y ≠ 0

instance (self : ListT Addr V) : DecidableRel (InOrder self) :=
  fun x y ↦ inferInstanceAs (Decidable (self.match' x y ≠ 0))

section WellFormed

variable {heap heap' : Heap Addr V} {nodes : List Addr}

theorem OnlyValues.refl (nodes : List Addr) (heap : Heap Addr V) : OnlyValues nodes heap heap :=
  ⟨fun _ ↦ rfl, fun _ _ ↦ rfl⟩

theorem OnlyValues.trans {heap'' : Heap Addr V} (h : OnlyValues nodes heap heap')
    (h' : OnlyValues nodes heap' heap'') : OnlyValues nodes heap heap'' where
  links a := (h'.links a).trans (h.links a)
  frame a ha := (h'.frame a ha).trans (h.frame a ha)

theorem OnlyValues.mono {nodes' : List Addr} (h : OnlyValues nodes heap heap')
    (hsub : nodes ⊆ nodes') : OnlyValues nodes' heap heap' where
  links := h.links
  frame a ha := h.frame a fun hmem ↦ ha (hsub hmem)

theorem Linked.of_onlyValues {prev : Option Addr} {seen : List Addr} (h : Linked heap prev nodes)
    (honly : OnlyValues seen heap heap') : Linked heap' prev nodes := by
  induction nodes generalizing prev with
  | nil => trivial
  | cons a nodes ih => exact ⟨(honly.links a).trans h.1, ih h.2⟩

theorem Holds.of_onlyValues {seen : List Addr} {vals : List V} (h : Holds heap nodes vals)
    (honly : OnlyValues seen heap heap') (hdisjoint : ∀ a ∈ nodes, a ∉ seen) :
    Holds heap' nodes vals := by
  induction h with
  | nil => exact .nil
  | @cons a val nodes vals hval _ ih =>
      refine .cons ?_ (ih fun b hb ↦ hdisjoint b (List.mem_cons_of_mem a hb))
      rw [honly.frame a (hdisjoint a List.mem_cons_self)]
      exact hval

theorem read_of_map {α : Type} {f : ListNode Addr V → α} {z : α} {a : Addr}
    (h : (heap a).map f = some z) :
    ∃ node, heap.read (some a) = .ok node ∧ heap a = some node ∧ f node = z := by
  obtain ⟨node, hnode, hf⟩ := Option.map_eq_some_iff.mp h
  refine ⟨node, ?_, hnode, hf⟩
  rw [Heap.read, hnode]

theorem Linked.exists_holds {prev : Option Addr} (h : Linked heap prev nodes) :
    ∃ vals, Holds heap nodes vals := by
  induction nodes generalizing prev with
  | nil => exact ⟨[], .nil⟩
  | cons a nodes ih =>
      obtain ⟨node, -, hnode, -⟩ := read_of_map h.1
      obtain ⟨vals, hvals⟩ := ih h.2
      exact ⟨node.val :: vals, .cons (by rw [hnode]; rfl) hvals⟩

theorem Holds.unique {vals vals' : List V} (h : Holds heap nodes vals)
    (h' : Holds heap nodes vals') : vals = vals' := by
  induction h generalizing vals' with
  | nil =>
      cases h'
      rfl
  | cons hval _ ih =>
      cases h' with
      | cons hval' hvals' =>
      rw [Option.some.inj (hval.symm.trans hval'), ih hvals']

theorem WellFormed.of_onlyValues {seen : List Addr} {self : ListT Addr V}
    (h : WellFormed heap self nodes) (honly : OnlyValues seen heap heap') :
    WellFormed heap' self nodes where
  linked := h.linked.of_onlyValues honly
  nodup := h.nodup
  head := h.head
  tail := h.tail
  len := h.len

theorem listLen_le_one_iff {self : ListT Addr V} :
    listLen self ≤ 1 ↔ self.len.toNat ≤ 1 ∨ 2 ^ 31 ≤ self.len.toNat := by
  have hlt := self.len.toNat_lt
  have hone : (1 : Int32).toInt = 1 := by decide
  have hint : self.len.toInt32.toInt = self.len.toBitVec.toInt := rfl
  rw [listLen, Int32.le_iff_toInt_le, hone, hint, BitVec.toInt_eq_toNat_cond,
    UInt32.toNat_toBitVec]
  split_ifs <;> omega

end WellFormed

section Exchange

variable [DecidableEq Addr] {heap : Heap Addr V} {a b : Addr} {x y : V}

theorem setVal_of_map (h : (heap a).map ListNode.val = some x) (val : V) :
    ∃ heap', heap.setVal (some a) val = .ok heap' ∧ OnlyValues [a] heap heap' ∧
      (heap' a).map ListNode.val = some val := by
  obtain ⟨node, hread, hnode, -⟩ := read_of_map h
  refine ⟨Function.update heap a (some { node with val := val }), ?_, ⟨?_, ?_⟩, ?_⟩
  · rw [Heap.setVal, hread]
    rfl
  · intro c
    by_cases hc : c = a
    · subst hc
      rw [Function.update_self, hnode]
      rfl
    · rw [Function.update_of_ne hc]
  · intro c hc
    exact Function.update_of_ne (fun heq ↦ hc (List.mem_singleton.mpr heq)) _ _
  · rw [Function.update_self]
    rfl

theorem exchange_of_map (self : ListT Addr V) (hx : (heap a).map ListNode.val = some x)
    (hy : (heap b).map ListNode.val = some y) (hne : a ≠ b) :
    ∃ heap', exchange self heap (some a) (some b) = .ok heap' ∧ OnlyValues [a, b] heap heap' ∧
      (heap' a).map ListNode.val = some (if InOrder self x y then x else y) ∧
        (heap' b).map ListNode.val = some (if InOrder self x y then y else x) := by
  obtain ⟨i, hi, -, rfl⟩ := read_of_map hx
  obtain ⟨j, hj, -, rfl⟩ := read_of_map hy
  by_cases hmatch : self.match' i.val j.val = 0
  · have hafter : ¬InOrder self i.val j.val := not_not.mpr hmatch
    obtain ⟨heap₁, hset₁, honly₁, hval₁⟩ := setVal_of_map hx j.val
    have hb : heap₁ b = heap b := honly₁.frame b (by simpa using hne.symm)
    obtain ⟨heap₂, hset₂, honly₂, hval₂⟩ := setVal_of_map (hb ▸ hy) i.val
    have ha : heap₂ a = heap₁ a := honly₂.frame a (by simpa using hne)
    refine ⟨heap₂, ?_, (honly₁.mono (by simp)).trans (honly₂.mono (by simp)), ?_, ?_⟩
    · rw [exchange, hi, hj]
      simp only [Except.ok_bind_eq, if_pos hmatch, hset₁]
      exact hset₂
    · rw [if_neg hafter, ha]
      exact hval₁
    · rw [if_neg hafter]
      exact hval₂
  · have hbefore : InOrder self i.val j.val := hmatch
    refine ⟨heap, ?_, .refl _ heap, ?_, ?_⟩
    · rw [exchange, hi, hj]
      simp only [Except.ok_bind_eq, if_neg hmatch]
      rfl
    · rw [if_pos hbefore]
      exact hx
    · rw [if_pos hbefore]
      exact hy

end Exchange

section Loops

variable [DecidableEq Addr] {heap : Heap Addr V} {self : ListT Addr V}

theorem sortInner_spec (self : ListT Addr V) {a : Addr} {nodes : List Addr}
    {prev : Option Addr} {x : V} {vals : List V}
    (hlinked : Linked heap prev nodes) (hnodup : (a :: nodes).Nodup)
    (hx : (heap a).map ListNode.val = some x) (hvals : Holds heap nodes vals) :
    ∃ heap', (∀ fuel > nodes.length, sortInner self (some a) fuel heap nodes.head? = .ok heap') ∧
      OnlyValues (a :: nodes) heap heap' ∧
        (heap' a).map ListNode.val = some (ExchangeSort.pass (InOrder self) x vals).1 ∧
          Holds heap' nodes (ExchangeSort.pass (InOrder self) x vals).2 := by
  induction nodes generalizing heap prev x vals with
  | nil =>
      cases hvals
      refine ⟨heap, fun fuel hfuel ↦ ?_, .refl _ heap, hx, .nil⟩
      obtain ⟨fuel, rfl⟩ := Nat.exists_eq_succ_of_ne_zero (Nat.ne_zero_of_lt hfuel)
      rfl
  | cons b nodes ih =>
      obtain ⟨hb, hrest⟩ := List.nodup_cons.mp hnodup.tail
      have ha : a ∉ b :: nodes := (List.nodup_cons.mp hnodup).1
      have hne : a ≠ b := fun heq ↦ ha (heq ▸ List.mem_cons_self)
      have haRest : a ∉ nodes := fun hmem ↦ ha (List.mem_cons_of_mem b hmem)
      cases hvals with
      | @cons _ y _ vals hy hvals =>
      obtain ⟨heap₁, hexchange, honly₁, ha₁, hb₁⟩ := exchange_of_map self hx hy hne
      have hunseen : ∀ c ∈ nodes, c ∉ [a, b] := by
        intro c hc hmem
        rcases List.mem_pair.mp hmem with rfl | rfl
        · exact haRest hc
        · exact hb hc
      -- the pass goes on with the value that stays in `inode`
      obtain ⟨heap₂, hinner, honly₂, ha₂, hvals₂⟩ := ih (hlinked.2.of_onlyValues honly₁)
        (List.nodup_cons.mpr ⟨haRest, hrest⟩) ha₁ (Holds.of_onlyValues hvals honly₁ hunseen)
      obtain ⟨node, hread, -, hlinks⟩ := read_of_map ((honly₁.links b).trans hlinked.1)
      have hnext : node.next = nodes.head? := congrArg Prod.snd hlinks
      have hb₂ : heap₂ b = heap₁ b := by
        apply honly₂.frame b
        intro hmem
        rcases List.mem_cons.mp hmem with heq | hmem
        · exact hne heq.symm
        · exact hb hmem
      refine ⟨heap₂, fun fuel hfuel ↦ ?_, ?_, ?_⟩
      · obtain ⟨fuel, rfl⟩ := Nat.exists_eq_succ_of_ne_zero (Nat.ne_zero_of_lt hfuel)
        rw [List.head?_cons, sortInner, hexchange, Except.ok_bind_eq, hread, Except.ok_bind_eq,
          hnext]
        exact hinner fuel (Nat.lt_of_succ_lt_succ hfuel)
      · refine (honly₁.mono ?_).trans (honly₂.mono ?_)
        · simp
        · intro c hc
          rcases List.mem_cons.mp hc with rfl | hc
          · exact List.mem_cons_self
          · exact List.mem_cons_of_mem a (List.mem_cons_of_mem b hc)
      · by_cases h : InOrder self x y
        · rw [ExchangeSort.pass_cons_of_le _ h]
          rw [if_pos h] at ha₂ hvals₂ hb₁
          exact ⟨ha₂, .cons (hb₂ ▸ hb₁) hvals₂⟩
        · rw [ExchangeSort.pass_cons_of_not_le _ h]
          rw [if_neg h] at ha₂ hvals₂ hb₁
          exact ⟨ha₂, .cons (hb₂ ▸ hb₁) hvals₂⟩

theorem sortOuter_spec {nodes : List Addr} {prev : Option Addr} {vals : List V}
    (hne : nodes ≠ []) (hlinked : Linked heap prev nodes) (hnodup : nodes.Nodup)
    (htail : self.tail = nodes.getLast?) (hvals : Holds heap nodes vals) :
    ∃ heap', (∀ fuel > nodes.length, sortOuter self fuel heap nodes.head? = .ok heap') ∧
      OnlyValues nodes heap heap' ∧ Holds heap' nodes (ExchangeSort.sort (InOrder self) vals) := by
  induction nodes generalizing heap prev vals with
  | nil => exact absurd rfl hne
  | cons a nodes ih =>
      obtain ⟨ha, hrest⟩ := List.nodup_cons.mp hnodup
      cases hvals with
      | @cons _ x _ vals hx hvals =>
      rw [ExchangeSort.sort_cons]
      cases nodes with
      | nil =>
          cases hvals
          refine ⟨heap, fun fuel hfuel ↦ ?_, .refl _ heap, .cons hx ?_⟩
          · obtain ⟨fuel, rfl⟩ := Nat.exists_eq_succ_of_ne_zero (Nat.ne_zero_of_lt hfuel)
            rw [sortOuter, htail]
            exact if_neg (not_not.mpr rfl)
          · rw [ExchangeSort.pass, ExchangeSort.sort]
            exact .nil
      | cons b nodes =>
          have htail' : self.tail = (b :: nodes).getLast? := by
            rw [htail, List.getLast?_cons_cons]
          have hlast : some a ≠ self.tail := by
            intro heq
            exact ha (List.mem_of_getLast? (htail'.symm.trans heq.symm))
          obtain ⟨heap₁, hinner, honly₁, ha₁, hvals₁⟩ := sortInner_spec self hlinked.2 hnodup
            hx hvals
          obtain ⟨heap₂, houter, honly₂, hvals₂⟩ := ih (List.cons_ne_nil b nodes)
            (hlinked.2.of_onlyValues honly₁) hrest htail' hvals₁
          obtain ⟨node, hread, -, hlinks⟩ := read_of_map hlinked.1
          obtain ⟨node₁, hread₁, -, hlinks₁⟩ := read_of_map ((honly₁.links a).trans hlinked.1)
          have hnext : node.next = (b :: nodes).head? := congrArg Prod.snd hlinks
          have hnext₁ : node₁.next = (b :: nodes).head? := congrArg Prod.snd hlinks₁
          refine ⟨heap₂, fun fuel hfuel ↦ ?_,
            honly₁.trans (honly₂.mono (List.subset_cons_self _ _)), ?_⟩
          · obtain ⟨fuel, rfl⟩ := Nat.exists_eq_succ_of_ne_zero (Nat.ne_zero_of_lt hfuel)
            have hlt := Nat.lt_of_succ_lt_succ hfuel
            rw [List.head?_cons, sortOuter, if_pos hlast, hread, Except.ok_bind_eq, hnext,
              hinner fuel hlt, Except.ok_bind_eq, hread₁, Except.ok_bind_eq, hnext₁]
            exact houter fuel hlt
          · refine .cons ?_ hvals₂
            rw [honly₂.frame a ha]
            exact ha₁

end Loops

section ListSort

variable [DecidableEq Addr] {heap : Heap Addr V} {self : ListT Addr V} {nodes : List Addr}

/-- `list_sort` ends, changes nothing but the values of the nodes, permutes them
and leaves them in order. -/
def Sorts (heap : Heap Addr V) (self : ListT Addr V) (nodes : List Addr) : Prop :=
  ∃ heap' vals vals', (∀ fuel > nodes.length, listSort fuel heap self = .ok heap') ∧
    OnlyValues nodes heap heap' ∧ WellFormed heap' self nodes ∧
      Holds heap nodes vals ∧ Holds heap' nodes vals' ∧ vals'.Perm vals ∧
        vals'.Pairwise (InOrder self)

theorem sorts_iff_of_listLen_le_one (hwf : WellFormed heap self nodes) (hlen : listLen self ≤ 1) :
    Sorts heap self nodes ↔ ∃ vals, Holds heap nodes vals ∧ vals.Pairwise (InOrder self) := by
  have hsame : ∀ fuel, listSort fuel heap self = .ok heap := fun fuel ↦ if_pos hlen
  constructor
  · rintro ⟨heap', vals, vals', hrun, -, -, -, hvals', -, hpairwise⟩
    have hrun' := hrun (nodes.length + 1) (Nat.lt_succ_self _)
    rw [hsame] at hrun'
    obtain rfl := Except.ok.inj hrun'
    exact ⟨vals', hvals', hpairwise⟩
  · rintro ⟨vals, hvals, hpairwise⟩
    exact ⟨heap, vals, vals, fun fuel _ ↦ hsame fuel, .refl _ heap, hwf, hvals, hvals, .refl _,
      hpairwise⟩

theorem sorts_of_one_lt_listLen (hwf : WellFormed heap self nodes) (hlen : ¬listLen self ≤ 1)
    (htotal : ∀ x y, InOrder self x y ∨ InOrder self y x)
    (htrans : ∀ x y z, InOrder self x y → InOrder self y z → InOrder self x z) :
    Sorts heap self nodes := by
  have hlen' := hlen
  rw [listLen_le_one_iff, hwf.len] at hlen'
  obtain ⟨vals, hvals⟩ := hwf.linked.exists_holds
  have hne : nodes ≠ [] := List.ne_nil_of_length_pos (by omega)
  obtain ⟨heap', hrun, honly, hvals'⟩ :=
    sortOuter_spec hne hwf.linked hwf.nodup hwf.tail hvals
  refine ⟨heap', vals, _, fun fuel hfuel ↦ ?_, honly, hwf.of_onlyValues honly, hvals, hvals',
    ExchangeSort.perm_sort _ vals, ExchangeSort.pairwise_sort htotal (htrans _ _ _) vals⟩
  rw [listSort, if_neg hlen, hwf.head]
  exact hrun fuel hfuel

/-- `list_len` returns the length as an `int`, so that a list of `2 ^ 31` nodes
has a negative length and is left as it is. -/
theorem sorts_iff (hwf : WellFormed heap self nodes)
    (htotal : ∀ x y, InOrder self x y ∨ InOrder self y x)
    (htrans : ∀ x y z, InOrder self x y → InOrder self y z → InOrder self x z) :
    Sorts heap self nodes ↔
      nodes.length < 2 ^ 31 ∨ ∃ vals, Holds heap nodes vals ∧ vals.Pairwise (InOrder self) := by
  by_cases hlen : listLen self ≤ 1
  · rw [sorts_iff_of_listLen_le_one hwf hlen]
    refine ⟨.inr, fun h ↦ h.elim (fun hlt ↦ ?_) id⟩
    rw [listLen_le_one_iff, hwf.len] at hlen
    obtain ⟨vals, hvals⟩ := hwf.linked.exists_holds
    have hlength : vals.length = nodes.length := hvals.length_eq.symm
    refine ⟨vals, hvals, List.pairwise_iff_getElem.mpr ?_⟩
    intro i j hi hj hij
    omega
  · refine iff_of_true (sorts_of_one_lt_listLen hwf hlen htotal htrans) (.inl ?_)
    rw [listLen_le_one_iff, hwf.len] at hlen
    omega

end ListSort

/-- `n` nodes, each at the address after the one before. -/
def row (n : ℕ) (val : ℕ → ℤ) : Heap ℕ ℤ := fun a ↦
  if a < n then
    some ⟨if a = 0 then none else some (a - 1), if a + 1 < n then some (a + 1) else none, val a⟩
  else none

def rowList (n : ℕ) : ListT ℕ ℤ where
  head := some 0
  tail := some (n - 1)
  len := UInt32.ofNat n
  match' x y := if x ≤ y then 1 else 0

theorem linked_row {n : ℕ} (val : ℕ → ℤ) (k : ℕ) {a : ℕ} (h : a + k = n) :
    Linked (row n val) (if a = 0 then none else some (a - 1)) (List.range' a k) := by
  induction k generalizing a with
  | zero => trivial
  | succ k ih =>
      rw [List.range'_succ]
      constructor
      · have hnext : (if a + 1 < n then some (a + 1) else none) =
            (List.range' (a + 1) k).head? := by
          rw [List.head?_range']
          cases k with
          | zero => exact if_neg (by omega)
          | succ k => exact if_pos (by omega)
        rw [row, if_pos (by omega), Option.map_some, ListNode.links, hnext]
      · have hrest := ih (a := a + 1) (by omega)
        rwa [if_neg (Nat.succ_ne_zero a), Nat.add_sub_cancel] at hrest

theorem wellFormed_row {n : ℕ} (val : ℕ → ℤ) (hpos : 0 < n) (hlt : n < 2 ^ 32) :
    WellFormed (row n val) (rowList n) (List.range' 0 n) where
  linked := linked_row val n (Nat.zero_add n)
  nodup := List.nodup_range'
  head := by rw [List.head?_range', if_neg (Nat.ne_of_gt hpos), rowList]
  tail := by rw [List.getLast?_range', if_neg (Nat.ne_of_gt hpos), rowList, Nat.zero_add]
  len := by rw [List.length_range', rowList, UInt32.toNat_ofNat_of_lt' hlt]

theorem inOrder_rowList {n : ℕ} {x y : ℤ} : InOrder (rowList n) x y ↔ x ≤ y := by
  simp [InOrder, rowList]

/-- Three values that fall. -/
theorem sorts_row : Sorts (row 3 fun a ↦ 2 - a) (rowList 3) (List.range' 0 3) := by
  refine (sorts_iff (wellFormed_row _ (by decide) (by decide)) ?_ ?_).mpr (.inl (by decide))
  · intro x y
    rw [inOrder_rowList, inOrder_rowList]
    exact Int.le_total x y
  · intro x y z
    rw [inOrder_rowList, inOrder_rowList, inOrder_rowList]
    exact Int.le_trans

/-- Only the first value is not 0. -/
def unsorted : Heap ℕ ℤ := row (2 ^ 31) fun a ↦ if a = 0 then 1 else 0

theorem not_sorts_unsorted :
    WellFormed unsorted (rowList (2 ^ 31)) (List.range' 0 (2 ^ 31)) ∧
      (∀ x y, InOrder (rowList (2 ^ 31)) x y ↔ x ≤ y) ∧
        ¬Sorts unsorted (rowList (2 ^ 31)) (List.range' 0 (2 ^ 31)) := by
  have hwf : WellFormed unsorted (rowList (2 ^ 31)) (List.range' 0 (2 ^ 31)) :=
    wellFormed_row _ (by decide) (by decide)
  refine ⟨hwf, fun _ _ ↦ inOrder_rowList, ?_⟩
  rw [sorts_iff_of_listLen_le_one hwf (by decide)]
  rintro ⟨vals, hvals, hpairwise⟩
  have hnodes : List.range' 0 (2 ^ 31) = 0 :: 1 :: List.range' 2 (2 ^ 31 - 2) := rfl
  rw [hnodes] at hvals
  cases hvals with
  | @cons _ x _ _ hx hvals =>
  cases hvals with
  | @cons _ y _ vals hy hvals =>
  have hx' : (1 : ℤ) = x := Option.some.inj hx
  have hy' : (0 : ℤ) = y := Option.some.inj hy
  have hle := (List.pairwise_cons.mp hpairwise).1 y List.mem_cons_self
  rw [inOrder_rowList] at hle
  omega

end Component
