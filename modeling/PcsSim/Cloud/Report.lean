import PcsSim.CJson.Reprint
import PcsSim.Cloud.Identifiers

/-!
# The reports to the cloud

`cloud_update` reports six quantities of `MDL` on every eleventh call, as a
JSON text in a message.  It reads each quantity once, while the thread of the
Modbus slave may assign to them.
-/

def Mdl.set {D : Type} (mdl : Mdl D) (x : D) : Quantity → Mdl D
  | .uab => { mdl with uab := x }
  | .ubc => { mdl with ubc := x }
  | .uca => { mdl with uca := x }
  | .ia => { mdl with ia := x }
  | .ib => { mdl with ib := x }
  | .ic => { mdl with ic := x }

namespace Cloud.Report

open CJson Mqtt

/-- A value of a quantity that a register can hold. -/
def tenth (n : UInt16) : Binary64 := Doubles.binary64.ofUShortDiv10 n

/-- An assignment of the Modbus slave, `MDL.x = n / 10.0`. -/
structure Assignment where
  quantity : Quantity
  value : UInt16

def assign (mdl : Mdl Binary64) (a : Assignment) : Mdl Binary64 :=
  mdl.set (tenth a.value) a.quantity

theorem get_assign (mdl : Mdl Binary64) (a : Assignment) (q : Quantity) :
    (assign mdl a).get q = if q = a.quantity then tenth a.value else mdl.get q := by
  obtain ⟨quantity, value⟩ := a
  cases quantity <;> cases q <;> rfl

/-- A write request makes six assignments. -/
theorem mdl_on06_eq (s : Mbs.Slave Binary64) :
    (Mbs.on06WriteSingleHoldingRegister .binary64 s).mdl =
      [Quantity.uab, .ubc, .uca, .ia, .ib, .ic].foldl
        (fun mdl q ↦ assign mdl ⟨q, s.usHoldingRegisters q.register⟩) s.mdl := by
  simp only [List.foldl_cons, List.foldl_nil, assign, Mdl.set, tenth, Quantity.register,
    Mbs.on06WriteSingleHoldingRegister]

section Update

/-- What `localtime` gives. -/
structure Tm where
  year : ℤ
  mon : Fin 12
  mday : Fin 32
  hour : Fin 24
  min : Fin 60
  sec : Fin 61
  year_ge : -2 ^ 31 ≤ year
  year_lt : year + 1900 < 2 ^ 31

def padded (width : ℕ) (digits : Bytes) : Bytes :=
  List.replicate (width - digits.length) 48 ++ digits

/-- `%04d` -/
def decimal4 : ℤ → Bytes
  | .ofNat n => padded 4 (decimalNat n)
  | .negSucc n => 45 :: padded 3 (decimalNat (n + 1))

/-- `%02d` -/
def decimal2 (n : ℕ) : Bytes := padded 2 (decimalNat n)

def datetimeText (tm : Tm) : Bytes :=
  decimal4 (tm.year + 1900) ++ 45 :: decimal2 (tm.mon + 1) ++ 45 :: decimal2 tm.mday ++
    32 :: decimal2 tm.hour ++ 58 :: decimal2 tm.min ++ 58 :: decimal2 tm.sec

/-- `strncpy` to the 128 bytes of `ts_buf` copies all of it. -/
def miscGetDatetimestr (tm : Tm) : Except Fault Bytes := sprintf 32 (datetimeText tm)

/-- `cJSON_PrintUnformatted`, with `none` for NULL. -/
def printUnformatted (item : CJson Binary64) : Except Fault (Option Bytes) :=
  match print .binary64 false item with
  | .ok text => .ok (some text)
  | .error .refused => .ok none
  | .error .overrun => .error .overrun

def quantities : List (Bytes × Quantity) :=
  [(ascii "uab", .uab), (ascii "uca", .uca), (ascii "ubc", .ubc), (ascii "ia", .ia),
    (ascii "ib", .ib), (ascii "ic", .ic)]

/-- The assignments made before a quantity is read, and the reading of it. -/
def addQuantity (assigned : Quantity → List Assignment) (r : Mdl Binary64 × CJson Binary64)
    (p : Bytes × Quantity) : Mdl Binary64 × CJson Binary64 :=
  let mdl := (assigned p.2).foldl assign r.1
  (mdl, addNumberToObject .binary64 r.2 p.1 (mdl.get p.2))

def report (assigned : Quantity → List Assignment) (mdl : Mdl Binary64) :
    Mdl Binary64 × CJson Binary64 :=
  quantities.foldl (addQuantity assigned) (mdl, createObject .binary64)

/-- `sys_timer[0]` and `sys_intv[0]` are those of `MDL.cloud`. -/
structure Device where
  cloud : State Binary64
  sysTimer : ℤ
  sysIntv : ℤ

def update (env : Env Binary64) (tm : Tm) (assigned : Quantity → List Assignment) (d : Device) :
    Except Fault Device :=
  if d.sysTimer ≥ d.sysIntv then do
    let (mdl, o) := report assigned d.cloud.mdl
    let ostr ← printUnformatted o
    let tsBuf ← miscGetDatetimestr tm
    let ostr ← formatString env.nullText ostr
    let cloud ← queueUpdate env tsBuf ostr { d.cloud with mdl := mdl }
    return { d with cloud := cloud, sysTimer := 0 }
  else
    return { d with sysTimer := d.sysTimer + 1 }

def cloudExe (env : Env Binary64) (time : Int64) (received : Option Element) (tm : Tm)
    (assigned : Quantity → List Assignment) (d : Device) : Except Fault Device := do
  let cloud ← cloudProcRecv env time received d.cloud
  update env tm assigned { d with cloud := cloud }

/-- After `sim_init` and `cloud_init`. -/
def Device.start : Device where
  cloud := ⟨simInit .binary64, [], []⟩
  sysTimer := 0
  sysIntv := 10

inductive Action
  | assign (a : Assignment)
  | exe (time : Int64) (received : Option Element) (tm : Tm)
      (assigned : Quantity → List Assignment)

def step (env : Env Binary64) (d : Device) : Action → Option Device
  | .assign a => some { d with cloud := d.cloud.setMdl (Report.assign d.cloud.mdl a) }
  | .exe time received tm assigned => (cloudExe env time received tm assigned d).toOption

def isExe : Action → Bool
  | .assign _ => false
  | .exe .. => true

end Update

section Texts

theorem length_padded (width : ℕ) (digits : Bytes) :
    (padded width digits).length = max width digits.length := by
  rw [padded, List.length_append, List.length_replicate]
  omega

theorem digit_of_mem_padded {width n : ℕ} {b : UInt8} (hb : b ∈ padded width (decimalNat n)) :
    48 ≤ b ∧ b ≤ 57 := by
  rcases List.mem_append.mp hb with hzero | hdigit
  · rw [List.eq_of_mem_replicate hzero]
    decide
  · exact digit_of_mem_decimalNat hdigit

theorem length_decimal2 {n : ℕ} (hn : n < 100) : (decimal2 n).length = 2 := by
  have hle := length_decimalNat_le (n := n) (k := 2) (by decide) hn
  rw [decimal2, length_padded]
  omega

theorem length_decimal4_le {z : ℤ} (hlow : -2 ^ 31 ≤ z) (hhigh : z < 2 ^ 31) :
    (decimal4 z).length ≤ 11 := by
  cases z with
  | ofNat n =>
      have hn : n < 10 ^ 10 := by
        simp only [Int.ofNat_eq_natCast] at hhigh
        omega
      have hle := length_decimalNat_le (by decide) hn
      rw [decimal4, length_padded]
      omega
  | negSucc n =>
      have hn : n + 1 < 10 ^ 10 := by omega
      have hle := length_decimalNat_le (by decide) hn
      rw [decimal4, List.length_cons, length_padded]
      omega

theorem length_datetimeText_lt (tm : Tm) : (datetimeText tm).length < 32 := by
  have hyear := length_decimal4_le (z := tm.year + 1900) (by have := tm.year_ge; omega) tm.year_lt
  simp only [datetimeText, List.length_append, List.length_cons,
    length_decimal2 (show (tm.mon : ℕ) + 1 < 100 by omega),
    length_decimal2 (show (tm.mday : ℕ) < 100 by omega),
    length_decimal2 (show (tm.hour : ℕ) < 100 by omega),
    length_decimal2 (show (tm.min : ℕ) < 100 by omega),
    length_decimal2 (show (tm.sec : ℕ) < 100 by omega)]
  omega

/-- Digits and separators, which need no escapes. -/
def IsDateByte (b : UInt8) : Prop := 48 ≤ b ∧ b ≤ 57 ∨ b = 45 ∨ b = 58 ∨ b = 32

theorem dateByte_datetimeText (tm : Tm) : ∀ b ∈ datetimeText tm, IsDateByte b := by
  have htwo : ∀ n, ∀ b ∈ decimal2 n, IsDateByte b := fun n b hb ↦ .inl (digit_of_mem_padded hb)
  have hfour : ∀ z, ∀ b ∈ decimal4 z, IsDateByte b := by
    intro z b hb
    cases z with
    | ofNat n => exact .inl (digit_of_mem_padded hb)
    | negSucc n =>
        rcases List.mem_cons.mp hb with rfl | hb
        · exact .inr (.inl rfl)
        · exact .inl (digit_of_mem_padded hb)
  intro b hb
  simp only [datetimeText, List.mem_append, List.mem_cons] at hb
  rcases hb with ((((hb | rfl | hb) | rfl | hb) | rfl | hb) | rfl | hb) | rfl | hb
  · exact hfour _ b hb
  · exact .inr (.inl rfl)
  · exact htwo _ b hb
  · exact .inr (.inl rfl)
  · exact htwo _ b hb
  · exact .inr (.inr (.inr rfl))
  · exact htwo _ b hb
  · exact .inr (.inr (.inl rfl))
  · exact htwo _ b hb
  · exact .inr (.inr (.inl rfl))
  · exact htwo _ b hb

theorem escapeCharacters_dateByte {b : UInt8} (hb : IsDateByte b) : escapeCharacters b = 0 := by
  rcases hb with ⟨hlow, hhigh⟩ | rfl | rfl | rfl
  · have hplain : ¬b < 32 := UInt8.not_lt.mpr (UInt8.le_trans (by decide) hlow)
    rw [escapeCharacters, if_neg _, if_neg hplain]
    rintro (rfl | rfl | rfl | rfl | rfl | rfl | rfl)
    · exact absurd hlow (by decide)
    · exact absurd hhigh (by decide)
    all_goals exact absurd hlow (by decide)
  · rfl
  · rfl
  · rfl

theorem escape_datetimeText (tm : Tm) : escape (datetimeText tm) = datetimeText tm := by
  apply escape_of_sum
  apply List.sum_eq_zero
  intro n hn
  obtain ⟨b, hb, rfl⟩ := List.mem_map.mp hn
  exact escapeCharacters_dateByte (dateByte_datetimeText tm b hb)

theorem zero_not_mem_datetimeText (tm : Tm) : 0 ∉ datetimeText tm := by
  intro hzero
  have hbyte := dateByte_datetimeText tm 0 hzero
  unfold IsDateByte at hbyte
  exact absurd hbyte (by decide)

end Texts

section Values

/-- The names of the quantities with the values that are read. -/
def seen (assigned : Quantity → List Assignment) :
    List (Bytes × Quantity) → Mdl Binary64 → List (Bytes × Binary64)
  | [], _ => []
  | p :: rest, mdl =>
    let mdl := (assigned p.2).foldl assign mdl
    (p.1, mdl.get p.2) :: seen assigned rest mdl

def member (p : Bytes × Binary64) : CJson Binary64 :=
  { createNumber Numbers.binary64 p.2 with string := some p.1 }

theorem foldl_addQuantity (assigned : Quantity → List Assignment) (l : List (Bytes × Quantity))
    (r : Mdl Binary64 × CJson Binary64) :
    (l.foldl (addQuantity assigned) r).2 =
      { r.2 with child := r.2.child ++ (seen assigned l r.1).map member } := by
  induction l generalizing r with
  | nil =>
      obtain ⟨mdl, o⟩ := r
      cases o
      simp [seen]
  | cons p l ih =>
      rw [List.foldl_cons, ih]
      simp [addQuantity, addNumberToObject, addItemToObject, seen, member]

theorem report_eq (assigned : Quantity → List Assignment) (mdl : Mdl Binary64) :
    (report assigned mdl).2 = { createObject Numbers.binary64 with
      child := (seen assigned quantities mdl).map member } :=
  foldl_addQuantity assigned quantities (mdl, createObject .binary64)

theorem names_seen (assigned : Quantity → List Assignment) (l : List (Bytes × Quantity))
    (mdl : Mdl Binary64) : (seen assigned l mdl).map Prod.fst = l.map Prod.fst := by
  induction l generalizing mdl with
  | nil => rfl
  | cons p l ih => rw [seen, List.map_cons, ih, List.map_cons]

/-- Quantities other than `uab` hold tenths; `uab` may be any double. -/
structure InRange (mdl : Mdl Binary64) : Prop where
  isDouble : ∀ q, (mdl.get q).IsDouble
  tenth : ∀ q ≠ .uab, ∃ n, mdl.get q = tenth n

theorem tenth_eq (n : UInt16) : tenth n = .round (n.toNat / 10) := Mbs.ofUShortDiv10_eq n

theorem isDouble_tenth (n : UInt16) : (tenth n).IsDouble := by
  rw [tenth_eq]
  exact Binary64.isDouble_round _

theorem InRange.assign {mdl : Mdl Binary64} (h : InRange mdl) (a : Assignment) :
    InRange (assign mdl a) := by
  constructor
  · intro q
    rw [get_assign]
    split_ifs
    · exact isDouble_tenth a.value
    · exact h.isDouble q
  · intro q hq
    rw [get_assign]
    split_ifs
    · exact ⟨a.value, rfl⟩
    · exact h.tenth q hq

theorem InRange.assignments {mdl : Mdl Binary64} (h : InRange mdl) (l : List Assignment) :
    InRange (l.foldl Report.assign mdl) := by
  induction l generalizing mdl with
  | nil => exact h
  | cons a l ih => exact ih (h.assign a)

theorem mem_seen {assigned : Quantity → List Assignment} {l : List (Bytes × Quantity)}
    {mdl : Mdl Binary64} (h : InRange mdl) {p : Bytes × Binary64} (hp : p ∈ seen assigned l mdl) :
    p.2.IsDouble ∧ ((p.1, Quantity.uab) ∉ l → ∃ n, p.2 = tenth n) := by
  induction l generalizing mdl with
  | nil => cases hp
  | cons p' l ih =>
      have hassigned := h.assignments (assigned p'.2)
      rcases List.mem_cons.mp hp with rfl | hp
      · refine ⟨hassigned.isDouble p'.2, fun hne ↦ hassigned.tenth p'.2 ?_⟩
        rintro huab
        exact hne (by rw [← huab]; exact List.mem_cons_self)
      · obtain ⟨hdouble, htenth⟩ := ih hassigned hp
        exact ⟨hdouble, fun hne ↦ htenth fun hmem ↦ hne (List.mem_cons_of_mem p' hmem)⟩

end Values

section Payload

def dataObject (values : List (Bytes × Binary64)) : CJson Binary64 :=
  { createObject Numbers.binary64 with child := values.map member }

/-- The tree whose text is the payload. -/
def document (ts : Bytes) (o : CJson Binary64) : CJson Binary64 :=
  let time := { newItem Numbers.binary64 .string with valuestring := some ts }
  ((createObject .binary64).addItemToObject (ascii "ts") time).addItemToObject (ascii "data") o

theorem printed_document {ts : Bytes} (hts : escape ts = ts) {o : CJson Binary64}
    (htype : o.type = .object) :
    printed .binary64 false (document ts o) 0 =
      MqttCache.cloudUpdatePayload ts (printed .binary64 false o 0) := by
  obtain ⟨type, valuestring, valueint, valuedouble, string, child⟩ := o
  obtain rfl : type = .object := htype
  have hname : escape (ascii "ts") = ascii "ts" := by decide
  have hdata : escape (ascii "data") = ascii "data" := by decide
  simp only [document, createObject, addItemToObject, newItem, List.nil_append, List.cons_append,
    printed, printedMembers, List.append_nil, printedMembers_unformatted child 2 1]
  simp only [printedString, Option.getD_some, hts, hname, hdata, opening, colons, ending, tabs]
  simp only [MqttCache.cloudUpdatePayload, Bool.false_eq_true, if_false, List.append_assoc,
    List.nil_append, List.cons_append, List.append_nil]
  rfl

/-- What a receiver finds of a value; one that is not finite is lost. -/
def Reads (v : Binary64) (item : CJson Binary64) : Prop :=
  if v.isFinite then item.type = .number ∧ CJson.ReadsBack v item.valuedouble
  else item.type = .null

/-- A receiver finds the time and the values under their names, and all of them
but `uab` to the last digit. -/
structure Describes (payload ts : Bytes) (values : List (Bytes × Binary64)) : Prop where
  found : ∃ root data, parse Numbers.binary64 payload = some root ∧
    (root.getObjectItem (ascii "ts")).bind (·.valuestring) = some ts ∧
    root.getObjectItem (ascii "data") = some data ∧
    data.child.map (·.string) = quantities.map (some ·.1) ∧
    ∀ p ∈ values, ∃ item, data.getObjectItem p.1 = some item ∧ Reads p.2 item ∧
      (p.1 ≠ ascii "uab" → item.valuedouble = p.2)

theorem compareLower_self (s : Bytes) : compareLower s s = 0 := by
  induction s with
  | nil => rfl
  | cons b s ih => rw [compareLower, if_pos rfl, ih]

/-- A member is found where no name before its own is taken for the same. -/
theorem getObjectItem_of_distinct {l : List (Bytes × Binary64)}
    {f : Bytes × Binary64 → CJson Binary64} {object : CJson Binary64}
    (hchild : object.child = l.map f) (hname : ∀ p, (f p).string = some p.1)
    (hdistinct : (l.map Prod.fst).Pairwise fun a b ↦ compareLower b a ≠ 0)
    {p : Bytes × Binary64} (hp : p ∈ l) : object.getObjectItem p.1 = some (f p) := by
  rw [getObjectItem, hchild]
  clear hchild
  induction l with
  | nil => cases hp
  | cons p' l ih =>
      rw [List.map_cons, List.pairwise_cons] at hdistinct
      rw [List.map_cons]
      rcases List.mem_cons.mp hp with rfl | hp
      · apply List.find?_cons_of_pos
        simp [hname, caseInsensitiveStrcmp, compareLower_self]
      · rw [List.find?_cons_of_neg]
        · exact ih hdistinct.2 hp
        · have hne := hdistinct.1 p.1 (List.mem_map_of_mem hp)
          simpa [hname, caseInsensitiveStrcmp] using hne

theorem finite_tenth (n : UInt16) : tenth n = .finite (Binary64.nearest (n.toNat / 10)) := by
  have hn : (n.toNat : ℚ) ≤ 65535 := by exact_mod_cast Nat.le_of_lt_succ n.toNat_lt
  have hnonneg : (0 : ℚ) ≤ n.toNat / 10 := by positivity
  have hrange : |Binary64.nearest (n.toNat / 10)| < 2 ^ 1024 :=
    (Binary64.nearest_between (k := 0) (n := 65535) (by norm_num) (by norm_num) (by norm_num)
      hnonneg (by push_cast; linarith)).2.2
  rw [tenth_eq, Binary64.round_eq_finite (fun _ ↦ hnonneg) hrange]

theorem shortDecimal_tenth (n : UInt16) : ShortDecimal ((n.toNat : ℚ) / 10) := by
  have hnonneg : (0 : ℚ) ≤ n.toNat / 10 := by positivity
  constructor
  · refine ⟨n.toNat, -1, by have := n.toNat_lt; omega, ?_⟩
    rw [abs_of_nonneg hnonneg, zpow_neg_one, div_eq_mul_inv]
  · intro hne
    have hpos : n.toNat ≠ 0 := by
      rintro hzero
      exact hne (by rw [hzero, Nat.cast_zero, zero_div])
    have hone : (1 : ℚ) ≤ n.toNat := by exact_mod_cast Nat.one_le_iff_ne_zero.mpr hpos
    rw [abs_of_nonneg hnonneg]
    calc (2 : ℚ) ^ (-1022 : ℤ) ≤ 2 ^ (-4 : ℤ) := zpow_le_zpow_right₀ (by norm_num) (by norm_num)
      _ ≤ n.toNat / 10 := by norm_num; linarith

/-- What is read back of a member. -/
def rereadMember (p : Bytes × Binary64) : CJson Binary64 :=
  { rereadNumber .binary64 p.2 with string := some p.1 }

theorem reads_rereadMember {p : Bytes × Binary64} (h : p.2.IsDouble) :
    Reads p.2 (rereadMember p) := by
  by_cases hfinite : p.2.isFinite
  · have hnumber : rereadNumber .binary64 p.2 = _ := if_pos hfinite
    rw [Reads, if_pos hfinite, rereadMember, hnumber]
    exact ⟨rfl, readsBack_numberText h hfinite⟩
  · have hnull : rereadNumber .binary64 p.2 = _ := if_neg hfinite
    rw [Reads, if_neg hfinite, rereadMember, hnull]
    rfl

theorem valuedouble_rereadMember {p : Bytes × Binary64} {n : UInt16} (h : p.2 = tenth n) :
    (rereadMember p).valuedouble = p.2 := by
  have hdouble : p.2.IsDouble := h ▸ isDouble_tenth n
  have hreads := reads_rereadMember hdouble
  have hfinite : p.2 = .finite (Binary64.nearest (n.toNat / 10)) := h.trans (finite_tenth n)
  rw [Reads, if_pos (by rw [hfinite]; rfl)] at hreads
  exact hreads.2.decimal _ (shortDecimal_tenth n) (congrArg Binary64.toRat hfinite)

theorem reread_document (ts : Bytes) (values : List (Bytes × Binary64)) :
    reread .binary64 (document ts (dataObject values)) =
      { newItem Numbers.binary64 .object with child := [
        { newItem Numbers.binary64 .string with
          valuestring := some ts, string := some (ascii "ts") },
        { newItem Numbers.binary64 .object with
          child := values.map rereadMember, string := some (ascii "data") }] } := by
  have hmembers : (values.map member).map (fun item ↦
      { reread .binary64 item with string := some (item.string.getD []) }) =
        values.map rereadMember := by
    rw [List.map_map]
    rfl
  simp only [document, dataObject, createObject, addItemToObject, newItem, List.nil_append,
    List.cons_append, reread, rereadMembers_eq_map, List.map_cons, List.map_nil, hmembers]
  rfl

theorem names_distinct :
    (quantities.map Prod.fst).Pairwise fun a b ↦ compareLower b a ≠ 0 := by decide

theorem mem_names {values : List (Bytes × Binary64)}
    (hnames : values.map Prod.fst = quantities.map Prod.fst) :
    ∀ p ∈ values, p.1 ∈ quantities.map Prod.fst := by
  intro p hp
  rw [← hnames]
  exact List.mem_map_of_mem hp

theorem zero_not_mem_name {name : Bytes} (h : name ∈ quantities.map Prod.fst) : 0 ∉ name := by
  have hall : ∀ name ∈ quantities.map Prod.fst, 0 ∉ name := by decide
  exact hall name h

section Readable

variable {ts : Bytes} {values : List (Bytes × Binary64)}

theorem readable_member {p : Bytes × Binary64} (hname : 0 ∉ p.1) (h : p.2.IsDouble) :
    Everywhere (Readable .binary64) (member p) := by
  apply everywhere_leaf _ rfl
  exact ⟨⟨shortNumber_of_isDouble (x := member p) h, List.not_mem_nil, hname⟩,
    CJsonType.noConfusion, CJsonType.noConfusion⟩

/-- What the types of objects and strings need. -/
theorem readable_of_type {y : CJson Binary64} (htype : y.type = .object ∨ y.type = .string)
    (hvaluestring : 0 ∉ y.valuestring.getD []) (hstring : 0 ∉ y.string.getD []) :
    Readable .binary64 y := by
  refine ⟨⟨fun hnumber ↦ ?_, hvaluestring, hstring⟩, fun hvalid ↦ ?_, fun hraw ↦ ?_⟩
  all_goals simp_all

theorem readable_dataObject (hnames : ∀ p ∈ values, 0 ∉ p.1) (h : ∀ p ∈ values, p.2.IsDouble) :
    Everywhere (Readable .binary64) (dataObject values) := by
  refine .item (readable_of_type (.inl rfl) List.not_mem_nil List.not_mem_nil) ?_
  intro y hy
  obtain ⟨p, hp, rfl⟩ := List.mem_map.mp hy
  exact readable_member (hnames p hp) (h p hp)

theorem readable_document (hzero : 0 ∉ ts) (hnames : ∀ p ∈ values, 0 ∉ p.1)
    (h : ∀ p ∈ values, p.2.IsDouble) :
    Everywhere (Readable .binary64) (document ts (dataObject values)) := by
  have htime : 0 ∉ ascii "ts" := by decide
  have hdata : 0 ∉ ascii "data" := by decide
  refine .item (readable_of_type (.inl rfl) List.not_mem_nil List.not_mem_nil) ?_
  rintro y (_ | ⟨_, _ | ⟨_, hy⟩⟩)
  · exact everywhere_leaf (readable_of_type (.inr rfl) hzero htime) rfl
  · cases readable_dataObject hnames h with
    | item here below => exact .item (readable_of_type (.inl rfl) List.not_mem_nil hdata) below
  · cases hy

theorem within_document (ts : Bytes) (values : List (Bytes × Binary64)) :
    Within nestingLimit (document ts (dataObject values)) := by
  apply Within.nested (n := 999)
  rintro y (_ | ⟨_, _ | ⟨_, hy⟩⟩)
  · exact .leaf CJsonType.noConfusion CJsonType.noConfusion
  · apply Within.nested (n := 998)
    intro y hy
    obtain ⟨p, -, rfl⟩ := List.mem_map.mp hy
    exact .leaf CJsonType.noConfusion CJsonType.noConfusion
  · cases hy

end Readable

/-- The payload is the text of the document, so it is read back as one. -/
theorem describes_payload {ts : Bytes} {values : List (Bytes × Binary64)} (hts : escape ts = ts)
    (hzero : 0 ∉ ts) (hnames : values.map Prod.fst = quantities.map Prod.fst)
    (hdouble : ∀ p ∈ values, p.2.IsDouble)
    (htenth : ∀ p ∈ values, p.1 ≠ ascii "uab" → ∃ n, p.2 = tenth n) :
    Describes (MqttCache.cloudUpdatePayload ts (printed .binary64 false (dataObject values) 0)) ts
      values := by
  have hname : ∀ p ∈ values, 0 ∉ p.1 := fun p hp ↦ zero_not_mem_name (mem_names hnames p hp)
  have hparse := parse_printed followsPrintf_binary64 (readable_document hzero hname hdouble)
    (within_document ts values) false
  rw [printed_document hts rfl, reread_document] at hparse
  refine ⟨_, _, hparse, rfl, rfl, ?_, fun p hp ↦ ⟨rereadMember p, ?_, ?_, fun hne ↦ ?_⟩⟩
  · have hsome := congrArg (List.map some) hnames
    rw [List.map_map, List.map_map] at hsome
    rw [List.map_map]
    exact hsome
  · apply getObjectItem_of_distinct rfl (fun _ ↦ rfl) _ hp
    rw [hnames]
    exact names_distinct
  · exact reads_rereadMember (hdouble p hp)
  · obtain ⟨n, hn⟩ := htenth p hp hne
    exact valuedouble_rereadMember hn

end Payload

section Sizes

variable {values : List (Bytes × Binary64)}

theorem length_printedString_name {name : Bytes} (h : name ∈ quantities.map Prod.fst) :
    (printedString (some name)).length ≤ 5 := by
  have hall : ∀ name ∈ quantities.map Prod.fst, (printedString (some name)).length ≤ 5 := by decide
  exact hall name h

theorem length_printedMembers_le (hnames : ∀ p ∈ values, p.1 ∈ quantities.map Prod.fst)
    (hdouble : ∀ p ∈ values, p.2.IsDouble) (depth : ℕ) :
    (printedMembers .binary64 false (values.map member) depth).length ≤ 32 * values.length := by
  induction values with
  | nil => exact Nat.zero_le _
  | cons p values ih =>
      have hname : (printedString (member p).string).length ≤ 5 :=
        length_printedString_name (hnames p List.mem_cons_self)
      have hnumber : (printed .binary64 false (member p) depth).length < 26 :=
        shortNumber_of_isDouble (x := member p) (hdouble p List.mem_cons_self) rfl
      have hending : (ending false (values.map member)).length ≤ 1 := by
        simp only [ending, Bool.false_eq_true, if_false, List.append_nil]
        split_ifs
        · exact Nat.zero_le 1
        · exact le_rfl
      have hrest := ih (fun p hp ↦ hnames p (List.mem_cons_of_mem _ hp))
        (fun p hp ↦ hdouble p (List.mem_cons_of_mem _ hp))
      have htabs : (tabs false depth).length = 0 := rfl
      have hcolons : (colons false).length = 1 := rfl
      rw [List.map_cons, printedMembers]
      simp only [List.length_append, List.length_cons]
      omega

theorem length_printed_dataObject (values : List (Bytes × Binary64)) :
    (printed .binary64 false (dataObject values) 0).length =
      (printedMembers .binary64 false (values.map member) 1).length + 2 := by
  change (opening false ++ (printedMembers .binary64 false (values.map member) 1 ++
    (tabs false 0 ++ [125]))).length = _
  simp only [List.length_append, List.length_singleton]
  have hopening : (opening false).length = 1 := rfl
  have htabs : (tabs false 0).length = 0 := rfl
  omega

theorem length_dataObject_le (hnames : values.map Prod.fst = quantities.map Prod.fst)
    (hdouble : ∀ p ∈ values, p.2.IsDouble) :
    (printed .binary64 false (dataObject values) 0).length ≤ 194 := by
  have hcount : values.length = 6 := by
    have hlength := congrArg List.length hnames
    rwa [List.length_map, List.length_map] at hlength
  have hmembers := length_printedMembers_le (mem_names hnames) hdouble 1
  have hobject := length_printed_dataObject values
  omega

theorem printUnformatted_dataObject (hnames : values.map Prod.fst = quantities.map Prod.fst)
    (hdouble : ∀ p ∈ values, p.2.IsDouble) :
    printUnformatted (dataObject values) =
      .ok (some (printed .binary64 false (dataObject values) 0)) := by
  have hzero : ∀ p ∈ values, 0 ∉ p.1 := fun p hp ↦ zero_not_mem_name (mem_names hnames p hp)
  have hreadable := readable_dataObject hzero hdouble
  have hsize := length_dataObject_le hnames hdouble
  have hmax : maxSize = 2147483647 := rfl
  have hprint := print_of_readable hreadable false
  rw [if_pos (by omega)] at hprint
  rw [printUnformatted, hprint]

theorem length_cloudUpdatePayload (ts ostr : Bytes) :
    (MqttCache.cloudUpdatePayload ts ostr).length = ts.length + ostr.length + 17 := by
  have hopen : (ascii "\x7b\"ts\":\"").length = 7 := by decide
  have hdata : (ascii "\",\"data\":").length = 9 := by decide
  have hclose : (ascii "\x7d").length = 1 := by decide
  simp only [MqttCache.cloudUpdatePayload, List.length_append, hopen, hdata, hclose]
  omega

end Sizes

section Updates

variable {szDevName : Bytes} {nullText : Option Bytes} {assigned : Quantity → List Assignment}
  {d : Device}

/-- A device whose numbers are doubles. -/
def deviceEnv (szDevName : Bytes) (nullText : Option Bytes) : Env Binary64 where
  numbers := .binary64
  szDevName := szDevName
  nullText := nullText

theorem InRange.addQuantities {l : List (Bytes × Quantity)} {r : Mdl Binary64 × CJson Binary64}
    (h : InRange r.1) : InRange (l.foldl (addQuantity assigned) r).1 := by
  induction l generalizing r with
  | nil => exact h
  | cons p l ih => exact ih (h.assignments (assigned p.2))

theorem mem_quantities_uab {name : Bytes} (h : (name, Quantity.uab) ∈ quantities) :
    name = ascii "uab" := by
  simpa [quantities] using h

/-- A report is one message, with what was read. -/
theorem update_reports (hname : szDevName.length < 128) (hrange : InRange d.cloud.mdl)
    (htimer : d.sysTimer ≥ d.sysIntv) (tm : Tm) :
    ∃ payload, update (deviceEnv szDevName nullText) tm assigned d =
        .ok { d with
          cloud := State.queue { d.cloud with mdl := (report assigned d.cloud.mdl).1 }
            ⟨cmdMqttSendkv, szDevName, payload⟩,
          sysTimer := 0 } ∧
      payload.length < 8000 ∧
      Describes payload (datetimeText tm) (seen assigned quantities d.cloud.mdl) := by
  have hreport := report_eq assigned d.cloud.mdl
  have hnames := names_seen assigned quantities d.cloud.mdl
  have hseen : ∀ p ∈ seen assigned quantities d.cloud.mdl,
      p.2.IsDouble ∧ ((p.1, Quantity.uab) ∉ quantities → ∃ n, p.2 = tenth n) :=
    fun p hp ↦ mem_seen hrange hp
  generalize seen assigned quantities d.cloud.mdl = values at hreport hnames hseen ⊢
  have hdouble : ∀ p ∈ values, p.2.IsDouble := fun p hp ↦ (hseen p hp).1
  have htenth : ∀ p ∈ values, p.1 ≠ ascii "uab" → ∃ n, p.2 = tenth n :=
    fun p hp hne ↦ (hseen p hp).2 fun huab ↦ hne (mem_quantities_uab huab)
  have hprint := printUnformatted_dataObject hnames hdouble
  have hsize := length_dataObject_le hnames hdouble
  have htime := length_datetimeText_lt tm
  have hlength := length_cloudUpdatePayload (datetimeText tm)
    (printed .binary64 false (dataObject values) 0)
  refine ⟨_, ?_, ?_, describes_payload (escape_datetimeText tm) (zero_not_mem_datetimeText tm)
    hnames hdouble htenth⟩
  · have hdatetime : miscGetDatetimestr tm = .ok (datetimeText tm) := if_pos htime
    rcases hmdl : report assigned d.cloud.mdl with ⟨mdl, o⟩
    rw [hmdl] at hreport
    obtain rfl : o = dataObject values := hreport
    rw [update, if_pos htimer, hmdl]
    simp only [hprint, hdatetime, Except.ok_bind_eq, formatString_some]
    rw [queueUpdate_of_fits _ (by omega) hname]
    rfl
  · omega

end Updates

section Calls

variable {szDevName : Bytes} {nullText : Option Bytes} {d d' : Device}

/-- After `n` calls of `cloud_exe`. -/
structure After (n : ℕ) (d : Device) : Prop where
  sysTimer : d.sysTimer = (n % 11 : ℕ)
  sysIntv : d.sysIntv = 10
  inRange : InRange d.cloud.mdl

theorem inRange_simInit : InRange (simInit .binary64) := by
  constructor
  · intro q
    cases q <;> exact Binary64.isDouble_round _
  · intro q hq
    cases q with
    | uab => exact absurd rfl hq
    | ubc => exact ⟨4002, (tenth_eq 4002).symm⟩
    | uca => exact ⟨4003, (tenth_eq 4003).symm⟩
    | ia | ib | ic => exact ⟨0, (tenth_eq 0).symm⟩

theorem isDouble_storedUab {e : Element} {x : Binary64}
    (h : storedUab Numbers.binary64 e = some x) : x.IsDouble := by
  obtain ⟨root, hroot, hparam⟩ := Option.bind_eq_some_iff.mp h
  unfold uabParam at hparam
  cases hcmd : root.getObjectItem (ascii "cmd") with
  | none => simp [hcmd] at hparam
  | some cmd =>
      simp only [hcmd] at hparam
      split_ifs at hparam
      obtain ⟨param, hfound, rfl⟩ := Option.map_eq_some_iff.mp hparam
      exact ((storable_of_parse hroot).of_getObjectItem hfound).here.valuedouble

theorem InRange.storeUab {mdl : Mdl Binary64} (h : InRange mdl) {uab : Option Binary64}
    (huab : ∀ x, uab = some x → x.IsDouble) : InRange (storeUab mdl uab) := by
  cases uab with
  | none => exact h
  | some x =>
      constructor
      · intro q
        rw [Mbs.get_storeUab]
        split_ifs
        · exact huab x rfl
        · exact h.isDouble q
      · intro q hq
        rw [Mbs.get_storeUab, if_neg hq]
        exact h.tenth q hq

theorem InRange.procRecv {time : Int64} {received : Option Element} {c c' : State Binary64}
    (h : InRange c.mdl)
    (hrecv : cloudProcRecv (deviceEnv szDevName nullText) time received c = .ok c') :
    InRange c'.mdl := by
  cases received with
  | none =>
      cases hrecv
      exact h
  | some e =>
      rw [mdl_of_handled (cloudProcRecv_eq_ok_iff.mp hrecv)]
      exact h.storeUab fun x hx ↦ isDouble_storedUab hx

/-- What a call of `cloud_exe` does behind `cloud_proc_recv`: every eleventh
call reports, the others count. -/
theorem update_after {n : ℕ} (hname : szDevName.length < 128) (h : After n d) (tm : Tm)
    (assigned : Quantity → List Assignment) :
    ∃ d', update (deviceEnv szDevName nullText) tm assigned d = .ok d' ∧ After (n + 1) d' ∧
      if 11 ∣ n + 1 then
        ∃ payload, d'.cloud.queued = d.cloud.queued ++ [⟨cmdMqttSendkv, szDevName, payload⟩] ∧
          payload.length < 8000 ∧
          Describes payload (datetimeText tm) (seen assigned quantities d.cloud.mdl)
      else d'.cloud = d.cloud := by
  obtain ⟨htimer, hintv, hrange⟩ := h
  by_cases hfull : 11 ∣ n + 1
  · have hdue : d.sysTimer ≥ d.sysIntv := by omega
    obtain ⟨payload, hupdate, hlength, hpayload⟩ :=
      @update_reports szDevName nullText assigned d hname hrange hdue tm
    refine ⟨_, hupdate, ⟨?_, hintv, ?_⟩, ?_⟩
    · change (0 : ℤ) = ((n + 1) % 11 : ℕ)
      omega
    · exact InRange.addQuantities hrange
    · rw [if_pos hfull]
      exact ⟨payload, rfl, hlength, hpayload⟩
  · have hearly : ¬d.sysTimer ≥ d.sysIntv := by omega
    refine ⟨_, if_neg hearly, ⟨?_, hintv, hrange⟩, ?_⟩
    · change d.sysTimer + 1 = ((n + 1) % 11 : ℕ)
      omega
    · rw [if_neg hfull]

theorem after_step {n : ℕ} (hname : szDevName.length < 128) (h : After n d) {l : Action}
    (hstep : step (deviceEnv szDevName nullText) d l = some d') :
    After (n + if isExe l then 1 else 0) d' := by
  cases l with
  | assign a =>
      cases hstep
      exact ⟨h.sysTimer, h.sysIntv, h.inRange.assign a⟩
  | exe time received tm assigned =>
      rw [step, Except.toOption_eq_some_iff, cloudExe, Except.bind_eq_ok_iff] at hstep
      obtain ⟨c, hrecv, hupdate⟩ := hstep
      have hnext : After n { d with cloud := c } :=
        ⟨h.sysTimer, h.sysIntv, h.inRange.procRecv hrecv⟩
      obtain ⟨d'', hok, hafter, -⟩ := update_after hname hnext tm assigned
      obtain rfl : d'' = d' := Except.ok.inj (hok.symm.trans hupdate)
      exact hafter

theorem after_run {n : ℕ} (hname : szDevName.length < 128) (h : After n d) {actions : List Action}
    (hrun : Runs.run (step (deviceEnv szDevName nullText)) d actions = some d') :
    After (n + actions.countP isExe) d' := by
  induction actions generalizing n d with
  | nil =>
      cases hrun
      exact h
  | cons l actions ih =>
      obtain ⟨t, ht, hrest⟩ := Runs.run_cons_eq_some_iff.mp hrun
      have hcount := ih (after_step hname h ht) hrest
      rw [List.countP_cons, Nat.add_comm (actions.countP isExe), ← Nat.add_assoc]
      exact hcount

/-- In every run the calls number 11, 22 and so on report what they read, and
no other call does. -/
theorem reports_of_run (hname : szDevName.length < 128) {actions : List Action}
    (hrun : Runs.run (step (deviceEnv szDevName nullText)) Device.start actions = some d)
    {time : Int64} {received : Option Element} {c : State Binary64}
    (hrecv : cloudProcRecv (deviceEnv szDevName nullText) time received d.cloud = .ok c) (tm : Tm)
    (assigned : Quantity → List Assignment) :
    ∃ d', cloudExe (deviceEnv szDevName nullText) time received tm assigned d = .ok d' ∧
      if 11 ∣ actions.countP isExe + 1 then
        ∃ payload, d'.cloud.queued = c.queued ++ [⟨cmdMqttSendkv, szDevName, payload⟩] ∧
          payload.length < 8000 ∧
          Describes payload (datetimeText tm) (seen assigned quantities c.mdl)
      else d'.cloud = c := by
  have hstart : After 0 Device.start := ⟨rfl, rfl, inRange_simInit⟩
  have hafter := after_run hname hstart hrun
  rw [Nat.zero_add] at hafter
  have hnext : After (actions.countP isExe) { d with cloud := c } :=
    ⟨hafter.sysTimer, hafter.sysIntv, hafter.inRange.procRecv hrecv⟩
  obtain ⟨d', hok, -, hreport⟩ := update_after hname hnext tm assigned
  refine ⟨d', ?_, hreport⟩
  rw [cloudExe, hrecv, Except.ok_bind_eq]
  exact hok

def newYear : Tm where
  year := 124
  mon := 0
  mday := 1
  hour := 0
  min := 0
  sec := 0
  year_ge := by decide
  year_lt := by decide

/-- A call without a message at the beginning of 2024. -/
def quietCall : Action := .exe 0 none newYear fun _ ↦ []

/-- The first report, on the eleventh call. -/
theorem reports_of_run_ten :
    ∃ d' payload, cloudExe (deviceEnv (ascii "pcs") none) 0 none newYear (fun _ ↦ [⟨.ia, 55⟩])
        { Device.start with sysTimer := 10 } = .ok d' ∧
      d'.cloud.queued = [⟨cmdMqttSendkv, ascii "pcs", payload⟩] ∧ payload.length < 8000 ∧
        Describes payload (datetimeText newYear)
          (seen (fun _ ↦ [⟨.ia, 55⟩]) quantities (simInit .binary64)) := by
  have hdue : 11 ∣ (List.replicate 10 quietCall).countP isExe + 1 := by decide
  obtain ⟨d', hcall, hreport⟩ :=
    @reports_of_run (ascii "pcs") none { Device.start with sysTimer := 10 } (by decide)
      (List.replicate 10 quietCall) rfl 0 none Device.start.cloud rfl newYear
      fun _ ↦ [⟨.ia, 55⟩]
  rw [if_pos hdue] at hreport
  obtain ⟨payload, hqueued, hlength, hpayload⟩ := hreport
  exact ⟨d', payload, hcall, hqueued, hlength, hpayload⟩

end Calls

end Cloud.Report
