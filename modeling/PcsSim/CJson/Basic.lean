import PcsSim.Lib.CString

/-!
# Items of a JSON document

`CJson` is the tree that `cJSON_Parse` builds.  The chain of `next` pointers
from `child` is the list of children; a NULL text is `none`.
-/

inductive CJsonType
  | false_
  | true_
  | null
  | number
  | string
  | array
  | object
  | raw
  /-- `cJSON_Invalid`, or a number that is none of the types -/
  | invalid
  deriving DecidableEq

structure CJson (D : Type) where
  type : CJsonType
  valuestring : Option Bytes
  valueint : ℤ
  valuedouble : D
  string : Option Bytes
  child : List (CJson D)

def tolower (b : UInt8) : UInt8 :=
  if 65 ≤ b ∧ b ≤ 90 then b + 32 else b

/-- The first bytes that differ, the end of a text counting as 0. -/
def compareLower : Bytes → Bytes → ℤ
  | [], [] => 0
  | a :: _, [] => (tolower a).toNat
  | [], b :: _ => -(tolower b).toNat
  | a :: s, b :: t =>
    if tolower a = tolower b then compareLower s t
    else (tolower a).toNat - (tolower b).toNat

def caseInsensitiveStrcmp : Option Bytes → Option Bytes → ℤ
  | some s, some t => compareLower s t
  | _, _ => 1

namespace CJson

variable {D : Type}

def isString (item : CJson D) : Bool := item.type = .string

def getObjectItem (object : CJson D) (name : Bytes) : Option (CJson D) :=
  object.child.find? fun element ↦ caseInsensitiveStrcmp (some name) element.string = 0

theorem mem_child_of_getObjectItem {object item : CJson D} {name : Bytes}
    (h : object.getObjectItem name = some item) : item ∈ object.child :=
  List.mem_of_find?_eq_some h

theorem getObjectItem_eq_none {object : CJson D} {name : Bytes}
    (h : ∀ item ∈ object.child, caseInsensitiveStrcmp (some name) item.string ≠ 0) :
    object.getObjectItem name = none := by
  simpa [getObjectItem] using h

end CJson
