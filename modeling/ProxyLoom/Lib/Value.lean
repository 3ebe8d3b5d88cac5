import ProxyLoom.Lib.Laminar

/-!
# Documents

Documents as JSON and YAML decode to them: numbers, texts, lists, and objects with named fields.
`Value.entries` lists every field of every object under a document with the path that leads to it,
in the order of the keys.
-/

namespace Json

/-- A decoded document. -/
inductive Value where
  | null
  | bool (b : Bool)
  | num (n : ℕ)
  | str (s : String)
  | list (items : List Value)
  | obj (fields : List (String × Value))
deriving Repr

abbrev Field := String × Value

/-! ## Encoding of records -/

def strs (l : List String) : Value := .list (l.map .str)

/-- A field that is left out when it is empty. -/
def omitStr (key s : String) : List Field := if s = "" then [] else [(key, .str s)]

def omitNum (key : String) (n : ℕ) : List Field := if n = 0 then [] else [(key, .num n)]

def omitStrs (key : String) (l : List String) : List Field :=
  if l = [] then [] else [(key, strs l)]

def omitList (key : String) (l : List Value) : List Field :=
  if l = [] then [] else [(key, .list l)]

def omitNone (key : String) (v : Option Value) : List Field := v.toList.map fun v => (key, v)

def Value.get? : Value → String → Option Value
  | .obj fields, key => (fields.find? fun entry => entry.1 = key).map Prod.snd
  | _, _ => none

/-! ## Reading records -/

/-- A value that is missing or of another type reads as the empty text. -/
def textOf : Option Value → String
  | some (.str s) => s
  | _ => ""

def numOf : Option Value → ℕ
  | some (.num n) => n
  | _ => 0

def boolOf : Option Value → Bool
  | some (.bool b) => b
  | _ => false

def textsOf : Option Value → List String
  | some (.list items) => items.map fun v => textOf (some v)
  | _ => []

def firstOf : Option Value → Value
  | some (.list (v :: _)) => v
  | _ => .null

section
variable {key k : String} {s : String} {n : ℕ} {l : List String}

@[simp] theorem get?_nil : (Value.obj []).get? key = none := rfl

@[simp] theorem get?_null : Value.null.get? key = none := rfl

@[simp] theorem get?_cons {v : Value} {fields : List Field} :
    (Value.obj ((k, v) :: fields)).get? key =
      if k = key then some v else (Value.obj fields).get? key := by
  unfold Value.get?
  by_cases h : k = key
  · simp [h]
  · simp [h]

@[simp] theorem get?_append {a b : List Field} : (Value.obj (a ++ b)).get? key =
    ((Value.obj a).get? key).or ((Value.obj b).get? key) := by
  simp [Value.get?, List.find?_append, Option.map_or]

@[simp] theorem get?_omitStr : (Value.obj (omitStr k s)).get? key =
    if k = key then (if s = "" then none else some (.str s)) else none := by
  unfold omitStr
  split_ifs <;> simp [*]

@[simp] theorem get?_omitNum : (Value.obj (omitNum k n)).get? key =
    if k = key then (if n = 0 then none else some (.num n)) else none := by
  unfold omitNum
  split_ifs <;> simp [*]

@[simp] theorem get?_omitStrs : (Value.obj (omitStrs k l)).get? key =
    if k = key then (if l = [] then none else some (strs l)) else none := by
  unfold omitStrs
  split_ifs <;> simp [*]

@[simp] theorem get?_omitList {l : List Value} : (Value.obj (omitList k l)).get? key =
    if k = key then (if l = [] then none else some (.list l)) else none := by
  unfold omitList
  split_ifs <;> simp [*]

@[simp] theorem get?_omitNone {v : Option Value} : (Value.obj (omitNone k v)).get? key =
    if k = key then v else none := by
  unfold omitNone
  cases v <;> simp

@[simp] theorem textOf_none : textOf none = "" := rfl

@[simp] theorem textOf_str : textOf (some (.str s)) = s := rfl

@[simp] theorem textOf_omit :
    textOf (if s = "" then none else some (.str s)) = s := by
  split_ifs with h
  · exact h.symm
  · rfl

@[simp] theorem numOf_num : numOf (some (.num n)) = n := rfl

@[simp] theorem numOf_omit : numOf (if n = 0 then none else some (.num n)) = n := by
  split_ifs with h
  · exact h.symm
  · rfl

@[simp] theorem boolOf_bool {b : Bool} : boolOf (some (.bool b)) = b := rfl

@[simp] theorem textsOf_strs : textsOf (some (strs l)) = l := by
  simp [textsOf, strs, Function.comp_def]

@[simp] theorem textsOf_omit :
    textsOf (if l = [] then none else some (strs l)) = l := by
  split_ifs with h
  · exact h.symm
  · exact textsOf_strs

@[simp] theorem firstOf_none : firstOf none = .null := rfl

@[simp] theorem firstOf_cons {v : Value} {items : List Value} :
    firstOf (some (.list (v :: items))) = v := rfl

end

/-! ## Entries -/

/-- A field with the path of its object. -/
structure Entry where
  path : String
  key : String
  value : Value
deriving Repr

mutual

/-- Every field of every object, each before those of its value. -/
def Value.entries (path : String) : Value → List Entry
  | .list items => itemEntries path 0 items
  | .obj fields => fieldEntries path fields
  | _ => []

def itemEntries (path : String) (index : ℕ) : List Value → List Entry
  | [] => []
  | v :: items =>
    v.entries (path ++ "/" ++ toString index) ++ itemEntries path (index + 1) items

def fieldEntries (path : String) : List (String × Value) → List Entry
  | [] => []
  | (key, v) :: fields =>
    ⟨path, key, v⟩ :: v.entries (path ++ "/" ++ key) ++ fieldEntries path fields

end

mutual

/-- The texts of a document: the keys of its objects and the texts under them. -/
def Value.texts : Value → List String
  | .str s => [s]
  | .list items => itemTexts items
  | .obj fields => fieldTexts fields
  | _ => []

def itemTexts : List Value → List String
  | [] => []
  | v :: items => v.texts ++ itemTexts items

def fieldTexts : List (String × Value) → List String
  | [] => []
  | (key, v) :: fields => key :: v.texts ++ fieldTexts fields

end

end Json
