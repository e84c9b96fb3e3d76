import Mathlib.Data.Rat.Defs
import Mathlib.Data.List.Infix
import Mathlib.Tactic.Common

/-!
# Python values, JSON and the string methods the package uses

`PyValue` is a value a caller may hand to the package and `Json` a JSON value. `dumps` is
`json.dumps` and `loads` is `json.loads`; both are partial in the same places as Python's.
Dumping what was loaded gives the same value: `dumps_loads`.

A JSON number is its decimal text, digits and scale, since PostgreSQL reads `3` and `3.0`
differently. A Python float is the number its `repr` writes.

The string methods are those of Python's `str`, on code points.
-/

namespace DjangoAbsurd

/-- A decimal number: `digits` scaled down by `10 ^ scale`, written with `scale` digits
after the point. -/
structure Decimal where
  digits : ℤ
  scale : ℕ
  deriving DecidableEq, Repr

/-- The number a decimal denotes. -/
def Decimal.toRat (d : Decimal) : ℚ := d.digits / 10 ^ d.scale

/-- A JSON value. -/
inductive Json where
  | null
  | bool (b : Bool)
  | num (d : Decimal)
  | str (s : String)
  | arr (items : List Json)
  | obj (members : List (String × Json))

/-- A key of a Python dictionary: a string, a number, a boolean or `None` with the text
`json.dumps` gives it, or an object `json.dumps` refuses as a key. -/
inductive PyKey where
  | str (s : String)
  | scalar (text : String)
  | object (description : String)
  deriving DecidableEq, Repr

/-- A Python value. `object` is any object `json.dumps` refuses: a datetime, a function,
a set. -/
inductive PyValue where
  | none
  | bool (b : Bool)
  | int (n : ℤ)
  | float (repr : Decimal)
  | str (s : String)
  | list (items : List PyValue)
  | tuple (items : List PyValue)
  | dict (members : List (PyKey × PyValue))
  | object (description : String)

/-- The text `json.dumps` gives a dictionary key. -/
def PyKey.text? : PyKey → Option String
  | .str s => some s
  | .scalar text => some text
  | .object _ => none

mutual

/-- `json.dumps`, with `none` where it raises. -/
def dumps : PyValue → Option Json
  | .none => some .null
  | .bool b => some (.bool b)
  | .int n => some (.num ⟨n, 0⟩)
  | .float d => some (.num d)
  | .str s => some (.str s)
  | .list items => (dumpsItems items).map .arr
  | .tuple items => (dumpsItems items).map .arr
  | .dict members => (dumpsMembers members).map .obj
  | .object _ => none

def dumpsItems : List PyValue → Option (List Json)
  | [] => some []
  | v :: vs => (dumps v).bind (fun j => (dumpsItems vs).map (j :: ·))

def dumpsMembers : List (PyKey × PyValue) → Option (List (String × Json))
  | [] => some []
  | (k, v) :: ms =>
      k.text?.bind (fun s => (dumps v).bind (fun j => (dumpsMembers ms).map ((s, j) :: ·)))

end

mutual

/-- `json.loads`. -/
def loads : Json → PyValue
  | .null => .none
  | .bool b => .bool b
  | .num d => if d.scale = 0 then .int d.digits else .float d
  | .str s => .str s
  | .arr items => .list (loadsItems items)
  | .obj members => .dict (loadsMembers members)

def loadsItems : List Json → List PyValue
  | [] => []
  | j :: js => loads j :: loadsItems js

def loadsMembers : List (String × Json) → List (PyKey × PyValue)
  | [] => []
  | (k, j) :: ms => (.str k, loads j) :: loadsMembers ms

end

theorem loadsMembers_eq_map (members : List (String × Json)) :
  loadsMembers members = members.map (fun m => (PyKey.str m.1, loads m.2))
  := by
  induction members with
  | nil => rfl
  | cons m ms ih => rw [loadsMembers, ih, List.map_cons]

theorem dumps_loads_num (d : Decimal) :
  dumps (loads (.num d)) = some (.num d)
  := by
  obtain ⟨digits, scale⟩ := d
  cases scale <;> rfl

mutual

/-- Dumping what was loaded gives the value it was loaded from. -/
theorem dumps_loads : ∀ j : Json, dumps (loads j) = some j
  | .null => rfl
  | .bool _ => rfl
  | .num d => dumps_loads_num d
  | .str _ => rfl
  | .arr items => by simp [loads, dumps, dumpsItems_loadsItems items]
  | .obj members => by simp [loads, dumps, dumpsMembers_loadsMembers members]

theorem dumpsItems_loadsItems : ∀ js : List Json, dumpsItems (loadsItems js) = some js
  | [] => rfl
  | j :: js => by simp [loadsItems, dumpsItems, dumps_loads j, dumpsItems_loadsItems js]

theorem dumpsMembers_loadsMembers :
    ∀ ms : List (String × Json), dumpsMembers (loadsMembers ms) = some ms
  | [] => rfl
  | (k, j) :: ms => by
      simp [loadsMembers, dumpsMembers, PyKey.text?, dumps_loads j, dumpsMembers_loadsMembers ms]

end

mutual

/-- Equality of JSON values is decidable. -/
def Json.decEq : (a b : Json) → Decidable (a = b)
  | .null, .null => .isTrue rfl
  | .bool a, .bool b => decidable_of_iff (a = b) (by simp)
  | .num a, .num b => decidable_of_iff (a = b) (by simp)
  | .str a, .str b => decidable_of_iff (a = b) (by simp)
  | .arr a, .arr b =>
      match Json.decEqItems a b with
      | .isTrue h => .isTrue (by rw [h])
      | .isFalse h => .isFalse (by simpa using h)
  | .obj a, .obj b =>
      match Json.decEqMembers a b with
      | .isTrue h => .isTrue (by rw [h])
      | .isFalse h => .isFalse (by simpa using h)
  | .null, .bool _ | .null, .num _ | .null, .str _ | .null, .arr _ | .null, .obj _
  | .bool _, .null | .bool _, .num _ | .bool _, .str _ | .bool _, .arr _ | .bool _, .obj _
  | .num _, .null | .num _, .bool _ | .num _, .str _ | .num _, .arr _ | .num _, .obj _
  | .str _, .null | .str _, .bool _ | .str _, .num _ | .str _, .arr _ | .str _, .obj _
  | .arr _, .null | .arr _, .bool _ | .arr _, .num _ | .arr _, .str _ | .arr _, .obj _
  | .obj _, .null | .obj _, .bool _ | .obj _, .num _ | .obj _, .str _ | .obj _, .arr _ =>
      .isFalse (by simp)

def Json.decEqItems : (a b : List Json) → Decidable (a = b)
  | [], [] => .isTrue rfl
  | [], _ :: _ | _ :: _, [] => .isFalse (by simp)
  | a :: as, b :: bs =>
      match Json.decEq a b, Json.decEqItems as bs with
      | .isTrue h, .isTrue h' => .isTrue (by rw [h, h'])
      | .isFalse h, _ => .isFalse (fun heq => h (List.cons.inj heq).1)
      | _, .isFalse h => .isFalse (fun heq => h (List.cons.inj heq).2)

def Json.decEqMembers : (a b : List (String × Json)) → Decidable (a = b)
  | [], [] => .isTrue rfl
  | [], _ :: _ | _ :: _, [] => .isFalse (by simp)
  | (k, a) :: as, (l, b) :: bs =>
      if hk : k = l then
        match Json.decEq a b, Json.decEqMembers as bs with
        | .isTrue h, .isTrue h' => .isTrue (by rw [hk, h, h'])
        | .isFalse h, _ => .isFalse (fun heq => h (Prod.mk.inj (List.cons.inj heq).1).2)
        | _, .isFalse h => .isFalse (fun heq => h (List.cons.inj heq).2)
      else .isFalse (fun heq => hk (Prod.mk.inj (List.cons.inj heq).1).1)

end

instance : DecidableEq Json := Json.decEq

/-- The member `key` of a JSON object. Of members with one key the last counts. -/
def Json.get? (j : Json) (key : String) : Option Json :=
  match j with
  | .obj members => (members.reverse.find? (fun m => m.1 = key)).map Prod.snd
  | _ => none

mutual

/-- `jsonb_strip_nulls`: members that are `null` are dropped, at every depth. -/
def Json.stripNulls : Json → Json
  | .arr items => .arr (Json.stripNullsItems items)
  | .obj members => .obj (Json.stripNullsMembers members)
  | j => j

def Json.stripNullsItems : List Json → List Json
  | [] => []
  | j :: js => j.stripNulls :: Json.stripNullsItems js

def Json.stripNullsMembers : List (String × Json) → List (String × Json)
  | [] => []
  | (_, .null) :: ms => Json.stripNullsMembers ms
  | (k, j) :: ms => (k, j.stripNulls) :: Json.stripNullsMembers ms

end

/-- `bool(value)`. -/
def PyValue.truthy : PyValue → Bool
  | .none => false
  | .bool b => b
  | .int n => n ≠ 0
  | .float d => d.digits ≠ 0
  | .str s => s ≠ ""
  | .list items => !items.isEmpty
  | .tuple items => !items.isEmpty
  | .dict members => !members.isEmpty
  | .object _ => true

/-- `mapping.get(key)`, where it has the key. -/
def getItem? (members : List (PyKey × PyValue)) (key : String) : Option PyValue :=
  (members.find? (fun m => m.1 = .str key)).map Prod.snd

/-! ### `list` and `dict` of a loaded value -/

/-- What iterating over a value gives: the items of an array, the keys of an object, the
characters of a string. -/
def Json.items? : Json → Option (List Json)
  | .arr items => some items
  | .obj members => some (members.map (fun m => .str m.1))
  | .str s => some (s.toList.map (fun c => .str (String.singleton c)))
  | .null | .bool _ | .num _ => none

/-- `list(value)`. -/
def Json.toList? (j : Json) : Option (List PyValue) := j.items?.map loadsItems

/-- The text of a decimal: its digits, with `scale` of them after the point. -/
def Decimal.text (d : Decimal) : String :=
  let digits := Nat.toDigits 10 d.digits.natAbs
  let padded := List.replicate (d.scale + 1 - digits.length) '0' ++ digits
  let whole := padded.take (padded.length - d.scale)
  let fraction := padded.drop (padded.length - d.scale)
  String.ofList ((if d.digits < 0 then ['-'] else []) ++ whole
    ++ (if fraction.isEmpty then [] else '.' :: fraction))

/-- A value as the key of a dictionary; arrays and objects have no hash. -/
def Json.key? : Json → Option PyKey
  | .null => some (.scalar "null")
  | .bool b => some (.scalar (if b then "true" else "false"))
  | .num d => some (.scalar d.text)
  | .str s => some (.str s)
  | .arr _ | .obj _ => none

/-- The number a value is equal to. -/
def Json.number? : Json → Option ℚ
  | .bool b => some (if b then 1 else 0)
  | .num d => some d.toRat
  | .null | .str _ | .arr _ | .obj _ => none

/-- Two keys are equal: `1`, `1.0` and `True` are one key. -/
def Json.sameKey (a b : Json) : Bool := a = b ∨ (a.number?.isSome ∧ a.number? = b.number?)

/-- `mapping[key] = value`. A key that is there stays, with its new value. -/
def setItem (members : List (Json × Json)) (m : Json × Json) : List (Json × Json) :=
  match members with
  | [] => [m]
  | m' :: ms => if m'.1.sameKey m.1 then (m'.1, m.2) :: ms else m' :: setItem ms m

/-- A pair of a key and a value. -/
def Json.pair? (j : Json) : Option (Json × Json) :=
  match j.items? with
  | some [k, v] => if k.key?.isSome then some (k, v) else none
  | _ => none

/-- `dict(value)`: of an object it is the object, of another value that is iterated over its
items are pairs. -/
def Json.toDict? : Json → Option (List (PyKey × PyValue))
  | .obj members => some (loadsMembers members)
  | j => do
      let pairs ← (← j.items?).mapM Json.pair?
      (pairs.foldl setItem []).mapM (fun m => m.1.key?.map (·, loads m.2))

/-! ### Methods of `str` -/

/-- `s.endswith(suffix)`. -/
def endsWith (s suffix : String) : Bool :=
  suffix.toList.isSuffixOf s.toList

/-- `s.removesuffix(suffix)`. -/
def removeSuffix (s suffix : String) : String :=
  if endsWith s suffix then
    String.ofList (s.toList.take (s.toList.length - suffix.toList.length))
  else s

/-- `s.replace(old, new)` for a single character `old` and a single character `new`. -/
def replaceChar (s : String) (old new : Char) : String :=
  String.ofList (s.toList.map (fun c => if c = old then new else c))

/-- `s.rsplit(c, 1)`, when `c` occurs in `s`. -/
def rsplitChar? (s : String) (c : Char) : Option (String × String) :=
  let tail := s.toList.reverse.takeWhile (· ≠ c)
  match s.toList.reverse.dropWhile (· ≠ c) with
  | [] => none
  | _ :: rest => some (String.ofList rest.reverse, String.ofList tail.reverse)

/-- `c.isspace()`. -/
def isSpace (c : Char) : Bool :=
  (9 ≤ c.toNat && c.toNat ≤ 13) || (28 ≤ c.toNat && c.toNat ≤ 32) || c.toNat = 133
    || c.toNat = 160 || c.toNat = 5760 || (8192 ≤ c.toNat && c.toNat ≤ 8202) || c.toNat = 8232
    || c.toNat = 8233 || c.toNat = 8239 || c.toNat = 8287 || c.toNat = 12288

/-- `not s.strip()`. -/
def isBlank (s : String) : Bool := s.toList.all isSpace

theorem endsWith_append (s suffix : String) :
  endsWith (s ++ suffix) suffix = true
  := by
  simp [endsWith, String.toList_append]

theorem removeSuffix_append (s suffix : String) :
  removeSuffix (s ++ suffix) suffix = s
  := by
  rw [removeSuffix, if_pos (endsWith_append s suffix), String.toList_append, List.length_append,
    Nat.add_sub_cancel, List.take_left, String.ofList_toList]

/-- Splitting `a`, `c`, `b` at the last `c` gives `a` and `b` back when `b` has no `c`. -/
theorem rsplitChar?_append {a b : String} {c : Char} (h : c ∉ b.toList) :
  rsplitChar? (a ++ String.singleton c ++ b) c = some (a, b)
  := by
  have hall : ∀ x ∈ b.toList.reverse, decide (x ≠ c) = true := by
    intro x hx
    rw [List.mem_reverse] at hx
    exact decide_eq_true (fun hxc => h (hxc ▸ hx))
  have hrev : (a ++ String.singleton c ++ b).toList.reverse
      = b.toList.reverse ++ c :: a.toList.reverse := by
    simp [String.toList_append]
  simp only [rsplitChar?, hrev]
  rw [List.takeWhile_append_of_pos hall, List.dropWhile_append_of_pos hall]
  simp

end DjangoAbsurd
