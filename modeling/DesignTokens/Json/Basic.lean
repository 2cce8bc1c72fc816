import DesignTokens.Ordered

/-!
# JSON values

A JSON value keeps the fields of its objects in order. Numbers are of two kinds, integers and
floating-point numbers, and the two are never equal: `1` and `1.0` are different values.

A document may repeat a field of an object. `collapse` gives the value such a document stands for
where fields are looked up by name: a repeated field keeps its first place and takes its last
value.
-/

namespace DesignTokens

/-- A JSON number: an integer, or a floating-point number when it is written with a fraction or an
exponent or is out of the range of 64-bit integers. -/
inductive Json.Number where
  | int (value : Int)
  | float (value : Float)
deriving DecidableEq, Repr

inductive Json where
  | null
  | bool (value : Bool)
  | number (value : Json.Number)
  | string (text : String)
  | array (items : List Json)
  | object (fields : List (String × Json))
deriving Inhabited, Repr

namespace Json

/-! ## Decidable equality -/

mutual

def decideEq : (a b : Json) → Decidable (a = b)
  | .null, .null => isTrue rfl
  | .bool a, .bool b => decidable_of_iff (a = b) (by simp)
  | .number a, .number b => decidable_of_iff (a = b) (by simp)
  | .string a, .string b => decidable_of_iff (a = b) (by simp)
  | .array a, .array b =>
      match decideItemsEq a b with
      | isTrue h => isTrue (by rw [h])
      | isFalse h => isFalse (by simpa using h)
  | .object a, .object b =>
      match decideFieldsEq a b with
      | isTrue h => isTrue (by rw [h])
      | isFalse h => isFalse (by simpa using h)
  | .null, .bool _ | .null, .number _ | .null, .string _ | .null, .array _ | .null, .object _ =>
      isFalse nofun
  | .bool _, .null | .bool _, .number _ | .bool _, .string _ | .bool _, .array _
  | .bool _, .object _ => isFalse nofun
  | .number _, .null | .number _, .bool _ | .number _, .string _ | .number _, .array _
  | .number _, .object _ => isFalse nofun
  | .string _, .null | .string _, .bool _ | .string _, .number _ | .string _, .array _
  | .string _, .object _ => isFalse nofun
  | .array _, .null | .array _, .bool _ | .array _, .number _ | .array _, .string _
  | .array _, .object _ => isFalse nofun
  | .object _, .null | .object _, .bool _ | .object _, .number _ | .object _, .string _
  | .object _, .array _ => isFalse nofun

def decideItemsEq : (a b : List Json) → Decidable (a = b)
  | [], [] => isTrue rfl
  | [], _ :: _ => isFalse nofun
  | _ :: _, [] => isFalse nofun
  | x :: xs, y :: ys =>
      match decideEq x y, decideItemsEq xs ys with
      | isTrue h, isTrue h' => isTrue (by rw [h, h'])
      | isFalse h, _ => isFalse fun he => h (List.cons.inj he).1
      | _, isFalse h => isFalse fun he => h (List.cons.inj he).2

def decideFieldsEq : (a b : List (String × Json)) → Decidable (a = b)
  | [], [] => isTrue rfl
  | [], _ :: _ => isFalse nofun
  | _ :: _, [] => isFalse nofun
  | (k, x) :: xs, (l, y) :: ys =>
      if hk : k = l then
        match decideEq x y, decideFieldsEq xs ys with
        | isTrue h, isTrue h' => isTrue (by rw [hk, h, h'])
        | isFalse h, _ => isFalse fun he => h (Prod.mk.inj (List.cons.inj he).1).2
        | _, isFalse h => isFalse fun he => h (List.cons.inj he).2
      else isFalse fun he => hk (Prod.mk.inj (List.cons.inj he).1).1

end

instance : DecidableEq Json := decideEq

/-! ## Views -/

def string? : Json → Option String
  | .string text => some text
  | _ => none

def array? : Json → Option (List Json)
  | .array items => some items
  | _ => none

def object? : Json → Option (Entries Json)
  | .object fields => some fields
  | _ => none

def field? (value : Json) (name : String) : Option Json :=
  value.object?.bind (Entries.get? · name)

def Number.toFloat : Number → Float
  | .int value => Float.ofInt value
  | .float value => value

def float? : Json → Option Float
  | .number value => some value.toFloat
  | _ => none

/-- A floating-point number as a value. What is not finite has no number and becomes `null`. -/
def ofFloat (x : Float) : Json :=
  if x.isFinite then .number (.float x) else .null

def ofNat (n : Nat) : Json :=
  .number (.int n)

/-- A text or `null`. -/
def ofText? : Option String → Json
  | some text => .string text
  | none => .null

def ofTexts (texts : List String) : Json :=
  .array (texts.map .string)

/-! ## Repeated fields -/

mutual

/-- The value with every repeated field collapsed, at any depth. -/
def collapse : Json → Json
  | .null => .null
  | .bool value => .bool value
  | .number value => .number value
  | .string text => .string text
  | .array items => .array (collapseItems items)
  | .object fields => .object (Entries.ofPairs (collapseFields fields))

def collapseItems : List Json → List Json
  | [] => []
  | item :: rest => item.collapse :: collapseItems rest

/-- The value of every field collapsed, repeated fields still in place. -/
def collapseFields : List (String × Json) → List (String × Json)
  | [] => []
  | (name, value) :: rest => (name, value.collapse) :: collapseFields rest

end

end Json
end DesignTokens
