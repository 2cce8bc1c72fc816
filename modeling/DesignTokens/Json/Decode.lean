import DesignTokens.Json.Basic
import DesignTokens.Json.Parser

/-!
# Typed reading of JSON values

Readers that take a record, a choice or a list out of a JSON value. Unknown fields are ignored, a
field without a default must be present, `null` stands for an absent optional value only, a record
must not give one of its fields twice, and an integer must be written as an integer literal.
-/

namespace DesignTokens
namespace Json

/-- Why a document could not be read: it is no JSON text, or a value has another shape. -/
inductive Error where
  | malformed
  | shape (expected : String)
deriving DecidableEq, Repr

def Error.message : Error → String
  | .malformed => "malformed document"
  | .shape expected => "expected " ++ expected

/-- A value read, or the reason why not. -/
abbrev Decoded (α : Type) := Except Error α

/-- Reads the text of a document along an outline, repeated fields in place. -/
def read (outline : Outline) (text : String) : Decoded Json :=
  match parseAlong outline text with
  | some value => .ok value
  | none => .error .malformed

namespace Decode

variable {α : Type}

/-! ## Scalars -/

def text : Json → Decoded String
  | .string s => .ok s
  | _ => .error (.shape "a string")

def bool : Json → Decoded Bool
  | .bool b => .ok b
  | _ => .error (.shape "a boolean")

def intBetween (low high : Int) : Json → Decoded Int
  | .number (.int n) =>
      if low ≤ n ∧ n ≤ high then .ok n else .error (.shape "an integer in range")
  | _ => .error (.shape "an integer")

def int32 (value : Json) : Decoded Int32 :=
  (intBetween (-2147483648) 2147483647 value).map Int32.ofInt

def byte (value : Json) : Decoded UInt8 :=
  (intBetween 0 255 value).map fun n => UInt8.ofNat n.toNat

/-- A floating-point number; an integer counts as one. -/
def float : Json → Decoded Float
  | .number n => .ok n.toFloat
  | _ => .error (.shape "a number")

/-- A floating-point number of 32 bits; an integer counts as one. -/
def float32 : Json → Decoded Float32
  | .number (.int n) => .ok (Float32.ofInt n)
  | .number (.float x) => .ok x.toFloat32
  | _ => .error (.shape "a number")

/-! ## Containers -/

def fields : Json → Decoded (List (String × Json))
  | .object fields => .ok fields
  | _ => .error (.shape "an object")

def list (item : Json → Decoded α) : Json → Decoded (List α)
  | .array items => items.mapM item
  | _ => .error (.shape "an array")

def option (some : Json → Decoded α) : Json → Decoded (Option α)
  | .null => .ok none
  | value => (some value).map Option.some

def entries (value : Json → Decoded α) (object : Json) : Decoded (List (String × α)) := do
  (← fields object).mapM fun (name, item) => do return (name, ← value item)

/-! ## Records -/

/-- The fields of a record with the given field names. A record may also be written as the array of
its first fields in order. -/
def record (names : List String) : Json → Decoded (List (String × Json))
  | .object fields => .ok fields
  | .array items =>
      if items.length ≤ names.length then .ok (names.zip items)
      else .error (.shape "a record")
  | _ => .error (.shape "a record")

/-- A field of a record, which must not be repeated. -/
def find? (fields : List (String × Json)) (name : String) : Decoded (Option Json) :=
  match fields.filter (·.1 = name) with
  | [] => .ok none
  | [(_, value)] => .ok (some value)
  | _ => .error (.shape ("one field " ++ name))

def field (fields : List (String × Json)) (name : String) (value : Json → Decoded α) :
    Decoded α := do
  match ← find? fields name with
  | some item => value item
  | none => .error (.shape ("a field " ++ name))

def fieldOr (fields : List (String × Json)) (name : String) (default : α)
    (value : Json → Decoded α) : Decoded α := do
  match ← find? fields name with
  | some item => value item
  | none => .ok default

/-- A field that may be absent or `null`. -/
def fieldOption (fields : List (String × Json)) (name : String) (value : Json → Decoded α) :
    Decoded (Option α) :=
  fieldOr fields name none (option value)

/-! ## Choices -/

/-- `null`, which adds nothing to the name of a choice. -/
def isNull (value : Json) : Bool :=
  value = .null

/-- `null` or an object without fields. -/
def isVoid (value : Json) : Bool :=
  value = .null ∨ value = .object []

/-- The name of a choice: a text, or an object whose only field has that name and holds nothing. -/
def choiceName (holdsNothing : Json → Bool) : Json → Decoded String
  | .string name => .ok name
  | .object [(name, value)] =>
      if holdsNothing value then .ok name else .error (.shape "nothing beside the name of a choice")
  | _ => .error (.shape "the name of a choice")

def known (of : String → Option α) (name : String) : Decoded α :=
  match of name with
  | some a => .ok a
  | none => .error (.shape "a known choice")

def choice (of : String → Option α) (value : Json) : Decoded α := do
  known of (← choiceName isNull value)

/-- One of the named choices as a field of an object that may have further fields. There an object
without fields counts as nothing too. -/
def fieldChoice (of : String → Option α) (value : Json) : Decoded α := do
  known of (← choiceName isVoid value)

end Decode
end Json
end DesignTokens
