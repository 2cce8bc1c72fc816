import DesignTokens.Text.Blank
import DesignTokens.Text.Split
import DesignTokens.Token.Error

/-!
# Dot paths

`colors.blue.500` names the token `500` in the group `colors.blue`; the empty path names the root.
A path is a text, and its segments are the parts between its dots. A name may be used as a segment
when it is not blank, does not start with `$` and holds neither dots nor braces.
-/

namespace DesignTokens
namespace Path

/-- The segments of a path; the empty path has none. -/
def segments (path : String) : List String :=
  if path = "" then [] else Text.split '.' path

def ofSegments (segments : List String) : String :=
  Text.join "." segments

/-- The path without its last segment, `none` for the root. -/
def parent? (path : String) : Option String :=
  if path = "" then none else some (ofSegments (Text.split '.' path).dropLast)

def last (path : String) : String :=
  (Text.split '.' path).getLast?.getD ""

/-- The path of the entry `name` in the group at `parent`. -/
def child (parent name : String) : String :=
  if parent = "" then name else parent ++ "." ++ name

/-- What follows `ancestor` in a path that equals it or lies below it: nothing, or a dot and the
rest. Everything lies below the root. -/
def below? (path ancestor : String) : Option (List Char) :=
  if ancestor = "" then some path.toList
  else match Text.dropPrefix? ancestor.toList path.toList with
    | some [] => some []
    | some (c :: rest) => if c = '.' then some (c :: rest) else none
    | none => none

/-- The path equals `ancestor` or lies below it. -/
def isWithin (path ancestor : String) : Bool :=
  (below? path ancestor).isSome

/-- A path within `old` with `old` replaced by `new` at its front. -/
def rebase? (old new path : String) : Option String :=
  (below? path old).map fun rest => new ++ String.ofList rest

def nameFault? (name : String) : Option NameFault :=
  if Text.isBlankText name then some .blank
  else if name.toList.head? = some '$' then some .reserved
  else if name.toList.contains '.' then some .separator
  else if name.toList.contains '\x7b' || name.toList.contains '\x7d' then some .braces
  else none

def ValidName (name : String) : Prop :=
  nameFault? name = none

instance (name : String) : Decidable (ValidName name) :=
  inferInstanceAs (Decidable (nameFault? name = none))

def validateName (name : String) : Except TokenError Unit :=
  match nameFault? name with
  | some fault => .error (.invalidName name fault)
  | none => .ok ()

/-- Refuses the first of several texts that cannot be used as a name. -/
def validateNames : List String → Except TokenError Unit
  | [] => .ok ()
  | name :: rest =>
      match validateName name with
      | .ok () => validateNames rest
      | .error e => .error e

theorem validateName_eq_ok_iff {name : String} : validateName name = .ok () ↔ ValidName name := by
  unfold validateName ValidName
  cases nameFault? name <;> simp

theorem validateNames_eq_ok_iff {names : List String} :
    validateNames names = .ok () ↔ ∀ name ∈ names, ValidName name := by
  induction names with
  | nil => simp [validateNames]
  | cons name rest ih =>
      rw [validateNames]
      cases h : validateName name with
      | ok u =>
          have hv : ValidName name := validateName_eq_ok_iff.1 h
          simp [ih, hv]
      | error e =>
          have hv : ¬ ValidName name := fun hv => by simp [validateName_eq_ok_iff.2 hv] at h
          simp [hv]

end Path
end DesignTokens
