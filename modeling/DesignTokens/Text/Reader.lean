/-!
# Readers

A reader takes a value from the front of a text and leaves the rest, or does not apply. Readers are
the common shape of the grammars of documents and of token values.
-/

namespace DesignTokens
namespace Text

/-- A reader takes a value from the front of a text and leaves the rest. -/
abbrev Reader (α : Type) := List Char → Option (α × List Char)

namespace Reader

variable {α β : Type}

def map (f : α → β) (reader : Reader α) : Reader β := fun s =>
  match reader s with
  | some (a, rest) => some (f a, rest)
  | none => none

/-- The reader's value if it applies, nothing taken otherwise. -/
def optional (reader : Reader α) : Reader (Option α) := fun s =>
  match reader s with
  | some (a, rest) => some (some a, rest)
  | none => some (none, s)

def orElse (first second : Reader α) : Reader α := fun s =>
  match first s with
  | some result => some result
  | none => second s

/-- One reader after another, each value kept. -/
def pair (first : Reader α) (second : Reader β) : Reader (α × β) := fun s =>
  match first s with
  | some (a, rest) =>
      match second rest with
      | some (b, rest) => some ((a, b), rest)
      | none => none
  | none => none

/-- One reader after another, the value of the second kept. -/
def after (first : Reader α) (second : Reader β) : Reader β :=
  (first.pair second).map (·.2)

def char (c : Char) : Reader Unit
  | d :: rest => if d = c then some ((), rest) else none
  | [] => none

/-- The longest run of characters of a class, which may be empty. -/
def run (holds : Char → Bool) : Reader (List Char) := fun s =>
  some (s.takeWhile holds, s.dropWhile holds)

/-- The longest run of characters of a class, at least one. -/
def run1 (holds : Char → Bool) : Reader (List Char) := fun s =>
  match s.takeWhile holds with
  | [] => none
  | c :: cs => some (c :: cs, s.dropWhile holds)

/-- A word of lower-case ASCII letters, read in any letter case. -/
def word : List Char → Reader Unit
  | [], s => some ((), s)
  | _ :: _, [] => none
  | c :: word', d :: rest => if d.toLower = c then word word' rest else none

end Reader
end Text
end DesignTokens
