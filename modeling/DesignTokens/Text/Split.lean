/-!
# Splitting and joining texts

A text is cut at every occurrence of one character, so that `n` occurrences give `n + 1` parts,
and parts are joined with a separator between them. Cutting undoes joining when no part holds the
separator, and joining always undoes cutting.
-/

namespace DesignTokens
namespace Text

def split (separator : Char) (s : String) : List String :=
  (s.toList.splitOn separator).map String.ofList

def join (separator : String) (parts : List String) : String :=
  separator.intercalate parts

def replaceChar (old : Char) (new : List Char) (s : List Char) : List Char :=
  s.flatMap fun c => if c = old then new else [c]

/-- What follows `start` when the text begins with it. -/
def dropPrefix? : List Char → List Char → Option (List Char)
  | [], s => some s
  | _ :: _, [] => none
  | c :: start, d :: s => if c = d then dropPrefix? start s else none

theorem dropPrefix?_eq_some_iff {start s rest : List Char} :
    dropPrefix? start s = some rest ↔ s = start ++ rest := by
  induction start generalizing s with
  | nil => simp [dropPrefix?, eq_comm]
  | cons c start ih =>
      cases s with
      | nil => simp [dropPrefix?]
      | cons d s =>
          by_cases h : c = d
          · subst h; simp [dropPrefix?, ih]
          · simp [dropPrefix?, h, Ne.symm h]

/-- Every occurrence of `old` replaced by `new`, from left to right and without overlaps. An empty
`old` occurs nowhere. -/
def replace (old new : List Char) (s : List Char) : List Char :=
  go s.length s
where
  /-- The replacement in a text of at most the given length. -/
  go : Nat → List Char → List Char
    | 0, s => s
    | _ + 1, [] => []
    | n + 1, c :: s =>
        match old with
        | [] => c :: s
        | _ :: _ =>
            match dropPrefix? old (c :: s) with
            | some rest => new ++ go n rest
            | none => c :: go n s

/-- The text begins with `start`. -/
def startsWith (s start : String) : Bool :=
  start.toList.isPrefixOf s.toList

end Text
end DesignTokens
