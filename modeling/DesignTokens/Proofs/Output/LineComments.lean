import DesignTokens.Proofs.Output.Layout
import DesignTokens.Proofs.Text
import DesignTokens.Text.Blank

/-!
# Descriptions in line comments

The preprocessors and Swift have a description on a line of its own in front of the declaration.
Only its first line is behind the slashes: a description leaves the rest of a file as it is if and
only if each of its other lines would be a comment by itself, as when it has no other lines.
-/

namespace DesignTokens
namespace Output

/-! ## Lines that are comments -/

/-- Two slashes stand in front of everything but blanks. -/
def isCommentLine (line : String) : Bool :=
  ['/', '/'].isPrefixOf (Text.trimStart line.toList)

/-- The lines of a text that are no comments. -/
def codeLines (text : String) : List String :=
  (Text.split '\n' text).filter (!isCommentLine ·)

def withoutComments (text : String) : String :=
  Text.join "\n" (codeLines text)

variable {front back : String}

theorem codeLines_append (front back : String) :
    codeLines (front ++ "\n" ++ back) = codeLines front ++ codeLines back := by
  rw [codeLines, Text.split_append rfl, List.filter_append]
  rfl

/-- The lines of code in a list of lines are those of each. -/
theorem codeLines_join {α : Type} (chunk : α → String) (items : List α) (back : String) :
    codeLines (String.join (items.map fun item => chunk item ++ "\n") ++ back) =
      items.flatMap (fun item => codeLines (chunk item)) ++ codeLines back := by
  induction items with
  | nil =>
      simp
  | cons item items ih =>
      rw [List.map_cons, String.join_cons, String.append_assoc, codeLines_append, ih,
        List.flatMap_cons, List.append_assoc]

/-- Deleting comments forgets nothing of the lines that are left. -/
theorem withoutComments_eq_iff (hfront : codeLines front ≠ []) (hback : codeLines back ≠ []) :
    withoutComments front = withoutComments back ↔ codeLines front = codeLines back := by
  have hlines : ∀ text, codeLines text ≠ [] →
      Text.split '\n' (withoutComments text) = codeLines text := by
    intro text htext
    refine Text.split_join rfl (fun line hline => ?_) htext
    exact Text.not_mem_of_mem_split (List.mem_of_mem_filter hline)
  constructor
  · intro h
    rw [← hlines front hfront, h, hlines back hback]
  · intro h
    rw [withoutComments, h]
    rfl

/-- Texts that come between other ones are seen unless they are empty. -/
theorem flatMap_append_eq_iff {α β : Type} {extra own : α → List β} {items : List α} :
    items.flatMap (fun item => extra item ++ own item) = items.flatMap own ↔
      ∀ item ∈ items, extra item = [] := by
  -- The lengths tell how much the extra lines are.
  have hlength : (items.flatMap fun item => extra item ++ own item).length =
      (items.flatMap extra).length + (items.flatMap own).length := by
    induction items with
    | nil =>
        rfl
    | cons item items ih =>
        simp only [List.flatMap_cons, List.length_append, ih]
        omega
  constructor
  · intro h
    rw [h] at hlength
    exact List.flatMap_eq_nil_iff.1 (List.eq_nil_of_length_eq_zero (by omega))
  · intro h
    refine List.flatMap_congr fun item hitem => ?_
    rw [h item hitem, List.nil_append]

/-! ## Descriptions -/

/-- The token without its description. -/
def undescribed (token : TransformedToken) : TransformedToken :=
  { token with description := none }

/-- Every line of the description but the first is a comment by itself. -/
def KeepsToComments (token : TransformedToken) : Prop :=
  ∀ text, description? token = some text →
    ∀ line ∈ (Text.split '\n' text).tail, isCommentLine line = true

/-- The lines of the description that are not within a comment. -/
def strayLines (token : TransformedToken) : List String :=
  match description? token with
  | some text => (Text.split '\n' text).tail.filter (!isCommentLine ·)
  | none => []

variable {token : TransformedToken} {mark : String}

/-- A token has no stray lines exactly when its description stays in its comment. -/
theorem strayLines_eq_nil_iff : strayLines token = [] ↔ KeepsToComments token := by
  unfold strayLines KeepsToComments
  cases description? token with
  | none =>
      simp
  | some text =>
      simp [List.filter_eq_nil_iff]

/-- A description on a single line stays in its comment. -/
theorem keepsToComments_of_singleLine
    (h : ∀ text, token.description = some text → '\n' ∉ text.toList) : KeepsToComments token := by
  intro text htext line hline
  have hlist : Text.split '\n' text = [text] := by
    simp [Text.split, List.splitOn_eq_singleton (h text (description?_eq_some_iff.1 htext).1)]
  rw [hlist] at hline
  cases hline

/-- Behind a mark of comments the first line of a description is one. -/
theorem codeLines_lineComment (hmark : ∀ line, isCommentLine (mark ++ line) = true)
    (hline : '\n' ∉ mark.toList) (token : TransformedToken) (back : String) :
    codeLines (lineComment mark token ++ back) = strayLines token ++ codeLines back := by
  unfold lineComment strayLines
  cases description? token with
  | none =>
      simp
  | some text =>
      have hfirst : codeLines (mark ++ text) =
          (Text.split '\n' text).tail.filter (!isCommentLine ·) := by
        rw [codeLines, Text.split_append_of_not_mem hline]
        cases Text.split '\n' text with
        | nil =>
            rfl
        | cons first more =>
            simp [hmark]
      simp only [codeLines_append, hfirst]

/-- A layout that puts the description of each token into line comments in front of its code. -/
structure LineCommented (layout : Layout) where
  mark : String
  isCommentLine_mark : ∀ line, isCommentLine (mark ++ line) = true
  newline_notMem_mark : '\n' ∉ mark.toList
  head : String
  opening_eq : layout.opening = head ++ "\n"
  code : TransformedToken → String
  entry_eq : ∀ token, layout.entry token = lineComment mark token ++ (code token ++ "\n")
  code_undescribed : ∀ token, code (undescribed token) = code token
  codeLines_closing_ne_nil : codeLines layout.closing ≠ []

namespace LineCommented

variable {layout : Layout}

/-- The lines of code in a file: the head, each token's stray lines and own lines, and the
closing. -/
theorem codeLines_file (h : LineCommented layout) (tokens : List TransformedToken) :
    codeLines (layout.file tokens) = codeLines h.head ++
      (tokens.flatMap (fun token => strayLines token ++ codeLines (h.code token)) ++
        codeLines layout.closing) := by
  have hentries : tokens.map layout.entry =
      tokens.map fun token => lineComment h.mark token ++ h.code token ++ "\n" := by
    refine List.map_congr_left fun token _ => ?_
    rw [h.entry_eq, String.append_assoc]
  rw [Layout.file, Layout.onFrom, h.opening_eq, codeLines_append, hentries, codeLines_join]
  simp only [codeLines_lineComment h.isCommentLine_mark h.newline_notMem_mark]

theorem codeLines_file_ne_nil (h : LineCommented layout) (tokens : List TransformedToken) :
    codeLines (layout.file tokens) ≠ [] := by
  rw [h.codeLines_file]
  simp [h.codeLines_closing_ne_nil]

theorem strayLines_undescribed (token : TransformedToken) :
    strayLines (undescribed token) = [] := rfl

/-- Descriptions leave the code of a file alone exactly when each of them stays in its comment. -/
theorem withoutComments_file_iff (h : LineCommented layout) (tokens : List TransformedToken) :
    withoutComments (layout.file tokens) =
        withoutComments (layout.file (tokens.map undescribed)) ↔
      ∀ token ∈ tokens, KeepsToComments token := by
  rw [withoutComments_eq_iff (h.codeLines_file_ne_nil _) (h.codeLines_file_ne_nil _),
    h.codeLines_file, h.codeLines_file, List.append_cancel_left_eq, List.append_cancel_right_eq,
    List.flatMap_map]
  simp only [strayLines_undescribed, h.code_undescribed, List.nil_append,
    flatMap_append_eq_iff, strayLines_eq_nil_iff]

def sigilVariables (sigil : Char) (start : Option String) :
    LineCommented (Layout.sigilVariables sigil start) where
  mark := "// "
  isCommentLine_mark line := by
    simp [isCommentLine, Text.trimStart, Text.isBlank]
  newline_notMem_mark := by decide
  head := "/**\n" ++ String.join (headerLines.map fun line => " * " ++ line ++ "\n") ++ " */\n"
  opening_eq := by
    change blockHeader = _
    decide
  code token := String.singleton sigil ++ prefixed start token.name "-" ++ ": " ++
    styleValue token ++ ";"
  entry_eq token := by
    rw [← String.toList_inj]
    simp [Layout.entry, Layout.sigilVariables]
  code_undescribed _ := rfl
  codeLines_closing_ne_nil := by
    change codeLines "" ≠ []
    decide

def constants (start : Option String) (base : Float) :
    LineCommented (Layout.constants start base) where
  mark := "    /// "
  isCommentLine_mark line := by
    simp [isCommentLine, Text.trimStart, Text.isBlank]
  newline_notMem_mark := by decide
  head := Layout.enumerationFront ++ swiftTypeName start ++ " \x7b"
  opening_eq := by
    rw [← String.toList_inj]
    simp [Layout.constants]
  code token := "    public static let " ++ memberName token ++ swiftValue base token
  entry_eq token := by
    rw [← String.toList_inj]
    simp [Layout.entry, Layout.constants]
  code_undescribed _ := rfl
  codeLines_closing_ne_nil := by
    change codeLines "\x7d\n" ≠ []
    decide

end LineCommented

/-- In a file of a preprocessor or of Swift the descriptions are comments, so that the comment lines
can be deleted with or without them to the same effect, if and only if every description keeps to
comments on all of its lines. -/
theorem withoutComments_undescribed_iff (tokens : List TransformedToken) (start : Option String) :
    (∀ sigil, withoutComments (preprocessorVariables sigil tokens start) =
        withoutComments (preprocessorVariables sigil (tokens.map undescribed) start) ↔
      ∀ token ∈ tokens, KeepsToComments token) ∧
    (∀ base, withoutComments (iosSwift tokens start base) =
        withoutComments (iosSwift (tokens.map undescribed) start base) ↔
      ∀ token ∈ tokens, KeepsToComments token) := by
  constructor
  · intro sigil
    rw [Layout.preprocessorVariables_eq, Layout.preprocessorVariables_eq]
    exact (LineCommented.sigilVariables sigil start).withoutComments_file_iff tokens
  · intro base
    rw [Layout.iosSwift_eq, Layout.iosSwift_eq]
    exact (LineCommented.constants start base).withoutComments_file_iff tokens

def twoLineToken : TransformedToken where
  path := ["gap"]
  name := "gap"
  value := .string "4px"
  written := .string "4px"
  description := some "Space\nbetween"

theorem not_keepsToComments_twoLineToken : ¬ KeepsToComments twoLineToken := by
  intro h
  have hsecond : isCommentLine "between" = true :=
    h "Space\nbetween" (by decide) "between" (by decide)
  exact absurd hsecond (by decide)

/-- The second line of a description stands in the file as if it were code. -/
theorem withoutComments_undescribed_ne_twoLines :
    withoutComments (preprocessorVariables '$' [twoLineToken] none) ≠
        withoutComments (preprocessorVariables '$' ([twoLineToken].map undescribed) none) ∧
      withoutComments (iosSwift [twoLineToken] none 16) ≠
        withoutComments (iosSwift ([twoLineToken].map undescribed) none 16) := by
  have hnot : ¬ ∀ token ∈ [twoLineToken], KeepsToComments token :=
    fun h => not_keepsToComments_twoLineToken (h twoLineToken List.mem_cons_self)
  constructor
  · rw [Layout.preprocessorVariables_eq, Layout.preprocessorVariables_eq, ne_eq,
      (LineCommented.sigilVariables '$' none).withoutComments_file_iff]
    exact hnot
  · rw [Layout.iosSwift_eq, Layout.iosSwift_eq, ne_eq,
      (LineCommented.constants none 16).withoutComments_file_iff]
    exact hnot

end Output
end DesignTokens
