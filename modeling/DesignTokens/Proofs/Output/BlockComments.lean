import DesignTokens.Proofs.Output.Layout
import DesignTokens.Proofs.Text
import DesignTokens.Text.Reader
import Mathlib.Data.List.Chain

/-!
# Descriptions in block comments

A block comment reaches from its opening to the first terminator behind it. In a description a blank
comes between the two characters of each terminator, and blanks keep the text apart from the
delimiters around it, so that the only terminator of a comment is its own: a scanner that starts at
the opening stops exactly where the comment was meant to end.
-/

namespace DesignTokens
namespace Output

/-! ## Scanning a comment -/

def terminator : List Char := ['*', '/']

/-- A text up to its first terminator, which is taken as well. -/
def throughTerminator : Text.Reader (List Char)
  | [] => none
  | c :: rest =>
      match Text.dropPrefix? terminator (c :: rest) with
      | some after => some (terminator, after)
      | none => (throughTerminator rest).map fun (inside, after) => (c :: inside, after)

/-- A block comment with its delimiters. The terminator is looked for behind the whole opening. -/
def blockComment : Text.Reader (List Char) := fun s =>
  match Text.dropPrefix? ['/', '*'] s with
  | some rest => (throughTerminator rest).map fun (inside, after) => ('/' :: '*' :: inside, after)
  | none => none

def Unterminated (s : List Char) : Prop :=
  s.IsChain fun c d => ¬ (c = '*' ∧ d = '/')

variable {s rest : List Char} {c : Char}

theorem unterminated_cons_iff :
    Unterminated (c :: s) ↔ ¬ (c = '*' ∧ s.head? = some '/') ∧ Unterminated s := by
  rw [Unterminated, List.isChain_cons, ← Unterminated]
  refine and_congr_left fun _ => ⟨?_, ?_⟩
  · rintro h ⟨hstar, hslash⟩
    exact h '/' hslash ⟨hstar, rfl⟩
  · rintro h d hd ⟨hstar, rfl⟩
    exact h ⟨hstar, hd⟩

theorem dropPrefix?_terminator_eq_none_iff :
    Text.dropPrefix? terminator (c :: s) = none ↔ ¬ (c = '*' ∧ s.head? = some '/') := by
  rw [Text.dropPrefix?_eq_none_iff]
  cases s with
  | nil =>
      simp [terminator, List.isPrefixOf]
  | cons d more =>
      simp [terminator, List.isPrefixOf, eq_comm (a := c), eq_comm (a := d)]

theorem head?_append_star (s rest : List Char) :
    (s ++ '*' :: rest).head? = (s ++ ['*']).head? := by
  cases s <;> rfl

/-- The scanner stops at the first terminator. -/
theorem throughTerminator_append (h : Unterminated (s ++ ['*'])) (rest : List Char) :
    throughTerminator (s ++ '*' :: '/' :: rest) = some (s ++ terminator, rest) := by
  induction s with
  | nil =>
      rfl
  | cons c s ih =>
      rw [List.cons_append, unterminated_cons_iff] at h
      have hnone : Text.dropPrefix? terminator (c :: (s ++ '*' :: '/' :: rest)) = none := by
        rw [dropPrefix?_terminator_eq_none_iff, head?_append_star]
        exact h.1
      rw [List.cons_append, throughTerminator, hnone, ih h.2]
      rfl

/-- There is no other terminator than the one at the end. -/
theorem terminator_prefix_drop_iff (h : Unterminated (s ++ ['*'])) (i : Nat) :
    terminator <+: (s ++ terminator).drop i ↔ i = s.length := by
  induction s generalizing i with
  | nil =>
      rcases i with _ | _ | i <;> simp [terminator]
  | cons c s ih =>
      rw [List.cons_append, unterminated_cons_iff] at h
      cases i with
      | zero =>
          have hnone : ¬ terminator <+: c :: (s ++ terminator) := by
            rw [← List.isPrefixOf_iff_prefix, Bool.not_eq_true, ← Text.dropPrefix?_eq_none_iff,
              dropPrefix?_terminator_eq_none_iff, terminator, head?_append_star]
            exact h.1
          simpa using hnone
      | succ i =>
          simpa using ih h.2 i

/-! ## The text of a comment -/

theorem terminator_ne_nil : terminator ≠ [] := by
  simp [terminator]

/-- Only blanks are added to a text, and none of its characters goes first in place of another. -/
theorem head?_replace_go (n : Nat) (s : List Char) :
    (Text.replace.go terminator ['*', ' ', '/'] n s).head? = s.head? := by
  cases n with
  | zero =>
      rfl
  | succ n =>
      cases s with
      | nil =>
          rfl
      | cons c s =>
          rw [Text.replace_go_succ terminator_ne_nil]
          cases hfound : Text.dropPrefix? terminator (c :: s) with
          | none =>
              rfl
          | some after =>
              have hstart := Text.dropPrefix?_eq_some_iff.1 hfound
              rw [hstart]
              rfl

/-- Replacing every terminator leaves none behind. -/
theorem unterminated_replace_go {n : Nat} (hlength : s.length ≤ n) :
    Unterminated (Text.replace.go terminator ['*', ' ', '/'] n s) := by
  induction n generalizing s with
  | zero =>
      rw [List.eq_nil_of_length_eq_zero (Nat.le_zero.1 hlength)]
      exact List.isChain_nil
  | succ n ih =>
      cases s with
      | nil =>
          exact List.isChain_nil
      | cons c s =>
          rw [Text.replace_go_succ terminator_ne_nil]
          cases hfound : Text.dropPrefix? terminator (c :: s) with
          | none =>
              refine unterminated_cons_iff.2 ⟨?_, ih (Nat.le_of_succ_le_succ hlength)⟩
              rw [head?_replace_go]
              exact dropPrefix?_terminator_eq_none_iff.1 hfound
          | some after =>
              have hafter : after.length ≤ n := by
                have hwhole := congrArg List.length (Text.dropPrefix?_eq_some_iff.1 hfound)
                simp only [terminator, List.length_cons, List.length_append, List.length_nil]
                  at hwhole hlength
                omega
              -- The slash that is put in ends with no star before it.
              simpa [unterminated_cons_iff] using ih hafter

/-- Replacing terminators only adds spaces. -/
theorem filter_replace_go (n : Nat) (s : List Char) :
    (Text.replace.go terminator ['*', ' ', '/'] n s).filter (· ≠ ' ') = s.filter (· ≠ ' ') := by
  induction n generalizing s with
  | zero =>
      rfl
  | succ n ih =>
      cases s with
      | nil =>
          rfl
      | cons c s =>
          rw [Text.replace_go_succ terminator_ne_nil]
          cases hfound : Text.dropPrefix? terminator (c :: s) with
          | none =>
              simp only [List.filter_cons, ih]
          | some after =>
              -- A terminator and what replaces it are the same without blanks.
              rw [Text.dropPrefix?_eq_some_iff.1 hfound, List.filter_append, List.filter_append, ih]
              rfl

/-- No description can end the comment that it is put in. -/
theorem unterminated_commentText (text : String) : Unterminated (commentText text).toList := by
  rw [commentText, String.toList_ofList]
  exact unterminated_replace_go (Nat.le_refl _)

/-- A comment has its description but for blanks. -/
theorem filter_commentText (text : String) :
    (commentText text).toList.filter (· ≠ ' ') = text.toList.filter (· ≠ ' ') := by
  rw [commentText, String.toList_ofList]
  exact filter_replace_go _ _

/-! ## Comments in files -/

/-- A file is cut around a block comment: the comment has no terminator but the one at its end, and
a scanner takes just the comment from what begins with it. -/
structure HoldsComment (file before comment after : String) : Prop where
  whole : file = before ++ comment ++ after
  once : ∀ i, terminator <+: comment.toList.drop i ↔ i + 2 = comment.toList.length
  scanned : blockComment (comment ++ after).toList = some (comment.toList, after.toList)

/-- With blanks around it, a text without a terminator closes no comment early. -/
theorem holdsComment_of_unterminated {file before opening inside after : String}
    (hopening : opening = "/* " ∨ opening = "/** ") (hinside : Unterminated inside.toList)
    (hwhole : file = before ++ (opening ++ inside ++ " */") ++ after) :
    HoldsComment file before (opening ++ inside ++ " */") after := by
  obtain ⟨front, hfront, hstart⟩ : ∃ front, opening.toList = '/' :: '*' :: front ∧
      (front = [' '] ∨ front = ['*', ' ']) := by
    rcases hopening with rfl | rfl
    · exact ⟨_, rfl, Or.inl rfl⟩
    · exact ⟨_, rfl, Or.inr rfl⟩
  have hcomment : (opening ++ inside ++ " */").toList =
      ('/' :: '*' :: (front ++ inside.toList ++ [' '])) ++ terminator := by
    simp [hfront, terminator]
  -- The asterisk behind the text does not meet a slash of it, as a blank is between.
  have hback : Unterminated (inside.toList ++ [' ', '*']) := by
    refine List.isChain_append.2 ⟨hinside, by simp, ?_⟩
    rintro c - d hd ⟨-, rfl⟩
    simp at hd
  have hchain : Unterminated ('/' :: '*' :: (front ++ inside.toList ++ [' ']) ++ ['*']) := by
    rcases hstart with rfl | rfl
    · simpa [unterminated_cons_iff] using hback
    · simpa [unterminated_cons_iff] using hback
  refine ⟨hwhole, fun i => ?_, ?_⟩
  · -- The terminator begins at no earlier place.
    rw [hcomment, terminator_prefix_drop_iff hchain, List.length_append, terminator]
    simp
  · have htail : Unterminated (front ++ inside.toList ++ [' '] ++ ['*']) :=
      (unterminated_cons_iff.1 (unterminated_cons_iff.1 hchain).2).2
    have hscan := throughTerminator_append htail after.toList
    simp only [terminator, List.append_assoc, List.cons_append, List.nil_append] at hscan
    rw [String.toList_append, hcomment]
    simp only [terminator, List.append_assoc, List.cons_append, List.nil_append, blockComment,
      Text.dropPrefix?, if_true, hscan, Option.map_some]

variable {token : TransformedToken} {text : String}

/-- The comment behind a declaration holds the described text. -/
theorem trailingComment_of_description? (h : description? token = some text) :
    trailingComment token = " " ++ ("/* " ++ commentText text ++ " */") := by
  rw [trailingComment, h, ← String.toList_inj]
  simp

/-- The comment in front of a declaration holds the described text on a line of its own. -/
theorem docComment_of_description? (h : description? token = some text) :
    docComment token = "/** " ++ commentText text ++ " */" ++ "\n" := by
  rw [docComment, h, ← String.toList_inj]
  simp

/-- A description in a style sheet, a script or its declarations is a block comment, wherever its
token stands: the comment holds the description but for blanks, it has a terminator at its end only,
and scanning it from its opening takes just the comment. -/
theorem holdsComment_of_description (hdescription : token.description = some text)
    (htext : text ≠ "") (before after : List TransformedToken) (start : Option String) :
    HoldsComment (cssVariables (before ++ token :: after) start)
        ((Layout.properties start).upTo before ++ "  --" ++ prefixed start token.name "-" ++ ": " ++
          styleValue token ++ "; ")
        ("/* " ++ commentText text ++ " */")
        ("\n" ++ (Layout.properties start).onFrom after) ∧
      HoldsComment (jsModule (before ++ token :: after) start)
        ((Layout.exports start).upTo before)
        ("/** " ++ commentText text ++ " */")
        ("\nexport const " ++ exportName start token ++ " = " ++ token.value.compact ++ ";\n" ++
          (Layout.exports start).onFrom after) ∧
      HoldsComment (tsDeclarations (before ++ token :: after) start)
        ((Layout.declarations start).upTo before)
        ("/** " ++ commentText text ++ " */")
        ("\nexport declare const " ++ exportName start token ++ ": " ++ typeText token.value ++
          ";\n" ++ (Layout.declarations start).onFrom after) ∧
      (commentText text).toList.filter (· ≠ ' ') = text.toList.filter (· ≠ ' ') := by
  have h := description?_eq_some_iff.2 ⟨hdescription, htext⟩
  have hinside := unterminated_commentText text
  refine ⟨?_, ?_, ?_, filter_commentText text⟩
  · apply holdsComment_of_unterminated (Or.inl rfl) hinside
    rw [Layout.cssVariables_eq, Layout.file_append_cons, ← String.toList_inj]
    simp [Layout.entry, Layout.properties, trailingComment_of_description? h]
  · apply holdsComment_of_unterminated (Or.inr rfl) hinside
    rw [Layout.jsModule_eq, Layout.file_append_cons, ← String.toList_inj]
    simp [Layout.entry, Layout.exports, docComment_of_description? h]
  · apply holdsComment_of_unterminated (Or.inr rfl) hinside
    rw [Layout.tsDeclarations_eq, Layout.file_append_cons, ← String.toList_inj]
    simp [Layout.entry, Layout.declarations, docComment_of_description? h]

/-- A token whose description is made of delimiters. -/
def starredToken : TransformedToken where
  path := ["gap"]
  name := "gap"
  value := .string "4px"
  written := .string "4px"
  description := some "/**/*/ **/\n*"

theorem holdsComment_of_description_starred :
    starredToken.description = some "/**/*/ **/\n*" ∧ "/**/*/ **/\n*" ≠ "" ∧
      HoldsComment (cssVariables [starredToken] none) (blockHeader ++ ":root \x7b\n  --gap: 4px; ")
        "/* /** /* / ** /\n* */" "\n\x7d\n" := by
  have hfront : (Layout.properties none).upTo [] ++ "  --" ++ prefixed none starredToken.name "-" ++
      ": " ++ styleValue starredToken ++ "; " = blockHeader ++ ":root \x7b\n  --gap: 4px; " := by
    decide +kernel
  have hcomment : "/* " ++ commentText "/**/*/ **/\n*" ++ " */" = "/* /** /* / ** /\n* */" := by
    decide +kernel
  have hdescription : starredToken.description = some "/**/*/ **/\n*" := rfl
  have htext : "/**/*/ **/\n*" ≠ "" := by decide
  have hholds := (holdsComment_of_description hdescription htext [] [] none).1
  rw [hfront, hcomment] at hholds
  exact ⟨hdescription, htext, hholds⟩

end Output
end DesignTokens
