import DesignTokens.Proofs.Json.OneLine
import DesignTokens.Proofs.Output.Layout
import DesignTokens.Text.Reader
import Mathlib.Data.List.Basic

/-!
# String literals of Swift

A literal of one line is read back from the file as the text it stands for, up to its own closing
quote, if and only if the text has no carriage return. Compact texts never have one.
-/

namespace DesignTokens
namespace Output

/-! ## Reading literals -/

/-- The character that an escape of one character stands for, after its backslash. The parenthesis
that opens an interpolation is none of them. -/
def escapedChar? (c : Char) : Option Char :=
  if c = '\\' ∨ c = '"' ∨ c = '\x27' then some c
  else if c = 'n' then some '\n'
  else if c = 'r' then some '\r'
  else if c = 't' then some '\t'
  else if c = '0' then some '\x00'
  else none

/-- The text up to the first quote that is not escaped. A line does not end before it. -/
def literalChars : Text.Reader (List Char)
  | [] => none
  | '"' :: rest => some ([], rest)
  | '\\' :: c :: rest => do
      let d ← escapedChar? c
      (literalChars rest).map fun (s, rest) => (d :: s, rest)
  | c :: rest =>
      if c = '\n' ∨ c = '\r' then none
      else (literalChars rest).map fun (s, rest) => (c :: s, rest)

/-- The text of a literal on one line. Three quotes open a literal on several lines. -/
def swiftLiteral : Text.Reader (List Char)
  | '"' :: '"' :: '"' :: _ => none
  | '"' :: rest => literalChars rest
  | _ => none

/-! ## Writing literals -/

/-- A character as it stands between the quotes of a literal. -/
def swiftEscape (c : Char) : List Char :=
  if c = '\\' then ['\\', '\\']
  else if c = '"' then ['\\', '"']
  else if c = '\n' then ['\\', 'n']
  else [c]

/-- The replacements do not see what the earlier ones of them have written. -/
theorem toList_swiftString (text : String) :
    (swiftString text).toList = '"' :: text.toList.flatMap swiftEscape ++ ['"'] := by
  simp only [swiftString, Text.replaceChar, List.flatMap_assoc, String.toList_ofList]
  congr 2
  -- the quote and the line feed, which the later ones look for, are not written by the earlier ones
  refine List.flatMap_congr fun c _ => ?_
  by_cases hslash : c = '\\'
  · subst hslash
    rfl
  · by_cases hquote : c = '"'
    · subst hquote
      rfl
    · simp [swiftEscape, hslash, hquote]

/-- An escaped character is read back as itself, and a carriage return as nothing at all. -/
theorem literalChars_swiftEscape (c : Char) (rest : List Char) :
    literalChars (swiftEscape c ++ rest) =
      if c = '\r' then none else (literalChars rest).map fun (s, rest) => (c :: s, rest) := by
  by_cases hslash : c = '\\'
  · subst hslash
    rfl
  · by_cases hquote : c = '"'
    · subst hquote
      rfl
    · by_cases hline : c = '\n'
      · subst hline
        rfl
      · simp [swiftEscape, literalChars, hslash, hquote, hline]

/-- An escaped text is read back from its literal exactly when no carriage return is in it. -/
theorem literalChars_flatMap_swiftEscape (s rest : List Char) :
    literalChars (s.flatMap swiftEscape ++ '"' :: rest) =
      if '\r' ∈ s then none else some (s, rest) := by
  induction s with
  | nil =>
      simp [literalChars]
  | cons c s ih =>
      rw [List.flatMap_cons, List.append_assoc, literalChars_swiftEscape, ih]
      by_cases hreturn : c = '\r'
      · simp [hreturn]
      · by_cases hlater : '\r' ∈ s <;> simp [hlater, hreturn, Ne.symm hreturn]

theorem exists_swiftEscape_eq_cons (c : Char) : ∃ d s, swiftEscape c = d :: s ∧ d ≠ '"' := by
  unfold swiftEscape
  split_ifs <;> simp_all

theorem swiftLiteral_cons {s : List Char} (h : s.head? ≠ some '"') :
    swiftLiteral ('"' :: s) = literalChars s := by
  cases s with
  | nil =>
      rfl
  | cons c s =>
      have hc : c ≠ '"' := by simpa using h
      simp [swiftLiteral, hc]

/-- In front of anything but a quote a literal is read up to its end. -/
theorem swiftLiteral_swiftString (text : String) {rest : List Char}
    (hrest : rest.head? ≠ some '"') :
    swiftLiteral ((swiftString text).toList ++ rest) =
      if '\r' ∈ text.toList then none else some (text.toList, rest) := by
  have hliteral : (swiftString text).toList ++ rest =
      '"' :: (text.toList.flatMap swiftEscape ++ '"' :: rest) := by
    simp [toList_swiftString]
  rw [hliteral, ← literalChars_flatMap_swiftEscape]
  -- three quotes are not seen: an empty text is not followed by a third one, and no other text has
  -- a bare quote in front
  cases text.toList with
  | nil =>
      cases rest with
      | nil =>
          rfl
      | cons c rest =>
          have hc : c ≠ '"' := by simpa using hrest
          simp [swiftLiteral, hc]
  | cons c s =>
      rcases exists_swiftEscape_eq_cons c with ⟨d, more, hchars, hd⟩
      rw [swiftLiteral_cons]
      simp [hchars, hd]

/-! ## Constants that are texts -/

/-- The text that a token's value is written as when it is neither a colour nor a number nor a truth
value: its own if it is a text, or else the compact one. -/
def swiftText? (base : Float) (token : TransformedToken) : Option String :=
  if (colorOf? token).isSome ∨ (pixelsOf? token base).isSome then none
  else
    match token.value with
    | .number _ => none
    | .bool _ => none
    | .string text => some text
    | value => some value.compact

variable {base : Float} {token : TransformedToken} {text : String}

/-- A text of Swift is written as a literal. -/
theorem swiftValue_eq_of_swiftText? (h : swiftText? base token = some text) :
    swiftValue base token = " = " ++ swiftString text := by
  unfold swiftText? at h
  split_ifs at h with hother
  rw [not_or, Option.not_isSome_iff_eq_none, Option.not_isSome_iff_eq_none] at hother
  unfold swiftValue
  rw [hother.1, hother.2]
  cases hvalue : token.value <;> simp_all

/-- What is not written as a text has no quote behind the equals sign. -/
theorem swiftValue_ne_of_swiftText? (h : swiftText? base token = none) (text : String) :
    swiftValue base token ≠ " = " ++ swiftString text := by
  rw [ne_eq, ← String.toList_inj, String.toList_append, toList_swiftString]
  -- the fourth character tells: it is not a quote
  unfold swiftText? at h
  unfold swiftValue
  cases hcolor : colorOf? token with
  | some color =>
      simp
  | none =>
      cases hpixels : pixelsOf? token base with
      | some pixels =>
          simp
      | none =>
          rw [hcolor, hpixels] at h
          cases hvalue : token.value with
          | number n =>
              simp
          | bool b =>
              cases b <;> simp [plainText]
          | string text =>
              simp [hvalue] at h
          | null =>
              simp [hvalue] at h
          | array items =>
              simp [hvalue] at h
          | object fields =>
              simp [hvalue] at h

/-- A text that is not the token's own value is one without control characters. -/
theorem noControls_of_swiftText? (h : swiftText? base token = some text)
    (hvalue : token.value ≠ .string text) : Json.NoControls text.toList := by
  unfold swiftText? at h
  split_ifs at h
  split at h
  · cases h
  · cases h
  · rename_i htext
    exact absurd (by rw [htext, Option.some.inj h]) hvalue
  · rw [← Option.some.inj h]
    exact Json.noControls_compact _

/-- The constants with a literal are those that `swiftText?` has a text for. Read from the file, the
literal is this text up to its own end, unless there is a carriage return in it: then the line ends
within the literal. Only values that are texts themselves can have one. -/
theorem swiftLiteral_iosSwift (start : Option String) (base : Float)
    (before after : List TransformedToken) (token : TransformedToken) :
    ((swiftText? base token).isSome ↔
      ∃ text, swiftValue base token = " = " ++ swiftString text) ∧
    ∀ text ∈ swiftText? base token,
      let layout := Layout.constants start base
      let rest := "\n" ++ layout.onFrom after
      iosSwift (before ++ token :: after) start base =
          layout.upTo before ++ layout.front token ++ layout.name token ++ " = " ++
            swiftString text ++ rest ∧
        swiftLiteral (swiftString text ++ rest).toList =
          (if '\r' ∈ text.toList then none else some (text.toList, rest.toList)) ∧
        (token.value ≠ .string text → '\r' ∉ text.toList) := by
  constructor
  · constructor
    · intro h
      rcases Option.isSome_iff_exists.1 h with ⟨text, htext⟩
      exact ⟨text, swiftValue_eq_of_swiftText? htext⟩
    · rintro ⟨text, htext⟩
      by_contra hnone
      exact swiftValue_ne_of_swiftText? (Option.not_isSome_iff_eq_none.1 hnone) text htext
  · intro text htext layout rest
    have hback : layout.back token = " = " ++ swiftString text ++ "\n" := by
      rw [← swiftValue_eq_of_swiftText? htext]
      rfl
    refine ⟨?_, ?_, ?_⟩
    · rw [Layout.iosSwift_eq, Layout.file_append_cons, Layout.entry, hback]
      simp only [rest, layout, String.append_assoc]
    · rw [String.toList_append]
      exact swiftLiteral_swiftString text (by simp [rest])
    · intro hvalue hreturn
      exact absurd (noControls_of_swiftText? htext hvalue _ hreturn) (by decide)

def textToken (text : String) : TransformedToken where
  path := ["note"]
  name := "note"
  value := .string text
  written := .string text

theorem swiftLiteral_iosSwift_escapes :
    swiftText? 16 (textToken "a \"\\(b)\"\n") = some "a \"\\(b)\"\n" ∧
      swiftLiteral (swiftString "a \"\\(b)\"\n" ++ "\n\x7d\n").toList =
        some ("a \"\\(b)\"\n".toList, "\n\x7d\n".toList) :=
  have htext : swiftText? 16 (textToken "a \"\\(b)\"\n") = some "a \"\\(b)\"\n" := rfl
  ⟨htext, ((swiftLiteral_iosSwift none 16 [] [] (textToken "a \"\\(b)\"\n")).2 _ htext).2.1⟩

/-- A carriage return stands bare in the literal. -/
theorem swiftLiteral_iosSwift_return :
    swiftText? 16 (textToken "a\rb") = some "a\rb" ∧
      iosSwift [textToken "a\rb"] none 16 =
        Layout.enumerationFront ++ "Tokens \x7b\n    public static let note = " ++
          swiftString "a\rb" ++ "\n\x7d\n" ∧
      swiftLiteral (swiftString "a\rb" ++ "\n\x7d\n").toList = none := by
  decide +kernel

end Output
end DesignTokens
