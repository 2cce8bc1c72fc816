import DesignTokens.Proofs.Text.LowerCase
import DesignTokens.Proofs.Transform.AsciiNames

/-!
# Names with separators

A name in kebab or snake case is its words with single separators between them, so that the words
are found again when the name is split. The words are put in lower case after everything else than
letters and digits has been taken out of them. The lower-case form of the dotted capital I has a
combining dot, and this dot stays in the name; it goes when the words are put in the same case once
more. Without a dotted capital I a name has letters, digits and separators only.
-/

namespace DesignTokens

/-! ## Separators in a text -/

namespace Text

variable {separator : Char} {text : List Char}

/-- Separators stand between other characters: not at the front, not at the end, and not next to
one another. -/
structure Delimited (separator : Char) (text : List Char) : Prop where
  front : text.head? ≠ some separator
  back : text.getLast? ≠ some separator
  single : ¬ [separator, separator] <:+: text

theorem delimited_nil (separator : Char) : Delimited separator [] where
  front := nofun
  back := nofun
  single := fun h => List.cons_ne_nil _ _ (List.infix_nil.1 h)

/-- At the front, at the end and between two of them, separators make an empty part. -/
theorem delimited_of_nil_notMem (h : [] ∉ text.splitOn separator) : Delimited separator text := by
  have hparts : ∀ front back, text = front ++ separator :: back →
      [] ∉ front.splitOn separator ∧ [] ∉ back.splitOn separator := by
    rintro front back rfl
    simpa [List.splitOn_append_cons_self] using h
  constructor
  case front =>
    intro hfront
    rcases List.head?_eq_some_iff.1 hfront with ⟨rest, rfl⟩
    exact (hparts [] rest rfl).1 (by simp)
  case back =>
    intro hback
    rcases List.getLast?_eq_some_iff.1 hback with ⟨rest, rfl⟩
    exact (hparts rest [] rfl).2 (by simp)
  case single =>
    rintro ⟨front, back, rfl⟩
    have hrest := (hparts front (separator :: back) (by simp)).2
    have hsplit : (separator :: back).splitOn separator =
        [].splitOn separator ++ back.splitOn separator := List.splitOn_append_cons_self [] back
    exact hrest (by simp [hsplit])

end Text

namespace NameCase

open Text (lowerChar isAlphanumeric)

variable {style : NameCase} {separator : Char} {segments : List String} {text : List Char}

/-- The separator of the cases that leave their words in lower case. -/
def separator? : NameCase → Option Char
  | .kebab => some '-'
  | .snake => some '_'
  | _ => none

/-- A delimited name has its words with the separator between them. -/
theorem toList_apply (h : style.separator? = some separator) (segments : List String) :
    (style.apply segments).toList = [separator].intercalate (words segments) := by
  cases style <;> cases h <;> exact String.toList_ofList

theorem not_wordlike_separator (h : style.separator? = some separator) : ¬ Wordlike separator := by
  cases style <;> cases h <;> unfold Wordlike <;> decide

/-! ## Words -/

theorem separator_notMem (h : style.separator? = some separator) (hword : text ∈ words segments) :
    separator ∉ text := by
  have hwordlike : ∀ text ∈ words segments, ∀ c ∈ text, Wordlike c :=
    forall_mem_words_iff.2 fun _ _ _ _ hc _ hd => wordlike_of_mem_lowerChar hc hd
  intro hmem
  exact not_wordlike_separator h (hwordlike text hword separator hmem)

theorem lowerChar_of_mem_words (hword : text ∈ words segments) :
    ∀ c ∈ text, lowerChar c = [c] := by
  have hwords : ∀ text ∈ words segments, ∀ c ∈ text, lowerChar c = [c] :=
    forall_mem_words_iff.2 fun _ _ _ _ _ _ hd => Text.lowerChar_of_mem_lowerChar hd
  exact hwords text hword

/-- The word of a word is what it has of letters and digits. -/
theorem word_of_mem_words (hword : text ∈ words segments) :
    word text = text.filter isAlphanumeric := by
  refine Text.lower_eq_self fun c hc => ?_
  exact lowerChar_of_mem_words hword c (List.mem_of_mem_filter hc)

/-- The words of words are the same when all of their characters are alphanumeric. -/
theorem words_words (h : ∀ text ∈ words segments, ∀ c ∈ text, isAlphanumeric c = true) :
    words ((words segments).map String.ofList) = words segments := by
  have hsame : (words segments).map word = words segments := by
    refine (List.map_congr_left fun text htext => ?_).trans (List.map_id _)
    rw [word_of_mem_words htext, List.filter_eq_self.2 (h text htext), id]
  have hmap : ((words segments).map String.ofList).map (fun segment => word segment.toList) =
      (words segments).map word := by
    simp
  rw [words, hmap, hsame]
  exact List.filter_eq_self.2 fun text htext => by simpa using ne_nil_of_mem_words htext

/-- The words have letters and digits only if and only if no segment has a dotted capital I, the one
letter with another character in its lower-case form. -/
theorem forall_isAlphanumeric_words_iff (segments : List String) :
    (∀ text ∈ words segments, ∀ c ∈ text, isAlphanumeric c = true) ↔
      ∀ segment ∈ segments, '\u0130' ∉ segment.toList := by
  have hdotted : isAlphanumeric '\u0130' = true := by decide
  rw [forall_mem_words_iff]
  refine forall₂_congr fun segment _ => ?_
  constructor
  · intro hclean hmem
    exact (Text.forall_isAlphanumeric_lowerChar_iff hdotted).1 (hclean _ hmem hdotted) rfl
  · intro hfree c hmem hc d hd
    have hplain : c ≠ '\u0130' := fun heq => hfree (heq ▸ hmem)
    exact Text.isAlphanumeric_of_mem_lowerChar hc hplain hd

/-! ## Names -/

/-- A delimited name is split into its words. -/
theorem splitOn_apply (h : style.separator? = some separator) (hwords : words segments ≠ []) :
    (style.apply segments).toList.splitOn separator = words segments := by
  rw [toList_apply h]
  exact List.splitOn_intercalate separator (fun text htext => separator_notMem h htext) hwords

/-- A path without words has an empty name. -/
theorem apply_of_words_eq_nil (h : style.separator? = some separator)
    (hwords : words segments = []) : style.apply segments = "" := by
  rw [← String.toList_inj, toList_apply h, hwords]
  rfl

/-- A name is delimited: the separator is not at its ends, and never doubled. -/
theorem delimited_apply (h : style.separator? = some separator) (segments : List String) :
    Text.Delimited separator (style.apply segments).toList := by
  by_cases hwords : words segments = []
  · rw [apply_of_words_eq_nil h hwords]
    exact Text.delimited_nil separator
  · refine Text.delimited_of_nil_notMem fun hmem => ?_
    rw [splitOn_apply h hwords] at hmem
    exact ne_nil_of_mem_words hmem rfl

/-- A name has letters, digits and separators only if and only if no segment has a dotted capital
I. -/
theorem forall_mem_apply_iff (h : style.separator? = some separator) (segments : List String) :
    (∀ c ∈ (style.apply segments).toList, c = separator ∨ isAlphanumeric c = true) ↔
      ∀ segment ∈ segments, '\u0130' ∉ segment.toList := by
  have hseparator : ∀ c ∈ [separator], c = separator ∨ isAlphanumeric c = true := by
    simp
  rw [toList_apply h, Text.forall_mem_intercalate_iff hseparator,
    ← forall_isAlphanumeric_words_iff segments]
  refine forall₂_congr fun text htext => forall₂_congr fun c hc => ?_
  have hne : c ≠ separator := fun heq => separator_notMem h htext (heq ▸ hc)
  exact or_iff_right hne

/-- The words of a name are put into the same name again if and only if no segment has a dotted
capital I. -/
theorem apply_words_eq_iff (h : style.separator? = some separator) (segments : List String) :
    style.apply ((words segments).map String.ofList) = style.apply segments ↔
      ∀ segment ∈ segments, '\u0130' ∉ segment.toList := by
  constructor
  · intro heq
    -- a dotted capital I is not in lower case, so that the words have none
    have hwords : ∀ segment ∈ (words segments).map String.ofList,
        '\u0130' ∉ segment.toList := by
      intro segment hsegment hmem
      rcases List.mem_map.1 hsegment with ⟨text, htext, rfl⟩
      rw [String.toList_ofList] at hmem
      exact absurd (lowerChar_of_mem_words htext _ hmem) (by decide)
    rw [← forall_mem_apply_iff h, ← heq, forall_mem_apply_iff h]
    exact hwords
  · intro hfree
    have hclean := (forall_isAlphanumeric_words_iff segments).2 hfree
    rw [← String.toList_inj, toList_apply h, toList_apply h, words_words hclean]

/-- A name in kebab or snake case has single separators between its words only, and split at them it
gives the words; without words it is empty. All other characters are letters and digits, and the
same case of the words changes nothing, exactly if no segment has a dotted capital I. -/
theorem apply_clean_iff (h : style.separator? = some separator) (segments : List String) :
    Text.Delimited separator (style.apply segments).toList ∧
      (words segments ≠ [] →
        Text.split separator (style.apply segments) = (words segments).map String.ofList) ∧
      (words segments = [] → style.apply segments = "") ∧
      ((∀ c ∈ (style.apply segments).toList, c = separator ∨ isAlphanumeric c = true) ↔
        ∀ segment ∈ segments, '\u0130' ∉ segment.toList) ∧
      (style.apply ((words segments).map String.ofList) = style.apply segments ↔
        ∀ segment ∈ segments, '\u0130' ∉ segment.toList) := by
  refine ⟨delimited_apply h segments, fun hwords => ?_, apply_of_words_eq_nil h,
    forall_mem_apply_iff h segments, apply_words_eq_iff h segments⟩
  rw [Text.split, splitOn_apply h hwords]

theorem apply_clean_iff_places :
    snake.separator? = some '_' ∧ words ["--", "Größe L", "\u0130zmir"] ≠ [] ∧
      Text.split '_' (snake.apply ["--", "Größe L", "\u0130zmir"]) = ["größel", "i\u0307zmir"] ∧
      ¬ ∀ c ∈ (snake.apply ["--", "Größe L", "\u0130zmir"]).toList,
        c = '_' ∨ isAlphanumeric c = true := by
  have hwords : (words ["--", "Größe L", "\u0130zmir"]).map String.ofList =
      ["größel", "i\u0307zmir"] := by decide +kernel
  have hne : words ["--", "Größe L", "\u0130zmir"] ≠ [] := by
    intro hnil
    rw [hnil] at hwords
    cases hwords
  rcases @apply_clean_iff snake '_' rfl ["--", "Größe L", "\u0130zmir"] with
    ⟨-, hsplit, -, hclean, -⟩
  refine ⟨rfl, hne, (hsplit hne).trans hwords, fun hall => ?_⟩
  exact hclean.1 hall "\u0130zmir" (by simp) (by decide)

/-- The dotted capital I alone gives a name with a combining dot, which is no letter and no digit
and is gone from the name of its word. -/
theorem kebab_dottedCapital_not_clean :
    (∃ c ∈ (kebab.apply ["\u0130"]).toList, c ≠ '-' ∧ isAlphanumeric c = false) ∧
      kebab.apply ["\u0130"] = "i\u0307" ∧
      kebab.apply ((words ["\u0130"]).map String.ofList) = "i" := by
  refine ⟨⟨'\u0307', ?_, by decide, by decide⟩, by decide +kernel, by decide +kernel⟩
  decide +kernel

end NameCase
end DesignTokens
