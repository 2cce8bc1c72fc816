import DesignTokens.Proofs.Text
import DesignTokens.Proofs.Text.LetterCase
import DesignTokens.Transform.NameCase

/-!
# Names in ASCII

Which names in the cases of words are in ASCII. The words keep the letters and digits of their
segments, in lower case but for a capital in front, so that this is told by the characters of the
segments one by one.
-/

namespace DesignTokens
namespace NameCase

open Text (lowerChar upperChar isAlphanumeric forall_toNat_lt)

/-- The lower-case form of the character is in ASCII: its own place is, or it is the Kelvin sign. -/
def LowersToAscii (c : Char) : Prop :=
  c.toNat < 0x80 ∨ c.toNat = 0x212A

/-- The upper-case form of the character's lower-case form is in ASCII. -/
def CapitalizesToAscii (c : Char) : Prop :=
  c.toNat < 0x80 ∨ c.toNat ∈ 0x1E9E :: 0x212A :: Text.asciiUppers

variable {holds : Char → Bool} {c d : Char} {segments : List String}

/-! ## Characters -/

theorem lowersToAscii_of_forall_mem (h : ∀ d ∈ lowerChar c, d.toNat < 0x80) : LowersToAscii c := by
  rcases Nat.lt_or_ge c.toNat 0x80 with hc | hc
  · exact .inl hc
  · exact .inr (List.mem_singleton.1 ((Text.formed_lowerChar hc).2.2 h))

/-- The lower-case form is in a class of letters and digits of ASCII whenever it is in ASCII. -/
theorem forall_mem_lowerChar_iff
    (hword : ∀ d : Char, (d.isLower || d.isDigit) = true → holds d = true)
    (hascii : ∀ d, holds d = true → d.toNat < 0x80) (hc : isAlphanumeric c = true) :
    (∀ d ∈ lowerChar c, holds d = true) ↔ LowersToAscii c := by
  constructor
  · intro h
    exact lowersToAscii_of_forall_mem fun d hd => hascii d (h d hd)
  · rintro (hlow | hkelvin) d hd
    · have hclass : ∀ c : Char, c.toNat < 0x80 → isAlphanumeric c = true →
          ((lowerChar c).all fun d => d.isLower || d.isDigit) = true :=
        forall_toNat_lt (by decide +kernel)
      exact hword d (List.all_eq_true.1 (hclass c hlow hc) d hd)
    · have hform :
          ((lowerChar (Char.ofNat 0x212A)).all fun d => d.isLower || d.isDigit) = true := by
        decide +kernel
      rw [← hkelvin, Char.ofNat_toNat] at hform
      exact hword d (List.all_eq_true.1 hform d hd)

theorem capitalizesToAscii_of_forall_mem (h : ∀ d ∈ capitalize (lowerChar c), d.toNat < 0x80) :
    CapitalizesToAscii c := by
  rcases Nat.lt_or_ge c.toNat 0x80 with hc | hc
  · exact .inl hc
  · refine .inr ?_
    rcases hlower : lowerChar c with _ | ⟨first, rest⟩
    · exact absurd hlower (Text.formed_lowerChar hc).1
    · rw [hlower] at h
      have hrest : ∀ d ∈ rest, d.toNat < 0x80 := fun d hd => h d (List.mem_append_right _ hd)
      -- only the first character is put in upper case: it is in ASCII by then, or gets there now
      rcases Nat.lt_or_ge first.toNat 0x80 with hfirst | hfirst
      · rcases lowersToAscii_of_forall_mem (c := c) (by simpa [hlower, hfirst] using hrest) with
          hlow | heq
        · omega
        · simp [heq]
      · have hupper := (Text.formed_upperChar hfirst).2.2
          fun d hd => h d (List.mem_append_left _ hd)
        rcases Text.toNat_eq_of_mem_lowerChar hc (by simp [hlower]) hupper with heq | heq
        · simp [heq]
        · simp [heq, hupper]

/-- The capital form is in a class of letters and digits of ASCII whenever it is in ASCII. -/
theorem forall_mem_capitalize_iff (hword : ∀ d : Char, d.isAlphanum = true → holds d = true)
    (hascii : ∀ d, holds d = true → d.toNat < 0x80) (hc : isAlphanumeric c = true) :
    (∀ d ∈ capitalize (lowerChar c), holds d = true) ↔ CapitalizesToAscii c := by
  constructor
  · intro h
    exact capitalizesToAscii_of_forall_mem fun d hd => hascii d (h d hd)
  · rintro (hlow | hexception) d hd
    · have hclass : ∀ c : Char, c.toNat < 0x80 → isAlphanumeric c = true →
          (capitalize (lowerChar c)).all Char.isAlphanum = true :=
        forall_toNat_lt (by decide +kernel)
      exact hword d (List.all_eq_true.1 (hclass c hlow hc) d hd)
    · have hforms : ∀ n ∈ 0x1E9E :: 0x212A :: Text.asciiUppers,
          (capitalize (lowerChar (Char.ofNat n))).all Char.isAlphanum = true := by
        decide +kernel
      have hform := hforms c.toNat hexception
      rw [Char.ofNat_toNat] at hform
      exact hword d (List.all_eq_true.1 hform d hd)

/-- A capital form begins with a digit if and only if the character is one. -/
theorem exists_capitalize_eq_cons (c : Char) :
    ∃ d rest, capitalize (lowerChar c) = d :: rest ∧ d.isDigit = c.isDigit := by
  rcases Text.exists_lowerChar_eq_cons c with ⟨d, lowers, hlower, hdigit⟩
  rcases Text.exists_upperChar_eq_cons d with ⟨e, uppers, hupper, hsame⟩
  exact ⟨e, uppers ++ lowers, by rw [hlower, capitalize, hupper, List.cons_append],
    hsame.trans hdigit⟩

/-- The character is beyond ASCII, or it is a letter or digit. -/
def Wordlike (c : Char) : Prop :=
  0x80 ≤ c.toNat ∨ c.isAlphanum = true

theorem wordlike_of_isAlpha (h : 0x80 ≤ c.toNat ∨ c.isAlpha = true) : Wordlike c :=
  h.imp_right Text.isAlphanum_of_isAlpha

theorem wordlike_of_mem_lowerChar (hc : isAlphanumeric c = true) (hd : d ∈ lowerChar c) :
    Wordlike d := by
  rcases Nat.lt_or_ge c.toNat 0x80 with hlow | hbeyond
  · have hclass : ∀ c : Char, c.toNat < 0x80 → isAlphanumeric c = true →
        (lowerChar c).all Char.isAlphanum = true :=
      forall_toNat_lt (by decide +kernel)
    exact .inr (List.all_eq_true.1 (hclass c hlow hc) d hd)
  · exact wordlike_of_isAlpha ((Text.formed_lowerChar hbeyond).2.1 d hd)

theorem wordlike_of_mem_upperChar (hc : Wordlike c) (hd : d ∈ upperChar c) : Wordlike d := by
  rcases Nat.lt_or_ge c.toNat 0x80 with hlow | hbeyond
  · have hclass : ∀ c : Char, c.toNat < 0x80 → c.isAlphanum = true →
        (upperChar c).all Char.isAlphanum = true :=
      forall_toNat_lt (by decide +kernel)
    exact .inr (List.all_eq_true.1 (hclass c hlow (hc.resolve_left (by omega))) d hd)
  · exact wordlike_of_isAlpha ((Text.formed_upperChar hbeyond).2.1 d hd)

/-! ## Words -/

/-- What is true of the forms of all letters and digits is true of all words. -/
theorem forall_mem_words_iff {P : Char → Prop} :
    (∀ word ∈ words segments, ∀ d ∈ word, P d) ↔
      ∀ segment ∈ segments, ∀ c ∈ segment.toList, isAlphanumeric c = true →
        ∀ d ∈ lowerChar c, P d := by
  constructor
  · intro h segment hsegment c hc hword d hd
    have hmem : d ∈ word segment.toList :=
      List.mem_flatMap.2 ⟨c, List.mem_filter.2 ⟨hc, hword⟩, hd⟩
    refine h (word segment.toList) (List.mem_filter.2 ⟨?_, ?_⟩) d hmem
    · exact List.mem_map.2 ⟨segment, hsegment, rfl⟩
    · simpa using List.ne_nil_of_mem hmem
  · intro h text htext d hd
    rcases List.mem_map.1 (List.mem_of_mem_filter htext) with ⟨segment, hsegment, rfl⟩
    rcases List.mem_flatMap.1 hd with ⟨c, hc, hmem⟩
    exact h segment hsegment c (List.mem_of_mem_filter hc) (List.mem_filter.1 hc).2 d hmem

theorem ne_nil_of_mem_words {text : List Char} (h : text ∈ words segments) : text ≠ [] := by
  simpa using (List.mem_filter.1 h).2

/-- There is no word if and only if there is no letter or digit. -/
theorem words_eq_nil_iff :
    words segments = [] ↔
      ∀ segment ∈ segments, ∀ c ∈ segment.toList, isAlphanumeric c = false := by
  have hwords : words segments = [] ↔ ∀ text ∈ words segments, ∀ d ∈ text, False := by
    constructor
    · intro h text htext
      rw [h] at htext
      cases htext
    · intro h
      refine List.eq_nil_iff_forall_not_mem.2 fun text htext => ne_nil_of_mem_words htext ?_
      exact List.eq_nil_iff_forall_not_mem.2 (h text htext)
  rw [hwords, forall_mem_words_iff]
  refine forall₄_congr fun segment _ c _ => ?_
  -- every letter and digit has a form, which is not empty
  rcases Text.exists_lowerChar_eq_cons c with ⟨d, rest, hlower, -⟩
  constructor
  · intro h
    rw [Bool.eq_false_iff]
    exact fun hc => h hc d (by simp [hlower])
  · intro h hc
    rw [h] at hc
    cases hc

/-! ## Snake case -/

/-- A name in snake case is in ASCII exactly when the alphanumeric characters of the path lower to
it. -/
theorem forall_mem_snake_iff
    (hword : ∀ d : Char, (d.isLower || d.isDigit) = true → holds d = true)
    (hascii : ∀ d, holds d = true → d.toNat < 0x80) (hunderscore : holds '_' = true) :
    (∀ d ∈ (snake.apply segments).toList, holds d = true) ↔
      ∀ segment ∈ segments, ∀ c ∈ segment.toList, isAlphanumeric c = true → LowersToAscii c := by
  have hseparator : ∀ d ∈ ['_'], holds d = true := by simpa using hunderscore
  rw [apply, String.toList_ofList, joinWords, Text.forall_mem_intercalate_iff hseparator,
    forall_mem_words_iff]
  refine forall₅_congr fun segment _ c _ hc => ?_
  exact forall_mem_lowerChar_iff hword hascii hc

/-- A name in snake case is empty when the path has no words. -/
theorem snake_eq_empty_iff : snake.apply segments = "" ↔ words segments = [] := by
  rw [← String.toList_inj, apply, String.toList_ofList, joinWords]
  rcases hwords : words segments with _ | ⟨first, rest⟩
  · simp
  · have hfirst : first ≠ [] := ne_nil_of_mem_words (hwords ▸ List.mem_cons_self)
    cases rest with
    | nil =>
        simpa using hfirst
    | cons second rest =>
        simp [List.intercalate_cons_cons]

/-! ## Camel case and its like -/

theorem wordlike_of_mem_capitalize {text : List Char} (h : ∀ c ∈ text, Wordlike c)
    (hd : d ∈ capitalize text) : Wordlike d := by
  cases text with
  | nil =>
      cases hd
  | cons c rest =>
      rcases List.mem_append.1 hd with hfront | hback
      · exact wordlike_of_mem_upperChar (h c List.mem_cons_self) hfront
      · exact h d (List.mem_cons_of_mem _ hback)

/-- A name in camel case is wordlike. -/
theorem wordlike_of_mem_camel (hd : d ∈ (camel.apply segments).toList) : Wordlike d := by
  have hwords : ∀ text ∈ words segments, ∀ c ∈ text, Wordlike c :=
    forall_mem_words_iff.2 fun _ _ c _ hc d hd => wordlike_of_mem_lowerChar hc hd
  rw [apply, String.toList_ofList] at hd
  rcases hlist : words segments with _ | ⟨first, rest⟩
  · rw [hlist] at hd
    cases hd
  · rw [hlist] at hd hwords
    rcases List.forall_mem_cons.1 hwords with ⟨hfirst, hrest⟩
    rcases List.mem_append.1 hd with hfront | hback
    · exact hfirst d hfront
    · rcases List.mem_flatMap.1 hback with ⟨text, htext, hmem⟩
      exact wordlike_of_mem_capitalize (hrest text htext) hmem

/-- A name in Pascal case is made of the capitalized words. -/
theorem toList_pascal (segments : List String) :
    (pascal.apply segments).toList =
      segments.flatMap fun segment => capitalize (word segment.toList) := by
  rw [apply, String.toList_ofList, joinWords]
  induction segments with
  | nil =>
      rfl
  | cons segment segments ih =>
      rw [List.flatMap_cons, ← ih, words, List.map_cons, List.filter_cons]
      -- a segment without a word is left out, and capitalizing nothing gives nothing
      by_cases hword : word segment.toList = []
      · simp [hword, capitalize, words]
      · simp [hword, words]

/-- A word in front of whose letters and digits there is one goes on with their lower-case forms. -/
theorem capitalize_word {segment rest : List Char}
    (h : segment.filter isAlphanumeric = c :: rest) :
    capitalize (word segment) = capitalize (lowerChar c) ++ Text.lower rest := by
  rcases Text.exists_lowerChar_eq_cons c with ⟨d, lowers, hlower, -⟩
  rw [word, h, Text.lower_cons, hlower, List.cons_append, capitalize, capitalize, List.append_assoc]

/-- A name in Pascal case is in ASCII exactly when the first character of each word capitalizes to
it and the others lower to it. -/
theorem forall_mem_pascal_iff (hword : ∀ d : Char, d.isAlphanum = true → holds d = true)
    (hascii : ∀ d, holds d = true → d.toNat < 0x80) :
    (∀ d ∈ (pascal.apply segments).toList, holds d = true) ↔
      ∀ segment ∈ segments, ∀ c rest, segment.toList.filter isAlphanumeric = c :: rest →
        CapitalizesToAscii c ∧ ∀ d ∈ rest, LowersToAscii d := by
  have hlower : ∀ d : Char, (d.isLower || d.isDigit) = true → holds d = true := by
    intro d hd
    refine hword d ?_
    rcases Bool.or_eq_true_iff.1 hd with hletter | hdigit
    · exact Text.isAlphanum_of_isAlpha (Text.isAlpha_of_isLower hletter)
    · exact Text.isAlphanum_of_isDigit hdigit
  rw [toList_pascal, List.forall_mem_flatMap]
  refine forall₂_congr fun segment _ => ?_
  have hclass : ∀ c ∈ segment.toList.filter isAlphanumeric, isAlphanumeric c = true :=
    fun c hc => (List.mem_filter.1 hc).2
  rcases hletters : segment.toList.filter isAlphanumeric with _ | ⟨c, rest⟩
  · simp [word, hletters, capitalize]
  · rw [hletters, List.forall_mem_cons] at hclass
    rw [capitalize_word hletters, List.forall_mem_append,
      forall_mem_capitalize_iff hword hascii hclass.1, Text.lower, List.forall_mem_flatMap]
    have hrest : (∀ c ∈ rest, ∀ d ∈ lowerChar c, holds d = true) ↔
        ∀ c ∈ rest, LowersToAscii c :=
      forall₂_congr fun d hd => forall_mem_lowerChar_iff hlower hascii (hclass.2 d hd)
    simp [hrest]

/-- The name begins with a digit if and only if the first letter or digit of the segments is one. -/
theorem head?_pascal (segments : List String) :
    (pascal.apply segments).toList.head?.map Char.isDigit =
      (segments.flatMap fun segment =>
        segment.toList.filter isAlphanumeric).head?.map Char.isDigit := by
  rw [toList_pascal]
  induction segments with
  | nil =>
      rfl
  | cons segment segments ih =>
      rw [List.flatMap_cons, List.flatMap_cons]
      rcases hletters : segment.toList.filter isAlphanumeric with _ | ⟨c, rest⟩
      · simpa [word, hletters, capitalize] using ih
      · rcases exists_capitalize_eq_cons c with ⟨d, more, hcapital, hdigit⟩
        rw [capitalize_word hletters, hcapital]
        simp [hdigit]

end NameCase
end DesignTokens
