import DesignTokens.Text.Reader
import Mathlib.Computability.Language
import Mathlib.Data.List.TakeWhile

/-!
# What readers take

A reader takes the words of a language when whatever it takes is one of these words, and when it
takes each of them in front of every rest that may follow. What may follow is a part of this, since
readers are greedy and do not go back: a word is cut off in the right place only if what comes after
it can not be read as more of it.
-/

open scoped Computability

namespace DesignTokens
namespace Text

/-! ## Words -/

def starts (holds : Char → Bool) (s : List Char) : Bool :=
  s.head?.any holds

def single (holds : Char → Bool) : Language Char :=
  {word | ∃ c, holds c = true ∧ word = [c]}

/-- A word of lower-case letters in any letter case. -/
def anyCase (word : List Char) : Language Char :=
  {s | s.map Char.toLower = word}

/-- Every word of the language begins with a character of the class. -/
def Opens (words : Language Char) (holds : Char → Bool) : Prop :=
  ∀ word ∈ words, starts holds word = true

def Apart (holds other : Char → Bool) : Prop :=
  ∀ c, holds c = true → other c = false

variable {holds other : Char → Bool} {words more : Language Char} {word s rest : List Char}
  {c : Char}

@[simp] theorem starts_nil : starts holds [] = false := rfl

@[simp] theorem starts_cons : starts holds (c :: s) = holds c := rfl

theorem starts_append (h : starts holds word = true) : starts holds (word ++ rest) = true := by
  cases word with
  | nil =>
      cases h
  | cons c word =>
      exact h

theorem starts_imp (h : ∀ c, holds c = true → other c = true) (hs : starts holds s = true) :
    starts other s = true := by
  cases s with
  | nil =>
      cases hs
  | cons c s =>
      exact h c hs

theorem not_starts_imp (h : ∀ c, holds c = true → other c = true) (hs : starts other s = false) :
    starts holds s = false := by
  rw [Bool.eq_false_iff] at hs ⊢
  exact fun hstarts => hs (starts_imp h hstarts)

theorem Apart.symm (h : Apart holds other) : Apart other holds := by
  intro c hc
  rw [Bool.eq_false_iff]
  intro hholds
  rw [h c hholds] at hc
  cases hc

theorem Apart.not_starts (h : Apart holds other) (hs : starts holds s = true) :
    starts other s = false := by
  cases s with
  | nil =>
      cases hs
  | cons c s =>
      exact h c hs

/-! ## Languages -/

theorem opens_single : Opens (single holds) holds := by
  rintro word ⟨c, hc, rfl⟩
  exact hc

theorem opens_singleton (h : holds c = true) : Opens {c :: s} holds := by
  rintro word rfl
  exact h

theorem opens_anyCase : Opens (anyCase (c :: s)) (·.toLower = c) := by
  intro word hword
  cases word with
  | nil =>
      cases hword
  | cons d word =>
      exact decide_eq_true (List.cons.inj hword).1

theorem Opens.imp (h : Opens words holds) (himp : ∀ c, holds c = true → other c = true) :
    Opens words other :=
  fun word hword => starts_imp himp (h word hword)

/-- A word that opens with a class apart is not started by the other, whatever follows. -/
theorem Opens.not_starts (h : Opens words holds) (hapart : Apart holds other)
    (hword : word ∈ words) (rest : List Char) : starts other (word ++ rest) = false :=
  hapart.not_starts (starts_append (h word hword))

theorem Opens.mul (h : Opens words holds) : Opens (words * more) holds := by
  rintro word hword
  rcases Language.mem_mul.1 hword with ⟨front, hfront, back, -, rfl⟩
  exact starts_append (h front hfront)

theorem Opens.add (h : Opens words holds) (hmore : Opens more holds) :
    Opens (words + more) holds := by
  rintro word (hword | hword)
  · exact h word hword
  · exact hmore word hword

/-- In front of words that begin with a character of the class, others may be left out. -/
theorem Opens.optional_mul (h : Opens words holds) (hmore : Opens more holds) :
    Opens ((1 + words) * more) holds := by
  rw [add_mul, one_mul]
  exact hmore.add h.mul

theorem Opens.kstar_mul (h : Opens words holds) (hmore : Opens more holds) :
    Opens (words∗ * more) holds := by
  rw [← Language.one_add_self_mul_kstar_eq_kstar]
  exact h.mul.optional_mul hmore

theorem mem_single_mul_iff :
    c :: s ∈ single holds * words ↔ holds c = true ∧ s ∈ words := by
  constructor
  · rintro ⟨front, ⟨d, hd, rfl⟩, back, hback, heq⟩
    cases heq
    exact ⟨hd, hback⟩
  · rintro ⟨hc, hs⟩
    exact ⟨[c], ⟨c, hc, rfl⟩, s, hs, rfl⟩

theorem nil_notMem_single_mul : [] ∉ single holds * words := by
  rintro ⟨front, ⟨d, hd, rfl⟩, back, hback, heq⟩
  cases heq

theorem mem_kstar_single_iff : word ∈ (single holds)∗ ↔ ∀ c ∈ word, holds c = true := by
  induction word with
  | nil =>
      simp [Language.nil_mem_kstar]
  | cons c word ih =>
      -- One character more in front is one more turn of the star.
      rw [← Language.one_add_self_mul_kstar_eq_kstar, List.forall_mem_cons, ← ih,
        ← mem_single_mul_iff, Language.mem_add, Language.mem_one]
      simp

theorem mem_single_mul_kstar_iff :
    word ∈ single holds * (single holds)∗ ↔ word ≠ [] ∧ ∀ c ∈ word, holds c = true := by
  cases word with
  | nil =>
      simp [nil_notMem_single_mul]
  | cons c word =>
      simp [mem_single_mul_iff, mem_kstar_single_iff]

/-- A number of repetitions is a text of that length. -/
theorem mem_single_pow_iff {n : Nat} :
    word ∈ single holds ^ n ↔ word.length = n ∧ ∀ c ∈ word, holds c = true := by
  induction n generalizing word with
  | zero =>
      rw [pow_zero, Language.mem_one, List.length_eq_zero_iff]
      constructor
      · rintro rfl
        simp
      · exact And.left
  | succ n ih =>
      rw [pow_succ']
      cases word with
      | nil =>
          simp [nil_notMem_single_mul]
      | cons c word =>
          rw [mem_single_mul_iff, ih]
          simp [and_left_comm]

/-! ## Runs of a class -/

/-- The longest run in front of a rest that does not go on with it. -/
theorem span_append (hword : ∀ c ∈ word, holds c = true) (hrest : starts holds rest = false) :
    (word ++ rest).takeWhile holds = word ∧ (word ++ rest).dropWhile holds = rest := by
  rw [List.takeWhile_append_of_pos hword, List.dropWhile_append_of_pos hword]
  cases rest with
  | nil =>
      simp
  | cons c rest =>
      have hc : holds c = false := hrest
      simp [hc]

end Text

namespace Text.Reader

variable {α β : Type} {reader first : Reader α} {second : Reader β}
  {words more : Language Char} {follow later : List Char → Prop} {holds : Char → Bool}
  {s rest word : List Char}

/-- The reader takes words of the language only, and all of them in front of what may follow. -/
structure Takes (reader : Reader α) (words : Language Char) (follow : List Char → Prop) :
    Prop where
  sound : ∀ {s a rest}, reader s = some (a, rest) → ∃ word ∈ words, s = word ++ rest
  complete : ∀ {word rest}, word ∈ words → follow rest → ∃ a, reader (word ++ rest) = some (a, rest)

theorem Takes.imp (h : reader.Takes words follow) (himp : ∀ rest, later rest → follow rest) :
    reader.Takes words later :=
  ⟨h.sound, fun hword hrest => h.complete hword (himp _ hrest)⟩

/-- A text that does not begin as the words do is refused. -/
theorem Takes.eq_none (h : reader.Takes words follow) (hopens : Opens words holds)
    (hs : starts holds s = false) : reader s = none := by
  rw [Option.eq_none_iff_forall_ne_some]
  rintro ⟨a, rest⟩ hread
  rcases h.sound hread with ⟨word, hword, rfl⟩
  rw [starts_append (hopens word hword)] at hs
  cases hs

/-! ## Single readers -/

theorem takes_char (c : Char) : (char c).Takes {[c]} fun _ => True := by
  constructor
  case sound =>
    intro s a rest hread
    cases s with
    | nil =>
        cases hread
    | cons d s =>
        simp only [char] at hread
        split at hread
        · rename_i heq
          cases hread
          exact ⟨[c], rfl, by rw [heq]; rfl⟩
        · cases hread
  case complete =>
    rintro word rest rfl -
    exact ⟨(), by simp [char]⟩

/-- A run is taken as far as it goes, so that nothing of its class may follow. -/
theorem takes_run (holds : Char → Bool) :
    (run holds).Takes (single holds)∗ fun rest => starts holds rest = false := by
  constructor
  case sound =>
    intro s a rest hread
    cases hread
    refine ⟨s.takeWhile holds, ?_, List.takeWhile_append_dropWhile.symm⟩
    exact mem_kstar_single_iff.2 fun c hc => List.mem_takeWhile_imp hc
  case complete =>
    intro word rest hword hrest
    rcases span_append (mem_kstar_single_iff.1 hword) hrest with ⟨htake, hdrop⟩
    exact ⟨word, by rw [run, htake, hdrop]⟩

/-- A run that may not be empty fails for a text that does not start with its class. -/
theorem run1_eq (holds : Char → Bool) (s : List Char) :
    run1 holds s =
      if s.takeWhile holds = [] then none else some (s.takeWhile holds, s.dropWhile holds) := by
  rw [run1]
  cases s.takeWhile holds with
  | nil =>
      rfl
  | cons c cs =>
      simp

/-- A run that may not be empty is taken as far as it goes. -/
theorem takes_run1 (holds : Char → Bool) :
    (run1 holds).Takes (single holds * (single holds)∗) fun rest => starts holds rest = false := by
  constructor
  case sound =>
    intro s a rest hread
    rw [run1_eq] at hread
    split at hread
    · cases hread
    · rename_i hne
      cases hread
      refine ⟨s.takeWhile holds, ?_, List.takeWhile_append_dropWhile.symm⟩
      exact mem_single_mul_kstar_iff.2 ⟨hne, fun c hc => List.mem_takeWhile_imp hc⟩
  case complete =>
    intro word rest hword hrest
    rcases mem_single_mul_kstar_iff.1 hword with ⟨hne, hall⟩
    rcases span_append hall hrest with ⟨htake, hdrop⟩
    exact ⟨word, by rw [run1_eq, htake, hdrop, if_neg hne]⟩

theorem takes_word (word : List Char) : (Reader.word word).Takes (anyCase word) fun _ => True := by
  constructor
  case sound =>
    induction word with
    | nil =>
        intro s a rest hread
        cases hread
        exact ⟨[], rfl, rfl⟩
    | cons c word ih =>
        intro s a rest hread
        cases s with
        | nil =>
            cases hread
        | cons d s =>
            simp only [Reader.word] at hread
            split at hread
            · rename_i hd
              rcases ih hread with ⟨found, hfound, rfl⟩
              refine ⟨d :: found, ?_, rfl⟩
              exact congrArg₂ List.cons hd hfound
            · cases hread
  case complete =>
    intro found rest hfound _
    refine ⟨(), ?_⟩
    -- The text in front has as many characters as the word, and lower-casing compares them.
    induction word generalizing found with
    | nil =>
        rw [List.map_eq_nil_iff.1 hfound]
        rfl
    | cons c word ih =>
        rcases List.map_eq_cons_iff.1 hfound with ⟨d, tail, rfl, hd, htail⟩
        simpa [Reader.word, hd] using ih htail

theorem word_eq_none (h : ¬ word <+: s.map Char.toLower) : Reader.word word s = none := by
  rw [Option.eq_none_iff_forall_ne_some]
  rintro ⟨a, rest⟩ hread
  rcases (takes_word word).sound hread with ⟨found, hfound, rfl⟩
  refine h ⟨rest.map Char.toLower, ?_⟩
  rw [List.map_append, (hfound : found.map Char.toLower = word)]

/-! ## Readers of readers -/

theorem Takes.map (h : reader.Takes words follow) (f : α → β) :
    (reader.map f).Takes words follow := by
  constructor
  case sound =>
    intro s b rest hread
    unfold Reader.map at hread
    split at hread
    · rename_i a rest' ha
      cases hread
      exact h.sound ha
    · cases hread
  case complete =>
    intro word rest hword hrest
    rcases h.complete hword hrest with ⟨a, ha⟩
    exact ⟨f a, by rw [Reader.map, ha]⟩

/-- The second word stands between the first one and what follows both. -/
theorem Takes.pair (h : first.Takes words follow) (hsecond : second.Takes more later)
    (hseam : ∀ word ∈ more, ∀ rest, later rest → follow (word ++ rest)) :
    (first.pair second).Takes (words * more) later := by
  constructor
  case sound =>
    intro s c rest hread
    unfold Reader.pair at hread
    split at hread
    · rename_i a between ha
      split at hread
      · rename_i b rest' hb
        cases hread
        rcases h.sound ha with ⟨front, hfront, rfl⟩
        rcases hsecond.sound hb with ⟨back, hback, rfl⟩
        exact ⟨front ++ back, Language.append_mem_mul hfront hback, (List.append_assoc ..).symm⟩
      · cases hread
    · cases hread
  case complete =>
    intro word rest hword hrest
    rcases Language.mem_mul.1 hword with ⟨front, hfront, back, hback, rfl⟩
    rcases h.complete hfront (hseam back hback rest hrest) with ⟨a, ha⟩
    rcases hsecond.complete hback hrest with ⟨b, hb⟩
    exact ⟨(a, b), by rw [List.append_assoc, Reader.pair, ha]; simp [hb]⟩

/-- Two readers take the texts of the one and of the other when the second leaves what may follow
the first. -/
theorem Takes.after (h : first.Takes words follow) (hsecond : second.Takes more later)
    (hseam : ∀ word ∈ more, ∀ rest, later rest → follow (word ++ rest)) :
    (first.after second).Takes (words * more) later :=
  (h.pair hsecond hseam).map (·.2)

/-- Nothing is taken in front of what the reader refuses. -/
theorem Takes.optional (h : reader.Takes words follow) :
    reader.optional.Takes (1 + words) fun rest => follow rest ∧ reader rest = none := by
  constructor
  case sound =>
    intro s a rest hread
    unfold Reader.optional at hread
    split at hread
    · rename_i b rest' hb
      cases hread
      rcases h.sound hb with ⟨word, hword, heq⟩
      exact ⟨word, Or.inr hword, heq⟩
    · cases hread
      exact ⟨[], Or.inl rfl, rfl⟩
  case complete =>
    rintro word rest (hword | hword) ⟨hrest, hrefused⟩
    · rw [(Language.mem_one word).1 hword]
      exact ⟨none, by rw [Reader.optional, List.nil_append, hrefused]⟩
    · rcases h.complete hword hrest with ⟨a, ha⟩
      exact ⟨some a, by rw [Reader.optional, ha]⟩

/-- A word and one more that may be missing. Either the second word or what follows comes next. -/
theorem Takes.pair_optional (h : first.Takes words follow) (hsecond : second.Takes more later)
    (final : List Char → Prop) (hseam : ∀ word ∈ more, ∀ rest, final rest → follow (word ++ rest))
    (hend : ∀ rest, final rest → follow rest ∧ later rest ∧ second rest = none) :
    (first.pair second.optional).Takes (words * (1 + more)) final := by
  refine h.pair (hsecond.optional.imp fun rest hrest => (hend rest hrest).2) ?_
  rintro word (hword | hword) rest hrest
  · rw [(Language.mem_one word).1 hword]
    exact (hend rest hrest).1
  · exact hseam word hword rest hrest

/-- The second reader has its turn if the first one refuses its words. -/
theorem Takes.orElse {next : Reader α} (h : reader.Takes words follow)
    (hnext : next.Takes more follow)
    (hskip : ∀ word ∈ more, ∀ rest, follow rest → reader (word ++ rest) = none) :
    (Reader.orElse reader next).Takes (words + more) follow := by
  constructor
  case sound =>
    intro s a rest hread
    unfold Reader.orElse at hread
    split at hread
    · rename_i result hresult
      cases hread
      rcases h.sound hresult with ⟨word, hword, heq⟩
      exact ⟨word, Or.inl hword, heq⟩
    · rcases hnext.sound hread with ⟨word, hword, heq⟩
      exact ⟨word, Or.inr hword, heq⟩
  case complete =>
    rintro word rest (hword | hword) hrest
    · rcases h.complete hword hrest with ⟨a, ha⟩
      exact ⟨a, by rw [Reader.orElse, ha]⟩
    · -- There is no way back from the first reader, so that it may not take a part of the word.
      rcases hnext.complete hword hrest with ⟨a, ha⟩
      exact ⟨a, by rw [Reader.orElse, hskip word hword rest hrest, ha]⟩

/-- Two readers in a row refuse a text if the second one refuses what the first one leaves. -/
theorem Takes.after_eq_none (h : first.Takes words follow) (hword : word ∈ words)
    (hrest : follow rest) (hrefused : second rest = none) :
    (first.after second) (word ++ rest) = none := by
  rcases h.complete hword hrest with ⟨a, ha⟩
  rw [Reader.after, Reader.map, Reader.pair, ha]
  simp [hrefused]

theorem after_eq_none (h : first s = none) : (first.after second) s = none := by
  rw [Reader.after, Reader.map, Reader.pair, h]

end Text.Reader
end DesignTokens
