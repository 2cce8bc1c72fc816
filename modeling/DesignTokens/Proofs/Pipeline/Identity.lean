import DesignTokens.Pipeline.Basic
import Mathlib.Data.Finset.Card
import Mathlib.Data.List.Nodup

/-!
# Fresh identities

A fresh identity is never one of those taken: the base and the numbered texts are all different, so
that of as many of them as there are texts taken, and one more, at least one is free.
-/

namespace DesignTokens

variable {base : String} {taken : List String}

theorem numbered_inj {m n : Nat} : numbered base m = numbered base n ↔ m = n := by
  constructor
  · intro h
    have hlist := congrArg String.toList h
    simp only [numbered, String.toList_append, String.toList_ofList, List.append_assoc,
      List.append_cancel_left_eq] at hlist
    have hread := congrArg (fun digits => Nat.ofDigitChars 10 digits 0) hlist
    simpa [Decimal.digits, Nat.ofDigitChars_toDigits] using hread
  · rintro rfl
    rfl

theorem numbered_ne_base (base : String) (n : Nat) : numbered base n ≠ base := by
  intro heq
  simpa [numbered] using congrArg String.toList heq

/-- When the base is taken and numbered texts are, they are all different texts that are taken. -/
theorem lt_card_of_numbered_mem {count : Nat} (hbase : base ∈ taken)
    (h : ∀ i < count, numbered base (2 + i) ∈ taken) : count < taken.toFinset.card := by
  -- The base and the numbered texts are all different, and all taken.
  have hinjective : Function.Injective fun i => numbered base (2 + i) := by
    intro i j heq
    have hsum := numbered_inj.1 heq
    omega
  have hfresh : base ∉ (Finset.range count).image fun i => numbered base (2 + i) := by
    intro hmem
    rcases Finset.mem_image.1 hmem with ⟨i, -, heq⟩
    exact numbered_ne_base base (2 + i) heq
  have hsubset : insert base ((Finset.range count).image fun i => numbered base (2 + i)) ⊆
      taken.toFinset := by
    intro candidate hmem
    rw [List.mem_toFinset]
    rcases Finset.mem_insert.1 hmem with rfl | hnumbered
    · exact hbase
    · rcases Finset.mem_image.1 hnumbered with ⟨i, hi, rfl⟩
      exact h i (Finset.mem_range.1 hi)
  calc
    count < count + 1 := Nat.lt_succ_self count
    _ = (insert base ((Finset.range count).image fun i => numbered base (2 + i))).card := by
          rw [Finset.card_insert_of_notMem hfresh, Finset.card_image_of_injective _ hinjective,
            Finset.card_range]
    _ ≤ taken.toFinset.card := Finset.card_le_card hsubset

/-- All numbers before the one that is found are taken, and this one is free unless it is the one
after all that may be tried. -/
theorem exists_freshNumber_eq_add (base : String) (taken : List String) (steps n : Nat) :
    ∃ count, freshNumber base taken steps n = n + count ∧
      (∀ i < count, numbered base (n + i) ∈ taken) ∧
      (count < steps → numbered base (n + count) ∉ taken) := by
  induction steps generalizing n with
  | zero =>
      exact ⟨0, rfl, fun i hi => absurd hi (Nat.not_lt_zero i),
        fun hcount => absurd hcount (Nat.not_lt_zero 0)⟩
  | succ steps ih =>
      by_cases htaken : numbered base n ∈ taken
      · rcases ih (n + 1) with ⟨count, heq, hcount, hfree⟩
        have hassoc : ∀ i, n + 1 + i = n + (i + 1) := by
          intro i
          omega
        rw [hassoc] at heq hfree
        refine ⟨count + 1, by rw [freshNumber, if_pos htaken, heq], ?_,
          fun hlt => hfree (Nat.lt_of_succ_lt_succ hlt)⟩
        intro i hi
        cases i with
        | zero =>
            exact htaken
        | succ i =>
            exact hassoc i ▸ hcount i (Nat.lt_of_succ_lt_succ hi)
      · exact ⟨0, by rw [freshNumber, if_neg htaken, Nat.add_zero],
          fun i hi => absurd hi (Nat.not_lt_zero i), fun _ => htaken⟩

theorem freshText_not_mem (base : String) (taken : List String) : freshText base taken ∉ taken := by
  unfold freshText
  split
  · rename_i hbase
    rcases exists_freshNumber_eq_add base taken taken.length 2 with ⟨count, heq, htaken, hfree⟩
    have hcount := lt_card_of_numbered_mem hbase htaken
    have hcard := taken.toFinset_card_le
    rw [heq]
    exact hfree (by omega)
  · assumption

/-- A fresh identity is none of the taken ones, whatever makes the slug. -/
theorem freshId_not_mem (slug : String → String) (kind name : String) (taken : List String) :
    freshId slug kind name taken ∉ taken :=
  freshText_not_mem _ taken

/-- Slugs of plain names, for runs on examples: letters in lower case and digits, with single dashes
between them for everything else. -/
def plainSlug (name : String) : String :=
  let dashed := name.toList.map fun c => if c.isAlphanum then c.toLower else '-'
  Text.join "-" ((Text.split '-' (String.ofList dashed)).filter (· ≠ ""))

example : plainSlug "Theme / light" = "theme-light" := by decide

end DesignTokens
