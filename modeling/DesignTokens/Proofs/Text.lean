import DesignTokens.Text.Split
import Mathlib.Data.List.Basic

/-!
# Splitting, joining and replacing

Splitting undoes joining as soon as no part holds the separator. Replacing puts the new text at the
same places whatever it is, so that a longer one never gives a shorter result.
-/

namespace DesignTokens
namespace Text

variable {old new other : List Char}

/-! ## Splitting and joining -/

/-- Parts without the separator are split again as they were joined. -/
theorem split_join {separator : Char} {text : String} {parts : List String}
    (htext : text.toList = [separator]) (h : ∀ part ∈ parts, separator ∉ part.toList)
    (hne : parts ≠ []) : split separator (join text parts) = parts := by
  have hjoin : (join text parts).toList = [separator].intercalate (parts.map String.toList) := by
    simp [join, htext]
  have hfree : ∀ part ∈ parts.map String.toList, separator ∉ part := by
    intro part hpart
    rcases List.mem_map.1 hpart with ⟨other, hother, rfl⟩
    exact h other hother
  rw [split, hjoin, List.splitOn_intercalate separator hfree (by simpa using hne)]
  simp

/-- No part holds a character that a text is cut at. -/
theorem eq_false_of_mem_splitOnP {holds : Char → Bool} {s part : List Char}
    (h : part ∈ s.splitOnP holds) {c : Char} (hc : c ∈ part) : holds c = false := by
  induction s generalizing part with
  | nil =>
      rw [List.splitOnP_nil, List.mem_singleton] at h
      simp [h] at hc
  | cons d s ih =>
      rw [List.splitOnP_cons_eq_if_modifyHead] at h
      split at h
      · rcases List.mem_cons.1 h with rfl | hlater
        · cases hc
        · exact ih hlater hc
      · rename_i hd
        rcases hparts : s.splitOnP holds with _ | ⟨first, more⟩
        · exact absurd hparts (List.splitOnP_ne_nil _ _)
        · rw [hparts, List.modifyHead_cons] at h
          rcases List.mem_cons.1 h with rfl | hlater
          · -- The character is the one that was split off, or one of the first part.
            rcases List.mem_cons.1 hc with rfl | hback
            · simpa using hd
            · exact ih (hparts ▸ List.mem_cons_self) hback
          · exact ih (hparts ▸ List.mem_cons_of_mem _ hlater) hc

/-- The parts together are the characters that a text is not cut at. -/
theorem flatten_splitOnP (holds : Char → Bool) (s : List Char) :
    (s.splitOnP holds).flatten = s.filter (!holds ·) := by
  induction s with
  | nil =>
      rfl
  | cons c s ih =>
      rw [List.splitOnP_cons_eq_if_modifyHead, List.filter_cons, ← ih]
      by_cases hc : holds c = true
      · simp [hc]
      · rcases hparts : s.splitOnP holds with _ | ⟨first, more⟩
        · exact absurd hparts (List.splitOnP_ne_nil _ _)
        · simp [hc]

/-- No part of a split text has the separator. -/
theorem not_mem_of_mem_split {separator : Char} {s part : String} (h : part ∈ split separator s) :
    separator ∉ part.toList := by
  rcases List.mem_map.1 h with ⟨chars, hchars, rfl⟩
  rw [List.splitOn_eq_splitOnP] at hchars
  rw [String.toList_ofList]
  intro hmem
  have hself := eq_false_of_mem_splitOnP hchars hmem
  simp at hself

/-- A text that is joined by the separator is split into the parts of both sides. -/
theorem split_append {separator : Char} {text : String} (htext : text.toList = [separator])
    (front back : String) :
    split separator (front ++ text ++ back) = split separator front ++ split separator back := by
  simp [split, htext, List.splitOn_append_cons_self]

/-- A text that is not cut goes in front of the first part. -/
theorem split_append_of_not_mem {separator : Char} {front : String}
    (hfront : separator ∉ front.toList) (back : String) :
    split separator (front ++ back) = (split separator back).modifyHead (front ++ ·) := by
  -- The first part takes up everything in front of the first separator.
  have hchars : ∀ front : List Char, separator ∉ front →
      (front ++ back.toList).splitOn separator =
        (back.toList.splitOn separator).modifyHead (front ++ ·) := by
    intro front hfront
    induction front with
    | nil =>
        rcases hparts : back.toList.splitOn separator with _ | ⟨first, more⟩
        · exact absurd hparts (List.splitOn_ne_nil _ _)
        · exact hparts
    | cons c front ih =>
        rw [List.mem_cons, not_or] at hfront
        rw [List.cons_append, List.splitOn_cons_eq_if_modifyHead, ih hfront.2,
          if_neg (by simpa using Ne.symm hfront.1), List.modifyHead_modifyHead]
        rfl
  rw [split, split, String.toList_append, hchars _ hfront]
  cases back.toList.splitOn separator <;> simp

/-- A joined text has what is true of the separator and of the parts, character by character. -/
theorem forall_mem_intercalate_iff {P : Char → Prop} {separator : List Char}
    (hseparator : ∀ c ∈ separator, P c) {parts : List (List Char)} :
    (∀ c ∈ separator.intercalate parts, P c) ↔ ∀ part ∈ parts, ∀ c ∈ part, P c := by
  induction parts with
  | nil =>
      simp
  | cons part parts ih =>
      cases parts with
      | nil =>
          simp
      | cons next more =>
          rw [List.intercalate_cons_cons, List.forall_mem_append, List.forall_mem_append, ih,
            List.forall_mem_cons (l := next :: more)]
          exact and_congr_left fun _ => and_iff_left hseparator

/-! ## Replacing -/

theorem dropPrefix?_eq_none_iff {start s : List Char} :
    dropPrefix? start s = none ↔ start.isPrefixOf s = false := by
  induction start generalizing s with
  | nil =>
      simp [dropPrefix?]
  | cons c start ih =>
      cases s with
      | nil =>
          simp [dropPrefix?]
      | cons d s =>
          by_cases h : c = d
          · simp [dropPrefix?, List.isPrefixOf, h, ih]
          · simp [dropPrefix?, List.isPrefixOf, h]

/-- A text that is not empty is replaced at the front of what begins with it, and is looked for
further back in what does not. -/
theorem replace_go_succ (hold : old ≠ []) (new : List Char) (n : Nat) (c : Char) (s : List Char) :
    replace.go old new (n + 1) (c :: s) =
      match dropPrefix? old (c :: s) with
      | some rest => new ++ replace.go old new n rest
      | none => c :: replace.go old new n s := by
  cases old with
  | nil =>
      exact absurd rfl hold
  | cons first rest =>
      rfl

/-- A longer replacement makes a text no shorter. -/
theorem length_replace_go_le (hold : old ≠ []) (hlength : new.length ≤ other.length) (n : Nat)
    (s : List Char) :
    (replace.go old new n s).length ≤ (replace.go old other n s).length := by
  induction n generalizing s with
  | zero =>
      exact Nat.le_refl _
  | succ n ih =>
      cases s with
      | nil =>
          exact Nat.le_refl _
      | cons c s =>
          rw [replace_go_succ hold, replace_go_succ hold]
          cases dropPrefix? old (c :: s) with
          | none =>
              simpa using ih s
          | some rest =>
              have hrest := ih rest
              simp only [List.length_append]
              omega

/-- Texts in front of texts that grow with them are told apart by what they make together. -/
theorem eq_of_append_eq {front back front' back' : List Char} (h : front ++ back = front' ++ back')
    (hle : front.length ≤ front'.length → back.length ≤ back'.length)
    (hge : front'.length ≤ front.length → back'.length ≤ back.length) : front = front' := by
  have htotal : front.length + back.length = front'.length + back'.length := by
    simpa using congrArg List.length h
  have hlength : front.length = front'.length := by omega
  exact List.append_inj_left h hlength

end Text
end DesignTokens
