import DesignTokens.Json.Printer
import DesignTokens.Proofs.Text
import Mathlib.Tactic.SplitIfs

/-!
# Compact text is on one line

Compact text has no control characters, and so no line feed and no carriage return: strings escape
them, and all the rest is digits, words and punctuation.
-/

namespace DesignTokens
namespace Json

def NoControls (s : List Char) : Prop :=
  ∀ c ∈ s, 0x20 ≤ c.toNat

variable {s t : List Char} {c : Char}

@[simp] theorem noControls_nil : NoControls [] :=
  List.forall_mem_nil _

@[simp] theorem noControls_cons_iff : NoControls (c :: s) ↔ 0x20 ≤ c.toNat ∧ NoControls s :=
  List.forall_mem_cons

@[simp] theorem noControls_append_iff : NoControls (s ++ t) ↔ NoControls s ∧ NoControls t :=
  List.forall_mem_append

theorem NoControls.sublist (h : NoControls t) (hsublist : s.Sublist t) : NoControls s :=
  fun c hc => h c (hsublist.subset hc)

/-! ## Strings -/

theorem le_toNat_hexDigit : ∀ n < 16, 0x20 ≤ (hexDigit n).toNat := by
  decide

/-- An escaped character has no control character. -/
theorem noControls_escapeChar (c : Char) : NoControls (escapeChar c) := by
  unfold escapeChar
  by_cases hcontrol : c.toNat < 0x20
  · have hhigh := le_toNat_hexDigit (c.toNat / 16) (by omega)
    have hlow := le_toNat_hexDigit (c.toNat % 16) (by omega)
    split_ifs <;> simp [hhigh, hlow]
  -- what is no control character stands for itself or has an escape without any
  · have hself : NoControls [c] := by
      simp
      omega
    split_ifs <;> simp [hself]

theorem noControls_quoteChars (s : List Char) : NoControls (quoteChars s) := by
  have hinside : NoControls (s.flatMap escapeChar) := by
    intro c hc
    rcases List.mem_flatMap.1 hc with ⟨d, -, hmem⟩
    exact noControls_escapeChar d c hmem
  simp [quoteChars, hinside]

/-! ## Numbers -/

@[simp] theorem noControls_digits (n : Nat) : NoControls (Decimal.digits n) := by
  intro c hc
  have hdigit := Nat.isDigit_of_mem_toDigits (by decide) (by decide) hc
  exact Nat.le_trans (by decide) (Char.isDigit_iff_toNat.1 hdigit).1

@[simp] theorem noControls_replicate_zero (n : Nat) : NoControls (List.replicate n '0') := by
  intro c hc
  rw [List.eq_of_mem_replicate hc]
  decide

theorem noControls_placeDigits (h : NoControls s) (exponent : Int) :
    NoControls (placeDigits s exponent) := by
  unfold placeDigits
  split_ifs with hplaced hsmall
  · simp [h]
  · dsimp only
    split
    · simp [h]
    · simp [h.sublist (List.take_sublist ..), h.sublist (List.drop_sublist ..)]
  -- with an exponent: the first digit in front of the point, and the sign of the exponent
  all_goals
    rcases s with _ | ⟨digit, _ | ⟨second, rest⟩⟩ <;> simp_all

theorem noControls_floatChars (x : Float) : NoControls (floatChars x) := by
  have hsign : ∀ exact : Decimal.Exact, NoControls (if exact.negative then ['-'] else []) := by
    intro exact
    split <;> simp
  unfold floatChars
  split
  · simp
  · dsimp only
    split
    · refine noControls_append_iff.2 ⟨hsign _, ?_⟩
      simp
    · exact noControls_append_iff.2 ⟨hsign _, noControls_placeDigits (noControls_digits _) _⟩

theorem noControls_numberChars (number : Number) : NoControls (numberChars number) := by
  cases number with
  | int value =>
      simp only [numberChars, intChars]
      split <;> simp
  | float value =>
      exact noControls_floatChars value

/-! ## Compact text -/

/-- Texts without control characters stay so with commas between them. -/
theorem noControls_commaSeparated {texts : List (List Char)}
    (h : ∀ text ∈ texts, NoControls text) : NoControls (commaSeparated texts) :=
  (Text.forall_mem_intercalate_iff (by simp)).2 h

mutual

theorem noControls_compactChars (value : Json) : NoControls (compactChars value) := by
  cases value with
  | null =>
      simp [compactChars]
  | bool b =>
      cases b <;> simp [compactChars]
  | number number =>
      exact noControls_numberChars number
  | string text =>
      exact noControls_quoteChars text.toList
  | array items =>
      simp [compactChars, noControls_commaSeparated (noControls_compactItems items)]
  | object fields =>
      simp [compactChars, noControls_commaSeparated (noControls_compactFields fields)]

theorem noControls_compactItems (items : List Json) :
    ∀ text ∈ compactItems items, NoControls text := by
  cases items with
  | nil =>
      simp [compactItems]
  | cons item rest =>
      rw [compactItems, List.forall_mem_cons]
      exact ⟨noControls_compactChars item, noControls_compactItems rest⟩

theorem noControls_compactFields (fields : List (String × Json)) :
    ∀ text ∈ compactFields fields, NoControls text := by
  cases fields with
  | nil =>
      simp [compactFields]
  | cons field rest =>
      rcases field with ⟨name, value⟩
      rw [compactFields, List.forall_mem_cons]
      refine ⟨?_, noControls_compactFields rest⟩
      simp [noControls_quoteChars, noControls_compactChars value]

end

/-- Compact text has no control characters. -/
theorem noControls_compact (value : Json) : NoControls value.compact.toList := by
  rw [compact, String.toList_ofList]
  exact noControls_compactChars value

end Json
end DesignTokens
