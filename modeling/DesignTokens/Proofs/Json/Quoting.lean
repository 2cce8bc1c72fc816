import DesignTokens.Json.Parser
import DesignTokens.Json.Printer
import Mathlib.Tactic.SplitIfs

/-!
# Quoted texts are read back

What is put between quotes is read back as it was, whatever follows the closing quote: every escape
is read as the character that it stands for, and no character inside closes the text early. So two
quoted texts with the same beginning are one text.
-/

namespace DesignTokens
namespace Json

open DesignTokens.Json.Parser

variable {s t rest more : List Char} {c : Char} {n : Nat}

/-! ## Escapes -/

theorem hexValue?_hexDigit : ∀ n < 16, hexValue? (hexDigit n) = some n := by
  decide

/-- A control character is read back from its code. -/
theorem unicodeEscape_control (h : c.toNat < 0x20) (rest : List Char) :
    unicodeEscape ('0' :: '0' :: hexDigit (c.toNat / 16) :: hexDigit (c.toNat % 16) :: rest) =
      some (c, rest) := by
  have hhigh := hexValue?_hexDigit (c.toNat / 16) (by omega)
  have hlow := hexValue?_hexDigit (c.toNat % 16) (by omega)
  have hzero : hexValue? '0' = some 0 := rfl
  have hunit : hexUnit
      ('0' :: '0' :: hexDigit (c.toNat / 16) :: hexDigit (c.toNat % 16) :: rest) =
        some (c.toNat, rest) := by
    have hcode : ((0 * 16 + 0) * 16 + c.toNat / 16) * 16 + c.toNat % 16 = c.toNat := by omega
    simp only [hexUnit, hzero, hhigh, hlow, Option.bind_eq_bind, Option.bind_some, hcode]
    rfl
  -- A code below thirty-two belongs to no surrogate.
  have hhighHalf : ¬ (0xD800 ≤ c.toNat ∧ c.toNat < 0xDC00) := by omega
  have hlowHalf : ¬ (0xDC00 ≤ c.toNat ∧ c.toNat < 0xE000) := by omega
  simp [unicodeEscape, hunit, hhighHalf, hlowHalf]

/-- A character is escaped in such a way that it is read back, or stands for itself. -/
theorem escapeChar_cases (c : Char) :
    (∃ s, escapeChar c = '\\' :: s ∧ ∀ rest, escape (s ++ rest) = some (c, rest)) ∨
      escapeChar c = [c] ∧ c ≠ '"' ∧ c ≠ '\\' ∧ ¬ c.toNat < 0x20 := by
  have hcode : ∀ code : Nat, c.toNat = code → Char.ofNat code = c := by
    rintro _ rfl
    exact Char.ofNat_toNat c
  unfold escapeChar
  split_ifs with hquote hbackslash hfeed hreturn htab hback hform hcontrol
  · exact Or.inl ⟨_, rfl, fun _ => by rw [hquote]; rfl⟩
  · exact Or.inl ⟨_, rfl, fun _ => by rw [hbackslash]; rfl⟩
  · exact Or.inl ⟨_, rfl, fun _ => by rw [hfeed]; rfl⟩
  · exact Or.inl ⟨_, rfl, fun _ => by rw [hreturn]; rfl⟩
  · exact Or.inl ⟨_, rfl, fun _ => by rw [htab]; rfl⟩
  · exact Or.inl ⟨_, rfl, fun _ => by rw [← hcode _ hback]; rfl⟩
  · exact Or.inl ⟨_, rfl, fun _ => by rw [← hcode _ hform]; rfl⟩
  · exact Or.inl ⟨_, rfl, fun rest => unicodeEscape_control hcontrol rest⟩
  · exact Or.inr ⟨rfl, hquote, hbackslash, hcontrol⟩

/-- A character is read back, and the rest is read after it. -/
theorem stringChars_escapeChar (n : Nat) (c : Char) (rest : List Char) :
    stringChars (n + 1) (escapeChar c ++ rest) =
      (stringChars n rest).map fun (cs, more) => (c :: cs, more) := by
  rcases escapeChar_cases c with ⟨s, hescaped, hread⟩ | ⟨hplain, hquote, hbackslash, hcontrol⟩
  · rw [hescaped, List.cons_append, stringChars, hread rest]
    simp only [Option.bind_eq_bind, Option.bind_some]
    cases stringChars n rest with
    | none =>
        rfl
    | some read =>
        rfl
  · simp [hplain, stringChars, hcontrol]

/-! ## Quoted texts -/

/-- A quoted text is read back from its escaped characters, whatever follows. -/
theorem stringChars_flatMap (s : List Char) (rest : List Char) (h : s.length < n) :
    stringChars n (s.flatMap escapeChar ++ '"' :: rest) = some (s, rest) := by
  induction s generalizing n with
  | nil =>
      rcases Nat.exists_eq_succ_of_ne_zero (Nat.ne_of_gt h) with ⟨m, rfl⟩
      rfl
  | cons c s ih =>
      rcases Nat.exists_eq_succ_of_ne_zero (Nat.ne_of_gt (Nat.zero_lt_of_lt h)) with ⟨m, rfl⟩
      rw [List.flatMap_cons, List.append_assoc, stringChars_escapeChar,
        ih (Nat.lt_of_succ_lt_succ h)]
      rfl

theorem length_le_length_flatMap_escapeChar (s : List Char) :
    s.length ≤ (s.flatMap escapeChar).length := by
  induction s with
  | nil =>
      exact Nat.le_refl _
  | cons c s ih =>
      have hone : 1 ≤ (escapeChar c).length := by
        rcases escapeChar_cases c with ⟨s, hescaped, -⟩ | ⟨hplain, -⟩
        · simp [hescaped]
        · simp [hplain]
      rw [List.flatMap_cons, List.length_append, List.length_cons]
      omega

/-- A quoted text is read back behind its opening quote, and nothing of what follows it is taken. -/
theorem stringRest_quoted (s rest : List Char) :
    stringRest (s.flatMap escapeChar ++ '"' :: rest) = some (String.ofList s, rest) := by
  have hlength := length_le_length_flatMap_escapeChar s
  have henough : s.length < (s.flatMap escapeChar ++ '"' :: rest).length + 1 := by
    rw [List.length_append]
    omega
  simp only [stringRest, stringChars_flatMap s rest henough, Option.map_some]

/-- Quoted texts can be told from what follows them. -/
theorem quoteChars_append_inj :
    quoteChars s ++ rest = quoteChars t ++ more ↔ s = t ∧ rest = more := by
  constructor
  · intro h
    simp only [quoteChars, List.cons_append, List.append_assoc, List.nil_append,
      List.cons.injEq, true_and] at h
    have hread := congrArg stringRest h
    rw [stringRest_quoted, stringRest_quoted, Option.some.injEq, Prod.mk.injEq,
      String.ofList_inj] at hread
    exact hread
  · rintro ⟨rfl, rfl⟩
    rfl

end Json
end DesignTokens
