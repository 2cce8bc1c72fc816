import DesignTokens.Text.LetterCase
import Mathlib.Data.List.Basic

/-!
# Letters with a form in ASCII

The tables of letter case lead from letters beyond ASCII to letters beyond ASCII, but for a few: the
Kelvin sign is a `k` in lower case, and the sharp s, the dotless i, the long s and the ligatures of
Latin letters are letters of ASCII in upper case. What is in ASCII is always a letter, so that no
mapping brings in a digit or a punctuation mark.
-/

namespace DesignTokens
namespace Text

/-- What is true of the characters with small code points can be checked one by one. -/
theorem forall_toNat_lt {bound : Nat} {P : Char → Prop} (h : ∀ n < bound, P (Char.ofNat n)) :
    ∀ c : Char, c.toNat < bound → P c := by
  intro c hc
  simpa using h c.toNat hc

theorem isAlpha_of_isLower {c : Char} (h : c.isLower = true) : c.isAlpha = true :=
  Bool.or_eq_true_iff.2 (.inr h)

theorem isAlphanum_of_isAlpha {c : Char} (h : c.isAlpha = true) : c.isAlphanum = true :=
  Bool.or_eq_true_iff.2 (.inl h)

theorem isAlphanum_of_isDigit {c : Char} (h : c.isDigit = true) : c.isAlphanum = true :=
  Bool.or_eq_true_iff.2 (.inr h)

theorem toNat_lt_of_isAlphanum {c : Char} (h : c.isAlphanum = true) : c.toNat < 0x80 := by
  have hbound : ∀ {high : UInt32}, high.toNat < 0x80 → c.val ≤ high → c.toNat < 0x80 :=
    fun hhigh hle => Nat.lt_of_le_of_lt (UInt32.le_iff_toNat_le.1 hle) hhigh
  rcases Bool.or_eq_true_iff.1 h with hletter | hdigit
  · rcases Bool.or_eq_true_iff.1 hletter with hupper | hlower
    · exact hbound (by decide) (of_decide_eq_true hupper).2
    · exact hbound (by decide) (of_decide_eq_true (Bool.and_eq_true_iff.1 hlower).2)
  · exact hbound (by decide) (of_decide_eq_true (Bool.and_eq_true_iff.1 hdigit).2)

theorem isDigit_eq_false_of_le {c : Char} (h : 0x80 ≤ c.toNat) : c.isDigit = false := by
  rw [Bool.eq_false_iff]
  intro hdigit
  have hlow := toNat_lt_of_isAlphanum (isAlphanum_of_isDigit hdigit)
  omega

theorem isDigit_eq_false_of_isAlpha {c : Char} (h : c.isAlpha = true) : c.isDigit = false := by
  have hclass : ∀ c : Char, c.toNat < 0x80 → c.isAlpha = true → c.isDigit = false :=
    forall_toNat_lt (by decide)
  exact hclass c (toNat_lt_of_isAlphanum (isAlphanum_of_isAlpha h)) h

/-! ## Images of the tables -/

/-- The form of a character: not empty, with letters only in ASCII, and with something beyond ASCII
unless the character is one of the exceptions. -/
def Formed (exceptions : List Nat) (code : Nat) (form : List Char) : Prop :=
  form ≠ [] ∧ (∀ d ∈ form, 0x80 ≤ d.toNat ∨ d.isAlpha = true) ∧
    ((∀ d ∈ form, d.toNat < 0x80) → code ∈ exceptions)

instance (exceptions : List Nat) (code : Nat) (form : List Char) :
    Decidable (Formed exceptions code form) :=
  decidable_of_iff (form ≠ [] ∧ (form.all fun d => 0x80 ≤ d.toNat || d.isAlpha) = true ∧
    ((form.all fun d => d.toNat < 0x80) = true → code ∈ exceptions)) (by simp [Formed])

/-- The code points from the first image of a run to the last are characters beyond ASCII. -/
def CaseRun.Beyond (run : CaseRun) : Prop :=
  0x80 ≤ run.first + run.shift ∧
    (run.last + run.shift < 0xD800 ∨
      0xDFFF < run.first + run.shift ∧ run.last + run.shift < 0x110000)

instance (run : CaseRun) : Decidable run.Beyond :=
  inferInstanceAs (Decidable (_ ∧ _))

variable {run : CaseRun} {runs : List CaseRun} {expansions : List (Nat × List Nat)}
  {exceptions : List Nat} {code : Nat} {c d : Char}

theorem CaseRun.le_of_holds (h : run.holds code = true) : run.first ≤ code ∧ code ≤ run.last := by
  simp only [CaseRun.holds, Bool.and_eq_true, Nat.ble_eq] at h
  exact h.1

/-- A run that stays beyond ASCII and within the characters shifts every code that it holds. -/
theorem CaseRun.Beyond.toNat_ofNat (hrun : run.Beyond) (h : run.holds code = true) :
    ((Char.ofNat (run.apply code)).toNat : Int) = code + run.shift := by
  rcases CaseRun.le_of_holds h with ⟨hfirst, hlast⟩
  rcases hrun with ⟨hlow, hvalid⟩
  have happly : (run.apply code : Int) = code + run.shift := by
    simp only [CaseRun.apply, Int.ofNat_eq_natCast]
    omega
  have hchar : (run.apply code).isValidChar := by
    unfold Nat.isValidChar
    omega
  have hself : (Char.ofNat (run.apply code)).toNat = run.apply code := by
    rw [Char.ofNat, dif_pos hchar]
    rfl
  rw [hself, happly]

/-- A form does not begin with a digit. -/
theorem Formed.exists_eq_cons {form : List Char} (h : Formed exceptions code form) :
    ∃ d rest, form = d :: rest ∧ d.isDigit = false := by
  rcases form with _ | ⟨d, rest⟩
  · exact absurd rfl h.1
  · refine ⟨d, rest, rfl, ?_⟩
    rcases h.2.1 d List.mem_cons_self with hbeyond | halpha
    · exact isDigit_eq_false_of_le hbeyond
    · exact isDigit_eq_false_of_isAlpha halpha

theorem formed_singleton (hd : 0x80 ≤ d.toNat) : Formed exceptions code [d] := by
  have hnot : ¬ d.toNat < 0x80 := by omega
  simp [Formed, hd, hnot]

/-- A case mapping comes from an expansion, from a run, or leaves the character. -/
theorem mapCase_cases (runs : List CaseRun) (expansions : List (Nat × List Nat)) (c : Char) :
    (∃ entry ∈ expansions, entry.1 = c.toNat ∧
      mapCase runs expansions c = entry.2.map Char.ofNat) ∨
    (∃ run ∈ runs, run.holds c.toNat = true ∧
      mapCase runs expansions c = [Char.ofNat (run.apply c.toNat)]) ∨
    mapCase runs expansions c = [c] := by
  unfold mapCase
  cases hentry : expansions.find? (·.1 == c.toNat) with
  | some entry =>
      have hcode : entry.1 = c.toNat := by simpa using List.find?_some hentry
      exact .inl ⟨entry, List.mem_of_find?_eq_some hentry, hcode, rfl⟩
  | none =>
      cases hrun : runs.find? (·.holds c.toNat) with
      | some run =>
          have hholds : run.holds c.toNat = true := by simpa using List.find?_some hrun
          exact .inr (.inl ⟨run, List.mem_of_find?_eq_some hrun, hholds, rfl⟩)
      | none =>
          exact .inr (.inr rfl)

/-- A case mapping gives the form of a character when its expansions and runs do. -/
theorem formed_mapCase
    (hexpansions : ∀ entry ∈ expansions, Formed exceptions entry.1 (entry.2.map Char.ofNat))
    (hruns : ∀ run ∈ runs, run.Beyond ∨
      run.first = run.last ∧ Formed exceptions run.first [Char.ofNat (run.apply run.first)])
    (hc : 0x80 ≤ c.toNat) : Formed exceptions c.toNat (mapCase runs expansions c) := by
  rcases mapCase_cases runs expansions c with
    ⟨entry, hmem, hcode, heq⟩ | ⟨run, hmem, hholds, heq⟩ | heq
  · rw [heq, ← hcode]
    exact hexpansions entry hmem
  · rw [heq]
    rcases CaseRun.le_of_holds hholds with ⟨hfirst, hlast⟩
    rcases hruns run hmem with hbeyond | ⟨hsingle, hform⟩
    · refine formed_singleton ?_
      have himage := hbeyond.toNat_ofNat hholds
      have hlow := hbeyond.1
      omega
    -- a run of one code point has been checked as it is
    · have hcode : run.first = c.toNat := by omega
      rwa [hcode] at hform
  · rw [heq]
    exact formed_singleton hc

/-! ## Lower case -/

/-- Beyond ASCII only the Kelvin sign lowers to ASCII alone. -/
theorem formed_lowerChar (hc : 0x80 ≤ c.toNat) : Formed [0x212A] c.toNat (lowerChar c) := by
  rw [lowerChar, if_neg (by omega)]
  exact formed_mapCase (by decide +kernel) (by decide +kernel) hc

theorem exists_lowerChar_eq_cons (c : Char) :
    ∃ d rest, lowerChar c = d :: rest ∧ d.isDigit = c.isDigit := by
  rcases Nat.lt_or_ge c.toNat 0x80 with hc | hc
  · have hdigit : ∀ c : Char, c.toNat < 0x80 → c.toLower.isDigit = c.isDigit :=
      forall_toNat_lt (by decide)
    exact ⟨c.toLower, [], by rw [lowerChar, if_pos hc], hdigit c hc⟩
  · rw [isDigit_eq_false_of_le hc]
    exact (formed_lowerChar hc).exists_eq_cons

/-- The letters beyond ASCII whose upper-case forms are in ASCII. -/
def asciiUppers : List Nat :=
  [0xDF, 0x131, 0x17F, 0xFB00, 0xFB01, 0xFB02, 0xFB03, 0xFB04, 0xFB05, 0xFB06]

/-- Of these only the sharp s is a lower-case form of another letter, its capital. -/
theorem toNat_eq_of_mem_lowerChar (hc : 0x80 ≤ c.toNat) (hd : d ∈ lowerChar c)
    (hupper : d.toNat ∈ asciiUppers) : c.toNat = 0x1E9E ∨ c.toNat = d.toNat := by
  have hexpansions : ∀ entry ∈ lowerExpansions,
      ∀ code ∈ entry.2, (Char.ofNat code).toNat ∉ asciiUppers := by decide +kernel
  have hruns : ∀ run ∈ lowerRuns, run.first = 0x1E9E ∧ run.last = 0x1E9E ∨
      (run.Beyond ∧ ∀ code ∈ asciiUppers, code < run.first + run.shift ∨
        run.last + run.shift < code) ∨
      run.first = run.last ∧ (Char.ofNat (run.apply run.first)).toNat ∉ asciiUppers := by
    decide +kernel
  rw [lowerChar, if_neg (by omega)] at hd
  rcases mapCase_cases lowerRuns lowerExpansions c with
    ⟨entry, hmem, hcode, heq⟩ | ⟨run, hmem, hholds, heq⟩ | heq
  · rw [heq] at hd
    rcases List.mem_map.1 hd with ⟨code, hin, rfl⟩
    exact absurd hupper (hexpansions entry hmem code hin)
  · rw [heq, List.mem_singleton] at hd
    subst hd
    rcases CaseRun.le_of_holds hholds with ⟨hfirst, hlast⟩
    rcases hruns run hmem with hsharp | ⟨hbeyond, hapart⟩ | ⟨hsingle, hnot⟩
    · exact .inl (by omega)
    -- the images of a run lie between those of its ends, where none of these letters is
    · have himage := hbeyond.toNat_ofNat hholds
      have hcode := hapart _ hupper
      omega
    · have hcode : run.first = c.toNat := by omega
      rw [hcode] at hnot
      exact absurd hupper hnot
  · rw [heq, List.mem_singleton] at hd
    exact .inr (congrArg Char.toNat hd.symm)

/-! ## Upper case -/

/-- Beyond ASCII a few characters raise to ASCII alone, the sharp s and the ligatures among them. -/
theorem formed_upperChar (hc : 0x80 ≤ c.toNat) : Formed asciiUppers c.toNat (upperChar c) := by
  rw [upperChar, if_neg (by omega)]
  exact formed_mapCase (by decide +kernel) (by decide +kernel) hc

theorem exists_upperChar_eq_cons (c : Char) :
    ∃ d rest, upperChar c = d :: rest ∧ d.isDigit = c.isDigit := by
  rcases Nat.lt_or_ge c.toNat 0x80 with hc | hc
  · have hdigit : ∀ c : Char, c.toNat < 0x80 → c.toUpper.isDigit = c.isDigit :=
      forall_toNat_lt (by decide)
    exact ⟨c.toUpper, [], by rw [upperChar, if_pos hc], hdigit c hc⟩
  · rw [isDigit_eq_false_of_le hc]
    exact (formed_upperChar hc).exists_eq_cons

end Text
end DesignTokens
