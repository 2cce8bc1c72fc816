import DesignTokens.Proofs.Text.LetterCase
import DesignTokens.Text.Alphanumeric

/-!
# Letters and digits in lower case

The lower-case form of a letter or digit has letters and digits only, with one exception: the dotted
capital I becomes an `i` and a combining dot above, and the dot is neither. What is in lower case
stays the same when it is put in lower case once more, the dot included.

Both are checked for the runs of the table and not for each of their code points: the images of a
run lie between those of its ends, as a rule in one range of letters and digits, and away from the
code points of every run.
-/

namespace DesignTokens
namespace Text

variable {run : CaseRun} {code low high : Nat} {c d : Char} {s : List Char}

/-! ## Ranges of letters and digits -/

/-- The code points from one to another lie in a single range of letters and digits. -/
structure AlphanumericSpan (low high : Nat) : Prop where
  beyond : 0x80 ≤ low
  table : ∀ bound ∈ [0x1000, 0x3000, 0x10000, 0x12000], low < bound ↔ high < bound
  range : ((alphanumericRanges low).any fun range =>
    CodeRange.holds range low && CodeRange.holds range high) = true

instance (low high : Nat) : Decidable (AlphanumericSpan low high) :=
  decidable_of_iff (0x80 ≤ low ∧
    (∀ bound ∈ [0x1000, 0x3000, 0x10000, 0x12000], (low < bound ↔ high < bound)) ∧
    ((alphanumericRanges low).any fun range =>
      CodeRange.holds range low && CodeRange.holds range high) = true)
    ⟨fun h => ⟨h.1, h.2.1, h.2.2⟩, fun h => ⟨h.beyond, h.table, h.range⟩⟩

/-- Between two code points of one table there are only code points of this table. -/
theorem alphanumericRanges_eq (h : AlphanumericSpan low high) (hlow : low ≤ code)
    (hhigh : code ≤ high) : alphanumericRanges code = alphanumericRanges low := by
  have hbound : ∀ bound ∈ [0x1000, 0x3000, 0x10000, 0x12000], code < bound ↔ low < bound := by
    intro bound hmem
    have hends := h.table bound hmem
    omega
  simp only [List.forall_mem_cons] at hbound
  simp only [alphanumericRanges, hbound]

/-- Every character between the ends of an alphanumeric span is alphanumeric. -/
theorem AlphanumericSpan.isAlphanumeric (h : AlphanumericSpan low high) (hlow : low ≤ c.toNat)
    (hhigh : c.toNat ≤ high) : isAlphanumeric c = true := by
  have hbeyond : ¬ c.toNat < 0x80 := by
    have hfirst := h.beyond
    omega
  rcases List.any_eq_true.1 h.range with ⟨range, hmem, hends⟩
  rw [Text.isAlphanumeric, if_neg hbeyond, alphanumericRanges_eq h hlow hhigh, List.any_eq_true]
  refine ⟨range, hmem, ?_⟩
  simp only [CodeRange.holds, Bool.and_eq_true, Nat.ble_eq] at hends ⊢
  omega

/-! ## Images of a run -/

/-- A code that a run holds is a number of steps from its first one. -/
theorem CaseRun.exists_of_holds (h : run.holds code = true) :
    ∃ i < (run.last - run.first) / run.step + 1, code = run.first + run.step * i := by
  simp only [CaseRun.holds, Bool.and_eq_true, Nat.ble_eq, beq_iff_eq] at h
  rcases h with ⟨⟨hfirst, hlast⟩, hstep⟩
  have hdivides : run.step * ((code - run.first) / run.step) = code - run.first :=
    Nat.mul_div_cancel' (Nat.dvd_of_mod_eq_zero hstep)
  have hle : (code - run.first) / run.step ≤ (run.last - run.first) / run.step :=
    Nat.div_le_div_right (Nat.sub_le_sub_right hlast run.first)
  exact ⟨(code - run.first) / run.step, Nat.lt_succ_of_le hle, by omega⟩

/-- A run shifts all of its codes alike. -/
theorem CaseRun.Beyond.apply_eq (hrun : run.Beyond) (h : run.first ≤ code) :
    run.apply code = run.apply run.first + (code - run.first) := by
  have hlow := hrun.1
  simp only [CaseRun.apply, Int.ofNat_eq_natCast]
  omega

theorem CaseRun.Beyond.toNat_ofNat_apply (hrun : run.Beyond) (h : run.holds code = true) :
    (Char.ofNat (run.apply code)).toNat = run.apply code := by
  have himage := hrun.toNat_ofNat h
  have hfirst := CaseRun.le_of_holds h
  have hlow := hrun.1
  simp only [CaseRun.apply, Int.ofNat_eq_natCast] at himage ⊢
  omega

/-- The images of the runs are letters and digits: all in one range, or one by one. -/
theorem alphanumericSpan_of_mem_lowerRuns : ∀ run ∈ lowerRuns,
    run.Beyond ∧ AlphanumericSpan (run.apply run.first) (run.apply run.last) ∨
      ∀ i < (run.last - run.first) / run.step + 1,
        isAlphanumeric (Char.ofNat (run.apply (run.first + run.step * i))) = true := by
  decide +kernel

/-- The lower case that a run gives is alphanumeric. -/
theorem isAlphanumeric_apply (hrun : run ∈ lowerRuns) (h : run.holds code = true) :
    isAlphanumeric (Char.ofNat (run.apply code)) = true := by
  rcases alphanumericSpan_of_mem_lowerRuns run hrun with ⟨hbeyond, hspan⟩ | hsingly
  · rcases CaseRun.le_of_holds h with ⟨hfirst, hlast⟩
    have hcode := hbeyond.apply_eq hfirst
    have hend := hbeyond.apply_eq (Nat.le_trans hfirst hlast)
    refine hspan.isAlphanumeric ?_ ?_
    · rw [hbeyond.toNat_ofNat_apply h]
      omega
    · rw [hbeyond.toNat_ofNat_apply h]
      omega
  · rcases CaseRun.exists_of_holds h with ⟨i, hi, rfl⟩
    exact hsingly i hi

/-! ## Letters and digits -/

/-- Lowering an alphanumeric character gives alphanumeric ones, except for the dotted capital. -/
theorem isAlphanumeric_of_mem_lowerChar (hc : isAlphanumeric c = true) (hdot : c ≠ '\u0130')
    (hd : d ∈ lowerChar c) : isAlphanumeric d = true := by
  rcases Nat.lt_or_ge c.toNat 0x80 with hlow | hbeyond
  · have hclass : ∀ c : Char, c.toNat < 0x80 → isAlphanumeric c = true →
        (lowerChar c).all isAlphanumeric = true := forall_toNat_lt (by decide +kernel)
    exact List.all_eq_true.1 (hclass c hlow hc) d hd
  · rw [lowerChar, if_neg (by omega)] at hd
    rcases mapCase_cases lowerRuns lowerExpansions c with
      ⟨entry, hmem, hcode, -⟩ | ⟨run, hmem, hholds, heq⟩ | heq
    · have hentry : ∀ entry ∈ lowerExpansions, entry.1 = 0x130 := by decide
      rw [hentry entry hmem] at hcode
      exact absurd (Char.toNat_inj.1 hcode.symm) hdot
    · rw [heq, List.mem_singleton] at hd
      exact hd ▸ isAlphanumeric_apply hmem hholds
    · rw [heq, List.mem_singleton] at hd
      exact hd ▸ hc

/-- Only the dotted capital I has a lower-case form with something else than letters and digits. -/
theorem forall_isAlphanumeric_lowerChar_iff (hc : isAlphanumeric c = true) :
    (∀ d ∈ lowerChar c, isAlphanumeric d = true) ↔ c ≠ '\u0130' := by
  constructor
  · rintro h rfl
    have hdot : (lowerChar '\u0130').all isAlphanumeric = false := by decide +kernel
    rw [List.all_eq_true.2 h] at hdot
    cases hdot
  · intro hdot d hd
    exact isAlphanumeric_of_mem_lowerChar hc hdot hd

/-! ## Lower case once more -/

/-- The code points that have a lower-case form of their own, the single ones as runs too. -/
def loweredRuns : List CaseRun :=
  lowerExpansions.map (fun entry => ⟨entry.1, entry.1, 1, 0⟩) ++ lowerRuns

/-- None of the code points from `low` on up to `high` in even steps is one of the run: they are
apart, or they lie between those of the run. -/
def CaseRun.skips (run : CaseRun) (low high : Nat) (even : Bool) : Bool :=
  Nat.blt high run.first || Nat.blt run.last low ||
    run.step == 2 && even && (low - run.first) % 2 == 1

/-- One after another the code points of a run have even steps, or there is only one. -/
def CaseRun.even (run : CaseRun) : Bool :=
  run.step % 2 == 0 || run.first == run.last

/-- No run holds what another one that skips it has given. -/
theorem CaseRun.holds_apply_eq_false {other : CaseRun} (hrun : run.Beyond)
    (h : run.holds code = true)
    (hskips : other.skips (run.apply run.first) (run.apply run.last) run.even = true) :
    other.holds (run.apply code) = false := by
  rcases CaseRun.le_of_holds h with ⟨hfirst, hlast⟩
  have hcode := hrun.apply_eq hfirst
  have hend := hrun.apply_eq (Nat.le_trans hfirst hlast)
  rw [Bool.eq_false_iff]
  intro hother
  rcases CaseRun.le_of_holds hother with ⟨hotherFirst, hotherLast⟩
  simp only [CaseRun.skips, Bool.or_eq_true, Nat.blt_eq, Bool.and_eq_true, beq_iff_eq] at hskips
  rcases hskips with (hbelow | habove) | ⟨⟨htwo, heven⟩, hodd⟩
  · omega
  · omega
  · -- an image is an even number away from the first one, and that an odd number from the other run
    have hsteps : (code - run.first) % 2 = 0 := by
      simp only [CaseRun.even, Bool.or_eq_true, beq_iff_eq] at heven
      rcases heven with heven | hsingle
      · rcases CaseRun.exists_of_holds h with ⟨i, -, rfl⟩
        rw [Nat.add_sub_cancel_left, Nat.mul_mod, heven, Nat.zero_mul]
      · omega
    simp only [CaseRun.holds, htwo, Bool.and_eq_true, beq_iff_eq] at hother
    have hmultiple := hother.2
    omega

/-- A character that no run holds is its own lower case. -/
theorem lowerChar_eq_self (hc : 0x80 ≤ c.toNat)
    (h : ∀ run ∈ loweredRuns, run.holds c.toNat = false) : lowerChar c = [c] := by
  have hself : ∀ code : Nat, CaseRun.holds ⟨code, code, 1, 0⟩ code = true := by
    intro code
    simp [CaseRun.holds]
  rw [lowerChar, if_neg (by omega)]
  rcases mapCase_cases lowerRuns lowerExpansions c with
    ⟨entry, hmem, hcode, -⟩ | ⟨run, hmem, hholds, -⟩ | heq
  · have hfalse := h _ (List.mem_append_left _ (List.mem_map_of_mem hmem))
    rw [← hcode, hself] at hfalse
    cases hfalse
  · have hfalse := h run (List.mem_append_right _ hmem)
    rw [hholds] at hfalse
    cases hfalse
  · exact heq

/-- The images of the runs have no lower-case form of their own. -/
theorem skips_of_mem_lowerRuns : ∀ run ∈ lowerRuns,
    run.Beyond ∧ (loweredRuns.all fun other =>
      other.skips (run.apply run.first) (run.apply run.last) run.even) = true ∨
    run.first = run.last ∧ lowerChar (Char.ofNat (run.apply run.first)) =
      [Char.ofNat (run.apply run.first)] := by
  decide +kernel

/-- What is in lower case is its own lower-case form. -/
theorem lowerChar_of_mem_lowerChar (h : d ∈ lowerChar c) : lowerChar d = [d] := by
  rcases Nat.lt_or_ge c.toNat 0x80 with hlow | hbeyond
  · -- ASCII is checked character by character.
    have hclass : ∀ c : Char, c.toNat < 0x80 → lowerChar c.toLower = [c.toLower] :=
      forall_toNat_lt (by decide)
    rw [lowerChar, if_pos hlow, List.mem_singleton] at h
    exact h ▸ hclass c hlow
  · have hform := h
    rw [lowerChar, if_neg (by omega)] at hform
    rcases mapCase_cases lowerRuns lowerExpansions c with
      ⟨entry, hmem, hcode, heq⟩ | ⟨run, hmem, hholds, heq⟩ | heq
    · -- The expansions are checked one by one.
      have hentries : ∀ entry ∈ lowerExpansions, ∀ code ∈ entry.2,
          lowerChar (Char.ofNat code) = [Char.ofNat code] := by decide +kernel
      rw [heq] at hform
      rcases List.mem_map.1 hform with ⟨code, hin, rfl⟩
      exact hentries entry hmem code hin
    · -- No run holds what another one gives.
      rw [heq, List.mem_singleton] at hform
      subst hform
      rcases CaseRun.le_of_holds hholds with ⟨hfirst, hlast⟩
      rcases skips_of_mem_lowerRuns run hmem with ⟨hrun, hskips⟩ | ⟨hsingle, hself⟩
      · refine lowerChar_eq_self ?_ fun other hother => ?_
        · have himage := hrun.toNat_ofNat hholds
          have hstart := hrun.1
          omega
        · rw [hrun.toNat_ofNat_apply hholds]
          exact CaseRun.holds_apply_eq_false hrun hholds (List.all_eq_true.1 hskips other hother)
      · have hcode : c.toNat = run.first := by omega
        rwa [hcode]
    · rw [heq, List.mem_singleton] at hform
      rw [hform, lowerChar, if_neg (by omega), heq]

theorem lower_eq_self (h : ∀ c ∈ s, lowerChar c = [c]) : lower s = s := by
  induction s with
  | nil =>
      rfl
  | cons c s ih =>
      rcases List.forall_mem_cons.1 h with ⟨hc, hs⟩
      rw [lower_cons, hc, ih hs, List.singleton_append]

end Text
end DesignTokens
