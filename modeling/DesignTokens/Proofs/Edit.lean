import DesignTokens.Edit
import Mathlib.Logic.Basic

/-!
# Runs of edits

A run of an edit is taken apart step by step: an accepted run of `x >>= f` is one of `x` followed by
one of `f`, and a guard that refuses leaves no accepted run. The lemmas are stated for the outcomes
`.ok` and `.error`, so that simplifying with them turns an edit into its guards and its last write.

An edit is atomic when a refusal leaves the state as it was. Edits that read and check before they
write once are atomic.
-/

namespace DesignTokens
namespace Edit

variable {ε σ α β : Type} {s s' : σ} {a a' : α} {b : β} {e e' : ε}

/-! ## Accepted runs -/

theorem run_pure_eq_ok : (pure a : Edit ε σ α).run s = .ok a' s' ↔ a = a' ∧ s = s' := by
  simp [pure, EStateM.pure, EStateM.run]

theorem run_throw_eq_ok : (throw e : Edit ε σ α).run s = .ok a s' ↔ False := by
  constructor
  · intro h
    cases h
  · exact False.elim

theorem run_get_eq_ok {t : σ} : (get : Edit ε σ σ).run s = .ok t s' ↔ s = t ∧ s = s' := by
  constructor
  · intro h
    cases h
    exact ⟨rfl, rfl⟩
  · rintro ⟨rfl, rfl⟩
    rfl

theorem run_set_eq_ok {t : σ} {u : PUnit} :
    (set t : Edit ε σ PUnit).run s = .ok u s' ↔ t = s' := by
  constructor
  · intro h
    cases h
    rfl
  · rintro rfl
    rfl

theorem run_modify_eq_ok {change : σ → σ} {u : PUnit} :
    (modify change : Edit ε σ PUnit).run s = .ok u s' ↔ change s = s' := by
  constructor
  · intro h
    cases h
    rfl
  · rintro rfl
    rfl

/-- A check succeeds with what it checked and keeps the state. -/
theorem run_check_eq_ok {outcome : Except ε α} :
    (check outcome : Edit ε σ α).run s = .ok a s' ↔ outcome = .ok a ∧ s = s' := by
  cases outcome <;> simp

/-- An accepted sequence is two accepted edits with a state between them. -/
theorem run_bind_eq_ok {x : Edit ε σ α} {f : α → Edit ε σ β} :
    (x >>= f).run s = .ok b s' ↔ ∃ a t, x.run s = .ok a t ∧ (f a).run t = .ok b s' := by
  simp only [bind, EStateM.bind, EStateM.run]
  cases x s with
  | ok a t =>
      simp only [EStateM.Result.ok.injEq]
      constructor
      · intro h
        exact ⟨a, t, ⟨rfl, rfl⟩, h⟩
      · rintro ⟨_, _, ⟨rfl, rfl⟩, h⟩
        exact h
  | error e t =>
      simp

/-- An accepted edit behind a check has passed the check. -/
theorem run_check_bind_eq_ok {outcome : Except ε Unit} {f : Unit → Edit ε σ β} :
    (check outcome >>= f).run s = .ok b s' ↔ outcome = .ok () ∧ (f ()).run s = .ok b s' := by
  simp only [run_bind_eq_ok, run_check_eq_ok]
  constructor
  · rintro ⟨_, _, ⟨hok, rfl⟩, hrest⟩
    exact ⟨hok, hrest⟩
  · rintro ⟨hok, hrest⟩
    exact ⟨(), s, ⟨hok, rfl⟩, hrest⟩

theorem run_get_bind_eq_ok {f : σ → Edit ε σ β} :
    (get >>= f).run s = .ok b s' ↔ (f s).run s = .ok b s' :=
  Iff.rfl

theorem run_set_bind_eq_ok {t : σ} {f : PUnit → Edit ε σ β} :
    (set t >>= f).run s = .ok b s' ↔ (f ⟨⟩).run t = .ok b s' :=
  Iff.rfl

theorem run_modify_bind_eq_ok {change : σ → σ} {f : PUnit → Edit ε σ β} :
    (modify change >>= f).run s = .ok b s' ↔ (f ⟨⟩).run (change s) = .ok b s' :=
  Iff.rfl

/-- A guard that refuses has no accepted run. -/
theorem run_guard_eq_ok {c : Prop} [Decidable c] {f : α → Edit ε σ β} {x : Edit ε σ β} :
    (if c then throw e >>= f else x).run s = .ok b s' ↔ ¬c ∧ x.run s = .ok b s' := by
  by_cases hc : c
  · simp only [hc, if_true, not_true, false_and, run_bind_eq_ok, run_throw_eq_ok, exists_false]
  · simp [hc]

/-- An edit of a part is accepted as that of the part alone is. -/
theorem run_onPart_eq_ok {δ τ : Type} {part : σ → τ} {replace : τ → σ → σ} {wrap : δ → ε}
    {edit : Edit δ τ α} :
    (onPart part replace wrap edit).run s = .ok a s' ↔
      ∃ t, edit.run (part s) = .ok a t ∧ replace t s = s' := by
  simp only [onPart, EStateM.run]
  cases edit (part s) with
  | ok b t =>
      simp only [EStateM.Result.ok.injEq]
      constructor
      · rintro ⟨rfl, rfl⟩
        exact ⟨t, ⟨rfl, rfl⟩, rfl⟩
      · rintro ⟨_, ⟨rfl, rfl⟩, rfl⟩
        exact ⟨rfl, rfl⟩
  | error e t =>
      simp

/-! ## Refusals -/

def Atomic (edit : Edit ε σ α) : Prop :=
  ∀ s s' e, edit.run s = .error e s' → s' = s

def ReadOnly (edit : Edit ε σ α) : Prop :=
  Atomic edit ∧ ∀ s s' a, edit.run s = .ok a s' → s' = s

def Total (edit : Edit ε σ α) : Prop :=
  ∀ s s' e, edit.run s ≠ .error e s'

/-- A sequence is refused by its first edit, or by its second one after the first was accepted. -/
theorem run_bind_eq_error {x : Edit ε σ α} {f : α → Edit ε σ β} :
    (x >>= f).run s = .error e s' ↔
      x.run s = .error e s' ∨ ∃ a t, x.run s = .ok a t ∧ (f a).run t = .error e s' := by
  simp only [bind, EStateM.bind, EStateM.run]
  cases x s with
  | ok a t =>
      simp only [EStateM.Result.ok.injEq, reduceCtorEq, false_or]
      constructor
      · intro h
        exact ⟨a, t, ⟨rfl, rfl⟩, h⟩
      · rintro ⟨_, _, ⟨rfl, rfl⟩, h⟩
        exact h
  | error e t =>
      simp

theorem run_throw_eq_error : (throw e : Edit ε σ α).run s = .error e' s' ↔ e = e' ∧ s = s' := by
  change EStateM.Result.error e s = .error e' s' ↔ _
  simp

/-- An edit behind a check is refused by the check or by the edit. -/
theorem run_check_bind_eq_error {outcome : Except ε Unit} {f : Unit → Edit ε σ β} :
    (check outcome >>= f).run s = .error e s' ↔
      outcome = .error e ∧ s = s' ∨ outcome = .ok () ∧ (f ()).run s = .error e s' := by
  cases outcome with
  | error other => simp
  | ok u => simp

theorem run_get_bind_eq_error {f : σ → Edit ε σ β} :
    (get >>= f).run s = .error e s' ↔ (f s).run s = .error e s' :=
  Iff.rfl

/-- An edit behind a guard is refused by the guard, or in its own way. -/
theorem run_guard_eq_error {c : Prop} [Decidable c] {f : α → Edit ε σ β} {x : Edit ε σ β} :
    (if c then throw e >>= f else x).run s = .error e' s' ↔
      c ∧ e = e' ∧ s = s' ∨ ¬c ∧ x.run s = .error e' s' := by
  by_cases hc : c
  · rw [if_pos hc]
    change EStateM.Result.error e s = .error e' s' ↔ _
    simp [hc]
  · simp [hc]

theorem readOnly_pure : ReadOnly (pure a : Edit ε σ α) := by
  refine ⟨?_, ?_⟩
  · intro s s' e h
    cases h
  · intro s s' b h
    exact (run_pure_eq_ok.1 h).2.symm

theorem readOnly_throw : ReadOnly (throw e : Edit ε σ α) := by
  refine ⟨?_, ?_⟩
  · intro s s' e' h
    have := (EStateM.Result.error.inj h).2
    exact this.symm
  · intro s s' a h
    exact (run_throw_eq_ok.1 h).elim

theorem readOnly_get : ReadOnly (get : Edit ε σ σ) := by
  refine ⟨?_, ?_⟩
  · intro s s' e h
    cases h
  · intro s s' t h
    exact (run_get_eq_ok.1 h).2.symm

theorem total_pure : Total (pure a : Edit ε σ α) := by
  intro s s' e h
  cases h

theorem total_modify {change : σ → σ} : Total (modify change : Edit ε σ PUnit) := by
  intro s s' e h
  cases h

theorem atomic_pure : Atomic (pure a : Edit ε σ α) :=
  readOnly_pure.1

theorem atomic_throw : Atomic (throw e : Edit ε σ α) :=
  readOnly_throw.1

theorem atomic_set {t : σ} : Atomic (set t : Edit ε σ PUnit) := by
  intro s s' e h
  cases h

theorem atomic_modify {change : σ → σ} : Atomic (modify change : Edit ε σ PUnit) := by
  intro s s' e h
  cases h

theorem readOnly_check {outcome : Except ε α} : ReadOnly (check outcome : Edit ε σ α) := by
  cases outcome with
  | ok a =>
      exact readOnly_pure
  | error e =>
      exact readOnly_throw

/-- An edit that only reads and then goes on atomically is atomic. -/
theorem ReadOnly.atomic_bind {x : Edit ε σ α} {f : α → Edit ε σ β} (hx : ReadOnly x)
    (hf : ∀ a, Atomic (f a)) : Atomic (x >>= f) := by
  intro s s' e h
  rcases run_bind_eq_error.1 h with herror | ⟨a, t, hok, herror⟩
  · exact hx.1 s s' e herror
  · rw [← hx.2 s t a hok]
    exact hf a t s' e herror

/-- Edits that only read stay so in sequence. -/
theorem ReadOnly.bind {x : Edit ε σ α} {f : α → Edit ε σ β} (hx : ReadOnly x)
    (hf : ∀ a, ReadOnly (f a)) : ReadOnly (x >>= f) := by
  refine ⟨hx.atomic_bind fun a => (hf a).1, ?_⟩
  intro s s' b h
  rcases run_bind_eq_ok.1 h with ⟨a, t, hok, hrest⟩
  rw [← hx.2 s t a hok]
  exact (hf a).2 t s' b hrest

theorem Atomic.ite {c : Prop} [Decidable c] {x y : Edit ε σ α} (hx : Atomic x) (hy : Atomic y) :
    Atomic (if c then x else y) := by
  by_cases hc : c
  · simpa [hc] using hx
  · simpa [hc] using hy

theorem atomic_throw_bind {f : α → Edit ε σ β} : Atomic (throw e >>= f : Edit ε σ β) := by
  intro s s' e' h
  rcases run_bind_eq_error.1 h with herror | ⟨_, _, hok, _⟩
  · exact readOnly_throw.1 s s' e' herror
  · exact (run_throw_eq_ok.1 hok).elim

/-- What follows the last write must not refuse any more. -/
theorem Atomic.bind_total {x : Edit ε σ α} {f : α → Edit ε σ β} (hx : Atomic x)
    (hf : ∀ a, Total (f a)) : Atomic (x >>= f) := by
  intro s s' e h
  rcases run_bind_eq_error.1 h with herror | ⟨a, t, _, herror⟩
  · exact hx s s' e herror
  · exact absurd herror (hf a t s' e)

/-! ## The state after an edit -/

theorem stateAfter_of_ok {edit : Edit ε σ α} (h : edit.run s = .ok a s') :
    edit.stateAfter s = s' := by
  simp [stateAfter, h]

theorem stateAfter_of_error {edit : Edit ε σ α} (h : edit.run s = .error e s') :
    edit.stateAfter s = s' := by
  simp [stateAfter, h]

theorem run_eq_ok_of_result {edit : Edit ε σ α} (h : (edit.result s).toOption = some a) :
    edit.run s = .ok a (edit.stateAfter s) := by
  -- A result can be evaluated where the state after the edit is not compared.
  unfold result at h
  unfold stateAfter
  cases hrun : edit.run s with
  | ok b t =>
      have hsame : b = a := by simpa [hrun, Except.toOption] using h
      rw [hsame]
  | error e t =>
      simp [hrun, Except.toOption] at h

def void (edit : Edit ε σ α) : Edit ε σ Unit :=
  edit >>= fun _ => pure ()

theorem stateAfter_void (edit : Edit ε σ α) (s : σ) :
    edit.void.stateAfter s = edit.stateAfter s := by
  simp only [void, stateAfter, bind, EStateM.bind, EStateM.run]
  cases edit s with
  | ok a t =>
      rfl
  | error e t =>
      rfl

theorem run_void_eq_ok {edit : Edit ε σ α} {u : Unit} :
    edit.void.run s = .ok u s' ↔ ∃ a, edit.run s = .ok a s' := by
  rw [void, run_bind_eq_ok]
  constructor
  · intro h
    rcases h with ⟨a, t, hrun, hpure⟩
    exact ⟨a, (run_pure_eq_ok.1 hpure).2 ▸ hrun⟩
  · intro h
    rcases h with ⟨a, hrun⟩
    exact ⟨a, s', hrun, rfl⟩

theorem Atomic.void {edit : Edit ε σ α} (h : Atomic edit) : Atomic edit.void :=
  h.bind_total fun _ => total_pure

/-- An atomic edit is accepted or leaves the state as it was. -/
theorem Atomic.stateAfter_cases {edit : Edit ε σ α} (h : Atomic edit) (s : σ) :
    (∃ a, edit.run s = .ok a (edit.stateAfter s)) ∨ edit.stateAfter s = s := by
  unfold stateAfter
  cases hrun : edit.run s with
  | ok a t =>
      exact Or.inl ⟨a, rfl⟩
  | error e t =>
      exact Or.inr (h s t e hrun)

/-- An atomic edit keeps what all its accepted runs keep. -/
theorem Atomic.holds_stateAfter {edit : Edit ε σ α} (hatomic : Atomic edit) {holds : σ → Prop}
    (h : holds s) (haccepted : ∀ {a t}, edit.run s = .ok a t → holds t) :
    holds (edit.stateAfter s) := by
  rcases hatomic.stateAfter_cases s with ⟨a, hrun⟩ | hsame
  · exact haccepted hrun
  · rw [hsame]
    exact h

/-- Whatever the outcome, the states before and after the edit are related. -/
def Keeps (related : σ → σ → Prop) (edit : Edit ε σ α) : Prop :=
  ∀ s, related s (edit.stateAfter s)

theorem ReadOnly.stateAfter {edit : Edit ε σ α} (h : ReadOnly edit) (s : σ) :
    edit.stateAfter s = s := by
  unfold Edit.stateAfter
  cases hrun : edit.run s with
  | ok a t =>
      exact h.2 s t a hrun
  | error e t =>
      exact h.1 s t e hrun

theorem stateAfter_bind_of_error {x : Edit ε σ α} {f : α → Edit ε σ β} (h : x.run s = .error e s') :
    (x >>= f).stateAfter s = s' :=
  stateAfter_of_error (run_bind_eq_error.2 (Or.inl h))

/-- The state after a sequence whose first edit is accepted. -/
theorem stateAfter_bind_of_ok {x : Edit ε σ α} {f : α → Edit ε σ β} (h : x.run s = .ok a s') :
    (x >>= f).stateAfter s = (f a).stateAfter s' := by
  simp only [stateAfter, bind, EStateM.bind, EStateM.run] at h ⊢
  rw [h]

/-- An edit that only reads keeps every reflexive relation. -/
theorem ReadOnly.keeps {related : σ → σ → Prop} {edit : Edit ε σ α} (h : ReadOnly edit)
    (hrefl : ∀ s, related s s) : Keeps related edit := by
  intro s
  rw [h.stateAfter s]
  exact hrefl s

/-- A relation that is transitive and kept by two edits is kept by their sequence. -/
theorem Keeps.bind {related : σ → σ → Prop} {x : Edit ε σ α} {f : α → Edit ε σ β}
    (htrans : ∀ {s t u}, related s t → related t u → related s u) (hx : Keeps related x)
    (hf : ∀ a, Keeps related (f a)) : Keeps related (x >>= f) := by
  intro s
  have hfirst := hx s
  -- The second edit only starts when the first one is accepted.
  cases hrun : x.run s with
  | ok a t =>
      rw [stateAfter_bind_of_ok hrun]
      simp only [stateAfter, hrun] at hfirst
      exact htrans hfirst (hf a t)
  | error e t =>
      rw [stateAfter_bind_of_error hrun]
      simpa only [stateAfter, hrun] using hfirst

end Edit
end DesignTokens
