import DesignTokens.Proofs.Token.Resolution

/-!
# Marked composite tokens

While a composite token is being resolved, aliases of it inside its own value stay as they are. An
alias that leads to the token marks it in this way. Whether it is marked from the start makes a
difference only to a value that leads back to it: the mark stops at the first alias of the token,
and without it this alias is resolved once more.
-/

namespace DesignTokens

namespace Json

/-- A composite value stays composite when its texts are changed. -/
theorem isComposite_mapTexts {value : Json} (h : value.isComposite = true) (f : String → Json) :
    (value.mapTexts f).isComposite = true := by
  cases value with
  | array items =>
      simp [mapTexts, isComposite]
  | object fields =>
      simp [mapTexts, isComposite]
  | _ =>
      cases h

end Json

namespace Alias

variable {lookup : Lookup} {goal : String}

/-- Resolving the value comes upon an alias of the goal: within the budget, and not below an alias
of a composite token that is being resolved. -/
inductive LeadsTo (lookup : Lookup) (goal : String) : Nat → List String → Json → Prop where
  | here {budget : Nat} {expanding : List String} {value : Json} {text : String}
      (mem : text ∈ value.texts) (target : target? text = some goal) (free : goal ∉ expanding) :
      LeadsTo lookup goal (budget + 1) expanding value
  | hop {budget : Nat} {expanding : List String} {value next : Json} {text name : String}
      {type : Option String} (mem : text ∈ value.texts) (target : target? text = some name)
      (free : name ∉ expanding) (found : lookup name = some (next, type))
      (rest : LeadsTo lookup goal budget
        (if next.isComposite then name :: expanding else expanding) next) :
      LeadsTo lookup goal (budget + 1) expanding value

/-- A composite value stays one. -/
theorem expand_ne_string {value : Json} (h : value.isComposite = true) (lookup : Lookup)
    (budget : Nat) (expanding : List String) (text : String) :
    expand lookup budget expanding value ≠ .string text := by
  have hcomposite : (expand lookup budget expanding value).isComposite = true := by
    cases budget with
    | zero =>
        simpa [expand] using h
    | succ budget =>
        rw [expand]
        exact Json.isComposite_mapTexts h _
  intro heq
  rw [heq] at hcomposite
  cases hcomposite

/-! ## One alias -/

section

variable {budget : Nat} {expanding : List String} {text : String}

/-- A value leads to a goal when one of its texts does. -/
theorem leadsTo_iff_exists_text {value : Json} :
    LeadsTo lookup goal (budget + 1) expanding value ↔
      ∃ text ∈ value.texts, LeadsTo lookup goal (budget + 1) expanding (.string text) := by
  constructor
  · intro hleads
    cases hleads with
    | here mem target free =>
        exact ⟨_, mem, .here (List.mem_singleton.2 rfl) target free⟩
    | hop mem target free found rest =>
        exact ⟨_, mem, .hop (List.mem_singleton.2 rfl) target free found rest⟩
  · intro hsome
    rcases hsome with ⟨text, hmem, hleads⟩
    cases hleads with
    | here mem target free =>
        cases List.mem_singleton.1 mem
        exact .here hmem target free
    | hop mem target free found rest =>
        cases List.mem_singleton.1 mem
        exact .hop hmem target free found rest

/-- An alias leads to the goal when it is one of the goal, or when its token leads there. -/
theorem leadsTo_string_iff :
    LeadsTo lookup goal (budget + 1) expanding (.string text) ↔
      ∃ name, target? text = some name ∧ name ∉ expanding ∧
        (name = goal ∨ ∃ next type, lookup name = some (next, type) ∧
          LeadsTo lookup goal budget
            (if next.isComposite then name :: expanding else expanding) next) := by
  constructor
  · intro hleads
    cases hleads with
    | here mem target free =>
        cases List.mem_singleton.1 mem
        exact ⟨goal, target, free, Or.inl rfl⟩
    | hop mem target free found rest =>
        cases List.mem_singleton.1 mem
        exact ⟨_, target, free, Or.inr ⟨_, _, found, rest⟩⟩
  · intro hsome
    rcases hsome with ⟨name, htarget, hfree, rfl | ⟨next, type, hlookup, hrest⟩⟩
    · exact .here (List.mem_singleton.2 rfl) htarget hfree
    · exact .hop (List.mem_singleton.2 rfl) htarget hfree hlookup hrest

end

/-! ## Marks -/

/-- The second list has the mark on the goal, which the first one lacks, and is the same besides. -/
structure Marks (goal : String) (expanding marked : List String) : Prop where
  free : goal ∉ expanding
  mem_iff : ∀ name, name ∈ marked ↔ name = goal ∨ name ∈ expanding

theorem marks_singleton (goal : String) : Marks goal [] [goal] :=
  ⟨List.not_mem_nil, fun name => by simp⟩

/-- Marking another token keeps the goal as it was. -/
theorem Marks.cons {expanding marked : List String} (h : Marks goal expanding marked)
    {name : String} (hne : name ≠ goal) : Marks goal (name :: expanding) (name :: marked) where
  free := by simp [h.free, hne.symm]
  mem_iff other := by simp [h.mem_iff other, or_left_comm]

section

variable {composite : Json} {goalType : Option String} {budget : Nat}
  {expanding marked : List String}

/-- A mark changes what an alias resolves to if and only if the alias leads to what is marked, as
long as this holds for the token of the alias. -/
theorem expand_string_marked_eq_iff (hgoal : lookup goal = some (composite, goalType))
    (hcomposite : composite.isComposite = true) (h : Marks goal expanding marked)
    (ih : ∀ {expanding marked : List String} {value : Json}, Marks goal expanding marked →
      (expand lookup budget expanding value = expand lookup budget marked value ↔
        ¬ LeadsTo lookup goal budget expanding value)) (text : String) :
    expand lookup (budget + 1) expanding (.string text) =
        expand lookup (budget + 1) marked (.string text) ↔
      ¬ LeadsTo lookup goal (budget + 1) expanding (.string text) := by
  rw [leadsTo_string_iff]
  cases htarget : target? text with
  | none =>
      rw [expand_string_of_target?_eq_none htarget, expand_string_of_target?_eq_none htarget]
      simp
  | some name =>
      by_cases hexpanding : name ∈ expanding
      · -- An alias of what is being resolved stays as it is, with the mark and without it.
        have hmarked : name ∈ marked := (h.mem_iff name).2 (Or.inr hexpanding)
        rw [expand_string_of_mem htarget hexpanding, expand_string_of_mem htarget hmarked]
        simp [hexpanding]
      · by_cases hname : name = goal
        · -- Only the mark stops an alias of the goal.
          subst hname
          have hmarked : name ∈ marked := (h.mem_iff name).2 (Or.inl rfl)
          rw [expand_string_of_lookup htarget hexpanding hgoal,
            expand_string_of_mem htarget hmarked]
          refine iff_of_false (expand_ne_string hcomposite _ _ _ _) (not_not_intro ?_)
          exact ⟨name, rfl, hexpanding, Or.inl rfl⟩
        · -- Any other alias is followed, and the mark stays beside those that are added.
          have hmarked : name ∉ marked := by simp [h.mem_iff name, hname, hexpanding]
          cases hlookup : lookup name with
          | none =>
              rw [expand_string_of_lookup_eq_none htarget hlookup,
                expand_string_of_lookup_eq_none htarget hlookup]
              simp [hname, hlookup]
          | some found =>
              rcases found with ⟨next, type⟩
              have hnext : Marks goal (if next.isComposite then name :: expanding else expanding)
                  (if next.isComposite then name :: marked else marked) := by
                cases next.isComposite with
                | true =>
                    exact h.cons hname
                | false =>
                    exact h
              rw [expand_string_of_lookup htarget hexpanding hlookup,
                expand_string_of_lookup htarget hmarked hlookup, ih hnext]
              simp [hname, hexpanding, hlookup]

/-- A mark on a composite token changes what a value resolves to if and only if the value leads to
the token. -/
theorem expand_marked_eq_iff (hgoal : lookup goal = some (composite, goalType))
    (hcomposite : composite.isComposite = true) {value : Json}
    (h : Marks goal expanding marked) :
    expand lookup budget expanding value = expand lookup budget marked value ↔
      ¬ LeadsTo lookup goal budget expanding value := by
  -- Both sides see the same aliases until one of these is an alias of the goal.
  induction budget generalizing expanding marked value with
  | zero =>
      refine iff_of_true (by simp [expand]) fun hleads => ?_
      cases hleads
  | succ budget ih =>
      rw [expand_eq_mapTexts lookup budget expanding, expand_eq_mapTexts lookup budget marked,
        Json.mapTexts_eq_iff, leadsTo_iff_exists_text]
      simp only [expand_string_marked_eq_iff hgoal hcomposite h ih, not_exists, not_and]

end

end Alias
end DesignTokens
