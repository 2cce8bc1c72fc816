import DesignTokens.Sequence
import Mathlib.Algebra.BigOperators.Group.List.Basic
import Mathlib.Data.List.Nodup

/-!
# Choices

Choosing one item from each of several lists gives the product of the lists: every combination of
items, once if no list repeats an item, in the lexicographic order of the positions of the items.
-/

namespace DesignTokens
namespace Sequence

universe u v w

variable {α : Type u} {β : Type v} {γ : Type w} {lists : List (List α)}

/-! ## The product -/

/-- A choice is a first item and a choice from the other lists. -/
theorem mem_choices_cons_iff {items choice : List α} :
    choice ∈ choices (items :: lists) ↔
      ∃ a rest, a ∈ items ∧ rest ∈ choices lists ∧ choice = a :: rest := by
  simp only [choices, List.mem_flatMap, List.mem_map]
  constructor
  · rintro ⟨a, ha, rest, hrest, rfl⟩
    exact ⟨a, rest, ha, hrest, rfl⟩
  · rintro ⟨a, rest, ha, hrest, rfl⟩
    exact ⟨a, ha, rest, hrest, rfl⟩

/-- One item taken from each list is a choice. -/
theorem map_mem_choices {pick : β → α} {axis : β → List α} {items : List β}
    (h : ∀ b ∈ items, pick b ∈ axis b) : items.map pick ∈ choices (items.map axis) := by
  induction items with
  | nil =>
      exact List.mem_singleton_self []
  | cons b rest ih =>
      rcases List.forall_mem_cons.1 h with ⟨hb, hrest⟩
      exact mem_choices_cons_iff.2 ⟨pick b, rest.map pick, hb, ih hrest, rfl⟩

/-- A choice shows the keys of its lists, when the items of each list show its key. -/
theorem map_eq_of_mem_choices {view : α → γ} {key : β → γ} {axis : β → List α} {items : List β}
    (hview : ∀ b ∈ items, ∀ a ∈ axis b, view a = key b) {choice : List α}
    (h : choice ∈ choices (items.map axis)) :
    choice.map view = items.map key ∧ ∀ a ∈ choice, ∃ b ∈ items, a ∈ axis b := by
  induction items generalizing choice with
  | nil =>
      have hnil : choice = [] := by simpa [choices] using h
      simp [hnil]
  | cons b rest ih =>
      rcases List.forall_mem_cons.1 hview with ⟨hb, hrest⟩
      rcases mem_choices_cons_iff.1 h with ⟨a, later, ha, hlater, rfl⟩
      rcases ih hrest hlater with ⟨hkeys, hall⟩
      refine ⟨by rw [List.map_cons, List.map_cons, hb a ha, hkeys], ?_⟩
      refine List.forall_mem_cons.2 ⟨⟨b, List.mem_cons_self .., ha⟩, fun other hother => ?_⟩
      rcases hall other hother with ⟨c, hc, hmem⟩
      exact ⟨c, List.mem_cons_of_mem b hc, hmem⟩

theorem nodup_choices (h : ∀ items ∈ lists, items.Nodup) : (choices lists).Nodup := by
  induction lists with
  | nil =>
      exact List.nodup_singleton []
  | cons items lists ih =>
      rcases List.forall_mem_cons.1 h with ⟨hitems, hlists⟩
      refine List.nodup_flatMap.2 ⟨?_, ?_⟩
      · intro a ha
        exact (ih hlists).map fun rest other heq => (List.cons.inj heq).2
      · -- Choices with different first items are different.
        refine hitems.imp fun {a b} hne => ?_
        intro choice hchoice hother
        rcases List.mem_map.1 hchoice with ⟨rest, -, rfl⟩
        rcases List.mem_map.1 hother with ⟨rest', -, heq⟩
        exact hne (List.cons.inj heq).1.symm

/-- Renaming the items of every list renames them in the choices. -/
theorem choices_map (f : α → β) (lists : List (List α)) :
    choices (lists.map (List.map f)) = (choices lists).map (List.map f) := by
  induction lists with
  | nil =>
      rfl
  | cons items rest ih =>
      simp [choices, ih, List.flatMap_map, List.map_flatMap, Function.comp_def]

theorem length_choices (lists : List (List α)) :
    (choices lists).length = (lists.map List.length).prod := by
  induction lists with
  | nil =>
      rfl
  | cons items rest ih =>
      simp [choices, List.length_flatMap, ih]

/-! ## The order -/

/-- The first choice takes the first item of every list. -/
theorem head?_choices (lists : List (List α)) :
    (choices lists).head? = lists.mapM List.head? := by
  induction lists with
  | nil =>
      rfl
  | cons items rest ih =>
      cases items with
      | nil =>
          rfl
      | cons a others =>
          rw [choices, List.mapM_cons, ← ih]
          -- Without a choice from the other lists, no item of the first one has any.
          cases hrest : choices rest with
          | nil =>
              simp
          | cons choice more =>
              simp

/-- Choices are listed by the positions of their items, earlier lists before later ones, when the
items of each list are listed by their positions in it. -/
theorem pairwise_choices {rank : β → α → Nat} {axis : β → List α} {items : List β}
    (h : ∀ b ∈ items, (axis b).Pairwise fun x y => rank b x < rank b y) :
    (choices (items.map axis)).Pairwise fun c d =>
      List.zipWith rank items c < List.zipWith rank items d := by
  induction items with
  | nil =>
      exact List.pairwise_singleton _ _
  | cons b rest ih =>
      rcases List.forall_mem_cons.1 h with ⟨hb, hrest⟩
      rw [List.map_cons, choices, List.pairwise_flatMap]
      refine ⟨fun a _ => ?_, hb.imp fun {x y} hlt => ?_⟩
      · exact List.pairwise_map.2 ((ih hrest).imp fun hlt => List.Lex.cons hlt)
      · intro c hc d hd
        rcases List.mem_map.1 hc with ⟨more, -, rfl⟩
        rcases List.mem_map.1 hd with ⟨more', -, rfl⟩
        exact List.Lex.rel hlt

end Sequence
end DesignTokens
