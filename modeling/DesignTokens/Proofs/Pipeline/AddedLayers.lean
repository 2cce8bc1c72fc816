import DesignTokens.Proofs.Pipeline.Build
import DesignTokens.Proofs.Pipeline.Identity
import DesignTokens.Proofs.Pipeline.Layers
import DesignTokens.Proofs.Pipeline.Orders

/-!
# Added layers

A new layer gets an order that is one more than the greatest one, so that it is merged after all
others. The greatest order that there is has no successor, and no layer can be added to a pipeline
with a layer of that order: the program panics.
-/

namespace DesignTokens

/-! ## Sorting with one item more -/

namespace Sequence

universe u

variable {α : Type u} {le : α → α → Bool} (htrans : ∀ a b c, le a b → le b c → le a c)
  (htotal : ∀ a b, le a b || le b a) {items : List α} {a : α}

include htrans htotal

/-- Every item of a sorted list is at most the last one. -/
theorem le_of_getLast?_mergeSort (hlast : (items.mergeSort le).getLast? = some a) :
    ∀ b ∈ items, le b a = true := by
  intro b hb
  have hsorted := List.pairwise_mergeSort htrans htotal items
  rcases List.getLast?_eq_some_iff.1 hlast with ⟨front, hsplit⟩
  have hmem : b ∈ front ++ [a] := hsplit ▸ List.mem_mergeSort.2 hb
  rw [hsplit, List.pairwise_append] at hsorted
  rcases List.mem_append.1 hmem with hfront | hself
  · exact hsorted.2.2 b hfront a (List.mem_singleton_self a)
  · rw [List.mem_singleton.1 hself]
    simpa using htotal a a

/-- An item put after all others stays after them when they are sorted, if it is as great as each
of them. -/
theorem getLast?_mergeSort_concat (h : ∀ b ∈ items, le b a = true) :
    ((items ++ [a]).mergeSort le).getLast? = some a := by
  have hself : le a a = true := by simpa using htotal a a
  have hgreatest : ∀ b ∈ items ++ [a], le b a = true := by
    simpa [or_imp, forall_and] using ⟨h, hself⟩
  -- The items that are as great as the new one keep their order, and it is the last of them.
  have halike : ((items ++ [a]).filter (le a)).Pairwise fun b c => le b c = true := by
    refine List.pairwise_of_forall_mem_list fun b hb c hc => ?_
    exact htrans b a c (hgreatest b (List.mem_of_mem_filter hb)) (List.of_mem_filter hc)
  have hfilter : ((items ++ [a]).mergeSort le).filter (le a) = items.filter (le a) ++ [a] := by
    rw [filter_mergeSort htrans htotal, List.mergeSort_of_pairwise halike, List.filter_append,
      List.filter_cons_of_pos hself, List.filter_nil]
  cases hlast : ((items ++ [a]).mergeSort le).getLast? with
  | none =>
      simp [← List.length_eq_zero_iff] at hlast
  | some x =>
      have hax : le a x = true := le_of_getLast?_mergeSort htrans htotal hlast a (by simp)
      rcases List.getLast?_eq_some_iff.1 hlast with ⟨front, hsplit⟩
      rw [hsplit, List.filter_append, List.filter_cons_of_pos hax, List.filter_nil] at hfilter
      exact congrArg some (List.singleton_inj.1 (List.append_inj' hfilter rfl).2)

end Sequence

namespace Pipeline

variable {p q : Pipeline} {keys : List String} {name : String} {required : Bool}
  {slug : String → String}

/-! ## The sequence with a new layer -/

/-- The layers that were there keep their order among themselves. -/
theorem filter_layersInOrder_append (layer : Layer)
    (hfresh : ∀ other ∈ p.layers, other.id ≠ layer.id) :
    { p with layers := p.layers ++ [layer] }.layersInOrder.filter (·.id ≠ layer.id) =
      p.layersInOrder := by
  have hkeep : p.layers.filter (·.id ≠ layer.id) = p.layers :=
    List.filter_eq_self.2 fun other hmem => decide_eq_true (hfresh other hmem)
  rw [layersInOrder, Sequence.filter_mergeSort order_trans order_total, List.filter_append, hkeep]
  simp [layersInOrder]

/-- A layer with an identity of its own and an order after all others comes last. -/
theorem layersInOrder_append {layer : Layer} (hfresh : ∀ other ∈ p.layers, other.id ≠ layer.id)
    (hlast : ∀ order ∈ p.orders, order < layer.order) :
    { p with layers := p.layers ++ [layer] }.layersInOrder = p.layersInOrder ++ [layer] := by
  have hgreatest : ∀ other ∈ p.layers, decide (other.order ≤ layer.order) = true := by
    intro other hmem
    exact decide_eq_true (Int32.le_of_lt (hlast other.order (List.mem_map_of_mem hmem)))
  have hend := Sequence.getLast?_mergeSort_concat order_trans order_total hgreatest
  rcases List.getLast?_eq_some_iff.1 hend with ⟨front, hsplit⟩
  have hperm : (front ++ [layer]).Perm (p.layers ++ [layer]) := hsplit ▸ List.mergeSort_perm _ _
  have hfront : front.filter (·.id ≠ layer.id) = front := by
    refine List.filter_eq_self.2 fun other hmem => decide_eq_true (hfresh other ?_)
    exact ((List.perm_append_right_iff _).1 hperm).subset hmem
  have hothers := filter_layersInOrder_append layer hfresh
  rw [layersInOrder, hsplit, List.filter_append, hfront] at hothers
  have hrest : front = p.layersInOrder := by simpa using hothers
  rw [layersInOrder, hsplit, hrest]

/-! ## What adding a layer does -/

/-- What a new layer is checked for: its name, and the keys that it is bound to. -/
structure Admissible (p : Pipeline) (name : String) (keys : List String) : Prop where
  name_ok : checkName name = .ok ()
  free : p.layerNamed? name = none
  bindings_ok : p.checkBindings name [] keys = .ok ()

/-- A name is refused for other reasons than an overflow. -/
theorem checkName_ne_overflow (name : String) : checkName name ≠ .error .overflow := by
  unfold checkName
  split <;> nofun

/-- Bindings are refused for other reasons than an overflow. -/
theorem checkBindings_ne_overflow (p : Pipeline) (name : String) (seen keys : List String) :
    p.checkBindings name seen keys ≠ .error .overflow := by
  induction keys generalizing seen with
  | nil =>
      simp [checkBindings]
  | cons key rest ih =>
      unfold checkBindings
      split
      · simp
      · split
        · simp
        · exact ih (key :: seen)

/-- Adding a layer panics when the checks accept it and there is no order after all others. Nothing
has been written then. -/
theorem run_addLayer_eq_overflow :
    (addLayer slug name keys required).run p = .error .overflow q ↔
      p.Admissible name keys ∧ p.nextOrder? = none ∧ q = p := by
  simp only [addLayer, Edit.run_check_bind_eq_error, Edit.run_get_bind_eq_error,
    Edit.run_guard_eq_error, checkName_ne_overflow, checkBindings_ne_overflow, false_and,
    false_or, reduceCtorEq, and_false, Option.not_isSome_iff_eq_none]
  cases p.nextOrder? with
  | none =>
      simp only [Edit.run_throw_eq_error, true_and]
      constructor
      · rintro ⟨hname, hfree, hbindings, rfl⟩
        exact ⟨⟨hname, hfree, hbindings⟩, rfl⟩
      · rintro ⟨h, rfl⟩
        exact ⟨h.name_ok, h.free, h.bindings_ok, rfl⟩
  | some order =>
      simp

/-- A layer is added exactly when it is admissible and an order is left for it. -/
theorem exists_run_addLayer_iff :
    (∃ id q, (addLayer slug name keys required).run p = .ok id q) ↔
      p.Admissible name keys ∧ p.nextOrder? ≠ none := by
  simp only [run_addLayer_eq_ok]
  constructor
  · rintro ⟨id, q, hname, hfree, hbindings, -, order, hnext, -⟩
    exact ⟨⟨hname, hfree, hbindings⟩, by simp [hnext]⟩
  · rintro ⟨h, hnext⟩
    rcases Option.ne_none_iff_exists'.1 hnext with ⟨order, hnext⟩
    exact ⟨_, _, h.name_ok, h.free, h.bindings_ok, rfl, order, hnext, rfl⟩

/-- An added layer has an identity of its own, is merged last with an order greater than all others,
and leaves the other layers and their sequence as they were. A layer that passes the checks is added
unless a layer has the greatest order that there is, and then the program panics. -/
theorem addLayer_appends (slug : String → String) (p : Pipeline) (name : String)
    (keys : List String) (required : Bool) :
    (∀ id q, (addLayer slug name keys required).run p = .ok id q →
      ∃ layer, q = { p with layers := p.layers ++ [layer] } ∧ layer.id = id ∧
        (∀ other ∈ p.layers, other.id ≠ id) ∧
        q.layersInOrder = p.layersInOrder ++ [layer] ∧
        ∀ order ∈ p.orders, order < layer.order) ∧
      ((∃ id q, (addLayer slug name keys required).run p = .ok id q) ↔
        p.Admissible name keys ∧ Int32.maxValue ∉ p.orders) ∧
      ∀ q, (addLayer slug name keys required).run p = .error .overflow q ↔
        p.Admissible name keys ∧ Int32.maxValue ∈ p.orders ∧ q = p := by
  refine ⟨fun id q hrun => ?_, ?_, fun q => ?_⟩
  · rcases run_addLayer_eq_ok.1 hrun with ⟨-, -, -, rfl, order, hnext, rfl⟩
    have hfresh : ∀ other ∈ p.layers,
        other.id ≠ ⟨freshId slug "layer" name (p.layers.map (·.id.text))⟩ := by
      intro other hmem heq
      refine freshId_not_mem slug "layer" name (p.layers.map (·.id.text)) ?_
      exact List.mem_map.2 ⟨other, hmem, congrArg LayerId.text heq⟩
    have hlast := (of_nextOrder? hnext).1
    exact ⟨⟨_, name, order, keys, required⟩, rfl, rfl, hfresh,
      layersInOrder_append hfresh hlast, hlast⟩
  · rw [exists_run_addLayer_iff, ne_eq, nextOrder?_eq_none_iff]
  · rw [run_addLayer_eq_overflow, nextOrder?_eq_none_iff]

/-- The order before the greatest one, and a negative one. -/
def highLayers : Pipeline where
  vars := []
  layers := [⟨⟨"layer-top"⟩, "Top", Int32.maxValue - 1, [], false⟩,
    ⟨⟨"layer-base"⟩, "Base", -3, [], false⟩]
  pages := []

theorem addLayer_appends_highLayers :
    highLayers.validate = .ok () ∧
      ∃ id q layer, (addLayer plainSlug "Mid" [] false).run highLayers = .ok id q ∧
        q.layersInOrder = highLayers.layersInOrder ++ [layer] ∧
        ∀ order ∈ highLayers.orders, order < layer.order := by
  rcases addLayer_appends plainSlug highLayers "Mid" [] false with ⟨hadded, haccepted, -⟩
  rcases haccepted.2 ⟨⟨rfl, rfl, rfl⟩, by decide⟩ with ⟨id, q, hrun⟩
  rcases hadded id q hrun with ⟨layer, -, -, -, hsequence, hlast⟩
  exact ⟨by decide, id, q, layer, hrun, hsequence, hlast⟩

def fullLayers : Pipeline where
  vars := []
  layers := [⟨⟨"l"⟩, "L", Int32.maxValue, [], false⟩]
  pages := []

/-- The pipeline is valid and the new layer is refused by no check, but its order overflows. -/
theorem addLayer_fullLayers_overflow :
    fullLayers.validate = .ok () ∧ fullLayers.Admissible "M" [] ∧
      (addLayer plainSlug "M" [] false).run fullLayers = .error .overflow fullLayers :=
  ⟨by decide, ⟨rfl, rfl, rfl⟩, rfl⟩

end Pipeline
end DesignTokens
