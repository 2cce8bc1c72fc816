import DesignTokens.Proofs.Pipeline.Consistency
import Mathlib

/-!
# The order of layers

The layers of a pipeline are stored as they are merged: their orders ascend strictly along the list.
New layers come last, and moving a layer sorts and numbers all of them anew.

Orders are fixed-width numbers, and the greatest one has no successor: no layer can be added after
it. A run makes no order that is as great as the number of its mutations, so that only a run with as
many mutations as there are orders can get there.
-/

namespace DesignTokens

/-- Adding one to an order overflows at the greatest order, and at no other. -/
theorem Int32.toInt_succ_iff {order : Int32} :
    (order + 1).toInt = order.toInt + 1 ↔ order ≠ Int32.maxValue := by
  have hone : (1 : Int32).toInt = 1 := rfl
  have hgreatest : Int32.maxValue.toInt = 2 ^ 31 - 1 := rfl
  have hmin := Int32.le_toInt order
  have hmax := Int32.toInt_lt order
  rw [Int32.toInt_add, hone, ne_eq, ← Int32.toInt_inj, hgreatest]
  constructor
  · intro hsucc heq
    rw [heq] at hsucc
    exact absurd hsucc (by decide)
  · intro hne
    exact Int.bmod_eq_of_le (by omega) (by omega)

instance lawfulOrderMaxInt32 : Std.LawfulOrderMax Int32 where
  max_eq_or a b := by
    change (if a ≤ b then b else a) = a ∨ (if a ≤ b then b else a) = b
    by_cases hab : a ≤ b
    · exact Or.inr (if_pos hab)
    · exact Or.inl (if_neg hab)
  max_le_iff a b c := by
    change (if a ≤ b then b else a) ≤ c ↔ a ≤ c ∧ b ≤ c
    simp only [Int32.le_iff_toInt_le]
    split <;> omega

/-- Orders that ascend strictly, from zero on and below a bound. -/
structure Ascends (orders : List Int32) (bound : Nat) : Prop where
  pairwise : orders.Pairwise (· < ·)
  range : ∀ order ∈ orders, 0 ≤ order.toInt ∧ order.toInt < bound
  length_le : orders.length ≤ bound

namespace Ascends

variable {orders : List Int32} {bound : Nat}

/-- Fewer orders ascend below the same bound. -/
theorem sublist (h : Ascends orders bound) {fewer : List Int32} (hsub : fewer.Sublist orders) :
    Ascends fewer bound where
  pairwise := h.pairwise.sublist hsub
  range order hmem := h.range order (hsub.subset hmem)
  length_le := hsub.length_le.trans h.length_le

theorem succ (h : Ascends orders bound) : Ascends orders (bound + 1) := by
  refine ⟨h.pairwise, ?_, h.length_le.trans (Nat.le_succ bound)⟩
  intro order hmem
  have hrange := h.range order hmem
  omega

/-- One more order after all others. -/
theorem append (h : Ascends orders bound) {next : Int32} (hnext : 0 ≤ next.toInt)
    (hbound : next.toInt ≤ bound) (hlast : ∀ order ∈ orders, order < next) :
    Ascends (orders ++ [next]) (bound + 1) := by
  have hgrown := h.succ
  constructor
  case pairwise =>
    refine List.pairwise_append.2 ⟨h.pairwise, List.pairwise_singleton .., ?_⟩
    intro order hmem other hother
    rw [List.mem_singleton.1 hother]
    exact hlast order hmem
  case range =>
    intro order hmem
    rcases List.mem_append.1 hmem with hold | hnew
    · exact hgrown.range order hold
    · rw [List.mem_singleton.1 hnew]
      omega
  case length_le =>
    simpa using h.length_le

/-- Ascending numbers that fit give ascending orders. -/
theorem of_range {count : Nat} (hcount : count ≤ bound) (hbound : bound < 2 ^ 31) :
    Ascends ((List.range' 0 count).map Int32.ofNat) bound := by
  have hread : ∀ n ∈ List.range' 0 count, (Int32.ofNat n).toInt = n ∧ n < count := by
    intro n hmem
    have hn : n < count := by simpa using List.mem_range'_1.1 hmem
    exact ⟨Int32.toInt_ofNat_of_lt (by omega), hn⟩
  refine ⟨?_, ?_, by simpa using hcount⟩
  · rw [List.pairwise_map]
    refine List.Pairwise.imp_of_mem ?_ List.pairwise_lt_range'
    intro n m hn hm hlt
    rw [Int32.lt_iff_toInt_lt, (hread n hn).1, (hread m hm).1]
    exact_mod_cast hlt
  · intro order hmem
    rcases List.mem_map.1 hmem with ⟨n, hn, rfl⟩
    rcases hread n hn with ⟨hvalue, hlt⟩
    omega

end Ascends

namespace Pipeline

variable {p q : Pipeline} {bound : Nat} {next : Int32}

def orders (p : Pipeline) : List Int32 :=
  p.layers.map (·.order)

/-- Every order but the greatest has one just after it. -/
theorem nextOrder?_eq_some_max (h : Int32.maxValue ∉ p.orders) :
    p.nextOrder? = some (((p.orders.map (· + 1)).max?).getD 0) := by
  have hsucc : ∀ layer ∈ p.layers, layer.orderAfter? = some (layer.order + 1) := by
    intro layer hmem
    refine if_neg fun (heq : layer.order = _) => h ?_
    exact heq ▸ List.mem_map_of_mem hmem
  have hall : p.layers.mapM Layer.orderAfter? = some (p.layers.map (·.order + 1)) :=
    Sequence.mapM_eq_pure hsucc
  rw [nextOrder?, hall, orders, List.map_map]
  rfl

/-- There is no order after all others if and only if a layer has the greatest one. -/
theorem nextOrder?_eq_none_iff : p.nextOrder? = none ↔ Int32.maxValue ∈ p.orders := by
  constructor
  · intro hnone
    by_contra hfree
    rw [nextOrder?_eq_some_max hfree] at hnone
    cases hnone
  · intro hmem
    rcases List.mem_map.1 hmem with ⟨layer, hlayer, horder⟩
    rw [nextOrder?, Sequence.mapM_eq_none hlayer (if_pos horder)]
    rfl

/-- The order after all others is greater than each of them, by one than the last one. Without
others it is zero. -/
theorem of_nextOrder? (h : p.nextOrder? = some next) :
    (∀ order ∈ p.orders, order < next) ∧
      (next = 0 ∨ ∃ last ∈ p.orders, next.toInt = last.toInt + 1) := by
  -- As there is a next order, no successor has overflowed.
  have hfree : Int32.maxValue ∉ p.orders := by
    intro hmem
    rw [nextOrder?_eq_none_iff.2 hmem] at h
    cases h
  have hsucc : ∀ order ∈ p.orders, (order + 1).toInt = order.toInt + 1 := by
    intro order hmem
    exact Int32.toInt_succ_iff.2 fun heq => hfree (heq ▸ hmem)
  rw [nextOrder?_eq_some_max hfree] at h
  cases hmax : (p.orders.map (· + 1)).max? with
  | none =>
      have hnone : p.orders = [] := by simpa using List.max?_eq_none_iff.1 hmax
      rw [hmax] at h
      exact ⟨by simp [hnone], Or.inl (Option.some.inj h).symm⟩
  | some greatest =>
      have hnext : greatest = next := by simpa [hmax] using h
      subst hnext
      rcases List.max?_eq_some_iff.1 hmax with ⟨hmem, hgreatest⟩
      rcases List.mem_map.1 hmem with ⟨last, hlast, rfl⟩
      refine ⟨fun order horder => ?_, Or.inr ⟨last, hlast, hsucc last hlast⟩⟩
      have hle := hgreatest _ (List.mem_map_of_mem horder)
      rw [Int32.le_iff_toInt_le, hsucc order horder] at hle
      rw [Int32.lt_iff_toInt_lt]
      omega

/-- The next of ascending orders goes on with them. -/
theorem nextOrder?_of_ascends (h : Ascends p.orders bound) (hnext : p.nextOrder? = some next) :
    0 ≤ next.toInt ∧ next.toInt ≤ bound := by
  rcases (of_nextOrder? hnext).2 with rfl | ⟨last, hlast, hsucc⟩
  · exact ⟨Int.le_refl 0, Int.natCast_nonneg bound⟩
  · have hrange := h.range last hlast
    omega

/-- The orders given anew are the numbers from the first one on. -/
theorem order_renumber (n : Nat) (layers : List Layer) :
    (renumber n layers).map (·.order) = (List.range' n layers.length).map Int32.ofNat := by
  induction layers generalizing n with
  | nil =>
      rfl
  | cons layer rest ih =>
      simp [renumber, ih, List.range'_succ]

/-- A change of a layer that keeps its order keeps all orders. -/
theorem orders_updateLayer {id : LayerId} {change : Layer → Layer}
    (h : ∀ layer, (change layer).order = layer.order) :
    (p.updateLayer id change).orders = p.orders :=
  Sequence.map_updateFirst fun layer _ => h layer

/-- Every step makes at most one more order, after all others. -/
theorem ascends_step {m : Mutation} (h : Ascends p.orders bound) (hbound : bound < 2 ^ 31)
    (hstep : Step p m q) : Ascends q.orders (bound + 1) := by
  -- Most mutations leave the orders alone, and the bound only grows.
  have hkeep : ∀ {after : Pipeline}, after.orders = p.orders →
      Ascends after.orders (bound + 1) := by
    intro after hsame
    rw [hsame]
    exact h.succ
  cases hstep with
  | addVariable | renameVariable | addVariableValue | removeVariableValue | renameVariableValue
  | createPage | removePage =>
      exact hkeep rfl
  | setVariableKey | removeVariable =>
      exact hkeep (List.map_map ..)
  | addLayer name_ok free bindings_ok fresh next =>
      rcases nextOrder?_of_ascends h next with ⟨hnonneg, hle⟩
      have happended := h.append hnonneg hle (of_nextOrder? next).1
      simpa [orders] using happended
  | renameLayer =>
      exact hkeep (orders_updateLayer fun _ => rfl)
  | removeLayer =>
      exact (h.sublist (List.eraseP_sublist.map _)).succ
  | moveLayer =>
      rename_i id position
      -- A move gives new orders to all layers, from zero on.
      have hlength : (p.reordered id position).length = p.layers.length :=
        (p.reordered_perm id position).length_eq
      have hcount : (p.reordered id position).length ≤ bound := by
        rw [hlength]
        simpa [orders] using h.length_le
      refine Ascends.succ ?_
      rw [orders, order_renumber]
      exact Ascends.of_range hcount hbound
  | setLayerRequired | bindVariable | unbindVariable =>
      exact hkeep (orders_updateLayer fun _ => rfl)
  | editTokens tokens_only same =>
      exact hkeep (congrArg (fun layers => layers.map Layer.order) same.layers)

/-- Along a run the orders ascend and stay below the number of mutations. -/
theorem ascends_runWith (slug : String → String) {mutations : List Mutation}
    (h : Ascends p.orders bound) (hfew : bound + mutations.length ≤ 2 ^ 31) :
    Ascends (runWith slug p mutations).orders (bound + mutations.length) := by
  induction mutations generalizing p bound with
  | nil =>
      exact h
  | cons m rest ih =>
      have hlength : bound + (m :: rest).length = bound + 1 + rest.length := by
        rw [List.length_cons]
        omega
      rw [hlength] at hfew ⊢
      refine ih ?_ hfew
      rcases after_cases slug p m with hsame | hsteps
      · rw [hsame]
        exact h.succ
      · exact ascends_step h (by omega) hsteps

theorem ascends_empty : Ascends empty.orders 0 :=
  ⟨List.Pairwise.nil, fun _ hmem => absurd hmem List.not_mem_nil, Nat.le_refl 0⟩

theorem layersInOrder_of_pairwise (h : p.orders.Pairwise (· < ·)) : p.layersInOrder = p.layers := by
  refine List.mergeSort_of_pairwise ((List.pairwise_map.1 h).imp ?_)
  intro a b hlt
  rw [decide_eq_true_eq, Int32.le_iff_toInt_le]
  exact Int.le_of_lt (Int32.lt_iff_toInt_lt.1 hlt)

/-- However identities are spelled, a run of mutations that is not as long as there are orders leads
to a consistent pipeline, whose layers are stored in the order in which they are merged. -/
theorem consistent_runWith_empty (slug : String → String) {mutations : List Mutation}
    (hfew : mutations.length < 2 ^ 31) :
    (runWith slug empty mutations).Consistent ∧
      (runWith slug empty mutations).orders.Pairwise (· < ·) ∧
      (runWith slug empty mutations).layersInOrder = (runWith slug empty mutations).layers := by
  have hascends := ascends_runWith slug ascends_empty (by omega : 0 + mutations.length ≤ 2 ^ 31)
  refine ⟨runWith_induction Consistent.step consistent_empty slug mutations, hascends.pairwise, ?_⟩
  exact layersInOrder_of_pairwise hascends.pairwise

/-- Two layers whose names have one slug, the second one moved before the first. -/
def movedRun : List Mutation :=
  [.addLayer "A" [] false, .addLayer "B" [] false, .moveLayer ⟨"layer-x-2"⟩ 0]

theorem consistent_runWith_empty_moved :
    movedRun.length < 2 ^ 31 ∧ (runWith (fun _ => "x") empty movedRun).Consistent ∧
      (runWith (fun _ => "x") empty movedRun).orders.Pairwise (· < ·) ∧
      (runWith (fun _ => "x") empty movedRun).layersInOrder =
        [⟨⟨"layer-x-2"⟩, "B", 0, [], false⟩, ⟨⟨"layer-x"⟩, "A", 1, [], false⟩] := by
  have hfew : movedRun.length < 2 ^ 31 := by decide
  rcases consistent_runWith_empty (fun _ => "x") hfew with ⟨hconsistent, hascends, hsorted⟩
  refine ⟨hfew, hconsistent, hascends, ?_⟩
  rw [hsorted]
  cbv

end Pipeline
end DesignTokens
