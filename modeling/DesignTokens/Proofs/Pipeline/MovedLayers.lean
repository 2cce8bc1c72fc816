import DesignTokens.Pipeline.BuildConfig
import DesignTokens.Proofs.Pipeline.Orders
import DesignTokens.Proofs.Pipeline.Visibility

/-!
# Moved layers

A move takes one layer out of the sequence in which layers are merged and puts it back at another
place. The orders are numbered anew along the new sequence. Nothing else of any layer changes, and
nothing outside the layers, so that a move can be undone by a move.
-/

namespace DesignTokens

/-! ## Moving an item -/

namespace Sequence

universe u v

variable {α : Type u} {β : Type v} {a : α} {items : List α}

/-- An insertion beyond the end goes to the end. -/
theorem insertIdx_min (a : α) (position : Nat) (items : List α) :
    items.insertIdx (min position items.length) a =
      items.take position ++ a :: items.drop position := by
  induction items generalizing position with
  | nil =>
      simp
  | cons b rest ih =>
      cases position with
      | zero =>
          rfl
      | succ n =>
          simp [Nat.succ_min_succ, ih]

variable [DecidableEq α] [DecidableEq β]

/-- The items with one of them taken out and put back at a position, or at the end when the position
is beyond it. -/
def movedTo (a : α) (position : Nat) (items : List α) : List α :=
  (items.erase a).insertIdx (min position (items.erase a).length) a

/-- Apart from the moved item, a move changes nothing. -/
theorem erase_movedTo (h : items.Nodup) (position : Nat) :
    (movedTo a position items).erase a = items.erase a := by
  have hfront : a ∉ (items.erase a).take position :=
    fun hmem => h.not_mem_erase (List.mem_of_mem_take hmem)
  rw [movedTo, insertIdx_min, List.erase_append_right _ hfront, List.erase_cons_head,
    List.take_append_drop]

/-- Of two moves of one item the last one counts. -/
theorem movedTo_movedTo (h : items.Nodup) (first second : Nat) :
    movedTo a second (movedTo a first items) = movedTo a second items := by
  rw [movedTo, erase_movedTo h, ← movedTo]

/-- An item that is moved to where it is stays there. -/
theorem movedTo_idxOf (h : a ∈ items) : movedTo a (items.idxOf a) items = items := by
  have hlt : items.idxOf a < items.length := List.idxOf_lt_length_of_mem h
  have hlength : (items.eraseIdx (items.idxOf a)).length = items.length - 1 :=
    List.length_eraseIdx_of_lt hlt
  calc
    movedTo a (items.idxOf a) items
        = (items.eraseIdx (items.idxOf a)).insertIdx (items.idxOf a) a := by
          rw [movedTo, List.erase_eq_eraseIdx_of_idxOf rfl, hlength, Nat.min_eq_left (by omega)]
    _ = items := by
          simpa only [List.getElem_idxOf] using List.insertIdx_eraseIdx_getElem hlt

/-- A view that tells the moved item apart moves along with it. -/
theorem map_movedTo {f : α → β} (hf : ∀ b ∈ items, f b = f a → b = a) (position : Nat) :
    (movedTo a position items).map f = movedTo (f a) position (items.map f) := by
  have herase : (items.map f).erase (f a) = (items.erase a).map f := by
    induction items with
    | nil =>
        rfl
    | cons b rest ih =>
        rcases List.forall_mem_cons.1 hf with ⟨hb, hrest⟩
        by_cases hba : b = a
        · simp [hba]
        · have hne : f b ≠ f a := fun heq => hba (hb heq)
          simp [List.erase_cons_tail, hba, hne, ih hrest]
  rw [movedTo, movedTo, herase, List.map_insertIdx, List.length_map]

end Sequence

/-! ## Moving a layer -/

def Layer.unordered (layer : Layer) : LayerId × String × List String × Bool :=
  (layer.id, layer.name, layer.variableKeys, layer.required)

namespace Pipeline

variable {p q : Pipeline} {layer : Layer} {layers : List Layer}

/-- New orders change nothing but the orders. -/
theorem unordered_renumber (n : Nat) (layers : List Layer) :
    (renumber n layers).map Layer.unordered = layers.map Layer.unordered :=
  map_renumber (fun _ _ => rfl) n layers

/-- Layers that are numbered anew are in their order. -/
theorem layersInOrder_renumber (hfew : layers.length < 2 ^ 31) :
    { p with layers := renumber 0 layers }.layersInOrder = renumber 0 layers := by
  refine layersInOrder_of_pairwise ?_
  rw [orders, order_renumber]
  exact (Ascends.of_range (Nat.le_refl _) hfew).pairwise

/-- The orders given anew are the positions, as long as these fit into an `Int32`. -/
theorem toInt_order_renumber (hfew : layers.length < 2 ^ 31) :
    (renumber 0 layers).map (·.order.toInt) = (List.range layers.length).map (↑) := by
  have horders := congrArg (List.map Int32.toInt) (order_renumber 0 layers)
  rw [List.map_map, List.map_map, ← List.range_eq_range'] at horders
  refine horders.trans (List.map_congr_left fun n hn => ?_)
  have hlt : n < layers.length := List.mem_range.1 hn
  exact Int32.toInt_ofNat_of_lt (by omega)

section

variable (hids : (p.layers.map (·.id)).Nodup) (hlayer : layer ∈ p.layers)

include hids hlayer

/-- A layer is taken out of the sequence and put back at the position. -/
theorem reordered_eq_movedTo (position : Nat) :
    p.reordered layer.id position = Sequence.movedTo layer position p.layersInOrder := by
  have hsorted := nodup_ids_layersInOrder hids
  have hmem : layer ∈ p.layersInOrder := List.mem_mergeSort.2 hlayer
  have hfind : (p.layersInOrder.find? fun other => other.id = layer.id) = some layer :=
    Sequence.find?_of_mem hsorted hmem
  have herase : (p.layersInOrder.eraseP fun other => other.id = layer.id) =
      p.layersInOrder.erase layer := by
    rw [(List.Nodup.of_map _ hsorted).erase_eq_filter, Sequence.eraseP_eq_filter hsorted]
    refine List.filter_congr fun other hother => ?_
    have hiff : other.id = layer.id ↔ other = layer :=
      ⟨List.inj_on_of_nodup_map hsorted hother hmem, fun heq => heq ▸ rfl⟩
    rw [Bool.eq_iff_iff, decide_eq_true_iff, bne_iff_ne, ne_eq, hiff]
  simp only [reordered, hfind, herase, Sequence.movedTo, Sequence.insertIdx_min]

/-- The same move in a sequence of layers without their orders. -/
theorem unordered_movedTo (position : Nat) :
    (Sequence.movedTo layer position p.layersInOrder).map Layer.unordered =
      Sequence.movedTo layer.unordered position (p.layersInOrder.map Layer.unordered) := by
  refine Sequence.map_movedTo (fun other hother heq => ?_) position
  exact List.inj_on_of_nodup_map (nodup_ids_layersInOrder hids) hother
    (List.mem_mergeSort.2 hlayer) (congrArg Prod.fst heq)

/-- A layer that exists can be moved to every position. -/
theorem exists_run_moveLayer (position : Nat) :
    ∃ q, (moveLayer layer.id position).run p = .ok () q :=
  ⟨_, run_moveLayer_eq_ok.2 ⟨⟨layer, layer?_of_mem hids hlayer⟩, rfl⟩⟩

/-- The sequence after a move, and the orders in it. -/
theorem sequence_of_run_moveLayer (hfew : p.layers.length < 2 ^ 31) {position : Nat}
    (hrun : (moveLayer layer.id position).run p = .ok () q) :
    q.layersInOrder.map Layer.unordered =
        (Sequence.movedTo layer position p.layersInOrder).map Layer.unordered ∧
      q.layersInOrder.map (·.order.toInt) = (List.range p.layers.length).map (↑) := by
  rcases run_moveLayer_eq_ok.1 hrun with ⟨-, rfl⟩
  have hlength : (p.reordered layer.id position).length = p.layers.length :=
    (p.reordered_perm layer.id position).length_eq
  have hfew' : (p.reordered layer.id position).length < 2 ^ 31 := hlength ▸ hfew
  rw [layersInOrder_renumber hfew']
  refine ⟨?_, ?_⟩
  · rw [unordered_renumber, reordered_eq_movedTo hids hlayer]
  · rw [toInt_order_renumber hfew', hlength]

end

/-- Whatever is moved, and where to, only the orders of layers change. -/
theorem unordered_perm_of_run_moveLayer {id : LayerId} {position : Nat}
    (hrun : (moveLayer id position).run p = .ok () q) :
    (q.layers.map Layer.unordered).Perm (p.layers.map Layer.unordered) ∧
      q.vars = p.vars ∧ q.pages = p.pages := by
  rcases run_moveLayer_eq_ok.1 hrun with ⟨-, rfl⟩
  refine ⟨?_, rfl, rfl⟩
  rw [unordered_renumber]
  exact (p.reordered_perm id position).map _

/-- After a move the layer can be moved again, as if it had not been moved before. -/
theorem exists_run_moveLayer_again (hids : (p.layers.map (·.id)).Nodup)
    (hfew : p.layers.length < 2 ^ 31) (hlayer : layer ∈ p.layers) {first : Nat}
    (hrun : (moveLayer layer.id first).run p = .ok () q) (second : Nat) :
    ∃ r, (moveLayer layer.id second).run q = .ok () r ∧
      r.layersInOrder.map Layer.unordered =
        (Sequence.movedTo layer second p.layersInOrder).map Layer.unordered := by
  have hkept := (unordered_perm_of_run_moveLayer hrun).1
  rcases List.mem_map.1 (hkept.mem_iff.2 (List.mem_map_of_mem hlayer)) with
    ⟨moved, hmoved, hsame⟩
  have hid : moved.id = layer.id := congrArg Prod.fst hsame
  -- What the first move leaves has distinct identities and no more layers, and can be moved again.
  have hids' : (q.layers.map (·.id)).Nodup := by
    have hperm := hkept.map Prod.fst
    simp only [List.map_map] at hperm
    exact hperm.nodup_iff.2 hids
  have hfew' : q.layers.length < 2 ^ 31 := by
    have hlength := hkept.length_eq
    simp only [List.length_map] at hlength
    omega
  rcases exists_run_moveLayer hids' hmoved second with ⟨r, hagain⟩
  have hnodup : (p.layersInOrder.map Layer.unordered).Nodup := by
    refine List.Nodup.of_map Prod.fst ?_
    rw [List.map_map]
    exact nodup_ids_layersInOrder hids
  refine ⟨r, hid ▸ hagain, ?_⟩
  calc
    r.layersInOrder.map Layer.unordered
        = Sequence.movedTo layer.unordered second (q.layersInOrder.map Layer.unordered) := by
          rw [(sequence_of_run_moveLayer hids' hmoved hfew' hagain).1,
            unordered_movedTo hids' hmoved, hsame]
    _ = Sequence.movedTo layer.unordered second (p.layersInOrder.map Layer.unordered) := by
          rw [(sequence_of_run_moveLayer hids hlayer hfew hrun).1, unordered_movedTo hids hlayer,
            Sequence.movedTo_movedTo hnodup]
    _ = (Sequence.movedTo layer second p.layersInOrder).map Layer.unordered :=
          (unordered_movedTo hids hlayer second).symm

/-- Which configurations there are does not depend on the order of layers. -/
theorem buildConfigs_congr (hvars : q.vars = p.vars)
    (hlayers : (q.layers.map Layer.unordered).Perm (p.layers.map Layer.unordered)) :
    q.buildConfigs = p.buildConfigs := by
  have hbound : ∀ key, (q.layers.any fun layer => layer.variableKeys.contains key) =
      p.layers.any fun layer => layer.variableKeys.contains key := by
    intro key
    have hany := hlayers.any_eq (f := fun shown => shown.2.2.1.contains key)
    simpa only [List.any_map, Function.comp_def, Layer.unordered] using hany
  simp only [buildConfigs, variablesInUse, hvars, hbound]

/-- A move takes the layer out of the sequence and puts it back at the position, or at the end. The
orders are then the places in the sequence. Every layer keeps its identity, name, bindings and
demand, and none is lost or comes twice; variables, pages and configurations stay. Moving the layer
back to where it was restores the sequence. -/
theorem moveLayer_reorders (hids : (p.layers.map (·.id)).Nodup) (hfew : p.layers.length < 2 ^ 31)
    (hlayer : layer ∈ p.layers) (position : Nat) :
    ∃ q, (moveLayer layer.id position).run p = .ok () q ∧
      q.layersInOrder.map Layer.unordered =
        (Sequence.movedTo layer position p.layersInOrder).map Layer.unordered ∧
      q.layersInOrder.map (·.order.toInt) = (List.range p.layers.length).map (↑) ∧
      (q.layers.map Layer.unordered).Perm (p.layers.map Layer.unordered) ∧
      q.vars = p.vars ∧ q.pages = p.pages ∧ q.buildConfigs = p.buildConfigs ∧
      ∃ r, (moveLayer layer.id (p.layersInOrder.idxOf layer)).run q = .ok () r ∧
        r.layersInOrder.map Layer.unordered = p.layersInOrder.map Layer.unordered := by
  rcases exists_run_moveLayer hids hlayer position with ⟨q, hrun⟩
  rcases sequence_of_run_moveLayer hids hlayer hfew hrun with ⟨hsequence, horders⟩
  rcases unordered_perm_of_run_moveLayer hrun with ⟨hkept, hvars, hpages⟩
  rcases exists_run_moveLayer_again hids hfew hlayer hrun (p.layersInOrder.idxOf layer) with
    ⟨r, hback, hrestored⟩
  have hmem : layer ∈ p.layersInOrder := List.mem_mergeSort.2 hlayer
  rw [Sequence.movedTo_idxOf hmem] at hrestored
  exact ⟨q, hrun, hsequence, horders, hkept, hvars, hpages, buildConfigs_congr hvars hkept,
    r, hback, hrestored⟩

def firstLayer : Layer := ⟨⟨"layer-ground"⟩, "Ground", -1, [], true⟩

/-- Two layers have one order, and the third comes before both of them. -/
def tiedLayers : Pipeline where
  vars := []
  layers := [⟨⟨"layer-base"⟩, "Base", 7, [], false⟩, firstLayer,
    ⟨⟨"layer-theme"⟩, "Theme", 7, [], false⟩]
  pages := []

theorem moveLayer_reorders_tied :
    (tiedLayers.layers.map (·.id)).Nodup ∧ tiedLayers.layers.length < 2 ^ 31 ∧
      firstLayer ∈ tiedLayers.layers ∧
      ∃ q, (moveLayer firstLayer.id 9).run tiedLayers = .ok () q ∧
        q.layersInOrder.map Layer.unordered =
          [(⟨"layer-base"⟩, "Base", [], false), (⟨"layer-theme"⟩, "Theme", [], false),
            (⟨"layer-ground"⟩, "Ground", [], true)] ∧
        q.layersInOrder.map (·.order.toInt) = [0, 1, 2] ∧
        ∃ r, (moveLayer firstLayer.id 0).run q = .ok () r ∧
          r.layersInOrder.map Layer.unordered = tiedLayers.layersInOrder.map Layer.unordered := by
  have hids : (tiedLayers.layers.map (·.id)).Nodup := by decide
  have hfew : tiedLayers.layers.length < 2 ^ 31 := by decide
  have hmem : firstLayer ∈ tiedLayers.layers := by decide
  have hsorted : tiedLayers.layersInOrder = [firstLayer, ⟨⟨"layer-base"⟩, "Base", 7, [], false⟩,
      ⟨⟨"layer-theme"⟩, "Theme", 7, [], false⟩] := by
    cbv
  have hplace : tiedLayers.layersInOrder.idxOf firstLayer = 0 := by
    rw [hsorted, List.idxOf_cons_self]
  rcases moveLayer_reorders hids hfew hmem 9 with
    ⟨q, hrun, hsequence, horders, -, -, -, -, r, hback, hrestored⟩
  rw [hplace] at hback
  refine ⟨hids, hfew, hmem, q, hrun, hsequence.trans ?_, horders, r, hback, hrestored⟩
  rw [hsorted]
  decide

end Pipeline
end DesignTokens
