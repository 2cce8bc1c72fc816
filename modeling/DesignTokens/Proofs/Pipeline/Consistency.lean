import DesignTokens.Proofs.Pipeline.Mutation
import DesignTokens.Proofs.Pipeline.Validity
import DesignTokens.Proofs.Store.Relocation

/-!
# Consistent pipelines

What every reachable pipeline has: keys, names and identities are distinct, values and bindings do
not repeat, layers are bound to variables that exist, and pages belong to layers that exist. Nothing
is said about the assignments of pages, which may be those of orphans.
-/

namespace DesignTokens

structure ConsistentVariables (vars : List Variable) : Prop where
  keys_ok : ∀ v ∈ vars, checkKey v.key = .ok ()
  values_ok : ∀ v ∈ vars, ∀ value ∈ v.values, checkName value = .ok ()
  values : ∀ v ∈ vars, v.values.Nodup
  keys : (vars.map (·.key)).Nodup
  ids : (vars.map (·.id)).Nodup

structure ConsistentLayers (layers : List Layer) : Prop where
  names_ok : ∀ layer ∈ layers, checkName layer.name = .ok ()
  bindings : ∀ layer ∈ layers, layer.variableKeys.Nodup
  names : (layers.map (·.name)).Nodup
  ids : (layers.map (·.id)).Nodup

structure ConsistentPages (layers : List LayerId) (pages : List Page) : Prop where
  ids : (pages.map (·.id)).Nodup
  homes : ∀ page ∈ pages, page.layer ∈ layers

namespace Pipeline

def HasKey (p : Pipeline) (key : String) : Prop :=
  key ∈ p.vars.map (·.key)

/-- The parts of the pipeline fit together. -/
structure Consistent (p : Pipeline) : Prop where
  vars : ConsistentVariables p.vars
  layers : ConsistentLayers p.layers
  bound : ∀ layer ∈ p.layers, ∀ key ∈ layer.variableKeys, p.HasKey key
  pages : ConsistentPages (p.layers.map (·.id)) p.pages

variable {p q : Pipeline} {key : String}

/-! ## Looking up -/

theorem hasKey_iff : p.HasKey key ↔ ∃ found, p.variableFor? key = some found := by
  constructor
  · intro hmem
    rcases List.mem_map.1 hmem with ⟨v, hv, hkey⟩
    have hsome : (p.variableFor? key).isSome := List.find?_isSome.2 ⟨v, hv, by simp [hkey]⟩
    exact Option.isSome_iff_exists.1 hsome
  · rintro ⟨found, hfound⟩
    have hkey : found.key = key := by simpa using List.find?_some hfound
    exact hkey ▸ List.mem_map_of_mem (List.mem_of_find?_eq_some hfound)

theorem not_hasKey_of_variableFor?_eq_none (h : p.variableFor? key = none) : ¬ p.HasKey key := by
  intro hkey
  rcases hasKey_iff.1 hkey with ⟨found, hfound⟩
  rw [h] at hfound
  cases hfound

/-- With distinct keys the variable found is the only one with its key. -/
theorem Consistent.eq_of_variableFor? (h : p.Consistent) {found v : Variable}
    (hfound : p.variableFor? key = some found) (hmem : v ∈ p.vars) (hkey : v.key = key) :
    v = found := by
  have hkeyFound : found.key = key := by simpa using List.find?_some hfound
  exact List.inj_on_of_nodup_map h.vars.keys hmem (List.mem_of_find?_eq_some hfound)
    (hkey.trans hkeyFound.symm)

/-- The layer of an identity is the one that a lookup finds. -/
theorem Consistent.eq_of_layer? (h : p.Consistent) {id : LayerId} {found layer : Layer}
    (hfound : p.layer? id = some found) (hmem : layer ∈ p.layers) (hid : layer.id = id) :
    layer = found := by
  have hidFound : found.id = id := by simpa using List.find?_some hfound
  exact List.inj_on_of_nodup_map h.layers.ids hmem (List.mem_of_find?_eq_some hfound)
    (hid.trans hidFound.symm)

/-- The page of an identity is the one that a lookup finds. -/
theorem Consistent.eq_of_page? (h : p.Consistent) {id : PageId} {found page : Page}
    (hfound : p.page? id = some found) (hmem : page ∈ p.pages) (hid : page.id = id) :
    page = found := by
  have hidFound : found.id = id := by simpa using List.find?_some hfound
  exact List.inj_on_of_nodup_map h.pages.ids hmem (List.mem_of_find?_eq_some hfound)
    (hid.trans hidFound.symm)

end Pipeline

/-! ## Variables -/

namespace ConsistentVariables

variable {vars : List Variable} {key : String}

/-- A variable with a valid key and values and a new key and identity keeps variables consistent. -/
theorem append (h : ConsistentVariables vars) {v : Variable} (hkey : checkKey v.key = .ok ())
    (hvalues : checkValues v.key v.values = .ok ()) (hfree : v.key ∉ vars.map (·.key))
    (hid : v.id ∉ vars.map (·.id)) : ConsistentVariables (vars ++ [v]) := by
  rcases checkValues_eq_ok_iff.1 hvalues with ⟨hvaluesOk, hnodup⟩
  constructor
  case keys_ok =>
    simpa [or_imp, forall_and] using ⟨h.keys_ok, hkey⟩
  case values_ok =>
    simpa [or_imp, forall_and] using ⟨h.values_ok, hvaluesOk⟩
  case values =>
    simpa [or_imp, forall_and] using ⟨h.values, hnodup⟩
  case keys =>
    rw [List.map_append, List.map_singleton]
    exact Sequence.nodup_append_singleton h.keys hfree
  case ids =>
    rw [List.map_append, List.map_singleton]
    exact Sequence.nodup_append_singleton h.ids hid

/-- Fewer variables stay consistent. -/
theorem sublist (h : ConsistentVariables vars) {fewer : List Variable} (hsub : fewer.Sublist vars) :
    ConsistentVariables fewer where
  keys_ok v hv := h.keys_ok v (hsub.subset hv)
  values_ok v hv := h.values_ok v (hsub.subset hv)
  values v hv := h.values v (hsub.subset hv)
  keys := h.keys.sublist (hsub.map _)
  ids := h.ids.sublist (hsub.map _)

/-- A change of one variable that keeps its key and identity. -/
theorem update (h : ConsistentVariables vars) {change : Variable → Variable}
    (hkey : ∀ v, (change v).key = v.key) (hid : ∀ v, (change v).id = v.id)
    (hvalues : ∀ v ∈ vars, v.key = key →
      (∀ value ∈ (change v).values, checkName value = .ok ()) ∧ (change v).values.Nodup) :
    ConsistentVariables (Sequence.updateFirst (fun v => v.key = key) change vars) := by
  constructor
  case keys_ok =>
    intro v hv
    rcases Sequence.mem_updateFirst hv with hold | ⟨w, hw, -, rfl⟩
    · exact h.keys_ok v hold
    · rw [hkey]
      exact h.keys_ok w hw
  case values_ok =>
    intro v hv
    rcases Sequence.mem_updateFirst hv with hold | ⟨w, hw, hholds, rfl⟩
    · exact h.values_ok v hold
    · exact (hvalues w hw (by simpa using hholds)).1
  case values =>
    intro v hv
    rcases Sequence.mem_updateFirst hv with hold | ⟨w, hw, hholds, rfl⟩
    · exact h.values v hold
    · exact (hvalues w hw (by simpa using hholds)).2
  case keys =>
    rw [Sequence.map_updateFirst fun v _ => hkey v]
    exact h.keys
  case ids =>
    rw [Sequence.map_updateFirst fun v _ => hid v]
    exact h.ids

/-- Only one variable has the key, so that the new key appears once. -/
theorem setKey (h : ConsistentVariables vars) {newKey : String} (hok : checkKey newKey = .ok ())
    (hfree : newKey ∉ vars.map (·.key)) :
    ConsistentVariables
      (Sequence.updateFirst (fun v => v.key = key) ({ · with key := newKey }) vars) := by
  have hne : ∀ v ∈ vars, v.key ≠ newKey := fun v hv heq =>
    hfree (heq ▸ List.mem_map_of_mem hv)
  constructor
  case keys_ok =>
    intro v hv
    rcases Sequence.mem_updateFirst hv with hold | ⟨w, hw, -, rfl⟩
    · exact h.keys_ok v hold
    · exact hok
  case values_ok =>
    intro v hv
    rcases Sequence.mem_updateFirst hv with hold | ⟨w, hw, -, rfl⟩
    · exact h.values_ok v hold
    · exact h.values_ok w hw
  case values =>
    intro v hv
    rcases Sequence.mem_updateFirst hv with hold | ⟨w, hw, -, rfl⟩
    · exact h.values v hold
    · exact h.values w hw
  case keys =>
    rw [Sequence.updateFirst_eq_map h.keys, List.map_map]
    refine (List.nodup_map_iff_inj_on (List.Nodup.of_map _ h.keys)).2 fun v hv w hw heq => ?_
    refine List.inj_on_of_nodup_map h.keys hv hw ?_
    -- Of two variables that get one key, either both had the old key or one the new key.
    by_cases hvKey : v.key = key
    · by_cases hwKey : w.key = key
      · exact hvKey.trans hwKey.symm
      · have hnew : newKey = w.key := by simpa [hvKey, hwKey] using heq
        exact absurd hnew.symm (hne w hw)
    · by_cases hwKey : w.key = key
      · have hnew : v.key = newKey := by simpa [hvKey, hwKey] using heq
        exact absurd hnew (hne v hv)
      · simpa [hvKey, hwKey] using heq
  case ids =>
    have hids : ∀ v ∈ vars, { v with key := newKey }.id = v.id := fun _ _ => rfl
    rw [Sequence.map_updateFirst hids]
    exact h.ids

end ConsistentVariables

/-! ## Layers -/

namespace ConsistentLayers

variable {layers : List Layer} {id : LayerId}

/-- A layer with a valid name and bindings and a new name and identity keeps layers consistent. -/
theorem append (h : ConsistentLayers layers) {layer : Layer} (hname : checkName layer.name = .ok ())
    (hbindings : layer.variableKeys.Nodup) (hfree : layer.name ∉ layers.map (·.name))
    (hid : layer.id ∉ layers.map (·.id)) : ConsistentLayers (layers ++ [layer]) := by
  constructor
  case names_ok =>
    simpa [or_imp, forall_and] using ⟨h.names_ok, hname⟩
  case bindings =>
    simpa [or_imp, forall_and] using ⟨h.bindings, hbindings⟩
  case names =>
    rw [List.map_append, List.map_singleton]
    exact Sequence.nodup_append_singleton h.names hfree
  case ids =>
    rw [List.map_append, List.map_singleton]
    exact Sequence.nodup_append_singleton h.ids hid

theorem sublist (h : ConsistentLayers layers) {fewer : List Layer} (hsub : fewer.Sublist layers) :
    ConsistentLayers fewer where
  names_ok layer hmem := h.names_ok layer (hsub.subset hmem)
  bindings layer hmem := h.bindings layer (hsub.subset hmem)
  names := h.names.sublist (hsub.map _)
  ids := h.ids.sublist (hsub.map _)

/-- A change of every layer, most often of none but one, that keeps names and identities. -/
theorem map (h : ConsistentLayers layers) {change : Layer → Layer}
    (hname : ∀ layer, (change layer).name = layer.name)
    (hid : ∀ layer, (change layer).id = layer.id)
    (hbindings : ∀ layer ∈ layers, (change layer).variableKeys.Nodup) :
    ConsistentLayers (layers.map change) := by
  constructor
  case names_ok =>
    intro layer hmem
    rcases List.mem_map.1 hmem with ⟨old, hold, rfl⟩
    rw [hname]
    exact h.names_ok old hold
  case bindings =>
    intro layer hmem
    rcases List.mem_map.1 hmem with ⟨old, hold, rfl⟩
    exact hbindings old hold
  case names =>
    simpa only [List.map_map, Function.comp_def, hname] using h.names
  case ids =>
    simpa only [List.map_map, Function.comp_def, hid] using h.ids

/-- A change of one layer keeps layers consistent when it keeps names, identities and distinct
bindings. -/
theorem update (h : ConsistentLayers layers) {change : Layer → Layer}
    (hname : ∀ layer, (change layer).name = layer.name)
    (hid : ∀ layer, (change layer).id = layer.id)
    (hbindings : ∀ layer ∈ layers, layer.id = id → (change layer).variableKeys.Nodup) :
    ConsistentLayers (Sequence.updateFirst (fun layer => layer.id = id) change layers) := by
  rw [Sequence.updateFirst_eq_map h.ids]
  refine h.map ?_ ?_ ?_
  · intro layer
    split
    · exact hname layer
    · rfl
  · intro layer
    split
    · exact hid layer
    · rfl
  · intro layer hmem
    split
    · rename_i hholds
      exact hbindings layer hmem hholds
    · exact h.bindings layer hmem

/-- A layer may take a name that no other layer has. -/
theorem rename (h : ConsistentLayers layers) {name : String} (hok : checkName name = .ok ())
    (hfree : ∀ other ∈ layers, other.name = name → other.id = id) :
    ConsistentLayers
      (Sequence.updateFirst (fun layer => layer.id = id) ({ · with name := name }) layers) := by
  constructor
  case names_ok =>
    intro layer hmem
    rcases Sequence.mem_updateFirst hmem with hold | ⟨old, hold, -, rfl⟩
    · exact h.names_ok layer hold
    · exact hok
  case bindings =>
    intro layer hmem
    rcases Sequence.mem_updateFirst hmem with hold | ⟨old, hold, -, rfl⟩
    · exact h.bindings layer hold
    · exact h.bindings old hold
  case names =>
    rw [Sequence.updateFirst_eq_map h.ids, List.map_map]
    refine (List.nodup_map_iff_inj_on (List.Nodup.of_map _ h.ids)).2 fun a ha b hb heq => ?_
    -- The name may be taken by the renamed layer itself.
    by_cases haId : a.id = id
    · by_cases hbId : b.id = id
      · exact List.inj_on_of_nodup_map h.ids ha hb (haId.trans hbId.symm)
      · have hname : name = b.name := by simpa [haId, hbId] using heq
        exact absurd (hfree b hb hname.symm) hbId
    · by_cases hbId : b.id = id
      · have hname : a.name = name := by simpa [haId, hbId] using heq
        exact absurd (hfree a ha hname) haId
      · exact List.inj_on_of_nodup_map h.names ha hb (by simpa [haId, hbId] using heq)
  case ids =>
    have hids : ∀ layer ∈ layers, { layer with name := name }.id = layer.id := fun _ _ => rfl
    rw [Sequence.map_updateFirst hids]
    exact h.ids

/-- Consistent layers are so in any order. -/
theorem perm (h : ConsistentLayers layers) {moved : List Layer} (hperm : moved.Perm layers) :
    ConsistentLayers moved where
  names_ok layer hmem := h.names_ok layer (hperm.subset hmem)
  bindings layer hmem := h.bindings layer (hperm.subset hmem)
  names := (hperm.map _).nodup_iff.2 h.names
  ids := (hperm.map _).nodup_iff.2 h.ids

end ConsistentLayers

/-! ## Orders -/

namespace Pipeline

variable {p q : Pipeline} {key : String}

theorem reordered_perm (p : Pipeline) (id : LayerId) (position : Nat) :
    (p.reordered id position).Perm p.layers := by
  unfold reordered
  have hsorted : p.layersInOrder.Perm p.layers := List.mergeSort_perm _ _
  cases hfound : p.layersInOrder.find? (·.id = id) with
  | none =>
      simpa [hfound] using hsorted
  | some layer =>
      -- The layer is taken out of the sorted list and put back at another place.
      have hperm := Sequence.cons_eraseP_perm hfound
      simp only [hfound]
      refine (List.perm_middle.trans ?_).trans (hperm.trans hsorted)
      rw [List.take_append_drop]

theorem map_renumber {β : Type} {view : Layer → β}
    (hview : ∀ layer order, view { layer with order := order } = view layer) (n : Nat)
    (layers : List Layer) : (renumber n layers).map view = layers.map view := by
  induction layers generalizing n with
  | nil =>
      rfl
  | cons layer rest ih =>
      simp [renumber, hview, ih]

theorem mem_renumber {n : Nat} {layers : List Layer} {layer : Layer}
    (h : layer ∈ renumber n layers) :
    ∃ old ∈ layers, ∃ order, layer = { old with order := order } := by
  induction layers generalizing n with
  | nil =>
      cases h
  | cons first rest ih =>
      rcases List.mem_cons.1 h with rfl | hmem
      · exact ⟨first, List.mem_cons_self .., _, rfl⟩
      · rcases ih hmem with ⟨old, hold, order, rfl⟩
        exact ⟨old, List.mem_cons_of_mem _ hold, order, rfl⟩

/-- New orders keep layers consistent. -/
theorem consistentLayers_renumber {layers : List Layer} (h : ConsistentLayers layers) (n : Nat) :
    ConsistentLayers (renumber n layers) := by
  constructor
  case names_ok =>
    intro layer hmem
    rcases mem_renumber hmem with ⟨old, hold, order, rfl⟩
    exact h.names_ok old hold
  case bindings =>
    intro layer hmem
    rcases mem_renumber hmem with ⟨old, hold, order, rfl⟩
    exact h.bindings old hold
  case names =>
    rw [map_renumber fun _ _ => rfl]
    exact h.names
  case ids =>
    rw [map_renumber fun _ _ => rfl]
    exact h.ids

end Pipeline

/-! ## Pages -/

namespace ConsistentPages

variable {layers : List LayerId} {pages : List Page}

/-- A page of a layer that is there, with a new identity, keeps pages consistent. -/
theorem append (h : ConsistentPages layers pages) {page : Page} (hid : page.id ∉ pages.map (·.id))
    (hhome : page.layer ∈ layers) : ConsistentPages layers (pages ++ [page]) := by
  refine ⟨?_, ?_⟩
  · rw [List.map_append, List.map_singleton]
    exact Sequence.nodup_append_singleton h.ids hid
  · simpa [or_imp, forall_and] using ⟨h.homes, hhome⟩

theorem sublist (h : ConsistentPages layers pages) {fewer : List Page}
    (hsub : fewer.Sublist pages) :
    ConsistentPages layers fewer where
  ids := h.ids.sublist (hsub.map _)
  homes page hmem := h.homes page (hsub.subset hmem)

/-- A change that keeps identities and layers keeps pages consistent. -/
theorem map (h : ConsistentPages layers pages) {change : Page → Page}
    (hid : ∀ page, (change page).id = page.id) (hlayer : ∀ page, (change page).layer = page.layer) :
    ConsistentPages layers (pages.map change) := by
  refine ⟨?_, ?_⟩
  · simpa only [List.map_map, Function.comp_def, hid] using h.ids
  · intro page hmem
    rcases List.mem_map.1 hmem with ⟨old, hold, rfl⟩
    rw [hlayer]
    exact h.homes old hold

end ConsistentPages

/-! ## Steps -/

namespace Pipeline

variable {p q : Pipeline} {key : String}

/-- Nothing but the name of a page is brought up to date. -/
theorem unnamed_refreshedPage (p : Pipeline) (page : Page) :
    (p.refreshedPage page).unnamed = page.unnamed := by
  unfold refreshedPage
  split
  · split
    · rfl
    · rfl
  · rfl

theorem id_refreshedPage (p : Pipeline) (page : Page) : (p.refreshedPage page).id = page.id :=
  congrArg Prod.fst (unnamed_refreshedPage p page)

theorem slot_refreshedPage (p : Pipeline) (page : Page) :
    (p.refreshedPage page).slot = page.slot :=
  congrArg (fun unnamed => (unnamed.2.1, unnamed.2.2.1)) (unnamed_refreshedPage p page)

theorem layer_refreshedPage (p : Pipeline) (page : Page) :
    (p.refreshedPage page).layer = page.layer :=
  congrArg Prod.fst (slot_refreshedPage p page)

/-- A change that keeps a variable's key keeps the list of keys. -/
theorem map_key_updateVariable {change : Variable → Variable} (hkey : ∀ v, (change v).key = v.key) :
    (p.updateVariable key change).vars.map (·.key) = p.vars.map (·.key) :=
  Sequence.map_updateFirst fun v _ => hkey v

/-- A change that keeps a layer's identity keeps the list of identities. -/
theorem map_id_updateLayer {id : LayerId} {change : Layer → Layer}
    (hid : ∀ layer, (change layer).id = layer.id) :
    (p.updateLayer id change).layers.map (·.id) = p.layers.map (·.id) :=
  Sequence.map_updateFirst fun layer _ => hid layer

/-- A change of the values or the name of a variable. -/
theorem Consistent.updateVariable (h : p.Consistent) {change : Variable → Variable}
    (hkey : ∀ v, (change v).key = v.key) (hid : ∀ v, (change v).id = v.id)
    (hvalues : ∀ v ∈ p.vars, v.key = key →
      (∀ value ∈ (change v).values, checkName value = .ok ()) ∧ (change v).values.Nodup) :
    (p.updateVariable key change).Consistent where
  vars := h.vars.update hkey hid hvalues
  layers := h.layers
  bound layer hmem other hother := by
    rw [HasKey, map_key_updateVariable hkey]
    exact h.bound layer hmem other hother
  pages := h.pages

/-- A change of the bindings or the demands of a layer. -/
theorem Consistent.updateLayer (h : p.Consistent) {id : LayerId} {change : Layer → Layer}
    (hname : ∀ layer, (change layer).name = layer.name)
    (hid : ∀ layer, (change layer).id = layer.id)
    (hbindings : ∀ layer ∈ p.layers, layer.id = id →
      (change layer).variableKeys.Nodup ∧ ∀ key ∈ (change layer).variableKeys, p.HasKey key) :
    (p.updateLayer id change).Consistent where
  vars := h.vars
  layers := h.layers.update hname hid fun layer hmem hlayer => (hbindings layer hmem hlayer).1
  bound layer hmem := by
    rcases Sequence.mem_updateFirst hmem with hold | ⟨old, hold, hholds, rfl⟩
    · exact h.bound layer hold
    · exact (hbindings old hold (by simpa using hholds)).2
  pages := by
    rw [map_id_updateLayer hid]
    exact h.pages

/-- New page names keep a pipeline consistent. -/
theorem Consistent.refreshPageNames (h : p.Consistent) : p.refreshPageNames.Consistent :=
  { h with pages := h.pages.map (id_refreshedPage p) (layer_refreshedPage p) }

def replacedKey (key newKey other : String) : String :=
  if other = key then newKey else other

/-- A new key takes the place of the old one among the keys. -/
theorem map_key_withVariableKey (h : p.Consistent) (key newKey : String) :
    (p.withVariableKey key newKey).vars.map (·.key) =
      (p.vars.map (·.key)).map (replacedKey key newKey) := by
  simp only [withVariableKey, Pipeline.updateVariable]
  rw [Sequence.updateFirst_eq_map h.vars.keys, List.map_map, List.map_map]
  refine List.map_congr_left fun v _ => ?_
  by_cases hkey : v.key = key
  · simp [replacedKey, hkey]
  · simp [replacedKey, hkey]

/-- A valid key that no variable has may replace another. -/
theorem Consistent.withVariableKey (h : p.Consistent) {newKey : String}
    (hok : checkKey newKey = .ok ()) (hfree : p.variableFor? newKey = none) :
    (p.withVariableKey key newKey).Consistent := by
  have hnot : ¬ p.HasKey newKey := not_hasKey_of_variableFor?_eq_none hfree
  refine ⟨h.vars.setKey hok hnot, ?_, ?_, ?_⟩
  · refine h.layers.map (fun _ => rfl) (fun _ => rfl) fun layer hmem => ?_
    refine (List.nodup_map_iff_inj_on (h.layers.bindings layer hmem)).2 fun a ha b hb heq => ?_
    have hneA : a ≠ newKey := fun heqA => hnot (heqA ▸ h.bound layer hmem a ha)
    have hneB : b ≠ newKey := fun heqB => hnot (heqB ▸ h.bound layer hmem b hb)
    -- No layer is bound to the new key yet, so that two bindings do not become one.
    by_cases haKey : a = key
    · by_cases hbKey : b = key
      · exact haKey.trans hbKey.symm
      · exact absurd (by simpa [haKey, hbKey] using heq.symm) hneB
    · by_cases hbKey : b = key
      · exact absurd (by simpa [haKey, hbKey] using heq) hneA
      · simpa [haKey, hbKey] using heq
  · intro layer hmem other hother
    rcases List.mem_map.1 hmem with ⟨old, hold, rfl⟩
    rcases List.mem_map.1 hother with ⟨bound, hbound, rfl⟩
    rw [HasKey, map_key_withVariableKey h]
    exact List.mem_map_of_mem (h.bound old hold bound hbound)
  · have hids : (p.withVariableKey key newKey).layers.map (·.id) = p.layers.map (·.id) := by
      simp [Pipeline.withVariableKey, Layer.renameKey]
    rw [hids]
    exact h.pages.map (fun _ => rfl) fun _ => rfl

/-- A consistent pipeline stays so without a variable. -/
theorem Consistent.withoutVariable (h : p.Consistent) : (p.withoutVariable key).Consistent := by
  refine ⟨h.vars.sublist List.eraseP_sublist, ?_, ?_, ?_⟩
  · refine h.layers.map (fun _ => rfl) (fun _ => rfl) fun layer hmem => ?_
    exact (h.layers.bindings layer hmem).filter _
  · intro layer hmem other hother
    rcases List.mem_map.1 hmem with ⟨old, hold, rfl⟩
    rcases List.mem_filter.1 hother with ⟨hbound, hne⟩
    rcases List.mem_map.1 (h.bound old hold other hbound) with ⟨v, hv, rfl⟩
    -- A key that is still bound is another one, and its variable stays.
    refine List.mem_map_of_mem ((List.mem_eraseP_of_neg ?_).2 hv)
    simpa using hne
  · have hids : (p.withoutVariable key).layers.map (·.id) = p.layers.map (·.id) := by
      simp [Pipeline.withoutVariable, Layer.dropKey]
    rw [hids]
    exact h.pages

/-- A valid value that the variable does not have may replace another. -/
theorem Consistent.withVariableValue (h : p.Consistent) {value newValue : String} {found : Variable}
    (hfound : p.variableFor? key = some found) (hok : checkName newValue = .ok ())
    (hfree : value = newValue ∨ newValue ∉ found.values) :
    (p.withVariableValue key value newValue).Consistent := by
  have hvalues : ∀ v ∈ p.vars, v.key = key →
      (∀ other ∈ (v.renameValue value newValue).values, checkName other = .ok ()) ∧
        (v.renameValue value newValue).values.Nodup := by
    intro v hv hkey
    have hnodup := h.vars.values v hv
    have heq := h.eq_of_variableFor? hfound hv hkey
    refine ⟨fun other hother => ?_, ?_⟩
    · rcases (Store.mem_replaceFirst hnodup).1 hother with ⟨hold, -⟩ | ⟨-, rfl⟩
      · exact h.vars.values_ok v hv other hold
      · exact hok
    · rcases hfree with rfl | hnotMem
      · simpa [Variable.renameValue, Store.replaceFirst_self] using hnodup
      · exact Store.nodup_replaceFirst hnodup (heq ▸ hnotMem)
  have hvars : (p.updateVariable key (·.renameValue value newValue)).Consistent :=
    h.updateVariable (fun _ => rfl) (fun _ => rfl) hvalues
  exact { hvars with pages := h.pages.map (fun _ => rfl) fun _ => rfl }

theorem Consistent.withoutLayer (h : p.Consistent) (id : LayerId) :
    (p.withoutLayer id).Consistent := by
  refine ⟨h.vars, h.layers.sublist List.eraseP_sublist, ?_, ?_⟩
  · intro layer hmem
    exact h.bound layer (List.mem_of_mem_eraseP hmem)
  · refine ⟨h.pages.ids.sublist (List.filter_sublist.map _), ?_⟩
    intro page hmem
    rcases List.mem_filter.1 hmem with ⟨hpage, hne⟩
    rcases List.mem_map.1 (h.pages.homes page hpage) with ⟨layer, hlayer, hid⟩
    refine List.mem_map.2 ⟨layer, (List.mem_eraseP_of_neg ?_).2 hlayer, hid⟩
    rw [hid]
    simpa using hne

/-- A valid name that no other layer has keeps a pipeline consistent. -/
theorem Consistent.renameLayer (h : p.Consistent) {id : LayerId} {name : String}
    (hok : checkName name = .ok ())
    (hfree : ∀ other ∈ p.layers, other.name = name → other.id = id) :
    (p.updateLayer id ({ · with name := name })).Consistent := by
  refine ⟨h.vars, h.layers.rename hok hfree, ?_, ?_⟩
  · intro layer hmem
    rcases Sequence.mem_updateFirst hmem with hold | ⟨old, hold, -, rfl⟩
    · exact h.bound layer hold
    · exact h.bound old hold
  · have hids : ∀ layer : Layer, { layer with name := name }.id = layer.id := fun _ => rfl
    rw [map_id_updateLayer hids]
    exact h.pages

theorem Consistent.moveLayer (h : p.Consistent) (id : LayerId) (position : Nat) :
    { p with layers := renumber 0 (p.reordered id position) }.Consistent := by
  have hperm := p.reordered_perm id position
  refine ⟨h.vars, consistentLayers_renumber (h.layers.perm hperm) 0, ?_, h.pages.ids, ?_⟩
  · intro layer hmem
    rcases mem_renumber hmem with ⟨old, hold, order, rfl⟩
    exact h.bound old (hperm.subset hold)
  · intro page hmem
    rw [map_renumber fun _ _ => rfl]
    exact (hperm.map _).symm.subset (h.pages.homes page hmem)

/-- Whether a pipeline is consistent depends on its frame alone. -/
theorem Consistent.sameFrame (h : p.Consistent) (hsame : SameFrame p q) : q.Consistent := by
  -- Consistency reads no tokens, only what the labels of pages show.
  have hids : q.pages.map (·.id) = p.pages.map (·.id) := hsame.map_eq (·.1)
  have hhomes : q.pages.map (·.layer) = p.pages.map (·.layer) := hsame.map_eq (·.2.1)
  refine ⟨hsame.vars ▸ h.vars, hsame.layers ▸ h.layers, ?_, ?_, ?_⟩
  · intro layer hmem key hkey
    rw [HasKey, hsame.vars]
    exact h.bound layer (hsame.layers ▸ hmem) key hkey
  · rw [hids]
    exact h.pages.ids
  · intro page hmem
    have hlayer : page.layer ∈ p.pages.map (·.layer) := hhomes ▸ List.mem_map_of_mem hmem
    rcases List.mem_map.1 hlayer with ⟨old, hold, heq⟩
    rw [hsame.layers, ← heq]
    exact h.pages.homes old hold

/-- Every step keeps a pipeline consistent. -/
theorem Consistent.step {m : Mutation} (h : p.Consistent) (hstep : Step p m q) : q.Consistent := by
  -- Every demand that a step could break is among the checks that the step has passed.
  cases hstep with
  | addVariable name_ok key_ok free values_ok fresh =>
      have hkey := not_hasKey_of_variableFor?_eq_none free
      refine ⟨h.vars.append key_ok values_ok hkey fresh, h.layers, ?_, h.pages⟩
      intro layer hlayer other hother
      rw [HasKey, List.map_append]
      exact List.mem_append_left _ (h.bound layer hlayer other hother)
  | renameVariable =>
      refine h.updateVariable (fun _ => rfl) (fun _ => rfl) fun v hv _ => ?_
      exact ⟨h.vars.values_ok v hv, h.vars.values v hv⟩
  | setVariableKey known key_ok free =>
      exact h.withVariableKey key_ok free
  | removeVariable =>
      exact h.withoutVariable
  | addVariableValue known value_ok free =>
      refine h.updateVariable (fun _ => rfl) (fun _ => rfl) fun v hv hkey => ?_
      have heq := h.eq_of_variableFor? known hv hkey
      refine ⟨by simpa [or_imp, forall_and] using ⟨h.vars.values_ok v hv, value_ok⟩, ?_⟩
      exact Sequence.nodup_append_singleton (h.vars.values v hv) (heq ▸ free)
  | removeVariableValue =>
      refine h.updateVariable (fun _ => rfl) (fun _ => rfl) fun v hv _ => ?_
      refine ⟨fun value hmem => h.vars.values_ok v hv value (List.mem_of_mem_erase hmem), ?_⟩
      exact (h.vars.values v hv).erase _
  | renameVariableValue known value_ok present free =>
      exact (h.withVariableValue known value_ok free).refreshPageNames
  | addLayer name_ok free bindings_ok fresh =>
      rcases checkBindings_eq_ok_iff.1 bindings_ok with ⟨hknown, hnodup⟩
      refine ⟨h.vars, h.layers.append name_ok hnodup ?_ fresh, ?_, h.pages.ids, ?_⟩
      · intro hmem
        rcases List.mem_map.1 hmem with ⟨layer, hlayer, heq⟩
        exact absurd (by simpa using heq) (List.find?_eq_none.1 free layer hlayer)
      · intro layer hmem
        rcases List.mem_append.1 hmem with hold | hnew
        · exact h.bound layer hold
        · rw [List.mem_singleton.1 hnew]
          exact fun key hkey => hasKey_iff.2 (hknown key hkey).1
      · intro page hmem
        rw [List.map_append]
        exact List.mem_append_left _ (h.pages.homes page hmem)
  | renameLayer name_ok free =>
      exact (h.renameLayer name_ok free).refreshPageNames
  | removeLayer =>
      exact h.withoutLayer _
  | moveLayer =>
      exact h.moveLayer _ _
  | setLayerRequired =>
      refine h.updateLayer (fun _ => rfl) (fun _ => rfl) fun layer hmem _ => ?_
      exact ⟨h.layers.bindings layer hmem, h.bound layer hmem⟩
  | bindVariable layer_known known free =>
      refine h.updateLayer (fun _ => rfl) (fun _ => rfl) fun layer hmem hid => ?_
      have heq := h.eq_of_layer? layer_known hmem hid
      refine ⟨Sequence.nodup_append_singleton (h.layers.bindings layer hmem) (heq ▸ free), ?_⟩
      intro key hkey
      rcases List.mem_append.1 hkey with hold | hnew
      · exact h.bound layer hmem key hold
      · rw [List.mem_singleton.1 hnew]
        exact hasKey_iff.2 ⟨_, known⟩
  | unbindVariable =>
      refine h.updateLayer (fun _ => rfl) (fun _ => rfl) fun layer hmem _ => ?_
      refine ⟨(h.layers.bindings layer hmem).erase _, fun key hkey => ?_⟩
      exact h.bound layer hmem key (List.mem_of_mem_erase hkey)
  | createPage layer_known valid free fresh =>
      rename_i id assignment layer pageId
      have hlayer : layer.id = id := by simpa using List.find?_some layer_known
      refine { h with pages := h.pages.append fresh ?_ }
      exact hlayer ▸ List.mem_map_of_mem (List.mem_of_find?_eq_some layer_known)
  | removePage =>
      exact { h with pages := h.pages.sublist List.eraseP_sublist }
  | editTokens tokens_only same =>
      exact h.sameFrame same

theorem consistent_empty : (empty : Pipeline).Consistent := by
  refine ⟨⟨?_, ?_, ?_, ?_, ?_⟩, ⟨?_, ?_, ?_, ?_⟩, ?_, ⟨?_, ?_⟩⟩ <;> simp [empty]

/-- Every reachable pipeline is consistent. -/
theorem Reachable.consistent {slug : String → String} (h : p.Reachable slug) : p.Consistent :=
  h.induction consistent_empty Consistent.step

end Pipeline
end DesignTokens
