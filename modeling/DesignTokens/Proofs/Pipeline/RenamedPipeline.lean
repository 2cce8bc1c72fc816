import DesignTokens.Proofs.Pipeline.Renaming
import Mathlib.Data.List.Find

/-!
# Pipelines after a renaming

`Renames` says what an accepted renaming has checked and what it leaves behind. What is looked up
afterwards under a new name is what was found before under the old one, and a renamed assignment
fits its renamed layer as it did before.

The new name is free, in that no variable has it. But the assignment of an orphan may have it, and
then fits afterwards as the assignment that it is read back to.
-/

namespace DesignTokens

/-! ## Accepted renamings -/

/-- Replacing the first of several distinct names is replacing that name everywhere. -/
theorem Store.replaceFirst_eq_map {old new : String} {names : List String} (h : names.Nodup) :
    replaceFirst old new names = names.map fun name => if name = old then new else name := by
  induction names with
  | nil =>
      rfl
  | cons first rest ih =>
      rcases List.nodup_cons.1 h with ⟨hnotMem, hrest⟩
      by_cases hfirst : first = old
      · -- The name does not come again, so that nothing else is replaced.
        have hsame : rest.map (fun name => if name = old then new else name) = rest := by
          refine (List.map_congr_left fun name hname => if_neg fun heq => hnotMem ?_).trans
            (List.map_id' rest)
          rw [hfirst, ← heq]
          exact hname
        simp [replaceFirst, hfirst, hsame]
      · simp [replaceFirst, hfirst, ih hrest]

/-- The second pipeline is the first one after an accepted renaming. -/
structure Renames (r : Renaming) (p q : Pipeline) : Prop where
  apartKey : ∀ v ∈ p.vars, r.ApartKey v.key
  apart : ∀ v ∈ p.vars, ∀ text ∈ v.values, r.Apart v.key text
  vars : q.vars = p.vars.map r.onVariable
  layers : q.layers = p.layers.map r.onLayer
  pages : ∃ change : Page → Page, q.pages = p.pages.map change ∧ ∀ page, r.OnPage page (change page)

namespace Pipeline

variable {p q : Pipeline} {r : Renaming}

/-- A page that a renaming takes to another is taken to it with its name refreshed as well. -/
theorem refreshedPage_onPage (p : Pipeline) {page after : Page} (h : r.OnPage page after) :
    r.OnPage page (p.refreshedPage after) := by
  have hunnamed := unnamed_refreshedPage p after
  simp only [Page.unnamed, Prod.mk.injEq] at hunnamed
  rcases hunnamed with ⟨hid, hlayer, hassignment, htokens⟩
  exact ⟨hid.trans h.id, hlayer.trans h.layer, hassignment.trans h.assignment,
    htokens.trans h.tokens⟩

/-- Setting a key that is free is a renaming. -/
theorem renames_withVariableKey (h : p.Consistent) {key newKey : String}
    (hfree : p.variableFor? newKey = none) :
    Renames (.key key newKey) p (p.withVariableKey key newKey) where
  apartKey v hv heq := by
    have hkey : p.HasKey newKey := heq ▸ List.mem_map_of_mem hv
    exact absurd hkey (not_hasKey_of_variableFor?_eq_none hfree)
  apart v hv text _ heq := by
    have hkey : p.HasKey newKey := heq ▸ List.mem_map_of_mem hv
    exact absurd hkey (not_hasKey_of_variableFor?_eq_none hfree)
  vars := by
    simp only [withVariableKey, updateVariable, Sequence.updateFirst_eq_map h.vars.keys]
    refine List.map_congr_left fun v _ => ?_
    by_cases hkey : v.key = key
    · simp [Renaming.onVariable, Renaming.onKey, replacedKey, hkey]
    · simp [Renaming.onVariable, Renaming.onKey, replacedKey, hkey]
  layers := rfl
  pages := ⟨_, rfl, fun _ => ⟨rfl, rfl, rfl, rfl⟩⟩

/-- A key may be renamed to itself, which changes nothing. -/
theorem renames_self (p : Pipeline) (key : String) : Renames (.key key key) p p where
  apartKey _ _ _ := rfl
  apart _ _ _ _ _ := rfl
  vars := by
    have hid : ∀ v, Renaming.onVariable (.key key key) v = v := by
      simp [Renaming.onVariable, Renaming.onKey]
    exact (List.map_id'' hid p.vars).symm
  layers := by
    have hkey : ∀ other, Renaming.onKey (.key key key) other = other := by
      simp [Renaming.onKey]
    have hid : ∀ layer, Renaming.onLayer (.key key key) layer = layer := by
      simp [Renaming.onLayer, List.map_id'' hkey]
    exact (List.map_id'' hid p.layers).symm
  pages := ⟨id, by simp, fun page =>
    ⟨rfl, rfl, (Renaming.renameKey_self page.assignment key).symm, rfl⟩⟩

/-- Renaming a value to one that is free is a renaming. -/
theorem renames_withVariableValue (h : p.Consistent) {key value newValue : String}
    {found : Variable} (hfound : p.variableFor? key = some found)
    (hfree : value = newValue ∨ newValue ∉ found.values) :
    Renames (.value key value newValue) p
      (p.withVariableValue key value newValue).refreshPageNames where
  apartKey _ _ := trivial
  apart v hv text htext hkey hnew := by
    have heq := h.eq_of_variableFor? hfound hv hkey
    subst heq hnew
    exact hfree.resolve_right fun hnot => hnot htext
  vars := by
    -- The values of one variable are all that changes, and they are distinct.
    simp only [refreshPageNames, withVariableValue, updateVariable,
      Sequence.updateFirst_eq_map h.vars.keys]
    refine List.map_congr_left fun v hv => ?_
    by_cases hkey : v.key = key
    · simp [Renaming.onVariable, Renaming.onKey, Renaming.onValue, Variable.renameValue, hkey,
        Store.replaceFirst_eq_map (h.vars.values v hv)]
    · have hvalues : ∀ text, Renaming.onValue (.value key value newValue) v.key text = text := by
        simp [Renaming.onValue, hkey]
      simp [Renaming.onVariable, hkey, List.map_id'' hvalues]
  layers := by
    have hid : ∀ layer, Renaming.onLayer (.value key value newValue) layer = layer := by
      intro layer
      simp [Renaming.onLayer]
    exact (List.map_id'' hid p.layers).symm
  pages := by
    refine ⟨_, List.map_map, fun page => ?_⟩
    exact refreshedPage_onPage _ ⟨rfl, rfl, rfl, rfl⟩

/-- What an accepted renaming has checked and done. -/
theorem renames_of_run (h : p.Consistent) {u : Unit} (hrun : r.edit.run p = .ok u q) :
    Renames r p q := by
  cases r with
  | key key newKey =>
      rcases run_setVariableKey_eq_ok.1 hrun with ⟨-, -, ⟨rfl, rfl⟩ | ⟨hfree, rfl⟩⟩
      · exact renames_self q key
      · exact renames_withVariableKey h hfree
  | value key value newValue =>
      rcases run_renameVariableValue_eq_ok.1 hrun with ⟨found, hfound, -, -, hfree, rfl⟩
      exact renames_withVariableValue h hfound hfree

/-! ## Looking up what is renamed -/

/-- A value is permitted when it is one of the variable's. -/
theorem permits_iff {key text : String} :
    p.permits key text = true ↔ ∃ found, p.variableFor? key = some found ∧ text ∈ found.values := by
  simp [permits, Option.any_eq_true]

theorem mem_of_variableFor? {key : String} {found : Variable}
    (h : p.variableFor? key = some found) : found ∈ p.vars ∧ found.key = key :=
  ⟨List.mem_of_find?_eq_some h, by simpa using List.find?_some h⟩

/-- The page has an assignment of its layer. -/
theorem isOrphan_eq_false_iff {page : Page} :
    p.isOrphan page = false ↔
      ∃ layer, p.layer? page.layer = some layer ∧ p.isValidFor layer page.assignment = true := by
  unfold isOrphan
  cases p.layer? page.layer with
  | none =>
      simp
  | some layer =>
      simp

end Pipeline

namespace Renames

variable {p q : Pipeline} {r : Renaming} {a : Assignment} {layer : Layer}

theorem apartKey_of_hasKey (h : Renames r p q) {key : String} (hkey : p.HasKey key) :
    r.ApartKey key := by
  rcases List.mem_map.1 hkey with ⟨v, hv, rfl⟩
  exact h.apartKey v hv

/-- A pair that is permitted is apart from the new one. -/
theorem apart_of_permits (h : Renames r p q) {key text : String}
    (hpermits : p.permits key text = true) : r.Apart key text := by
  rcases Pipeline.permits_iff.1 hpermits with ⟨found, hfound, htext⟩
  rcases Pipeline.mem_of_variableFor? hfound with ⟨hmem, rfl⟩
  exact h.apart found hmem text htext

theorem not_stale_of_permitsAll (h : Renames r p q) (hall : p.PermitsAll a) : ¬ r.Stale a :=
  Renaming.not_stale_of_apart fun key text hpair => h.apart_of_permits (hall key text hpair)

/-- A variable is found under its new key. -/
theorem variableFor? (h : Renames r p q) {key : String} (hkey : r.ApartKey key) :
    q.variableFor? (r.onKey key) = (p.variableFor? key).map r.onVariable := by
  have hsame : ∀ v ∈ p.vars,
      decide ((r.onVariable v).key = r.onKey key) = decide (v.key = key) := by
    intro v hv
    simp [Renaming.onVariable, Renaming.onKey_inj (h.apartKey v hv) hkey]
  calc
    q.variableFor? (r.onKey key)
        = (p.vars.map r.onVariable).find? (·.key = r.onKey key) := by
          rw [Pipeline.variableFor?, h.vars]
    _ = (p.vars.find? fun v => (r.onVariable v).key = r.onKey key).map r.onVariable :=
          List.find?_map
    _ = (p.variableFor? key).map r.onVariable := by
          rw [Pipeline.variableFor?, List.find?_congr hsame]

theorem layer? (h : Renames r p q) (id : LayerId) : q.layer? id = (p.layer? id).map r.onLayer := by
  rw [Pipeline.layer?, h.layers, List.find?_map]
  rfl

/-- A renamed value is one of the renamed variable. -/
theorem permits (h : Renames r p q) {key text : String} (hapart : r.Apart key text) :
    q.permits (r.onKey key) (r.onValue key text) = p.permits key text := by
  rw [Bool.eq_iff_iff, Pipeline.permits_iff, Pipeline.permits_iff, h.variableFor? hapart.apartKey]
  constructor
  · intro hafter
    rcases hafter with ⟨renamed, hrenamed, htext⟩
    rcases Option.map_eq_some_iff.1 hrenamed with ⟨found, hfound, rfl⟩
    rcases Pipeline.mem_of_variableFor? hfound with ⟨hmem, rfl⟩
    -- No two values become one, so that the value comes from itself.
    rcases List.mem_map.1 htext with ⟨other, hother, heq⟩
    have hsame := (Renaming.onValue_inj (h.apart found hmem other hother) hapart).1 heq
    exact ⟨found, hfound, hsame ▸ hother⟩
  · intro hbefore
    rcases hbefore with ⟨found, hfound, htext⟩
    rcases Pipeline.mem_of_variableFor? hfound with ⟨-, rfl⟩
    exact ⟨r.onVariable found, by simp [hfound], List.mem_map_of_mem htext⟩

/-! ## Assignments after a renaming -/

/-- The keys bound to a layer are apart from the new one. -/
theorem apartKey_of_bound (h : Renames r p q) (hp : p.Consistent) (hlayer : layer ∈ p.layers) :
    ∀ key ∈ layer.variableKeys, r.ApartKey key := fun key hkey =>
  h.apartKey_of_hasKey (hp.bound layer hlayer key hkey)

/-- A renamed key is bound to a layer exactly when the key was. -/
theorem mem_variableKeys_iff (h : Renames r p q) (hp : p.Consistent) (hlayer : layer ∈ p.layers)
    {key : String} (hkey : r.ApartKey key) :
    r.onKey key ∈ (r.onLayer layer).variableKeys ↔ key ∈ layer.variableKeys := by
  constructor
  · intro hmem
    rcases List.mem_map.1 hmem with ⟨other, hother, heq⟩
    exact (Renaming.onKey_inj (h.apartKey_of_bound hp hlayer other hother) hkey).1 heq ▸ hother
  · intro hmem
    exact List.mem_map_of_mem hmem

/-- A renamed layer binds no key twice. -/
theorem nodup_variableKeys (h : Renames r p q) (hp : p.Consistent) (hlayer : layer ∈ p.layers) :
    (r.onLayer layer).variableKeys.Nodup := by
  have hbound := h.apartKey_of_bound hp hlayer
  refine (hp.layers.bindings layer hlayer).map_on fun a ha b hb heq => ?_
  exact (Renaming.onKey_inj (hbound a ha) (hbound b hb)).1 heq

theorem permitsAll_iff (h : Renames r p q) (hstale : ¬ r.Stale a) :
    q.PermitsAll (r.onAssignment a) ↔ p.PermitsAll a := by
  constructor
  · intro hall key text hpair
    have hapart := Renaming.apart_of_not_stale hstale hpair
    rw [← h.permits hapart]
    exact hall _ _ (by simp [Renaming.getElem?_onAssignment hstale hapart.apartKey, hpair])
  · intro hall key text hpair
    rcases Renaming.exists_onKey_of_mem (Assignment.mem_of_getElem? hpair) with ⟨old, hold, rfl⟩
    rw [Renaming.getElem?_onAssignment hstale hold] at hpair
    rcases Option.map_eq_some_iff.1 hpair with ⟨before, hbefore, rfl⟩
    rw [h.permits (Renaming.apart_of_not_stale hstale hbefore)]
    exact hall old before hbefore

/-- A renamed assignment has a layer's keys exactly when it had them. -/
theorem mem_iff_mem_variableKeys (h : Renames r p q) (hp : p.Consistent)
    (hlayer : layer ∈ p.layers) (hstale : ¬ r.Stale a) :
    (∀ key, key ∈ r.onAssignment a ↔ key ∈ (r.onLayer layer).variableKeys) ↔
      ∀ key, key ∈ a ↔ key ∈ layer.variableKeys := by
  have hbound := h.apartKey_of_bound hp hlayer
  constructor
  · intro hsame key
    -- The new key itself is neither in the assignment nor bound.
    by_cases hkey : r.ApartKey key
    · exact (Renaming.mem_onAssignment_iff hstale hkey).symm.trans
        ((hsame (r.onKey key)).trans (h.mem_variableKeys_iff hp hlayer hkey))
    · exact iff_of_false (fun hmem => hkey (Renaming.apartKey_of_mem hstale hmem))
        fun hmem => hkey (hbound key hmem)
  · intro hsame key
    constructor
    · intro hmem
      rcases Renaming.exists_onKey_of_mem hmem with ⟨old, hold, rfl⟩
      have hbefore := (Renaming.mem_onAssignment_iff hstale hold).1 hmem
      exact (h.mem_variableKeys_iff hp hlayer hold).2 ((hsame old).1 hbefore)
    · intro hmem
      rcases List.mem_map.1 hmem with ⟨old, hold, rfl⟩
      exact (Renaming.mem_onAssignment_iff hstale (hbound old hold)).2 ((hsame old).2 hold)

/-- A renamed assignment fits the renamed layer as it did before, unless the new name was there
already. -/
theorem isValidFor (h : Renames r p q) (hp : p.Consistent) (hlayer : layer ∈ p.layers)
    (hstale : ¬ r.Stale a) :
    q.isValidFor (r.onLayer layer) (r.onAssignment a) = p.isValidFor layer a := by
  rw [Bool.eq_iff_iff, Pipeline.isValidFor_iff (h.nodup_variableKeys hp hlayer),
    Pipeline.isValidFor_iff (hp.layers.bindings layer hlayer),
    h.mem_iff_mem_variableKeys hp hlayer hstale, h.permitsAll_iff hstale]

/-- In general it fits as the assignment does that it is read back to. -/
theorem isValidFor_readBack (h : Renames r p q) (hp : p.Consistent) (hlayer : layer ∈ p.layers)
    (a : Assignment) :
    q.isValidFor (r.onLayer layer) (r.onAssignment a) = p.isValidFor layer (r.readBack a) := by
  rw [← Renaming.onAssignment_readBack r a]
  exact h.isValidFor hp hlayer (Renaming.not_stale_readBack r a)

/-- Only an orphan can be stale. -/
theorem not_stale_of_isOrphan_eq_false (h : Renames r p q) (hp : p.Consistent) {page : Page}
    (hpage : p.isOrphan page = false) : ¬ r.Stale page.assignment := by
  rcases Pipeline.isOrphan_eq_false_iff.1 hpage with ⟨layer, hlayer, hvalid⟩
  have hnodup := hp.layers.bindings layer (List.mem_of_find?_eq_some hlayer)
  exact h.not_stale_of_permitsAll ((Pipeline.isValidFor_iff hnodup).1 hvalid).2

/-- A page is an orphan after the renaming if it was one with the assignment read back. -/
theorem isOrphan (h : Renames r p q) (hp : p.Consistent) {page after : Page}
    (hpage : r.OnPage page after) :
    q.isOrphan after = p.isOrphan { page with assignment := r.readBack page.assignment } := by
  unfold Pipeline.isOrphan
  rw [hpage.layer, h.layer?]
  cases hlayer : p.layer? page.layer with
  | none =>
      rfl
  | some layer =>
      have hmem := List.mem_of_find?_eq_some hlayer
      simp [hpage.assignment, h.isValidFor_readBack hp hmem]

end Renames
end DesignTokens
