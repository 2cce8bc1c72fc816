import DesignTokens.Proofs.Map
import DesignTokens.Proofs.Pipeline.Consistency

/-!
# One page for a slot

A layer is to have at most one page for an assignment. Pages are only created for an assignment that
has none, but a new key or value is carried into the assignments of all pages, and orphans may hold
what the variables of the pipeline do not have any more. `Collides` says when two assignments that
differ become one in this way; nothing else makes two pages of one slot.
-/

namespace DesignTokens

/-! ## Renamed assignments -/

namespace Assignment

variable {a b : Assignment} {key newKey value newValue : String}

theorem renameKey_eq_moveEntry (a : Assignment) (key newKey : String) :
    a.renameKey key newKey = Map.moveEntry a key newKey := by
  unfold renameKey Map.moveEntry
  cases a[key]? with
  | none =>
      rfl
  | some value =>
      rfl

/-- What an assignment has after a key is renamed. -/
theorem getElem?_renameKey (h : key ≠ newKey) (other : String) :
    (a.renameKey key newKey)[other]? =
      if other = newKey then a[key]?.or a[newKey]?
      else if other = key then none else a[other]? := by
  rw [renameKey_eq_moveEntry]
  exact Map.getElem?_moveEntry h other

/-- What an assignment has after a value is renamed. -/
theorem getElem?_renameValue (other : String) :
    (a.renameValue key value newValue)[other]? =
      if other = key ∧ a[key]? = some value then some newValue else a[other]? := by
  unfold renameValue
  by_cases hvalue : a[key]? = some value
  · by_cases hother : other = key
    · simp [hvalue, hother]
    · have hne : key ≠ other := Ne.symm hother
      simp [hvalue, hother, Std.ExtTreeMap.getElem?_insert, hne]
  · simp [hvalue]

@[simp] theorem renameValue_self (a : Assignment) (key value : String) :
    a.renameValue key value value = a := by
  refine Std.ExtTreeMap.ext_getElem? fun other => ?_
  rw [getElem?_renameValue]
  split
  · rename_i hvalue
    rw [hvalue.1, hvalue.2]
  · rfl

/-- Renaming a key makes two assignments equal when they agree elsewhere and in what the new key
gets. -/
theorem renameKey_eq_iff (h : key ≠ newKey) :
    a.renameKey key newKey = b.renameKey key newKey ↔
      (∀ other, other ≠ key → other ≠ newKey → a[other]? = b[other]?) ∧
        a[key]?.or a[newKey]? = b[key]?.or b[newKey]? := by
  constructor
  · intro heq
    refine ⟨fun other hkey hnewKey => ?_, ?_⟩
    · have hother := congrArg (fun changed : Assignment => changed[other]?) heq
      simpa [getElem?_renameKey h, hkey, hnewKey] using hother
    · have hthere := congrArg (fun changed : Assignment => changed[newKey]?) heq
      simpa [getElem?_renameKey h] using hthere
  · rintro ⟨helsewhere, hthere⟩
    refine Std.ExtTreeMap.ext_getElem? fun other => ?_
    rw [getElem?_renameKey h, getElem?_renameKey h]
    split
    · exact hthere
    · split
      · rfl
      · exact helsewhere other ‹_› ‹_›

/-- Renaming a value makes two assignments equal when they were, or when one has the old value and
the other the new one. -/
theorem renameValue_eq_iff (hne : value ≠ newValue) :
    a.renameValue key value newValue = b.renameValue key value newValue ↔
      a = b ∨ (∀ other, other ≠ key → a[other]? = b[other]?) ∧
        ((a[key]? = some value ∧ b[key]? = some newValue) ∨
          (a[key]? = some newValue ∧ b[key]? = some value)) := by
  constructor
  · intro heq
    have helsewhere : ∀ other, other ≠ key → a[other]? = b[other]? := by
      intro other hother
      have hget := congrArg (fun changed : Assignment => changed[other]?) heq
      simpa [getElem?_renameValue, hother] using hget
    have hthere := congrArg (fun changed : Assignment => changed[key]?) heq
    simp only [getElem?_renameValue, true_and] at hthere
    have hsame : a[key]? = b[key]? → a = b := by
      intro hkey
      refine Std.ExtTreeMap.ext_getElem? fun other => ?_
      by_cases hother : other = key
      · exact hother ▸ hkey
      · exact helsewhere other hother
    -- Whether the old value stands at the key decides what stands there afterwards.
    by_cases ha : a[key]? = some value
    · by_cases hb : b[key]? = some value
      · exact Or.inl (hsame (ha.trans hb.symm))
      · rw [if_pos ha, if_neg hb] at hthere
        exact Or.inr ⟨helsewhere, Or.inl ⟨ha, hthere.symm⟩⟩
    · by_cases hb : b[key]? = some value
      · rw [if_neg ha, if_pos hb] at hthere
        exact Or.inr ⟨helsewhere, Or.inr ⟨hthere, hb⟩⟩
      · rw [if_neg ha, if_neg hb] at hthere
        exact Or.inl (hsame hthere)
  · rintro (rfl | ⟨helsewhere, hthere⟩)
    · rfl
    · refine Std.ExtTreeMap.ext_getElem? fun other => ?_
      by_cases hother : other = key
      · have hback : (some newValue : Option String) ≠ some value := fun h =>
          hne (Option.some.inj h).symm
        rcases hthere with ⟨ha, hb⟩ | ⟨ha, hb⟩
        · simp [getElem?_renameValue, hother, ha, hb]
        · simp [getElem?_renameValue, hother, ha, hb]
      · simp [getElem?_renameValue, hother, helsewhere other hother]

end Assignment

namespace Pipeline

variable {p q : Pipeline}

/-! ## Distinct slots -/

/-- The mutation carries a new key or value into two assignments of one layer that differ, and makes
them equal. -/
inductive Collides (p : Pipeline) : Mutation → Prop where
  | key {key newKey : String} {found : Variable} {a b : Page}
      (known : p.variableFor? key = some found) (key_ok : checkKey newKey = .ok ())
      (free : p.variableFor? newKey = none) (left : a ∈ p.pages) (right : b ∈ p.pages)
      (layer : a.layer = b.layer) (differ : a.assignment ≠ b.assignment)
      (elsewhere : ∀ other, other ≠ key → other ≠ newKey →
        a.assignment[other]? = b.assignment[other]?)
      (there : a.assignment[key]?.or a.assignment[newKey]? =
        b.assignment[key]?.or b.assignment[newKey]?) :
      Collides p (.setVariableKey key newKey)
  | value {key value newValue : String} {found : Variable} {a b : Page}
      (known : p.variableFor? key = some found) (value_ok : checkName newValue = .ok ())
      (present : value ∈ found.values) (free : newValue ∉ found.values) (left : a ∈ p.pages)
      (right : b ∈ p.pages) (layer : a.layer = b.layer)
      (elsewhere : ∀ other, other ≠ key → a.assignment[other]? = b.assignment[other]?)
      (old : a.assignment[key]? = some value) (new : b.assignment[key]? = some newValue) :
      Collides p (.renameVariableValue key value newValue)

/-- New page names leave the slots of the pages as they are. -/
theorem slots_refreshPageNames (p : Pipeline) :
    p.refreshPageNames.pages.map Page.slot = p.pages.map Page.slot := by
  simp [refreshPageNames, Function.comp_def, slot_refreshedPage]

/-- Changing every assignment keeps slots distinct if and only if no two pages of one layer meet. -/
theorem nodup_slots_map_iff (h : p.DistinctSlots) (change : Assignment → Assignment) :
    (p.pages.map fun page => (page.layer, change page.assignment)).Nodup ↔
      ∀ a ∈ p.pages, ∀ b ∈ p.pages, a.layer = b.layer →
        change a.assignment = change b.assignment → a.assignment = b.assignment := by
  rw [List.nodup_map_iff_inj_on (List.Nodup.of_map _ h)]
  constructor
  · intro hinj a ha b hb hlayer hchange
    rw [hinj a ha b hb (Prod.ext hlayer hchange)]
  · intro hapart a ha b hb heq
    have hlayer := congrArg Prod.fst heq
    have hassignment := hapart a ha b hb hlayer (congrArg Prod.snd heq)
    exact List.inj_on_of_nodup_map h ha hb (Prod.ext hlayer hassignment)

/-- A new key keeps slots distinct exactly when no two of them collide under it. -/
theorem distinctSlots_withVariableKey_iff (h : p.DistinctSlots) {key newKey : String}
    {found : Variable} (known : p.variableFor? key = some found) (key_ok : checkKey newKey = .ok ())
    (free : p.variableFor? newKey = none) :
    (p.withVariableKey key newKey).DistinctSlots ↔ ¬ p.Collides (.setVariableKey key newKey) := by
  have hne : key ≠ newKey := by
    rintro rfl
    rw [known] at free
    cases free
  have hslots : (p.withVariableKey key newKey).pages.map Page.slot =
      p.pages.map fun page => (page.layer, page.assignment.renameKey key newKey) := by
    simp [withVariableKey, Page.slot, Function.comp_def]
  rw [DistinctSlots, hslots, nodup_slots_map_iff h (·.renameKey key newKey)]
  constructor
  · intro hapart hcollides
    cases hcollides with
    | key _ _ _ left right layer differ elsewhere there =>
        refine differ (hapart _ left _ right layer ?_)
        exact (Assignment.renameKey_eq_iff hne).2 ⟨elsewhere, there⟩
  · intro hno a ha b hb hlayer hchange
    -- Two slots that become one are a collision, unless they were one.
    rcases (Assignment.renameKey_eq_iff hne).1 hchange with ⟨helsewhere, hthere⟩
    by_cases hsame : a.assignment = b.assignment
    · exact hsame
    · exact absurd (.key known key_ok free ha hb hlayer hsame helsewhere hthere) hno

/-- A new value keeps slots distinct exactly when no two of them collide under it. -/
theorem distinctSlots_withVariableValue_iff (h : p.DistinctSlots) {key value newValue : String}
    {found : Variable} (known : p.variableFor? key = some found)
    (value_ok : checkName newValue = .ok ()) (present : value ∈ found.values)
    (free : newValue ∉ found.values) :
    (p.withVariableValue key value newValue).refreshPageNames.DistinctSlots ↔
      ¬ p.Collides (.renameVariableValue key value newValue) := by
  have hne : value ≠ newValue := by
    rintro rfl
    exact free present
  have hslots : (p.withVariableValue key value newValue).pages.map Page.slot =
      p.pages.map fun page => (page.layer, page.assignment.renameValue key value newValue) := by
    simp [withVariableValue, Page.slot, Function.comp_def]
  rw [DistinctSlots, slots_refreshPageNames, hslots,
    nodup_slots_map_iff h (·.renameValue key value newValue)]
  constructor
  · intro hapart hcollides
    cases hcollides with
    | value known' _ _ _ left right layer elsewhere old new =>
        have hsame := hapart _ left _ right layer
          ((Assignment.renameValue_eq_iff hne).2 (Or.inr ⟨elsewhere, Or.inl ⟨old, new⟩⟩))
        rw [hsame, new] at old
        exact hne (Option.some.inj old).symm
  · intro hno a ha b hb hlayer hchange
    rcases (Assignment.renameValue_eq_iff hne).1 hchange with hsame | ⟨helsewhere, hthere⟩
    · exact hsame
    · exfalso
      -- `Collides` names the page with the old value first.
      rcases hthere with ⟨hold, hnew⟩ | ⟨hnew, hold⟩
      · exact hno (.value known value_ok present free ha hb hlayer helsewhere hold hnew)
      · refine hno (.value known value_ok present free hb ha hlayer.symm ?_ hold hnew)
        exact fun other hother => (helsewhere other hother).symm

/-- A page is created only in a free slot. -/
theorem DistinctSlots.append (h : p.DistinctSlots) {page : Page}
    (hfree : p.findPage? page.layer page.assignment = none) :
    { p with pages := p.pages ++ [page] }.DistinctSlots := by
  have hnotMem : page.slot ∉ p.pages.map Page.slot := by
    intro hmem
    rcases List.mem_map.1 hmem with ⟨other, hother, hslot⟩
    have hno := List.find?_eq_none.1 hfree other hother
    simp only [Page.slot, Prod.mk.injEq] at hslot
    simp [Page.fits, hslot.1, hslot.2] at hno
  rw [DistinctSlots, List.map_append, List.map_singleton]
  exact Sequence.nodup_append_singleton h hnotMem

/-- One step keeps slots distinct unless it collides. -/
theorem DistinctSlots.step_iff {m : Mutation} (h : p.DistinctSlots) (hstep : Step p m q) :
    q.DistinctSlots ↔ ¬ p.Collides m := by
  cases hstep with
  | setVariableKey known key_ok free =>
      exact distinctSlots_withVariableKey_iff h known key_ok free
  | renameVariableValue known value_ok present free =>
      rename_i key value newValue found
      -- Renaming a value to itself is accepted, although it is not free.
      by_cases hsame : value = newValue
      · subst hsame
        refine iff_of_true ?_ ?_
        · rw [DistinctSlots, slots_refreshPageNames]
          simpa [withVariableValue, Page.slot, Function.comp_def, DistinctSlots] using h
        · intro hcollides
          cases hcollides with
          | value known' _ present' free' =>
              exact free' present'
      · exact distinctSlots_withVariableValue_iff h known value_ok present (free.resolve_left hsame)
  | createPage layer_known valid free fresh =>
      exact iff_of_true (h.append free) (by rintro ⟨⟩)
  | removeLayer =>
      exact iff_of_true (h.sublist (List.filter_sublist.map _)) (by rintro ⟨⟩)
  | removePage =>
      exact iff_of_true (h.sublist (List.eraseP_sublist.map _)) (by rintro ⟨⟩)
  | renameLayer name_ok free =>
      refine iff_of_true ?_ (by rintro ⟨⟩)
      rw [DistinctSlots, slots_refreshPageNames]
      exact h
  | editTokens tokens_only same =>
      have hslots : q.pages.map Page.slot = p.pages.map Page.slot :=
        same.map_eq fun label => (label.2.1, label.2.2.2)
      refine iff_of_true ?_ ?_
      · rw [DistinctSlots, hslots]
        exact h
      · intro hcollides
        cases hcollides <;> exact tokens_only
  | _ => exact iff_of_true h (by rintro ⟨⟩)

/-- A mutation that collides is accepted. -/
theorem Collides.step {m : Mutation} (h : p.Collides m) (slug : String → String) :
    Step p m (m.after slug p) := by
  cases h with
  | key known key_ok free =>
      rename_i key newKey found a b _ _ _ _ _ _
      have hrun : (setVariableKey key newKey).run p = .ok () (p.withVariableKey key newKey) :=
        run_setVariableKey_eq_ok.2 ⟨⟨_, known⟩, key_ok, Or.inr ⟨free, rfl⟩⟩
      rw [Mutation.after, Mutation.edit, Edit.stateAfter_void, Edit.stateAfter_of_ok hrun]
      exact .setVariableKey known key_ok free
  | value known value_ok present free =>
      rename_i key value newValue found a b _ _ _ _ _ _
      have hrun : (renameVariableValue key value newValue).run p =
          .ok () (p.withVariableValue key value newValue).refreshPageNames :=
        run_renameVariableValue_eq_ok.2 ⟨_, known, value_ok, present, Or.inr free, rfl⟩
      rw [Mutation.after, Mutation.edit, Edit.stateAfter_void, Edit.stateAfter_of_ok hrun]
      exact .renameVariableValue known value_ok present (Or.inr free)

/-- One mutation keeps slots distinct exactly when it makes no two of them collide. -/
theorem DistinctSlots.after_iff (h : p.DistinctSlots) (slug : String → String) (m : Mutation) :
    (m.after slug p).DistinctSlots ↔ ¬ p.Collides m := by
  -- A refused mutation changes nothing, and one that collides is not refused.
  by_cases hcollides : p.Collides m
  · exact h.step_iff (hcollides.step slug)
  · rcases after_cases slug p m with hsame | hstep
    · rw [hsame]
      exact iff_of_true h hcollides
    · exact h.step_iff hstep

/-! ## Runs -/

/-- Slots stay distinct for as long as no mutation of the run collides where it is made. -/
theorem DistinctSlots.runWith_iff (h : p.DistinctSlots) (slug : String → String)
    (mutations : List Mutation) :
    (∀ before, before <+: mutations → (runWith slug p before).DistinctSlots) ↔
      ∀ before m, before ++ [m] <+: mutations → ¬ (runWith slug p before).Collides m := by
  -- The first collision ends the induction: nothing is said about what follows it.
  induction mutations generalizing p with
  | nil =>
      refine iff_of_true (fun before hbefore => ?_) fun before m hbefore => ?_
      · rw [List.prefix_nil.1 hbefore]
        exact h
      · simp at hbefore
  | cons m rest ih =>
      rw [Sequence.forall_prefix_cons_iff, Sequence.forall_step_cons_iff]
      constructor
      · rintro ⟨-, hrest⟩
        have hafter : (m.after slug p).DistinctSlots := hrest [] (List.nil_prefix ..)
        exact ⟨(h.after_iff slug m).1 hafter, (ih hafter).1 hrest⟩
      · rintro ⟨hfirst, hrest⟩
        exact ⟨h, (ih ((h.after_iff slug m).2 hfirst)).2 hrest⟩

/-- A consistent pipeline is valid if and only if its slots are distinct. -/
theorem Consistent.validate_eq_ok_iff (h : p.Consistent) :
    p.validate = .ok () ↔ p.DistinctSlots := by
  rw [Pipeline.validate_eq_ok_iff]
  constructor
  · intro hvalid
    exact hvalid.slots
  · intro hslots
    have hvalues : ∀ v ∈ p.vars, checkValues v.key v.values = .ok () := fun v hv =>
      checkValues_eq_ok_iff.2 ⟨h.vars.values_ok v hv, h.vars.values v hv⟩
    have hbound : ∀ layer ∈ p.layers, ∀ key ∈ layer.variableKeys,
        ∃ found, p.variableFor? key = some found := fun layer hmem key hkey =>
      hasKey_iff.1 (h.bound layer hmem key hkey)
    exact ⟨h.vars.keys_ok, hvalues, h.vars.keys, h.layers.names, hbound, hslots⟩

/-- Along a run from the empty pipeline no layer has two pages for one assignment, if and only if no
mutation carries a new key or value into two assignments that become one; and a pipeline at the end
of a run is refused as invalid for no other reason. -/
theorem distinctSlots_runWith_iff (slug : String → String) (mutations : List Mutation) :
    ((∀ before, before <+: mutations → (runWith slug empty before).DistinctSlots) ↔
        ∀ before m, before ++ [m] <+: mutations → ¬ (runWith slug empty before).Collides m) ∧
      ((runWith slug empty mutations).validate = .ok () ↔
        (runWith slug empty mutations).DistinctSlots) := by
  have hempty : (empty : Pipeline).DistinctSlots := List.nodup_nil
  have hreachable : (runWith slug empty mutations).Reachable slug := ⟨mutations, rfl⟩
  exact ⟨hempty.runWith_iff slug mutations, hreachable.consistent.validate_eq_ok_iff⟩

/-- The page for `dark` is an orphan once that value is removed, and stays. Then `light` becomes
`dark`. -/
theorem not_distinctSlots_runWith_orphan :
    ¬ (runWith plainSlug empty
      [.addVariable "Mode" "mode" ["light", "dark"],
        .addLayer "Theme" ["mode"] false,
        .getOrCreatePage ⟨"layer-theme"⟩ (.ofPairs [("mode", "light")]),
        .getOrCreatePage ⟨"layer-theme"⟩ (.ofPairs [("mode", "dark")]),
        .removeVariableValue "mode" "dark",
        .renameVariableValue "mode" "light" "dark"]).DistinctSlots := by
  decide +kernel

end Pipeline
end DesignTokens
