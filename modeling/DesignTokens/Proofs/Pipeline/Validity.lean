import DesignTokens.Pipeline.Layers
import DesignTokens.Proofs.Edit
import Mathlib.Data.List.Nodup

/-!
# What the checks of pipelines accept

The checks go through a list and keep what they have seen. They accept exactly the lists whose items
are all good and of which no two are alike. `Valid` is what they ask for together; identities are
not among it.
-/

namespace DesignTokens

/-! ## Outcomes of checks -/

theorem Except.bind_eq_ok_iff {ε α β : Type} {x : Except ε α} {f : α → Except ε β} {b : β} :
    (x >>= f) = .ok b ↔ ∃ a, x = .ok a ∧ f a = .ok b := by
  cases x with
  | error e =>
      simp [bind, Except.bind]
  | ok a =>
      simp [bind, Except.bind]

theorem Except.guard_eq_ok_iff {ε β : Type} {c : Prop} [Decidable c] {e : ε}
    {f : Unit → Except ε β} {x : Except ε β} {b : β} :
    (if c then throw e >>= f else x) = .ok b ↔ ¬c ∧ x = .ok b := by
  by_cases hc : c
  · simp [hc, throw, throwThe, MonadExceptOf.throw, bind, Except.bind]
  · simp [hc]

/-! ## Values and bindings -/

/-- The check of values passes over distinct names that have not been seen. -/
theorem checkValuesAfter_eq_ok_iff {key : String} {seen values : List String} :
    checkValuesAfter key seen values = .ok () ↔
      (∀ value ∈ values, checkName value = .ok () ∧ value ∉ seen) ∧ values.Nodup := by
  induction values generalizing seen with
  | nil =>
      simp [checkValuesAfter]
  | cons value rest ih =>
      rw [checkValuesAfter, List.forall_mem_cons, List.nodup_cons]
      cases hname : checkName value with
      | error e =>
          simp
      | ok u =>
          -- What has been seen grows, so that it is distinct from all that follows.
          by_cases hseen : value ∈ seen
          · simp [hseen]
          · simp only [hseen, if_false, ih, List.mem_cons, not_or]
            constructor
            · rintro ⟨hall, hnodup⟩
              refine ⟨⟨⟨trivial, not_false⟩, fun other hmem => ?_⟩, fun hmem => ?_, hnodup⟩
              · exact ⟨(hall other hmem).1, (hall other hmem).2.2⟩
              · exact (hall value hmem).2.1 rfl
            · rintro ⟨⟨-, hall⟩, hnotMem, hnodup⟩
              refine ⟨fun other hmem => ⟨(hall other hmem).1, ?_, (hall other hmem).2⟩, hnodup⟩
              rintro rfl
              exact hnotMem hmem

/-- Values are accepted when none is blank and none repeats. -/
theorem checkValues_eq_ok_iff {key : String} {values : List String} :
    checkValues key values = .ok () ↔
      (∀ value ∈ values, checkName value = .ok ()) ∧ values.Nodup := by
  simp [checkValues, checkValuesAfter_eq_ok_iff]

namespace Pipeline

variable {p : Pipeline}

/-- The check of bindings passes over distinct known keys that have not been seen. -/
theorem checkBindings_eq_ok_iff {layer : String} {seen keys : List String} :
    p.checkBindings layer seen keys = .ok () ↔
      (∀ key ∈ keys, (∃ found, p.variableFor? key = some found) ∧ key ∉ seen) ∧ keys.Nodup := by
  induction keys generalizing seen with
  | nil =>
      simp [checkBindings]
  | cons key rest ih =>
      rw [checkBindings, List.forall_mem_cons, List.nodup_cons]
      cases hfound : p.variableFor? key with
      | none =>
          simp
      | some found =>
          by_cases hseen : key ∈ seen
          · simp [hseen]
          · -- The key is known and new. The others are not seen before nor equal to it.
            simp only [hseen, if_false, Option.isNone_some, Bool.false_eq_true, ih, List.mem_cons,
              not_or]
            constructor
            · rintro ⟨hall, hnodup⟩
              refine ⟨⟨⟨⟨found, rfl⟩, not_false⟩, fun other hmem => ?_⟩, fun hmem => ?_, hnodup⟩
              · exact ⟨(hall other hmem).1, (hall other hmem).2.2⟩
              · exact (hall key hmem).2.1 rfl
            · rintro ⟨⟨-, hall⟩, hnotMem, hnodup⟩
              refine ⟨fun other hmem => ⟨(hall other hmem).1, ?_, (hall other hmem).2⟩, hnodup⟩
              rintro rfl
              exact hnotMem hmem

/-! ## Variables, layers and pages -/

/-- The check of variables passes over valid ones with distinct new keys. -/
theorem checkVariables_eq_ok_iff {seen : List String} {vars : List Variable} :
    checkVariables seen vars = .ok () ↔
      (∀ v ∈ vars, checkKey v.key = .ok () ∧ checkValues v.key v.values = .ok () ∧ v.key ∉ seen) ∧
        (vars.map (·.key)).Nodup := by
  induction vars generalizing seen with
  | nil =>
      simp [checkVariables]
  | cons v rest ih =>
      rw [checkVariables, List.forall_mem_cons, List.map_cons, List.nodup_cons, List.mem_map]
      simp only [Except.bind_eq_ok_iff, Except.guard_eq_ok_iff, ih, List.mem_cons, not_or]
      constructor
      · rintro ⟨_, hkey, hseen, _, hvalues, hall, hnodup⟩
        refine ⟨⟨⟨hkey, hvalues, hseen⟩, fun w hw => ?_⟩, ?_, hnodup⟩
        · exact ⟨(hall w hw).1, (hall w hw).2.1, (hall w hw).2.2.2⟩
        · rintro ⟨w, hw, heq⟩
          exact (hall w hw).2.2.1 heq
      · rintro ⟨⟨⟨hkey, hvalues, hseen⟩, hall⟩, hnotMem, hnodup⟩
        refine ⟨(), hkey, hseen, (), hvalues, fun w hw => ?_, hnodup⟩
        refine ⟨(hall w hw).1, (hall w hw).2.1, fun heq => hnotMem ⟨w, hw, heq⟩, (hall w hw).2.2⟩

/-- The check of layers passes over known bindings and distinct new names. -/
theorem checkLayers_eq_ok_iff {seen : List String} {layers : List Layer} :
    p.checkLayers seen layers = .ok () ↔
      (∀ layer ∈ layers, layer.name ∉ seen ∧
        ∀ key ∈ layer.variableKeys, ∃ found, p.variableFor? key = some found) ∧
        (layers.map (·.name)).Nodup := by
  induction layers generalizing seen with
  | nil =>
      simp [checkLayers]
  | cons layer rest ih =>
      simp only [checkLayers, Except.guard_eq_ok_iff, List.forall_mem_cons, List.map_cons,
        List.nodup_cons, List.mem_map]
      -- The check stops at the first key that no variable has.
      cases hunknown : layer.variableKeys.find? fun key => (p.variableFor? key).isNone with
      | some key =>
          have hmem := List.mem_of_find?_eq_some hunknown
          have hnone := List.find?_some hunknown
          have hno : ¬ ∀ key ∈ layer.variableKeys, ∃ found, p.variableFor? key = some found := by
            intro hall
            rcases hall key hmem with ⟨found, hfound⟩
            simp [hfound] at hnone
          simp [hno, throw, throwThe, MonadExceptOf.throw]
      | none =>
          have hknown : ∀ key ∈ layer.variableKeys, ∃ found, p.variableFor? key = some found := by
            intro key hmem
            have hsome := List.find?_eq_none.1 hunknown key hmem
            exact Option.isSome_iff_exists.1 (by simpa [Option.isSome_iff_ne_none] using hsome)
          simp only [ih, List.mem_cons, not_or]
          constructor
          · rintro ⟨hseen, hall, hnodup⟩
            refine ⟨⟨⟨hseen, hknown⟩, fun other hmem => ?_⟩, ?_, hnodup⟩
            · exact ⟨(hall other hmem).1.2, (hall other hmem).2⟩
            · rintro ⟨other, hmem, heq⟩
              exact (hall other hmem).1.1 heq
          · rintro ⟨⟨⟨hseen, -⟩, hall⟩, hnotMem, hnodup⟩
            refine ⟨hseen, fun other hmem => ?_, hnodup⟩
            rcases hall other hmem with ⟨hfree, hbound⟩
            exact ⟨⟨fun heq => hnotMem ⟨other, hmem, heq⟩, hfree⟩, hbound⟩

end Pipeline

def Page.slot (page : Page) : LayerId × Assignment :=
  (page.layer, page.assignment)

namespace Pipeline

variable {p : Pipeline}

/-- The check of pages passes over distinct new slots. -/
theorem checkPages_eq_ok_iff {seen : List (LayerId × Assignment)} {pages : List Page} :
    checkPages seen pages = .ok () ↔
      (∀ page ∈ pages, page.slot ∉ seen) ∧ (pages.map Page.slot).Nodup := by
  induction pages generalizing seen with
  | nil =>
      simp [checkPages]
  | cons page rest ih =>
      rw [checkPages, List.forall_mem_cons, List.map_cons, List.nodup_cons, List.mem_map]
      by_cases hseen : (page.layer, page.assignment) ∈ seen
      · simp [hseen, Page.slot]
      · simp only [hseen, if_false, ih, List.mem_cons, not_or]
        constructor
        · rintro ⟨hall, hnodup⟩
          refine ⟨⟨hseen, fun other hmem => (hall other hmem).2⟩, ?_, hnodup⟩
          rintro ⟨other, hmem, heq⟩
          exact (hall other hmem).1 heq
        · rintro ⟨⟨-, hall⟩, hnotMem, hnodup⟩
          exact ⟨fun other hmem => ⟨fun heq => hnotMem ⟨other, hmem, heq⟩, hall other hmem⟩, hnodup⟩

/-! ## Whole pipelines -/

/-- No two pages have one layer and one assignment. -/
def DistinctSlots (p : Pipeline) : Prop :=
  (p.pages.map Page.slot).Nodup

instance (p : Pipeline) : Decidable p.DistinctSlots :=
  inferInstanceAs (Decidable (p.pages.map Page.slot).Nodup)

/-- What the check of a whole pipeline asks for. -/
structure Valid (p : Pipeline) : Prop where
  keys_ok : ∀ v ∈ p.vars, checkKey v.key = .ok ()
  values_ok : ∀ v ∈ p.vars, checkValues v.key v.values = .ok ()
  keys : (p.vars.map (·.key)).Nodup
  names : (p.layers.map (·.name)).Nodup
  bound : ∀ layer ∈ p.layers, ∀ key ∈ layer.variableKeys, ∃ found, p.variableFor? key = some found
  slots : p.DistinctSlots

/-- A pipeline passes validation exactly when it is valid. -/
theorem validate_eq_ok_iff : p.validate = .ok () ↔ p.Valid := by
  simp only [validate, Except.bind_eq_ok_iff]
  constructor
  · intro h
    rcases h with ⟨_, hvars, _, hlayers, hpages⟩
    rcases checkVariables_eq_ok_iff.1 hvars with ⟨hall, hkeys⟩
    rcases checkLayers_eq_ok_iff.1 hlayers with ⟨hbound, hnames⟩
    exact ⟨fun v hv => (hall v hv).1, fun v hv => (hall v hv).2.1, hkeys, hnames,
      fun layer hmem => (hbound layer hmem).2, (checkPages_eq_ok_iff.1 hpages).2⟩
  · intro h
    have hvars : checkVariables [] p.vars = .ok () :=
      checkVariables_eq_ok_iff.2
        ⟨fun v hv => ⟨h.keys_ok v hv, h.values_ok v hv, List.not_mem_nil⟩, h.keys⟩
    have hlayers : p.checkLayers [] p.layers = .ok () :=
      checkLayers_eq_ok_iff.2
        ⟨fun layer hmem => ⟨List.not_mem_nil, h.bound layer hmem⟩, h.names⟩
    exact ⟨(), hvars, (), hlayers, checkPages_eq_ok_iff.2 ⟨fun _ _ => List.not_mem_nil, h.slots⟩⟩

/-- A valid pipeline has distinct values for each variable. -/
theorem Valid.nodup_values (h : p.Valid) : ∀ v ∈ p.vars, v.values.Nodup := fun v hv =>
  (checkValues_eq_ok_iff.1 (h.values_ok v hv)).2

end Pipeline
end DesignTokens
