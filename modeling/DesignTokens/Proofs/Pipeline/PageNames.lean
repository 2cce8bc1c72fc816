import DesignTokens.Proofs.Pipeline.MovedLayers
import DesignTokens.Proofs.Pipeline.Revivals

/-!
# Stored page names

A page keeps the name that its layer gave it when it was made. Renaming a layer or a value brings
the names of all pages up to date but for those of orphans, which no layer names. So an orphan may
be called by an old name, and no other page: other mutations do not change what a layer calls the
pages that still fit it. They can make an orphan fit again, though, and do not look at its name.
-/

namespace DesignTokens

def Layer.withKeys (layer : Layer) (keys : List String) : Layer :=
  { layer with variableKeys := keys }

namespace Pipeline

variable {p q : Pipeline} {m : Mutation} {page after : Page} {layer : Layer} {name : String}
  {slug : String → String}

/-! ## Names that are current -/

/-- The page fits its layer, which gives it this name. -/
def Names (p : Pipeline) (page : Page) (name : String) : Prop :=
  ∃ layer ∈ p.layers, layer.id = page.layer ∧ p.isValidFor layer page.assignment = true ∧
    layer.pageName page.assignment = name

/-- Every page that is no orphan has the name that its layer gives it now. -/
def NamesCurrent (p : Pipeline) : Prop :=
  ∀ page ∈ p.pages, page ∉ p.orphans →
    (p.layer? page.layer).map (·.pageName page.assignment) = some page.name

instance (p : Pipeline) : Decidable p.NamesCurrent :=
  inferInstanceAs (Decidable (∀ page ∈ p.pages, page ∉ p.orphans →
    (p.layer? page.layer).map (·.pageName page.assignment) = some page.name))

/-- The name of a page of a consistent pipeline is its layer's name for the assignment, unless it is
an orphan. -/
theorem Consistent.names_iff (h : p.Consistent) :
    p.Names page name ↔
      p.isOrphan page = false ∧
        (p.layer? page.layer).map (·.pageName page.assignment) = some name := by
  rw [isOrphan_eq_false_iff]
  constructor
  · rintro ⟨layer, hmem, hid, hvalid, hname⟩
    have hfound : p.layer? page.layer = some layer := hid ▸ layer?_of_mem h.layers.ids hmem
    exact ⟨⟨layer, hfound, hvalid⟩, by simp [hfound, hname]⟩
  · rintro ⟨⟨layer, hfound, hvalid⟩, hname⟩
    have hid : layer.id = page.layer := by simpa using List.find?_some hfound
    rw [hfound] at hname
    exact ⟨layer, List.mem_of_find?_eq_some hfound, hid, hvalid, by simpa using hname⟩

/-- Page names are current when no page that has a right name has another one. -/
theorem Consistent.namesCurrent_iff (h : p.Consistent) :
    p.NamesCurrent ↔ ∀ page ∈ p.pages, ∀ name, p.Names page name → page.name = name := by
  constructor
  · intro hcurrent page hmem name hnames
    rcases h.names_iff.1 hnames with ⟨hlive, hname⟩
    have hnot : page ∉ p.orphans := by simp [mem_orphans_iff hmem, hlive]
    rw [hcurrent page hmem hnot] at hname
    exact Option.some.inj hname
  · intro hcurrent page hmem hnot
    have hlive : p.isOrphan page = false := by simpa [mem_orphans_iff hmem] using hnot
    rcases isOrphan_eq_false_iff.1 hlive with ⟨layer, hfound, -⟩
    have hname : (p.layer? page.layer).map (·.pageName page.assignment) =
        some (layer.pageName page.assignment) := by
      simp [hfound]
    rw [hname, hcurrent page hmem _ (h.names_iff.2 ⟨hlive, hname⟩)]

/-- Pages that are called anew are called by their current names. -/
theorem Consistent.namesCurrent_refreshPageNames (h : p.Consistent) :
    p.refreshPageNames.NamesCurrent := by
  refine h.refreshPageNames.namesCurrent_iff.2 fun after hafter name hnames => ?_
  rcases List.mem_map.1 hafter with ⟨page, -, rfl⟩
  have hunnamed := unnamed_refreshedPage p page
  simp only [Page.unnamed, Prod.mk.injEq] at hunnamed
  rcases hunnamed with ⟨-, hlayer, hassignment, -⟩
  have hbefore : p.Names page name := by
    rcases hnames with ⟨layer, hmem, hid, hvalid, hname⟩
    rw [hassignment] at hvalid hname
    exact ⟨layer, hmem, hid.trans hlayer, hvalid, hname⟩
  rcases h.names_iff.1 hbefore with ⟨hlive, hname⟩
  rcases isOrphan_eq_false_iff.1 hlive with ⟨layer, hfound, hvalid⟩
  simp only [refreshedPage, hfound, hvalid, if_true]
  simpa [hfound] using hname

/-! ## What a pipeline permits -/

/-- A consistent pipeline permits the values of its variables. -/
theorem Consistent.permits_iff_mem (h : p.Consistent) {key text : String} :
    p.permits key text = true ↔ ∃ v ∈ p.vars, v.key = key ∧ text ∈ v.values := by
  rw [permits_iff]
  constructor
  · rintro ⟨found, hfound, htext⟩
    rcases mem_of_variableFor? hfound with ⟨hmem, hkey⟩
    exact ⟨found, hmem, hkey, htext⟩
  · rintro ⟨v, hmem, hkey, htext⟩
    rcases hasKey_iff.1 (hkey ▸ List.mem_map_of_mem hmem : p.HasKey key) with ⟨found, hfound⟩
    exact ⟨found, hfound, h.eq_of_variableFor? hfound hmem hkey ▸ htext⟩

/-- An assignment still fits where its values are permitted. -/
theorem isValidFor_of_permits {a : Assignment} (hvalid : p.isValidFor layer a = true)
    (h : ∀ key ∈ layer.variableKeys, ∀ text, a[key]? = some text → p.permits key text = true →
      q.permits key text = true) : q.isValidFor layer a = true := by
  simp only [isValidFor, Bool.and_eq_true, List.all_eq_true, Option.any_eq_true] at hvalid ⊢
  refine ⟨hvalid.1, fun key hkey => ?_⟩
  rcases hvalid.2 key hkey with ⟨text, htext, hpermits⟩
  exact ⟨text, htext, h key hkey text htext hpermits⟩

/-- A found layer is there after its update. -/
theorem Consistent.mem_updateLayer (h : p.Consistent) {id : LayerId} {change : Layer → Layer}
    (hfound : p.layer? id = some layer) : change layer ∈ (p.updateLayer id change).layers := by
  have hid : layer.id = id := by simpa using List.find?_some hfound
  rw [Pipeline.updateLayer, Sequence.updateFirst_eq_map h.layers.ids]
  exact List.mem_map.2 ⟨layer, List.mem_of_find?_eq_some hfound, if_pos hid⟩

/-! ## Orphans that fit again -/

inductive Rebinds (p : Pipeline) : Mutation → Layer → List String → Prop where
  | bindVariable {id : LayerId} {key : String} {layer : Layer} {found : Variable}
      (layer_known : p.layer? id = some layer) (known : p.variableFor? key = some found)
      (free : key ∉ layer.variableKeys) :
      Rebinds p (.bindVariable id key) layer (layer.variableKeys ++ [key])
  | unbindVariable {id : LayerId} {key : String} {layer : Layer}
      (layer_known : p.layer? id = some layer) (bound : key ∈ layer.variableKeys) :
      Rebinds p (.unbindVariable id key) layer (layer.variableKeys.erase key)
  | removeVariable {key : String} {layer : Layer} (layer_known : layer ∈ p.layers)
      (bound : key ∈ layer.variableKeys) :
      Rebinds p (.removeVariable key) layer (layer.variableKeys.filter (· ≠ key))

/-- The mutation is accepted and makes an orphan fit its layer, which gives it this name then: the
layer is bound to other variables, or has its value back, or the orphan has the new key already. -/
inductive Readmits (p : Pipeline) : Mutation → Page → String → Prop where
  | rebind {m : Mutation} {page : Page} {layer : Layer} {keys : List String}
      (rebinds : p.Rebinds m layer keys) (home : layer.id = page.layer)
      (fits : p.isValidFor (layer.withKeys keys) page.assignment = true) :
      Readmits p m page ((layer.withKeys keys).pageName page.assignment)
  | value {key value : String} {found : Variable} {page : Page} {layer : Layer}
      (known : p.variableFor? key = some found) (value_ok : checkName value = .ok ())
      (free : value ∉ found.values) (layer_known : layer ∈ p.layers) (home : layer.id = page.layer)
      (has : page.assignment[key]? = some value)
      (fits : (p.updateVariable key fun v => { v with values := v.values ++ [value] }).isValidFor
        layer page.assignment = true) :
      Readmits p (.addVariableValue key value) page (layer.pageName page.assignment)
  | key {key newKey : String} {found : Variable} {page : Page} {layer : Layer}
      (known : p.variableFor? key = some found) (key_ok : checkKey newKey = .ok ())
      (free : p.variableFor? newKey = none) (layer_known : layer ∈ p.layers)
      (home : layer.id = page.layer) (has : (Renaming.key key newKey).Stale page.assignment)
      (fits : p.isValidFor layer ((Renaming.key key newKey).readBack page.assignment) = true) :
      Readmits p (.setVariableKey key newKey) page
        (layer.pageName ((Renaming.key key newKey).readBack page.assignment))

/-- The mutation makes an orphan fit its layer again that is called by another name. -/
def Outdates (p : Pipeline) (m : Mutation) : Prop :=
  ∃ page ∈ p.pages, ∃ name, p.Readmits m page name ∧ page.name ≠ name

/-- A mutation whose run is accepted takes the step that the run comes to. -/
theorem step_after_of_run {α : Type} {edit : PipelineEdit α} {a : α}
    (hedit : m.edit slug = edit.void) (hrun : edit.run p = .ok a q) (hstep : Step p m q) :
    Step p m (m.after slug p) := by
  rw [Mutation.after, hedit, Edit.stateAfter_void, Edit.stateAfter_of_ok hrun]
  exact hstep

/-- A mutation that makes orphans fit again is accepted. -/
theorem Readmits.step (h : p.Consistent) (hreadmits : p.Readmits m page name)
    (slug : String → String) : Step p m (m.after slug p) := by
  cases hreadmits with
  | rebind rebinds home fits =>
      cases rebinds with
      | bindVariable layer_known known free =>
          have hrun := run_bindVariable_eq_ok (u := ()).2 ⟨_, _, layer_known, known, free, rfl⟩
          exact step_after_of_run rfl hrun (.bindVariable layer_known known free)
      | unbindVariable layer_known bound =>
          have hrun := run_unbindVariable_eq_ok (u := ()).2 ⟨_, layer_known, bound, rfl⟩
          exact step_after_of_run rfl hrun .unbindVariable
      | removeVariable layer_known bound =>
          rcases hasKey_iff.1 (h.bound _ layer_known _ bound) with ⟨found, hfound⟩
          have hrun := run_removeVariable_eq_ok.2 ⟨hfound, rfl⟩
          exact step_after_of_run rfl hrun .removeVariable
  | value known value_ok free _ _ _ _ =>
      have hrun := run_addVariableValue_eq_ok (u := ()).2 ⟨_, known, value_ok, free, rfl⟩
      exact step_after_of_run rfl hrun (.addVariableValue known value_ok free)
  | key known key_ok free _ _ _ _ =>
      have hrun := run_setVariableKey_eq_ok (u := ()).2 ⟨⟨_, known⟩, key_ok, Or.inr ⟨free, rfl⟩⟩
      exact step_after_of_run rfl hrun (.setVariableKey known key_ok free)

theorem Rebinds.length_ne {keys : List String} (h : p.Rebinds m layer keys) :
    keys.length ≠ layer.variableKeys.length := by
  cases h with
  | bindVariable =>
      simp
  | unbindVariable _ bound =>
      have hpos := List.length_pos_of_mem bound
      rw [List.length_erase_of_mem bound]
      omega
  | removeVariable _ bound =>
      exact Nat.ne_of_lt (List.length_filter_lt_length_iff_exists.2 ⟨_, bound, by simp⟩)

theorem Rebinds.mem_layers {keys : List String} (h : p.Rebinds m layer keys) :
    layer ∈ p.layers := by
  cases h with
  | bindVariable layer_known =>
      exact List.mem_of_find?_eq_some layer_known
  | unbindVariable layer_known =>
      exact List.mem_of_find?_eq_some layer_known
  | removeVariable layer_known =>
      exact layer_known

/-- Only an orphan is made to fit again. -/
theorem Readmits.mem_orphans (h : p.Consistent) (hreadmits : p.Readmits m page name)
    (hmem : page ∈ p.pages) : page ∈ p.orphans := by
  refine (mem_orphans_iff hmem).2 ?_
  by_contra hnot
  have hlive : p.isOrphan page = false := Bool.eq_false_iff.2 hnot
  rcases isOrphan_eq_false_iff.1 hlive with ⟨layer, hfound, hvalid⟩
  cases hreadmits with
  | rebind rebinds home fits =>
      -- The assignment has as many pairs as its layer has bindings, before as afterwards.
      have hsame := h.eq_of_layer? hfound rebinds.mem_layers home
      subst hsame
      simp only [isValidFor, Bool.and_eq_true, decide_eq_true_eq] at hvalid fits
      exact rebinds.length_ne (fits.1.symm.trans hvalid.1)
  | value known _ free _ _ has _ =>
      have hnodup := h.layers.bindings layer (List.mem_of_find?_eq_some hfound)
      have hpermits := ((isValidFor_iff hnodup).1 hvalid).2 _ _ has
      rcases permits_iff.1 hpermits with ⟨found, hknown, hvalue⟩
      rw [known, Option.some.injEq] at hknown
      exact free (hknown ▸ hvalue)
  | key _ _ free _ _ has _ =>
      exact (renames_withVariableKey h free).not_stale_of_isOrphan_eq_false h hlive has

/-! ## One step -/

/-- What a layer calls a page comes from before a step that changes neither the names nor the
bindings of layers that have pages, and permits nothing new. -/
theorem Names.of_step (hnames : q.Names after name)
    (hlayers : ∀ layer ∈ q.layers, layer.id = after.layer →
      ∃ old ∈ p.layers, old.id = layer.id ∧ old.name = layer.name ∧
        old.variableKeys = layer.variableKeys)
    (hpermits : ∀ layer ∈ p.layers, ∀ key ∈ layer.variableKeys, ∀ text,
      q.permits key text = true → p.permits key text = true)
    (hlayer : page.layer = after.layer) (hassignment : page.assignment = after.assignment) :
    p.Names page name := by
  rcases hnames with ⟨layer, hmem, hid, hvalid, hname⟩
  rcases hlayers layer hmem hid with ⟨old, hold, holdId, holdName, hkeys⟩
  refine ⟨old, hold, holdId.trans (hid.trans hlayer.symm), ?_, ?_⟩
  · rw [isValidFor, ← hkeys] at hvalid
    rw [hassignment]
    exact isValidFor_of_permits (p := q) hvalid fun key hkey text _ =>
      hpermits old hold key hkey text
  · rw [Layer.pageName, holdName, hkeys, hassignment]
    exact hname

/-- A step keeps names current if what a layer calls a page afterwards it has called it before, or
calls an orphan that fits again. -/
theorem Consistent.namesCurrent_iff_of_names (h : p.Consistent) (hq : q.Consistent)
    (hcurrent : p.NamesCurrent)
    (hfrom : ∀ after ∈ q.pages, ∀ name, q.Names after name →
      ∃ page ∈ p.pages, page.name = after.name ∧ (p.Names page name ∨ p.Readmits m page name))
    (hinto : ∀ page ∈ p.pages, ∀ name, p.Readmits m page name →
      ∃ after ∈ q.pages, after.name = page.name ∧ q.Names after name) :
    q.NamesCurrent ↔ ¬ p.Outdates m := by
  rw [h.namesCurrent_iff] at hcurrent
  rw [hq.namesCurrent_iff]
  constructor
  · rintro hall ⟨page, hpage, name, hreadmits, hne⟩
    rcases hinto page hpage name hreadmits with ⟨after, hafter, hsame, hnames⟩
    exact hne (hsame.symm.trans (hall after hafter name hnames))
  · intro hnone after hafter name hnames
    rcases hfrom after hafter name hnames with ⟨page, hpage, hsame, hbefore | hreadmits⟩
    · exact hsame.symm.trans (hcurrent page hpage name hbefore)
    · by_contra hne
      exact hnone ⟨page, hpage, name, hreadmits, fun heq => hne (hsame.symm.trans heq)⟩

/-- A step that makes no orphan fit again keeps names current. -/
theorem Consistent.namesCurrent_of_kept (h : p.Consistent) (hq : q.Consistent)
    (hcurrent : p.NamesCurrent)
    (hpages : ∀ after ∈ q.pages, ∃ page ∈ p.pages, page.name = after.name ∧
      page.layer = after.layer ∧ page.assignment = after.assignment)
    (hlayers : ∀ layer ∈ q.layers, layer.id ∈ p.layers.map (·.id) →
      ∃ old ∈ p.layers, old.id = layer.id ∧ old.name = layer.name ∧
        old.variableKeys = layer.variableKeys)
    (hpermits : ∀ layer ∈ p.layers, ∀ key ∈ layer.variableKeys, ∀ text,
      q.permits key text = true → p.permits key text = true) : q.NamesCurrent := by
  refine hq.namesCurrent_iff.2 fun after hafter name hnames => ?_
  rcases hpages after hafter with ⟨page, hpage, hname, hlayer, hassignment⟩
  have hhome : after.layer ∈ p.layers.map (·.id) := hlayer ▸ h.pages.homes page hpage
  refine hname.symm.trans (h.namesCurrent_iff.1 hcurrent page hpage name ?_)
  exact hnames.of_step (fun layer hmem hid => hlayers layer hmem (hid ▸ hhome)) hpermits hlayer
    hassignment

/-- Other bindings make orphans fit again, and what fitted them before fits no more or as before. -/
theorem Consistent.namesCurrent_iff_of_rebinds (h : p.Consistent) (hq : q.Consistent)
    (hcurrent : p.NamesCurrent) (hpages : q.pages = p.pages)
    (hvalue : ∀ key value, m ≠ .addVariableValue key value)
    (hkey : ∀ key newKey, m ≠ .setVariableKey key newKey)
    (hpermits : ∀ key text, q.permits key text = true → p.permits key text = true)
    (hfrom : ∀ layer ∈ q.layers, layer ∈ p.layers ∨
      ∃ old keys, p.Rebinds m old keys ∧ layer = old.withKeys keys)
    (hinto : ∀ old keys, p.Rebinds m old keys → old.withKeys keys ∈ q.layers ∧
      ∀ key ∈ keys, ∀ text, p.permits key text = true → q.permits key text = true) :
    q.NamesCurrent ↔ ¬ p.Outdates m := by
  refine h.namesCurrent_iff_of_names hq hcurrent ?_ ?_
  · rintro page hpage name ⟨layer, hmem, hid, hvalid, rfl⟩
    have hbefore : p.isValidFor layer page.assignment = true :=
      isValidFor_of_permits hvalid fun key _ text _ => hpermits key text
    refine ⟨page, hpages ▸ hpage, rfl, ?_⟩
    rcases hfrom layer hmem with hold | ⟨old, keys, hrebinds, rfl⟩
    · exact Or.inl ⟨layer, hold, hid, hbefore, rfl⟩
    · exact Or.inr (.rebind hrebinds hid hbefore)
  · intro page hpage name hreadmits
    refine ⟨page, hpages ▸ hpage, rfl, ?_⟩
    cases hreadmits with
    | rebind rebinds home fits =>
        rcases hinto _ _ rebinds with ⟨hmem, hback⟩
        exact ⟨_, hmem, home, isValidFor_of_permits fits fun key hbound text _ =>
          hback key hbound text, rfl⟩
    | value =>
        exact absurd rfl (hvalue _ _)
    | key =>
        exact absurd rfl (hkey _ _)

/-- Binding a variable to a layer keeps page names current exactly when it outdates none of them. -/
theorem Consistent.namesCurrent_bindVariable (h : p.Consistent) (hcurrent : p.NamesCurrent)
    {id : LayerId} {key : String} {found : Variable} (layer_known : p.layer? id = some layer)
    (known : p.variableFor? key = some found) (free : key ∉ layer.variableKeys)
    (hq : (p.updateLayer id fun l =>
      { l with variableKeys := l.variableKeys ++ [key] }).Consistent) :
    (p.updateLayer id fun l => { l with variableKeys := l.variableKeys ++ [key] }).NamesCurrent ↔
      ¬ p.Outdates (.bindVariable id key) := by
  refine h.namesCurrent_iff_of_rebinds hq hcurrent rfl nofun nofun (fun _ _ hp => hp) ?_ ?_
  · intro after hafter
    rcases Sequence.mem_updateFirst hafter with hold | ⟨old, hold, hid, rfl⟩
    · exact Or.inl hold
    · have hsame : old = layer := h.eq_of_layer? layer_known hold (by simpa using hid)
      subst hsame
      exact Or.inr ⟨_, _, .bindVariable layer_known known free, rfl⟩
  · intro old keys hrebinds
    cases hrebinds with
    | bindVariable layer_known _ _ =>
        exact ⟨h.mem_updateLayer layer_known, fun _ _ _ hp => hp⟩

/-- Unbinding a variable from a layer keeps page names current exactly when it outdates none of
them. -/
theorem Consistent.namesCurrent_unbindVariable (h : p.Consistent) (hcurrent : p.NamesCurrent)
    {id : LayerId} {key : String}
    (hq : (p.updateLayer id fun l =>
      { l with variableKeys := l.variableKeys.erase key }).Consistent) :
    (p.updateLayer id fun l => { l with variableKeys := l.variableKeys.erase key }).NamesCurrent ↔
      ¬ p.Outdates (.unbindVariable id key) := by
  refine h.namesCurrent_iff_of_rebinds hq hcurrent rfl nofun nofun (fun _ _ hp => hp) ?_ ?_
  · intro after hafter
    rcases Sequence.mem_updateFirst hafter with hold | ⟨old, hold, hid, rfl⟩
    · exact Or.inl hold
    · have hfound : p.layer? id = some old := by
        have heq : old.id = id := by simpa using hid
        exact heq ▸ layer?_of_mem h.layers.ids hold
      -- A layer that does not bind the key is as it was.
      by_cases hbound : key ∈ old.variableKeys
      · exact Or.inr ⟨_, _, .unbindVariable hfound hbound, rfl⟩
      · rw [List.erase_of_not_mem hbound]
        exact Or.inl hold
  · intro old keys hrebinds
    cases hrebinds with
    | unbindVariable layer_known _ =>
        exact ⟨h.mem_updateLayer layer_known, fun _ _ _ hp => hp⟩

/-- Removing a variable keeps page names current exactly when it outdates none of them. -/
theorem Consistent.namesCurrent_withoutVariable (h : p.Consistent) (hcurrent : p.NamesCurrent)
    {key : String} (hq : (p.withoutVariable key).Consistent) :
    (p.withoutVariable key).NamesCurrent ↔ ¬ p.Outdates (.removeVariable key) := by
  refine h.namesCurrent_iff_of_rebinds hq hcurrent rfl nofun nofun ?_ ?_ ?_
  · intro other text hpermits
    rcases hq.permits_iff_mem.1 hpermits with ⟨v, hmem, hkey, htext⟩
    exact h.permits_iff_mem.2 ⟨v, List.mem_of_mem_eraseP hmem, hkey, htext⟩
  · intro after hafter
    rcases List.mem_map.1 hafter with ⟨old, hold, rfl⟩
    -- A layer without the key keeps its bindings.
    by_cases hbound : key ∈ old.variableKeys
    · exact Or.inr ⟨_, _, .removeVariable hold hbound, rfl⟩
    · have hsame : old.variableKeys.filter (· ≠ key) = old.variableKeys :=
        List.filter_eq_self.2 fun other hother =>
          decide_eq_true fun heq => hbound (heq ▸ hother)
      rw [Layer.dropKey, hsame]
      exact Or.inl hold
  · intro old keys hrebinds
    cases hrebinds with
    | removeVariable layer_known bound =>
        refine ⟨List.mem_map_of_mem layer_known, fun other hother text hpermits => ?_⟩
        -- The other keys still have their variables.
        have hne : other ≠ key := by simpa using List.of_mem_filter hother
        rcases h.permits_iff_mem.1 hpermits with ⟨v, hmem, hkey, htext⟩
        refine hq.permits_iff_mem.2 ⟨v, ?_, hkey, htext⟩
        exact (List.mem_eraseP_of_neg (by simp [hkey, hne])).2 hmem

/-- A new value makes those pages fit that have it already. -/
theorem Consistent.namesCurrent_addVariableValue (h : p.Consistent) (hcurrent : p.NamesCurrent)
    {key value : String} {found : Variable} (known : p.variableFor? key = some found)
    (value_ok : checkName value = .ok ()) (free : value ∉ found.values)
    (hq : (p.updateVariable key fun v => { v with values := v.values ++ [value] }).Consistent) :
    (p.updateVariable key fun v => { v with values := v.values ++ [value] }).NamesCurrent ↔
      ¬ p.Outdates (.addVariableValue key value) := by
  refine h.namesCurrent_iff_of_names hq hcurrent ?_ ?_
  · rintro page hpage name ⟨layer, hmem, hid, hvalid, rfl⟩
    refine ⟨page, hpage, rfl, ?_⟩
    by_cases hhas : page.assignment[key]? = some value
    · -- The page has the new value, and may be the one that fits again.
      exact Or.inr (.value known value_ok free hmem hid hhas hvalid)
    · -- Without the new value it fitted before.
      refine Or.inl ⟨layer, hmem, hid, isValidFor_of_permits hvalid ?_, rfl⟩
      intro other _ text htext hpermits
      rcases hq.permits_iff_mem.1 hpermits with ⟨v, hv, hkey, hvalue⟩
      refine h.permits_iff_mem.2 ?_
      rcases Sequence.mem_updateFirst hv with hold | ⟨old, hold, holdKey, rfl⟩
      · exact ⟨v, hold, hkey, hvalue⟩
      · rcases List.mem_append.1 hvalue with hbefore | hnew
        · exact ⟨old, hold, hkey, hbefore⟩
        · have holdKey' : old.key = key := by simpa using holdKey
          have hother : key = other := holdKey'.symm.trans hkey
          rw [← hother, List.mem_singleton.1 hnew] at htext
          exact absurd htext hhas
  · intro page hpage name hreadmits
    cases hreadmits with
    | rebind rebinds =>
        cases rebinds
    | value _ _ _ layer_known home _ fits =>
        exact ⟨page, hpage, rfl, _, layer_known, home, fits, rfl⟩

/-- What a layer calls a page does not depend on how keys are spelled. -/
theorem pageName_onLayer {key newKey : String} {a : Assignment}
    (hkeys : ∀ other ∈ layer.variableKeys, (Renaming.key key newKey).ApartKey other) :
    ((Renaming.key key newKey).onLayer layer).pageName
        ((Renaming.key key newKey).onAssignment a) =
      layer.pageName ((Renaming.key key newKey).readBack a) := by
  have hvalues : ∀ other ∈ layer.variableKeys,
      ((Renaming.key key newKey).onAssignment a)[(Renaming.key key newKey).onKey other]? =
        ((Renaming.key key newKey).readBack a)[other]? := by
    intro other hother
    rw [← Renaming.onAssignment_readBack,
      Renaming.getElem?_onAssignment (Renaming.not_stale_readBack _ a) (hkeys other hother)]
    simp
  have hlist := List.filterMap_congr hvalues
  simp only [Layer.pageName, Renaming.onLayer, List.filterMap_map, Function.comp_def, hlist]

/-- With another key for a variable, an orphan that has the key already is taken for the page that
it would be under the old one. -/
theorem Consistent.namesCurrent_setVariableKey (h : p.Consistent) (hcurrent : p.NamesCurrent)
    {key newKey : String} {found : Variable} (known : p.variableFor? key = some found)
    (key_ok : checkKey newKey = .ok ()) (free : p.variableFor? newKey = none)
    (hq : (p.withVariableKey key newKey).Consistent) :
    (p.withVariableKey key newKey).NamesCurrent ↔ ¬ p.Outdates (.setVariableKey key newKey) := by
  have hrenames : Renames (.key key newKey) p (p.withVariableKey key newKey) :=
    renames_withVariableKey h free
  have hname : ∀ layer ∈ p.layers, ∀ a : Assignment,
      ((Renaming.key key newKey).onLayer layer).pageName
          ((Renaming.key key newKey).onAssignment a) =
        layer.pageName ((Renaming.key key newKey).readBack a) := fun layer hmem _ =>
    pageName_onLayer (hrenames.apartKey_of_bound h hmem)
  refine h.namesCurrent_iff_of_names hq hcurrent ?_ ?_
  · rintro after hafter name ⟨renamed, hrenamed, hid, hvalid, hcalled⟩
    rcases List.mem_map.1 hafter with ⟨page, hpage, rfl⟩
    rcases List.mem_map.1 (hrenames.layers ▸ hrenamed) with ⟨layer, hmem, rfl⟩
    have hfits := (hrenames.isValidFor_readBack h hmem page.assignment).symm.trans hvalid
    have hbefore := (hname layer hmem page.assignment).symm.trans hcalled
    refine ⟨page, hpage, rfl, ?_⟩
    by_cases hstale : (Renaming.key key newKey).Stale page.assignment
    · -- A page with the new key is one that the call makes fit again.
      exact hbefore ▸ Or.inr (.key known key_ok free hmem hid hstale hfits)
    · -- Any other page fits as it did before.
      rw [Renaming.readBack, Renaming.inverse_onAssignment hstale] at hfits hbefore
      exact Or.inl ⟨layer, hmem, hid, hfits, hbefore⟩
  · intro page hpage name hreadmits
    cases hreadmits with
    | rebind rebinds =>
        cases rebinds
    | key _ _ _ layer_known home _ fits =>
        refine ⟨_, List.mem_map_of_mem hpage, rfl, (Renaming.key key newKey).onLayer _, ?_, home,
          ?_, hname _ layer_known page.assignment⟩
        · rw [hrenames.layers]
          exact List.mem_map_of_mem layer_known
        · exact (hrenames.isValidFor_readBack h layer_known page.assignment).trans fits

/-- Values that a variable loses are not permitted any more, and no others are. -/
theorem Consistent.permits_of_updateVariable (h : p.Consistent) {key : String}
    {change : Variable → Variable} (hq : (p.updateVariable key change).Consistent)
    (hkey : ∀ v, (change v).key = v.key) (hvalues : ∀ v, (change v).values ⊆ v.values)
    {other text : String} (hpermits : (p.updateVariable key change).permits other text = true) :
    p.permits other text = true := by
  rcases hq.permits_iff_mem.1 hpermits with ⟨v, hmem, hother, htext⟩
  rcases Sequence.mem_updateFirst hmem with hold | ⟨old, hold, -, rfl⟩
  · exact h.permits_iff_mem.2 ⟨v, hold, hother, htext⟩
  · exact h.permits_iff_mem.2 ⟨old, hold, (hkey old).symm.trans hother, hvalues old htext⟩

/-- A new page is called by its current name. -/
theorem Consistent.namesCurrent_append (h : p.Consistent) (hcurrent : p.NamesCurrent)
    (hfound : p.layer? page.layer = some layer) (hname : page.name = layer.pageName page.assignment)
    (hq : { p with pages := p.pages ++ [page] }.Consistent) :
    { p with pages := p.pages ++ [page] }.NamesCurrent := by
  refine hq.namesCurrent_iff.2 fun after hafter name hnames => ?_
  have hbefore : p.Names after name := hnames
  rcases List.mem_append.1 hafter with hold | hnew
  · exact h.namesCurrent_iff.1 hcurrent after hold name hbefore
  · have hcalled := (h.names_iff.1 hbefore).2
    rw [List.mem_singleton.1 hnew] at hcalled ⊢
    rw [hfound] at hcalled
    exact hname.trans (Option.some.inj hcalled)

/-- A new variable names no page anew. -/
theorem Consistent.namesCurrent_addVariable {v : Variable} (h : p.Consistent)
    (hcurrent : p.NamesCurrent) (hfree : p.variableFor? v.key = none)
    (hq : { p with vars := p.vars ++ [v] }.Consistent) :
    { p with vars := p.vars ++ [v] }.NamesCurrent := by
  refine h.namesCurrent_of_kept hq hcurrent (fun page hmem => ⟨page, hmem, rfl, rfl, rfl⟩)
    (fun layer hmem _ => ⟨layer, hmem, rfl, rfl, rfl⟩) ?_
  -- A key that is bound has a variable already, and the new one permits nothing more for it.
  intro layer hlayer key hkey text hpermits
  rcases hq.permits_iff_mem.1 hpermits with ⟨other, hmem, heq, htext⟩
  rcases List.mem_append.1 hmem with hold | hnew
  · exact h.permits_iff_mem.2 ⟨other, hold, heq, htext⟩
  · have hbound := h.bound layer hlayer key hkey
    rw [← heq, List.mem_singleton.1 hnew] at hbound
    exact absurd hbound (not_hasKey_of_variableFor?_eq_none hfree)

/-- A new layer names no page, as none is at home in it. -/
theorem Consistent.namesCurrent_addLayer (h : p.Consistent) (hcurrent : p.NamesCurrent)
    (hfresh : layer.id ∉ p.layers.map (·.id))
    (hq : { p with layers := p.layers ++ [layer] }.Consistent) :
    { p with layers := p.layers ++ [layer] }.NamesCurrent := by
  refine h.namesCurrent_of_kept hq hcurrent (fun page hmem => ⟨page, hmem, rfl, rfl, rfl⟩) ?_
    fun _ _ _ _ _ hp => hp
  intro other hmem hhome
  rcases List.mem_append.1 hmem with hold | hnew
  · exact ⟨other, hold, rfl, rfl, rfl⟩
  · rw [List.mem_singleton.1 hnew] at hhome
    exact absurd hhome hfresh

/-- Tokens have no part in the names of pages. -/
theorem Consistent.namesCurrent_of_sameFrame (h : p.Consistent) (hcurrent : p.NamesCurrent)
    (hsame : SameFrame p q) (hq : q.Consistent) : q.NamesCurrent := by
  refine h.namesCurrent_of_kept hq hcurrent ?_ ?_ ?_
  · intro after hafter
    have hlabel : after.label ∈ p.pages.map Page.label :=
      hsame.labels ▸ List.mem_map_of_mem hafter
    rcases List.mem_map.1 hlabel with ⟨page, hpage, heq⟩
    simp only [Page.label, Prod.mk.injEq] at heq
    exact ⟨page, hpage, heq.2.2.1, heq.2.1, heq.2.2.2⟩
  · intro layer hmem _
    exact ⟨layer, hsame.layers ▸ hmem, rfl, rfl, rfl⟩
  · intro layer _ key _ text hpermits
    rwa [permits, variableFor?, hsame.vars] at hpermits

/-- A mutation of tokens makes no orphan fit again. -/
theorem not_outdates_of_editsTokens (htokens : m.EditsTokens) : ¬ p.Outdates m := by
  rintro ⟨page, -, name, hreadmits, -⟩
  cases hreadmits with
  | rebind rebinds =>
      cases rebinds <;> exact htokens
  | value =>
      exact htokens
  | key =>
      exact htokens

/-- One step keeps names current unless it makes an orphan fit again under another name. -/
theorem Consistent.namesCurrent_step_iff (h : p.Consistent) (hcurrent : p.NamesCurrent)
    (hstep : Step p m q) : q.NamesCurrent ↔ ¬ p.Outdates m := by
  have hq := h.step hstep
  have hpages : ∀ page ∈ p.pages, ∃ old ∈ p.pages, old.name = page.name ∧
      old.layer = page.layer ∧ old.assignment = page.assignment := fun page hmem =>
    ⟨page, hmem, rfl, rfl, rfl⟩
  have hlayers : ∀ layer ∈ p.layers, layer.id ∈ p.layers.map (·.id) → ∃ old ∈ p.layers,
      old.id = layer.id ∧ old.name = layer.name ∧ old.variableKeys = layer.variableKeys :=
    fun layer hmem _ => ⟨layer, hmem, rfl, rfl, rfl⟩
  cases hstep with
  -- The mutations that can make an orphan fit again have a lemma each.
  | bindVariable layer_known known free =>
      exact h.namesCurrent_bindVariable hcurrent layer_known known free hq
  | unbindVariable =>
      exact h.namesCurrent_unbindVariable hcurrent hq
  | removeVariable =>
      exact h.namesCurrent_withoutVariable hcurrent hq
  | addVariableValue known value_ok free =>
      exact h.namesCurrent_addVariableValue hcurrent known value_ok free hq
  | setVariableKey known key_ok free =>
      exact h.namesCurrent_setVariableKey hcurrent known key_ok free hq
  -- The others keep what a name depends on, and make no orphan fit again.
  | addVariable name_ok key_ok free values_ok fresh =>
      refine iff_of_true (h.namesCurrent_addVariable hcurrent free hq) ?_
      rintro ⟨page, -, name, ⟨⟨⟩⟩, -⟩
  | renameVariable =>
      refine iff_of_true (h.namesCurrent_of_kept hq hcurrent hpages hlayers ?_) ?_
      · exact fun _ _ _ _ _ =>
          h.permits_of_updateVariable hq (fun _ => rfl) fun _ => List.Subset.refl _
      · rintro ⟨page, -, name, ⟨⟨⟩⟩, -⟩
  | removeVariableValue =>
      refine iff_of_true (h.namesCurrent_of_kept hq hcurrent hpages hlayers ?_) ?_
      · exact fun _ _ _ _ _ =>
          h.permits_of_updateVariable hq (fun _ => rfl) fun _ => List.erase_subset
      · rintro ⟨page, -, name, ⟨⟨⟩⟩, -⟩
  | renameVariableValue known value_ok present free =>
      refine iff_of_true (h.withVariableValue known value_ok free).namesCurrent_refreshPageNames ?_
      rintro ⟨page, -, name, ⟨⟨⟩⟩, -⟩
  | renameLayer name_ok free =>
      refine iff_of_true (h.renameLayer name_ok free).namesCurrent_refreshPageNames ?_
      rintro ⟨page, -, name, ⟨⟨⟩⟩, -⟩
  | addLayer name_ok free bindings_ok fresh =>
      refine iff_of_true (h.namesCurrent_addLayer hcurrent fresh hq) ?_
      rintro ⟨page, -, name, ⟨⟨⟩⟩, -⟩
  | removeLayer =>
      refine iff_of_true (h.namesCurrent_of_kept hq hcurrent ?_ ?_ fun _ _ _ _ _ hp => hp) ?_
      · exact fun page hmem => hpages page (List.mem_of_mem_filter hmem)
      · exact fun layer hmem => hlayers layer (List.mem_of_mem_eraseP hmem)
      · rintro ⟨page, -, name, ⟨⟨⟩⟩, -⟩
  | moveLayer =>
      rename_i id position
      refine iff_of_true (h.namesCurrent_of_kept hq hcurrent hpages ?_ fun _ _ _ _ _ hp => hp) ?_
      · intro layer hmem _
        rcases mem_renumber hmem with ⟨old, hold, order, rfl⟩
        exact ⟨old, (p.reordered_perm id position).subset hold, rfl, rfl, rfl⟩
      · rintro ⟨page, -, name, ⟨⟨⟩⟩, -⟩
  | setLayerRequired =>
      refine iff_of_true (h.namesCurrent_of_kept hq hcurrent hpages ?_ fun _ _ _ _ _ hp => hp) ?_
      · intro layer hmem hhome
        rcases Sequence.mem_updateFirst hmem with hold | ⟨old, hold, -, rfl⟩
        · exact hlayers layer hold hhome
        · exact ⟨old, hold, rfl, rfl, rfl⟩
      · rintro ⟨page, -, name, ⟨⟨⟩⟩, -⟩
  | createPage layer_known valid free fresh =>
      refine iff_of_true (h.namesCurrent_append hcurrent layer_known rfl hq) ?_
      rintro ⟨page, -, name, ⟨⟨⟩⟩, -⟩
  | removePage =>
      refine iff_of_true (h.namesCurrent_of_kept hq hcurrent ?_ hlayers fun _ _ _ _ _ hp => hp) ?_
      · exact fun page hmem => hpages page (List.mem_of_mem_eraseP hmem)
      · rintro ⟨page, -, name, ⟨⟨⟩⟩, -⟩
  | editTokens tokens_only same =>
      exact iff_of_true (h.namesCurrent_of_sameFrame hcurrent same hq)
        (not_outdates_of_editsTokens tokens_only)

/-- One mutation keeps page names current exactly when it outdates none of them. -/
theorem Consistent.namesCurrent_after_iff (h : p.Consistent) (hcurrent : p.NamesCurrent)
    (slug : String → String) (m : Mutation) :
    (m.after slug p).NamesCurrent ↔ ¬ p.Outdates m := by
  -- A refused mutation changes nothing, and one that makes orphans fit again is not refused.
  by_cases houtdates : p.Outdates m
  · rcases id houtdates with ⟨page, -, name, hreadmits, -⟩
    exact h.namesCurrent_step_iff hcurrent (hreadmits.step h slug)
  · rcases after_cases slug p m with hsame | hstep
    · rw [hsame]
      exact iff_of_true hcurrent houtdates
    · exact h.namesCurrent_step_iff hcurrent hstep

/-! ## Runs -/

/-- Names stay current for as long as no mutation of the run makes an orphan fit again under another
name. -/
theorem Consistent.namesCurrent_prefix_iff (h : p.Consistent) (hcurrent : p.NamesCurrent)
    (slug : String → String) (mutations : List Mutation) :
    (∀ before, before <+: mutations → (runWith slug p before).NamesCurrent) ↔
      ∀ before m, before ++ [m] <+: mutations → ¬ (runWith slug p before).Outdates m := by
  -- The first mutation that does so ends the induction: nothing is said about what follows it.
  induction mutations generalizing p with
  | nil =>
      refine iff_of_true (fun before hbefore => ?_) fun before m hbefore => ?_
      · rw [List.prefix_nil.1 hbefore]
        exact hcurrent
      · simp at hbefore
  | cons m rest ih =>
      have hafter : (m.after slug p).Consistent := by
        rcases after_cases slug p m with hsame | hstep
        · rw [hsame]
          exact h
        · exact h.step hstep
      rw [Sequence.forall_prefix_cons_iff, Sequence.forall_step_cons_iff]
      constructor
      · rintro ⟨-, hrest⟩
        have hnext : (m.after slug p).NamesCurrent := hrest [] (List.nil_prefix ..)
        exact ⟨(h.namesCurrent_after_iff hcurrent slug m).1 hnext, (ih hafter hnext).1 hrest⟩
      · rintro ⟨hfirst, hrest⟩
        have hnext := (h.namesCurrent_after_iff hcurrent slug m).2 hfirst
        exact ⟨hcurrent, (ih hafter hnext).2 hrest⟩

/-- Along a run from the empty pipeline every page that is no orphan has the name that its layer
gives it, if and only if no mutation of the run makes an orphan fit again that is called otherwise.
Only orphans are made to fit again; and whatever the run has been, renaming a layer or a value
brings all names up to date. -/
theorem namesCurrent_runWith_iff (slug : String → String) (mutations : List Mutation) :
    ((∀ before, before <+: mutations → (runWith slug empty before).NamesCurrent) ↔
        ∀ before m, before ++ [m] <+: mutations → ¬ (runWith slug empty before).Outdates m) ∧
      (∀ m, ∀ page ∈ (runWith slug empty mutations).pages, ∀ name,
        (runWith slug empty mutations).Readmits m page name →
          page ∈ (runWith slug empty mutations).orphans) ∧
      (∀ id name q, (renameLayer id name).run (runWith slug empty mutations) = .ok () q →
        q.NamesCurrent) ∧
      ∀ key value newValue q,
        (renameVariableValue key value newValue).run (runWith slug empty mutations) = .ok () q →
          q.NamesCurrent := by
  have h : (runWith slug empty mutations).Consistent := Reachable.consistent ⟨mutations, rfl⟩
  refine ⟨consistent_empty.namesCurrent_prefix_iff (by decide) slug mutations, ?_, ?_, ?_⟩
  · exact fun m page hmem name hreadmits => hreadmits.mem_orphans h hmem
  · intro id name q hrun
    rcases run_renameLayer_eq_ok.1 hrun with ⟨-, -, hname, hfree, rfl⟩
    exact (h.renameLayer hname hfree).namesCurrent_refreshPageNames
  · intro key value newValue q hrun
    rcases run_renameVariableValue_eq_ok.1 hrun with ⟨found, hfound, hvalue, -, hfree, rfl⟩
    exact (h.withVariableValue hfound hvalue hfree).namesCurrent_refreshPageNames

/-- A layer is bound to the mode and the density and has one page. Then its binding to the mode is
taken away and made again. -/
def rebound : Pipeline :=
  runWith plainSlug empty
    [.addVariable "Mode" "mode" ["light"],
      .addVariable "Density" "density" ["compact"],
      .addLayer "Theme" ["mode", "density"] false,
      .getOrCreatePage ⟨"layer-theme"⟩ (.ofPairs [("mode", "light"), ("density", "compact")]),
      .unbindVariable ⟨"layer-theme"⟩ "mode",
      .bindVariable ⟨"layer-theme"⟩ "mode"]

/-- The page fits its layer again, which has the density first now. The page is still called by the
mode first. -/
theorem not_namesCurrent_rebound :
    ¬ rebound.NamesCurrent ∧ rebound.orphans = [] ∧
      rebound.pages.map (·.name) = ["Theme / light / compact"] ∧
      rebound.layers.map (·.variableKeys) = [["density", "mode"]] := by
  decide +kernel

end Pipeline
end DesignTokens
