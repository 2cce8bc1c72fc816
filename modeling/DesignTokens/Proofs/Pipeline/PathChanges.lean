import DesignTokens.Proofs.Pipeline.References
import DesignTokens.Proofs.Store.DocumentOrder
import DesignTokens.Proofs.Store.Refinement

/-!
# What a change of paths reports

Renaming or moving a token answers with the aliases of the old path that were redirected and those
that were retained. The two lists account for every alias of the old path that is left after the
edit of the store, each of them once and in document order: the retained ones are those that some
page still satisfies, the redirected ones lead to the same place below the new path now. Nothing
else of any page has changed.
-/

namespace DesignTokens

namespace Token

variable {source target reference moved : String} {token : Token}

/-- A turned alias is read back as the path that it was turned to. -/
theorem valueTarget?_turn (hsource : source ≠ "") (htarget : Path.Quotable target)
    (href : Alias.valueTarget? token.value = some reference)
    (hmoved : Path.rebase? source target reference = some moved) :
    Alias.valueTarget? (token.turn source target).value = some moved := by
  rcases Alias.valueTarget?_eq_some_iff.1 href with ⟨text, -, htext⟩
  have hquotable := (Alias.quotable_of_target? htext).rebase? hsource htarget hmoved
  rw [turn_of_rebase? href hmoved]
  exact Alias.valueTarget?_eq_some_iff.2 ⟨_, rfl, Alias.target?_ofPath hquotable⟩

end Token

/-- The edit of a store as one of its tree: an entry has another name in its place, or it is in
another group. -/
def PathEdit.Relocates (edit : PathEdit) (before after : Store) (newPath : String) : Prop :=
  match edit with
  | .rename path name =>
      ∃ parent node, Store.RenamesEntry before after path newPath parent name node
  | .move path parent =>
      ∃ oldParent node, Store.MovesEntry before after path newPath oldParent parent node

/-- A path edit that changes the path relocates a subtree of the store. -/
theorem PathEdit.relocates {edit : PathEdit} {store after : Store} {newPath : String}
    (h : store.WellFormed) (hrun : edit.onStore.run store = .ok newPath after)
    (hnew : newPath ≠ edit.path) : edit.Relocates store after newPath := by
  cases edit with
  | rename path name =>
      exact h.renamesEntry hrun
  | move path parent =>
      exact h.movesEntry hrun hnew

/-- The page with the aliases at some places turned from one subtree to another, and with nothing
else changed. -/
structure Page.TurnsTo (source newPath : String) (turned : List Dependent) (page after : Page) :
    Prop where
  label : after.label = page.label
  names : after.tokens.names = page.tokens.names
  nodes : ∀ path, after.tokens.get? path =
    if ⟨page.id, path⟩ ∈ turned then
      (page.tokens.get? path).map (StoredNode.turn source newPath)
    else page.tokens.get? path

namespace Pipeline

variable {p q edited : Pipeline} {id : PageId} {source newPath : String}

/-! ## Tokens in document order -/

/-- The places of all tokens, page by page and in document order within a page. -/
def places (p : Pipeline) : List Dependent :=
  p.pages.flatMap fun page => page.tokens.toTree.flatten.map fun token => ⟨page.id, token.name⟩

/-- The path that the token at a place is an alias of. -/
def targetAt? (p : Pipeline) (d : Dependent) : Option String :=
  (p.tokenAt? d.page d.path).bind fun token => Alias.valueTarget? token.value

/-- The token at a place is an alias of a path at or below `source`, of which `holds` is true. -/
def leadsInto (p : Pipeline) (source : String) (holds : String → Bool) (d : Dependent) : Bool :=
  (p.targetAt? d).any fun target => Path.isWithin target source && holds target

/-- A place leads into a path when its target is within it and has the property asked for. -/
theorem leadsInto_iff {holds : String → Bool} {d : Dependent} :
    p.leadsInto source holds d = true ↔
      ∃ target, p.targetAt? d = some target ∧ Path.isWithin target source = true ∧
        holds target = true := by
  simp [leadsInto, Option.any_eq_true]

section Places

variable (hids : (p.pages.map (·.id)).Nodup)
  (hstores : ∀ page ∈ p.pages, page.tokens.WellFormed)

include hids in
theorem targetAt?_of_mem {page : Page} (hmem : page ∈ p.pages) (path : String) :
    p.targetAt? ⟨page.id, path⟩ = page.tokens.reference? path := by
  simp [targetAt?, tokenAt?, page?_of_nodup hids hmem, Store.reference?]

include hstores in
theorem places_eq :
    p.places = p.pages.flatMap fun page => page.tokens.tokenPaths.map (⟨page.id, ·⟩) := by
  apply List.flatMap_congr
  intro page hmem
  rw [(hstores page hmem).tokenPaths_eq, List.map_map]
  rfl

include hids hstores

/-- No token is listed twice. -/
theorem nodup_places : p.places.Nodup := by
  rw [places_eq hstores, List.nodup_flatMap]
  refine ⟨fun page hmem => ?_, ?_⟩
  · refine (hstores page hmem).nodup_tokenPaths.map ?_
    intro path other heq
    exact (Dependent.mk.inj heq).2
  · -- The places of two pages differ in the page.
    refine (List.pairwise_map.1 hids).imp ?_
    intro page other hne d hmem hmem'
    rcases List.mem_map.1 hmem with ⟨path, -, rfl⟩
    rcases List.mem_map.1 hmem' with ⟨path', -, heq⟩
    exact hne (Dependent.mk.inj heq).1.symm

theorem dependents_eq :
    p.dependents source = p.places.filter (p.leadsInto source fun _ => true) := by
  rw [places_eq hstores, List.filter_flatMap]
  apply List.flatMap_congr
  intro page hmem
  rw [List.filter_map, Store.references]
  congr 1
  apply List.filter_congr
  intro path _
  simp only [Function.comp_apply, leadsInto, targetAt?_of_mem hids hmem, Bool.and_true]

end Places

/-! ## Turned aliases page by page -/

def pathsIn (all : List Dependent) (id : PageId) : List String :=
  (all.filter (·.page = id)).map (·.path)

theorem mem_pathsIn_iff {all : List Dependent} {path : String} :
    path ∈ pathsIn all id ↔ ⟨id, path⟩ ∈ all := by
  unfold pathsIn
  constructor
  · intro hmem
    rcases List.mem_map.1 hmem with ⟨d, hd, rfl⟩
    rcases List.mem_filter.1 hd with ⟨hall, hpage⟩
    have hid : d.page = id := by simpa using hpage
    subst hid
    exact hall
  · intro hmem
    exact List.mem_map.2 ⟨_, List.mem_filter.2 ⟨hmem, by simp⟩, rfl⟩

/-- Turning aliases one after another turns those of each page. -/
theorem pages_foldl_redirect (hids : (p.pages.map (·.id)).Nodup) (source newPath : String)
    (all : List Dependent) :
    (all.foldl (redirect source newPath) p).pages = p.pages.map fun page =>
      { page with
        tokens := Store.redirectAll source newPath (pathsIn all page.id) page.tokens } := by
  induction all generalizing p with
  | nil =>
      simp [pathsIn, Store.redirectAll]
  | cons d rest ih =>
      -- One reference is turned, in the stores with the page's identity.
      have hfirst : (redirect source newPath p d).pages = p.pages.map fun page =>
          if page.id = d.page then
            { page with tokens := page.tokens.redirect d.path source newPath } else page :=
        Sequence.updateFirst_eq_map hids d.page _
      have hsame := (sameFrame_redirect source newPath p d).map_eq (·.1)
      rw [List.foldl_cons, ih (hsame ▸ hids), hfirst, List.map_map]
      apply List.map_congr_left
      intro page _
      by_cases hpage : page.id = d.page
      · simp [pathsIn, Store.redirectAll, hpage]
      · simp [pathsIn, hpage, Ne.symm hpage]

section Turned

variable (hids : (edited.pages.map (·.id)).Nodup)
  (hturn : ∀ token : Token, (token.turn source newPath).turn source newPath =
    token.turn source newPath)

include hids in
/-- Turned references keep the stores well-formed. -/
theorem wellFormed_foldl_redirect (hstores : ∀ page ∈ edited.pages, page.tokens.WellFormed)
    (all : List Dependent) :
    ∀ page ∈ (all.foldl (redirect source newPath) edited).pages, page.tokens.WellFormed := by
  rw [pages_foldl_redirect hids, List.forall_mem_map]
  intro page hmem
  exact (hstores page hmem).redirectAll source newPath _

include hids in
/-- Turning references changes no place. -/
theorem places_foldl_redirect (hstores : ∀ page ∈ edited.pages, page.tokens.WellFormed)
    (all : List Dependent) :
    (all.foldl (redirect source newPath) edited).places = edited.places := by
  rw [places_eq hstores, places_eq (wellFormed_foldl_redirect hids hstores all),
    pages_foldl_redirect hids, List.flatMap_map]
  apply List.flatMap_congr
  intro page hmem
  rw [(hstores page hmem).tokenPaths_redirectAll]

include hids hturn in
/-- Each page after the references are turned has its own turned references. -/
theorem turnsTo_foldl_redirect (all : List Dependent) :
    List.Forall₂ (Page.TurnsTo source newPath all) edited.pages
      (all.foldl (redirect source newPath) edited).pages := by
  rw [pages_foldl_redirect hids, List.forall₂_map_right_iff, List.forall₂_same]
  intro page _
  refine ⟨rfl, Store.names_redirectAll .., fun path => ?_⟩
  simp only [Store.get?_redirectAll hturn, mem_pathsIn_iff]

include hturn

/-- A place that is not among the dependents keeps its target. -/
theorem targetAt?_foldl_redirect_of_not_mem {all : List Dependent} {d : Dependent} (h : d ∉ all) :
    (all.foldl (redirect source newPath) edited).targetAt? d = edited.targetAt? d := by
  unfold targetAt?
  rw [tokenAt?_foldl_redirect hturn, if_neg h]

/-- A dependent's target moves with the path. -/
theorem targetAt?_foldl_redirect_of_mem {all : List Dependent} {d : Dependent}
    {reference moved : String} (hsource : source ≠ "") (hnew : Path.Quotable newPath)
    (h : d ∈ all) (href : edited.targetAt? d = some reference)
    (hmoved : Path.rebase? source newPath reference = some moved) :
    (all.foldl (redirect source newPath) edited).targetAt? d = some moved := by
  rcases Option.bind_eq_some_iff.1 href with ⟨token, htoken, htarget⟩
  unfold targetAt?
  rw [tokenAt?_foldl_redirect hturn, if_pos h, htoken]
  exact Token.valueTarget?_turn hsource hnew htarget hmoved

end Turned

/-! ## The report -/

/-- The report of a change of paths lists the aliases of `source` in the pipeline with the edited
page, and the pipeline afterwards has the redirected ones turned and nothing else changed. -/
structure Accounts (edited q : Pipeline) (source : String) (change : PathChange) : Prop where
  distinct : edited.places.Nodup
  redirected : change.redirected =
    edited.places.filter (edited.leadsInto source fun target => !edited.definesToken target)
  retained : change.retained =
    edited.places.filter (edited.leadsInto source edited.definesToken)
  left : q.dependents source = change.retained
  turned : ∀ d ∈ change.redirected, ∃ rest,
    edited.targetAt? d = some (source ++ rest) ∧ q.targetAt? d = some (change.newPath ++ rest)
  vars : q.vars = edited.vars
  layers : q.layers = edited.layers
  pages : List.Forall₂ (Page.TurnsTo source change.newPath change.redirected) edited.pages q.pages

/-- A reference is satisfied when its target is a token. -/
theorem isSatisfied_of_targetAt? {d : Dependent} {target : String}
    (h : edited.targetAt? d = some target) :
    edited.isSatisfied d = edited.definesToken target := by
  have htarget : ((edited.tokenAt? d.page d.path).bind fun token =>
      Alias.valueTarget? token.value) = some target := h
  rcases d with ⟨page, path⟩
  rw [isSatisfied_eq, htarget, Option.any_some]

section Report

variable (hids : (edited.pages.map (·.id)).Nodup)
  (hstores : ∀ page ∈ edited.pages, page.tokens.WellFormed) (hsource : source ≠ "")
  (hnew : Path.Quotable newPath)
  (hapart : ∀ {path}, Path.isWithin path newPath = true → Path.isWithin path source = false)

include hids hstores in
/-- A part of the aliases of a path, by what they lead to. -/
theorem filter_dependents {keep : Dependent → Bool} {holds : String → Bool}
    (hkeep : ∀ d target, edited.targetAt? d = some target → keep d = holds target) :
    (edited.dependents source).filter keep =
      edited.places.filter (edited.leadsInto source holds) := by
  rw [dependents_eq hids hstores, List.filter_filter]
  apply List.filter_congr
  intro d _
  cases htarget : edited.targetAt? d with
  | none =>
      simp [leadsInto, htarget]
  | some target =>
      simp [leadsInto, htarget, hkeep d target htarget, Bool.and_comm]

include hsource hnew hapart

/-- A turned alias leads to the same place below the new path. -/
theorem targetAt?_turned {all : List Dependent} {d : Dependent} {target : String} (hd : d ∈ all)
    (htarget : edited.targetAt? d = some target) (hwithin : Path.isWithin target source = true) :
    ∃ moved, Path.rebase? source newPath target = some moved ∧
      (all.foldl (redirect source newPath) edited).targetAt? d = some moved := by
  cases hmoved : Path.rebase? source newPath target with
  | none =>
      rw [Path.rebase?_eq_none_iff.1 hmoved] at hwithin
      cases hwithin
  | some moved =>
      have hturn := Token.turn_turn hsource hnew hapart
      exact ⟨moved, rfl, targetAt?_foldl_redirect_of_mem hturn hsource hnew hd htarget hmoved⟩

/-- The aliases that are left are those that were not turned. -/
theorem leadsInto_foldl_redirect {all : List Dependent} {d : Dependent}
    (hall : ∀ d, d ∈ all → edited.leadsInto source (fun _ => true) d) :
    (all.foldl (redirect source newPath) edited).leadsInto source (fun _ => true) d =
      (edited.leadsInto source (fun _ => true) d && decide (d ∉ all)) := by
  by_cases hd : d ∈ all
  · rcases leadsInto_iff.1 (hall d hd) with ⟨target, htarget, hwithin, -⟩
    rcases targetAt?_turned hsource hnew hapart hd htarget hwithin with ⟨moved, hmoved, hafter⟩
    have hout := hapart (Path.isWithin_rebase? hsource hnew.1 hmoved)
    simp [leadsInto, hafter, hout, hd]
  · have hturn := Token.turn_turn hsource hnew hapart
    simp [leadsInto, targetAt?_foldl_redirect_of_not_mem hturn hd, hd]

include hids hstores

/-- Redirecting the dependents that nothing satisfies any more leaves the others. -/
theorem dependents_foldl_redirect :
    ((edited.places.filter
        (edited.leadsInto source fun target => !edited.definesToken target)).foldl
        (redirect source newPath) edited).dependents source =
      edited.places.filter (edited.leadsInto source edited.definesToken) := by
  have hids' := fun all => (sameFrame_foldl_redirect source newPath all edited).map_eq (·.1)
  rw [dependents_eq ((hids' _) ▸ hids) (wellFormed_foldl_redirect hids hstores _),
    places_foldl_redirect hids hstores]
  apply List.filter_congr
  intro d hd
  rw [leadsInto_foldl_redirect hsource hnew hapart]
  · -- A dependent that is not redirected is one whose target is still there.
    cases htarget : edited.targetAt? d with
    | none =>
        simp [leadsInto, htarget]
    | some target =>
        cases hdefined : edited.definesToken target with
        | true =>
            simp [leadsInto, htarget, hdefined]
        | false =>
            simp [leadsInto, htarget, hdefined, hd]
  · intro d hd
    rcases leadsInto_iff.1 (List.mem_filter.1 hd).2 with ⟨target, htarget, hwithin, -⟩
    exact leadsInto_iff.2 ⟨target, htarget, hwithin, rfl⟩

/-- The update of the dependents accounts for each of them. -/
theorem accounts_of_updateDependents {change : PathChange} (hne : source ≠ newPath)
    (hrun : (updateDependents source newPath).run edited = .ok change q) :
    edited.Accounts q source change := by
  have hredirected := @filter_dependents edited source hids hstores
    (fun d => !edited.isSatisfied d) (fun target => !edited.definesToken target)
    fun d target htarget => by rw [isSatisfied_of_targetAt? htarget]
  have hretained := @filter_dependents edited source hids hstores edited.isSatisfied
    edited.definesToken fun d target htarget => isSatisfied_of_targetAt? htarget
  rcases run_updateDependents_eq_ok.1 hrun with ⟨hsame, -⟩ | ⟨-, rfl, rfl⟩
  · exact absurd hsame hne
  rw [hredirected, hretained]
  have hturn := Token.turn_turn hsource hnew hapart
  have hframe := fun all => sameFrame_foldl_redirect source newPath all edited
  refine ⟨nodup_places hids hstores, rfl, rfl,
    dependents_foldl_redirect hids hstores hsource hnew hapart, ?_, (hframe _).vars,
    (hframe _).layers, turnsTo_foldl_redirect hids hturn _⟩
  intro d hd
  rcases leadsInto_iff.1 (List.mem_filter.1 hd).2 with ⟨target, htarget, hwithin, -⟩
  rcases targetAt?_turned hsource hnew hapart hd htarget hwithin with ⟨moved, hmoved, hafter⟩
  rcases (Path.rebase?_eq_some_iff hsource).1 hmoved with ⟨rest, hold, hback, -⟩
  have hfront : target = source ++ String.ofList rest := String.toList_injective (by simp [hold])
  have hfront' : moved = newPath ++ String.ofList rest := String.toList_injective (by simp [hback])
  exact ⟨String.ofList rest, hfront ▸ htarget, hfront' ▸ hafter⟩

end Report

/-- A renaming or a move of a path to another one accounts for every alias of the old path. One that
stays in its place changes nothing at all. -/
theorem accounts_onPage (hids : (p.pages.map (·.id)).Nodup)
    (hstores : ∀ page ∈ p.pages, page.tokens.WellFormed) {edit : PathEdit} {change : PathChange}
    (hrun : (edit.onPage id).run p = .ok change q) :
    (change.newPath = edit.path → q = p ∧ change.redirected = [] ∧ change.retained = []) ∧
      (change.newPath ≠ edit.path → ∃ home store, p.page? id = some home ∧
        edit.Relocates home.tokens store change.newPath ∧
        (p.updatePage id ({ · with tokens := store })).Accounts q edit.path change) := by
  rcases PathEdit.run_onPage_eq_ok.1 hrun with ⟨newPath, home, store, hhome, hstore, hdependents⟩
  have hwell := hstores home (List.mem_of_find?_eq_some hhome)
  rw [newPath_of_updateDependents hdependents]
  refine ⟨fun hsame => ?_, fun hne => ⟨home, store, hhome, edit.relocates hwell hstore hne, ?_⟩⟩
  · subst hsame
    rcases PathEdit.relocated hwell hstore with ⟨-, rfl⟩ | ⟨hm, -⟩
    · rw [updatePage_of_page? hhome] at hdependents
      rcases run_updateDependents_eq_ok.1 hdependents with ⟨-, rfl, rfl⟩ | ⟨hne, -⟩
      · exact ⟨rfl, rfl, rfl⟩
      · exact absurd rfl hne
    · -- The place of the entry itself is not free.
      have hfree := hm.free
      rw [hm.present] at hfree
      cases hfree
  · rcases PathEdit.relocated hwell hstore with ⟨hsame, -⟩ | ⟨hm, hnodes, hafter⟩
    · exact absurd hsame hne
    · have hedited := (sameFrame_updatePage p id fun _ => store).map_eq (·.1)
      exact accounts_of_updateDependents (hedited ▸ hids)
        (fun _ hmem => wellFormed_updatePage hstores hafter hmem) hm.source_ne
        (Store.quotable_of_relocates hm hnodes hafter) (hwell.not_isWithin_source hm) (Ne.symm hne)
        hdependents

/-- Two pages with a token `font.base`, of which only the first one has a token `font.size`, and
aliases of both. -/
def sharedFont : Pipeline where
  vars := []
  layers := [⟨⟨"layer-base"⟩, "Base", 0, [], false⟩, ⟨⟨"layer-theme"⟩, "Theme", 1, [], false⟩]
  pages :=
    [⟨⟨"page-base"⟩, ⟨"layer-base"⟩, "Base", .empty, .ofTree {
        children :=
          [("font", .group {}
              [("base", .token {}), ("size", .token {}),
                ("title", .token { value := .string (Alias.ofPath "font.size") })]),
            ("fonts", .token {}),
            ("label", .token { value := .string (Alias.ofPath "font.base") }),
            ("other", .token { value := .string (Alias.ofPath "fonts") })] }⟩,
      ⟨⟨"page-theme"⟩, ⟨"layer-theme"⟩, "Theme", .empty, .ofTree {
        children :=
          [("font", .group {} [("base", .token {})]),
            ("note", .token { value := .string (Alias.ofPath "font.size") })] }⟩]

theorem wellFormed_sharedFont : ∀ page ∈ sharedFont.pages, page.tokens.WellFormed := by
  simp only [sharedFont, List.forall_mem_cons, List.not_mem_nil, IsEmpty.forall_iff, implies_true,
    and_true]
  exact ⟨Store.wellFormed_ofTree (by decide +kernel), Store.wellFormed_ofTree (by decide +kernel)⟩

/-- The aliases of the size are turned in both pages, also within the group that has moved. The font
is still there in the second page, and what only starts with the same letters is no alias of it. -/
theorem accounts_onPage_sharedFont :
    (sharedFont.pages.map (·.id)).Nodup ∧ (∀ page ∈ sharedFont.pages, page.tokens.WellFormed) ∧
      ∃ change q,
        ((PathEdit.rename "font" "type").onPage ⟨"page-base"⟩).run sharedFont = .ok change q ∧
        change = ⟨"type", [⟨⟨"page-base"⟩, "type.title"⟩, ⟨⟨"page-theme"⟩, "note"⟩],
          [⟨⟨"page-base"⟩, "label"⟩]⟩ ∧
        ∃ home store, sharedFont.page? ⟨"page-base"⟩ = some home ∧
          (PathEdit.rename "font" "type").Relocates home.tokens store change.newPath ∧
          (sharedFont.updatePage ⟨"page-base"⟩ ({ · with tokens := store })).Accounts q "font"
            change := by
  have hids : (sharedFont.pages.map (·.id)).Nodup := by decide +kernel
  have hrun := @Edit.run_eq_ok_of_result _ _ _ sharedFont
    ⟨"type", [⟨⟨"page-base"⟩, "type.title"⟩, ⟨⟨"page-theme"⟩, "note"⟩], [⟨⟨"page-base"⟩, "label"⟩]⟩
    ((PathEdit.rename "font" "type").onPage ⟨"page-base"⟩) (by decide +kernel)
  exact ⟨hids, wellFormed_sharedFont, _, _, hrun, rfl,
    (accounts_onPage hids wellFormed_sharedFont hrun).2 (by decide)⟩

end Pipeline
end DesignTokens
