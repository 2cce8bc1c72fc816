import DesignTokens.Proofs.Pipeline.Consistency
import DesignTokens.Proofs.Store.Loading
import DesignTokens.Proofs.Store.References

/-!
# References across pages

Renaming or moving a token turns the aliases that it would break, wherever they are. This holds of
the aliases that are whole values. An alias inside of a composite value is followed when values are
resolved, but it is not among the dependents; it breaks when no other page has what it names.
-/

namespace DesignTokens

inductive PathEdit where
  | rename (path name : String)
  | move (path parent : String)

namespace PathEdit

def path : PathEdit → String
  | .rename path _ => path
  | .move path _ => path

def onStore : PathEdit → Edit TokenError Store String
  | .rename path name => Store.rename path name
  | .move path parent => Store.move path parent

/-- The edit of a page together with the aliases in all pages. -/
def onPage (id : PageId) : PathEdit → PipelineEdit PathChange
  | .rename path name => Pipeline.renameToken id path name
  | .move path parent => Pipeline.moveToken id path parent

/-- Where a path of some page leads after an edit of the page `id`. -/
def place (edit : PathEdit) (id : PageId) (newPath : String) (page : PageId) (path : String) :
    String :=
  if page = id then Store.place edit.path newPath path else path

/-- An accepted path edit of a store has relocated what was at the path. -/
theorem relocated {edit : PathEdit} {store after : Store} {newPath : String}
    (h : store.WellFormed) (hrun : edit.onStore.run store = .ok newPath after) :
    Store.Relocated store after edit.path newPath := by
  cases edit with
  | rename path name =>
      exact h.rename hrun
  | move path parent =>
      exact h.move hrun

/-- An accepted path edit of a page is one of its store and then the update of the dependents. -/
theorem run_onPage_eq_ok {edit : PathEdit} {id : PageId} {p q : Pipeline} {change : PathChange} :
    (edit.onPage id).run p = .ok change q ↔
      ∃ newPath page store, p.page? id = some page ∧
        edit.onStore.run page.tokens = .ok newPath store ∧
        (Pipeline.updateDependents edit.path newPath).run
          (p.updatePage id ({ · with tokens := store })) = .ok change q := by
  have hedit : ∀ {newPath edited}, (Pipeline.editPage id edit.onStore).run p = .ok newPath edited ↔
      ∃ page store, p.page? id = some page ∧ edit.onStore.run page.tokens = .ok newPath store ∧
        edited = p.updatePage id ({ · with tokens := store }) := Pipeline.run_editPage_eq_ok
  -- Both edits are one of the page, followed by one of its dependents.
  have hrun : (edit.onPage id).run p = .ok change q ↔
      ∃ newPath edited, (Pipeline.editPage id edit.onStore).run p = .ok newPath edited ∧
        (Pipeline.updateDependents edit.path newPath).run edited = .ok change q := by
    cases edit with
    | rename path name =>
        exact Pipeline.run_renameToken_eq_ok
    | move path parent =>
        exact Pipeline.run_moveToken_eq_ok
  rw [hrun]
  constructor
  · intro h
    rcases h with ⟨newPath, edited, hpage, hdependents⟩
    rcases hedit.1 hpage with ⟨page, store, hfound, hstore, rfl⟩
    exact ⟨newPath, page, store, hfound, hstore, hdependents⟩
  · intro h
    rcases h with ⟨newPath, page, store, hfound, hstore, hdependents⟩
    exact ⟨newPath, _, hedit.2 ⟨page, store, hfound, hstore, rfl⟩, hdependents⟩

end PathEdit

namespace Pipeline

variable {p q : Pipeline} {id other : PageId} {source newPath path target : String} {token : Token}

/-! ## Tokens by page and path -/

def tokenAt? (p : Pipeline) (id : PageId) (path : String) : Option Token :=
  (p.page? id).bind (·.tokens.token? path)

/-- What a lookup finds after a page is updated. -/
theorem page?_updatePage {change : Page → Page} (hchange : ∀ page, (change page).id = page.id)
    (p : Pipeline) (id other : PageId) :
    (p.updatePage id change).page? other =
      if other = id then (p.page? id).map change else p.page? other := by
  -- The induction is on the pages alone; the change keeps their identities.
  have hpages : ∀ pages : List Page,
      (Sequence.updateFirst (·.id = id) change pages).find? (·.id = other) =
        if other = id then (pages.find? (·.id = id)).map change
        else pages.find? (·.id = other) := by
    intro pages
    induction pages with
    | nil =>
        simp [Sequence.updateFirst]
    | cons page rest ih =>
        by_cases hid : page.id = id
        · by_cases hother : other = id
          · simp [Sequence.updateFirst, hid, hother, hchange]
          · simp [Sequence.updateFirst, hid, hother, Ne.symm hother, hchange]
        · by_cases hother : other = id
          · subst hother
            simpa [Sequence.updateFirst, hid] using ih
          · by_cases hpage : page.id = other
            · simp [Sequence.updateFirst, hother, hpage]
            · simpa [Sequence.updateFirst, hid, hother, hpage] using ih
  exact hpages p.pages

/-- A token found after a page has new tokens is one of those tokens or of another page. -/
theorem tokenAt?_updatePage (p : Pipeline) (id other : PageId) (tokens : Page → Store)
    (path : String) :
    (p.updatePage id fun page => { page with tokens := tokens page }).tokenAt? other path =
      if other = id then (p.page? id).bind fun page => (tokens page).token? path
      else p.tokenAt? other path := by
  have hchange : ∀ page : Page, ({ page with tokens := tokens page } : Page).id = page.id :=
    fun _ => rfl
  simp only [tokenAt?, page?_updatePage hchange]
  by_cases hother : other = id
  · simp [hother, Option.bind_map]
  · simp [hother]

/-! ## Turned aliases -/

/-- Turning one reference changes the token at its place alone. -/
theorem tokenAt?_redirect (source newPath : String) (p : Pipeline) (d : Dependent) (id : PageId)
    (path : String) :
    (redirect source newPath p d).tokenAt? id path =
      if ⟨id, path⟩ = d then (p.tokenAt? id path).map (Token.turn source newPath)
      else p.tokenAt? id path := by
  rcases d with ⟨page, found⟩
  have hturned := tokenAt?_updatePage p page id (·.tokens.redirect found source newPath) path
  rw [redirect, hturned]
  by_cases hid : id = page
  · subst hid
    by_cases hpath : path = found
    · subst hpath
      simp [tokenAt?, Store.token?_redirect, Option.map_bind]
    · simp [tokenAt?, Store.token?_redirect, hpath]
  · simp [hid]

/-- Turning references one after the other turns each of them once. -/
theorem tokenAt?_foldl_redirect
    (hturn : ∀ token : Token, (token.turn source newPath).turn source newPath =
      token.turn source newPath)
    (all : List Dependent) (p : Pipeline) (id : PageId) (path : String) :
    (all.foldl (redirect source newPath) p).tokenAt? id path =
      if ⟨id, path⟩ ∈ all then (p.tokenAt? id path).map (Token.turn source newPath)
      else p.tokenAt? id path := by
  induction all generalizing p with
  | nil =>
      simp
  | cons d rest ih =>
      have htwice : Token.turn source newPath ∘ Token.turn source newPath =
          Token.turn source newPath := funext hturn
      rw [List.foldl_cons, ih, tokenAt?_redirect]
      -- A dependent may be listed twice, and is turned twice then.
      by_cases hd : ⟨id, path⟩ = d
      · subst hd
        by_cases hrest : ⟨id, path⟩ ∈ rest
        · simp [hrest, htwice]
        · simp [hrest]
      · simp [hd]

/-- Turning references defines and removes no token. -/
theorem definesToken_foldl_redirect (source newPath : String) (all : List Dependent) (p : Pipeline)
    (path : String) :
    (all.foldl (redirect source newPath) p).definesToken path = p.definesToken path := by
  induction all generalizing p with
  | nil =>
      rfl
  | cons d rest ih =>
      have hpages := @Sequence.map_updateFirst _ _ (fun page : Page => decide (page.id = d.page))
        (fun page => { page with tokens := page.tokens.redirect d.path source newPath }) p.pages
        (fun page => page.tokens.isToken path)
        fun page _ => Store.isToken_redirect page.tokens d.path source newPath path
      have hany := congrArg (fun tokens => tokens.any id) hpages
      rw [List.foldl_cons, ih]
      simpa [definesToken, redirect, updatePage, List.any_map] using hany

/-- A place is satisfied when its token is an alias of a defined token. -/
theorem isSatisfied_eq (p : Pipeline) (id : PageId) (path : String) :
    p.isSatisfied ⟨id, path⟩ =
      ((p.tokenAt? id path).bind fun token => Alias.valueTarget? token.value).any
        p.definesToken := by
  unfold isSatisfied tokenAt? Store.reference?
  rw [Option.bind_assoc]

/-- A token whose reference leads into a path is one of the path's dependents. -/
theorem mem_dependents {page : Page} {reference : String} (hpage : p.page? id = some page)
    (h : page.tokens.WellFormed) (htoken : p.tokenAt? id path = some token)
    (href : Alias.valueTarget? token.value = some reference)
    (hwithin : Path.isWithin reference source = true) : ⟨id, path⟩ ∈ p.dependents source := by
  have hid : page.id = id := by simpa using List.find?_some hpage
  have hthere : page.tokens.token? path = some token := by simpa [tokenAt?, hpage] using htoken
  have hpath := Store.mem_references h hthere href hwithin
  refine List.mem_flatMap.2 ⟨page, List.mem_of_find?_eq_some hpage, ?_⟩
  exact List.mem_map.2 ⟨path, hpath, by rw [hid]⟩

/-! ## The page that is edited -/

/-- A page is found by its identity when no two pages share one. -/
theorem page?_of_nodup (hids : (p.pages.map (·.id)).Nodup) {page : Page} (hmem : page ∈ p.pages) :
    p.page? page.id = some page := by
  have hsome : (p.page? page.id).isSome := List.find?_isSome.2 ⟨page, hmem, by simp⟩
  rcases Option.isSome_iff_exists.1 hsome with ⟨found, hfound⟩
  have hid : found.id = page.id := by simpa using List.find?_some hfound
  rw [hfound, List.inj_on_of_nodup_map hids (List.mem_of_find?_eq_some hfound) hmem hid]

theorem Consistent.page?_of_mem (h : p.Consistent) {page : Page} (hmem : page ∈ p.pages) :
    p.page? page.id = some page :=
  page?_of_nodup h.pages.ids hmem

theorem definesToken_iff :
    p.definesToken target = true ↔ ∃ page ∈ p.pages, page.tokens.isToken target = true := by
  simp [definesToken]

/-- What is defined after a page has a new store: what the store defines and what the other pages
do. -/
theorem definesToken_updatePage_iff (h : p.Consistent) {page : Page} {store : Store}
    (hpage : p.page? id = some page) :
    (p.updatePage id ({ · with tokens := store })).definesToken target = true ↔
      store.isToken target = true ∨
        ∃ other ∈ p.pages, other.id ≠ id ∧ other.tokens.isToken target = true := by
  have hid : page.id = id := by simpa using List.find?_some hpage
  have hpages : (p.updatePage id ({ · with tokens := store })).pages =
      p.pages.map fun other => if other.id = id then { other with tokens := store } else other :=
    Sequence.updateFirst_eq_map h.pages.ids id _
  rw [definesToken_iff, hpages]
  constructor
  · intro hdefined
    rcases hdefined with ⟨changed, hmem, htoken⟩
    rcases List.mem_map.1 hmem with ⟨other, hother, rfl⟩
    -- The edited page defines what its new store does.
    by_cases heq : other.id = id
    · exact Or.inl (by simpa [heq] using htoken)
    · exact Or.inr ⟨other, hother, heq, by simpa [heq] using htoken⟩
  · intro hdefined
    rcases hdefined with htoken | ⟨other, hother, hne, htoken⟩
    · refine ⟨_, List.mem_map_of_mem (List.mem_of_find?_eq_some hpage), ?_⟩
      simpa [hid] using htoken
    · refine ⟨_, List.mem_map_of_mem hother, ?_⟩
      simpa [hne] using htoken

/-- A well-formed store keeps all stores well-formed. -/
theorem wellFormed_updatePage (hstores : ∀ page ∈ p.pages, page.tokens.WellFormed) {store : Store}
    (hstore : store.WellFormed) {page : Page}
    (hmem : page ∈ (p.updatePage id ({ · with tokens := store })).pages) :
    page.tokens.WellFormed := by
  rcases Sequence.mem_updateFirst hmem with hold | ⟨other, -, -, rfl⟩
  · exact hstores page hold
  · exact hstore

structure Vacates (p : Pipeline) (id : PageId) (source newPath target : String) : Prop where
  moved : newPath ≠ source
  within : Path.isWithin target source = true
  only : ∀ page ∈ p.pages, page.tokens.isToken target = true → page.id = id

section Edited

variable {page : Page} {store : Store} (h : p.Consistent) (hpage : p.page? id = some page)
  (hwell : page.tokens.WellFormed) (hmoved : Store.Relocated page.tokens store source newPath)

include hpage hwell hmoved

theorem tokenAt?_edited (htoken : p.tokenAt? other path = some token) :
    (p.updatePage id ({ · with tokens := store })).tokenAt? other
      (if other = id then Store.place source newPath path else path) = some token := by
  have hedited := tokenAt?_updatePage p id other (fun _ => store)
  by_cases hother : other = id
  · subst hother
    have hthere : page.tokens.token? path = some token := by simpa [tokenAt?, hpage] using htoken
    rcases hmoved with ⟨rfl, rfl⟩ | ⟨hm, hnodes, -⟩
    · simp [hedited, hpage, Store.place_self, hthere]
    · simp [hedited, hpage, Store.token?_place hwell hm hnodes hthere]
  · simpa [hedited, hother] using htoken

include h

/-- A token that some page had before is still there in some page unless the edit takes it away. -/
theorem definesToken_edited_iff (hdefined : p.definesToken target = true) :
    (p.updatePage id ({ · with tokens := store })).definesToken target = true ↔
      ¬ p.Vacates id source newPath target := by
  rw [definesToken_updatePage_iff h hpage]
  constructor
  · intro hstill hvacates
    rcases hstill with htoken | ⟨other, hother, hne, htoken⟩
    · rcases hmoved with ⟨hsame, -⟩ | ⟨-, hnodes, -⟩
      · exact hvacates.moved hsame
      · rw [Store.isToken_eq_false_of_relocates hnodes hvacates.within] at htoken
        cases htoken
    · exact hne (hvacates.only other hother htoken)
  · intro hkept
    by_cases helsewhere : ∃ other ∈ p.pages, other.id ≠ id ∧ other.tokens.isToken target = true
    · exact Or.inr helsewhere
    · -- Only the edited page has the token, so it must not have moved.
      have honly : ∀ other ∈ p.pages, other.tokens.isToken target = true → other.id = id := by
        intro other hother htoken
        by_contra hne
        exact helsewhere ⟨other, hother, hne, htoken⟩
      rcases definesToken_iff.1 hdefined with ⟨owner, howner, htoken⟩
      have hsame := h.eq_of_page? hpage howner (honly owner howner htoken)
      subst hsame
      refine Or.inl ?_
      -- A token that does not lie within the old path stays where it is.
      rcases hmoved with ⟨-, rfl⟩ | ⟨hm, hnodes, -⟩
      · exact htoken
      · have hout : Path.isWithin target source = false := by
          by_contra hin
          have hchanged : newPath ≠ source := by
            intro hsame
            have hfree := hm.free
            rw [hsame, hm.present] at hfree
            cases hfree
          exact hkept ⟨hchanged, by simpa using hin, honly⟩
        rcases Option.isSome_iff_exists.1 htoken with ⟨found, hfound⟩
        have hplace : Store.place source newPath target = target := by
          simp [Store.place, Path.rebase?_eq_none_iff.2 hout]
        have hthere := Store.token?_place hwell hm hnodes hfound
        rw [hplace] at hthere
        simp [Store.isToken, hthere]

/-- The token that is taken away is there under its new path. -/
theorem definesToken_edited_moved (hdefined : p.definesToken target = true)
    (hvacates : p.Vacates id source newPath target) :
    (p.updatePage id ({ · with tokens := store })).definesToken
      (Store.place source newPath target) = true := by
  rcases definesToken_iff.1 hdefined with ⟨owner, howner, htoken⟩
  have hsame := h.eq_of_page? hpage howner (hvacates.only owner howner htoken)
  subst hsame
  rcases Option.isSome_iff_exists.1 htoken with ⟨found, hfound⟩
  refine (definesToken_updatePage_iff h hpage).2 (Or.inl ?_)
  rcases hmoved with ⟨hsame, -⟩ | ⟨hm, hnodes, -⟩
  · exact absurd hsame hvacates.moved
  · simp [Store.isToken, Store.token?_place hwell hm hnodes hfound]

end Edited

/-! ## Aliases after a change of paths -/

/-- The token at a path of a page has, at a place in its value, an alias of a token of some page. -/
def WorksAt (p : Pipeline) (id : PageId) (path : String) (place : Nat) : Prop :=
  ∃ token target, p.tokenAt? id path = some token ∧ token.value.aliasAt? place = some target ∧
    p.definesToken target = true

/-- A reference works where the token has one at the place and its target is defined. -/
theorem worksAt_iff_any {place : Nat} :
    p.WorksAt id path place ↔
      ((p.tokenAt? id path).bind fun token => token.value.aliasAt? place).any p.definesToken =
        true := by
  simp only [WorksAt, Option.any_eq_true, Option.bind_eq_some_iff]
  constructor
  · intro h
    rcases h with ⟨token, target, htoken, halias, hdefined⟩
    exact ⟨target, ⟨token, htoken, halias⟩, hdefined⟩
  · intro h
    rcases h with ⟨target, ⟨token, htoken, halias⟩, hdefined⟩
    exact ⟨token, target, htoken, halias, hdefined⟩

instance (p : Pipeline) (id : PageId) (path : String) (place : Nat) :
    Decidable (p.WorksAt id path place) :=
  decidable_of_iff _ worksAt_iff_any.symm

section Dependents

variable {edited : Pipeline} {change : PathChange}
  (hrun : (updateDependents source newPath).run edited = .ok change q)

include hrun

theorem newPath_of_updateDependents : change.newPath = newPath := by
  rcases run_updateDependents_eq_ok.1 hrun with ⟨-, rfl, -⟩ | ⟨-, rfl, -⟩
  · rfl
  · rfl

/-- Updating dependents changes nothing of what is defined. -/
theorem definesToken_of_updateDependents (target : String) :
    q.definesToken target = edited.definesToken target := by
  rcases run_updateDependents_eq_ok.1 hrun with ⟨-, -, rfl⟩ | ⟨-, -, rfl⟩
  · rfl
  · exact definesToken_foldl_redirect source newPath _ edited target

/-- What is not a whole alias of a missing token stays as it is. -/
theorem tokenAt?_of_updateDependents
    (hturn : source ≠ newPath → ∀ token : Token,
      (token.turn source newPath).turn source newPath = token.turn source newPath)
    (htoken : edited.tokenAt? id path = some token)
    (hkept : ∀ reference, Alias.valueTarget? token.value = some reference →
      edited.definesToken reference = true) : q.tokenAt? id path = some token := by
  rcases run_updateDependents_eq_ok.1 hrun with ⟨-, -, rfl⟩ | ⟨hne, -, rfl⟩
  · exact htoken
  · rw [tokenAt?_foldl_redirect (hturn hne)]
    by_cases hmem : ⟨id, path⟩ ∈ (edited.dependents source).filter fun d => !edited.isSatisfied d
    · -- It is among the dependents to turn, so nothing it names is there any more.
      have hlost : edited.isSatisfied ⟨id, path⟩ = false := by
        simpa using (List.mem_filter.1 hmem).2
      have hplain : Alias.valueTarget? token.value = none := by
        cases href : Alias.valueTarget? token.value with
        | none =>
            rfl
        | some reference =>
            simp [isSatisfied_eq, htoken, href, hkept reference href] at hlost
      simp [hmem, htoken, Token.turn_of_valueTarget?_eq_none hplain]
    · simp [hmem, htoken]

/-- A whole alias of a missing token within the old path is turned to the new one. -/
theorem tokenAt?_turned_of_updateDependents (hne : source ≠ newPath)
    (hturn : ∀ token : Token, (token.turn source newPath).turn source newPath =
      token.turn source newPath)
    (hstores : ∀ page ∈ edited.pages, page.tokens.WellFormed)
    (htoken : edited.tokenAt? id path = some token) {reference : String}
    (href : Alias.valueTarget? token.value = some reference)
    (hwithin : Path.isWithin reference source = true)
    (hlost : edited.definesToken reference = false) :
    q.tokenAt? id path = some (token.turn source newPath) := by
  rcases run_updateDependents_eq_ok.1 hrun with ⟨hsame, -⟩ | ⟨-, -, rfl⟩
  · exact absurd hsame hne
  · rcases Option.bind_eq_some_iff.1 htoken with ⟨page, hpage, -⟩
    have hwell := hstores page (List.mem_of_find?_eq_some hpage)
    have hfound := mem_dependents hpage hwell htoken href hwithin
    have hunsatisfied : edited.isSatisfied ⟨id, path⟩ = false := by
      simp [isSatisfied_eq, htoken, href, hlost]
    have hmem : ⟨id, path⟩ ∈ (edited.dependents source).filter fun d => !edited.isSatisfied d :=
      List.mem_filter.2 ⟨hfound, by simp [hunsatisfied]⟩
    rw [tokenAt?_foldl_redirect hturn, if_pos hmem, htoken, Option.map_some]

end Dependents

section Aliases

variable {home : Page} {store : Store} {change : PathChange} {place : Nat} (h : p.Consistent)
  (hstores : ∀ page ∈ p.pages, page.tokens.WellFormed) (hhome : p.page? id = some home)
  (hmoved : Store.Relocated home.tokens store source newPath)
  (hrun : (updateDependents source newPath).run
    (p.updatePage id ({ · with tokens := store })) = .ok change q)
  (htoken : p.tokenAt? other path = some token)
  (halias : token.value.aliasAt? place = some target) (hdefined : p.definesToken target = true)

include hstores hhome hmoved in
/-- A reference that has been turned is not turned again. -/
theorem turn_turn_of_relocated (hne : source ≠ newPath) (token : Token) :
    (token.turn source newPath).turn source newPath = token.turn source newPath := by
  have hwell := hstores home (List.mem_of_find?_eq_some hhome)
  rcases hmoved with ⟨hsame, -⟩ | ⟨hm, hnodes, hafter⟩
  · exact absurd hsame.symm hne
  · exact Store.turn_turn_of_relocates hwell hm hnodes hafter token

include h hstores hhome hmoved hrun htoken halias hdefined

/-- The alias stays as it is, and what it names is still there. -/
theorem worksAt_of_not_vacates (hkept : ¬ p.Vacates id source newPath target) :
    q.WorksAt other (if other = id then Store.place source newPath path else path) place := by
  have hwell := hstores home (List.mem_of_find?_eq_some hhome)
  have hedited := tokenAt?_edited hhome hwell hmoved htoken
  have hstill := (definesToken_edited_iff h hhome hwell hmoved hdefined).2 hkept
  have hturn := turn_turn_of_relocated hstores hhome hmoved
  refine ⟨token, target, ?_, halias, ?_⟩
  · refine tokenAt?_of_updateDependents hrun hturn hedited ?_
    intro reference href
    rw [Json.aliasAt?_of_valueTarget? halias href]
    exact hstill
  · rw [definesToken_of_updateDependents hrun]
    exact hstill

/-- The alias is turned to the place that its token has moved to. -/
theorem worksAt_of_vacates (hvacates : p.Vacates id source newPath target)
    (hwhole : token.value.isComposite = false) :
    q.WorksAt other (if other = id then Store.place source newPath path else path) place := by
  have hwell := hstores home (List.mem_of_find?_eq_some hhome)
  have hedited := tokenAt?_edited hhome hwell hmoved htoken
  have hlost : (p.updatePage id ({ · with tokens := store })).definesToken target = false := by
    simpa [hvacates] using definesToken_edited_iff h hhome hwell hmoved hdefined
  have hne : source ≠ newPath := Ne.symm hvacates.moved
  have hturn := turn_turn_of_relocated hstores hhome hmoved hne
  rcases hmoved with ⟨hsame, -⟩ | ⟨hm, hnodes, hafter⟩
  · exact absurd hsame hvacates.moved
  · rcases Json.aliasAt?_of_not_isComposite halias hwhole with ⟨rfl, href⟩
    have hturned := tokenAt?_turned_of_updateDependents hrun hne hturn
      (fun _ hmem => wellFormed_updatePage hstores hafter hmem) hedited href hvacates.within hlost
    cases hplace : Path.rebase? source newPath target with
    | none =>
        have hout := hvacates.within
        rw [Path.rebase?_eq_none_iff.1 hplace] at hout
        cases hout
    | some moved =>
        rcases Alias.valueTarget?_eq_some_iff.1 href with ⟨text, -, htext⟩
        -- The new path is readable as an alias, and the token has moved there.
        have hnew := Store.quotable_of_relocates hm hnodes hafter
        have hquotable := (Alias.quotable_of_target? htext).rebase? hm.source_ne hnew hplace
        have hthere : (p.updatePage id ({ · with tokens := store })).definesToken moved = true := by
          have hdefines := definesToken_edited_moved h hhome hwell (Or.inr ⟨hm, hnodes, hafter⟩)
            hdefined hvacates
          simpa [Store.place, hplace] using hdefines
        rw [Token.turn_of_rebase? href hplace] at hturned
        refine ⟨_, moved, hturned, ?_, ?_⟩
        · simp [Json.aliasAt?, Json.texts, Alias.target?_ofPath hquotable]
        · rw [definesToken_of_updateDependents hrun]
          exact hthere

/-- The alias stays as it is, but what it names has moved away. -/
theorem not_worksAt_of_vacates (hvacates : p.Vacates id source newPath target)
    (hnested : token.value.isComposite = true) :
    ¬ q.WorksAt other (if other = id then Store.place source newPath path else path) place := by
  have hwell := hstores home (List.mem_of_find?_eq_some hhome)
  have hedited := tokenAt?_edited hhome hwell hmoved htoken
  have hlost : (p.updatePage id ({ · with tokens := store })).definesToken target = false := by
    simpa [hvacates] using definesToken_edited_iff h hhome hwell hmoved hdefined
  have hturn := turn_turn_of_relocated hstores hhome hmoved
  -- A composite value is no whole alias, and so the token is not turned.
  have hplain := Alias.valueTarget?_eq_none_of_isComposite hnested
  have hafter := tokenAt?_of_updateDependents hrun hturn hedited (by simp [hplain])
  intro hworks
  rcases hworks with ⟨found, reference, hfound, hreference, hdefines⟩
  have hsame : token = found := Option.some.inj (hafter.symm.trans hfound)
  subst hsame
  have heq : target = reference := Option.some.inj (halias.symm.trans hreference)
  subst heq
  rw [definesToken_of_updateDependents hrun, hlost] at hdefines
  cases hdefines

end Aliases

/-- An accepted renaming or move keeps every alias of an existing token working, in whatever page it
is, unless the alias is inside of a composite value and the edit takes the only such token away.
Such an alias always breaks. -/
theorem worksAt_place_iff {slug : String → String} (hp : p.Reachable slug)
    (hstores : ∀ page ∈ p.pages, page.tokens.WellFormed) {edit : PathEdit} {change : PathChange}
    (hrun : (edit.onPage id).run p = .ok change q) {page : Page} (hpage : page ∈ p.pages)
    (htoken : page.tokens.token? path = some token)
    {place : Nat} (halias : token.value.aliasAt? place = some target)
    (hdefined : p.definesToken target = true) :
    q.WorksAt page.id (edit.place id change.newPath page.id path) place ↔
      ¬ (token.value.isComposite = true ∧ p.Vacates id edit.path change.newPath target) := by
  have h := hp.consistent
  rcases PathEdit.run_onPage_eq_ok.1 hrun with ⟨newPath, home, store, hhome, hstore, hdependents⟩
  have hmoved := PathEdit.relocated (hstores home (List.mem_of_find?_eq_some hhome)) hstore
  have hbefore : p.tokenAt? page.id path = some token := by
    simp [tokenAt?, h.page?_of_mem hpage, htoken]
  rw [newPath_of_updateDependents hdependents]
  -- An alias whose token is taken away works again exactly if it is turned.
  by_cases hvacates : p.Vacates id edit.path newPath target
  · by_cases hnested : token.value.isComposite = true
    · have hbroken := not_worksAt_of_vacates h hstores hhome hmoved hdependents hbefore halias
        hdefined hvacates hnested
      exact iff_of_false hbroken (not_not_intro ⟨hnested, hvacates⟩)
    · have hworks := worksAt_of_vacates h hstores hhome hmoved hdependents hbefore halias hdefined
        hvacates (by simpa using hnested)
      exact iff_of_true hworks fun hboth => hnested hboth.1
  · have hworks := worksAt_of_not_vacates h hstores hhome hmoved hdependents hbefore halias hdefined
      hvacates
    exact iff_of_true hworks fun hboth => hvacates hboth.2

/-- A font, an alias of it, and a composite value with the same alias inside. -/
def fontTree : Tree where
  children :=
    [("font", .group {} [("base", .token { value := .string "Inter" })]),
      ("label", .token { value := .string (Alias.ofPath "font.base") }),
      ("text", .token
        { value := .object [("fontFamily", .string (Alias.ofPath "font.base"))] })]

/-- One layer, whose page has these tokens. -/
def fonts : Pipeline :=
  runWith plainSlug empty
    [.addLayer "Base" [] false, .getOrCreatePage ⟨"layer-base"⟩ .empty,
      .setPageTokens ⟨"layer-base-base"⟩ fontTree]

theorem wellFormed_fontTree : (Store.ofTree fontTree).WellFormed :=
  Store.wellFormed_ofTree (by decide +kernel)

theorem reachable_fonts : fonts.Reachable plainSlug :=
  ⟨_, rfl⟩

theorem pages_fonts : fonts.pages =
    [⟨⟨"layer-base-base"⟩, ⟨"layer-base"⟩, "Base", .empty, .ofTree fontTree⟩] := by
  decide +kernel

theorem wellFormed_fonts : ∀ page ∈ fonts.pages, page.tokens.WellFormed := by
  rw [pages_fonts]
  simpa using wellFormed_fontTree

/-- The alias that is a whole value is turned. -/
theorem worksAt_place_label :
    ((PathEdit.rename "font.base" "body").onPage ⟨"layer-base-base"⟩).run fonts =
        .ok ⟨"font.body", [⟨⟨"layer-base-base"⟩, "label"⟩], []⟩
          (((PathEdit.rename "font.base" "body").onPage ⟨"layer-base-base"⟩).stateAfter fonts) ∧
      (((PathEdit.rename "font.base" "body").onPage ⟨"layer-base-base"⟩).stateAfter
        fonts).WorksAt ⟨"layer-base-base"⟩ "label" 0 := by
  have hrun := @Edit.run_eq_ok_of_result _ _ _ fonts
    ⟨"font.body", [⟨⟨"layer-base-base"⟩, "label"⟩], []⟩
    ((PathEdit.rename "font.base" "body").onPage ⟨"layer-base-base"⟩) (by decide +kernel)
  have hpage : ⟨⟨"layer-base-base"⟩, ⟨"layer-base"⟩, "Base", .empty, .ofTree fontTree⟩ ∈
      fonts.pages := by
    simp [pages_fonts]
  have hiff := worksAt_place_iff reachable_fonts wellFormed_fonts hrun hpage
    (by decide +kernel : (Store.ofTree fontTree).token? "label" =
      some { value := .string (Alias.ofPath "font.base") })
    (by decide +kernel : (Json.string (Alias.ofPath "font.base")).aliasAt? 0 = some "font.base")
    (by decide +kernel)
  exact ⟨hrun, hiff.2 fun hboth => by cases hboth.1⟩

/-- The same alias in a field is not, although resolving follows it and no other page has the font.
-/
theorem not_worksAt_place_text :
    (∀ page ∈ fonts.pages, page.tokens.WellFormed) ∧
      fonts.WorksAt ⟨"layer-base-base"⟩ "text" 0 ∧
      ((PathEdit.rename "font.base" "body").onPage ⟨"layer-base-base"⟩).run fonts =
        .ok ⟨"font.body", [⟨⟨"layer-base-base"⟩, "label"⟩], []⟩
          (((PathEdit.rename "font.base" "body").onPage ⟨"layer-base-base"⟩).stateAfter fonts) ∧
      ¬ (((PathEdit.rename "font.base" "body").onPage ⟨"layer-base-base"⟩).stateAfter
        fonts).WorksAt ⟨"layer-base-base"⟩ "text" 0 := by
  refine ⟨wellFormed_fonts, by decide +kernel, ?_, by decide +kernel⟩
  exact Edit.run_eq_ok_of_result (by decide +kernel)

end Pipeline
end DesignTokens
