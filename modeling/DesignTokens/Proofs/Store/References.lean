import DesignTokens.Proofs.Store.Relocation
import DesignTokens.Proofs.Token.Alias

/-!
# References

Which tokens of a store are aliases into a subtree, where the tokens of a subtree are found after it
has moved, and what turning aliases does to every token.
-/

namespace DesignTokens

/-! ## Turned tokens -/

namespace Token

/-- The token with its alias turned from one subtree to another, if it is one into the first. -/
def turned? (source target : String) (token : Token) : Option Token := do
  let reference ← Alias.valueTarget? token.value
  let moved ← Path.rebase? source target reference
  return { token with value := .string (Alias.ofPath moved) }

/-- The token with its alias turned from one subtree to another; any other token stays. -/
def turn (source target : String) (token : Token) : Token :=
  (token.turned? source target).getD token

variable {source target : String} {token : Token}

/-- A token is turned when its whole value is a reference into the moved subtree. -/
theorem turned?_eq_some_iff {changed : Token} :
    token.turned? source target = some changed ↔
      ∃ reference moved, Alias.valueTarget? token.value = some reference ∧
        Path.rebase? source target reference = some moved ∧
        changed = { token with value := .string (Alias.ofPath moved) } := by
  simp [turned?, Option.bind_eq_some_iff, eq_comm (a := changed)]

theorem turn_of_rebase? {reference moved : String}
    (href : Alias.valueTarget? token.value = some reference)
    (hmoved : Path.rebase? source target reference = some moved) :
    token.turn source target = { token with value := .string (Alias.ofPath moved) } := by
  simp [turn, turned?, href, hmoved]

/-- What is no whole alias stays, whatever aliases there are inside of it. -/
theorem turn_of_valueTarget?_eq_none (h : Alias.valueTarget? token.value = none) :
    token.turn source target = token := by
  simp [turn, turned?, h]

/-- A turned alias does not lead into the old subtree, so that turning it again changes nothing. -/
theorem turn_turn (hsource : source ≠ "") (htarget : Path.Quotable target)
    (hapart : ∀ {path}, Path.isWithin path target = true → Path.isWithin path source = false)
    (token : Token) :
    (token.turn source target).turn source target = token.turn source target := by
  -- A token that is not turned stays, and a turned one names a path within `target`.
  cases hturned : token.turned? source target with
  | none =>
      have hsame : token.turn source target = token := by simp [turn, hturned]
      rw [hsame, hsame]
  | some changed =>
      rcases turned?_eq_some_iff.1 hturned with ⟨reference, moved, href, hmoved, rfl⟩
      rcases Alias.valueTarget?_eq_some_iff.1 href with ⟨text, -, htext⟩
      have hquotable := (Alias.quotable_of_target? htext).rebase? hsource htarget hmoved
      have hback : Alias.valueTarget? (.string (Alias.ofPath moved)) = some moved :=
        Alias.valueTarget?_eq_some_iff.2 ⟨_, rfl, Alias.target?_ofPath hquotable⟩
      have hout : Path.rebase? source target moved = none :=
        Path.rebase?_eq_none_iff.2 (hapart (Path.isWithin_rebase? hsource htarget.1 hmoved))
      rw [turn_of_rebase? href hmoved]
      simp [turn, turned?, hback, hout]

end Token

namespace Store

variable {store after : Store} {path source target : String} {token : Token}

/-! ## Finding references -/

theorem mem_tokenPaths_iff (h : store.WellFormed) :
    path ∈ store.tokenPaths ↔ store.isToken path = true := by
  have hroot : store.contains "" = true := contains_of_isGroup h.root
  have hc : store.isToken path = true → store.contains path = true := by
    intro htoken
    rcases isToken_iff.1 htoken with ⟨token, hget⟩
    exact contains_iff.2 ⟨_, hget⟩
  simp only [tokenPaths, List.mem_filter, h.mem_subtree_iff hroot, Path.isWithin_root, and_true]
  exact ⟨And.right, fun htoken => ⟨hc htoken, htoken⟩⟩

/-- A token with a reference into a path is among the references to it. -/
theorem mem_references (h : store.WellFormed) {reference : String}
    (htoken : store.token? path = some token)
    (href : Alias.valueTarget? token.value = some reference)
    (hwithin : Path.isWithin reference source = true) : path ∈ store.references source := by
  have hpath : path ∈ store.tokenPaths := (mem_tokenPaths_iff h).2 (by simp [isToken, htoken])
  have hreads : store.reference? path = some reference := by simp [reference?, htoken, href]
  simp [references, hpath, hreads, hwithin]

/-! ## Turning references -/

/-- What token a store has after one reference is turned. -/
theorem token?_redirect (store : Store) (path source target other : String) :
    (store.redirect path source target).token? other =
      if other = path then (store.token? path).map (Token.turn source target)
      else store.token? other := by
  have hredirected : store.redirected? path source target =
      (store.token? path).bind (Token.turned? source target) := rfl
  unfold redirect
  rw [hredirected]
  cases htoken : store.token? path with
  | none =>
      by_cases hother : other = path
      · simp [hother, htoken]
      · simp [hother]
  | some token =>
      cases hturned : token.turned? source target with
      | none =>
          have hsame : token.turn source target = token := by simp [Token.turn, hturned]
          by_cases hother : other = path
          · simp [hother, htoken, hturned, hsame]
          · simp [hother, hturned]
      | some changed =>
          have hchanged : token.turn source target = changed := by simp [Token.turn, hturned]
          by_cases hother : other = path
          · simp [hother, hturned, hchanged, token?, get?, StoredNode.token?]
          · have hne : path ≠ other := Ne.symm hother
            simp [hother, hturned, token?, get?, Std.ExtTreeMap.getElem?_insert, hne]

theorem isToken_redirect (store : Store) (path source target other : String) :
    (store.redirect path source target).isToken other = store.isToken other := by
  unfold isToken
  rw [token?_redirect]
  by_cases hother : other = path
  · simp [hother]
  · simp [hother]

/-! ## Where tokens have moved -/

def place (source target path : String) : String :=
  (Path.rebase? source target path).getD path

theorem place_self (source path : String) : place source source path = path := by
  unfold place
  by_cases hsource : source = ""
  · simp [hsource, Path.rebase?, Path.below?]
  · cases hmoved : Path.rebase? source source path with
    | none =>
        rfl
    | some moved =>
        exact ((Path.rebase?_same_iff hsource).1 hmoved).1

/-- Every token is found at its new place, and a token that did not lie within the subtree stays. -/
theorem token?_place (h : store.WellFormed) (hm : store.Movable source target)
    (hnodes : Relocates store.get? after.get? source target)
    (htoken : store.token? path = some token) :
    after.token? (place source target path) = some token := by
  have hget := token?_eq_some_iff.1 htoken
  unfold place
  cases hmoved : Path.rebase? source target path with
  | some moved =>
      exact token?_eq_some_iff.2 ((hnodes.moved hmoved).trans hget)
  | none =>
      -- What did not lie within the subtree cannot be within its new place either.
      have hsource := Path.rebase?_eq_none_iff.1 hmoved
      have hout := h.not_isWithin_target hm (contains_iff.2 ⟨_, hget⟩)
      exact token?_eq_some_iff.2 ((hnodes.kept hsource hout).trans hget)

/-- The new path can be written into an alias. -/
theorem quotable_of_relocates (hm : store.Movable source target)
    (hnodes : Relocates store.get? after.get? source target) (hafter : after.WellFormed) :
    Path.Quotable target := by
  have hthere : after.get? target = store.get? source :=
    hnodes.moved (Path.rebase?_self hm.source_ne)
  rcases contains_iff.1 hm.present with ⟨node, hnode⟩
  have hvalid := hafter.valid (contains_iff.2 ⟨node, hthere.trans hnode⟩)
  exact ⟨hm.target_ne, hvalid.not_mem_brace⟩

/-- No alias within the new path leads back into the old one. -/
theorem turn_turn_of_relocates (h : store.WellFormed) (hm : store.Movable source target)
    (hnodes : Relocates store.get? after.get? source target) (hafter : after.WellFormed)
    (token : Token) :
    (token.turn source target).turn source target = token.turn source target :=
  Token.turn_turn hm.source_ne (quotable_of_relocates hm hnodes hafter)
    (h.not_isWithin_source hm) token

/-- Nothing is left within the old path. -/
theorem isToken_eq_false_of_relocates (hnodes : Relocates store.get? after.get? source target)
    (hwithin : Path.isWithin path source = true) : after.isToken path = false := by
  simp [isToken, token?, hnodes.left hwithin]

end Store
end DesignTokens
