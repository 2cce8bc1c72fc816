import DesignTokens.Proofs.Store.Loading
import DesignTokens.Proofs.Token.Group

/-!
# Nodes put at paths

A node is planted at a path of a tree, with a group for whatever is missing on the way. Setting a
token plants it, unless a token stands on the way or a group at the end. Groups are created while
walking there, but a refusal comes before the first of them: below a new group nothing is in the
way.
-/

namespace DesignTokens

namespace Node

/-- The node with another one at the end of a path below it. What is no group on the way there is
replaced by one. -/
def plant (planted : Node) : List String → Option Node → Node
  | [], _ => planted
  | name :: rest, node =>
      .group (attributesOf node)
        (Entries.put (entriesOf node) name
          (plant planted rest (Entries.get? (entriesOf node) name)))

variable {planted : Node} {node : Option Node} {path front rest place : List String} {name : String}

@[simp] theorem plant_nil : plant planted [] node = planted := rfl

/-- Planting below a name leaves the other entries of the group. -/
theorem plant_cons : plant planted (name :: rest) node =
    .group (attributesOf node)
      (Entries.put (entriesOf node) name
        (plant planted rest (Entries.get? (entriesOf node) name))) := rfl

/-- Planting below a path makes a group of what it starts from. -/
theorem plant_eq_group (h : path ≠ []) : plant planted path node =
    .group (attributesOf node) (entriesOf (some (plant planted path node))) := by
  rcases List.exists_cons_of_ne_nil h with ⟨name, rest, rfl⟩
  rfl

theorem entriesOf_eq_nil (h : ¬ GroupAt node []) : entriesOf node = [] := by
  cases node with
  | none =>
      rfl
  | some node =>
      cases node with
      | token t =>
          rfl
      | group attributes children =>
          exact absurd ⟨attributes, children, rfl⟩ h

/-! ## What is where -/

/-- On the way to the end, everything is planted in what there was. -/
theorem follow_plant_append (planted : Node) (front rest : List String) (node : Option Node) :
    follow (some (plant planted (front ++ rest) node)) front =
      some (plant planted rest (follow node front)) := by
  induction front generalizing node with
  | nil =>
      rfl
  | cons name back ih =>
      simpa [follow, plant_cons] using ih (Entries.get? (entriesOf node) name)

/-- What is planted at a path is found there. -/
theorem follow_plant (planted : Node) (path : List String) (node : Option Node) :
    follow (some (plant planted path node)) path = some planted := by
  have hself := follow_plant_append planted path [] node
  rwa [List.append_nil] at hself

/-- Beside the way, and below its end, nothing is planted. -/
theorem follow_plant_beside (hplanted : entriesOf (some planted) = [])
    (hend : ¬ GroupAt node path) (hplace : ¬ place <+: path) :
    follow (some (plant planted path node)) place = follow node place := by
  induction path generalizing node place with
  | nil =>
      cases place with
      | nil =>
          exact absurd (List.nil_prefix ..) hplace
      | cons name more =>
          -- Nothing was below the end, and nothing is.
          have hnode := entriesOf_eq_nil hend
          simp [follow, hplanted, hnode]
  | cons first rest ih =>
      cases place with
      | nil =>
          exact absurd (List.nil_prefix ..) hplace
      | cons name more =>
          by_cases hname : name = first
          · -- The place is on the way for one more name.
            subst hname
            have hmore : ¬ more <+: rest := by simpa using hplace
            have hbelow := @ih (Entries.get? (entriesOf node) name) more hend hmore
            simpa [follow, plant_cons] using hbelow
          · simp [follow, plant_cons, Ne.symm hname]

/-- Planting into a group that was planted is planting at once. -/
theorem plant_plant (hrest : rest ≠ []) (hfree : follow node front = none) :
    plant planted (front ++ rest) (some (plant (.group {} []) front node)) =
      plant planted (front ++ rest) node := by
  induction front generalizing node with
  | nil =>
      -- A new group has the attributes and the entries of nothing.
      have hnone : node = none := hfree
      rcases List.exists_cons_of_ne_nil hrest with ⟨name, more, rfl⟩
      simp [hnone, plant_cons]
  | cons name back ih =>
      have hback := @ih (Entries.get? (entriesOf node) name) hfree
      simp [plant_cons, Entries.put_put, hback]

/-- Only a group leads to a group. -/
theorem GroupAt.start (h : GroupAt node path) :
    ∃ attributes children, node = some (.group attributes children) := by
  cases path with
  | nil =>
      exact h
  | cons name rest =>
      rcases h with ⟨attributes, children, hfollow⟩
      cases node with
      | none =>
          simp at hfollow
      | some node =>
          cases node with
          | token t =>
              simp [follow] at hfollow
          | group outer entries =>
              exact ⟨outer, entries, rfl⟩

/-- Where something is in the way, there is something. -/
theorem exists_of_blocked (h : TokenAbove node path ∨ GroupAt node path) :
    ∃ found, node = some found := by
  cases node with
  | none =>
      rcases h with ⟨front, -, -, token, hfollow⟩ | ⟨attributes, children, hfollow⟩
      · simp at hfollow
      · simp at hfollow
  | some found =>
      exact ⟨found, rfl⟩

/-- Putting an entry into a group is planting it there. -/
theorem changeEntries_put (planted : Node) (name : String) (hgroup : GroupAt node front) :
    changeEntries (Entries.put · name planted) front (entriesOf node) =
      entriesOf (some (plant planted (front ++ [name]) node)) := by
  induction front generalizing node with
  | nil =>
      rfl
  | cons first back ih =>
      -- The next group on the way is there, so that both go on with its entries.
      have hchild : GroupAt (Entries.get? (entriesOf node) first) back := hgroup
      have hback := ih hchild
      rcases hchild.start with ⟨attributes, below, hget⟩
      have hplant : plant planted (back ++ [name]) (some (.group attributes below)) =
          .group attributes (changeEntries (Entries.put · name planted) back below) := by
        rw [hget] at hback
        rw [plant_eq_group (by simp), ← hback]
        rfl
      simp only [changeEntries, hget, List.cons_append, plant_cons, hplant, entriesOf_group]

end Node

namespace Tree

def plant (tree : Tree) (planted : Node) (path : List String) : Tree where
  attributes := tree.attributes
  children := Node.entriesOf (some (planted.plant path (some tree.root)))

theorem root_plant {path : List String} (h : path ≠ []) (tree : Tree) (planted : Node) :
    (tree.plant planted path).root = planted.plant path (some tree.root) := by
  rw [Node.plant_eq_group h]
  rfl

/-- A new group on the way, made in advance, makes no difference. -/
theorem plant_plant {front rest : List String} (hfront : front ≠ []) (hrest : rest ≠ [])
    (tree : Tree) (planted : Node) (hfree : tree.at? front = none) :
    (tree.plant (.group {} []) front).plant planted (front ++ rest) =
      tree.plant planted (front ++ rest) := by
  have hroot := @Node.plant_plant planted (some tree.root) front rest hrest hfree
  rw [← root_plant hfront] at hroot
  exact congrArg (fun node => Tree.mk tree.attributes (Node.entriesOf (some node))) hroot

/-- Putting an entry into a group that is there plants it below the group. -/
theorem changeGroup_put {parent : String} {tree : Tree}
    (hgroup : tree.GroupAt (Path.segments parent)) (planted : Node) (name : String) :
    tree.changeGroup parent (Entries.put · name planted) =
      tree.plant planted (Path.segments parent ++ [name]) := by
  rw [plant, ← Node.changeEntries_put planted name hgroup]
  rfl

/-! ## Setting a token -/

section

variable {token : Token} {path walked name : String} {segments rest : List String}
  {node : Option Node}

/-- Setting a token at the last segment puts it among the entries. -/
theorem putToken_singleton (hend : ¬ Node.GroupAt node [name]) :
    putToken token path walked [name] (Node.entriesOf node) =
      (Entries.put (Node.entriesOf node) name (.token token), .ok ()) := by
  cases hget : Entries.get? (Node.entriesOf node) name with
  | none =>
      simp [putToken, hget]
  | some child =>
      cases child with
      | token t =>
          simp [putToken, hget]
      | group attributes children =>
          exact absurd ⟨attributes, children, hget⟩ hend

/-- The rest of the way goes below what is there, or below a new group if nothing is. -/
theorem putToken_cons {children : Entries Node} {outcome : Except TokenError Unit}
    (hrest : rest ≠ []) (htoken : ¬ Node.TokenAt node [name])
    (hbelow : putToken token path (Path.child walked name) rest
      (Node.entriesOf (Entries.get? (Node.entriesOf node) name)) = (children, outcome)) :
    putToken token path walked (name :: rest) (Node.entriesOf node) =
      (Entries.put (Node.entriesOf node) name
        (.group (Node.attributesOf (Entries.get? (Node.entriesOf node) name)) children),
        outcome) := by
  rcases List.exists_cons_of_ne_nil hrest with ⟨next, more, rfl⟩
  cases hget : Entries.get? (Node.entriesOf node) name with
  | none =>
      rw [hget, Node.entriesOf_none] at hbelow
      simp [putToken, hget, hbelow]
  | some child =>
      cases child with
      | token t =>
          exact absurd ⟨t, hget⟩ htoken
      | group attributes below =>
          rw [hget, Node.entriesOf_group] at hbelow
          simp [putToken, hget, hbelow]

/-- Where no token stands on the way and no group at the end, the token is planted. -/
theorem putToken_eq_ok (hsegments : segments ≠ []) (habove : ¬ Node.TokenAbove node segments)
    (hend : ¬ Node.GroupAt node segments) :
    putToken token path walked segments (Node.entriesOf node) =
      (Node.entriesOf (some (Node.plant (.token token) segments node)), .ok ()) := by
  induction segments generalizing node walked with
  | nil =>
      exact absurd rfl hsegments
  | cons name rest ih =>
      by_cases hrest : rest = []
      · subst hrest
        rw [putToken_singleton hend]
        rfl
      · -- The way goes on, past no token.
        have htoken : ¬ Node.TokenAt node [name] := fun htoken =>
          habove ⟨[name], by simp, by simpa using Ne.symm hrest, htoken⟩
        have hbelow : ¬ Node.TokenAbove (Entries.get? (Node.entriesOf node) name) rest :=
          fun hbelow => habove (Node.tokenAbove_cons_iff.2 (Or.inr hbelow))
        rw [putToken_cons hrest htoken (ih hrest hbelow hend), Node.plant_cons,
          ← Node.plant_eq_group hrest]
        rfl

/-- A token on the way or a group at the end is refused before anything is changed: below a new
group there is neither. -/
theorem putToken_eq_error (hsegments : segments ≠ []) (hnode : ¬ Node.TokenAt node [])
    (hblocked : Node.TokenAbove node segments ∨ Node.GroupAt node segments) :
    ∃ e, putToken token path walked segments (Node.entriesOf node) =
      (Node.entriesOf node, .error e) := by
  induction segments generalizing node walked with
  | nil =>
      exact absurd rfl hsegments
  | cons name rest ih =>
      have hchild : Node.TokenAbove (Entries.get? (Node.entriesOf node) name) rest ∨
          Node.GroupAt (Entries.get? (Node.entriesOf node) name) rest :=
        hblocked.imp_left fun habove => (Node.tokenAbove_cons_iff.1 habove).resolve_left hnode
      -- What is in the way is further down, so that the next node is there and no group is new.
      rcases Node.exists_of_blocked hchild with ⟨child, hget⟩
      cases child with
      | token t =>
          cases rest with
          | nil =>
              rcases hchild.resolve_left Node.not_tokenAbove_nil with ⟨attributes, below, hgroup⟩
              cases hget.symm.trans hgroup
          | cons next more =>
              exact ⟨.notAGroup (Path.child walked name), by simp [putToken, hget]⟩
      | group attributes below =>
          by_cases hrest : rest = []
          · subst hrest
            exact ⟨.notAToken path, by simp [putToken, hget]⟩
          · have htoken : ¬ Node.TokenAt node [name] := by
              rintro ⟨t, ht⟩
              cases hget.symm.trans ht
            rcases @ih (Path.child walked name) _ hrest htoken hchild with ⟨e, hput⟩
            refine ⟨e, (putToken_cons hrest htoken hput).trans ?_⟩
            -- What is put back is the group that was there.
            simp [Node.follow, hget, Entries.put_eq_self hget]

end

/-- A token can be set at the path: its names are valid, no token stands on the way, and no group
at the end. -/
structure Settable (tree : Tree) (path : String) : Prop where
  nonempty : path ≠ ""
  valid : Path.Valid path
  reachable : ¬ tree.TokenAbove (Path.segments path)
  vacant : ¬ tree.GroupAt (Path.segments path)

variable {tree : Tree} {token : Token} {path : String}

/-- A token is set where it can be, by planting it. -/
theorem run_setToken_eq_ok (h : tree.Settable path) (token : Token) :
    (setToken path token).run tree =
      .ok () (tree.plant (.token token) (Path.segments path)) := by
  have hsegments : Path.segments path ≠ [] := mt Path.segments_eq_nil_iff.1 h.nonempty
  have hput := @putToken_eq_ok token path "" _ _ hsegments h.reachable h.vacant
  have hnames := Path.validateNames_eq_ok_iff.2 h.valid
  rcases List.exists_cons_of_ne_nil hsegments with ⟨name, rest, hcons⟩
  rw [hcons] at hput hnames
  have hput' : putToken token path "" (name :: rest) tree.children =
      (Node.entriesOf (some (Node.plant (.token token) (name :: rest) (some tree.root))), .ok ()) :=
    hput
  simp only [EStateM.run, setToken, hcons, hnames, hput']
  rfl

/-- A token that cannot be set is refused, and the tree is as it was. -/
theorem run_setToken_eq_error (h : ¬ tree.Settable path) (token : Token) :
    ∃ e, (setToken path token).run tree = .error e tree := by
  cases hsegments : Path.segments path with
  | nil =>
      exact ⟨.notFound path, by simp only [EStateM.run, setToken, hsegments]⟩
  | cons name rest =>
      cases hnames : Path.validateNames (name :: rest) with
      | error e =>
          exact ⟨e, by simp only [EStateM.run, setToken, hsegments, hnames]⟩
      | ok u =>
          -- The names are valid, so that something is in the way.
          have hvalid : Path.Valid path := by
            rw [Path.Valid, hsegments]
            exact Path.validateNames_eq_ok_iff.1 hnames
          have hne : path ≠ "" := by
            rintro rfl
            cases hsegments
          have hblocked : tree.TokenAbove (name :: rest) ∨ tree.GroupAt (name :: rest) := by
            rw [← hsegments]
            by_contra hfree
            exact h ⟨hne, hvalid, fun habove => hfree (Or.inl habove),
              fun hgroup => hfree (Or.inr hgroup)⟩
          have hroot : ¬ tree.TokenAt [] := by
            rintro ⟨t, ht⟩
            cases ht
          rcases @putToken_eq_error token path "" _ _ (by simp) hroot hblocked with ⟨e, hput⟩
          have hput' : putToken token path "" (name :: rest) tree.children =
              (tree.children, .error e) := hput
          exact ⟨e, by simp only [EStateM.run, setToken, hsegments, hnames, hput']⟩

/-! ## What setting a token changes -/

/-- The token is at the path, and what has changed besides is that the groups on the way which were
missing are there, without attributes, each of them behind the entries that were there before. -/
structure SetsToken (before after : Tree) (path : List String) (token : Token) : Prop where
  placed : after.at? path = some (.token token)
  /-- Other tokens, and the attributes of groups, are as they were. -/
  kept : ∀ place node, place ≠ path → before.at? place = some node →
    (after.at? place).map Store.stored = some (Store.stored node)
  /-- Only what is missing on the way is new. -/
  created : ∀ place, before.at? place = none → after.at? place ≠ none →
    place <+: path ∧
      (place ≠ path → (after.at? place).map Store.stored = some (.group {}))
  appended : ∀ place name, place ++ [name] <+: path → before.at? (place ++ [name]) = none →
    after.namesAt place = before.namesAt place ++ [name]
  /-- Where nothing is new, the entries have their order. -/
  ordered : ∀ place,
    (∀ name, place ++ [name] <+: path → before.at? (place ++ [name]) ≠ none) →
      after.namesAt place = before.namesAt place

section

variable {segments place rest : List String} {name : String} {planted : Node}

/-- On the way there is a group, with the attributes that there were. -/
theorem at?_plant_above (tree : Tree) (planted : Node) (place : List String) (hrest : rest ≠ []) :
    (tree.plant planted (place ++ rest)).at? place =
      some (.group (tree.attributesAt place)
        (Node.entriesOf (some (planted.plant rest (tree.at? place))))) := by
  have hpath : place ++ rest ≠ [] := List.append_ne_nil_of_right_ne_nil place hrest
  rw [at?, root_plant hpath, Node.follow_plant_append]
  exact congrArg some (Node.plant_eq_group hrest)

/-- The group gets the name if it does not have it. -/
theorem namesAt_plant_above (tree : Tree) (planted : Node) (place : List String) (name : String)
    (rest : List String) :
    (tree.plant planted (place ++ name :: rest)).namesAt place =
      if tree.at? (place ++ [name]) = none then tree.namesAt place ++ [name]
      else tree.namesAt place := by
  have hstep : tree.at? (place ++ [name]) =
      Entries.get? (Node.entriesOf (tree.at? place)) name := by
    rw [at?, Node.follow_append]
    rfl
  rw [namesAt, at?_plant_above tree planted place (List.cons_ne_nil name rest), Node.plant_cons,
    Node.entriesOf_group, Node.entriesOf_group, Entries.keys_put, hstep]
  cases hget : Entries.get? (Node.entriesOf (tree.at? place)) name with
  | none =>
      simp [Entries.has_eq_isSome, hget, namesAt]
  | some child =>
      simp [Entries.has_eq_isSome, hget, namesAt]

/-- A place before the end of the segments leaves some of them. -/
theorem exists_rest_of_leading (hplace : place <+: segments) (hne : place ≠ segments) :
    ∃ rest, rest ≠ [] ∧ place ++ rest = segments := by
  rcases hplace with ⟨rest, rfl⟩
  refine ⟨rest, ?_, rfl⟩
  rintro rfl
  exact hne (List.append_nil place).symm

/-- Planting a token changes nothing beside its path. -/
theorem at?_plant_beside (hsegments : segments ≠ [])
    (hend : ¬ tree.GroupAt segments) (hplace : ¬ place <+: segments) :
    (tree.plant (.token token) segments).at? place = tree.at? place := by
  rw [at?, root_plant hsegments]
  exact Node.follow_plant_beside rfl hend hplace

/-- Planting a token sets it: it is there, groups lead to it, and the rest of the tree is as it
was. -/
theorem setsToken_plant (hsegments : segments ≠ []) (habove : ¬ tree.TokenAbove segments)
    (hend : ¬ tree.GroupAt segments) :
    tree.SetsToken (tree.plant (.token token) segments) segments token where
  placed := by
    rw [at?, root_plant hsegments]
    exact Node.follow_plant _ _ _
  kept := by
    intro place node hne hnode
    by_cases hplace : place <+: segments
    · rcases exists_rest_of_leading hplace hne with ⟨rest, hrest, rfl⟩
      rw [at?_plant_above tree _ place hrest]
      -- No token is on the way.
      cases node with
      | token t =>
          exact absurd ⟨place, List.prefix_append .., hne, t, hnode⟩ habove
      | group attributes children =>
          simp [attributesAt, hnode, Store.stored]
    · rw [at?_plant_beside hsegments hend hplace, hnode]
      rfl
  created := by
    intro place hnone hsome
    by_cases hplace : place <+: segments
    · refine ⟨hplace, fun hne => ?_⟩
      rcases exists_rest_of_leading hplace hne with ⟨rest, hrest, rfl⟩
      rw [at?_plant_above tree _ place hrest]
      simp [attributesAt, hnone, Store.stored]
    · rw [at?_plant_beside hsegments hend hplace] at hsome
      exact absurd hnone hsome
  appended := by
    rintro place name ⟨rest, rfl⟩ hnone
    rw [List.append_assoc, List.singleton_append, namesAt_plant_above, if_pos hnone]
  ordered := by
    intro place hpresent
    by_cases hplace : place <+: segments
    · rcases hplace with ⟨rest, rfl⟩
      cases rest with
      | nil =>
          -- Where the token is now there was a token or nothing, without entries either way.
          have hbefore : Node.entriesOf (tree.at? place) = [] := by
            rw [List.append_nil] at hend
            exact Node.entriesOf_eq_nil hend
          rw [List.append_nil] at hsegments ⊢
          rw [namesAt, namesAt, hbefore, at?, root_plant hsegments, Node.follow_plant]
          rfl
      | cons name more =>
          have hsome := hpresent name ⟨more, by simp⟩
          rw [namesAt_plant_above, if_neg hsome]
    · rw [namesAt, namesAt, at?_plant_beside hsegments hend hplace]

end

end Tree

end DesignTokens
