import DesignTokens.Proofs.Token.FlatOrder

/-!
# Lists of some of the tokens

A list need not have all tokens of its tree: what it lacks is looked up in the tree. The values of
tokens are the same there, so that a token is resolved to one value whatever else is in the list.

The types are not. The list has the effective type of a token, the tree only the one that the token
declares itself. A chain of aliases therefore gives another type when it takes its type from a token
which inherits it and which the list lacks. `LosesType` says when this happens.
-/

namespace DesignTokens

/-! ## Names of flat tokens -/

namespace Tree

variable {tree : Tree} {token other : FlatToken} {name : String}

/-- The tokens of a flat list are told apart by their names. -/
theorem eq_of_mem_flatten_of_name (h : tree.EachGroup Node.ProperNames)
    (hmem : token ∈ tree.flatten) (hother : other ∈ tree.flatten)
    (hname : token.name = other.name) : token = other := by
  refine List.inj_on_of_nodup_map (nodup_paths_flatten h) hmem hother ?_
  rw [← segments_name_of_mem_flatten h hmem, ← segments_name_of_mem_flatten h hother, hname]

/-- A flat token is the one at its name in the tree, with the type that it inherits there. -/
theorem exists_eq_flat_of_mem_flatten (h : tree.EachGroup Node.ProperNames)
    (hmem : token ∈ tree.flatten) :
    ∃ found, tree.token? token.name = some found ∧
      token = found.flat token.path (tree.nearestType token.path) := by
  rcases token?_of_mem_flatten h hmem with ⟨-, found, hfound, -⟩
  have hflat := flat_mem_flatten hfound
  rw [segments_name_of_mem_flatten h hmem] at hflat
  exact ⟨found, hfound, eq_of_mem_flatten_of_name h hmem hflat rfl⟩

/-- What no flat token is named is no target. -/
theorem targets_eq_none (hnone : ∀ token ∈ tree.flatten, token.name ≠ name) :
    tree.targets name = none := by
  cases hfound : tree.token? name with
  | none =>
      simp [targets, hfound]
  | some found =>
      rcases exists_mem_flatten hfound with ⟨token, hmem, hpath⟩
      refine absurd ?_ (hnone token hmem)
      rw [FlatToken.name, hpath, Path.ofSegments_segments]

end Tree

/-! ## Looking up targets -/

namespace FlatToken

variable {tree : Tree} {tokens : List FlatToken} {token : FlatToken} {name : String}

theorem exists_lastNamed? (hmem : token ∈ tokens) :
    ∃ last, lastNamed? (index tokens) token.name = some last := by
  induction tokens with
  | nil =>
      cases hmem
  | cons first rest ih =>
      cases hlater : lastNamed? (index rest) token.name with
      | some last =>
          exact ⟨last, by rw [index, List.map_cons, lastNamed?, ← index, hlater]⟩
      | none =>
          rcases List.mem_cons.1 hmem with rfl | hrest
          · exact ⟨token, by rw [index, List.map_cons, lastNamed?, ← index, hlater, if_pos rfl]⟩
          · rcases ih hrest with ⟨last, hlast⟩
            rw [hlater] at hlast
            cases hlast

theorem name_eq_of_lastNamed? (h : lastNamed? (index tokens) name = some token) :
    token ∈ tokens ∧ token.name = name := by
  rcases List.mem_map.1 (mem_of_lastNamed? h) with ⟨member, hmem, heq⟩
  cases heq
  exact ⟨hmem, rfl⟩

section

variable (h : tree.EachGroup Node.ProperNames) (hsub : tokens ⊆ tree.flatten)

include h hsub

/-- A token of the list is found with its effective type. -/
theorem targets_of_mem (hmem : token ∈ tokens) :
    targets (index tokens) tree token.name = some (token.value, token.type) := by
  rcases exists_lastNamed? hmem with ⟨last, hlast⟩
  rcases name_eq_of_lastNamed? hlast with ⟨hlastMem, hname⟩
  have hsame : last = token :=
    Tree.eq_of_mem_flatten_of_name h (hsub hlastMem) (hsub hmem) hname
  simp [targets, hlast, hsame]

/-- A token that the list lacks is found with the type that it declares. -/
theorem targets_of_not_mem (hflat : token ∈ tree.flatten) (hnot : token ∉ tokens) {found : Token}
    (hfound : tree.token? token.name = some found) :
    targets (index tokens) tree token.name = some (token.value, found.type) := by
  have hlast : lastNamed? (index tokens) token.name = none := by
    refine Option.eq_none_iff_forall_not_mem.2 fun last hlast => hnot ?_
    rcases name_eq_of_lastNamed? hlast with ⟨hmem, hname⟩
    rwa [← Tree.eq_of_mem_flatten_of_name h (hsub hmem) hflat hname]
  rcases Tree.token?_of_mem_flatten h hflat with ⟨-, other, hother, hvalue⟩
  have hsame : other = found := Option.some.inj (hother.symm.trans hfound)
  simp [targets, hlast, Tree.targets, hfound, ← hvalue, hsame]

end

/-- What is not in the tree is no target of a part of its list. -/
theorem targets_eq_none (hsub : tokens ⊆ tree.flatten)
    (hnone : ∀ token ∈ tree.flatten, token.name ≠ name) :
    targets (index tokens) tree name = none := by
  have hlast : lastNamed? (index tokens) name = none := by
    refine Option.eq_none_iff_forall_not_mem.2 fun last hlast => ?_
    rcases name_eq_of_lastNamed? hlast with ⟨hmem, hname⟩
    exact hnone last (hsub hmem) hname
  simp [targets, hlast, Tree.targets_eq_none hnone]

end FlatToken

/-! ## Types -/

namespace FlatToken

/-- The chain of aliases that starts at a value comes upon its first type at a token which inherits
it and which the list lacks, and the rest of the chain does not give the same type. -/
inductive LosesType (tokens : List FlatToken) (tree : Tree) : Nat → Json → Prop where
  | here {budget : Nat} {value : Json} {token : FlatToken} {found : Token} {type : String}
      (target : Alias.valueTarget? value = some token.name) (flat : token ∈ tree.flatten)
      (lacking : token ∉ tokens) (declared : tree.token? token.name = some found)
      (undeclared : found.type = none) (effective : token.type = some type)
      (rest : Alias.chainType (targets (index tokens) tree) [] budget token.value ≠ some type) :
      LosesType tokens tree (budget + 1) value
  | hop {budget : Nat} {value : Json} {token : FlatToken}
      (target : Alias.valueTarget? value = some token.name) (flat : token ∈ tree.flatten)
      (untyped : token.type = none) (rest : LosesType tokens tree budget token.value) :
      LosesType tokens tree (budget + 1) value

variable {tree : Tree} {tokens : List FlatToken} {token : FlatToken} {budget : Nat} {value : Json}

/-- What the first hop of the chain has to do with a lost type. -/
theorem losesType_succ_iff (h : tree.EachGroup Node.ProperNames) (hflat : token ∈ tree.flatten)
    (htarget : Alias.valueTarget? value = some token.name) {found : Token}
    (hfound : tree.token? token.name = some found) :
    LosesType tokens tree (budget + 1) value ↔
      (token.type = none ∧ LosesType tokens tree budget token.value) ∨
        (token ∉ tokens ∧ found.type = none ∧ ∃ type, token.type = some type ∧
          Alias.chainType (targets (index tokens) tree) [] budget token.value ≠ some type) := by
  have hsame : ∀ {other}, other ∈ tree.flatten →
      Alias.valueTarget? value = some other.name → other = token := by
    intro other hother hname
    rw [htarget] at hname
    exact Tree.eq_of_mem_flatten_of_name h hother hflat (Option.some.inj hname).symm
  constructor
  · intro hloses
    cases hloses with
    | here target flat lacking declared undeclared effective rest =>
        cases hsame flat target
        rw [hfound] at declared
        cases declared
        exact Or.inr ⟨lacking, undeclared, _, effective, rest⟩
    | hop target flat untyped rest =>
        cases hsame flat target
        exact Or.inl ⟨untyped, rest⟩
  · rintro (⟨huntyped, hrest⟩ | ⟨hlacking, hundeclared, type, heffective, hrest⟩)
    · exact .hop htarget hflat huntyped hrest
    · exact .here htarget hflat hlacking hfound hundeclared heffective hrest

/-- The type along a chain is that of the next token, or the one further along. -/
theorem chainType_succ {lookup : Alias.Lookup} {name : String} {next : Json} {type : Option String}
    (htarget : Alias.valueTarget? value = some name) (hlookup : lookup name = some (next, type)) :
    Alias.chainType lookup [] (budget + 1) value =
      (type <|> Alias.chainType lookup [] budget next) := by
  simp [Alias.chainType, htarget, hlookup]

/-- A chain that leads nowhere has no type. -/
theorem chainType_of_lookup_eq_none {lookup : Alias.Lookup} {name : String}
    (htarget : Alias.valueTarget? value = some name) (hlookup : lookup name = none) :
    Alias.chainType lookup [] (budget + 1) value = none := by
  simp [Alias.chainType, htarget, hlookup]

/-- A value that is no reference takes no type from a chain. -/
theorem chainType_of_valueTarget?_eq_none {lookup : Alias.Lookup} {expanding : List String}
    (htarget : Alias.valueTarget? value = none) :
    Alias.chainType lookup expanding budget value = none := by
  cases budget with
  | zero =>
      rfl
  | succ budget =>
      simp [Alias.chainType, htarget]

/-- A chain has one type with some of the tokens in the list and with all of them, if and only if it
does not lose it. -/
theorem chainType_eq_iff (h : tree.EachGroup Node.ProperNames) (hsub : tokens ⊆ tree.flatten)
    (budget : Nat) (value : Json) :
    Alias.chainType (targets (index tokens) tree) [] budget value =
        Alias.chainType (targets (index tree.flatten) tree) [] budget value ↔
      ¬ LosesType tokens tree budget value := by
  have hall : tree.flatten ⊆ tree.flatten := List.Subset.refl _
  induction budget generalizing value with
  | zero =>
      refine iff_of_true rfl ?_
      rintro ⟨⟩
  | succ budget ih =>
      cases htarget : Alias.valueTarget? value with
      | none =>
          rw [chainType_of_valueTarget?_eq_none htarget, chainType_of_valueTarget?_eq_none htarget]
          refine iff_of_true rfl fun hloses => ?_
          cases hloses with
          | here target =>
              rw [htarget] at target
              cases target
          | hop target =>
              rw [htarget] at target
              cases target
      | some name =>
          by_cases hnamed : ∃ token ∈ tree.flatten, token.name = name
          · rcases hnamed with ⟨token, hflat, rfl⟩
            rcases Tree.exists_eq_flat_of_mem_flatten h hflat with ⟨found, hfound, heq⟩
            rw [losesType_succ_iff h hflat htarget hfound,
              chainType_succ htarget (targets_of_mem h hall hflat)]
            by_cases hmem : token ∈ tokens
            · -- Both lists have the token, with its type if it has one.
              rw [chainType_succ htarget (targets_of_mem h hsub hmem)]
              cases htype : token.type with
              | none =>
                  simpa [hmem] using ih token.value
              | some type =>
                  simp [hmem]
            · rw [chainType_succ htarget (targets_of_not_mem h hsub hflat hmem hfound)]
              have htypes : token.type = (found.type <|> tree.nearestType token.path) :=
                congrArg FlatToken.type heq
              cases hdeclared : found.type with
              | some type =>
                  simp [htypes, hdeclared]
              | none =>
                  -- The type that the token inherits is not found in the tree.
                  cases htype : token.type with
                  | none =>
                      simpa [hmem] using ih token.value
                  | some type =>
                      simp [hmem]
          · have hnone : ∀ token ∈ tree.flatten, token.name ≠ name :=
              fun token hflat hname => hnamed ⟨token, hflat, hname⟩
            rw [chainType_of_lookup_eq_none htarget (targets_eq_none hsub hnone),
              chainType_of_lookup_eq_none htarget (targets_eq_none hall hnone)]
            refine iff_of_true rfl fun hloses => ?_
            cases hloses with
            | here target flat =>
                rw [htarget] at target
                exact hnone _ flat (Option.some.inj target).symm
            | hop target flat =>
                rw [htarget] at target
                exact hnone _ flat (Option.some.inj target).symm

/-- A token without a type of its own has that of its chain. A composite value is no alias, so that
its mark does not matter here. -/
theorem type_resolve (lookup : Alias.Lookup) (budget : Nat) (token : FlatToken) :
    (token.resolve lookup budget).type =
      (token.type <|> Alias.chainType lookup [] budget token.value) := by
  cases hcomposite : token.value.isComposite with
  | true =>
      have htarget := Alias.valueTarget?_eq_none_of_isComposite hcomposite
      simp [resolve, chainType_of_valueTarget?_eq_none htarget]
  | false =>
      simp [resolve, hcomposite]

/-! ## Resolving some of the tokens -/

/-- A token of a list of some tokens of a tree, in order, is resolved to the value that it has when
all of them are in the list. It has the same type, too, if and only if it has one of its own or its
chain of aliases does not lose one. -/
theorem resolveAll_of_sublist (h : tree.EachGroup Node.ProperNames)
    (hsub : tokens.Sublist tree.flatten) (budget : Nat) {i j : Nat} {token : FlatToken}
    (hpart : tokens[i]? = some token) (hwhole : tree.flatten[j]? = some token) :
    ∃ part whole, (resolveAll tokens tree budget)[i]? = some part ∧
      (resolveAll tree.flatten tree budget)[j]? = some whole ∧
      part.path = whole.path ∧ part.value = whole.value ∧ part.written = whole.written ∧
      part.description = whole.description ∧
      (part.type = whole.type ↔
        ¬ (token.type = none ∧ LosesType tokens tree budget token.value)) := by
  have hpart' : (resolveAll tokens tree budget)[i]? =
      some (token.resolve (targets (index tokens) tree) budget) := by
    simp [resolveAll, hpart]
  have hwhole' : (resolveAll tree.flatten tree budget)[j]? =
      some (token.resolve (targets (index tree.flatten) tree) budget) := by
    simp [resolveAll, hwhole]
  refine ⟨_, _, hpart', hwhole', rfl, ?_, rfl, rfl, ?_⟩
  · rw [value_resolve_of_subset h hsub.subset, value_resolve h]
  · rw [type_resolve, type_resolve]
    cases htype : token.type with
    | some type =>
        simp
    | none =>
        simpa using chainType_eq_iff h hsub.subset budget token.value

/-- A token with the type of its group, and two aliases one after the other. -/
def inkDocument : Json :=
  .object [("ink", .object [("$type", .string "color"),
      ("blue", .object [("$value", .string "#0066FF")])]),
    ("primary", .object [("$value", .string (Alias.ofPath "ink.blue"))]),
    ("edge", .object [("$value", .string (Alias.ofPath "primary"))])]

def edgeToken : FlatToken where
  path := ["edge"]
  value := .string (Alias.ofPath "primary")

theorem resolveAll_of_sublist_inkDocument :
    ∃ tree, Tree.ofJson inkDocument = .ok tree ∧ tree.EachGroup Node.ProperNames ∧
      [edgeToken].Sublist tree.flatten ∧ [edgeToken][0]? = some edgeToken ∧
      tree.flatten[2]? = some edgeToken ∧
      ∃ part whole, (resolveAll [edgeToken] tree 5)[0]? = some part ∧
        (resolveAll tree.flatten tree 5)[2]? = some whole ∧
        part.path = whole.path ∧ part.value = whole.value ∧ part.written = whole.written ∧
        part.description = whole.description ∧
        (part.type = whole.type ↔
          ¬ (edgeToken.type = none ∧ LosesType [edgeToken] tree 5 edgeToken.value)) := by
  have hnames := @Tree.properNames_ofJson inkDocument _ rfl
  refine ⟨_, rfl, hnames, by decide, rfl, rfl, ?_⟩
  exact resolveAll_of_sublist hnames (by decide) 5 rfl rfl

/-- Alone in the list, the alias has no type. With all tokens in the list it has the one that
`ink.blue` inherits from its group. -/
theorem type_resolveAll_ne_inkDocument :
    ∃ tree, Tree.ofJson inkDocument = .ok tree ∧ [edgeToken].Sublist tree.flatten ∧
      tree.flatten[2]? = some edgeToken ∧
      (resolveAll [edgeToken] tree Alias.defaultBudget)[0]?.map (·.type) = some none ∧
      (resolveAll tree.flatten tree Alias.defaultBudget)[2]?.map (·.type) = some (some "color") :=
  ⟨_, rfl, by decide, rfl, rfl, rfl⟩

end FlatToken
end DesignTokens
