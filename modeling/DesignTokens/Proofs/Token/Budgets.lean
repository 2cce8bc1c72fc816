import DesignTokens.Proofs.Token.Alias

/-!
# Budgets of hops

A chain of aliases is followed hop by hop until the budget is spent or no hop leads on. Two budgets
one after the other reach as far as their sum, so that a chain which has come to its end stays
there, and one which goes in a circle is back where it was after as many hops as the circle has
tokens.
-/

namespace DesignTokens

/-! ## Aliases as texts -/

namespace Alias

/-- There is one alias of a path. -/
theorem eq_ofPath_of_valueTarget? {value : Json} {path : String}
    (h : valueTarget? value = some path) : value = .string (ofPath path) := by
  rcases valueTarget?_eq_some_iff.1 h with ⟨text, rfl, htarget⟩
  rcases Option.map_eq_some_iff.1 htarget with ⟨inner, hinner, rfl⟩
  unfold targetChars? at hinner
  split at hinner
  · rename_i rest hchars
    simp only at hinner
    split at hinner
    · rename_i hclosed
      cases hinner
      -- What stands before the closing brace is the path.
      have hrest : rest = rest.dropLast ++ ['\x7d'] :=
        (List.dropLast_append_getLast? _ hclosed.1).symm
      have htext : text = ofPath (String.ofList rest.dropLast) := by
        apply String.toList_injective
        rw [hchars, hrest]
        simp [ofPath]
      rw [htext]
    · cases hinner
  · cases hinner

end Alias

namespace Tree

variable {tree : Tree} {value next last : Json} {budget hops start : Nat} {paths : List String}

/-! ## Hops -/

/-- The value that one hop leads to, which is that of the token that a value is an alias of. -/
def hop? (tree : Tree) (value : Json) : Option Json :=
  (Alias.valueTarget? value).bind fun target => (tree.token? target).map Token.value

inductive Hops (tree : Tree) : Nat → Json → Json → Prop where
  | done (value : Json) : Hops tree 0 value value
  | hop {hops : Nat} {value next last : Json} (first : tree.hop? value = some next)
      (later : Hops tree hops next last) : Hops tree (hops + 1) value last

/-- The value is no alias, or it is an alias of a path where there is nothing or a group. -/
def IsEnd (tree : Tree) (value : Json) : Prop :=
  ∀ target, Alias.valueTarget? value = some target →
    tree.lookup target = none ∨
      ∃ attributes children, tree.lookup target = some (.group attributes children)

theorem IsEnd.hop?_eq_none (h : tree.IsEnd value) : tree.hop? value = none := by
  cases htarget : Alias.valueTarget? value with
  | none =>
      simp [hop?, htarget]
  | some target =>
      rcases h target htarget with hlookup | ⟨attributes, children, hlookup⟩
      · simp [hop?, htarget, token?, hlookup]
      · simp [hop?, htarget, token?, hlookup, Node.token?]

/-! ## Following -/

theorem resolveAlias_zero (tree : Tree) (value : Json) : tree.resolveAlias value 0 = value :=
  rfl

/-- A budget is spent hop by hop. -/
theorem resolveAlias_of_hop? (h : tree.hop? value = some next) (budget : Nat) :
    tree.resolveAlias value (budget + 1) = tree.resolveAlias next budget := by
  rcases Option.bind_eq_some_iff.1 h with ⟨target, htarget, hnext⟩
  rcases Option.map_eq_some_iff.1 hnext with ⟨token, htoken, rfl⟩
  simp [resolveAlias, Alias.follow, htarget, targets, htoken]

/-- Where no hop leads on, every budget gives the value itself. -/
theorem resolveAlias_of_hop?_eq_none (h : tree.hop? value = none) (budget : Nat) :
    tree.resolveAlias value budget = value := by
  cases budget with
  | zero =>
      rfl
  | succ budget =>
      cases htarget : Alias.valueTarget? value with
      | none =>
          simp [resolveAlias, Alias.follow, htarget]
      | some target =>
          have htoken : tree.token? target = none := by simpa [hop?, htarget] using h
          simp [resolveAlias, Alias.follow, htarget, targets, htoken]

/-- Budgets spent one after the other are spent together. -/
theorem resolveAlias_resolveAlias (tree : Tree) (value : Json) (a b : Nat) :
    tree.resolveAlias (tree.resolveAlias value a) b = tree.resolveAlias value (a + b) := by
  induction a generalizing value with
  | zero =>
      rw [resolveAlias_zero, Nat.zero_add]
  | succ a ih =>
      cases hhop : tree.hop? value with
      | none =>
          simp only [resolveAlias_of_hop?_eq_none hhop]
      | some next =>
          have hadd : a + 1 + b = a + b + 1 := by omega
          rw [resolveAlias_of_hop? hhop, hadd, resolveAlias_of_hop? hhop, ih]

/-- A budget is spent on the hops first. -/
theorem Hops.resolveAlias (h : tree.Hops hops value last) (budget : Nat) :
    tree.resolveAlias value (hops + budget) = tree.resolveAlias last budget := by
  induction h with
  | done value =>
      rw [Nat.zero_add]
  | @hop hops value next last first later ih =>
      have hadd : hops + 1 + budget = hops + budget + 1 := by omega
      rw [hadd, resolveAlias_of_hop? first, ih]

/-! ## Circles -/

/-- The path that the token at a path is an alias of. -/
def reference? (tree : Tree) (path : String) : Option String :=
  (tree.token? path).bind fun token => Alias.valueTarget? token.value

/-- The tokens at some paths are aliases of one another in a circle, each of the next one and the
last of the first. -/
def Circle (tree : Tree) (paths : List String) : Prop :=
  ∀ i < paths.length, paths[i]?.bind tree.reference? = paths[(i + 1) % paths.length]?

instance (tree : Tree) (paths : List String) : Decidable (tree.Circle paths) :=
  inferInstanceAs
    (Decidable (∀ i < paths.length, paths[i]?.bind tree.reference? =
      paths[(i + 1) % paths.length]?))

/-- From an alias on a circle, as many hops as the budget has go around it. -/
theorem Circle.valueTarget?_resolveAlias (h : tree.Circle paths) (hstart : start < paths.length)
    (hvalue : Alias.valueTarget? value = paths[start]?) (budget : Nat) :
    Alias.valueTarget? (tree.resolveAlias value budget) =
      paths[(start + budget) % paths.length]? := by
  induction budget generalizing value start with
  | zero =>
      rw [resolveAlias_zero, hvalue, Nat.add_zero, Nat.mod_eq_of_lt hstart]
  | succ budget ih =>
      have hpath : Alias.valueTarget? value = some paths[start] := by
        rw [hvalue, List.getElem?_eq_getElem hstart]
      have hlater : (start + 1) % paths.length < paths.length := Nat.mod_lt _ (by omega)
      -- One hop goes to the next path of the circle.
      have hreference : tree.reference? paths[start] = some paths[(start + 1) % paths.length] := by
        simpa [List.getElem?_eq_getElem, hstart, hlater] using h start hstart
      rcases Option.bind_eq_some_iff.1 hreference with ⟨token, htoken, hnext⟩
      have hhop : tree.hop? value = some token.value := by simp [hop?, hpath, htoken]
      rw [resolveAlias_of_hop? hhop,
        ih hlater (hnext.trans (List.getElem?_eq_getElem hlater).symm), Nat.mod_add_mod]
      congr 2
      omega

/-- Budgets add up. A chain that ends is not affected by a larger budget than it has hops, and one
that starts at an alias on a circle of tokens goes around: after each budget it is at the alias of
that circle which as many hops lead to, and as many more hops as the circle has tokens change
nothing. -/
theorem resolveAlias_budgets (tree : Tree) :
    (∀ value a b,
        tree.resolveAlias (tree.resolveAlias value a) b = tree.resolveAlias value (a + b)) ∧
      (∀ {hops value last}, tree.Hops hops value last → tree.IsEnd last →
        ∀ budget, hops ≤ budget → tree.resolveAlias value budget = last) ∧
      ∀ {paths start value}, tree.Circle paths → start < paths.length →
        Alias.valueTarget? value = paths[start]? →
          ∀ budget,
            tree.resolveAlias value (budget + paths.length) = tree.resolveAlias value budget ∧
              ∃ path, paths[(start + budget) % paths.length]? = some path ∧
                tree.resolveAlias value budget = .string (Alias.ofPath path) := by
  refine ⟨resolveAlias_resolveAlias tree, ?_, ?_⟩
  · intro hops value last hhops hend budget hbudget
    rw [← Nat.add_sub_of_le hbudget, hhops.resolveAlias]
    exact resolveAlias_of_hop?_eq_none hend.hop?_eq_none _
  · intro paths start value hcircle hstart hvalue
    have halias : ∀ budget, ∃ path, paths[(start + budget) % paths.length]? = some path ∧
        tree.resolveAlias value budget = .string (Alias.ofPath path) := by
      intro budget
      have hplace : (start + budget) % paths.length < paths.length := Nat.mod_lt _ (by omega)
      have htarget := hcircle.valueTarget?_resolveAlias hstart hvalue budget
      rw [List.getElem?_eq_getElem hplace] at htarget
      exact ⟨_, List.getElem?_eq_getElem hplace, Alias.eq_ofPath_of_valueTarget? htarget⟩
    intro budget
    refine ⟨?_, halias budget⟩
    -- The circle is at the same place again, and there is one alias of the path there.
    rcases halias budget with ⟨path, hpath, hresolved⟩
    rcases halias (budget + paths.length) with ⟨path', hpath', hresolved'⟩
    rw [← Nat.add_assoc, Nat.add_mod_right, hpath, Option.some.injEq] at hpath'
    rw [hresolved, hresolved', hpath']

/-- Two hops to an alias of a group, and a circle of three tokens with an alias of one of them from
outside. -/
def chainsTree : Tree where
  children := [("ink", .group {}
      [("link", .token { value := .string (Alias.ofPath "ink.dark") }),
        ("dark", .token { value := .string (Alias.ofPath "ink") })]),
    ("a", .token { value := .string (Alias.ofPath "b") }),
    ("b", .token { value := .string (Alias.ofPath "c") }),
    ("c", .token { value := .string (Alias.ofPath "a") })]

theorem resolveAlias_budgets_chainsTree :
    chainsTree.Hops 2 (.string (Alias.ofPath "ink.link")) (.string (Alias.ofPath "ink")) ∧
      chainsTree.resolveAlias (.string (Alias.ofPath "ink.link")) 10 =
        .string (Alias.ofPath "ink") ∧
      chainsTree.Circle ["a", "b", "c"] ∧
      chainsTree.resolveAlias (.string (Alias.ofPath "b")) 10 = .string (Alias.ofPath "c") := by
  have hlink : chainsTree.hop? (.string (Alias.ofPath "ink.link")) =
      some (.string (Alias.ofPath "ink.dark")) := by decide +kernel
  have hdark : chainsTree.hop? (.string (Alias.ofPath "ink.dark")) =
      some (.string (Alias.ofPath "ink")) := by decide +kernel
  have hhops : chainsTree.Hops 2 (.string (Alias.ofPath "ink.link"))
      (.string (Alias.ofPath "ink")) := .hop hlink (.hop hdark (.done _))
  have hend : chainsTree.IsEnd (.string (Alias.ofPath "ink")) := by
    intro target htarget
    have hink : Alias.valueTarget? (.string (Alias.ofPath "ink")) = some "ink" := by
      decide +kernel
    rw [hink, Option.some.injEq] at htarget
    subst htarget
    exact Or.inr ⟨_, _, rfl⟩
  have hcircle : chainsTree.Circle ["a", "b", "c"] := by decide +kernel
  have hvalue : Alias.valueTarget? (.string (Alias.ofPath "b")) = ["a", "b", "c"][1]? := by
    decide +kernel
  refine ⟨hhops, (resolveAlias_budgets chainsTree).2.1 hhops hend 10 (by decide), hcircle, ?_⟩
  rcases ((resolveAlias_budgets chainsTree).2.2 hcircle (by decide) hvalue 10).2 with
    ⟨path, hpath, hresolved⟩
  have hthird : path = "c" := (Option.some.inj hpath).symm
  rw [hresolved, hthird]

end Tree
end DesignTokens
