import DesignTokens.Proofs.Token.Resolution

/-!
# Resolving without cycles

When no chain of aliases from a value is longer than the budget, resolving the value goes to the end
of every chain. Neither the budget nor the marks on composite tokens cut it short: a way back to a
marked token could be walked any number of times, and would make chains longer than every bound.
-/

namespace DesignTokens

/-! ## Texts of a changed value -/

namespace Json

mutual

theorem mapTexts_string (value : Json) : value.mapTexts .string = value := by
  cases value with
  | array items =>
      simp [mapTexts, mapItems_string items]
  | object fields =>
      simp [mapTexts, mapFields_string fields]
  | _ =>
      simp [mapTexts]

theorem mapItems_string (items : List Json) : mapItems .string items = items := by
  cases items with
  | nil =>
      rfl
  | cons item rest =>
      simp [mapItems, mapTexts_string item, mapItems_string rest]

theorem mapFields_string (fields : List (String × Json)) : mapFields .string fields = fields := by
  cases fields with
  | nil =>
      rfl
  | cons field rest =>
      rcases field with ⟨name, value⟩
      simp [mapFields, mapTexts_string value, mapFields_string rest]

end

mutual

/-- The texts of a changed value are those of what stands for the texts. -/
theorem texts_mapTexts (f : String → Json) (value : Json) :
    (value.mapTexts f).texts = value.texts.flatMap fun text => (f text).texts := by
  cases value with
  | array items =>
      simp [mapTexts, texts, itemTexts_mapItems f items]
  | object fields =>
      simp [mapTexts, texts, fieldTexts_mapFields f fields]
  | _ =>
      simp [mapTexts, texts]

theorem itemTexts_mapItems (f : String → Json) (items : List Json) :
    itemTexts (mapItems f items) = (itemTexts items).flatMap fun text => (f text).texts := by
  cases items with
  | nil =>
      rfl
  | cons item rest =>
      simp [mapItems, itemTexts, texts_mapTexts f item, itemTexts_mapItems f rest]

/-- The texts of changed fields are those of each changed text, in order. -/
theorem fieldTexts_mapFields (f : String → Json) (fields : List (String × Json)) :
    fieldTexts (mapFields f fields) = (fieldTexts fields).flatMap fun text => (f text).texts := by
  cases fields with
  | nil =>
      rfl
  | cons field rest =>
      rcases field with ⟨name, value⟩
      simp [mapFields, fieldTexts, texts_mapTexts f value, fieldTexts_mapFields f rest]

end

end Json

namespace Tree

variable {tree : Tree} {text : String} {token : Token} {value : Json} {budget bound : Nat}
  {marks : List String}

/-! ## Chains of aliases -/

/-- The token that a text is an alias of. An alias of a missing path or of a group is one of no
token. -/
def aliased? (tree : Tree) (text : String) : Option Token :=
  (Alias.target? text).bind tree.token?

/-- The tokens that aliases lead to, one after another: each is the target of an alias in the value
of the one before it, and the first of an alias in the given value. -/
inductive Chain (tree : Tree) : Json → List Token → Prop where
  | done (value : Json) : Chain tree value []
  | hop {value : Json} {text : String} {token : Token} {rest : List Token}
      (mem : text ∈ value.texts) (found : tree.aliased? text = some token)
      (later : Chain tree token.value rest) : Chain tree value (token :: rest)

/-- No chain of aliases from the value has more hops than the bound. -/
def ChainsWithin (tree : Tree) (bound : Nat) (value : Json) : Prop :=
  ∀ chain, tree.Chain value chain → chain.length ≤ bound

theorem chainsWithin_zero_iff :
    tree.ChainsWithin 0 value ↔ ∀ text ∈ value.texts, tree.aliased? text = none := by
  constructor
  · intro h text hmem
    cases hfound : tree.aliased? text with
    | none =>
        rfl
    | some token =>
        have hlength := h [token] (.hop hmem hfound (.done _))
        simp at hlength
  · intro h chain hchain
    cases hchain with
    | done =>
        simp
    | hop mem found later =>
        rw [h _ mem] at found
        cases found

/-- One hop more is enough when the targets of the aliases need one less. -/
theorem chainsWithin_succ_iff :
    tree.ChainsWithin (bound + 1) value ↔
      ∀ text ∈ value.texts, ∀ token ∈ tree.aliased? text, tree.ChainsWithin bound token.value := by
  constructor
  · intro h text hmem token hfound chain hchain
    exact Nat.le_of_succ_le_succ (h (token :: chain) (.hop hmem hfound hchain))
  · intro h chain hchain
    cases hchain with
    | done =>
        simp
    | hop mem found later =>
        exact Nat.succ_le_succ (h _ mem _ found _ later)

instance decidableChainsWithin (tree : Tree) :
    (bound : Nat) → (value : Json) → Decidable (tree.ChainsWithin bound value)
  | 0, _ => decidable_of_iff _ chainsWithin_zero_iff.symm
  | bound + 1, _ =>
      have : DecidablePred fun token : Token => tree.ChainsWithin bound token.value :=
        fun token => decidableChainsWithin tree bound token.value
      decidable_of_iff _ chainsWithin_succ_iff.symm

/-! ## Marks that are never met again -/

/-- From every marked token aliases lead to the value. -/
def Entered (tree : Tree) (marks : List String) (value : Json) : Prop :=
  ∀ path ∈ marks, ∃ token, tree.token? path = some token ∧
    ∃ before, ∀ chain, tree.Chain value chain → tree.Chain token.value (before ++ chain)

theorem entered_nil (tree : Tree) (value : Json) : tree.Entered [] value := by
  intro path hmem
  cases hmem

/-- A token that a chain enters is marked when it is composite. -/
theorem Entered.hop (h : tree.Entered marks value) (hmem : text ∈ value.texts) {path : String}
    (htarget : Alias.target? text = some path) (htoken : tree.token? path = some token) :
    tree.Entered (if token.value.isComposite then path :: marks else marks) token.value := by
  have hfound : tree.aliased? text = some token := by
    rw [aliased?, htarget, Option.bind_some, htoken]
  have hmarks : tree.Entered marks token.value := by
    intro marked hmarked
    rcases h marked hmarked with ⟨start, hstart, before, hback⟩
    refine ⟨start, hstart, before ++ [token], fun chain hchain => ?_⟩
    simpa using hback _ (.hop hmem hfound hchain)
  split
  · intro marked hmarked
    rcases List.mem_cons.1 hmarked with rfl | hold
    · exact ⟨token, htoken, [], fun chain hchain => hchain⟩
    · exact hmarks marked hold
  · exact hmarks

/-- An alias of a marked token would close a cycle, and going round it would make chains of any
length. -/
theorem Entered.not_mem (h : tree.Entered marks value) (hbound : tree.ChainsWithin bound value)
    (hmem : text ∈ value.texts) {path : String} (htarget : Alias.target? text = some path) :
    path ∉ marks := by
  intro hmarked
  rcases h path hmarked with ⟨token, htoken, before, hback⟩
  have hfound : tree.aliased? text = some token := by
    rw [aliased?, htarget, Option.bind_some, htoken]
  -- A marked path that comes again makes chains of any length.
  have hlong : ∀ n, ∃ chain, tree.Chain value chain ∧ n ≤ chain.length := by
    intro n
    induction n with
    | zero =>
        exact ⟨[], .done value, Nat.zero_le _⟩
    | succ n ih =>
        rcases ih with ⟨chain, hchain, hlength⟩
        refine ⟨token :: (before ++ chain), .hop hmem hfound (hback chain hchain), ?_⟩
        simp only [List.length_cons, List.length_append]
        omega
  rcases hlong (bound + 1) with ⟨chain, hchain, hlength⟩
  exact absurd (hbound chain hchain) (Nat.not_le_of_lt hlength)

/-! ## One text -/

open Alias (expand)

/-- A text that is no alias of a token stands for itself. -/
theorem expand_string_of_aliased?_eq_none (h : tree.aliased? text = none) (budget : Nat)
    (marks : List String) :
    expand tree.targets (budget + 1) marks (.string text) = .string text := by
  cases htarget : Alias.target? text with
  | none =>
      exact Alias.expand_string_of_target?_eq_none htarget
  | some path =>
      by_cases hmem : path ∈ marks
      · exact Alias.expand_string_of_mem htarget hmem
      · have hmissing : tree.targets path = none := by
          simpa [aliased?, htarget, targets] using h
        exact Alias.expand_string_of_lookup_eq_none htarget hmissing

/-- A text stays, or is replaced by the resolved value of the token that it is an alias of. -/
theorem expand_string_cases (hbound : tree.ChainsWithin bound value)
    (hmarks : tree.Entered marks value) (hmem : text ∈ value.texts) (budget : Nat) :
    (tree.aliased? text = none ∧
        expand tree.targets (budget + 1) marks (.string text) = .string text) ∨
      ∃ token marks', tree.aliased? text = some token ∧ tree.Entered marks' token.value ∧
        expand tree.targets (budget + 1) marks (.string text) =
          expand tree.targets budget marks' token.value := by
  cases hfound : tree.aliased? text with
  | none =>
      exact Or.inl ⟨rfl, expand_string_of_aliased?_eq_none hfound budget marks⟩
  | some token =>
      rcases Option.bind_eq_some_iff.1 hfound with ⟨path, htarget, htoken⟩
      have htargets : tree.targets path = some (token.value, token.type) := by
        rw [targets, htoken, Option.map_some]
      exact Or.inr ⟨token, _, rfl, hmarks.hop hmem htarget htoken,
        Alias.expand_string_of_lookup htarget (hmarks.not_mem hbound hmem htarget) htargets⟩

/-! ## Whole values -/

/-- What a value resolves to. Every alias of a token is replaced by what the value of this token
resolves to; other texts and all other scalars stay, an array keeps its length, and an object keeps
its names in order. -/
inductive Resolves (tree : Tree) : Json → Json → Prop where
  | null : Resolves tree .null .null
  | bool (b : Bool) : Resolves tree (.bool b) (.bool b)
  | number (n : Json.Number) : Resolves tree (.number n) (.number n)
  | text {text : String} (free : tree.aliased? text = none) :
      Resolves tree (.string text) (.string text)
  | hop {text : String} {token : Token} {result : Json} (found : tree.aliased? text = some token)
      (later : Resolves tree token.value result) : Resolves tree (.string text) result
  | array {items results : List Json} (each : List.Forall₂ (Resolves tree) items results) :
      Resolves tree (.array items) (.array results)
  | object {fields results : List (String × Json)}
      (names : results.map Prod.fst = fields.map Prod.fst)
      (values : List.Forall₂ (Resolves tree) (fields.map Prod.snd) (results.map Prod.snd)) :
      Resolves tree (.object fields) (.object results)

mutual

/-- A value resolves to what its texts resolve to, each in its place. -/
theorem resolves_mapTexts {f : String → Json} {value : Json}
    (h : ∀ text ∈ value.texts, tree.Resolves (.string text) (f text)) :
    tree.Resolves value (value.mapTexts f) := by
  cases value with
  | null =>
      exact .null
  | bool b =>
      exact .bool b
  | number n =>
      exact .number n
  | string text =>
      exact h text (List.mem_singleton.2 rfl)
  | array items =>
      exact .array (resolves_mapItems h)
  | object fields =>
      rcases resolves_mapFields h with ⟨hnames, hvalues⟩
      exact .object hnames hvalues

theorem resolves_mapItems {f : String → Json} {items : List Json}
    (h : ∀ text ∈ Json.itemTexts items, tree.Resolves (.string text) (f text)) :
    List.Forall₂ tree.Resolves items (Json.mapItems f items) := by
  cases items with
  | nil =>
      exact .nil
  | cons item rest =>
      rcases List.forall_mem_append.1 h with ⟨hitem, hrest⟩
      exact .cons (resolves_mapTexts hitem) (resolves_mapItems hrest)

theorem resolves_mapFields {f : String → Json} {fields : List (String × Json)}
    (h : ∀ text ∈ Json.fieldTexts fields, tree.Resolves (.string text) (f text)) :
    (Json.mapFields f fields).map Prod.fst = fields.map Prod.fst ∧
      List.Forall₂ tree.Resolves (fields.map Prod.snd)
        ((Json.mapFields f fields).map Prod.snd) := by
  cases fields with
  | nil =>
      exact ⟨rfl, .nil⟩
  | cons field rest =>
      rcases field with ⟨name, value⟩
      rcases List.forall_mem_append.1 h with ⟨hvalue, hrest⟩
      rcases resolves_mapFields hrest with ⟨hnames, hvalues⟩
      exact ⟨congrArg (name :: ·) hnames, .cons (resolves_mapTexts hvalue) hvalues⟩

end

/-- Within the bound of its chains a value expands to what it resolves to. -/
theorem resolves_expand (hbound : tree.ChainsWithin budget value)
    (hmarks : tree.Entered marks value) :
    tree.Resolves value (expand tree.targets budget marks value) := by
  induction budget generalizing marks value with
  | zero =>
      -- No alias is left, so that the value stands for itself.
      have hself := resolves_mapTexts fun text hmem =>
        Resolves.text (chainsWithin_zero_iff.1 hbound text hmem)
      rwa [Json.mapTexts_string] at hself
  | succ budget ih =>
      rw [Alias.expand_eq_mapTexts]
      refine resolves_mapTexts fun text hmem => ?_
      rcases expand_string_cases hbound hmarks hmem budget with
        ⟨hfree, hexpand⟩ | ⟨token, marks', hfound, hmarks', hexpand⟩
      · rw [hexpand]
        exact .text hfree
      · rw [hexpand]
        exact .hop hfound (ih (chainsWithin_succ_iff.1 hbound text hmem token hfound) hmarks')

/-- No text of the resolved value is an alias of a token. -/
theorem aliased?_of_mem_expand (hbound : tree.ChainsWithin budget value)
    (hmarks : tree.Entered marks value) {left : String}
    (hleft : left ∈ (expand tree.targets budget marks value).texts) :
    tree.aliased? left = none := by
  induction budget generalizing marks value with
  | zero =>
      exact chainsWithin_zero_iff.1 hbound left hleft
  | succ budget ih =>
      rw [Alias.expand_eq_mapTexts, Json.texts_mapTexts] at hleft
      rcases List.mem_flatMap.1 hleft with ⟨text, hmem, hthere⟩
      rcases expand_string_cases hbound hmarks hmem budget with
        ⟨hfree, hexpand⟩ | ⟨token, marks', hfound, hmarks', hexpand⟩
      · rw [hexpand] at hthere
        rw [List.mem_singleton.1 hthere, hfree]
      · rw [hexpand] at hthere
        exact ih (chainsWithin_succ_iff.1 hbound text hmem token hfound) hmarks' hthere

/-- A budget that is enough gives what every larger one gives, whichever tokens are marked. -/
theorem expand_add (hbound : tree.ChainsWithin budget value) (hmarks : tree.Entered marks value)
    {marks' : List String} (hmarks' : tree.Entered marks' value) (more : Nat) :
    expand tree.targets (budget + more) marks' value = expand tree.targets budget marks value := by
  induction budget generalizing marks marks' value with
  | zero =>
      -- With no hop to make every text stands for itself.
      cases more with
      | zero =>
          rfl
      | succ more =>
          calc
            expand tree.targets (0 + (more + 1)) marks' value
                = value.mapTexts .string := by
                  rw [Nat.zero_add, Alias.expand_eq_mapTexts, Json.mapTexts_eq_iff]
                  intro text hmem
                  exact expand_string_of_aliased?_eq_none
                    (chainsWithin_zero_iff.1 hbound text hmem) more marks'
            _ = value := Json.mapTexts_string value
  | succ budget ih =>
      -- Both budgets make the same first hop from each text.
      rw [Nat.succ_add, Alias.expand_eq_mapTexts, Alias.expand_eq_mapTexts tree.targets budget,
        Json.mapTexts_eq_iff]
      intro text hmem
      rcases expand_string_cases hbound hmarks' hmem (budget + more) with
        ⟨hfree, hexpand'⟩ | ⟨token, entered', hfound, hentered', hexpand'⟩
      · rw [hexpand', expand_string_of_aliased?_eq_none hfree]
      · rcases expand_string_cases hbound hmarks hmem budget with
          ⟨hfree, -⟩ | ⟨same, entered, hsame, hentered, hexpand⟩
        · rw [hfree] at hfound
          cases hfound
        · cases hsame.symm.trans hfound
          rw [hexpand', hexpand]
          exact ih (chainsWithin_succ_iff.1 hbound text hmem token hfound) hentered hentered'

/-- With a budget for the longest chain of aliases from a value, resolving it is complete. All
aliases of tokens are followed to their ends, so that none is left at any depth, everything else of
the value stays as and where it is, and no larger budget gives another result. -/
theorem resolveDeep_of_chainsWithin (h : tree.ChainsWithin budget value) :
    tree.Resolves value (tree.resolveDeep value budget) ∧
      (∀ text ∈ (tree.resolveDeep value budget).texts, tree.aliased? text = none) ∧
      ∀ larger, budget ≤ larger →
        tree.resolveDeep value larger = tree.resolveDeep value budget := by
  have hmarks := tree.entered_nil value
  refine ⟨resolves_expand h hmarks, fun text hmem => ?_, fun larger hlarger => ?_⟩
  · exact aliased?_of_mem_expand h hmarks hmem
  · rw [← Nat.add_sub_of_le hlarger]
    exact expand_add h hmarks hmarks (larger - budget)

/-- A composite token with aliases of a token, of a group and of nothing, which two more tokens lead
to. -/
def bodyTree : Tree where
  children := [("font", .group {} [("base", .token { value := .string "Inter" })]),
    ("type", .group {}
      [("stack", .token { value := .object [
          ("family", .array [.string (Alias.ofPath "font.base"), .string "serif"]),
          ("size", .string (Alias.ofPath "size.body")),
          ("group", .string (Alias.ofPath "font"))] }),
        ("body", .token { value := .string (Alias.ofPath "type.stack") })])]

/-- Two composite values deep, the last of three hops is just within the budget. -/
theorem resolveDeep_of_chainsWithin_bodyTree :
    bodyTree.ChainsWithin 3 (.array [.string (Alias.ofPath "type.body"), .bool true]) ∧
      ¬ bodyTree.ChainsWithin 2 (.array [.string (Alias.ofPath "type.body"), .bool true]) ∧
      ∀ larger, 3 ≤ larger →
        bodyTree.resolveDeep (.array [.string (Alias.ofPath "type.body"), .bool true]) larger =
          .array [.object [("family", .array [.string "Inter", .string "serif"]),
            ("size", .string (Alias.ofPath "size.body")),
            ("group", .string (Alias.ofPath "font"))], .bool true] := by
  have hwithin : bodyTree.ChainsWithin 3
      (.array [.string (Alias.ofPath "type.body"), .bool true]) := by decide +kernel
  refine ⟨hwithin, by decide +kernel, fun larger hlarger => ?_⟩
  rw [(resolveDeep_of_chainsWithin hwithin).2.2 larger hlarger]
  decide +kernel

end Tree
end DesignTokens
