import DesignTokens.Proofs.Pipeline.Identity
import DesignTokens.Proofs.Pipeline.Orders

/-!
# The search for a fresh identity

An identity is looked for one candidate after another: first the base, and then the base with the
numbers from two on, counted with 32 bits. All candidates but the last one are taken, and no two of
them are alike, so that there is at most one more of them than there are texts taken. The counter
cannot get to its greatest value before there are nearly as many texts taken as it has values.
-/

namespace DesignTokens

variable {base text other : String} {taken tried others : List String}

/-! ## Runs of the search -/

/-- The numbered texts from a number on are tried, up to the first one that is not taken. The number
has 32 bits, and none comes after the greatest one. -/
inductive TriesFrom (base : String) (taken : List String) :
    Int32 → List String → String → Prop where
  | free {n : Int32} :
      numbered base n.toNatClampNeg ∉ taken →
      TriesFrom base taken n [numbered base n.toNatClampNeg] (numbered base n.toNatClampNeg)
  | next {n : Int32} {tried : List String} {text : String} :
      numbered base n.toNatClampNeg ∈ taken → n ≠ Int32.maxValue →
      TriesFrom base taken (n + 1) tried text →
      TriesFrom base taken n (numbered base n.toNatClampNeg :: tried) text

/-- The base is tried, and the numbered texts from two on when it is taken. -/
inductive Tries (base : String) (taken : List String) : List String → String → Prop where
  | base : base ∉ taken → Tries base taken [base] base
  | numbered {tried : List String} {text : String} :
      base ∈ taken → TriesFrom base taken 2 tried text → Tries base taken (base :: tried) text

/-- A search can run in one way only. -/
theorem TriesFrom.unique {n : Int32} (h : TriesFrom base taken n tried text)
    (h' : TriesFrom base taken n others other) : others = tried ∧ other = text := by
  induction h generalizing others other with
  | free hfree =>
      cases h' with
      | free _ =>
          exact ⟨rfl, rfl⟩
      | next htaken _ _ =>
          exact absurd htaken hfree
  | next htaken _ _ ih =>
      cases h' with
      | free hfree =>
          exact absurd htaken hfree
      | next _ _ hrest =>
          rcases ih hrest with ⟨rfl, rfl⟩
          exact ⟨rfl, rfl⟩

/-- A search for a free text tries the same texts whenever it is made. -/
theorem Tries.unique (h : Tries base taken tried text) (h' : Tries base taken others other) :
    others = tried ∧ other = text := by
  cases h with
  | base hfree =>
      cases h' with
      | base _ =>
          exact ⟨rfl, rfl⟩
      | numbered htaken _ =>
          exact absurd htaken hfree
  | numbered htaken hsearch =>
      cases h' with
      | base hfree =>
          exact absurd htaken hfree
      | numbered _ hsearch' =>
          rcases hsearch.unique hsearch' with ⟨rfl, rfl⟩
          exact ⟨rfl, rfl⟩

/-- The search passes over numbers that are taken and ends with the first one that is not, if the
counter gets there. -/
theorem triesFrom_of_taken {n : Int32} {count : Nat} (hn : 0 ≤ n.toInt)
    (hcount : n.toNatClampNeg + count < 2 ^ 31)
    (htaken : ∀ i < count, numbered base (n.toNatClampNeg + i) ∈ taken)
    (hfree : numbered base (n.toNatClampNeg + count) ∉ taken) :
    TriesFrom base taken n ((List.range' n.toNatClampNeg (count + 1)).map (numbered base))
      (numbered base (n.toNatClampNeg + count)) := by
  induction count generalizing n with
  | zero =>
      exact TriesFrom.free hfree
  | succ count ih =>
      have hgreatest : Int32.maxValue.toInt = 2 ^ 31 - 1 := rfl
      have htoInt : (n.toNatClampNeg : Int) = n.toInt := Int.toNat_of_nonneg hn
      have hroom : n ≠ Int32.maxValue := by
        rintro rfl
        omega
      have hsucc : (n + 1).toInt = n.toInt + 1 := Int32.toInt_succ_iff.2 hroom
      have hnumber : (n + 1).toNatClampNeg = n.toNatClampNeg + 1 := by
        rw [← Int32.toNat_toInt, hsucc]
        omega
      have hassoc : ∀ i, (n + 1).toNatClampNeg + i = n.toNatClampNeg + (i + 1) := by
        intro i
        omega
      have hothers : ∀ i < count, numbered base ((n + 1).toNatClampNeg + i) ∈ taken := by
        intro i hi
        rw [hassoc]
        exact htaken (i + 1) (Nat.succ_lt_succ hi)
      have hrest := ih (by omega) (by omega) hothers (hassoc count ▸ hfree)
      rw [hassoc, hnumber] at hrest
      rw [List.range'_succ, List.map_cons]
      exact TriesFrom.next (htaken 0 (Nat.succ_pos count)) hroom hrest

/-! ## How many candidates are tried -/

/-- The search finds the fresh text after at most one more candidate than there are texts taken. -/
theorem exists_tries_freshText (base : String) (h : taken.toFinset.card < 2 ^ 31 - 3) :
    ∃ tried, Tries base taken tried (freshText base taken) ∧
      tried.length ≤ taken.toFinset.card + 1 := by
  have hfresh := freshText_not_mem base taken
  by_cases hbase : base ∈ taken
  · rcases exists_freshNumber_eq_add base taken taken.length 2 with ⟨count, heq, htaken, -⟩
    have hcount := lt_card_of_numbered_mem hbase htaken
    have htwo : (2 : Int32).toNatClampNeg = 2 := rfl
    rw [freshText, if_pos hbase, heq] at hfresh ⊢
    have hsearch := @triesFrom_of_taken base taken 2 count (by decide) (by omega) htaken hfresh
    refine ⟨_, Tries.numbered hbase hsearch, ?_⟩
    rw [List.length_cons, List.length_map, List.length_range']
    omega
  · rw [freshText, if_neg hbase]
    exact ⟨[base], Tries.base hbase, Nat.le_add_left 1 _⟩

/-- The search for an identity ends, whatever makes slugs of names: it runs in exactly one way,
finds a text that is not taken after at most one more candidate than there are texts taken, and its
counter is never at the greatest value when it goes on. -/
theorem tries_freshId (slug : String → String) (kind name : String) (taken : List String)
    (h : taken.toFinset.card < 2 ^ 31 - 3) :
    ∃ tried, Tries (slugged slug kind name) taken tried (freshId slug kind name taken) ∧
      (∀ others text, Tries (slugged slug kind name) taken others text →
        others = tried ∧ text = freshId slug kind name taken) ∧
      tried.length ≤ taken.toFinset.card + 1 ∧ freshId slug kind name taken ∉ taken := by
  rcases exists_tries_freshText (slugged slug kind name) h with ⟨tried, htries, hlength⟩
  refine ⟨tried, htries, ?_, hlength, freshId_not_mem slug kind name taken⟩
  intro others text hothers
  exact htries.unique hothers

/-- A base that ends with a number itself, and a numbered text that is taken twice. -/
theorem tries_freshId_numberedBase :
    ["page-a-2", "page-a", "page-a-2-2", "page-a-2-2", "page-a-2-4"].toFinset.card < 2 ^ 31 - 3 ∧
      ∃ tried, Tries "page-a-2" ["page-a-2", "page-a", "page-a-2-2", "page-a-2-2", "page-a-2-4"]
          tried "page-a-2-3" ∧
        tried.length ≤ 5 := by
  have hcard :
      ["page-a-2", "page-a", "page-a-2-2", "page-a-2-2", "page-a-2-4"].toFinset.card = 4 := by
    decide
  have hfound : freshId plainSlug "page" "A 2"
      ["page-a-2", "page-a", "page-a-2-2", "page-a-2-2", "page-a-2-4"] = "page-a-2-3" := by
    decide
  have hbase : slugged plainSlug "page" "A 2" = "page-a-2" := by
    decide
  rcases tries_freshId plainSlug "page" "A 2"
    ["page-a-2", "page-a", "page-a-2-2", "page-a-2-2", "page-a-2-4"] (by omega) with
    ⟨tried, htries, -, hlength, -⟩
  rw [hfound, hbase] at htries
  exact ⟨by omega, tried, htries, by omega⟩

end DesignTokens
