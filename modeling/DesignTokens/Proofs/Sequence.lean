import DesignTokens.Sequence
import Mathlib.Data.List.Induction
import Mathlib.Data.List.Nodup

/-!
# Sequences and their stages

What changing the first item with a property keeps, when no item repeats, what holds at every stage
of a sequence of steps, and which item is the last one that counts.
-/

namespace DesignTokens
namespace Sequence

universe u v w

variable {α : Type u} {β : Type v} {holds : α → Bool} {change : α → α} {items : List α}

theorem nodup_append_singleton {a : α} (h : items.Nodup) (ha : a ∉ items) :
    (items ++ [a]).Nodup :=
  List.nodup_append.2 ⟨h, List.nodup_singleton a, by
    rintro b hb c hc rfl
    exact ha (List.mem_singleton.1 hc ▸ hb)⟩

/-- What is not found through a view of the items is none of them. -/
theorem not_mem_map_of_view {γ : Type v} {f : α → β} {b : β} (view : β → γ)
    (h : view b ∉ items.map fun a => view (f a)) : b ∉ items.map f := by
  intro hmem
  rcases List.mem_map.1 hmem with ⟨a, ha, rfl⟩
  exact h (List.mem_map.2 ⟨a, ha, rfl⟩)

/-- An update that keeps what a view shows of an item keeps the view of the list. -/
theorem map_updateFirst {view : α → β} (h : ∀ a ∈ items, view (change a) = view a) :
    (updateFirst holds change items).map view = items.map view := by
  induction items with
  | nil =>
      rfl
  | cons a rest ih =>
      rcases List.forall_mem_cons.1 h with ⟨ha, hrest⟩
      by_cases hholds : holds a = true
      · simp [updateFirst, hholds, ha]
      · simp [updateFirst, hholds, ih hrest]

/-- An item of an updated list is an old one or an updated one. -/
theorem mem_updateFirst {b : α} (h : b ∈ updateFirst holds change items) :
    b ∈ items ∨ ∃ a ∈ items, holds a = true ∧ b = change a := by
  induction items with
  | nil =>
      cases h
  | cons a rest ih =>
      by_cases hholds : holds a = true
      · rw [updateFirst, if_pos hholds] at h
        rcases List.mem_cons.1 h with rfl | hmem
        · exact Or.inr ⟨a, List.mem_cons_self .., hholds, rfl⟩
        · exact Or.inl (List.mem_cons_of_mem _ hmem)
      · rw [updateFirst, if_neg hholds] at h
        rcases List.mem_cons.1 h with rfl | hmem
        · exact Or.inl (List.mem_cons_self ..)
        · rcases ih hmem with hold | ⟨first, hfirst, hchanged⟩
          · exact Or.inl (List.mem_cons_of_mem _ hold)
          · exact Or.inr ⟨first, List.mem_cons_of_mem _ hfirst, hchanged⟩

/-- An update that does not change the first item found changes nothing. -/
theorem updateFirst_of_find? {a : α} (h : items.find? holds = some a) (ha : change a = a) :
    updateFirst holds change items = items := by
  induction items with
  | nil =>
      rfl
  | cons b rest ih =>
      by_cases hb : holds b = true
      · rw [List.find?_cons_of_pos hb] at h
        cases h
        simp [updateFirst, hb, ha]
      · rw [List.find?_cons_of_neg hb] at h
        simp [updateFirst, hb, ih h]

/-- With distinct keys, changing the first item that has a key changes all items that have it. -/
theorem updateFirst_eq_map [DecidableEq β] {key : α → β} (h : (items.map key).Nodup) (wanted : β)
    (change : α → α) :
    updateFirst (fun a => key a = wanted) change items =
      items.map fun a => if key a = wanted then change a else a := by
  induction items with
  | nil =>
      rfl
  | cons a rest ih =>
      rcases List.nodup_cons.1 h with ⟨hnotMem, hrest⟩
      by_cases ha : key a = wanted
      · -- No later item has the key, so that changing all of them changes nothing more.
        have hsame : rest.map (fun b => if key b = wanted then change b else b) = rest := by
          refine (List.map_congr_left fun b hb => if_neg fun hkey => hnotMem ?_).trans
            (List.map_id' rest)
          rw [ha, ← hkey]
          exact List.mem_map_of_mem hb
        simp [updateFirst, ha, hsame]
      · simp [updateFirst, ha, ih hrest]

/-- The first item of its kind is erased from between the others. -/
theorem eraseP_of_split {front back : List α} {a : α} (ha : holds a = true)
    (hfront : ∀ b ∈ front, ¬ holds b = true) :
    (front ++ a :: back).eraseP holds = front ++ back := by
  rw [List.eraseP_append_right _ hfront, List.eraseP_cons_of_pos ha]

/-- Taking out the first item that has the property and putting it in front. -/
theorem cons_eraseP_perm {a : α} (h : items.find? holds = some a) :
    (a :: items.eraseP holds).Perm items := by
  rcases List.find?_eq_some_iff_append.1 h with ⟨ha, front, back, rfl, hfront⟩
  have hnot : ∀ b ∈ front, ¬ holds b = true := by
    intro b hb
    simpa using hfront b hb
  rw [eraseP_of_split ha hnot]
  exact List.perm_middle.symm

/-- The first item that has the property is where no item before it has it. -/
theorem updateFirst_of_split {front back : List α} {a : α} (ha : holds a = true)
    (hfront : ∀ b ∈ front, ¬ holds b = true) (change : α → α) :
    updateFirst holds change (front ++ a :: back) = front ++ change a :: back := by
  induction front with
  | nil =>
      simp [updateFirst, ha]
  | cons b rest ih =>
      rcases List.forall_mem_cons.1 hfront with ⟨hb, hrest⟩
      simp [updateFirst, hb, ih hrest]

/-- The first item of its kind is found between the others. -/
theorem find?_of_split {front back : List α} {a : α} (ha : holds a = true)
    (hfront : ∀ b ∈ front, ¬ holds b = true) : (front ++ a :: back).find? holds = some a := by
  refine List.find?_eq_some_iff_append.2 ⟨ha, front, back, rfl, fun b hb => ?_⟩
  simpa using hfront b hb

/-- With distinct keys, an item is the first one that has its key. -/
theorem find?_of_mem [DecidableEq β] {key : α → β} (h : (items.map key).Nodup) {a : α}
    (ha : a ∈ items) : (items.find? fun b => key b = key a) = some a := by
  have hsome : (items.find? fun b => key b = key a).isSome := List.find?_isSome.2 ⟨a, ha, by simp⟩
  rcases Option.isSome_iff_exists.1 hsome with ⟨found, hfound⟩
  have hkey : key found = key a := by simpa using List.find?_some hfound
  rw [hfound, List.inj_on_of_nodup_map h (List.mem_of_find?_eq_some hfound) ha hkey]

theorem forall_not_of_not_mem_map [DecidableEq β] {key : α → β} {front : List α} {a : α}
    (h : key a ∉ front.map key) : ∀ b ∈ front, ¬ decide (key b = key a) = true := by
  intro b hb
  have hne : key b ≠ key a := fun heq => h (heq ▸ List.mem_map_of_mem hb)
  simpa using hne

/-- With distinct keys, taking out the first item that has a key leaves none that has it. -/
theorem eraseP_eq_filter [DecidableEq β] {key : α → β} (h : (items.map key).Nodup) (wanted : β) :
    (items.eraseP fun a => key a = wanted) = items.filter fun a => key a ≠ wanted := by
  induction items with
  | nil =>
      rfl
  | cons a rest ih =>
      rcases List.nodup_cons.1 h with ⟨hnotMem, hrest⟩
      by_cases ha : key a = wanted
      · have hothers : ∀ b ∈ rest, key b ≠ wanted := by
          intro b hb heq
          exact hnotMem (ha ▸ heq ▸ List.mem_map_of_mem hb)
        have hsame : rest.filter (fun b => key b ≠ wanted) = rest :=
          List.filter_eq_self.2 (by simpa using hothers)
        simpa [List.eraseP_cons_of_pos, ha] using hsame.symm
      · simpa [List.eraseP_cons_of_neg, ha] using ih hrest

/-- No two items have one key if and only if no item has a key that stands before it. -/
theorem nodup_map_iff_split {key : α → β} :
    (items.map key).Nodup ↔
      ∀ front a back, items = front ++ a :: back → key a ∉ front.map key := by
  constructor
  · intro h front a back heq
    rw [heq, List.map_append, List.map_cons, List.nodup_middle] at h
    exact fun hmem => (List.nodup_cons.1 h).1 (List.mem_append_left _ hmem)
  · intro h
    induction items using List.reverseRecOn with
    | nil =>
        exact List.nodup_nil
    | append_singleton before last ih =>
        -- Whatever splits the beginning of the list splits the list.
        have hbefore : (before.map key).Nodup := by
          refine ih fun front a back heq => h front a (back ++ [last]) ?_
          simp [heq]
        have hlast : key last ∉ before.map key := h before last [] rfl
        rw [List.map_append, List.map_singleton]
        exact nodup_append_singleton hbefore hlast

/-- When an item in front has the property as well, it is the one that is taken out. -/
theorem eraseP_ne_of_front {front back : List α} {a : α} (h : (front ++ a :: back).Nodup)
    (hfront : ∃ b ∈ front, holds b = true) :
    (front ++ a :: back).eraseP holds ≠ front ++ back := by
  intro heq
  rcases Option.isSome_iff_exists.1 (List.find?_isSome.2 hfront) with ⟨first, hfirst⟩
  have hfound : (front ++ a :: back).find? holds = some first := by
    rw [List.find?_append, hfirst, Option.some_or]
  have hleft : first ∈ (front ++ a :: back).eraseP holds :=
    heq ▸ List.mem_append_left _ (List.mem_of_find?_eq_some hfirst)
  exact (List.nodup_cons.1 ((cons_eraseP_perm hfound).nodup_iff.2 h)).1 hleft

/-- What a check for repeated items does not find. -/
theorem firstRepeated?_eq_none_iff [BEq α] [LawfulBEq α] {seen : List α} :
    firstRepeated? seen items = none ↔ (∀ a ∈ items, a ∉ seen) ∧ items.Nodup := by
  induction items generalizing seen with
  | nil =>
      simp [firstRepeated?]
  | cons a rest ih =>
      rw [firstRepeated?, List.forall_mem_cons, List.nodup_cons]
      by_cases hseen : a ∈ seen
      · simp [hseen]
      · simp only [List.contains_iff_mem, hseen, if_false, ih, List.mem_cons, not_or]
        constructor
        · rintro ⟨hall, hnodup⟩
          exact ⟨⟨not_false, fun b hb => (hall b hb).2⟩, fun ha => (hall a ha).1 rfl, hnodup⟩
        · rintro ⟨⟨-, hall⟩, hfree, hnodup⟩
          refine ⟨fun b hb => ⟨?_, hall b hb⟩, hnodup⟩
          rintro rfl
          exact hfree hb

/-! ## Stages of a sequence -/

/-- A property of all prefixes is one of the empty prefix and of those with the first item. -/
theorem forall_prefix_cons_iff {P : List α → Prop} {a : α} {rest : List α} :
    (∀ before, before <+: a :: rest → P before) ↔
      P [] ∧ ∀ before, before <+: rest → P (a :: before) := by
  constructor
  · intro h
    refine ⟨h [] (List.nil_prefix ..), fun before hbefore => h (a :: before) ?_⟩
    exact List.cons_prefix_cons.2 ⟨rfl, hbefore⟩
  · rintro ⟨hnil, hcons⟩ before hbefore
    cases before with
    | nil =>
        exact hnil
    | cons first more =>
        rcases List.cons_prefix_cons.1 hbefore with ⟨rfl, hmore⟩
        exact hcons more hmore

/-- A property of every item with what precedes it, along the list. -/
theorem forall_step_cons_iff {P : List α → α → Prop} {a : α} {rest : List α} :
    (∀ before b, before ++ [b] <+: a :: rest → P before b) ↔
      P [] a ∧ ∀ before b, before ++ [b] <+: rest → P (a :: before) b := by
  constructor
  · intro h
    refine ⟨h [] a ?_, fun before b hbefore => h (a :: before) b ?_⟩
    · exact List.cons_prefix_cons.2 ⟨rfl, List.nil_prefix ..⟩
    · exact List.cons_prefix_cons.2 ⟨rfl, hbefore⟩
  · rintro ⟨hfirst, hrest⟩ before b hbefore
    cases before with
    | nil =>
        rcases List.cons_prefix_cons.1 hbefore with ⟨rfl, -⟩
        exact hfirst
    | cons first more =>
        rcases List.cons_prefix_cons.1 hbefore with ⟨rfl, hmore⟩
        exact hrest more b hmore

/-! ## Sorting -/

/-- A list is cut in one way only at the end of a separated part. -/
theorem append_eq_of_separated {separated : α → Bool} {front back front' back' : List α}
    (heq : front ++ back = front' ++ back') (hfront : ∀ a ∈ front, separated a = true)
    (hback : ∀ a ∈ back, separated a = false) (hfront' : ∀ a ∈ front', separated a = true)
    (hback' : ∀ a ∈ back', separated a = false) : front = front' ∧ back = back' := by
  have hfilter := congrArg (List.filter separated) heq
  have hparts : front = front' := by
    simpa [List.filter_eq_self.2 hfront, List.filter_eq_self.2 hfront',
      List.filter_eq_nil_iff.2 (by simpa using hback),
      List.filter_eq_nil_iff.2 (by simpa using hback')] using hfilter
  subst hparts
  exact ⟨rfl, List.append_cancel_left heq⟩

/-- Sorting is stable, so that what is left out makes no difference for the order of the rest. -/
theorem filter_mergeSort {le : α → α → Bool} (trans : ∀ a b c, le a b → le b c → le a c)
    (total : ∀ a b, le a b || le b a) (keep : α → Bool) (items : List α) :
    (items.mergeSort le).filter keep = (items.filter keep).mergeSort le := by
  induction items with
  | nil =>
      simp
  | cons a rest ih =>
      rcases List.mergeSort_cons trans total a rest with ⟨front, back, hall, hrest, hfront⟩
      by_cases ha : keep a = true
      · rcases List.mergeSort_cons trans total a (rest.filter keep) with
          ⟨front', back', hall', hrest', hfront'⟩
        -- Both sorts put `a` after exactly the items that it is not below.
        have hback : ∀ b ∈ back, le a b = true := by
          have hsorted := List.pairwise_mergeSort trans total (a :: rest)
          rw [hall] at hsorted
          exact (List.pairwise_cons.1 (List.pairwise_append.1 hsorted).2.1).1
        have hback' : ∀ b ∈ back', le a b = true := by
          have hsorted := List.pairwise_mergeSort trans total (a :: rest.filter keep)
          rw [hall'] at hsorted
          exact (List.pairwise_cons.1 (List.pairwise_append.1 hsorted).2.1).1
        have hsame : front.filter keep ++ back.filter keep = front' ++ back' := by
          rw [← List.filter_append, ← hrest, ih, hrest']
        rcases @append_eq_of_separated _ (fun b => !le a b) _ _ _ _ hsame
          (fun b hb => hfront b (List.mem_of_mem_filter hb))
          (fun b hb => by simp [hback b (List.mem_of_mem_filter hb)]) hfront'
          (fun b hb => by simp [hback' b hb]) with ⟨hfronts, hbacks⟩
        simp [hall, hall', ha, hfronts, hbacks]
      · calc
          ((a :: rest).mergeSort le).filter keep
              = (front ++ back).filter keep := by simp [hall, ha]
          _ = (rest.filter keep).mergeSort le := by rw [← hrest, ih]
          _ = ((a :: rest).filter keep).mergeSort le := by simp [ha]

/-! ## The last item that counts -/

/-- Some item has the first property, and all items after it have the second one. -/
def LastWith (holds spared : α → Prop) (items : List α) : Prop :=
  ∃ before a after, items = before ++ a :: after ∧ holds a ∧ ∀ b ∈ after, spared b

theorem not_lastWith_nil {holds spared : α → Prop} : ¬ LastWith holds spared [] := by
  intro h
  rcases h with ⟨before, a, after, heq, -⟩
  simp at heq

/-- The last item counts, or what held before when it is spared. -/
theorem lastWith_append_singleton_iff {holds spared : α → Prop} {items : List α} {a : α} :
    LastWith holds spared (items ++ [a]) ↔ holds a ∨ spared a ∧ LastWith holds spared items := by
  constructor
  · intro h
    rcases h with ⟨before, b, after, heq, hb, hafter⟩
    -- The new item is either the one that counts or the last one after it.
    rcases List.eq_nil_or_concat after with rfl | ⟨more, last, rfl⟩
    · have hlast : items ++ [a] = before ++ [b] := heq
      rcases List.append_inj' hlast rfl with ⟨-, hab⟩
      cases hab
      exact Or.inl hb
    · have hlast : items ++ [a] = (before ++ b :: more) ++ [last] := by simpa using heq
      rcases List.append_inj' hlast rfl with ⟨hitems, hal⟩
      cases hal
      refine Or.inr ⟨hafter a (by simp), before, b, more, hitems, hb, ?_⟩
      intro c hc
      exact hafter c (by simp [hc])
  · intro h
    rcases h with ha | ⟨ha, before, b, after, rfl, hb, hafter⟩
    · exact ⟨items, a, [], rfl, ha, by simp⟩
    · refine ⟨before, b, after ++ [a], by simp, hb, ?_⟩
      intro c hc
      rcases List.mem_append.1 hc with hmem | hmem
      · exact hafter c hmem
      · exact List.mem_singleton.1 hmem ▸ ha

/-- The item at a position has the first property, and all items after it have the second one. -/
def HoldsFrom (holds spared : α → Prop) (items : List α) (i : Nat) : Prop :=
  ∃ a, items[i]? = some a ∧ holds a ∧ ∀ j b, i < j → items[j]? = some b → spared b

theorem HoldsFrom.lt_length {holds spared : α → Prop} {items : List α} {i : Nat}
    (h : HoldsFrom holds spared items i) : i < items.length := by
  rcases h with ⟨a, ha, -⟩
  exact (List.getElem?_eq_some_iff.1 ha).1

/-- A property that holds from a position on, when the list grows at its end. -/
theorem holdsFrom_append_singleton_iff {holds spared : α → Prop} {items : List α} {a : α}
    {i : Nat} :
    HoldsFrom holds spared (items ++ [a]) i ↔
      HoldsFrom holds spared items i ∧ spared a ∨ i = items.length ∧ holds a := by
  have hlast : (items ++ [a])[items.length]? = some a := List.getElem?_concat_length
  have hold : ∀ {j b}, items[j]? = some b → j < items.length ∧ (items ++ [a])[j]? = some b := by
    intro j b hb
    have hj := (List.getElem?_eq_some_iff.1 hb).1
    exact ⟨hj, (List.getElem?_append_left hj).trans hb⟩
  -- Whatever is found among all items is found among the old ones, or is the new one at the end.
  have hcases : ∀ {j b}, (items ++ [a])[j]? = some b →
      items[j]? = some b ∨ j = items.length ∧ b = a := by
    intro j b hb
    have hlength : j < (items ++ [a]).length := (List.getElem?_eq_some_iff.1 hb).1
    rw [List.length_append, List.length_singleton] at hlength
    rcases Nat.lt_succ_iff_lt_or_eq.1 hlength with hj | rfl
    · exact Or.inl ((List.getElem?_append_left hj).symm.trans hb)
    · rw [hlast] at hb
      exact Or.inr ⟨rfl, (Option.some.inj hb).symm⟩
  constructor
  · rintro ⟨b, hb, hholds, hafter⟩
    rcases hcases hb with hitem | ⟨rfl, rfl⟩
    · refine Or.inl ⟨⟨b, hitem, hholds, ?_⟩, hafter _ a (hold hitem).1 hlast⟩
      intro j c hij hc
      exact hafter j c hij (hold hc).2
    · exact Or.inr ⟨rfl, hholds⟩
  · rintro (⟨⟨b, hb, hholds, hafter⟩, ha⟩ | ⟨rfl, ha⟩)
    · refine ⟨b, (hold hb).2, hholds, ?_⟩
      intro j c hij hc
      rcases hcases hc with hitem | ⟨-, rfl⟩
      · exact hafter j c hij hitem
      · exact ha
    · refine ⟨a, hlast, ha, ?_⟩
      intro j c hij hc
      rcases hcases hc with hitem | ⟨rfl, -⟩
      · exact absurd hij (Nat.lt_asymm (hold hitem).1)
      · exact absurd hij (Nat.lt_irrefl _)

/-- A property that is left at the end holds from some position on. -/
theorem lastWith_iff_exists {holds spared : α → Prop} {items : List α} :
    LastWith holds spared items ↔ ∃ i, HoldsFrom holds spared items i := by
  induction items using List.reverseRecOn with
  | nil =>
      simp [not_lastWith_nil, HoldsFrom]
  | append_singleton items a ih =>
      rw [lastWith_append_singleton_iff, ih]
      simp only [holdsFrom_append_singleton_iff]
      constructor
      · rintro (ha | ⟨ha, i, hi⟩)
        · exact ⟨items.length, Or.inr ⟨rfl, ha⟩⟩
        · exact ⟨i, Or.inl ⟨hi, ha⟩⟩
      · rintro ⟨i, ⟨hi, ha⟩ | ⟨-, ha⟩⟩
        · exact Or.inr ⟨ha, i, hi⟩
        · exact Or.inl ha

def lastSome? (read : α → Option β) (items : List α) : Option β :=
  (items.filterMap read).getLast?

/-- The last result is that of the last item, or an earlier one. -/
theorem lastSome?_append_singleton (read : α → Option β) (items : List α) (a : α) :
    lastSome? read (items ++ [a]) = (read a).or (lastSome? read items) := by
  cases hread : read a with
  | none =>
      simp [lastSome?, hread]
  | some value =>
      simp [lastSome?, hread]

/-- The last result of a list is that of its rest, or that of its first item. -/
theorem lastSome?_cons (read : α → Option β) (a : α) (items : List α) :
    lastSome? read (a :: items) = (lastSome? read items).or (read a) := by
  cases hread : read a with
  | none =>
      simp [lastSome?, hread]
  | some value =>
      rw [lastSome?, List.filterMap_cons_some hread, List.getLast?_cons, lastSome?]
      cases (items.filterMap read).getLast? with
      | none =>
          rfl
      | some last =>
          rfl

/-! ## Steps that succeed or fail -/

/-- A traversal without effects maps its items. -/
theorem mapM_eq_pure {m : Type v → Type w} [Monad m] [LawfulMonad m] {f : α → m β} {g : α → β}
    (h : ∀ a ∈ items, f a = pure (g a)) : items.mapM f = pure (items.map g) := by
  induction items with
  | nil =>
      rfl
  | cons a rest ih =>
      rcases List.forall_mem_cons.1 h with ⟨ha, hrest⟩
      simp [ha, ih hrest]

/-- A traversal that returns its items returns the list. -/
theorem mapM_eq_pure_self {m : Type u → Type w} [Monad m] [LawfulMonad m] {f : α → m α}
    (h : ∀ a ∈ items, f a = pure a) : items.mapM f = pure items := by
  have hmap := mapM_eq_pure (g := id) h
  rwa [List.map_id] at hmap

/-- A result of an accepted traversal comes from one of its items. -/
theorem exists_of_mapM_eq_ok {ε : Type u} {f : α → Except ε β} {results : List β} {b : β}
    (h : items.mapM f = .ok results) (hmem : b ∈ results) : ∃ a ∈ items, f a = .ok b := by
  induction items generalizing results with
  | nil =>
      cases h
      cases hmem
  | cons a rest ih =>
      rw [List.mapM_cons] at h
      cases ha : f a with
      | error e =>
          rw [ha] at h
          cases h
      | ok first =>
          cases hrest : rest.mapM f with
          | error e =>
              rw [ha, hrest] at h
              cases h
          | ok later =>
              rw [ha, hrest] at h
              cases h
              rcases List.mem_cons.1 hmem with rfl | hlater
              · exact ⟨a, List.mem_cons_self, ha⟩
              · rcases ih hrest hlater with ⟨found, hfound, hread⟩
                exact ⟨found, List.mem_cons_of_mem a hfound, hread⟩

theorem mapM_eq_none {a : α} {f : α → Option β} (hmem : a ∈ items) (ha : f a = none) :
    items.mapM f = none := by
  induction items with
  | nil =>
      exact absurd hmem List.not_mem_nil
  | cons b rest ih =>
      rcases List.mem_cons.1 hmem with rfl | hrest
      · simp [ha]
      · simp [ih hrest]

end Sequence
end DesignTokens
