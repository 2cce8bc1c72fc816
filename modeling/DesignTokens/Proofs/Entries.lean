import DesignTokens.Ordered
import Mathlib.Data.List.Nodup

/-!
# Entries put over entries

Pairs that are put over entries one after another. Nothing else gets in, no name comes to stand
there twice, and pairs with new and distinct names end up behind the entries in their own order.
-/

namespace DesignTokens

universe u

namespace Entries

variable {α : Type u} {entries target source pairs : Entries α} {entry : String × α} {key : String}
  {value : α}

theorem mem_of_get? (h : get? entries key = some value) : (key, value) ∈ entries := by
  induction entries with
  | nil =>
      cases h
  | cons first rest ih =>
      rcases first with ⟨name, old⟩
      by_cases heq : name = key
      · simp only [get?, heq, if_true, Option.some.injEq] at h
        simp [heq, h]
      · simp only [get?, heq, if_false] at h
        exact List.mem_cons_of_mem _ (ih h)

theorem get?_of_mem (h : (keys entries).Nodup) (hmem : (key, value) ∈ entries) :
    get? entries key = some value := by
  induction entries with
  | nil =>
      cases hmem
  | cons first rest ih =>
      rcases first with ⟨name, old⟩
      rcases List.nodup_cons.1 h with ⟨hfresh, hrest⟩
      rcases List.mem_cons.1 hmem with heq | hlater
      · rcases Prod.mk.inj heq with ⟨rfl, rfl⟩
        simp [get?]
      · have hname : key ∈ keys rest := List.mem_map_of_mem hlater
        have hne : name ≠ key := by
          rintro rfl
          exact hfresh hname
        simpa [get?, hne] using ih hrest hlater

@[simp] theorem get?_append (first second : Entries α) (key : String) :
    get? (first ++ second) key = (get? first key).or (get? second key) := by
  induction first with
  | nil =>
      rfl
  | cons entry rest ih =>
      rcases entry with ⟨name, old⟩
      by_cases heq : name = key <;> simp [get?, heq, ih]

/-- An entry that is there for some values only. -/
@[simp] theorem get?_map_toList {β : Type u} (a : Option β) (name key : String) (f : β → α) :
    get? (a.toList.map fun b => (name, f b)) key = if name = key then a.map f else none := by
  cases a <;> simp [get?]

theorem keys_map_toList_sublist {β : Type u} (a : Option β) (name : String) (f : β → α) :
    (keys (a.toList.map fun b => (name, f b))).Sublist [name] := by
  cases a with
  | none =>
      exact List.nil_sublist _
  | some b =>
      exact List.Sublist.refl _

/-! ## One pair -/

theorem mem_put (h : entry ∈ put entries key value) : entry = (key, value) ∨ entry ∈ entries := by
  induction entries with
  | nil =>
      exact Or.inl (List.mem_singleton.1 h)
  | cons first rest ih =>
      rcases first with ⟨name, old⟩
      by_cases heq : name = key
      · simp only [put, heq, if_true, List.mem_cons] at h
        exact h.imp_right (List.mem_cons_of_mem _)
      · simp only [put, heq, if_false, List.mem_cons] at h
        rcases h with hfirst | hrest
        · exact Or.inr (hfirst ▸ List.mem_cons_self ..)
        · exact (ih hrest).imp_right (List.mem_cons_of_mem _)

theorem put_eq_append (h : key ∉ keys entries) (value : α) :
    put entries key value = entries ++ [(key, value)] := by
  induction entries with
  | nil =>
      rfl
  | cons first rest ih =>
      rcases first with ⟨name, before⟩
      have hparts : key ≠ name ∧ key ∉ keys rest := by simpa [keys] using h
      simp [put, Ne.symm hparts.1, ih hparts.2]

/-- Putting the value that is there. -/
theorem put_eq_self (h : get? entries key = some value) : put entries key value = entries := by
  induction entries with
  | nil =>
      cases h
  | cons first rest ih =>
      rcases first with ⟨name, before⟩
      by_cases heq : name = key
      · have hsame : before = value := by simpa [get?, heq] using h
        simp [put, heq, hsame]
      · have hrest : get? rest key = some value := by simpa [get?, heq] using h
        simp [put, heq, ih hrest]

/-- Only the last of two values put under one name stays. -/
theorem put_put (entries : Entries α) (key : String) (first second : α) :
    put (put entries key first) key second = put entries key second := by
  induction entries with
  | nil =>
      simp [put]
  | cons entry rest ih =>
      rcases entry with ⟨name, before⟩
      by_cases heq : name = key
      · simp [put, heq]
      · simp [put, heq, ih]

/-! ## Several pairs -/

theorem mem_extend (h : entry ∈ extend target source) : entry ∈ target ∨ entry ∈ source := by
  induction source generalizing target with
  | nil =>
      exact Or.inl h
  | cons pair rest ih =>
      rcases ih h with hput | hrest
      · rcases mem_put hput with rfl | htarget
        · exact Or.inr (List.mem_cons_self ..)
        · exact Or.inl htarget
      · exact Or.inr (List.mem_cons_of_mem _ hrest)

theorem nodup_keys_extend (h : (keys target).Nodup) (source : Entries α) :
    (keys (extend target source)).Nodup := by
  induction source generalizing target with
  | nil =>
      exact h
  | cons pair rest ih =>
      exact ih (nodup_keys_put h pair.1 pair.2)

theorem extend_eq_append (h : (keys (target ++ source)).Nodup) :
    extend target source = target ++ source := by
  induction source generalizing target with
  | nil =>
      simp [extend]
  | cons pair rest ih =>
      have hassoc : target ++ pair :: rest = (target ++ [pair]) ++ rest := by simp
      -- The first name is none of those before it.
      have hnew : pair.1 ∉ keys target := by
        have hnames : (keys target ++ pair.1 :: keys rest).Nodup := by simpa [keys] using h
        intro hmem
        exact (List.nodup_append.1 hnames).2.2 pair.1 hmem pair.1 (List.mem_cons_self ..) rfl
      have hput : put target pair.1 pair.2 = target ++ [pair] := put_eq_append hnew pair.2
      calc
        extend target (pair :: rest)
            = extend (put target pair.1 pair.2) rest := rfl
        _ = extend (target ++ [pair]) rest := by rw [hput]
        _ = (target ++ [pair]) ++ rest := ih (hassoc ▸ h)
        _ = target ++ pair :: rest := hassoc.symm

theorem nodup_keys_ofPairs (pairs : Entries α) : (keys (ofPairs pairs)).Nodup :=
  @nodup_keys_extend _ [] List.nodup_nil pairs

theorem mem_of_mem_ofPairs (h : entry ∈ ofPairs pairs) : entry ∈ pairs :=
  (@mem_extend _ [] pairs entry h).resolve_left List.not_mem_nil

theorem ofPairs_eq_self (h : (keys pairs).Nodup) : ofPairs pairs = pairs :=
  @extend_eq_append _ [] pairs h

end Entries
end DesignTokens
