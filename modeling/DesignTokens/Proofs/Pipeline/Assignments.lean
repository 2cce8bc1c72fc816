import DesignTokens.Pipeline.Basic
import Mathlib.Data.List.Induction
import Mathlib.Data.List.Nodup
import Mathlib.Data.List.Perm.Subperm

/-!
# Assignments that fit a layer

Whether an assignment fits is decided by a count and a pass over the bindings. When no binding
repeats, this says that the assignment has exactly the keys of the layer, with values that their
variables have. When one does repeat, the count can not be met.
-/

namespace DesignTokens

/-! ## The keys of an assignment -/

namespace Assignment

variable {a : Assignment} {keys : List String}

/-- An assignment has as many pairs as there are keys in a list of them, if and only if the list
repeats none. -/
theorem size_eq_length_iff (h : ∀ key, key ∈ a ↔ key ∈ keys) :
    a.size = keys.length ↔ keys.Nodup := by
  have hnodup : a.keys.Nodup := Std.ExtTreeMap.nodup_keys
  have hsame : ∀ key, key ∈ a.keys ↔ key ∈ keys := by
    intro key
    exact Std.ExtTreeMap.mem_keys.trans (h key)
  constructor
  · intro hsize
    have hsub : a.keys.Subperm keys :=
      List.subperm_of_subset hnodup fun key hkey => (hsame key).1 hkey
    have hperm : a.keys.Perm keys :=
      hsub.perm_of_length_le (by simp [hsize])
    exact hperm.nodup_iff.1 hnodup
  · intro hkeys
    have hperm : a.keys.Perm keys := (List.perm_ext_iff_of_nodup hnodup hkeys).2 hsame
    simpa using hperm.length_eq

/-- With distinct keys the count says that there are no others. -/
theorem size_and_mem_iff (h : keys.Nodup) :
    (a.size = keys.length ∧ ∀ key ∈ keys, key ∈ a) ↔ ∀ key, key ∈ a ↔ key ∈ keys := by
  constructor
  · intro hboth
    rcases hboth with ⟨hsize, hall⟩
    have hsub : keys.Subperm a.keys :=
      List.subperm_of_subset h fun key hkey => Std.ExtTreeMap.mem_keys.2 (hall key hkey)
    have hperm : keys.Perm a.keys :=
      hsub.perm_of_length_le (by simp [hsize])
    intro key
    exact Std.ExtTreeMap.mem_keys.symm.trans hperm.mem_iff.symm
  · intro hsame
    exact ⟨(size_eq_length_iff hsame).2 h, fun key hkey => (hsame key).2 hkey⟩

theorem mem_of_getElem? {key value : String} (h : a[key]? = some value) : key ∈ a :=
  Std.ExtTreeMap.mem_iff_isSome_getElem?.2 (by simp [h])

theorem exists_of_mem {key : String} (h : key ∈ a) : ∃ value, a[key]? = some value :=
  Option.isSome_iff_exists.1 (Std.ExtTreeMap.mem_iff_isSome_getElem?.1 h)

/-- A later pair overrides an earlier one with its key. -/
theorem ofPairs_append_singleton (pairs : List (String × String)) (pair : String × String) :
    ofPairs (pairs ++ [pair]) = (ofPairs pairs).insert pair.1 pair.2 := by
  simp [ofPairs]

/-- What is found was one of the pairs. -/
theorem mem_of_getElem?_ofPairs {pairs : List (String × String)} {key value : String}
    (h : (ofPairs pairs)[key]? = some value) : (key, value) ∈ pairs := by
  -- Pairs are inserted one after another, so that the last one with the key is the one found.
  induction pairs using List.reverseRecOn with
  | nil =>
      simp [ofPairs] at h
  | append_singleton pairs pair ih =>
      rw [ofPairs_append_singleton, Std.ExtTreeMap.getElem?_insert] at h
      rw [List.mem_append, List.mem_singleton]
      by_cases hkey : pair.1 = key
      · have hvalue : pair.2 = value := by simpa [hkey] using h
        exact Or.inr (Prod.ext hkey.symm hvalue.symm)
      · exact Or.inl (ih (by simpa [hkey] using h))

/-- An assignment made from pairs has their keys. -/
theorem mem_ofPairs_iff {pairs : List (String × String)} {key : String} :
    key ∈ ofPairs pairs ↔ key ∈ pairs.map Prod.fst := by
  induction pairs using List.reverseRecOn with
  | nil =>
      simp [ofPairs]
  | append_singleton pairs pair ih =>
      calc
        key ∈ ofPairs (pairs ++ [pair])
            ↔ key ∈ (ofPairs pairs).insert pair.1 pair.2 := by
              rw [ofPairs_append_singleton]
        _ ↔ pair.1 = key ∨ key ∈ pairs.map Prod.fst := by
              rw [Std.ExtTreeMap.mem_insert, Std.LawfulEqCmp.compare_eq_iff_eq, ih]
        _ ↔ key ∈ (pairs ++ [pair]).map Prod.fst := by
              simp [or_comm, eq_comm]

end Assignment

/-! ## Fitting assignments -/

namespace Pipeline

variable {p : Pipeline} {layer : Layer} {a : Assignment}

/-- Every pair of the assignment is a value of the variable with that key. -/
def PermitsAll (p : Pipeline) (a : Assignment) : Prop :=
  ∀ key value, a[key]? = some value → p.permits key value = true

/-- An assignment is valid for a layer when it has the layer's keys and permitted values. -/
theorem isValidFor_iff (h : layer.variableKeys.Nodup) :
    p.isValidFor layer a = true ↔
      (∀ key, key ∈ a ↔ key ∈ layer.variableKeys) ∧ p.PermitsAll a := by
  have hbound : ∀ key, (a[key]?).any (p.permits key) = true ↔
      key ∈ a ∧ ∀ value, a[key]? = some value → p.permits key value = true := by
    intro key
    cases hvalue : a[key]? with
    | none =>
        simp [Std.ExtTreeMap.mem_iff_isSome_getElem?, hvalue]
    | some value =>
        simp [Std.ExtTreeMap.mem_iff_isSome_getElem?, hvalue]
  simp only [isValidFor, Bool.and_eq_true, decide_eq_true_eq, List.all_eq_true, hbound]
  constructor
  · intro hvalid
    rcases hvalid with ⟨hsize, hall⟩
    have hkeys := (Assignment.size_and_mem_iff h).1 ⟨hsize, fun key hkey => (hall key hkey).1⟩
    refine ⟨hkeys, fun key value hvalue => ?_⟩
    exact (hall key ((hkeys key).1 (Assignment.mem_of_getElem? hvalue))).2 value hvalue
  · intro hfits
    rcases hfits with ⟨hkeys, hpermits⟩
    refine ⟨(Assignment.size_eq_length_iff hkeys).2 h, fun key hkey => ?_⟩
    exact ⟨(hkeys key).2 hkey, hpermits key⟩

/-- An assignment of all keys of a layer, and of no others, only misses the count when a binding
repeats. -/
theorem isValidFor_iff_nodup (hkeys : ∀ key, key ∈ a ↔ key ∈ layer.variableKeys)
    (hpermits : p.PermitsAll a) :
    p.isValidFor layer a = true ↔ layer.variableKeys.Nodup := by
  constructor
  · intro hvalid
    rw [isValidFor, Bool.and_eq_true, decide_eq_true_eq] at hvalid
    exact (Assignment.size_eq_length_iff hkeys).1 hvalid.1
  · intro hnodup
    exact (isValidFor_iff hnodup).2 ⟨hkeys, hpermits⟩

end Pipeline
end DesignTokens
