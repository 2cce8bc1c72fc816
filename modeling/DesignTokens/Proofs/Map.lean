import Std.Data.ExtTreeMap
import Mathlib.Data.List.Basic

/-!
# Keys of maps

Removing several keys of a map, and moving the values of several keys to others. The view is the
look-up of every key; the order in which the keys are taken does not matter as long as no new key
is also an old one.
-/

namespace DesignTokens
namespace Map

/-! ## Removing keys -/

/-- Erasing keys one after the other erases them all and nothing else. -/
theorem getElem?_foldl_erase {α : Type} (keys : List String)
    (map : Std.ExtTreeMap String α compare) (other : String) :
    (keys.foldl (fun map key => map.erase key) map)[other]? =
      if other ∈ keys then none else map[other]? := by
  induction keys generalizing map with
  | nil =>
      simp
  | cons first rest ih =>
      rw [List.foldl_cons, ih]
      by_cases hmem : other ∈ rest
      · simp [hmem]
      · by_cases hfirst : other = first
        · simp [hfirst]
        · have hne : first ≠ other := Ne.symm hfirst
          simp [hmem, hfirst, Std.ExtTreeMap.getElem?_erase, hne]

/-! ## Moving keys -/

/-- The map with the value of one key under another. -/
def moveEntry {α : Type} (map : Std.ExtTreeMap String α compare) (old new : String) :
    Std.ExtTreeMap String α compare :=
  match map[old]? with
  | some value => (map.erase old).insert new value
  | none => map

/-- What a map finds after an entry has moved: under the new name what stood under the old one. -/
theorem getElem?_moveEntry {α : Type} {map : Std.ExtTreeMap String α compare} {old new : String}
    (hne : old ≠ new) (other : String) :
    (moveEntry map old new)[other]? =
      if other = new then map[old]?.or map[new]?
      else if other = old then none else map[other]? := by
  unfold moveEntry
  cases hvalue : map[old]? with
  | none =>
      by_cases hnew : other = new
      · simp [hnew]
      · by_cases hold : other = old
        · simp [hold, hne, hvalue]
        · simp [hnew, hold]
  | some value =>
      by_cases hnew : other = new
      · simp [hnew]
      · have hnew' : new ≠ other := Ne.symm hnew
        by_cases hold : other = old
        · simp [hold, hne, Ne.symm hne]
        · have hold' : old ≠ other := Ne.symm hold
          simp [hnew, hold, Std.ExtTreeMap.getElem?_insert, Std.ExtTreeMap.getElem?_erase, hnew',
            hold']

/-- The map with the values of several keys under others. -/
def moveEntries {α : Type} (place : String → String) (keys : List String)
    (map : Std.ExtTreeMap String α compare) : Std.ExtTreeMap String α compare :=
  keys.foldl (fun map old => moveEntry map old (place old)) map

section MoveEntries

variable {α : Type} {place : String → String} {keys : List String}

/-- Entries that move elsewhere leave the others in place. -/
theorem getElem?_moveEntries_of_ne (hfresh : ∀ a ∈ keys, ∀ b ∈ keys, place a ≠ b)
    (map : Std.ExtTreeMap String α compare) {other : String} (hother : other ∉ keys)
    (hplace : ∀ a ∈ keys, place a ≠ other) :
    (moveEntries place keys map)[other]? = map[other]? := by
  induction keys generalizing map with
  | nil =>
      rfl
  | cons first rest ih =>
      rcases List.forall_mem_cons.1 hplace with ⟨hfirst, hrest⟩
      rcases not_or.1 (mt List.mem_cons.2 hother) with ⟨hne, hnotMem⟩
      have hself : first ≠ place first :=
        Ne.symm (hfresh first (List.mem_cons_self ..) first (List.mem_cons_self ..))
      have hstep := ih (fun a ha b hb => hfresh a (List.mem_cons_of_mem _ ha) b
        (List.mem_cons_of_mem _ hb)) (moveEntry map first (place first)) hnotMem hrest
      refine hstep.trans ?_
      simp [getElem?_moveEntry hself, Ne.symm hfirst, hne]

/-- Where entries move to new names, nothing is left under an old one. -/
theorem getElem?_moveEntries_old (hfresh : ∀ a ∈ keys, ∀ b ∈ keys, place a ≠ b)
    (map : Std.ExtTreeMap String α compare) {old : String} (hold : old ∈ keys) :
    (moveEntries place keys map)[old]? = none := by
  induction keys generalizing map with
  | nil =>
      cases hold
  | cons first rest ih =>
      have hfresh' : ∀ a ∈ rest, ∀ b ∈ rest, place a ≠ b := fun a ha b hb =>
        hfresh a (List.mem_cons_of_mem _ ha) b (List.mem_cons_of_mem _ hb)
      -- The last time that the key is moved decides, and nothing puts it back later.
      by_cases hmem : old ∈ rest
      · exact ih hfresh' (moveEntry map first (place first)) hmem
      · have heq : old = first := (List.mem_cons.1 hold).resolve_right hmem
        have hself : first ≠ place first :=
          Ne.symm (hfresh first (List.mem_cons_self ..) first (List.mem_cons_self ..))
        have hstep := getElem?_moveEntries_of_ne hfresh' (moveEntry map first (place first)) hmem
          (fun a ha => hfresh a (List.mem_cons_of_mem _ ha) old hold)
        refine hstep.trans ?_
        simp [getElem?_moveEntry hself, heq, hself]

/-- A key that is moved a second time is absent by then, so that repeated keys do no harm. -/
theorem getElem?_moveEntries_new (hfresh : ∀ a ∈ keys, ∀ b ∈ keys, place a ≠ b)
    (hinj : ∀ a ∈ keys, ∀ b ∈ keys, place a = place b → a = b)
    (map : Std.ExtTreeMap String α compare) {old : String} (hold : old ∈ keys) :
    (moveEntries place keys map)[place old]? = map[old]?.or map[place old]? := by
  induction keys generalizing map with
  | nil =>
      cases hold
  | cons first rest ih =>
      have hfirst : first ∈ first :: rest := List.mem_cons_self ..
      have htail : ∀ {a}, a ∈ rest → a ∈ first :: rest := fun ha => List.mem_cons_of_mem _ ha
      have hfresh' : ∀ a ∈ rest, ∀ b ∈ rest, place a ≠ b := fun a ha b hb =>
        hfresh a (htail ha) b (htail hb)
      have hself : first ≠ place first := Ne.symm (hfresh first hfirst first hfirst)
      -- A key that comes again has been moved by then; what counts is the first move.
      by_cases hmem : old ∈ rest
      · have hstep := ih hfresh' (fun a ha b hb => hinj a (htail ha) b (htail hb))
          (moveEntry map first (place first)) hmem
        refine hstep.trans ?_
        by_cases heq : old = first
        · subst heq
          simp [getElem?_moveEntry hself, hself]
        · have hplace : place old ≠ place first := fun h => heq (hinj old hold first hfirst h)
          have hne : place old ≠ first := hfresh old hold first hfirst
          have hne' : old ≠ place first := Ne.symm (hfresh first hfirst old hold)
          simp [getElem?_moveEntry hself, hplace, hne, hne', heq]
      · have heq : old = first := (List.mem_cons.1 hold).resolve_right hmem
        subst heq
        have hnotTo : ∀ a ∈ rest, place a ≠ place old := by
          intro a ha hplace
          exact hmem (hinj a (htail ha) old hold hplace ▸ ha)
        have hnotMem : place old ∉ rest := fun ha => hfresh old hold (place old) (htail ha) rfl
        have hstep :=
          getElem?_moveEntries_of_ne hfresh' (moveEntry map old (place old)) hnotMem hnotTo
        refine hstep.trans ?_
        simp [getElem?_moveEntry hself]

end MoveEntries

end Map
end DesignTokens
