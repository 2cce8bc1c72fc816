import DesignTokens.Proofs.Entries
import DesignTokens.Proofs.Token.Merge
import DesignTokens.Token.Store

/-!
# Changing one group of a tree

Renaming, moving and removing an entry change the entries of one group each and leave the rest of
the tree alone. This is how they look in a tree: `Tree.changeGroup` replaces the entries of the
group at a path, and each edit says by what.

The entries of a group are read off a list of distinct names. What is done to such entries is what
is done to their names.
-/

namespace DesignTokens

universe u

/-! ## Entries read off names -/

namespace Entries

variable {α : Type u} {read other : String → Option α} {names : List String} {key old new : String}
  {value : α}

/-- The entries with the first one of a name under another name, in the same place. -/
def rename : Entries α → String → String → Entries α
  | [], _, _ => []
  | (name, value) :: rest, old, new =>
      if name = old then (new, value) :: rest else (name, value) :: rename rest old new

theorem rename_self (entries : Entries α) (name : String) : rename entries name name = entries := by
  induction entries with
  | nil =>
      rfl
  | cons entry rest ih =>
      rcases entry with ⟨first, value⟩
      by_cases heq : first = name
      · simp [rename, heq]
      · simp [rename, heq, ih]

/-- An entry for each name that has a value, in the order of the names. -/
def ofNames (read : String → Option α) (names : List String) : Entries α :=
  names.filterMap fun name => (read name).map (name, ·)

/-- Entries of names that begin with one: that entry, if there is one, and the others. -/
theorem ofNames_cons (name : String) (rest : List String) :
    ofNames read (name :: rest) =
      ((read name).map (name, ·)).toList ++ ofNames read rest := by
  cases hname : read name with
  | none =>
      simp [ofNames, hname]
  | some value =>
      simp [ofNames, hname]

/-- A name at the end adds its entry at the end. -/
theorem ofNames_append_singleton (h : read key = some value) :
    ofNames read (names ++ [key]) = ofNames read names ++ [(key, value)] := by
  simp [ofNames, h]

theorem ofNames_congr (h : ∀ name ∈ names, other name = read name) :
    ofNames other names = ofNames read names := by
  apply List.filterMap_congr
  intro name hmem
  rw [h name hmem]

/-- A name that is not among the names may be read in any way. -/
theorem ofNames_congr_of_not_mem (hnotMem : key ∉ names)
    (hkept : ∀ name ∈ names, name ≠ key → other name = read name) :
    ofNames other names = ofNames read names := by
  apply ofNames_congr
  intro name hmem
  apply hkept name hmem
  rintro rfl
  exact hnotMem hmem

/-- What entries made of names have is what is read for those of the names. -/
theorem get?_ofNames (read : String → Option α) (names : List String) (key : String) :
    get? (ofNames read names) key = if key ∈ names then read key else none := by
  induction names with
  | nil =>
      rfl
  | cons name rest ih =>
      -- The name is read here, or among the rest.
      by_cases hkey : name = key
      · subst hkey
        cases hname : read name with
        | none =>
            simp [ofNames_cons, hname, ih]
        | some value =>
            simp [ofNames_cons, hname, get?]
      · have hmem : key ∈ name :: rest ↔ key ∈ rest := by simp [Ne.symm hkey]
        cases hname : read name with
        | none =>
            simp [ofNames_cons, hname, ih, hmem]
        | some value =>
            simp [ofNames_cons, hname, get?, hkey, ih, hmem]

theorem mem_ofNames {entry : String × α} :
    entry ∈ ofNames read names ↔ entry.1 ∈ names ∧ read entry.1 = some entry.2 := by
  rcases entry with ⟨name, value⟩
  simp [ofNames, List.mem_filterMap]

/-- When every name can be read, the entries have exactly these names. -/
theorem keys_ofNames (h : ∀ name ∈ names, (read name).isSome = true) :
    keys (ofNames read names) = names := by
  induction names with
  | nil =>
      rfl
  | cons name rest ih =>
      rcases List.forall_mem_cons.1 h with ⟨hfirst, hrest⟩
      rcases Option.isSome_iff_exists.1 hfirst with ⟨value, hvalue⟩
      have hkeys := ih hrest
      simp only [keys] at hkeys ⊢
      simp [ofNames_cons, hvalue, hkeys]

/-- Erasing an entry made of names is leaving out the name. -/
theorem erase_ofNames (hnames : names.Nodup) (read : String → Option α) (key : String) :
    erase (ofNames read names) key = ofNames read (names.filter (· ≠ key)) := by
  induction names with
  | nil =>
      rfl
  | cons name rest ih =>
      rcases List.nodup_cons.1 hnames with ⟨hname, hrest⟩
      by_cases hkey : name = key
      · subst hkey
        -- The name does not come again, so that nothing else is left out.
        have hall : rest.filter (· ≠ name) = rest := by
          apply List.filter_eq_self.2
          intro other hother
          have hne : other ≠ name := by
            intro heq
            exact hname (heq ▸ hother)
          simpa using hne
        have hfilter : (name :: rest).filter (· ≠ name) = rest := by simpa using hall
        cases hvalue : read name with
        | none =>
            simpa [ofNames_cons, hvalue] using ih hrest
        | some value =>
            rw [hfilter]
            simp [ofNames_cons, hvalue, erase]
      · have herased := ih hrest
        cases hvalue : read name with
        | none =>
            simpa [ofNames_cons, hvalue, hkey] using herased
        | some value =>
            simpa [ofNames_cons, hvalue, hkey, erase] using herased

/-- A value put under a name changes what is read for that name. -/
theorem put_ofNames (hnames : names.Nodup) (hkey : key ∈ names)
    (hpresent : (read key).isSome = true)
    (hput : other key = some value) (hkept : ∀ name ∈ names, name ≠ key → other name = read name) :
    put (ofNames read names) key value = ofNames other names := by
  induction names with
  | nil =>
      cases hkey
  | cons name rest ih =>
      rcases List.nodup_cons.1 hnames with ⟨hname, hrest⟩
      rcases List.forall_mem_cons.1 hkept with ⟨hfirst, hothers⟩
      by_cases heq : name = key
      · subst heq
        -- The value is put here, and the names after this one are read as before.
        have hsame := ofNames_congr_of_not_mem hname hothers
        rcases Option.isSome_iff_exists.1 hpresent with ⟨before, hbefore⟩
        simp [ofNames_cons, hbefore, hput, put, hsame]
      · have hlater : key ∈ rest := (List.mem_cons.1 hkey).resolve_left (Ne.symm heq)
        have hput := ih hrest hlater hothers
        cases hvalue : read name with
        | none =>
            simpa [ofNames_cons, hfirst heq, hvalue] using hput
        | some value =>
            simpa [ofNames_cons, hfirst heq, hvalue, put, heq] using hput

/-- An entry is renamed by replacing its name. -/
theorem rename_ofNames (hnames : names.Nodup) (hold : read old = some value)
    (hnew : other new = some value) (hkept : ∀ name ∈ names, name ≠ old → other name = read name) :
    rename (ofNames read names) old new = ofNames other (Store.replaceFirst old new names) := by
  induction names with
  | nil =>
      rfl
  | cons name rest ih =>
      rcases List.nodup_cons.1 hnames with ⟨hname, hrest⟩
      rcases List.forall_mem_cons.1 hkept with ⟨hfirst, hothers⟩
      by_cases heq : name = old
      · -- The names behind the renamed one are others, and read as before.
        subst heq
        have hsame := ofNames_congr_of_not_mem hname hothers
        simp [ofNames_cons, hold, hnew, rename, Store.replaceFirst, hsame]
      · have hrenamed := ih hrest hothers
        cases hvalue : read name with
        | none =>
            simpa [ofNames_cons, hfirst heq, hvalue, Store.replaceFirst, heq] using hrenamed
        | some value =>
            simpa [ofNames_cons, hfirst heq, hvalue, Store.replaceFirst, heq, rename] using hrenamed

/-- Putting what is read for each of several new names adds it at the end. -/
theorem foldl_put_eq (read : String → Option α) (hnames : names.Nodup) {entries : Entries α}
    (hnew : ∀ name ∈ names, name ∉ keys entries) :
    names.foldl (fun entries name =>
      match read name with
      | some value => put entries name value
      | none => entries) entries = entries ++ ofNames read names := by
  induction names generalizing entries with
  | nil =>
      simp [ofNames]
  | cons name rest ih =>
      rcases List.nodup_cons.1 hnames with ⟨hname, hrest⟩
      rcases List.forall_mem_cons.1 hnew with ⟨hfirst, hothers⟩
      cases hvalue : read name with
      | none =>
          simpa [ofNames_cons, hvalue] using ih hrest hothers
      | some value =>
          -- The new entry stands at the end, and the later names are still new.
          have hkeys : keys (put entries name value) = keys entries ++ [name] := by
            have hfree : ¬ has entries name = true := fun hhas => hfirst (mem_keys_iff.2 hhas)
            simpa [hfree] using keys_put entries name value
          have hlater : ∀ sibling ∈ rest, sibling ∉ keys (put entries name value) := by
            intro sibling hsibling
            have hne : sibling ≠ name := by
              rintro rfl
              exact hname hsibling
            simpa [hkeys, hne] using hothers sibling hsibling
          simpa [ofNames_cons, hvalue, put_eq_append hfirst] using ih hrest hlater

end Entries

/-! ## Groups -/

namespace Node

/-- The entries with those of the group at the end of some segments changed. -/
def changeEntries (change : Entries Node → Entries Node) :
    List String → Entries Node → Entries Node
  | [], entries => change entries
  | name :: rest, entries =>
      match Entries.get? entries name with
      | some (.group attributes below) =>
          Entries.put entries name (.group attributes (changeEntries change rest below))
      | _ => entries

end Node

namespace Tree

/-- The tree with the entries of the group at a path changed. -/
def changeGroup (tree : Tree) (path : String) (change : Entries Node → Entries Node) : Tree where
  attributes := tree.attributes
  children := Node.changeEntries change (Path.segments path) tree.children

end Tree
end DesignTokens
