import DesignTokens.File.System
import Mathlib.Data.List.Basic

/-!
# Following paths

Where the parts of a path lead from a directory, whatever files there are: a part `..` goes up, an
empty part and a part `.` stay, and every other part goes down to its name. A path without parts
`..` never leaves the directory that it is taken from, and ends at the names of its parts below it.
-/

namespace DesignTokens
namespace UnixPath

variable {path part : String} {parts : List String} {place : Location}

/-! ## Contained paths -/

/-- The components of a path: `..` goes up, every part other than `.` and the empty one is a
name. -/
theorem component?_eq_some_iff {component : Component} :
    component? part = some component ↔
      part = ".." ∧ component = .up ∨
        part ≠ "" ∧ part ≠ "." ∧ part ≠ ".." ∧ component = .named part := by
  unfold component?
  by_cases hstay : part = "" ∨ part = "."
  · rcases hstay with rfl | rfl <;> simp
  · rcases not_or.1 hstay with ⟨hempty, hhere⟩
    by_cases hup : part = ".."
    · simpa [hup] using eq_comm
    · simpa [hempty, hhere, hup] using eq_comm

theorem all_isNamed_iff :
    (parts.filterMap component?).all Component.isNamed = true ↔ ".." ∉ parts := by
  simp only [List.all_eq_true, List.mem_filterMap]
  constructor
  · intro h hmem
    have hnamed := h .up ⟨"..", hmem, rfl⟩
    cases hnamed
  · rintro h component ⟨part, hmem, hcomponent⟩
    rcases component?_eq_some_iff.1 hcomponent with ⟨rfl, -⟩ | ⟨-, -, -, rfl⟩
    · exact absurd hmem h
    · rfl

theorem parts_ne_nil (path : String) : UnixPath.parts path ≠ [] := by
  simp [UnixPath.parts, Text.split]

/-- The parts of two texts around a slash are the parts of the one and of the other. -/
theorem parts_append_slash (front back : String) :
    UnixPath.parts (front ++ "/" ++ back) = UnixPath.parts front ++ UnixPath.parts back := by
  simp [UnixPath.parts, Text.split, List.splitOn_append_cons_self]

theorem mem_of_mem_parts {c : Char} (hpart : part ∈ UnixPath.parts path) (hc : c ∈ part.toList) :
    c ∈ path.toList := by
  rcases List.mem_map.1 hpart with ⟨text, htext, rfl⟩
  rcases List.mem_iff_getElem?.1 htext with ⟨i, hi⟩
  -- Joining puts the parts at even positions and slashes between them.
  have hjoined : text ∈ (path.toList.splitOn '/').intersperse ['/'] :=
    List.mem_of_getElem? (List.getElem?_intersperse_two_mul.trans hi)
  have hwhole : ((path.toList.splitOn '/').intersperse ['/']).flatten = path.toList :=
    List.intercalate_splitOn '/'
  rw [← hwhole]
  exact List.mem_flatten.2 ⟨text, hjoined, by simpa using hc⟩

/-- A slash at the start leaves an empty part and at least one more. -/
theorem head?_toList_eq_slash_iff :
    path.toList.head? = some '/' ↔
      ∃ second rest, UnixPath.parts path = "" :: second :: rest := by
  rw [UnixPath.parts, Text.split]
  cases htext : path.toList with
  | nil =>
      simp
  | cons c text =>
      rcases hsplit : text.splitOn '/' with _ | ⟨first, more⟩
      · exact absurd hsplit (List.splitOn_ne_nil _ _)
      · by_cases hslash : c = '/'
        · simp [List.splitOn_cons_eq_if_modifyHead, hslash, hsplit]
        · simp [List.splitOn_cons_eq_if_modifyHead, hslash, hsplit, ← String.toList_inj]

/-- A path that ends in a slash has an empty part at its end. -/
theorem exists_parts_of_slash (h : path.toList.getLast? = some '/') :
    ∃ front, path = front ++ "/" ∧ UnixPath.parts path = UnixPath.parts front ++ [""] := by
  rcases List.getLast?_eq_some_iff.1 h with ⟨text, htext⟩
  have hpath : path = String.ofList text ++ "/" := by
    simp [← String.toList_inj, htext]
  have hparts := parts_append_slash (String.ofList text) ""
  rw [String.append_empty, ← hpath] at hparts
  exact ⟨String.ofList text, hpath, hparts⟩

/-- Only a slash at the end leaves an empty part there. -/
theorem getLast?_splitOn_append_singleton {c : Char} (hslash : c ≠ '/') (text : List Char) :
    ((text ++ [c]).splitOn '/').getLast? ≠ some [] := by
  induction text with
  | nil =>
      simp [List.splitOn_cons_eq_if_modifyHead, hslash]
  | cons first rest ih =>
      rw [List.cons_append, List.splitOn_cons_eq_if_modifyHead]
      -- The last part is not empty, as the last character is in it.
      rcases hsplit : (rest ++ [c]).splitOn '/' with _ | ⟨part, more⟩
      · exact absurd hsplit (List.splitOn_ne_nil _ _)
      · rw [hsplit] at ih
        by_cases hfirst : first = '/'
        · simpa [hfirst] using ih
        · cases more with
          | nil =>
              simp [hfirst]
          | cons second others =>
              simpa [hfirst] using ih

theorem getLast?_parts_ne (hpath : path ≠ "") (hslash : path.toList.getLast? ≠ some '/') :
    (UnixPath.parts path).getLast? ≠ some "" := by
  rcases List.eq_nil_or_concat path.toList with hnil | ⟨text, c, htext⟩
  · exact absurd (String.toList_eq_nil_iff.1 hnil) hpath
  · have hc : c ≠ '/' := by simpa [htext] using hslash
    have hlast := getLast?_splitOn_append_singleton hc text
    rw [UnixPath.parts, Text.split, htext, List.concat_eq_append, List.getLast?_map]
    intro h
    rcases Option.map_eq_some_iff.1 h with ⟨part, hpart, hempty⟩
    have hnil : part = [] := by simpa [← String.toList_inj] using hempty
    exact hlast (hnil ▸ hpart)

/-- How a list of parts is anchored: at the root, at `.`, or not at all. -/
theorem anchored_cases (parts : List String) :
    (∃ second rest, parts = "" :: second :: rest ∧
      anchored parts = (some .root, second :: rest)) ∨
    (∃ rest, parts = "." :: rest ∧ anchored parts = (some .here, rest)) ∨
      (¬ ∃ second rest, parts = "" :: second :: rest) ∧ parts.head? ≠ some "." ∧
        anchored parts = (none, parts) := by
  unfold anchored
  split
  · next second rest =>
      exact Or.inl ⟨second, rest, rfl, rfl⟩
  · next rest =>
      exact Or.inr (Or.inl ⟨rest, rfl, rfl⟩)
  · next hroot hhere =>
      refine Or.inr (Or.inr ⟨?_, ?_, rfl⟩)
      · rintro ⟨second, rest, heq⟩
        exact hroot second rest heq
      · intro hhead
        rcases List.head?_eq_some_iff.1 hhead with ⟨rest, heq⟩
        exact hhere rest heq

/-- A path is contained when it neither starts at the root or with a part `.` nor goes up. -/
theorem isContained_iff :
    isContained path = true ↔
      path.toList.head? ≠ some '/' ∧ (UnixPath.parts path).head? ≠ some "." ∧
        ".." ∉ UnixPath.parts path := by
  rw [isContained, components, ne_eq, head?_toList_eq_slash_iff]
  rcases anchored_cases (UnixPath.parts path) with
    ⟨second, rest, hparts, hanchored⟩ | ⟨rest, hparts, hanchored⟩ | ⟨hroot, hhere, hanchored⟩
  · rw [hanchored]
    simp [hparts, Component.isNamed]
  · rw [hanchored]
    simp [hparts, Component.isNamed]
  · simp only [hanchored, Option.toList_none, List.nil_append, all_isNamed_iff, hroot, hhere,
      not_false_iff, true_and, ne_eq]

/-! ## Where paths lead -/

def next (place : Location) (part : String) : Location :=
  if part = "" ∨ part = "." then place
  else if part = ".." then place.dropLast
  else place ++ [part]

/-- The places that parts lead through, beginning with the one that they are taken from. -/
def visited (place : Location) (parts : List String) : List Location :=
  parts.scanl next place

def target (place : Location) (parts : List String) : Location :=
  parts.foldl next place

theorem next_of_isSome (hup : part ≠ "..") :
    next place part = place ++ [part].filter fun part => (component? part).isSome := by
  unfold next component?
  by_cases hstay : part = "" ∨ part = "."
  · simp [hstay]
  · simp [hstay, hup]

/-- Parts that do not go up lead down to their names. -/
theorem target_eq (h : ".." ∉ parts) :
    target place parts = place ++ parts.filter fun part => (component? part).isSome := by
  induction parts generalizing place with
  | nil =>
      simp [target]
  | cons part rest ih =>
      rcases not_or.1 (mt List.mem_cons.2 h) with ⟨hpart, hrest⟩
      calc
        target place (part :: rest)
            = target (next place part) rest := rfl
        _ = next place part ++ rest.filter fun part => (component? part).isSome := ih hrest
        _ = place ++ ([part].filter fun part => (component? part).isSome) ++
              rest.filter fun part => (component? part).isSome := by
            rw [next_of_isSome (Ne.symm hpart)]
        _ = place ++ (part :: rest).filter fun part => (component? part).isSome := by
            rw [List.append_assoc, ← List.filter_append, List.singleton_append]

/-- Parts that never go up stay below the place where they start. -/
theorem prefix_of_mem_visited (h : ".." ∉ parts) {other : Location}
    (hmem : other ∈ visited place parts) : place <+: other := by
  rcases List.getElem_of_mem hmem with ⟨i, hi, rfl⟩
  -- A place on the way is where the parts up to there lead to.
  have htaken : (visited place parts)[i] = target place (parts.take i) := by
    simp [visited, target, List.getElem_scanl]
  rw [htaken, target_eq fun hup => h (List.mem_of_mem_take hup)]
  exact List.prefix_append place _

end UnixPath

namespace FileSystem

variable {files : FileSystem} {place other : Location} {part : String} {parts : List String}

theorem enter_eq_ok_iff : files.enter place = .ok () ↔ files.node? place = some .directory := by
  unfold enter
  split <;> simp_all

/-- A part can be followed from a directory unless it is too long, and it does not matter then what
it leads to. -/
theorem step_eq_ok_iff :
    files.step place part = .ok other ↔
      files.node? place = some .directory ∧ part.utf8ByteSize ≤ nameLimit ∧
        UnixPath.next place part = other := by
  rw [← enter_eq_ok_iff]
  unfold step UnixPath.next
  cases files.enter place with
  | error e =>
      simp [bind, Except.bind]
  | ok u =>
      -- Only a name is looked up, and only a name can be too long.
      by_cases hstay : part = "" ∨ part = "."
      · have hsize : part.utf8ByteSize ≤ nameLimit := by
          rcases hstay with rfl | rfl <;> decide
        simp [bind, Except.bind, pure, Except.pure, hstay, hsize]
      · by_cases hup : part = ".."
        · subst hup
          have hsize : "..".utf8ByteSize ≤ nameLimit := by decide
          simp [bind, Except.bind, pure, Except.pure, hsize]
        · by_cases hsize : nameLimit < part.utf8ByteSize
          · simp [bind, Except.bind, hstay, hup, hsize, Nat.not_le.2 hsize]
          · simp [bind, Except.bind, pure, Except.pure, hstay, hup, hsize, Nat.not_lt.1 hsize]

/-- Walking several parts is one step and then the others. -/
theorem walk_cons_eq_ok_iff :
    files.walk place (part :: parts) = .ok other ↔
      ∃ middle, files.step place part = .ok middle ∧ files.walk middle parts = .ok other := by
  rw [walk]
  cases files.step place part <;> simp [bind, Except.bind]

/-- A file system only decides whether the parts of a path can be followed, not where they lead. -/
theorem eq_target_of_walk (h : files.walk place parts = .ok other) :
    other = UnixPath.target place parts := by
  induction parts generalizing place with
  | nil =>
      exact (Except.ok.inj h).symm
  | cons part rest ih =>
      rcases walk_cons_eq_ok_iff.1 h with ⟨middle, hstep, hrest⟩
      rw [ih hrest, ← (step_eq_ok_iff.1 hstep).2.2]
      rfl

end FileSystem
end DesignTokens
