import DesignTokens.Proofs.Text
import DesignTokens.Token.Path
import Mathlib.Data.List.Basic

/-!
# Paths of valid names

A path is a text, and nearly every text is the path of nothing. The paths that matter here are
those whose segments are valid names: the root, and `Path.child` of such a path with a valid name.
On them `parent?` and `last` undo `child`, `isWithin` is the order of the tree, and `rebase?` maps
the paths within one node to those within another.

`parent?` and `segments` disagree on some texts. The smallest is `.x`: its parent is the root, as
that of `x` is, while its segments are the empty text and `x`.
-/

namespace DesignTokens
namespace Path

/-- Every segment of the path is a valid name. The root has no segments. -/
def Valid (path : String) : Prop :=
  ∀ name ∈ segments path, ValidName name

instance (path : String) : Decidable (Valid path) :=
  inferInstanceAs (Decidable (∀ name ∈ segments path, ValidName name))

/-! ## Valid names -/

theorem ValidName.ne_empty {name : String} (h : ValidName name) : name ≠ "" := by
  rintro rfl
  simp [ValidName, nameFault?] at h

/-- A valid name holds no separator. -/
theorem ValidName.not_mem_dot {name : String} (h : ValidName name) : '.' ∉ name.toList := by
  intro hdot
  unfold ValidName nameFault? at h
  split at h
  · cases h
  · split at h
    · cases h
    · simp [hdot] at h

/-- A valid name holds no brace, so an alias of it can be read back. -/
theorem ValidName.not_mem_brace {name : String} (h : ValidName name) :
    '\x7b' ∉ name.toList ∧ '\x7d' ∉ name.toList := by
  unfold ValidName nameFault? at h
  split at h
  · cases h
  · split at h
    · cases h
    · split at h
      · cases h
      · split at h
        · cases h
        · rename_i hbrace
          simpa [not_or] using hbrace

/-! ## Splitting and joining -/

theorem ofSegments_split (path : String) : ofSegments (Text.split '.' path) = path := by
  apply String.toList_injective
  simp [ofSegments, Text.join, Text.split]

theorem ofSegments_segments (path : String) : ofSegments (segments path) = path := by
  by_cases h : path = ""
  · subst h
    simp [segments, ofSegments, Text.join]
  · simpa [segments, h] using ofSegments_split path

/-- A path is determined by its segments. -/
theorem segments_injective {a b : String} (h : segments a = segments b) : a = b := by
  rw [← ofSegments_segments a, ← ofSegments_segments b, h]

theorem segments_eq_nil_iff {path : String} : segments path = [] ↔ path = "" := by
  constructor
  · intro h
    by_contra hne
    have : Text.split '.' path = [] := by simpa [segments, hne] using h
    simp [Text.split] at this
  · rintro rfl
    rfl

theorem split_of_not_mem_dot {name : String} (h : '.' ∉ name.toList) :
    Text.split '.' name = [name] := by
  simp [Text.split, List.splitOn_eq_singleton h]

/-- A name without a dot is the last of the segments. -/
theorem split_append_dot {parent name : String} (h : '.' ∉ name.toList) :
    Text.split '.' (parent ++ "." ++ name) = Text.split '.' parent ++ [name] := by
  have hlist : (parent ++ "." ++ name).toList = parent.toList ++ '.' :: name.toList := by
    simp
  simp [Text.split, hlist, List.splitOn_append_cons_self, List.splitOn_eq_singleton h]

/-! ## Children -/

theorem child_ne_empty {parent name : String} (h : ValidName name) : child parent name ≠ "" := by
  unfold child
  split
  · exact h.ne_empty
  · intro heq
    have := congrArg String.toList heq
    simp at this

/-- A child's segments are those of its parent and its name. -/
theorem segments_child {parent name : String} (h : ValidName name) :
    segments (child parent name) = segments parent ++ [name] := by
  have hne : child parent name ≠ "" := child_ne_empty h
  by_cases hp : parent = ""
  · subst hp
    have : name ≠ "" := h.ne_empty
    simp [child, segments, this, split_of_not_mem_dot h.not_mem_dot]
  · simp only [segments, hne, hp, if_false]
    simp only [child, hp, if_false]
    exact split_append_dot h.not_mem_dot

theorem parent?_child {parent name : String} (h : ValidName name) :
    parent? (child parent name) = some parent := by
  have hne : child parent name ≠ "" := child_ne_empty h
  by_cases hp : parent = ""
  · subst hp
    have : name ≠ "" := h.ne_empty
    simp [child, parent?, this, split_of_not_mem_dot h.not_mem_dot, ofSegments, Text.join]
  · have hsplit : Text.split '.' (child parent name) = Text.split '.' parent ++ [name] := by
      simpa [child, hp] using split_append_dot h.not_mem_dot
    simp [parent?, hne, hsplit, ofSegments_split]

theorem last_child {parent name : String} (h : ValidName name) :
    last (child parent name) = name := by
  by_cases hp : parent = ""
  · subst hp
    simp [child, last, split_of_not_mem_dot h.not_mem_dot]
  · have hsplit : Text.split '.' (child parent name) = Text.split '.' parent ++ [name] := by
      simpa [child, hp] using split_append_dot h.not_mem_dot
    simp [last, hsplit]

theorem parent?_dot {name : String} (h : ValidName name) : parent? ("." ++ name) = some "" := by
  have hsplit : Text.split '.' ("." ++ name) = ["", name] := by
    simpa [Text.split] using @split_append_dot "" name h.not_mem_dot
  have hne : "." ++ name ≠ "" := by
    intro heq
    have := congrArg String.toList heq
    simp at this
  simp [parent?, hne, hsplit, ofSegments, Text.join]

theorem last_dot {name : String} (h : ValidName name) : last ("." ++ name) = name := by
  have hsplit : Text.split '.' ("." ++ name) = ["", name] := by
    simpa [Text.split] using @split_append_dot "" name h.not_mem_dot
  simp [last, hsplit]

/-- Valid names below paths make children that are told apart. -/
theorem child_inj {parent other name otherName : String} (h : ValidName name)
    (h' : ValidName otherName) :
    child parent name = child other otherName ↔ parent = other ∧ name = otherName := by
  constructor
  · intro heq
    have hparent := congrArg parent? heq
    have hlast := congrArg last heq
    rw [parent?_child h, parent?_child h'] at hparent
    rw [last_child h, last_child h'] at hlast
    exact ⟨Option.some.inj hparent, hlast⟩
  · rintro ⟨rfl, rfl⟩
    rfl

theorem valid_empty : Valid "" := by
  intro name h
  simp [segments] at h

theorem Valid.child {parent name : String} (hp : Valid parent) (hn : ValidName name) :
    Valid (child parent name) := by
  intro other hmem
  rw [segments_child hn] at hmem
  rcases List.mem_append.1 hmem with h | h
  · exact hp other h
  · rw [List.mem_singleton.1 h]
    exact hn

/-- Joining texts that are not empty and hold no separator, and splitting again, gives them back. -/
theorem segments_ofSegments_of_dotless {names : List String}
    (h : ∀ name ∈ names, name ≠ "" ∧ '.' ∉ name.toList) : segments (ofSegments names) = names := by
  rcases List.eq_nil_or_concat names with hnil | ⟨front, name, hfront⟩
  · subst hnil
    rfl
  · have hcons : names ≠ [] := by simp [hfront]
    have hsplit : Text.split '.' (ofSegments names) = names :=
      Text.split_join rfl (fun name hname => (h name hname).2) hcons
    -- The empty text has no segments, but splitting it gives one empty part.
    have hne : ofSegments names ≠ "" := by
      intro hempty
      rw [hempty] at hsplit
      have hsingle : names = [""] := by simpa [Text.split] using hsplit.symm
      exact (h "" (by simp [hsingle])).1 rfl
    simpa [segments, hne] using hsplit

/-- Joining valid names and splitting again gives the names back. -/
theorem segments_ofSegments {names : List String} (h : ∀ name ∈ names, ValidName name) :
    segments (ofSegments names) = names :=
  segments_ofSegments_of_dotless fun name hname =>
    ⟨(h name hname).ne_empty, (h name hname).not_mem_dot⟩

/-- A valid path is the root or a valid name below a valid path. -/
theorem Valid.eq_child {path : String} (h : Valid path) (hne : path ≠ "") :
    ∃ parent name, Valid parent ∧ ValidName name ∧ path = Path.child parent name := by
  rcases List.eq_nil_or_concat (segments path) with hnil | ⟨front, name, hfront⟩
  · exact absurd (segments_eq_nil_iff.1 hnil) hne
  · have hname : ValidName name := h name (by simp [hfront])
    have hfrontValid : ∀ other ∈ front, ValidName other :=
      fun other hmem => h other (by simp [hfront, hmem])
    have hparent : segments (ofSegments front) = front := segments_ofSegments hfrontValid
    refine ⟨ofSegments front, name, ?_, hname, ?_⟩
    · intro other hmem
      rw [hparent] at hmem
      exact hfrontValid other hmem
    · apply segments_injective
      rw [segments_child hname, hparent, hfront, List.concat_eq_append]

/-- A path is the child of its parent, or it is a name after a single dot. -/
theorem eq_child_or_dot {path parent : String} (h : parent? path = some parent) :
    path = child parent (last path) ∨ parent = "" ∧ path = "." ++ last path := by
  have hne : path ≠ "" := by
    rintro rfl
    simp [parent?] at h
  rcases List.eq_nil_or_concat (Text.split '.' path) with hnil | ⟨front, name, hfront⟩
  · simp [Text.split] at hnil
  · have hparent : ofSegments front = parent := by simpa [parent?, hne, hfront] using h
    have hlast : last path = name := by simp [last, hfront]
    -- The parts before the last one are what `parent?` joins again.
    have hpath : ofSegments (front ++ [name]) = path := by
      rw [← List.concat_eq_append, ← hfront]
      exact ofSegments_split path
    cases front with
    | nil =>
        have hroot : parent = "" := by simpa [ofSegments, Text.join] using hparent.symm
        left
        simpa [hlast, child, hroot, ofSegments, Text.join] using hpath.symm
    | cons first rest =>
        have hjoin : path = parent ++ "." ++ name := by
          rw [← hpath, ← hparent, ofSegments, ofSegments, Text.join, Text.join,
            String.intercalate_append_of_ne_nil (by simp) (by simp)]
          simp
        -- More than one part and still the root as parent: the part in front is empty.
        by_cases hroot : parent = ""
        · exact Or.inr ⟨hroot, by simpa [hroot, hlast] using hjoin⟩
        · exact Or.inl (by simpa [child, hroot, hlast] using hjoin)

/-- What holds of the root, and of a child whenever it holds of its parent, holds of every valid
path. -/
theorem Valid.induction {motive : (path : String) → Valid path → Prop}
    (root : motive "" valid_empty)
    (child : ∀ (parent name : String) (hp : Valid parent) (hn : ValidName name), motive parent hp →
      motive (Path.child parent name) (hp.child hn))
    {path : String} (h : Valid path) : motive path h := by
  -- A path is no inductive type; the induction is on the number of its segments.
  generalize hn : (segments path).length = n
  induction n generalizing path with
  | zero =>
      have hroot : path = "" := segments_eq_nil_iff.1 (List.length_eq_zero_iff.1 hn)
      subst hroot
      exact root
  | succ n ih =>
      have hne : path ≠ "" := by
        rintro rfl
        simp [segments] at hn
      rcases h.eq_child hne with ⟨parent, name, hparent, hname, rfl⟩
      have hlength : (segments parent).length = n := by
        simpa [segments_child hname] using hn
      exact child parent name hparent hname (ih hparent hlength)

theorem foldl_child_segments {path : String} (h : Valid path) :
    (segments path).foldl child "" = path := by
  induction h using Valid.induction with
  | root =>
      rfl
  | child parent name _ hn ih =>
      rw [segments_child hn, List.foldl_append, ih]
      rfl

/-! ## Below a path -/

/-- The rest of a path below another one begins with the separator, if it is not empty. -/
def IsTail (rest : List Char) : Prop :=
  rest = [] ∨ ∃ more, rest = '.' :: more

/-- What a path leaves below another is a tail of it. -/
theorem below?_eq_some_iff {path ancestor : String} (h : ancestor ≠ "") {rest : List Char} :
    below? path ancestor = some rest ↔ path.toList = ancestor.toList ++ rest ∧ IsTail rest := by
  unfold below? IsTail
  simp only [h, if_false]
  cases hdrop : Text.dropPrefix? ancestor.toList path.toList with
  | none =>
      have hno : path.toList ≠ ancestor.toList ++ rest := by
        intro heq
        rw [Text.dropPrefix?_eq_some_iff.2 heq] at hdrop
        cases hdrop
      simp [hno]
  | some found =>
      have hpath : path.toList = ancestor.toList ++ found := Text.dropPrefix?_eq_some_iff.1 hdrop
      rw [hpath]
      -- What follows the ancestor counts when it is empty or begins with the separator.
      cases found with
      | nil =>
          simp only [Option.some.injEq, List.append_nil]
          constructor
          · rintro rfl
            simp
          · rintro ⟨heq, -⟩
            simpa using heq
      | cons c more =>
          by_cases hc : c = '.'
          · subst hc
            simp only [if_true, Option.some.injEq, List.append_cancel_left_eq]
            constructor
            · rintro rfl
              exact ⟨rfl, Or.inr ⟨more, rfl⟩⟩
            · rintro ⟨heq, -⟩
              exact heq
          · simp only [hc, if_false, List.append_cancel_left_eq]
            constructor
            · intro hnone
              cases hnone
            · rintro ⟨rfl, hnil | ⟨_, hdot⟩⟩
              · cases hnil
              · exact absurd (List.cons.inj hdot).1 hc

/-- A path is within another when it goes on with a tail. -/
theorem isWithin_iff {path ancestor : String} (h : ancestor ≠ "") :
    isWithin path ancestor = true ↔
      ∃ rest, path.toList = ancestor.toList ++ rest ∧ IsTail rest := by
  simp only [isWithin, Option.isSome_iff_exists, below?_eq_some_iff h]

@[simp] theorem isWithin_root (path : String) : isWithin path "" = true := by
  simp [isWithin, below?]

@[simp] theorem isWithin_self (path : String) : isWithin path path = true := by
  by_cases h : path = ""
  · subst h
    simp
  · exact (isWithin_iff h).2 ⟨[], by simp, Or.inl rfl⟩

theorem IsTail.append {front back : List Char} (h : IsTail front) (h' : IsTail back) :
    IsTail (front ++ back) := by
  rcases h with rfl | ⟨more, rfl⟩
  · simpa using h'
  · exact Or.inr ⟨more ++ back, by simp⟩

theorem IsTail.of_append {rest front back : List Char} (htail : IsTail rest)
    (h : rest = front ++ back) : IsTail front := by
  cases front with
  | nil =>
      exact Or.inl rfl
  | cons c front =>
      rcases htail with hnil | ⟨more, hmore⟩
      · rw [hnil] at h
        cases h
      · rw [hmore] at h
        rw [← (List.cons.inj h).1]
        exact Or.inr ⟨front, rfl⟩

theorem isWithin_trans {a b c : String} (hab : isWithin a b = true) (hbc : isWithin b c = true) :
    isWithin a c = true := by
  by_cases hc : c = ""
  · subst hc
    simp
  · rcases (isWithin_iff hc).1 hbc with ⟨back, hback, htailBack⟩
    have hb : b ≠ "" := by
      rintro rfl
      have hnil : c.toList = [] := (List.append_eq_nil_iff.1 (by simpa using hback.symm)).1
      exact hc (String.toList_injective (by simpa using hnil))
    rcases (isWithin_iff hb).1 hab with ⟨front, hfront, htailFront⟩
    refine (isWithin_iff hc).2 ⟨back ++ front, ?_, htailBack.append htailFront⟩
    rw [hfront, hback, List.append_assoc]

theorem isWithin_empty_iff {ancestor : String} : isWithin "" ancestor = true ↔ ancestor = "" := by
  constructor
  · intro h
    by_cases ha : ancestor = ""
    · exact ha
    · rcases (isWithin_iff ha).1 h with ⟨rest, hrest, -⟩
      have hnil : ancestor.toList = [] := (List.append_eq_nil_iff.1 (by simpa using hrest.symm)).1
      exact String.toList_injective (by simpa using hnil)
  · rintro rfl
    simp

theorem isWithin_antisymm {a b : String} (hab : isWithin a b = true) (hba : isWithin b a = true) :
    a = b := by
  by_cases ha : a = ""
  · subst ha
    exact (isWithin_empty_iff.1 hab).symm
  · by_cases hb : b = ""
    · subst hb
      exact isWithin_empty_iff.1 hba
    · rcases (isWithin_iff hb).1 hab with ⟨front, hfront, -⟩
      rcases (isWithin_iff ha).1 hba with ⟨back, hback, -⟩
      -- Each text begins with the other one, so neither can be longer.
      have hlength : b.toList.length = b.toList.length + front.length + back.length := by
        conv_lhs => rw [hback, hfront]
        simp only [List.length_append]
      have hnil : back = [] := List.length_eq_zero_iff.1 (by omega)
      apply String.toList_injective
      rw [hback, hnil, List.append_nil]

/-- Of two paths around the same one, one is within the other. -/
theorem isWithin_or_isWithin {path a b : String} (ha : isWithin path a = true)
    (hb : isWithin path b = true) : isWithin a b = true ∨ isWithin b a = true := by
  by_cases ha' : a = ""
  · subst ha'
    exact Or.inr (by simp)
  · by_cases hb' : b = ""
    · subst hb'
      exact Or.inl (by simp)
    · rcases (isWithin_iff ha').1 ha with ⟨restA, hrestA, htailA⟩
      rcases (isWithin_iff hb').1 hb with ⟨restB, hrestB, htailB⟩
      have heq : a.toList ++ restA = b.toList ++ restB := by rw [← hrestA, ← hrestB]
      -- The longer of the two texts is the shorter one and a piece of what follows it.
      rcases List.append_eq_append_iff.1 heq with
        ⟨middle, hmiddle, hrest⟩ | ⟨middle, hmiddle, hrest⟩
      · refine Or.inr ((isWithin_iff ha').2 ⟨middle, hmiddle, ?_⟩)
        exact htailA.of_append hrest
      · refine Or.inl ((isWithin_iff hb').2 ⟨middle, hmiddle, ?_⟩)
        exact htailB.of_append hrest

theorem toList_child {parent name : String} (h : parent ≠ "") :
    (child parent name).toList = parent.toList ++ '.' :: name.toList := by
  simp [child, h]

theorem isWithin_child (parent name : String) : isWithin (child parent name) parent = true := by
  by_cases h : parent = ""
  · subst h
    simp
  · exact (isWithin_iff h).2 ⟨'.' :: name.toList, toList_child h, Or.inr ⟨_, rfl⟩⟩

/-- A child is within exactly itself and what its parent is within. -/
theorem isWithin_child_iff {parent name ancestor : String} (h : ValidName name) :
    isWithin (child parent name) ancestor = true ↔
      child parent name = ancestor ∨ isWithin parent ancestor = true := by
  constructor
  · intro hwithin
    by_cases ha : ancestor = ""
    · subst ha
      exact Or.inr (by simp)
    · rcases isWithin_or_isWithin hwithin (isWithin_child parent name) with hinner | hinner
      · rcases (isWithin_iff ha).1 hwithin with ⟨rest, hrest, hnil | ⟨more, hmore⟩⟩
        · exact Or.inl (String.toList_injective (by simpa [hnil] using hrest))
        · -- A separator after `ancestor`, which reaches beyond `parent`, would lie in the name.
          by_cases hp : parent = ancestor
          · exact Or.inr (hp ▸ isWithin_self parent)
          · exfalso
            apply h.not_mem_dot
            by_cases hroot : parent = ""
            · subst hroot
              have : name.toList = ancestor.toList ++ '.' :: more := by
                simpa [child, hmore] using hrest
              simp [this]
            · rcases (isWithin_iff hroot).1 hinner with ⟨middle, hmiddle, hnil | ⟨middle, rfl⟩⟩
              · exact absurd (String.toList_injective (by simpa [hnil] using hmiddle.symm)) hp
              · rw [toList_child hroot, hmiddle, hmore, List.append_assoc,
                  List.append_cancel_left_eq, List.cons_append] at hrest
                rw [(List.cons.inj hrest).2]
                simp
      · exact Or.inr hinner
  · rintro (rfl | hparent)
    · exact isWithin_self _
    · exact isWithin_trans (isWithin_child parent name) hparent

theorem isWithin_foldl_child (names : List String) (path : String) :
    isWithin (names.foldl child path) path = true := by
  induction names generalizing path with
  | nil =>
      simp
  | cons name rest ih =>
      exact isWithin_trans (ih (child path name)) (isWithin_child path name)

theorem child_ne_self {parent name : String} (h : ValidName name) : child parent name ≠ parent := by
  intro heq
  have hlength := congrArg (fun path => (segments path).length) heq
  simp [segments_child h] at hlength

theorem not_isWithin_child {parent name : String} (h : ValidName name) :
    ¬ isWithin parent (child parent name) = true :=
  fun hwithin => child_ne_self h (isWithin_antisymm (isWithin_child parent name) hwithin)

/-! ## Outside of a path -/

theorem ne_of_isWithin {a b root : String} (ha : isWithin a root = true)
    (hb : isWithin b root = false) : a ≠ b := by
  intro heq
  rw [heq, hb] at ha
  cases ha

/-- What contains a path that is not within `root` is not within it either. -/
theorem isWithin_eq_false_of_isWithin {path ancestor root : String}
    (h : isWithin path ancestor = true) (hpath : isWithin path root = false) :
    isWithin ancestor root = false := by
  by_contra hin
  have hback : isWithin path root = true := isWithin_trans h (by simpa using hin)
  rw [hpath] at hback
  cases hback

/-- What is not within `root` is not within anything that is. -/
theorem isWithin_eq_false_of_outside {path inner root : String} (h : isWithin inner root = true)
    (hpath : isWithin path root = false) : isWithin path inner = false := by
  by_contra hin
  have hback : isWithin path root = true := isWithin_trans (by simpa using hin) h
  rw [hpath] at hback
  cases hback

theorem isWithin_empty_eq_false {root : String} (h : root ≠ "") : isWithin "" root = false := by
  simpa using mt isWithin_empty_iff.1 h

theorem isWithin_parent_eq_false {path parent name : String} (h : ValidName name)
    (hpath : path = child parent name) : isWithin parent path = false := by
  rw [hpath]
  simpa using not_isWithin_child h

/-- A child is outside of a root when its parent is, unless it is the root itself. -/
theorem isWithin_child_eq_false {parent name root : String} (h : ValidName name)
    (hparent : isWithin parent root = false) (hne : child parent name ≠ root) :
    isWithin (child parent name) root = false := by
  by_contra hin
  rcases (isWithin_child_iff h).1 (by simpa using hin) with heq | hwithin
  · exact hne heq
  · rw [hparent] at hwithin
    cases hwithin

/-- No path is within two children of one path. -/
theorem name_eq_of_isWithin_child {path parent name other : String} (hname : ValidName name)
    (hother : ValidName other) (h : isWithin path (child parent name) = true)
    (h' : isWithin path (child parent other) = true) : name = other := by
  have hapart : ∀ {a b : String}, ValidName a → ValidName b →
      isWithin (child parent a) (child parent b) = true → a = b := by
    intro a b ha hb hwithin
    rcases (isWithin_child_iff ha).1 hwithin with heq | hparent
    · exact ((child_inj ha hb).1 heq).2
    · exact absurd hparent (not_isWithin_child hb)
  rcases isWithin_or_isWithin h h' with hwithin | hwithin
  · exact hapart hname hother hwithin
  · exact (hapart hother hname hwithin).symm

/-- On the way from a path to one strictly within it there is a first child. -/
theorem Valid.exists_child {path ancestor : String} (h : Valid path)
    (hwithin : isWithin path ancestor = true) (hne : path ≠ ancestor) :
    ∃ name, ValidName name ∧ isWithin path (Path.child ancestor name) = true := by
  induction h using Valid.induction with
  | root =>
      exact absurd (isWithin_empty_iff.1 hwithin).symm hne
  | child parent name _ hname ih =>
      rcases (isWithin_child_iff hname).1 hwithin with heq | hparent
      · exact absurd heq hne
      · -- Right below `ancestor` the name is the one that is looked for.
        by_cases hself : parent = ancestor
        · subst hself
          exact ⟨name, hname, isWithin_self _⟩
        · rcases ih hparent hself with ⟨first, hfirst, hbelow⟩
          exact ⟨first, hfirst, isWithin_trans (isWithin_child parent name) hbelow⟩

/-- What is within a path is no shorter. -/
theorem length_le_of_isWithin {path ancestor : String} (h : isWithin path ancestor = true) :
    ancestor.length ≤ path.length := by
  by_cases ha : ancestor = ""
  · subst ha
    simp
  · rcases (isWithin_iff ha).1 h with ⟨rest, hrest, -⟩
    rw [← String.length_toList, ← String.length_toList, hrest, List.length_append]
    omega

theorem length_lt_child {parent name : String} (h : ValidName name) :
    parent.length < (child parent name).length := by
  have hname : 0 < name.length := by
    rw [← String.length_toList]
    refine List.length_pos_iff.2 fun hnil => h.ne_empty ?_
    exact String.toList_injective (by simpa using hnil)
  by_cases hp : parent = ""
  · subst hp
    simpa [child] using hname
  · have hlength := congrArg List.length (@toList_child parent name hp)
    simp only [String.length_toList, List.length_append, List.length_cons] at hlength
    omega

/-! ## Rebasing -/

/-- A rebased path has the new path in front of the tail that the old one left. -/
theorem rebase?_eq_some_iff {old new path moved : String} (h : old ≠ "") :
    rebase? old new path = some moved ↔
      ∃ rest, path.toList = old.toList ++ rest ∧ moved.toList = new.toList ++ rest ∧
        IsTail rest := by
  simp only [rebase?, Option.map_eq_some_iff, below?_eq_some_iff h]
  constructor
  · rintro ⟨rest, ⟨hpath, htail⟩, rfl⟩
    exact ⟨rest, hpath, by simp, htail⟩
  · rintro ⟨rest, hpath, hmoved, htail⟩
    exact ⟨rest, ⟨hpath, htail⟩, String.toList_injective (by simpa using hmoved.symm)⟩

theorem rebase?_eq_none_iff {old new path : String} :
    rebase? old new path = none ↔ isWithin path old = false := by
  simp [rebase?, isWithin]

theorem rebase?_self {old new : String} (h : old ≠ "") : rebase? old new old = some new :=
  (rebase?_eq_some_iff h).2 ⟨[], by simp, by simp, Or.inl rfl⟩

/-- Rebasing back undoes rebasing. -/
theorem rebase?_symm {old new path moved : String} (hold : old ≠ "") (hnew : new ≠ "") :
    rebase? old new path = some moved ↔ rebase? new old moved = some path := by
  rw [rebase?_eq_some_iff hold, rebase?_eq_some_iff hnew]
  constructor
  · rintro ⟨rest, hpath, hmoved, htail⟩
    exact ⟨rest, hmoved, hpath, htail⟩
  · rintro ⟨rest, hmoved, hpath, htail⟩
    exact ⟨rest, hpath, hmoved, htail⟩

/-- A rebased path was within the old one. -/
theorem isWithin_of_rebase? {old new path moved : String} (h : rebase? old new path = some moved) :
    isWithin path old = true := by
  by_cases hwithin : isWithin path old = true
  · exact hwithin
  · rw [rebase?_eq_none_iff.2 (by simpa using hwithin)] at h
    cases h

/-- Within a path, rebasing to the same path changes nothing. -/
theorem rebase?_same_iff {root path moved : String} (h : root ≠ "") :
    rebase? root root path = some moved ↔ moved = path ∧ isWithin path root = true := by
  constructor
  · intro hmoved
    rcases (rebase?_eq_some_iff h).1 hmoved with ⟨rest, hpath, hafter, -⟩
    exact ⟨String.toList_injective (hafter.trans hpath.symm), isWithin_of_rebase? hmoved⟩
  · rintro ⟨rfl, hwithin⟩
    rcases (isWithin_iff h).1 hwithin with ⟨rest, hpath, htail⟩
    exact (rebase?_eq_some_iff h).2 ⟨rest, hpath, hpath, htail⟩

/-- A rebased path is within the new one. -/
theorem isWithin_rebase? {old new path moved : String} (hold : old ≠ "") (hnew : new ≠ "")
    (h : rebase? old new path = some moved) : isWithin moved new = true :=
  isWithin_of_rebase? ((rebase?_symm hold hnew).1 h)

/-- Different paths are rebased to different ones. -/
theorem rebase?_inj {old new path other moved : String} (hold : old ≠ "") (hnew : new ≠ "")
    (h : rebase? old new path = some moved) (h' : rebase? old new other = some moved) :
    path = other := by
  have hpath := (rebase?_symm hold hnew).1 h
  have hother := (rebase?_symm hold hnew).1 h'
  exact Option.some.inj (hpath.symm.trans hother)

/-- Every path within the new one comes from one within the old one. -/
theorem exists_rebase? {old new moved : String} (hold : old ≠ "") (hnew : new ≠ "")
    (h : isWithin moved new = true) : ∃ path, rebase? old new path = some moved := by
  cases hpath : rebase? new old moved with
  | none =>
      rw [rebase?_eq_none_iff.1 hpath] at h
      cases h
  | some path =>
      exact ⟨path, (rebase?_symm hnew hold).1 hpath⟩

/-- Rebasing carries children to children. -/
theorem rebase?_child {old new parent moved name : String} (hold : old ≠ "") (hnew : new ≠ "")
    (h : rebase? old new parent = some moved) :
    rebase? old new (child parent name) = some (child moved name) := by
  rcases (rebase?_eq_some_iff hold).1 h with ⟨rest, hparent, hmoved, htail⟩
  -- Neither path is the root, so that both children are written with a separator.
  have hne : parent ≠ "" := by
    rintro rfl
    exact hold (isWithin_empty_iff.1 ((isWithin_iff hold).2 ⟨rest, hparent, htail⟩))
  have hne' : moved ≠ "" := by
    rintro rfl
    exact hnew (isWithin_empty_iff.1 ((isWithin_iff hnew).2 ⟨rest, hmoved, htail⟩))
  refine (rebase?_eq_some_iff hold).2 ⟨rest ++ '.' :: name.toList, ?_, ?_, ?_⟩
  · rw [toList_child hne, hparent, List.append_assoc]
  · rw [toList_child hne', hmoved, List.append_assoc]
  · exact htail.append (Or.inr ⟨_, rfl⟩)

/-- A valid path stays valid when it is rebased to a valid one. -/
theorem Valid.rebase? {old new path moved : String} (h : Valid path) (hold : old ≠ "")
    (hnew : Valid new) (hne : new ≠ "") (hmoved : Path.rebase? old new path = some moved) :
    Valid moved := by
  -- What is within `old` is `old` itself or hangs below a path that is.
  induction h using Valid.induction generalizing moved with
  | root =>
      exact absurd (isWithin_empty_iff.1 (isWithin_of_rebase? hmoved)) hold
  | child parent name _ hname ih =>
      rcases (isWithin_child_iff hname).1 (isWithin_of_rebase? hmoved) with heq | hwithin
      · rw [heq, rebase?_self hold, Option.some.injEq] at hmoved
        exact hmoved ▸ hnew
      · cases hparent : Path.rebase? old new parent with
        | none =>
            rw [rebase?_eq_none_iff.1 hparent] at hwithin
            cases hwithin
        | some movedParent =>
            rw [rebase?_child hold hne hparent, Option.some.injEq] at hmoved
            exact hmoved ▸ (ih hparent).child hname

end Path
end DesignTokens
