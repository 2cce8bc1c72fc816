import DesignTokens.Proofs.Edit
import DesignTokens.Proofs.File.UnixPath
import Mathlib.Algebra.Order.BigOperators.Group.List
import Mathlib.Algebra.Order.Ring.Nat

/-!
# Names of archived files

The components of a path and the slashes between them take no more bytes than the path itself, so
that a name has room in a header or its beginning has. What keeps a file out of an archive is
therefore only a zero byte.
-/

namespace DesignTokens

/-! ## Bytes of texts -/

def Text.byteCount (text : List Char) : Nat :=
  (text.map Char.utf8Size).sum

namespace Tar

variable {path content : String} {text : List Char} {field : List UInt8} {position : Nat}
  {pieces : List (List UInt8)} {archive later : Archive}

/-- What the loop of `ByteArray.toList` returns: the bytes in front, and those from position `i`
on. -/
theorem toList_loop (bytes : ByteArray) (i : Nat) (front : List UInt8) :
    ByteArray.toList.loop bytes i front = front.reverse ++ bytes.data.toList.drop i := by
  fun_induction ByteArray.toList.loop bytes i front with
  | case1 i front hi ih =>
      have hi' : i < bytes.data.toList.length := by simpa using hi
      rw [ih, List.drop_eq_getElem_cons hi']
      simp [ByteArray.get!, getElem!_pos, hi]
  | case2 i front hi =>
      have hi' : bytes.data.toList.length ≤ i := by simpa using hi
      simp [List.drop_eq_nil_of_le hi']

theorem bytesOf_eq (s : String) : bytesOf s = s.toList.flatMap String.utf8EncodeChar := by
  rw [bytesOf, ByteArray.toList, toList_loop]
  simp [String.toUTF8, ← String.utf8Encode_toList, List.utf8Encode]

theorem length_bytesOf (s : String) : (bytesOf s).length = Text.byteCount s.toList := by
  simp [bytesOf_eq, Text.byteCount, List.length_flatMap, String.length_utf8EncodeChar]

theorem utf8ByteSize_eq (s : String) : s.utf8ByteSize = Text.byteCount s.toList := by
  rw [String.utf8ByteSize, ← String.utf8Encode_toList]
  simp [List.utf8Encode, Text.byteCount, List.length_flatMap, String.length_utf8EncodeChar]

/-- A number that is no multiple of 256 does not wrap to the byte zero. -/
theorem ofNat_ne_zero {n : Nat} (h : n % 256 ≠ 0) : UInt8.ofNat n ≠ 0 := by
  intro hzero
  exact h (by simpa using congrArg UInt8.toNat hzero)

/-- Only the zero character is written with a zero byte. -/
theorem zero_notMem_utf8EncodeChar {c : Char} (hc : c ≠ '\x00') :
    0 ∉ String.utf8EncodeChar c := by
  have hval : c.val.toNat ≠ 0 := by
    intro hzero
    exact hc (Char.ext (UInt32.toNat_inj.1 hzero))
  -- The bytes of a character that takes more than one all have their highest bit.
  fun_cases String.utf8EncodeChar c
  all_goals
    simp only [List.mem_cons, List.not_mem_nil, or_false, not_or]
    repeat' constructor
    all_goals exact (ofNat_ne_zero (by omega)).symm

/-- Only a NUL character gives a zero byte. -/
theorem zero_notMem_bytesOf {s : String} (h : '\x00' ∉ s.toList) : 0 ∉ bytesOf s := by
  rw [bytesOf_eq]
  intro hmem
  rcases List.mem_flatMap.1 hmem with ⟨c, hc, hzero⟩
  exact zero_notMem_utf8EncodeChar (fun heq => h (heq ▸ hc)) hzero

/-! ## Pieces of names -/

/-- Cutting a text at its slashes keeps the bytes of the pieces and drops one byte for each
slash. -/
theorem sum_byteCount_splitOn (text : List Char) :
    ((text.splitOn '/').map Text.byteCount).sum + (text.splitOn '/').length =
      Text.byteCount text + 1 := by
  induction text with
  | nil =>
      rfl
  | cons c rest ih =>
      rw [List.splitOn_cons_eq_if_modifyHead]
      by_cases hslash : c = '/'
      · have hsize : Char.utf8Size '/' = 1 := by decide
        simp [hslash, Text.byteCount, hsize] at ih ⊢
        omega
      · rcases hsplit : rest.splitOn '/' with _ | ⟨first, more⟩
        · exact absurd hsplit (List.splitOn_ne_nil _ _)
        · rw [hsplit] at ih
          simp [hslash, Text.byteCount] at ih ⊢
          omega

theorem sum_byteCount_parts (path : String) :
    ((UnixPath.parts path).map fun part => Text.byteCount part.toList).sum +
      (UnixPath.parts path).length = Text.byteCount path.toList + 1 := by
  have h := sum_byteCount_splitOn path.toList
  simpa [UnixPath.parts, Text.split, Function.comp_def] using h

/-- The texts of a path's components are its parts without the empty and the `.` ones. -/
theorem map_text_filterMap (parts : List String) :
    (parts.filterMap UnixPath.component?).map (·.text) =
      parts.filter fun part => (UnixPath.component? part).isSome := by
  induction parts with
  | nil =>
      rfl
  | cons part rest ih =>
      cases hcomponent : UnixPath.component? part with
      | none =>
          simp [hcomponent, ih]
      | some component =>
          have htext : component.text = part := by
            rcases UnixPath.component?_eq_some_iff.1 hcomponent with
              ⟨rfl, rfl⟩ | ⟨-, -, -, rfl⟩ <;> rfl
          simp [hcomponent, ih, htext]

/-- A name in an archive is the path's anchor and its components; a path without components keeps
its `.`. -/
theorem exists_componentNames (path : String) :
    ∃ anchor body, UnixPath.parts path = anchor ++ body ∧ (body = [] → anchor = ["."]) ∧
      componentNames path =
        anchor ++ body.filter fun part => (UnixPath.component? part).isSome := by
  rw [componentNames, UnixPath.components]
  rcases UnixPath.anchored_cases (UnixPath.parts path) with
    ⟨second, rest, hparts, hanchored⟩ | ⟨rest, hparts, hanchored⟩ | ⟨-, -, hanchored⟩
  · refine ⟨[""], second :: rest, hparts, fun h => absurd h (List.cons_ne_nil second rest), ?_⟩
    simp only [hanchored, List.map_append, map_text_filterMap]
    rfl
  · -- Nothing has to come after a part `.` at the start.
    refine ⟨["."], rest, hparts, fun _ => rfl, ?_⟩
    simp only [hanchored, List.map_append, map_text_filterMap]
    rfl
  · refine ⟨[], UnixPath.parts path, rfl, fun h => absurd h (UnixPath.parts_ne_nil path), ?_⟩
    simp only [hanchored, List.map_append, map_text_filterMap]
    rfl

theorem componentNames_sublist (path : String) :
    (componentNames path).Sublist (UnixPath.parts path) := by
  rcases exists_componentNames path with ⟨anchor, body, hparts, -, hnames⟩
  rw [hparts, hnames]
  exact List.filter_sublist.append_left anchor

/-- A slash at the end leaves a part that is no component. -/
theorem componentNames_sublist_dropLast (h : path.toList.getLast? = some '/') :
    2 ≤ (UnixPath.parts path).length ∧
      (componentNames path).Sublist (UnixPath.parts path).dropLast := by
  rcases UnixPath.exists_parts_of_slash h with ⟨front, -, hempty⟩
  have hfront := List.length_pos_iff.2 (UnixPath.parts_ne_nil front)
  refine ⟨by simp [hempty]; omega, ?_⟩
  rcases exists_componentNames path with ⟨anchor, body, hparts, hbody, hnames⟩
  rcases List.eq_nil_or_concat body with hnil | ⟨init, last, hlast⟩
  · -- Only the part `.` could be the last one and a component.
    rw [hparts, hbody hnil, hnil, List.append_nil] at hempty
    have hsame := congrArg List.getLast? hempty
    simp at hsame
  · have hinit : UnixPath.parts path = (anchor ++ init) ++ [last] := by
      rw [hparts, hlast, List.concat_eq_append, List.append_assoc]
    have hsame := congrArg List.getLast? (hinit.symm.trans hempty)
    have hlastEmpty : last = "" := by simpa using hsame
    have hfilter : body.filter (fun part => (UnixPath.component? part).isSome) =
        init.filter fun part => (UnixPath.component? part).isSome := by
      simp [hlast, hlastEmpty, UnixPath.component?]
    rw [hinit, hnames, hfilter, List.dropLast_concat]
    exact List.filter_sublist.append_left anchor

/-- The length of pieces put together with a separator between them. -/
theorem sum_length_intersperse (separator : List UInt8) (pieces : List (List UInt8)) :
    ((pieces.intersperse separator).map List.length).sum =
      (pieces.map List.length).sum + (pieces.length - 1) * separator.length := by
  induction pieces with
  | nil =>
      simp
  | cons piece rest ih =>
      cases rest with
      | nil =>
          simp
      | cons second rest =>
          simp [Nat.add_mul] at ih ⊢
          omega

/-- The name of a path is no longer than the path. -/
theorem sum_length_namePieces_le (path : String) :
    ((namePieces path).map List.length).sum ≤ path.utf8ByteSize := by
  have hslash : (bytesOf "/").length = 1 := by decide +kernel
  have hparts := sum_byteCount_parts path
  have hpos := List.length_pos_iff.2 (UnixPath.parts_ne_nil path)
  have hend : ((if path.toList.getLast? = some '/' then [bytesOf "/"] else []).map
      List.length).sum = if path.toList.getLast? = some '/' then 1 else 0 := by
    split <;> simp [hslash]
  have hnames : ((namePieces path).map List.length).sum =
      ((componentNames path).map fun name => Text.byteCount name.toList).sum +
        ((componentNames path).length - 1) +
          if path.toList.getLast? = some '/' then 1 else 0 := by
    simp only [namePieces, List.map_append, List.sum_append, sum_length_intersperse, hslash, hend,
      List.map_map, List.length_map, Function.comp_def, length_bytesOf, Nat.mul_one]
  rw [hnames, utf8ByteSize_eq]
  -- There are fewer slashes than parts, and the slash at the end has a part that is no component.
  by_cases hlast : path.toList.getLast? = some '/'
  · rcases componentNames_sublist_dropLast hlast with ⟨htwo, hsub⟩
    have hlength := hsub.length_le
    have hsum := ((hsub.trans (List.dropLast_sublist _)).map
      fun name => Text.byteCount name.toList).sum_le_sum (by simp)
    rw [List.length_dropLast] at hlength
    rw [if_pos hlast]
    omega
  · have hsub := componentNames_sublist path
    have hlength := hsub.length_le
    have hsum := (hsub.map fun name => Text.byteCount name.toList).sum_le_sum (by simp)
    rw [if_neg hlast]
    omega

/-! ## Headers -/

/-- Overwriting within a field keeps the field's length. -/
theorem length_overwrite {bytes : List UInt8} (h : position + bytes.length ≤ field.length) :
    (overwrite field position bytes).length = field.length := by
  simp [overwrite]
  omega

theorem length_field_fill (hposition : position ≤ field.length) :
    (fill field position pieces).field.length = field.length := by
  fun_induction fill field position pieces with
  | case1 field position =>
      rfl
  | case2 field position piece rest room hroom =>
      rfl
  | case3 field position piece rest room hroom hzero =>
      rfl
  | case4 field position piece rest room hroom hzero ih =>
      -- The zero byte after a piece is left out where it has no room.
      have hlength : (overwrite field position ((piece ++ [0]).take room)).length = field.length :=
        length_overwrite (by simp [room]; omega)
      rw [← hlength]
      exact ih (by omega)

/-- Pieces without zero bytes go into a field that has room for all of them. -/
theorem fault_fill_eq_none
    (hroom : position + (pieces.map List.length).sum ≤ field.length)
    (hzero : ∀ piece ∈ pieces, 0 ∉ piece) :
    (fill field position pieces).fault = none := by
  fun_induction fill field position pieces with
  | case1 field position =>
      rfl
  | case2 field position piece rest room hfull =>
      simp at hroom
      omega
  | case3 field position piece rest room hfull hpiece =>
      exact absurd (List.contains_iff_mem.1 hpiece) (hzero piece List.mem_cons_self)
  | case4 field position piece rest room hfull hpiece ih =>
      have hlength : (overwrite field position ((piece ++ [0]).take room)).length = field.length :=
        length_overwrite (by simp [room]; omega)
      simp only [List.map_cons, List.sum_cons] at hroom
      exact ih (by omega) fun other hmem => hzero other (List.mem_cons_of_mem _ hmem)

theorem mem_intersperse {separator piece : List UInt8}
    (h : piece ∈ pieces.intersperse separator) : piece ∈ pieces ∨ piece = separator := by
  induction pieces with
  | nil =>
      cases h
  | cons first rest ih =>
      cases rest with
      | nil =>
          exact Or.inl h
      | cons second rest =>
          rw [List.intersperse_cons_cons] at h
          simp only [List.mem_cons] at h ih ⊢
          rcases h with hfirst | hseparator | hrest
          · exact Or.inl (Or.inl hfirst)
          · exact Or.inr hseparator
          · exact (ih hrest).imp Or.inr id

theorem zero_notMem_namePieces (h : '\x00' ∉ path.toList) :
    ∀ piece ∈ namePieces path, 0 ∉ piece := by
  have hslash : 0 ∉ bytesOf "/" := zero_notMem_bytesOf (by decide)
  intro piece hpiece
  rcases List.mem_append.1 hpiece with hname | hend
  · rcases mem_intersperse hname with hname | rfl
    · rcases List.mem_map.1 hname with ⟨name, hmem, rfl⟩
      have hpart := (componentNames_sublist path).subset hmem
      exact zero_notMem_bytesOf fun hzero => h (UnixPath.mem_of_mem_parts hpart hzero)
    · exact hslash
  · split at hend
    · rw [List.mem_singleton.1 hend]
      exact hslash
    · cases hend

/-- A path without a NUL that is short enough fills a field without a fault. -/
theorem fault_fill_namePieces_eq_none (h : '\x00' ∉ path.toList)
    (hsize : path.utf8ByteSize ≤ field.length) : (fill field 0 (namePieces path)).fault = none := by
  have hpieces := sum_length_namePieces_le path
  exact fault_fill_eq_none (by omega) (zero_notMem_namePieces h)

theorem byteCount_takeBytes_le (room : Nat) (text : List Char) :
    Text.byteCount (takeBytes room text) ≤ room := by
  fun_induction takeBytes room text with
  | case1 room =>
      simp [Text.byteCount]
  | case2 room c rest hroom ih =>
      simp only [Text.byteCount, List.map_cons, List.sum_cons] at ih ⊢
      omega
  | case3 room c rest hroom =>
      simp [Text.byteCount]

theorem prefix_takeBytes (room : Nat) (text : List Char) : takeBytes room text <+: text := by
  fun_induction takeBytes room text with
  | case1 room =>
      exact List.prefix_rfl
  | case2 room c rest hroom ih =>
      exact (List.prefix_cons_inj c).2 ih
  | case3 room c rest hroom =>
      exact List.nil_prefix

/-! ## Records -/

namespace Archive

def contents (archive : Archive) : List String :=
  (archive.records.filter (·.kind = .file)).map (·.content)

/-- A file without zero characters in its path always goes into an archive. -/
theorem exists_run_append (h : '\x00' ∉ path.toList) (content : String) (archive : Archive) :
    ∃ later, (append path content).run archive = .ok () later := by
  have hlength : (zeros nameSize).length = nameSize := List.length_replicate
  have hfits : path.utf8ByteSize ≤ nameSize →
      (fill (zeros nameSize) 0 (namePieces path)).fault.isNone = true := by
    intro hsize
    rw [fault_fill_namePieces_eq_none h (hsize.trans_eq hlength.symm)]
    rfl
  -- The beginning of a long name has room where the whole name has none.
  have hstart : (fill (fill (zeros nameSize) 0 (namePieces path)).field 0
      (namePieces (String.ofList (takeBytes nameSize path.toList)))).fault = none := by
    apply fault_fill_namePieces_eq_none
    · rw [String.toList_ofList]
      exact fun hzero => h ((prefix_takeBytes nameSize path.toList).subset hzero)
    · rw [length_field_fill (Nat.zero_le _), hlength, utf8ByteSize_eq, String.toList_ofList]
      exact byteCount_takeBytes_le nameSize path.toList
  unfold append
  by_cases hname : (fill (zeros nameSize) 0 (namePieces path)).fault.isNone
  · rw [if_pos hname]
    exact ⟨_, rfl⟩
  · have hlong : ¬ path.utf8ByteSize < nameSize := fun hsize => hname (hfits hsize.le)
    rw [if_neg hname, if_neg hlong]
    simp only [hstart]
    exact ⟨_, rfl⟩

/-- A file that goes into an archive comes after those that are there. -/
theorem contents_of_run_append {u : Unit} (h : (append path content).run archive = .ok u later) :
    later.contents = archive.contents ++ [content] := by
  simp only [append] at h
  by_cases hname : (fill (zeros nameSize) 0 (namePieces path)).fault.isNone
  · rw [if_pos hname, record, Edit.run_modify_eq_ok] at h
    simp [← h, contents, push]
  · rw [if_neg hname] at h
    by_cases hshort : path.utf8ByteSize < nameSize
    · rw [if_pos hshort] at h
      exact (Edit.run_throw_eq_ok.1 h).elim
    · -- The record of the long name is no file.
      simp only [hshort, if_false, record, Edit.run_modify_bind_eq_ok, Edit.run_guard_eq_ok,
        Edit.run_modify_eq_ok] at h
      simp [← h.2, contents, push]

end Archive
end Tar
end DesignTokens
