import DesignTokens.Json.Decode
import DesignTokens.Proofs.Entries
import DesignTokens.Proofs.Sequence

/-!
# Reading back what is written

The readers of scalars, choices and lists give back what is written for a value of their kind. The
readers of records take the value of a field, or the default of a field that was left out, as long
as no field is given twice.
-/

namespace DesignTokens
namespace Json
namespace Decode

variable {α β : Type} {fields : List (String × Json)} {name : String} {value : Json}
  {read : Json → Decoded α} {write : α → Json} {a : α}

@[simp] theorem ok_bind (a : α) (next : α → Decoded β) : ((.ok a : Decoded α) >>= next) = next a :=
  rfl

@[simp] theorem pure_eq_ok (a : α) : (pure a : Decoded α) = .ok a :=
  rfl

/-! ## Scalars and choices -/

@[simp] theorem text_string (text : String) : Decode.text (.string text) = .ok text :=
  rfl

@[simp] theorem bool_bool (b : Bool) : Decode.bool (.bool b) = .ok b :=
  rfl

theorem int32_toInt (n : Int32) : int32 (.number (.int n.toInt)) = .ok n := by
  have hlow : -2147483648 ≤ n.toInt := Int32.le_toInt n
  have hhigh : n.toInt ≤ 2147483647 := Int.le_of_lt_add_one (Int32.toInt_lt n)
  rw [int32, intBetween, if_pos ⟨hlow, hhigh⟩]
  exact congrArg Except.ok (Int32.ofInt_toInt n)

/-- A finite float is read back from its number. -/
theorem float_ofFloat {x : Float} (h : x.isFinite = true) : float (ofFloat x) = .ok x := by
  simp [ofFloat, h, float, Number.toFloat]

theorem option_eq_ok (hvalue : value ≠ .null) (h : read value = .ok a) :
    option read value = .ok (some a) := by
  unfold option
  split
  · exact absurd rfl hvalue
  · rw [h]
    rfl

theorem choice_string {of : String → Option α} {name : String} (h : of name = some a) :
    choice of (.string name) = .ok a := by
  show known of name = .ok a
  rw [known, h]

theorem fieldChoice_string {of : String → Option α} {name : String} (h : of name = some a) :
    fieldChoice of (.string name) = .ok a := by
  show known of name = .ok a
  rw [known, h]

/-! ## Lists -/

/-- A list is read back when each of its items is. -/
theorem list_array {items : List α} (h : ∀ a ∈ items, read (write a) = .ok a) :
    list read (.array (items.map write)) = .ok items := by
  rw [list, List.mapM_map]
  exact Sequence.mapM_eq_pure_self h

/-- Each item that is read is read from some value. -/
theorem exists_of_mem_list {items : List α} (h : list read value = .ok items) (hmem : a ∈ items) :
    ∃ item, read item = .ok a := by
  cases value with
  | array values =>
      rcases Sequence.exists_of_mapM_eq_ok h hmem with ⟨item, -, hitem⟩
      exact ⟨item, hitem⟩
  | _ =>
      cases h

theorem list_ofTexts (texts : List String) : list Decode.text (.ofTexts texts) = .ok texts :=
  list_array fun text _ => text_string text

/-- An object is read back when each of its values is. -/
theorem entries_object {pairs : List (String × α)}
    (h : ∀ pair ∈ pairs, read (write pair.2) = .ok pair.2) :
    entries read (.object (pairs.map fun pair => (pair.1, write pair.2))) = .ok pairs := by
  have hpairs : ∀ pair ∈ pairs, (do return (pair.1, ← read (write pair.2)) : Decoded _) =
      pure pair := by
    intro pair hmem
    rw [h pair hmem]
    rfl
  calc
    entries read (.object (pairs.map fun pair => (pair.1, write pair.2)))
        = (pairs.map fun pair => (pair.1, write pair.2)).mapM fun pair =>
            (do return (pair.1, ← read pair.2) : Decoded _) := rfl
    _ = pairs.mapM fun pair => (do return (pair.1, ← read (write pair.2)) : Decoded _) :=
        List.mapM_map
    _ = .ok pairs := Sequence.mapM_eq_pure_self hpairs

/-! ## Fields -/

/-- A map without repeated names has one entry of a name at most. -/
theorem filter_eq_of_nodup (h : (Entries.keys fields).Nodup) (name : String) :
    fields.filter (·.1 = name) =
      ((Entries.get? fields name).map fun value => (name, value)).toList := by
  induction fields with
  | nil =>
      rfl
  | cons field rest ih =>
      rcases field with ⟨first, value⟩
      rcases List.nodup_cons.1 h with ⟨hfresh, hrest⟩
      by_cases hname : first = name
      · subst hname
        have hnone : rest.filter (·.1 = first) = [] := by
          rw [ih hrest, Entries.get?_eq_none_iff.2 hfresh]
          rfl
        simp [Entries.get?, hnone]
      · simpa [Entries.get?, hname] using ih hrest

/-- A field is read from some value unless it has its default. -/
theorem fieldOr_cases {default : α} (h : fieldOr fields name default read = .ok a) :
    a = default ∨ ∃ value, read value = .ok a := by
  unfold fieldOr at h
  cases hfound : find? fields name with
  | error e =>
      rw [hfound] at h
      cases h
  | ok found =>
      rw [hfound] at h
      cases found with
      | none =>
          exact Or.inl (Except.ok.inj h).symm
      | some value =>
          exact Or.inr ⟨value, h⟩

section

variable (h : (Entries.keys fields).Nodup)

include h

theorem find?_eq_ok (name : String) : find? fields name = .ok (Entries.get? fields name) := by
  unfold find?
  rw [filter_eq_of_nodup h]
  cases Entries.get? fields name <;> rfl

/-- A field that is there is read from its value. -/
theorem field_eq_ok (hvalue : Entries.get? fields name = some value) (hread : read value = .ok a) :
    field fields name read = .ok a := by
  rw [field, find?_eq_ok h, hvalue]
  exact hread

/-- A field with a default that is there is read from its value. -/
theorem fieldOr_eq_ok (hvalue : Entries.get? fields name = some value) (hread : read value = .ok a)
    (default : α) : fieldOr fields name default read = .ok a := by
  rw [fieldOr, find?_eq_ok h, hvalue]
  exact hread

/-- A field that is missing has its default. -/
theorem fieldOr_eq_default (hvalue : Entries.get? fields name = none) (default : α) :
    fieldOr fields name default read = .ok default := by
  rw [fieldOr, find?_eq_ok h, hvalue]
  rfl

/-- Texts that are left out when there are none. -/
theorem fieldOr_texts {texts : List String}
    (hvalue : Entries.get? fields name = if texts.isEmpty then none else some (.ofTexts texts)) :
    fieldOr fields name [] (list Decode.text) = .ok texts := by
  cases texts with
  | nil =>
      exact fieldOr_eq_default h hvalue []
  | cons first rest =>
      exact fieldOr_eq_ok h hvalue (list_ofTexts _) []

/-- A value that is left out when there is none. -/
theorem fieldOption_eq_ok {written : Option α}
    (hvalue : Entries.get? fields name = written.map write)
    (hread : ∀ a ∈ written, write a ≠ .null ∧ read (write a) = .ok a) :
    fieldOption fields name read = .ok written := by
  cases written with
  | none =>
      exact fieldOr_eq_default h hvalue none
  | some a =>
      rcases hread a rfl with ⟨hnull, hread⟩
      exact fieldOr_eq_ok h hvalue (option_eq_ok hnull hread) none

end

end Decode
end Json
end DesignTokens
