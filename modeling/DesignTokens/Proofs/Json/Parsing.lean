import DesignTokens.Json.Parser
import DesignTokens.Proofs.Json.Proper

/-!
# Documents are proper

Whatever text is accepted as a document, its value is proper. Integers out of the range of 64 bits
become floating-point numbers, numbers beyond the largest floating-point number are refused, and
repeated fields are collapsed. The proof goes along the grammar: each reader gives what it should if
the readers that it is made of do.
-/

namespace DesignTokens

/-- All values that a reader can give have a property. -/
def Text.Reader.Gives {α : Type} (reader : Text.Reader α) (property : α → Prop) : Prop :=
  ∀ s a rest, reader s = some (a, rest) → property a

namespace Json
namespace Parser

open Text (Reader)

variable {α β ν : Type} {reader : Reader α} {property : α → Prop}

theorem gives_map {f : α → β} {property : β → Prop} (h : reader.Gives fun a => property (f a)) :
    (reader.map f).Gives property := by
  intro s b rest hread
  unfold Reader.map at hread
  split at hread
  · rename_i a rest' ha
    cases hread
    exact h s a _ ha
  · cases hread

/-! ## Lists of things -/

/-- What a reader gives of its items holds of every item read. -/
theorem gives_items (h : reader.Gives property) (n : Nat) :
    (items reader n).Gives fun found => ∀ a ∈ found, property a := by
  induction n with
  | zero =>
      intro s found rest hread
      cases hread
  | succ n ih =>
      intro s found rest hread
      simp only [items, Option.bind_eq_bind, Option.bind_eq_some_iff] at hread
      rcases hread with ⟨⟨first, s'⟩, hfirst, hread⟩
      have hproperty := h s first s' hfirst
      -- A comma goes on with more items, a bracket ends them.
      split at hread
      · rcases Option.bind_eq_some_iff.1 hread with ⟨⟨later, s''⟩, hlater, hread⟩
        cases hread
        exact List.forall_mem_cons.2 ⟨hproperty, ih _ later _ hlater⟩
      · cases hread
        exact List.forall_mem_singleton.2 hproperty
      · cases hread

theorem gives_fields (h : reader.Gives property) (n : Nat) :
    (fields reader n).Gives fun found => ∀ a ∈ found, property a := by
  induction n with
  | zero =>
      intro s found rest hread
      cases hread
  | succ n ih =>
      intro s found rest hread
      simp only [fields, Option.bind_eq_bind, Option.bind_eq_some_iff] at hread
      rcases hread with ⟨⟨first, s'⟩, hfirst, hread⟩
      have hproperty := h s first s' hfirst
      -- A comma goes on with more fields, a brace ends them.
      split at hread
      · rcases Option.bind_eq_some_iff.1 hread with ⟨⟨later, s''⟩, hlater, hread⟩
        cases hread
        exact List.forall_mem_cons.2 ⟨hproperty, ih _ later _ hlater⟩
      · cases hread
        exact List.forall_mem_singleton.2 hproperty
      · cases hread

theorem gives_arrayRest (h : reader.Gives property) :
    (arrayRest reader).Gives fun found => ∀ a ∈ found, property a := by
  intro s found rest hread
  unfold arrayRest at hread
  split at hread
  · cases hread
    exact List.forall_mem_nil _
  · exact gives_items h _ _ _ _ hread

theorem gives_objectRest (h : reader.Gives property) :
    (objectRest reader).Gives fun found => ∀ a ∈ found, property a := by
  intro s found rest hread
  unfold objectRest at hread
  split at hread
  · cases hread
    exact List.forall_mem_nil _
  · exact gives_fields h _ _ _ _ hread

theorem gives_field {name : Reader ν} {value : ν → Reader α}
    (h : ∀ n, (value n).Gives property) :
    (field name value).Gives fun found => property found.2 := by
  intro s found rest hread
  unfold field at hread
  split at hread
  · rcases Option.bind_eq_some_iff.1 hread with ⟨⟨n, s'⟩, -, hread⟩
    dsimp only at hread
    split at hread
    · rcases Option.bind_eq_some_iff.1 hread with ⟨⟨v, s''⟩, hvalue, hread⟩
      cases hread
      exact h n _ v _ hvalue
    · cases hread
  · cases hread

/-! ## Numbers -/

/-- A number that can be read is in its range, and a float is finite. -/
theorem proper_numberOf? {negative : Bool} {whole : List Char} {fraction : Option (List Char)}
    {exponent : Option Int} {number : Number}
    (h : numberOf? negative whole fraction exponent = some number) : number.Proper := by
  -- A number that does not fit an integer is a float, which is finite when it is one at all.
  have hfloat : ∀ {negative : Bool} {digits : Nat} {e : Int},
      (Decimal.nearest? negative digits e).map Number.float = some number → number.Proper := by
    intro negative digits e hnearest
    rcases Option.map_eq_some_iff.1 hnearest with ⟨x, hx, rfl⟩
    exact Decimal.isFinite_of_nearest? hx
  unfold numberOf? at h
  split at h
  · dsimp only at h
    split at h
    · split at h
      · rename_i hrange
        cases h
        have hpow : Decimal.ofDigits whole ≤ 2 ^ 63 := hrange.2
        simp only [Number.Proper]
        omega
      · exact hfloat h
    · split at h
      · rename_i hrange
        cases h
        have hpow : Decimal.ofDigits whole < 2 ^ 64 := hrange
        simp only [Number.Proper]
        omega
      · exact hfloat h
  · exact hfloat h

theorem gives_unsignedNumber (negative : Bool) :
    (unsignedNumber negative).Gives fun value => value.collapse.Proper := by
  intro s value rest hread
  simp only [unsignedNumber, Option.bind_eq_bind, Option.bind_eq_some_iff] at hread
  rcases hread with ⟨⟨whole, s₁⟩, -, ⟨fraction, s₂⟩, -, ⟨exponent, s₃⟩, -, number, hnumber, hread⟩
  cases hread
  exact proper_number_iff.2 (proper_numberOf? hnumber)

/-! ## Values -/

theorem collapseItems_eq_map (items : List Json) : collapseItems items = items.map collapse := by
  induction items with
  | nil =>
      rfl
  | cons item rest ih =>
      simp [collapseItems, ih]

theorem collapseFields_eq_map (fields : List (String × Json)) :
    collapseFields fields = fields.map fun field => (field.1, field.2.collapse) := by
  induction fields with
  | nil =>
      rfl
  | cons field rest ih =>
      rcases field with ⟨name, value⟩
      simp [collapseFields, ih]

/-- An array of values that collapse properly collapses properly. -/
theorem proper_collapse_array {found : List Json} (h : ∀ item ∈ found, item.collapse.Proper) :
    (Json.array found).collapse.Proper := by
  rw [collapse, collapseItems_eq_map, proper_array_iff]
  exact List.forall_mem_map.2 h

/-- An object of values that collapse properly does so too: collapsing leaves one entry of each
name. -/
theorem proper_collapse_object {found : List (String × Json)}
    (h : ∀ field ∈ found, field.2.collapse.Proper) : (Json.object found).collapse.Proper := by
  rw [collapse, collapseFields_eq_map]
  exact proper_ofPairs (List.forall_mem_map.2 h)

/-- A value is proper when its arrays and objects are. -/
theorem gives_valueWith {array object : Option (Reader Json)}
    (harray : ∀ read ∈ array, read.Gives fun value => value.collapse.Proper)
    (hobject : ∀ read ∈ object, read.Gives fun value => value.collapse.Proper) :
    (valueWith array object).Gives fun value => value.collapse.Proper := by
  intro s value rest hread
  unfold valueWith at hread
  split at hread
  · cases hread
    exact proper_null
  · cases hread
    exact proper_bool true
  · cases hread
    exact proper_bool false
  · rcases Option.map_eq_some_iff.1 hread with ⟨⟨text, s'⟩, -, hread⟩
    cases hread
    exact proper_string text
  · rcases Option.bind_eq_some_iff.1 hread with ⟨read, hsome, hread⟩
    exact harray read hsome _ _ _ hread
  · rcases Option.bind_eq_some_iff.1 hread with ⟨read, hsome, hread⟩
    exact hobject read hsome _ _ _ hread
  · exact gives_unsignedNumber true _ _ _ hread
  · exact gives_unsignedNumber false _ _ _ hread

/-- A field's value is proper when the values of every outline are. -/
theorem gives_fieldValue {nested : Outline → Reader Json} {outline : Outline} {name : String}
    (h : ∀ inner, (nested inner).Gives fun value => value.collapse.Proper) :
    (fieldValue nested outline name).Gives fun value? => ∀ value ∈ value?,
      value.collapse.Proper := by
  unfold fieldValue
  split
  · rename_i inner hinner
    refine gives_map ?_
    intro s value rest hread value' hmem
    rw [← Option.some.inj hmem]
    exact h inner s value rest hread
  · exact gives_map fun _ _ _ _ => nofun

/-- The induction is on the number of containers that may be nested. -/
theorem gives_value (depth : Nat) (outline : Outline) :
    (value depth outline).Gives fun value => value.collapse.Proper := by
  induction depth generalizing outline with
  | zero =>
      exact gives_valueWith nofun nofun
  | succ depth ih =>
      have harray : ((arrayRest (value depth outline.item)).map Json.array).Gives
          fun value => value.collapse.Proper :=
        gives_map fun s found rest hread =>
          proper_collapse_array (gives_arrayRest (ih outline.item) s found rest hread)
      have hobject : ((objectRest (field stringRest (fieldValue (value depth) outline))).map
          fun read => Json.object (readFields read)).Gives fun value => value.collapse.Proper := by
        refine gives_map ?_
        intro s found rest hread
        have hfields :=
          gives_objectRest (gives_field fun _ => gives_fieldValue ih) s found rest hread
        refine proper_collapse_object ?_
        intro field hmem
        rcases List.mem_filterMap.1 hmem with ⟨⟨name, value?⟩, hfound, hfield⟩
        rcases Option.map_eq_some_iff.1 hfield with ⟨value, hvalue, rfl⟩
        exact hfields _ hfound value hvalue
      refine gives_valueWith ?_ ?_
      · intro read hsome
        rw [← Option.some.inj hsome]
        exact harray
      · intro read hsome
        rw [← Option.some.inj hsome]
        exact hobject

end Parser

/-- The value of a document is proper. -/
theorem proper_parse {text : String} {value : Json} (h : parse text = some value) :
    value.Proper := by
  rcases Option.map_eq_some_iff.1 h with ⟨raw, hraw, rfl⟩
  simp only [parseAlong, Option.bind_eq_bind, Option.bind_eq_some_iff] at hraw
  rcases hraw with ⟨⟨read, rest⟩, hread, hend⟩
  split at hend
  · rw [← Option.some.inj hend]
    exact Parser.gives_value _ _ _ _ _ hread
  · cases hend

end Json
end DesignTokens
