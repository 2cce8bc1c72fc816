import DesignTokens.Json.Basic
import DesignTokens.Proofs.Decimal.Finite
import DesignTokens.Proofs.Entries

/-!
# Proper JSON values

The values that a document can have. No object names a field twice, every integer fits into 64 bits,
signed or unsigned, and every other number is finite. Whatever such a value has as a number is
therefore finite as a floating-point number.
-/

namespace DesignTokens
namespace Json

/-- An integer of 64 bits, or a finite floating-point number. -/
def Number.Proper : Number → Prop
  | .int value => -(2 ^ 63 : Int) ≤ value ∧ value < (2 ^ 64 : Int)
  | .float value => value.isFinite = true

mutual

/-- The fields of every object have distinct names, and every number is proper. -/
def Proper : Json → Prop
  | .null => True
  | .bool _ => True
  | .number value => value.Proper
  | .string _ => True
  | .array items => ProperItems items
  | .object fields => (Entries.keys fields).Nodup ∧ ProperFields fields

def ProperItems : List Json → Prop
  | [] => True
  | item :: rest => item.Proper ∧ ProperItems rest

def ProperFields : List (String × Json) → Prop
  | [] => True
  | (_, value) :: rest => value.Proper ∧ ProperFields rest

end

variable {value : Json} {items : List Json} {fields : Entries Json} {name : String} {x : Float}

@[simp] theorem proper_null : Proper .null := by
  simp [Proper]

@[simp] theorem proper_bool (b : Bool) : Proper (.bool b) := by
  simp [Proper]

@[simp] theorem proper_number_iff {number : Number} : Proper (.number number) ↔ number.Proper := by
  simp [Proper]

@[simp] theorem proper_string (text : String) : Proper (.string text) := by
  simp [Proper]

@[simp] theorem proper_array_iff : Proper (.array items) ↔ ∀ item ∈ items, Proper item := by
  have hitems : ProperItems items ↔ ∀ item ∈ items, Proper item := by
    induction items with
    | nil =>
        simp [ProperItems]
    | cons item rest ih =>
        simp [ProperItems, ih]
  simpa [Proper] using hitems

@[simp] theorem proper_object_iff :
    Proper (.object fields) ↔
      (Entries.keys fields).Nodup ∧ ∀ field ∈ fields, Proper field.2 := by
  have hfields : ProperFields fields ↔ ∀ field ∈ fields, Proper field.2 := by
    induction fields with
    | nil =>
        simp [ProperFields]
    | cons field rest ih =>
        rcases field with ⟨first, value⟩
        simp only [ProperFields, ih, List.forall_mem_cons]
  simp only [Proper, hfields]

theorem proper_ofTexts (texts : List String) : Proper (ofTexts texts) := by
  simp [ofTexts]

/-- A float is written as a proper value, as null when it is not finite. -/
theorem proper_ofFloat (x : Float) : Proper (ofFloat x) := by
  unfold ofFloat
  split
  · rename_i hfinite
    exact proper_number_iff.2 hfinite
  · exact proper_null

theorem proper_ofPairs (h : ∀ field ∈ fields, Proper field.2) :
    Proper (.object (Entries.ofPairs fields)) :=
  proper_object_iff.2 ⟨Entries.nodup_keys_ofPairs fields,
    fun field hmem => h field (Entries.mem_of_mem_ofPairs hmem)⟩

/-! ## Repeated fields -/

mutual

/-- In a proper value there is nothing to collapse. -/
theorem Proper.collapse_eq_self {value : Json} (h : value.Proper) : value.collapse = value := by
  cases value with
  | array items =>
      rw [collapse, collapseItems_eq_self (proper_array_iff.1 h)]
  | object fields =>
      rcases proper_object_iff.1 h with ⟨hnames, hfields⟩
      rw [collapse, collapseFields_eq_self hfields, Entries.ofPairs_eq_self hnames]
  | null =>
      rw [collapse]
  | bool b =>
      rw [collapse]
  | number n =>
      rw [collapse]
  | string text =>
      rw [collapse]

theorem collapseItems_eq_self {items : List Json} (h : ∀ item ∈ items, Proper item) :
    collapseItems items = items := by
  cases items with
  | nil =>
      rw [collapseItems]
  | cons item rest =>
      rcases List.forall_mem_cons.1 h with ⟨hitem, hrest⟩
      rw [collapseItems, hitem.collapse_eq_self, collapseItems_eq_self hrest]

/-- Collapsing leaves proper values as they are. -/
theorem collapseFields_eq_self {fields : List (String × Json)}
    (h : ∀ field ∈ fields, Proper field.2) : collapseFields fields = fields := by
  cases fields with
  | nil =>
      rw [collapseFields]
  | cons field rest =>
      rcases field with ⟨name, value⟩
      rcases List.forall_mem_cons.1 h with ⟨hvalue, hrest⟩
      rw [collapseFields, hvalue.collapse_eq_self, collapseFields_eq_self hrest]

end

/-! ## Views -/

theorem string?_eq_some_iff {text : String} : value.string? = some text ↔ value = .string text := by
  cases value <;> simp [string?]

theorem array?_eq_some_iff : value.array? = some items ↔ value = .array items := by
  cases value <;> simp [array?]

theorem object?_eq_some_iff : value.object? = some fields ↔ value = .object fields := by
  cases value <;> simp [object?]

theorem Proper.get? (h : Proper (.object fields)) (hget : Entries.get? fields name = some value) :
    value.Proper :=
  (proper_object_iff.1 h).2 (name, value) (Entries.mem_of_get? hget)

theorem Number.Proper.isFinite_toFloat {number : Number} (h : number.Proper) :
    number.toFloat.isFinite = true := by
  cases number with
  | int value =>
      exact Decimal.isFinite_ofInt h.1 h.2
  | float value =>
      exact h

theorem Proper.isFinite_of_float? (h : value.Proper) (hx : value.float? = some x) :
    x.isFinite = true := by
  cases value with
  | number number =>
      rw [← Option.some.inj hx]
      exact (proper_number_iff.1 h).isFinite_toFloat
  | null =>
      cases hx
  | bool b =>
      cases hx
  | string text =>
      cases hx
  | array items =>
      cases hx
  | object fields =>
      cases hx

end Json
end DesignTokens
