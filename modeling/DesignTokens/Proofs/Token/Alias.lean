import DesignTokens.Proofs.Token.Path
import DesignTokens.Token.Alias
import DesignTokens.Token.Store

/-!
# Aliases in values

A value has aliases wherever it has a text: as a whole, in an item or in the value of a field.
Resolving reads these texts and nothing else of it. Turning an alias to another subtree, on the
other hand, only ever looks at a text that is the whole value.
-/

namespace DesignTokens

/-! ## Texts in a value -/

namespace Json

mutual

/-- The texts in a value, in order. The names of fields are not among them. -/
def texts : Json → List String
  | .string text => [text]
  | .array items => itemTexts items
  | .object fields => fieldTexts fields
  | .null | .bool _ | .number _ => []

def itemTexts : List Json → List String
  | [] => []
  | item :: rest => item.texts ++ itemTexts rest

def fieldTexts : List (String × Json) → List String
  | [] => []
  | (_, value) :: rest => value.texts ++ fieldTexts rest

end

mutual

/-- Replacing texts, which is what resolving does, reads the texts in the value only, and it reads
all of them. -/
theorem mapTexts_eq_iff {f g : String → Json} {value : Json} :
    value.mapTexts f = value.mapTexts g ↔ ∀ text ∈ value.texts, f text = g text := by
  cases value with
  | string text =>
      simp [mapTexts, texts]
  | array items =>
      have hitems : mapItems f items = mapItems g items ↔
          ∀ text ∈ itemTexts items, f text = g text := mapItems_eq_iff
      simpa [mapTexts, texts] using hitems
  | object fields =>
      have hfields : mapFields f fields = mapFields g fields ↔
          ∀ text ∈ fieldTexts fields, f text = g text := mapFields_eq_iff
      simpa [mapTexts, texts] using hfields
  | null =>
      simp [mapTexts, texts]
  | bool b =>
      simp [mapTexts, texts]
  | number n =>
      simp [mapTexts, texts]

theorem mapItems_eq_iff {f g : String → Json} {items : List Json} :
    mapItems f items = mapItems g items ↔ ∀ text ∈ itemTexts items, f text = g text := by
  cases items with
  | nil =>
      simp [mapItems, itemTexts]
  | cons item rest =>
      have hitem : item.mapTexts f = item.mapTexts g ↔ ∀ text ∈ item.texts, f text = g text :=
        mapTexts_eq_iff
      have hrest : mapItems f rest = mapItems g rest ↔ ∀ text ∈ itemTexts rest, f text = g text :=
        mapItems_eq_iff
      simp [mapItems, itemTexts, hitem, hrest, or_imp, forall_and]

/-- Fields are changed alike exactly when each of their texts is. -/
theorem mapFields_eq_iff {f g : String → Json} {fields : List (String × Json)} :
    mapFields f fields = mapFields g fields ↔ ∀ text ∈ fieldTexts fields, f text = g text := by
  cases fields with
  | nil =>
      simp [mapFields, fieldTexts]
  | cons field rest =>
      rcases field with ⟨name, value⟩
      have hvalue : value.mapTexts f = value.mapTexts g ↔ ∀ text ∈ value.texts, f text = g text :=
        mapTexts_eq_iff
      have hrest : mapFields f rest = mapFields g rest ↔
          ∀ text ∈ fieldTexts rest, f text = g text := mapFields_eq_iff
      simp [mapFields, fieldTexts, hvalue, hrest, or_imp, forall_and]

end

/-- The path that the text at a place in a value is an alias of. -/
def aliasAt? (value : Json) (place : Nat) : Option String :=
  value.texts[place]?.bind Alias.target?

/-- A value that is not composite has an alias only as a whole. -/
theorem aliasAt?_of_not_isComposite {value : Json} {place : Nat} {target : String}
    (h : value.aliasAt? place = some target) (hwhole : value.isComposite = false) :
    place = 0 ∧ Alias.valueTarget? value = some target := by
  rcases Option.bind_eq_some_iff.1 h with ⟨text, htext, htarget⟩
  cases value with
  | string whole =>
      -- The whole text is the only one, so that the place is the first.
      rcases List.getElem?_eq_some_iff.1 htext with ⟨hplace, rfl⟩
      have hzero : place = 0 := by simpa [texts] using hplace
      subst hzero
      exact ⟨rfl, htarget⟩
  | array items =>
      cases hwhole
  | object fields =>
      cases hwhole
  | null =>
      simp [texts] at htext
  | bool b =>
      simp [texts] at htext
  | number n =>
      simp [texts] at htext

/-- A whole alias is the only one of its value. -/
theorem aliasAt?_of_valueTarget? {value : Json} {place : Nat} {target reference : String}
    (h : value.aliasAt? place = some target) (href : Alias.valueTarget? value = some reference) :
    reference = target := by
  have hwhole : value.isComposite = false := by
    cases value with
    | array items =>
        cases href
    | object fields =>
        cases href
    | _ =>
        rfl
  rcases aliasAt?_of_not_isComposite h hwhole with ⟨-, hvalue⟩
  exact Option.some.inj (href.symm.trans hvalue)

end Json

/-! ## Reading aliases back -/

namespace Path

/-- The path can stand between the braces of an alias. -/
def Quotable (path : String) : Prop :=
  path ≠ "" ∧ '\x7b' ∉ path.toList ∧ '\x7d' ∉ path.toList

variable {old new path moved : String}

theorem Valid.not_mem_brace (h : Valid path) :
    '\x7b' ∉ path.toList ∧ '\x7d' ∉ path.toList := by
  induction h using Valid.induction with
  | root =>
      simp
  | child parent name _ hname ih =>
      have hbraces := hname.not_mem_brace
      by_cases hroot : parent = ""
      · simpa [Path.child, hroot] using hbraces
      · simp [Path.child, hroot, ih, hbraces]

/-- A path that moves stays one that a reference can name. -/
theorem Quotable.rebase? (h : Quotable path) (hold : old ≠ "") (hnew : Quotable new)
    (hmoved : Path.rebase? old new path = some moved) : Quotable moved := by
  rcases (rebase?_eq_some_iff hold).1 hmoved with ⟨rest, hpath, hafter, -⟩
  rcases h with ⟨-, hopen, hclose⟩
  rcases hnew with ⟨hne, hnewOpen, hnewClose⟩
  rw [hpath, List.mem_append, not_or] at hopen hclose
  -- The new path is `new` and the end of the old one; neither brings in a brace.
  refine ⟨?_, ?_, ?_⟩
  · intro hempty
    rw [hempty] at hafter
    rcases List.append_eq_nil_iff.1 hafter.symm with ⟨hnil, -⟩
    exact hne (String.toList_injective (by simpa using hnil))
  · simp [hafter, hnewOpen, hopen.2]
  · simp [hafter, hnewClose, hclose.2]

end Path

namespace Alias

theorem quotable_of_target? {text target : String} (h : target? text = some target) :
    Path.Quotable target := by
  unfold target? at h
  rcases Option.map_eq_some_iff.1 h with ⟨inner, hinner, rfl⟩
  unfold targetChars? at hinner
  split at hinner
  · simp only at hinner
    split at hinner
    · rename_i hclosed
      rcases hclosed with ⟨-, hne, hopen, hclose⟩
      cases hinner
      exact ⟨by simpa using hne, by simpa using hopen, by simpa using hclose⟩
    · cases hinner
  · cases hinner

theorem target?_ofPath {path : String} (h : Path.Quotable path) :
    target? (ofPath path) = some path := by
  rcases h with ⟨hne, hopen, hclose⟩
  have hchars : (ofPath path).toList = '\x7b' :: (path.toList ++ ['\x7d']) := by
    simp [ofPath]
  have hnil : path.toList ≠ [] := by simpa using hne
  simp [target?, targetChars?, hchars, hopen, hclose, hnil]

/-- A value is a reference when it is a text and nothing but a reference. -/
theorem valueTarget?_eq_some_iff {value : Json} {target : String} :
    valueTarget? value = some target ↔
      ∃ text, value = .string text ∧ target? text = some target := by
  cases value with
  | string text =>
      simp [valueTarget?, Json.string?]
  | null =>
      simp [valueTarget?, Json.string?]
  | bool b =>
      simp [valueTarget?, Json.string?]
  | number n =>
      simp [valueTarget?, Json.string?]
  | array items =>
      simp [valueTarget?, Json.string?]
  | object fields =>
      simp [valueTarget?, Json.string?]

theorem valueTarget?_eq_none_of_isComposite {value : Json} (h : value.isComposite = true) :
    valueTarget? value = none := by
  cases value with
  | array items =>
      rfl
  | object fields =>
      rfl
  | _ =>
      cases h

end Alias
end DesignTokens
