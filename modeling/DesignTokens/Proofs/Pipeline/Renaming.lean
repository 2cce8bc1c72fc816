import DesignTokens.Proofs.Pipeline.Assignments
import DesignTokens.Proofs.Pipeline.Slots

/-!
# Renamed keys and values

Another key for a variable and another text for one of its values are two renamings of one kind:
they change pairs of a key and a value, and with them variables, bindings and assignments.

A renaming of an assignment can be undone as long as the new name was not in it before. An
assignment that has the new name already is `Stale`: it cannot be told apart afterwards from one
that was renamed.
-/

namespace DesignTokens

@[simp] theorem Pipeline.replacedKey_self (key other : String) :
    replacedKey key key other = other := by
  by_cases hother : other = key
  · simp [replacedKey, hother]
  · simp [replacedKey, hother]

/-- Another key for a variable, or another text for one of its values. -/
inductive Renaming where
  | key (old new : String)
  | value (bound old new : String)
deriving DecidableEq

namespace Renaming

/-! ## What is renamed -/

def edit : Renaming → PipelineEdit Unit
  | .key old new => Pipeline.setVariableKey old new
  | .value bound old new => Pipeline.renameVariableValue bound old new

def inverse : Renaming → Renaming
  | .key old new => .key new old
  | .value bound old new => .value bound new old

def onKey : Renaming → String → String
  | .key old new, other => Pipeline.replacedKey old new other
  | .value .., other => other

def onValue : Renaming → String → String → String
  | .key .., _, text => text
  | .value bound old new, other, text =>
      if other = bound ∧ text = old then new else text

def onPair (r : Renaming) (pair : String × String) : String × String :=
  (r.onKey pair.1, r.onValue pair.1 pair.2)

def onAssignment : Renaming → Assignment → Assignment
  | .key old new, a => a.renameKey old new
  | .value bound old new, a => a.renameValue bound old new

def onVariable (r : Renaming) (v : Variable) : Variable :=
  { v with key := r.onKey v.key, values := v.values.map (r.onValue v.key) }

def onLayer (r : Renaming) (layer : Layer) : Layer :=
  { layer with variableKeys := layer.variableKeys.map r.onKey }

structure OnPage (r : Renaming) (page after : Page) : Prop where
  id : after.id = page.id
  layer : after.layer = page.layer
  assignment : after.assignment = r.onAssignment page.assignment
  tokens : after.tokens = page.tokens

/-! ## Names that are taken -/

/-- The key is not the new one. -/
def ApartKey : Renaming → String → Prop
  | .key old new, other => other = new → old = new
  | .value .., _ => True

/-- The pair has neither the new key nor the new value. -/
def Apart : Renaming → String → String → Prop
  | .key old new, other, _ => other = new → old = new
  | .value bound old new, other, text => other = bound → text = new → old = new

/-- The assignment has the new key, or the new value, already. -/
def Stale : Renaming → Assignment → Prop
  | .key old new, a => old ≠ new ∧ new ∈ a
  | .value bound old new, a => old ≠ new ∧ a[bound]? = some new

variable {r : Renaming} {a : Assignment} {key text : String}

@[simp] theorem onValue_key (old new other : String) : (Renaming.key old new).onValue other = id :=
  rfl

@[simp] theorem onKey_value (bound old new : String) : (Renaming.value bound old new).onKey = id :=
  rfl

theorem Apart.apartKey (h : r.Apart key text) : r.ApartKey key := by
  cases r with
  | key =>
      exact h
  | value =>
      trivial

theorem apart_of_not_stale (h : ¬ r.Stale a) (hpair : a[key]? = some text) : r.Apart key text := by
  cases r with
  | key old new =>
      intro hkey
      by_contra hne
      subst hkey
      exact h ⟨hne, Assignment.mem_of_getElem? hpair⟩
  | value bound old new =>
      intro hkey htext
      by_contra hne
      subst hkey htext
      exact h ⟨hne, hpair⟩

/-- The new key is not in an assignment that is not stale. -/
theorem getElem?_new_of_not_stale {old new : String} (h : ¬ (Renaming.key old new).Stale a)
    (hne : old ≠ new) : a[new]? = none := by
  cases hvalue : a[new]? with
  | none =>
      rfl
  | some value =>
      exact absurd ⟨hne, Assignment.mem_of_getElem? hvalue⟩ h

theorem not_stale_of_apart (h : ∀ key text, a[key]? = some text → r.Apart key text) :
    ¬ r.Stale a := by
  cases r with
  | key old new =>
      intro hstale
      rcases Assignment.exists_of_mem hstale.2 with ⟨text, htext⟩
      exact hstale.1 (h new text htext rfl)
  | value bound old new =>
      intro hstale
      exact hstale.1 (h bound new hstale.2 rfl rfl)

theorem apartKey_of_mem (h : ¬ r.Stale a) (hkey : key ∈ a) : r.ApartKey key := by
  rcases Assignment.exists_of_mem hkey with ⟨text, htext⟩
  exact (apart_of_not_stale h htext).apartKey

/-- Keys that are apart from the new one are told apart by their new names. -/
theorem onKey_inj {other : String} (h : r.ApartKey key) (hother : r.ApartKey other) :
    r.onKey key = r.onKey other ↔ key = other := by
  cases r with
  | key old new =>
      simp only [onKey, Pipeline.replacedKey]
      -- Only the old key becomes the new one, as neither key is the new one itself.
      by_cases hkey : key = old
      · by_cases hold : other = old
        · simp [hkey, hold]
        · simp only [hkey, hold, if_true, if_false]
          exact ⟨fun heq => (hother heq.symm).trans heq, fun heq => absurd heq.symm hold⟩
      · by_cases hold : other = old
        · simp only [hkey, hold, if_true, if_false]
          exact ⟨fun heq => hkey (heq.trans (h heq).symm), False.elim⟩
        · simp [hkey, hold]
  | value =>
      rfl

/-- Values that are apart from the new one are told apart by their new names. -/
theorem onValue_inj {other : String} (h : r.Apart key text) (hother : r.Apart key other) :
    r.onValue key text = r.onValue key other ↔ text = other := by
  cases r with
  | key =>
      rfl
  | value bound old new =>
      simp only [onValue]
      by_cases hkey : key = bound
      · by_cases htext : text = old
        · by_cases hold : other = old
          · simp [htext, hold]
          · -- Only the old value becomes the new one, as the new one was free.
            simp only [hkey, htext, hold, and_self, and_false, if_true, if_false]
            exact ⟨fun heq => (hother hkey heq.symm).trans heq, fun heq => absurd heq.symm hold⟩
        · by_cases hold : other = old
          · simp only [hkey, htext, hold, and_self, and_false, if_true, if_false]
            exact ⟨fun heq => htext (heq.trans (h hkey heq).symm), False.elim⟩
          · simp [htext, hold]
      · simp [hkey]

/-! ## Renamed assignments -/

theorem renameKey_self (a : Assignment) (key : String) : a.renameKey key key = a := by
  unfold Assignment.renameKey
  cases hvalue : a[key]? with
  | none =>
      rfl
  | some value =>
      refine Std.ExtTreeMap.ext_getElem? fun other => ?_
      by_cases hother : key = other
      · subst hother
        simp [hvalue]
      · simp [Std.ExtTreeMap.getElem?_insert, Std.ExtTreeMap.getElem?_erase, hother]

/-- What a renamed assignment has at a renamed key is the renamed value. -/
theorem getElem?_onAssignment (h : ¬ r.Stale a) (hkey : r.ApartKey key) :
    (r.onAssignment a)[r.onKey key]? = (a[key]?).map (r.onValue key) := by
  cases r with
  | key old new =>
      by_cases hsame : old = new
      · subst hsame
        simp [onAssignment, onKey, renameKey_self]
      · -- Under the new key stands what stood under the old one, as nothing stood there itself.
        have hnew := getElem?_new_of_not_stale h hsame
        have hne : key ≠ new := fun heq => hsame (hkey heq)
        by_cases hold : key = old
        · simp [onAssignment, onKey, Pipeline.replacedKey, hold, hnew,
            Assignment.getElem?_renameKey hsame]
        · simp [onAssignment, onKey, Pipeline.replacedKey, hold, hne,
            Assignment.getElem?_renameKey hsame]
  | value bound old new =>
      simp only [onAssignment, onKey, Assignment.getElem?_renameValue]
      -- A value is replaced under the bound key alone.
      by_cases hold : key = bound
      · subst hold
        cases hvalue : a[key]? with
        | none =>
            simp
        | some text =>
            by_cases htext : text = old
            · simp [onValue, htext]
            · simp [onValue, htext]
      · cases a[key]? with
        | none =>
            simp [hold]
        | some text =>
            simp [onValue, hold]

theorem mem_onAssignment_iff (h : ¬ r.Stale a) (hkey : r.ApartKey key) :
    r.onKey key ∈ r.onAssignment a ↔ key ∈ a := by
  rw [Std.ExtTreeMap.mem_iff_isSome_getElem?, getElem?_onAssignment h hkey, Option.isSome_map,
    Std.ExtTreeMap.mem_iff_isSome_getElem?]

/-- The keys of a renamed assignment are renamed keys. -/
theorem exists_onKey_of_mem (h : key ∈ r.onAssignment a) :
    ∃ old, r.ApartKey old ∧ r.onKey old = key := by
  cases r with
  | key old new =>
      by_cases hsame : old = new
      · subst hsame
        exact ⟨key, fun _ => rfl, by simp [onKey]⟩
      · have hget := Std.ExtTreeMap.mem_iff_isSome_getElem?.1 h
        simp only [onAssignment, Assignment.getElem?_renameKey hsame] at hget
        -- The new key comes from the old one, and the old one is gone.
        by_cases hnew : key = new
        · exact ⟨old, fun heq => heq, by simp [onKey, Pipeline.replacedKey, hnew]⟩
        · by_cases hold : key = old
          · simp [hold, hsame] at hget
          · exact ⟨key, fun heq => absurd heq hnew, by simp [onKey, Pipeline.replacedKey, hold]⟩
  | value =>
      exact ⟨key, trivial, rfl⟩

/-! ## Undoing -/

@[simp] theorem inverse_inverse (r : Renaming) : r.inverse.inverse = r := by
  cases r <;> rfl

/-- What is renamed does not have the old name any more. -/
theorem not_stale_inverse (r : Renaming) (a : Assignment) :
    ¬ r.inverse.Stale (r.onAssignment a) := by
  cases r with
  | key old new =>
      intro hstale
      rcases hstale with ⟨hne, hmem⟩
      have hget := Std.ExtTreeMap.mem_iff_isSome_getElem?.1 hmem
      simp [onAssignment, Assignment.getElem?_renameKey hne.symm, hne.symm] at hget
  | value bound old new =>
      intro hstale
      rcases hstale with ⟨hne, hvalue⟩
      simp only [onAssignment, Assignment.getElem?_renameValue, true_and] at hvalue
      split at hvalue
      · exact hne (Option.some.inj hvalue)
      · rename_i hother
        exact hother hvalue

theorem inverse_onAssignment (h : ¬ r.Stale a) : r.inverse.onAssignment (r.onAssignment a) = a := by
  refine Std.ExtTreeMap.ext_getElem? fun other => ?_
  cases r with
  | key old new =>
      by_cases hsame : old = new
      · subst hsame
        simp [inverse, onAssignment, renameKey_self]
      · -- Nothing stood under the new key, so that the two moves undo each other.
        have hnew := getElem?_new_of_not_stale h hsame
        simp only [inverse, onAssignment, Assignment.getElem?_renameKey hsame,
          Assignment.getElem?_renameKey (Ne.symm hsame)]
        by_cases hold : other = old
        · simp [hold, hnew, hsame]
        · by_cases hother : other = new
          · simp [hother, hnew, Ne.symm hsame]
          · simp [hold, hother]
  | value bound old new =>
      simp only [inverse, onAssignment, Assignment.getElem?_renameValue]
      by_cases hother : other = bound
      · subst hother
        by_cases hvalue : a[other]? = some old
        · simp [hvalue]
        · -- Without the bound old, only a stale assignment has the new one.
          by_cases hnew : a[other]? = some new
          · have hsame : old = new := by
              by_contra hne
              exact h ⟨hne, hnew⟩
            simp [hnew, hsame]
          · simp [hvalue, hnew]
      · simp [hother]

/-- What a renamed assignment is taken to have been. -/
def readBack (r : Renaming) (a : Assignment) : Assignment :=
  r.inverse.onAssignment (r.onAssignment a)

theorem not_stale_readBack (r : Renaming) (a : Assignment) : ¬ r.Stale (r.readBack a) := by
  simpa [readBack] using not_stale_inverse r.inverse (r.onAssignment a)

/-- What is read back is renamed to the same assignment. -/
theorem onAssignment_readBack (r : Renaming) (a : Assignment) :
    r.onAssignment (r.readBack a) = r.onAssignment a := by
  simpa [readBack] using inverse_onAssignment (not_stale_inverse r a)

/-- Assignments without the new name are told apart afterwards as they were before. -/
theorem onAssignment_inj {b : Assignment} (ha : ¬ r.Stale a) (hb : ¬ r.Stale b) :
    r.onAssignment a = r.onAssignment b ↔ a = b := by
  constructor
  · intro heq
    calc
      a = r.inverse.onAssignment (r.onAssignment a) := (inverse_onAssignment ha).symm
      _ = r.inverse.onAssignment (r.onAssignment b) := by rw [heq]
      _ = b := inverse_onAssignment hb
  · intro heq
    rw [heq]

end Renaming

end DesignTokens
