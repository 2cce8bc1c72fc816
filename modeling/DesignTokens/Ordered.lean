/-!
# Insertion-ordered entries

Named entries in the order in which the names were first given. Writing to a name that is present
replaces its value in place; a new name goes to the end.

The view of entries is `get?`, and the main statements say what each operation does to it and to
the sequence of names.
-/

namespace DesignTokens

universe u v

abbrev Entries (α : Type u) := List (String × α)

namespace Entries

variable {α : Type u} {β : Type v}

def get? : Entries α → String → Option α
  | [], _ => none
  | (name, value) :: rest, key => if name = key then some value else get? rest key

def has : Entries α → String → Bool
  | [], _ => false
  | (name, _) :: rest, key => name = key || has rest key

/-- The entries with `key` set to `value`: in place when present, at the end otherwise. -/
def put : Entries α → String → α → Entries α
  | [], key, value => [(key, value)]
  | (name, old) :: rest, key, value =>
      if name = key then (name, value) :: rest else (name, old) :: put rest key value

/-- The entries without the first one that has the name. -/
def erase : Entries α → String → Entries α
  | [], _ => []
  | (name, value) :: rest, key => if name = key then rest else (name, value) :: erase rest key

def keys (entries : Entries α) : List String :=
  entries.map (·.1)

/-- Pairs put one after another, so that a repeated name keeps its first place and takes its last
value. -/
def ofPairs (pairs : List (String × α)) : Entries α :=
  pairs.foldl (fun entries pair => put entries pair.1 pair.2) []

/-- Every value of `source` put over `target`, in order. -/
def extend (target source : Entries α) : Entries α :=
  source.foldl (fun entries pair => put entries pair.1 pair.2) target

/-! ## The view -/

@[simp] theorem get?_nil (key : String) : get? ([] : Entries α) key = none := rfl

@[simp] theorem get?_put (entries : Entries α) (key other : String) (value : α) :
    get? (put entries key value) other =
      if key = other then some value else get? entries other := by
  induction entries with
  | nil => simp [put, get?]
  | cons entry rest ih =>
      obtain ⟨name, old⟩ := entry
      by_cases h : name = key
      · subst h; by_cases h' : name = other <;> simp [put, get?, h']
      · by_cases h' : name = other
        · subst h'; simp [put, get?, h, Ne.symm h]
        · simp [put, get?, h, h', ih]

theorem has_eq_isSome (entries : Entries α) (key : String) :
    has entries key = (get? entries key).isSome := by
  induction entries with
  | nil => rfl
  | cons entry rest ih =>
      obtain ⟨name, value⟩ := entry
      by_cases h : name = key <;> simp [has, get?, h, ih]

theorem mem_keys_iff {entries : Entries α} {key : String} :
    key ∈ keys entries ↔ has entries key = true := by
  induction entries with
  | nil => simp [keys, has]
  | cons entry rest ih =>
      obtain ⟨name, value⟩ := entry
      simp only [keys, List.map_cons, List.mem_cons, has, Bool.or_eq_true,
        decide_eq_true_eq] at ih ⊢
      rw [ih, eq_comm]

theorem mem_keys_iff_isSome {entries : Entries α} {key : String} :
    key ∈ keys entries ↔ (get? entries key).isSome = true := by
  simp [mem_keys_iff, has_eq_isSome]

theorem get?_eq_none_iff {entries : Entries α} {key : String} :
    get? entries key = none ↔ key ∉ keys entries := by
  rw [mem_keys_iff_isSome]
  simp

/-! ## The sequence of names -/

/-- Putting a value keeps the names in their order, and a new name goes last. -/
theorem keys_put (entries : Entries α) (key : String) (value : α) :
    keys (put entries key value) =
      if has entries key then keys entries else keys entries ++ [key] := by
  induction entries with
  | nil => simp [put, keys, has]
  | cons entry rest ih =>
      obtain ⟨name, old⟩ := entry
      by_cases h : name = key
      · simp [put, keys, has, h]
      · simp only [keys] at ih
        by_cases hr : has rest key = true
        · simp [put, keys, has, h, ih, hr]
        · simp [put, keys, has, h, ih, hr]

/-- Putting keeps the names distinct. -/
theorem nodup_keys_put {entries : Entries α} (h : (keys entries).Nodup) (key : String) (value : α) :
    (keys (put entries key value)).Nodup := by
  rw [keys_put]
  by_cases hk : has entries key = true
  · simpa [hk] using h
  · have : key ∉ keys entries := fun hmem => hk (mem_keys_iff.1 hmem)
    simp only [hk, Bool.false_eq_true, if_false]
    rw [List.nodup_append]
    refine ⟨h, by simp, ?_⟩
    intro a ha b hb
    simp only [List.mem_singleton] at hb
    subst hb
    intro hab
    exact this (hab ▸ ha)

end Entries
end DesignTokens
