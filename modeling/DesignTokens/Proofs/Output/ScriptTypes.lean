import DesignTokens.Output.Script
import DesignTokens.Proofs.Json.OneLine
import DesignTokens.Proofs.Json.Quoting

/-!
# The types of script values

The type of a value is declared as a text, and the items of an array count as of one type when their
texts are the same. That is sound because a text is the text of one type at most: what a type begins
with tells its kind, the names of members are quoted, and brackets behind a type are counted.
-/

namespace DesignTokens
namespace Output

/-! ## Types -/

inductive PlainType where
  | string
  | number
  | boolean
  | null
  | unknowns
deriving DecidableEq

inductive ScriptType where
  | plain (kind : PlainType)
  | array (item : ScriptType)
  | object (members : List (String × ScriptType))

namespace PlainType

def text : PlainType → String
  | .string => "string"
  | .number => "number"
  | .boolean => "boolean"
  | .null => "null"
  | .unknowns => "unknown[]"

def Admits : PlainType → Json → Prop
  | .string, .string _ => True
  | .number, .number _ => True
  | .boolean, .bool _ => True
  | .null, .null => True
  | .unknowns, .array _ => True
  | _, _ => False

end PlainType

namespace ScriptType

mutual

def chars : ScriptType → List Char
  | .plain kind => kind.text.toList
  | .array item => item.chars ++ ['[', ']']
  | .object members =>
      ['\x7b', ' '] ++ [';', ' '].intercalate (memberChars members) ++ [' ', '\x7d']

/-- The members of an object type as they are written. -/
def memberChars : List (String × ScriptType) → List (List Char)
  | [] => []
  | (name, type) :: rest =>
      (Json.quoteChars name.toList ++ [':', ' '] ++ type.chars) :: memberChars rest

end

mutual

/-- The value is one of the type. A value of an object type has the declared members, in their
order, and no others. -/
def Admits : ScriptType → Json → Prop
  | .plain kind, value => kind.Admits value
  | .array item, .array values => ∀ value ∈ values, item.Admits value
  | .object members, .object fields => AdmitsFields members fields
  | _, _ => False

/-- The fields are those of the members, with values of their types. -/
def AdmitsFields : List (String × ScriptType) → List (String × Json) → Prop
  | [], [] => True
  | (name, type) :: members, (found, value) :: fields =>
      found = name ∧ type.Admits value ∧ AdmitsFields members fields
  | _, _ => False

end

/-- The type of an array whose items have the given types. -/
def ofItems : List ScriptType → ScriptType
  | [] => .plain .unknowns
  | first :: rest => if rest.all (·.chars = first.chars) then .array first else .plain .unknowns

mutual

def declared : Json → ScriptType
  | .string _ => .plain .string
  | .number _ => .plain .number
  | .bool _ => .plain .boolean
  | .null => .plain .null
  | .array items => ofItems (declaredItems items)
  | .object fields => .object (declaredFields fields)

def declaredItems : List Json → List ScriptType
  | [] => []
  | item :: rest => declared item :: declaredItems rest

def declaredFields : List (String × Json) → List (String × ScriptType)
  | [] => []
  | (name, value) :: rest => (name, declared value) :: declaredFields rest

end

/-! ## The declared text -/

theorem chars_ofItems (types : List ScriptType) :
    (ofItems types).chars = arrayType (types.map chars) := by
  unfold arrayType
  cases types with
  | nil =>
      simp only [ofItems, chars, PlainType.text, List.map_nil]
  | cons first rest =>
      simp only [ofItems, List.map_cons, List.all_map, Function.comp_def]
      split
      · rw [chars]
      · simp only [chars, PlainType.text]

mutual

/-- The text that stands in a declaration is that of the declared type. -/
theorem chars_declared (value : Json) : (declared value).chars = typeChars value := by
  unfold typeChars
  cases value with
  | string | number | bool | null =>
      simp only [declared, chars, PlainType.text]
  | array items =>
      simp only [declared, chars_ofItems, chars_declaredItems items]
  | object fields =>
      simp only [declared, chars, memberChars_declaredFields fields]

theorem chars_declaredItems (items : List Json) :
    (declaredItems items).map chars = itemTypes items := by
  cases items with
  | nil =>
      rfl
  | cons item rest =>
      rw [declaredItems, List.map_cons, itemTypes, chars_declared item, chars_declaredItems rest]

/-- The members of an object type are written as the fields of the object are. -/
theorem memberChars_declaredFields (fields : List (String × Json)) :
    memberChars (declaredFields fields) = fieldTypes fields := by
  cases fields with
  | nil =>
      rfl
  | cons field rest =>
      rcases field with ⟨name, value⟩
      rw [declaredFields, memberChars, fieldTypes, chars_declared value,
        memberChars_declaredFields rest]

end

/-! ## Brackets -/

/-- Arrays of arrays of a type, as many times as the number says. -/
def arrays (type : ScriptType) : Nat → ScriptType
  | 0 => type
  | n + 1 => .array (type.arrays n)

def brackets : Nat → List Char
  | 0 => []
  | n + 1 => '[' :: ']' :: brackets n

variable {T U : ScriptType} {r s : List Char} {n : Nat}

theorem brackets_append_pair (n : Nat) (r : List Char) :
    brackets n ++ '[' :: ']' :: r = brackets (n + 1) ++ r := by
  induction n with
  | zero =>
      rfl
  | succ n ih =>
      simpa [brackets] using ih

theorem arrays_array (type : ScriptType) (n : Nat) :
    (ScriptType.array type).arrays n = type.arrays (n + 1) := by
  induction n with
  | zero =>
      rfl
  | succ n ih =>
      exact congrArg ScriptType.array ih

theorem chars_arrays (type : ScriptType) (n : Nat) :
    (type.arrays n).chars = type.chars ++ brackets n := by
  induction n with
  | zero =>
      simp [arrays, brackets]
  | succ n ih =>
      rw [arrays, chars, ih, List.append_assoc, brackets_append_pair, List.append_nil]

/-- Behind all arrays there is a type that is none. -/
theorem exists_eq_arrays : ∀ type : ScriptType,
    ∃ (core : ScriptType) (n : Nat), type = core.arrays n ∧ ∀ item, core ≠ .array item
  | .plain kind => ⟨.plain kind, 0, rfl, nofun⟩
  | .object members => ⟨.object members, 0, rfl, nofun⟩
  | .array item => by
      rcases exists_eq_arrays item with ⟨core, n, hitem, hcore⟩
      exact ⟨core, n + 1, congrArg ScriptType.array hitem, hcore⟩

/-- Of two types that one text begins with, one is an array of the other, as many times as there are
brackets that only one of them takes. -/
inductive Overlap (T U : ScriptType) (r s : List Char) : Prop where
  | left (n : Nat) (type : T = U.arrays n) (rest : s = brackets n ++ r)
  | right (n : Nat) (type : U = T.arrays n) (rest : r = brackets n ++ s)

/-- The brackets of an array are counted with the others. -/
theorem Overlap.array_left (h : Overlap T U ('[' :: ']' :: r) s) : Overlap (.array T) U r s := by
  cases h with
  | left n type rest =>
      refine .left (n + 1) (congrArg ScriptType.array type) ?_
      rw [rest, brackets_append_pair]
  | right n type rest =>
      cases n with
      | zero =>
          exact .left 1 (congrArg ScriptType.array type.symm) rest.symm
      | succ n =>
          refine .right n (type.trans (arrays_array T n).symm) ?_
          simpa [brackets] using rest

/-- Where no bracket follows, nothing is left to count. -/
theorem Overlap.eq (h : Overlap T U r s) (hr : r.head? ≠ some '[') (hs : s.head? ≠ some '[') :
    T = U ∧ r = s := by
  have hnone : ∀ {n : Nat} {a b : List Char}, a = brackets n ++ b → a.head? ≠ some '[' → n = 0 := by
    intro n a b hab ha
    cases n with
    | zero =>
        rfl
    | succ n =>
        exact absurd (by simp [hab, brackets]) ha
  cases h with
  | left n type rest =>
      have hn := hnone rest hs
      subst hn
      exact ⟨type, rest.symm⟩
  | right n type rest =>
      have hn := hnone rest hr
      subst hn
      exact ⟨type.symm, rest⟩

/-! ## One type for a text -/

/-- Two plain types that begin the same text are the same. -/
theorem PlainType.text_append_inj {kind other : PlainType}
    (h : kind.text.toList ++ r = other.text.toList ++ s) : kind = other ∧ r = s := by
  cases kind <;> cases other <;> simp_all [PlainType.text]

/-- The members of an object type up to its closing brace, and what follows it. -/
def body (members : List (String × ScriptType)) (r : List Char) : List Char :=
  [';', ' '].intercalate (memberChars members) ++ ' ' :: '\x7d' :: r

def bodyRest : List (String × ScriptType) → List Char → List Char
  | [], r => ' ' :: '\x7d' :: r
  | member :: members, r => ';' :: ' ' :: body (member :: members) r

/-- A member in front of others is its quoted name, a colon and its type. -/
theorem body_cons (name : String) (type : ScriptType) (members : List (String × ScriptType))
    (r : List Char) :
    body ((name, type) :: members) r =
      Json.quoteChars name.toList ++ ':' :: ' ' :: (type.chars ++ bodyRest members r) := by
  cases members with
  | nil =>
      simp [body, bodyRest, memberChars]
  | cons member members =>
      rcases member with ⟨next, other⟩
      simp [body, bodyRest, memberChars, List.intercalate_cons_cons]

theorem head?_bodyRest (members : List (String × ScriptType)) (r : List Char) :
    (bodyRest members r).head? ≠ some '[' := by
  cases members with
  | nil =>
      simp [bodyRest]
  | cons member members =>
      simp [bodyRest]

/-- Members that are written the same after a first one are written the same by themselves. -/
theorem body_eq_of_bodyRest_eq {members others : List (String × ScriptType)}
    (h : bodyRest members r = bodyRest others s) : body members r = body others s := by
  cases members with
  | nil =>
      cases others with
      | nil =>
          exact h
      | cons other others =>
          simp [bodyRest] at h
  | cons member members =>
      cases others with
      | nil =>
          simp [bodyRest] at h
      | cons other others =>
          simpa [bodyRest] using h

/-- A plain type does not begin with a brace. -/
theorem head?_text (kind : PlainType) : ∃ c rest, kind.text.toList = c :: rest ∧ c ≠ '\x7b' := by
  cases kind <;> exact ⟨_, _, rfl, by decide⟩

mutual

/-- Two types that one text begins with differ by brackets at most. -/
theorem overlap (T U : ScriptType) (r s : List Char) (h : T.chars ++ r = U.chars ++ s) :
    Overlap T U r s := by
  cases T with
  | array item =>
      -- The brackets of the array are what follows its item.
      refine (overlap item U ('[' :: ']' :: r) s ?_).array_left
      rw [← h, chars, List.append_assoc]
      rfl
  | plain kind =>
      -- The other type is a core with brackets behind it, and the core begins as this type does.
      rcases exists_eq_arrays U with ⟨core, n, rfl, hcore⟩
      rw [chars_arrays, List.append_assoc] at h
      cases core with
      | array item =>
          exact absurd rfl (hcore item)
      | plain other =>
          rw [chars, chars] at h
          rcases PlainType.text_append_inj h with ⟨rfl, hrest⟩
          exact .right n rfl hrest
      | object members =>
          -- A plain type and an object begin with different characters.
          rcases head?_text kind with ⟨c, rest, htext, hc⟩
          rw [chars, chars, htext] at h
          exact absurd (List.cons.inj h).1 hc
  | object members =>
      rcases exists_eq_arrays U with ⟨core, n, rfl, hcore⟩
      rw [chars_arrays, List.append_assoc] at h
      cases core with
      | array item =>
          exact absurd rfl (hcore item)
      | plain kind =>
          rcases head?_text kind with ⟨c, rest, htext, hc⟩
          rw [chars, chars, htext] at h
          exact absurd (List.cons.inj h).1.symm hc
      | object others =>
          have hbody : body members r = body others (brackets n ++ s) := by
            simpa [chars, body] using h
          rcases body_inj members others r (brackets n ++ s) hbody with ⟨rfl, hrest⟩
          exact .right n rfl hrest

/-- The members of an object type can be read from the text in one way only. -/
theorem body_inj (members others : List (String × ScriptType)) (r s : List Char)
    (h : body members r = body others s) : members = others ∧ r = s := by
  cases members with
  | nil =>
      cases others with
      | nil =>
          simpa [body, memberChars] using h
      | cons other others =>
          rw [body_cons] at h
          simp [body, memberChars, Json.quoteChars] at h
  | cons member members =>
      rcases member with ⟨name, type⟩
      cases others with
      | nil =>
          rw [body_cons] at h
          simp [body, memberChars, Json.quoteChars] at h
      | cons other others =>
          rcases other with ⟨name', type'⟩
          -- The names are told apart by their quotation marks, and the types by what follows them.
          rw [body_cons, body_cons, Json.quoteChars_append_inj, String.toList_inj] at h
          rcases h with ⟨rfl, h⟩
          have htypes := List.cons.inj (List.cons.inj h).2
          rcases (overlap type type' _ _ htypes.2).eq (head?_bodyRest members r)
            (head?_bodyRest others s) with ⟨rfl, hrest⟩
          rcases body_inj members others r s (body_eq_of_bodyRest_eq hrest) with ⟨rfl, hr⟩
          exact ⟨rfl, hr⟩

end

/-- A text is the text of one type at most. -/
theorem chars_inj : T.chars = U.chars ↔ T = U := by
  constructor
  · intro h
    exact ((overlap T U [] [] (congrArg (· ++ []) h)).eq (by simp) (by simp)).1
  · rintro rfl
    rfl

def text (type : ScriptType) : String :=
  String.ofList type.chars

/-- The text that is declared for a value is that of one type. -/
theorem text_eq_typeText_iff {value : Json} : T.text = typeText value ↔ T = declared value := by
  rw [text, typeText, ← chars_declared, String.ofList_inj, chars_inj]

/-! ## Declared types -/

theorem declaredItems_eq_map (items : List Json) : declaredItems items = items.map declared := by
  induction items with
  | nil =>
      rfl
  | cons item rest ih =>
      rw [declaredItems, ih, List.map_cons]

/-- An array is declared as one of a type if it has items and all of them are declared so. -/
theorem declared_array_iff (items : List Json) (type : ScriptType) :
    declared (.array items) = .array type ↔
      items ≠ [] ∧ ∀ item ∈ items, declared item = type := by
  rw [declared, declaredItems_eq_map]
  cases items with
  | nil =>
      simp [ofItems]
  | cons first rest =>
      simp only [List.map_cons, ofItems, List.all_map, Function.comp_def, List.forall_mem_cons,
        ne_eq, reduceCtorEq, not_false_eq_true, true_and]
      split
      · rename_i hall
        have hsame : ∀ item ∈ rest, declared item = declared first := by
          simpa [chars_inj] using hall
        rw [ScriptType.array.injEq]
        refine ⟨fun heq => ⟨heq, fun item hitem => (hsame item hitem).trans heq⟩, And.left⟩
      · rename_i hmixed
        refine iff_of_false nofun fun hall => hmixed ?_
        simpa [chars_inj, hall.1] using hall.2

/-- The type of a list is an array of one type, or of unknown values. -/
theorem declared_array_cases (items : List Json) :
    declared (.array items) = .plain .unknowns ∨
      ∃ type, declared (.array items) = .array type := by
  rw [declared]
  cases declaredItems items with
  | nil =>
      exact Or.inl rfl
  | cons first rest =>
      rw [ofItems]
      split
      · exact Or.inr ⟨first, rfl⟩
      · exact Or.inl rfl

mutual

/-- A value is of the type that is declared for it. -/
theorem admits_declared (value : Json) : (declared value).Admits value := by
  cases value with
  | string | number | bool | null =>
      rw [declared, Admits]
      trivial
  | array items =>
      rcases declared_array_cases items with hdeclared | ⟨type, hdeclared⟩
      · rw [hdeclared, Admits]
        trivial
      · rw [hdeclared, Admits]
        intro item hitem
        rw [← ((declared_array_iff items type).1 hdeclared).2 item hitem]
        exact admits_declaredItems items item hitem
  | object fields =>
      rw [declared, Admits]
      exact admitsFields_declaredFields fields

theorem admits_declaredItems (items : List Json) :
    ∀ item ∈ items, (declared item).Admits item := by
  cases items with
  | nil =>
      simp
  | cons item rest =>
      rw [List.forall_mem_cons]
      exact ⟨admits_declared item, admits_declaredItems rest⟩

theorem admitsFields_declaredFields (fields : List (String × Json)) :
    AdmitsFields (declaredFields fields) fields := by
  cases fields with
  | nil =>
      trivial
  | cons field rest =>
      rcases field with ⟨name, value⟩
      rw [declaredFields, AdmitsFields]
      exact ⟨rfl, admits_declared value, admitsFields_declaredFields rest⟩

end

/-! ## On one line -/

mutual

theorem noControls_chars (type : ScriptType) : Json.NoControls type.chars := by
  cases type with
  | plain kind =>
      rw [chars]
      cases kind <;> simp [PlainType.text]
  | array item =>
      simp [chars, noControls_chars item]
  | object members =>
      have hinside : Json.NoControls ([';', ' '].intercalate (memberChars members)) :=
        (Text.forall_mem_intercalate_iff (by simp)).2 (noControls_memberChars members)
      simp [chars, hinside]

theorem noControls_memberChars (members : List (String × ScriptType)) :
    ∀ text ∈ memberChars members, Json.NoControls text := by
  cases members with
  | nil =>
      simp [memberChars]
  | cons member rest =>
      rcases member with ⟨name, type⟩
      rw [memberChars, List.forall_mem_cons]
      refine ⟨?_, noControls_memberChars rest⟩
      simp [Json.noControls_quoteChars, noControls_chars type]

end

end ScriptType
end Output
end DesignTokens
