import DesignTokens.Proofs.Output.Layout
import DesignTokens.Proofs.Transform.AsciiNames

/-!
# Names that are legal in their targets

Exported names and the names of Swift constants are always legal: they are made identifiers as the
last step. The names of resources and of the Swift enumeration are not. A prefix is put in front of
a resource name, and the words of a path are used for it, without a look at their characters, and
the name of the enumeration is made of the words of the prefix as they are.
-/

namespace DesignTokens
namespace Output

/-! ## Legal names -/

/-- The name starts with a character of one class and goes on with characters of another. -/
def spelled (first later : Char → Bool) (name : String) : Bool :=
  match name.toList with
  | [] => false
  | c :: rest => first c && rest.all later

/-- A letter of ASCII, an underscore or a dollar sign, and then digits as well. -/
def isScriptName : String → Bool :=
  spelled (fun c => c.isAlpha || c = '_' || c = '$') fun c => c.isAlphanum || c = '_' || c = '$'

/-- A letter of ASCII or an underscore, and then digits as well. -/
def isSwiftName : String → Bool :=
  spelled (fun c => c.isAlpha || c = '_') fun c => c.isAlphanum || c = '_'

/-- A lower-case letter of ASCII or an underscore, and then digits as well. -/
def isResourceName : String → Bool :=
  spelled (fun c => c.isLower || c = '_') fun c => c.isLower || c.isDigit || c = '_'

variable {first later : Char → Bool} {name : String} {start : Option String}
  {token : TransformedToken} {c : Char}

/-- The classes of a legal name: letters and marks in front, and digits as well behind. -/
theorem spelled_iff {letter mark : Char → Bool}
    (hletter : ∀ c, letter c = true → c.isDigit = false)
    (hmark : ∀ c, mark c = true → c.isDigit = false) :
    spelled (fun c => letter c || mark c) (fun c => letter c || c.isDigit || mark c) name = true ↔
      name ≠ "" ∧ (∀ c ∈ name.toList, (letter c || c.isDigit || mark c) = true) ∧
        ∀ c ∈ name.toList.head?, c.isDigit = false := by
  have hfirst : ∀ c, (letter c || mark c) = ((letter c || c.isDigit || mark c) && !c.isDigit) := by
    intro c
    cases hl : letter c with
    | true =>
        simp [hletter c hl]
    | false =>
        cases hm : mark c with
        | true =>
            simp [hmark c hm]
        | false =>
            simp
  rw [spelled, ne_eq, ← String.toList_inj]
  cases name.toList with
  | nil =>
      simp
  | cons c rest =>
      simp only [hfirst]
      simp [and_right_comm]

theorem isScriptName_iff :
    isScriptName name = true ↔
      name ≠ "" ∧ (∀ c ∈ name.toList, (c.isAlphanum || (c = '_' || c = '$')) = true) ∧
        ∀ c ∈ name.toList.head?, c.isDigit = false := by
  unfold isScriptName
  simp only [Bool.or_assoc]
  refine spelled_iff (fun c => Text.isDigit_eq_false_of_isAlpha) fun c hmark => ?_
  rcases by simpa using hmark with rfl | rfl <;> rfl

theorem isSwiftName_iff :
    isSwiftName name = true ↔
      name ≠ "" ∧ (∀ c ∈ name.toList, (c.isAlphanum || c = '_') = true) ∧
        ∀ c ∈ name.toList.head?, c.isDigit = false := by
  refine spelled_iff (fun c => Text.isDigit_eq_false_of_isAlpha) fun c hmark => ?_
  obtain rfl := of_decide_eq_true hmark
  rfl

theorem isResourceName_iff :
    isResourceName name = true ↔
      name ≠ "" ∧ (∀ c ∈ name.toList, isResourceChar c = true) ∧
        ∀ c ∈ name.toList.head?, c.isDigit = false := by
  refine spelled_iff (fun c hletter => ?_) fun c hmark => ?_
  · exact Text.isDigit_eq_false_of_isAlpha (Text.isAlpha_of_isLower hletter)
  · obtain rfl := of_decide_eq_true hmark
    rfl

theorem isScriptName_of_isSwiftName (h : isSwiftName name = true) : isScriptName name = true := by
  rcases isSwiftName_iff.1 h with ⟨hne, hclass, hdigit⟩
  refine isScriptName_iff.2 ⟨hne, fun c hc => ?_, hdigit⟩
  rw [← Bool.or_assoc, hclass c hc, Bool.true_or]

/-- A name of a script is accepted by Swift unless it has a dollar sign. -/
theorem isSwiftName_of_isScriptName (h : isScriptName name = true) (hdollar : '$' ∉ name.toList) :
    isSwiftName name = true := by
  rcases isScriptName_iff.1 h with ⟨hne, hclass, hdigit⟩
  refine isSwiftName_iff.2 ⟨hne, fun c hc => ?_, hdigit⟩
  have hother : c ≠ '$' := fun heq => hdollar (heq ▸ hc)
  simpa [hother] using hclass c hc

/-! ## Identifiers -/

theorem mem_cleaned {s : List Char} (h : c ∈ cleaned s) : (c.isAlphanum || c = '_') = true := by
  rcases List.mem_map.1 h with ⟨d, -, rfl⟩
  split
  · assumption
  · rfl

/-- What is not an identifier becomes one without dollar signs. -/
theorem identifier_cases (name : String) :
    isScriptName name = true ∧ identifier name = name ∨ isSwiftName (identifier name) = true := by
  unfold identifier
  split
  · rename_i hname
    exact .inl ⟨hname, rfl⟩
  · -- dollar signs are not kept when a name is cleaned
    refine .inr ?_
    cases hcleaned : cleaned name.toList with
    | nil =>
        decide
    | cons c rest =>
        have hclass : ∀ d ∈ c :: rest, (d.isAlphanum || d = '_') = true :=
          fun d hd => mem_cleaned (hcleaned ▸ hd)
        dsimp only
        rw [isSwiftName_iff, ne_eq, ← String.toList_inj, String.toList_ofList]
        by_cases hdigit : c.isDigit = true
        · rw [if_pos hdigit]
          exact ⟨by simp, List.forall_mem_cons.2 ⟨rfl, hclass⟩, by simp⟩
        · rw [if_neg hdigit]
          exact ⟨by simp, hclass, by simpa using hdigit⟩

theorem isScriptName_identifier (name : String) : isScriptName (identifier name) = true := by
  rcases identifier_cases name with ⟨hname, heq⟩ | hswift
  · rwa [heq]
  · exact isScriptName_of_isSwiftName hswift

theorem isSwiftName_identifier (h : '$' ∉ name.toList) : isSwiftName (identifier name) = true := by
  rcases identifier_cases name with ⟨hname, heq⟩ | hswift
  · rw [heq]
    exact isSwiftName_of_isScriptName hname h
  · exact hswift

theorem isSwiftName_memberName (token : TransformedToken) :
    isSwiftName (memberName token) = true := by
  refine isSwiftName_identifier fun hdollar => ?_
  split at hdollar
  · rename_i hown
    exact absurd (List.all_eq_true.1 hown _ hdollar) (by decide)
  -- a path in camel case brings in letters and digits only, though not of ASCII only
  · rcases NameCase.wordlike_of_mem_camel hdollar with hbeyond | hword
    · exact absurd hbeyond (by decide)
    · exact absurd hword (by decide)

/-! ## Names of resources -/

/-- The part of a prefix that is put in front of names. -/
def trimmedPrefix (start : Option String) : List Char :=
  (start.map fun s => trimEdges s.toList).getD []

/-- A prefix without characters puts no separator in front of the name. -/
theorem toList_prefixed (start : Option String) (name separator : String) :
    (prefixed start name separator).toList =
      if trimmedPrefix start = [] then name.toList
      else trimmedPrefix start ++ separator.toList ++ name.toList := by
  unfold prefixed trimmedPrefix
  generalize start.map (fun s => trimEdges s.toList) = edges
  rcases edges with _ | _ | ⟨c, rest⟩ <;> simp

theorem prefixed_eq_empty_iff {separator : String} :
    prefixed start name separator = "" ↔ trimmedPrefix start = [] ∧ name = "" := by
  rw [← String.toList_inj, toList_prefixed]
  by_cases hnone : trimmedPrefix start = []
  · simp [hnone]
  · simp [hnone]

/-- A property of the separator holds of a prefixed name when it holds of the prefix and of the
name. -/
theorem forall_mem_prefixed_iff {P : Char → Prop} {separator : String}
    (hseparator : ∀ c ∈ separator.toList, P c) :
    (∀ c ∈ (prefixed start name separator).toList, P c) ↔
      (∀ c ∈ trimmedPrefix start, P c) ∧ ∀ c ∈ name.toList, P c := by
  rw [toList_prefixed]
  by_cases hnone : trimmedPrefix start = []
  · simp [hnone]
  · rw [if_neg hnone, List.forall_mem_append, List.forall_mem_append, and_iff_left hseparator]

def KeepsName (token : TransformedToken) : Prop :=
  token.name ≠ "" ∧ ∀ c ∈ token.name.toList, isResourceChar c = true

/-- Each part of the token's resource name is in the characters of resource names, and there is at
least one part. -/
structure NamesResource (start : Option String) (token : TransformedToken) : Prop where
  edges : ∀ c ∈ trimmedPrefix start, isResourceChar c = true
  path : KeepsName token ∨ ∀ segment ∈ token.path, ∀ c ∈ segment.toList,
    Text.isAlphanumeric c = true → NameCase.LowersToAscii c
  nonempty : trimmedPrefix start ≠ [] ∨ KeepsName token ∨
    ∃ segment ∈ token.path, ∃ c ∈ segment.toList, Text.isAlphanumeric c = true

theorem toNat_lt_of_isResourceChar (h : isResourceChar c = true) : c.toNat < 0x80 := by
  unfold isResourceChar at h
  rw [Bool.or_eq_true_iff, Bool.or_eq_true_iff, decide_eq_true_iff] at h
  rcases h with (hletter | hdigit) | rfl
  · exact Text.toNat_lt_of_isAlphanum (Text.isAlphanum_of_isAlpha (Text.isAlpha_of_isLower hletter))
  · exact Text.toNat_lt_of_isAlphanum (Text.isAlphanum_of_isDigit hdigit)
  · decide

/-- The part of a resource name that is the token's own. -/
def resourceBase (token : TransformedToken) : String :=
  if token.name ≠ "" && token.name.toList.all isResourceChar then token.name
  else NameCase.snake.apply token.path

theorem resourceBase_of_keepsName (h : KeepsName token) : resourceBase token = token.name := by
  rw [resourceBase, if_pos]
  simpa [KeepsName] using h

theorem resourceBase_of_not_keepsName (h : ¬ KeepsName token) :
    resourceBase token = NameCase.snake.apply token.path := by
  rw [resourceBase, if_neg]
  simpa [KeepsName] using h

/-- A digit in front of a resource name is shielded. -/
theorem resourceName_eq (start : Option String) (token : TransformedToken) :
    resourceName start token =
      if (prefixed start (resourceBase token) "_").toList.head?.any Char.isDigit then
        "_" ++ prefixed start (resourceBase token) "_"
      else prefixed start (resourceBase token) "_" := by
  unfold resourceName
  dsimp only
  split
  -- `resourceBase` names what the definition has in place
  · rename_i c rest hchars
    have hbase : (prefixed start (resourceBase token) "_").toList = c :: rest := hchars
    rw [hbase]
    rfl
  · rename_i hchars
    have hbase : (prefixed start (resourceBase token) "_").toList = [] := hchars
    rw [hbase]
    rfl

/-- Whether a resource name is legal is a question of its characters, as a digit in front has been
taken care of. -/
theorem isResourceName_resourceName_iff_prefixed :
    isResourceName (resourceName start token) = true ↔
      prefixed start (resourceBase token) "_" ≠ "" ∧
        ∀ c ∈ (prefixed start (resourceBase token) "_").toList, isResourceChar c = true := by
  rw [resourceName_eq]
  generalize prefixed start (resourceBase token) "_" = name
  rw [isResourceName_iff, ne_eq, ne_eq, ← String.toList_inj, ← String.toList_inj]
  cases hchars : name.toList with
  | nil =>
      simp [hchars]
  | cons c rest =>
      by_cases hdigit : c.isDigit = true
      · have hunderscore : isResourceChar '_' = true := rfl
        simp [hchars, hdigit, hunderscore]
      · simp [hchars, hdigit]

/-- The characters of a resource's base are legal when the name is kept or the path lowers to
ASCII. -/
theorem forall_mem_resourceBase_iff :
    (∀ c ∈ (resourceBase token).toList, isResourceChar c = true) ↔
      KeepsName token ∨ ∀ segment ∈ token.path, ∀ c ∈ segment.toList,
        Text.isAlphanumeric c = true → NameCase.LowersToAscii c := by
  by_cases hkeeps : KeepsName token
  · simp only [resourceBase_of_keepsName hkeeps, hkeeps, true_or, iff_true]
    exact hkeeps.2
  · rw [resourceBase_of_not_keepsName hkeeps, or_iff_right hkeeps]
    refine NameCase.forall_mem_snake_iff (fun d hd => ?_) (fun d => toNat_lt_of_isResourceChar) rfl
    simp [isResourceChar, hd]

/-- A resource has a base when its name is kept or its path has an alphanumeric character. -/
theorem resourceBase_ne_empty_iff :
    resourceBase token ≠ "" ↔ KeepsName token ∨
      ∃ segment ∈ token.path, ∃ c ∈ segment.toList, Text.isAlphanumeric c = true := by
  by_cases hkeeps : KeepsName token
  · simp only [resourceBase_of_keepsName hkeeps, hkeeps, true_or, iff_true]
    exact hkeeps.1
  · rw [resourceBase_of_not_keepsName hkeeps, or_iff_right hkeeps, ne_eq,
      NameCase.snake_eq_empty_iff, NameCase.words_eq_nil_iff]
    simp

/-- A resource has a legal name exactly when `NamesResource` says so. -/
theorem isResourceName_resourceName_iff :
    isResourceName (resourceName start token) = true ↔ NamesResource start token := by
  have hunderscore : ∀ c ∈ "_".toList, isResourceChar c = true := by
    simp [isResourceChar]
  rw [isResourceName_resourceName_iff_prefixed, forall_mem_prefixed_iff hunderscore, ne_eq,
    prefixed_eq_empty_iff, not_and_or, ← ne_eq, ← ne_eq, resourceBase_ne_empty_iff,
    forall_mem_resourceBase_iff]
  constructor
  · rintro ⟨hnonempty, hedges, hpath⟩
    exact ⟨hedges, hpath, hnonempty⟩
  · rintro ⟨hedges, hpath, hnonempty⟩
    exact ⟨hnonempty, hedges, hpath⟩

/-- Every escape has characters that are not legal. -/
theorem forall_mem_xmlChar_iff :
    (∀ d ∈ xmlChar c, isResourceChar d = true) ↔ isResourceChar c = true := by
  unfold xmlChar
  split_ifs with hless hgreater hand happly hquote
  case neg =>
    simp
  all_goals
    subst c
    simp [isResourceChar]

theorem xmlChar_eq_self (h : isResourceChar c = true) : xmlChar c = [c] := by
  unfold xmlChar
  split_ifs
  case neg =>
    rfl
  all_goals
    subst c
    cases h

theorem xmlText_eq_self (h : ∀ c ∈ name.toList, isResourceChar c = true) : xmlText name = name := by
  rw [xmlText, List.flatMap_congr fun c hc => xmlChar_eq_self (h c hc), List.flatMap_singleton',
    String.ofList_toList]

theorem isResourceName_xmlText_iff :
    isResourceName (xmlText name) = true ↔ isResourceName name = true := by
  constructor
  · intro h
    have hchars := (isResourceName_iff.1 h).2.1
    rw [xmlText, String.toList_ofList, List.forall_mem_flatMap] at hchars
    rwa [xmlText_eq_self fun c hc => forall_mem_xmlChar_iff.1 (hchars c hc)] at h
  · intro h
    rwa [xmlText_eq_self (isResourceName_iff.1 h).2.1]

/-! ## Names of enumerations -/

/-- The first letter or digit of the prefix is no digit, and its words are in ASCII in Pascal
case. -/
def NamesType (start : Option String) : Prop :=
  ∀ s ∈ start, (∀ c ∈ s.toList.find? Text.isAlphanumeric, c.isDigit = false) ∧
    ∀ word ∈ prefixWords s.toList, ∀ c rest, word.toList = c :: rest →
      NameCase.CapitalizesToAscii c ∧ ∀ d ∈ rest, NameCase.LowersToAscii d

/-- The words of a prefix are alphanumeric. -/
theorem isAlphanumeric_of_mem_prefixWords {s : List Char} {word : String}
    (h : word ∈ prefixWords s) (hc : c ∈ word.toList) : Text.isAlphanumeric c = true := by
  rcases List.mem_map.1 h with ⟨part, hpart, rfl⟩
  rw [String.toList_ofList] at hc
  simpa using Text.eq_false_of_mem_splitOnP hpart hc

/-- The words of a prefix together are its letters and digits. -/
theorem flatMap_filter_prefixWords (s : List Char) :
    (prefixWords s).flatMap (fun word => word.toList.filter Text.isAlphanumeric) =
      s.filter Text.isAlphanumeric := by
  have hwords : (prefixWords s).flatMap (fun word => word.toList.filter Text.isAlphanumeric) =
      (prefixWords s).flatMap String.toList :=
    List.flatMap_congr fun word hword =>
      List.filter_eq_self.2 fun c hc => isAlphanumeric_of_mem_prefixWords hword hc
  have hparts := Text.flatten_splitOnP (fun c => !Text.isAlphanumeric c) s
  rw [hwords, prefixWords, List.flatMap_map]
  simpa [List.flatMap_id'] using hparts

/-- The name in Pascal case begins as the prefix does after what is neither a letter nor a digit. -/
theorem head?_pascal_prefixWords (s : List Char) :
    (NameCase.pascal.apply (prefixWords s)).toList.head?.map Char.isDigit =
      (s.find? Text.isAlphanumeric).map Char.isDigit := by
  rw [NameCase.head?_pascal, flatMap_filter_prefixWords, List.head?_filter]

/-- The words of a prefix make an ASCII name when their first characters capitalize to ASCII and the
others lower to it. -/
theorem forall_mem_pascal_prefixWords_iff (s : List Char) :
    (∀ c ∈ (NameCase.pascal.apply (prefixWords s)).toList, (c.isAlphanum || c = '_') = true) ↔
      ∀ word ∈ prefixWords s, ∀ c rest, word.toList = c :: rest →
        NameCase.CapitalizesToAscii c ∧ ∀ d ∈ rest, NameCase.LowersToAscii d := by
  have hascii : ∀ d : Char, (d.isAlphanum || d = '_') = true → d.toNat < 0x80 := by
    intro d hd
    rcases Bool.or_eq_true_iff.1 hd with hword | hmark
    · exact Text.toNat_lt_of_isAlphanum hword
    · obtain rfl := of_decide_eq_true hmark
      decide
  rw [NameCase.forall_mem_pascal_iff (fun d hd => by simp [hd]) hascii]
  refine forall₂_congr fun word hword => ?_
  rw [List.filter_eq_self.2 fun c hc => isAlphanumeric_of_mem_prefixWords hword hc]

theorem isSwiftName_swiftTypeName_iff :
    isSwiftName (swiftTypeName start) = true ↔ NamesType start := by
  have hhead : ∀ first : Option Char,
      (∀ c ∈ first, c.isDigit = false) ↔ first.map Char.isDigit ≠ some true := by
    rintro (_ | c) <;> simp
  cases start with
  | none =>
      exact iff_of_true (by decide) (by simp [NamesType])
  | some s =>
      have hname : swiftTypeName (some s) =
          if NameCase.pascal.apply (prefixWords s.toList) = "" then "Tokens"
          else NameCase.pascal.apply (prefixWords s.toList) := rfl
      simp only [NamesType, Option.mem_some_iff, forall_eq']
      rw [← forall_mem_pascal_prefixWords_iff, hhead, ← head?_pascal_prefixWords, ← hhead, hname]
      split
      -- without letters and digits in the prefix there is no word to check
      · rename_i hempty
        rw [hempty]
        exact iff_of_true (by decide) (by simp)
      · rename_i hne
        rw [isSwiftName_iff, and_iff_right hne, and_comm]

/-! ## Names in files -/

/-- The names in the files of scripts and the names of Swift constants are legal. The name of a
resource is legal if and only if its parts are in the characters of resource names, and the name of
the enumeration if and only if the words of the prefix are. -/
theorem names_legal_iff (tokens : List TransformedToken) (start : Option String) (base : Float) :
    (jsModule tokens start = (Layout.exports start).file tokens ∧
      ∀ token, isScriptName ((Layout.exports start).name token) = true) ∧
    (tsDeclarations tokens start = (Layout.declarations start).file tokens ∧
      ∀ token, isScriptName ((Layout.declarations start).name token) = true) ∧
    (androidResources tokens start base = (Layout.resources start base).file tokens ∧
      ∀ token, isResourceName ((Layout.resources start base).name token) = true ↔
        NamesResource start token) ∧
    (iosSwift tokens start base = (Layout.constants start base).file tokens ∧
      (∀ token, isSwiftName ((Layout.constants start base).name token) = true) ∧
      (Layout.constants start base).opening =
        Layout.enumerationFront ++ swiftTypeName start ++ " \x7b\n" ∧
      (isSwiftName (swiftTypeName start) = true ↔ NamesType start)) := by
  refine ⟨⟨Layout.jsModule_eq, fun token => isScriptName_identifier _⟩,
    ⟨Layout.tsDeclarations_eq, fun token => isScriptName_identifier _⟩,
    ⟨Layout.androidResources_eq, fun token => ?_⟩,
    ⟨Layout.iosSwift_eq, isSwiftName_memberName, rfl, isSwiftName_swiftTypeName_iff⟩⟩
  exact isResourceName_xmlText_iff.trans isResourceName_resourceName_iff

def pathToken (path : List String) : TransformedToken where
  path := path
  name := Text.join "-" path
  value := .bool true
  written := .bool true

/-- A prefix with a digit in front names the enumeration. A prefix with capitals, a letter beyond
ASCII and a path without letters and digits come into the name of a resource. -/
theorem names_not_legal :
    (Layout.constants (some "2x") 16).opening = Layout.enumerationFront ++ "2x \x7b\n" ∧
      isSwiftName "2x" = false ∧
      isResourceName ((Layout.resources (some "DS") 16).name (pathToken ["gap"])) = false ∧
      isResourceName ((Layout.resources none 16).name (pathToken ["größe"])) = false ∧
      isResourceName ((Layout.resources none 16).name (pathToken ["-"])) = false := by
  decide +kernel

end Output
end DesignTokens
