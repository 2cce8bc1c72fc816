import DesignTokens.Transform.Basic
import Mathlib.Data.List.Induction

/-!
# The transforms that decide

The last transform that applies to a token and names tokens decides its name, and the last one that
applies and writes values decides its value. Nothing that an earlier transform did is left over.

For a name this is so because every transform starts from the path. A value is kept when it cannot
be read, and then what an earlier transform wrote would stay. But there is no such transform: a
value is read by the rules of one family, no type is in two families, and the format or the unit
that a value is written in has no say in whether it can be read. What the last transform cannot
read, none could.
-/

namespace DesignTokens

/-! ## Families -/

def familyTypes : List String :=
  colorTypes ++ sizeTypes ++ timeTypes

theorem isTypeAmong_append (types others : List String) (type : Option String) :
    isTypeAmong (types ++ others) type = (isTypeAmong types type || isTypeAmong others type) := by
  cases type with
  | none =>
      rfl
  | some name =>
      simp [isTypeAmong]

/-- No type is in two families. -/
theorem isTypeAmong_eq_false {types others : List String} {type : Option String}
    (h : ∀ name ∈ types, name ∉ others) (htype : isTypeAmong types type = true) :
    isTypeAmong others type = false := by
  cases type with
  | none =>
      rfl
  | some name =>
      have hmem : name ∈ types := by simpa [isTypeAmong] using htype
      simpa [isTypeAmong] using h name hmem

namespace TransformKind

variable {kind : TransformKind} {type : Option String}

def style? : TransformKind → Option NameCase
  | .name style => some style
  | _ => none

def isNaming (kind : TransformKind) : Bool :=
  kind.style?.isSome

def isWriting (kind : TransformKind) : Bool :=
  !kind.isNaming

/-- A value as a kind writes it, if the kind writes values and can read this one. -/
def written? (base : Float) (value : Json) : TransformKind → Option Json
  | .name _ => none
  | .color format => Transform.convertColor value format
  | .size unit => Transform.convertSize value unit base
  | .time unit => Transform.convertTime value unit

def colorOf? (value : Json) : Option Value.Color :=
  value.string?.bind fun text => (Value.Color.parse text).toOption

/-- A color is converted where the value can be read as one. -/
theorem convertColor_eq (value : Json) (format : Value.ColorFormat) :
    Transform.convertColor value format =
      (colorOf? value).map fun color => .string (color.text format) := by
  cases htext : value.string? with
  | none =>
      simp [Transform.convertColor, colorOf?, htext]
  | some text =>
      rw [Transform.convertColor, colorOf?, htext, Option.bind_some, Option.map_eq_bind]
      rfl

/-- A value can be read by the rules of the family of its type. -/
def isReadable (type : Option String) (value : Json) : Bool :=
  if isTypeAmong colorTypes type then (colorOf? value).isSome
  else if isTypeAmong sizeTypes type then (Transform.sizeOf? value).isSome
  else (Transform.durationOf? value).isSome

/-- The type and the value decide whether the value can be read, whatever it is to be written as. -/
theorem isSome_written? (hkind : kind.isWriting = true) (hcovers : kind.coversType type = true)
    (base : Float) (value : Json) :
    (kind.written? base value).isSome = isReadable type value := by
  cases kind with
  | name style =>
      cases hkind
  | color format =>
      have hcolor : isTypeAmong colorTypes type = true := hcovers
      simp [written?, convertColor_eq, isReadable, hcolor]
  | size unit =>
      have hsize : isTypeAmong sizeTypes type = true := hcovers
      have hcolor : isTypeAmong colorTypes type = false := isTypeAmong_eq_false (by decide) hsize
      simp [written?, Transform.convertSize, isReadable, hsize, hcolor]
  | time unit =>
      have htime : isTypeAmong timeTypes type = true := hcovers
      have hcolor : isTypeAmong colorTypes type = false := isTypeAmong_eq_false (by decide) htime
      have hsize : isTypeAmong sizeTypes type = false := isTypeAmong_eq_false (by decide) htime
      simp [written?, Transform.convertTime, isReadable, hcolor, hsize]

/-- The families of types cover what a writing transform covers. -/
theorem isTypeAmong_familyTypes (hkind : kind.isWriting = true)
    (hcovers : kind.coversType type = true) : isTypeAmong familyTypes type = true := by
  simp only [familyTypes, isTypeAmong_append, Bool.or_eq_true]
  cases kind with
  | name style =>
      cases hkind
  | color format =>
      exact Or.inl (Or.inl hcovers)
  | size unit =>
      exact Or.inl (Or.inr hcovers)
  | time unit =>
      exact Or.inr hcovers

end TransformKind

/-! ## The last one that applies -/

namespace Transform

variable {transforms : List Transform} {transform : Transform} {token : ResolvedToken}
  {sort : TransformKind → Bool} {base : Float}

/-- The last transform of a sort that applies to a token. -/
def lastApplying? (sort : TransformKind → Bool) (transforms : List Transform)
    (token : ResolvedToken) : Option Transform :=
  (transforms.filter fun transform =>
    sort transform.kind && transform.appliesTo token.path token.type).getLast?

/-- The last transform that applies to a token and names it. -/
def lastNaming? (transforms : List Transform) (token : ResolvedToken) : Option Transform :=
  lastApplying? TransformKind.isNaming transforms token

/-- The last transform that applies to a token and writes its value. -/
def lastWriting? (transforms : List Transform) (token : ResolvedToken) : Option Transform :=
  lastApplying? TransformKind.isWriting transforms token

/-- The last transform that applies is the one at the end, if it does. -/
theorem lastApplying?_append_singleton (sort : TransformKind → Bool) (transforms : List Transform)
    (transform : Transform) (token : ResolvedToken) :
    lastApplying? sort (transforms ++ [transform]) token =
      if sort transform.kind && transform.appliesTo token.path token.type then some transform
      else lastApplying? sort transforms token := by
  by_cases h : (sort transform.kind && transform.appliesTo token.path token.type) = true
  · simp [lastApplying?, List.filter_append, h]
  · simp [lastApplying?, List.filter_append, h]

/-- The last transform that applies is of its sort and applies. -/
theorem of_lastApplying? (h : lastApplying? sort transforms token = some transform) :
    sort transform.kind = true ∧ transform.appliesTo token.path token.type = true := by
  have hmem := List.mem_of_getLast? h
  simpa using (List.mem_filter.1 hmem).2

/-- Next to a transform of another sort, one that applies is still the last of its own. -/
theorem lastApplying?_of_apart {own other : Option Transform}
    (hown : ∀ transform ∈ own,
      sort transform.kind = true ∧ transform.appliesTo token.path token.type = true)
    (hother : ∀ transform ∈ other, sort transform.kind = false) :
    lastApplying? sort (own.toList ++ other.toList) token = own ∧
      lastApplying? sort (other.toList ++ own.toList) token = own := by
  have hkept : (own.toList.filter fun transform =>
      sort transform.kind && transform.appliesTo token.path token.type) = own.toList := by
    apply List.filter_eq_self.2
    intro transform hmem
    simpa using hown transform (Option.mem_toList.1 hmem)
  have hgone : (other.toList.filter fun transform =>
      sort transform.kind && transform.appliesTo token.path token.type) = [] := by
    apply List.filter_eq_nil_iff.2
    intro transform hmem
    simp [hother transform (Option.mem_toList.1 hmem)]
  have hlast : own.toList.getLast? = own := by
    cases own with
    | none =>
        rfl
    | some transform =>
        rfl
  simp [lastApplying?, List.filter_append, hkept, hgone, hlast]

/-! ## What they decide -/

/-- A transform at the end is applied to what the others have made. -/
theorem transformToken_append_singleton (transforms : List Transform) (transform : Transform)
    (base : Float) (token : ResolvedToken) :
    transformToken (transforms ++ [transform]) base token =
      step base token (transformToken transforms base token) transform := by
  simp [transformToken]

/-- The token as one transform names it and another one writes its value. -/
def decided (base : Float) (token : ResolvedToken) (naming writing : Option Transform) :
    TransformedToken :=
  { start token with
    name := ((naming.bind (·.kind.style?)).map (·.apply token.path)).getD (start token).name
    value := (writing.bind (·.kind.written? base token.value)).getD token.value }

/-- A transform that cannot read a value comes after others that could not read it either. -/
theorem written?_lastWriting?_eq_none (hkind : transform.kind.isWriting = true)
    (happlies : transform.appliesTo token.path token.type = true)
    (hnone : transform.kind.written? base token.value = none) :
    ((lastWriting? transforms token).bind (·.kind.written? base token.value)) = none := by
  have hcovers : ∀ {other : Transform}, other.appliesTo token.path token.type = true →
      other.kind.coversType token.type = true := by
    intro other hother
    exact (Bool.and_eq_true_iff.1 hother).2
  cases hlast : lastWriting? transforms token with
  | none =>
      rfl
  | some earlier =>
      rcases of_lastApplying? hlast with ⟨hearlier, happlied⟩
      have hsame : (earlier.kind.written? base token.value).isSome =
          (transform.kind.written? base token.value).isSome := by
        rw [TransformKind.isSome_written? hearlier (hcovers happlied),
          TransformKind.isSome_written? hkind (hcovers happlies)]
      simpa [hnone] using hsame

/-- A naming transform sets the name. -/
theorem step_of_style? {result : TransformedToken} {style : NameCase}
    (hstyle : transform.kind.style? = some style)
    (happlies : transform.appliesTo token.path token.type = true) :
    step base token result transform = { result with name := style.apply token.path } := by
  cases hkind : transform.kind with
  | name other =>
      have hsame : other = style := by simpa [hkind, TransformKind.style?] using hstyle
      simp [step, happlies, hkind, hsame]
  | _ =>
      rw [hkind] at hstyle
      cases hstyle

/-- A writing transform sets the value. -/
theorem step_of_isWriting {result : TransformedToken} (hwriting : transform.kind.isWriting = true)
    (happlies : transform.appliesTo token.path token.type = true) :
    step base token result transform =
      { result with
        value := (transform.kind.written? base token.value).getD result.value } := by
  cases hkind : transform.kind with
  | name style =>
      rw [hkind] at hwriting
      cases hwriting
  | _ =>
      simp [step, happlies, hkind, TransformKind.written?]

/-- A token is transformed as the last naming and the last writing transform decide. -/
theorem transformToken_eq_decided (transforms : List Transform) (base : Float)
    (token : ResolvedToken) :
    transformToken transforms base token =
      decided base token (lastNaming? transforms token) (lastWriting? transforms token) := by
  induction transforms using List.reverseRecOn with
  | nil =>
      rfl
  | append_singleton rest transform ih =>
      have hnaming : lastNaming? (rest ++ [transform]) token =
          if transform.kind.isNaming && transform.appliesTo token.path token.type then
            some transform
          else lastNaming? rest token := lastApplying?_append_singleton _ rest transform token
      have hwriting : lastWriting? (rest ++ [transform]) token =
          if transform.kind.isWriting && transform.appliesTo token.path token.type then
            some transform
          else lastWriting? rest token := lastApplying?_append_singleton _ rest transform token
      rw [transformToken_append_singleton, ih, hnaming, hwriting]
      by_cases happlies : transform.appliesTo token.path token.type = true
      · cases hstyle : transform.kind.style? with
        | some style =>
            rw [step_of_style? hstyle happlies]
            simp [TransformKind.isNaming, TransformKind.isWriting, hstyle, happlies, decided]
        | none =>
            have hwriting : transform.kind.isWriting = true := by
              simp [TransformKind.isWriting, TransformKind.isNaming, hstyle]
            rw [step_of_isWriting hwriting happlies]
            cases hwritten : transform.kind.written? base token.value with
            | some value =>
                simp [TransformKind.isNaming, hstyle, hwriting, happlies, hwritten, decided]
            | none =>
                -- What stands in the result is the value of the token, not one that was written.
                have hearlier :=
                  @written?_lastWriting?_eq_none rest _ _ _ hwriting happlies hwritten
                simp [TransformKind.isNaming, hstyle, hwriting, happlies, hwritten, decided,
                  hearlier]
      · simp [step, happlies]

/-- Only the last transform that names a token and the last one that writes its value count, in
whatever order. A value that the latter cannot read stays as it was resolved, and so does the value
of a token of a type that no transform writes; nothing else of a token ever changes. -/
theorem transformToken_eq_last (transforms : List Transform) (base : Float)
    (token : ResolvedToken) :
    transformToken transforms base token =
        transformToken ((lastNaming? transforms token).toList ++
          (lastWriting? transforms token).toList) base token ∧
      transformToken transforms base token =
        transformToken ((lastWriting? transforms token).toList ++
          (lastNaming? transforms token).toList) base token ∧
      (transformToken transforms base token).value =
        ((lastWriting? transforms token).bind (·.kind.written? base token.value)).getD
          token.value ∧
      (isTypeAmong familyTypes token.type = false →
        (transformToken transforms base token).value = token.value) ∧
      (transformToken transforms base token).path = token.path ∧
      (transformToken transforms base token).written = token.written ∧
      (transformToken transforms base token).type = token.type ∧
      (transformToken transforms base token).description = token.description := by
  have hnaming : ∀ transform ∈ lastNaming? transforms token,
      transform.kind.isNaming = true ∧ transform.appliesTo token.path token.type = true :=
    fun transform hmem => of_lastApplying? hmem
  have hwriting : ∀ transform ∈ lastWriting? transforms token,
      transform.kind.isWriting = true ∧ transform.appliesTo token.path token.type = true :=
    fun transform hmem => of_lastApplying? hmem
  -- Among the two, each is the last one of its own sort, in whatever order they come.
  have hnames : lastNaming? (_ ++ _) token = _ ∧ lastNaming? (_ ++ _) token = _ :=
    lastApplying?_of_apart hnaming fun transform hmem => by
      simpa [TransformKind.isWriting] using (hwriting transform hmem).1
  have hvalues : lastWriting? (_ ++ _) token = _ ∧ lastWriting? (_ ++ _) token = _ :=
    lastApplying?_of_apart hwriting fun transform hmem => by
      simpa [TransformKind.isWriting] using (hnaming transform hmem).1
  have hdecided := transformToken_eq_decided transforms base token
  refine ⟨?_, ?_, ?_, ?_, ?_⟩
  · rw [hdecided, transformToken_eq_decided, hnames.1, hvalues.2]
  · rw [hdecided, transformToken_eq_decided, hnames.2, hvalues.1]
  · rw [hdecided]
    rfl
  · intro htype
    cases hlast : lastWriting? transforms token with
    | none =>
        rw [hdecided, hlast]
        rfl
    | some transform =>
        rcases hwriting transform hlast with ⟨hkind, happlies⟩
        have hcovers := (Bool.and_eq_true_iff.1 happlies).2
        rw [TransformKind.isTypeAmong_familyTypes hkind hcovers] at htype
        cases htype
  · rw [hdecided]
    exact ⟨rfl, rfl, rfl, rfl⟩

/-- A text that looks like a colour, in a token of a type that no transform writes. -/
def captionToken : ResolvedToken where
  path := ["copy", "brand"]
  value := .string "#0066FF"
  written := .string (Alias.ofPath "ink.blue")
  type := some "string"

/-- Two names that apply, a name for other tokens, and a colour that does not apply. -/
def captionTransforms : List Transform :=
  [{ kind := .name .constant }, { kind := .color .hsl },
    { kind := .name .kebab, matcher := some { pathPrefix := some "copy" } },
    { kind := .name .pascal, matcher := some { types := ["color"] } }]

theorem transformToken_eq_last_caption :
    isTypeAmong familyTypes captionToken.type = false ∧
      transformToken captionTransforms 16 captionToken =
        transformToken
          [{ kind := .name .kebab, matcher := some { pathPrefix := some "copy" } }] 16
          captionToken ∧
      (transformToken captionTransforms 16 captionToken).value = .string "#0066FF" := by
  have htype : isTypeAmong familyTypes captionToken.type = false := by decide
  have hnaming : lastNaming? captionTransforms captionToken =
      some { kind := .name .kebab, matcher := some { pathPrefix := some "copy" } } := by
    decide +kernel
  have hwriting : lastWriting? captionTransforms captionToken = none := by decide +kernel
  have hlast := transformToken_eq_last captionTransforms 16 captionToken
  rw [hnaming, hwriting] at hlast
  exact ⟨htype, hlast.1, hlast.2.2.2.1 htype⟩

end Transform
end DesignTokens
