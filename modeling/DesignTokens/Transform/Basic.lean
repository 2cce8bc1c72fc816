import DesignTokens.Token.Alias
import DesignTokens.Transform.Matcher
import DesignTokens.Transform.NameCase
import DesignTokens.Value.Grammar

/-!
# Transforms

A transform names tokens in a case or writes their values in a colour format or a unit. It applies
to the tokens that its matcher accepts; value transforms apply to the types of their family only,
and leave a value that they cannot read as it is.

Every transform starts from the resolved token, never from the work of an earlier one.
-/

namespace DesignTokens

inductive TransformKind where
  | name (style : NameCase)
  | color (format : Value.ColorFormat)
  | size (unit : Value.SizeUnit)
  | time (unit : Value.TimeUnit)
deriving DecidableEq, Repr

structure Transform where
  kind : TransformKind
  matcher : Option TokenMatcher := none
deriving DecidableEq, Repr

/-- A token ready for an output, with a name and the value as it was written in its document. -/
structure TransformedToken where
  path : List String
  name : String
  value : Json
  written : Json
  type : Option String := none
  description : Option String := none
deriving DecidableEq, Repr

namespace TransformKind

def entry : TransformKind → String × String
  | .name style => ("name", style.name)
  | .color format => ("color", format.name)
  | .size unit => ("size", unit.suffix)
  | .time unit => ("time", unit.suffix)

def ofField? (key text : String) : Option TransformKind :=
  if key = "name" then (NameCase.ofName? text).map .name
  else if key = "color" then (Value.ColorFormat.ofName? text).map .color
  else if key = "size" then (Value.SizeUnit.ofName? text).map .size
  else if key = "time" then (Value.TimeUnit.ofName? text).map .time
  else none

def keys : List String := ["name", "color", "size", "time"]

def ofFields (fields : List (String × Json)) : Json.Decoded TransformKind :=
  match fields.find? fun field => keys.contains field.1 with
  | some (key, value) => Json.Decode.fieldChoice (ofField? key) value
  | none => .error (.shape "a transform")

def coversType (kind : TransformKind) (type : Option String) : Bool :=
  match kind with
  | .name _ => true
  | .color _ => isTypeAmong colorTypes type
  | .size _ => isTypeAmong sizeTypes type
  | .time _ => isTypeAmong timeTypes type

end TransformKind

/-! ## Conversions -/

namespace Transform

def convertColor (value : Json) (format : Value.ColorFormat) : Option Json := do
  let text ← value.string?
  let color ← (Value.Color.parse text).toOption
  return .string (color.text format)

/-- The size that a value stands for: a text, a number of pixels, or an object with a value and a
unit. -/
def sizeOf? : Json → Option Value.Size
  | .string text => (Value.Size.parse text).toOption
  | .number n => some ⟨n.toFloat, none⟩
  | .object fields => do
      let amount ← (Entries.get? fields "value").bind Json.float?
      match (Entries.get? fields "unit").bind Json.string? with
      | some suffix => (Value.SizeUnit.ofSuffix? suffix).map fun unit => ⟨amount, some unit⟩
      | none => some ⟨amount, none⟩
  | _ => none

def convertSize (value : Json) (unit : Value.SizeUnit) (base : Float) : Option Json :=
  (sizeOf? value).map fun size => .string (size.convert unit base).text

/-- The duration that a value stands for: a text, or a number of milliseconds. -/
def durationOf? : Json → Option Value.Duration
  | .string text => (Value.Duration.parse text).toOption
  | .number n => some ⟨n.toFloat, none⟩
  | _ => none

def convertTime (value : Json) (unit : Value.TimeUnit) : Option Json :=
  (durationOf? value).map fun duration =>
    .string (Value.Duration.ofMilliseconds duration.toMilliseconds unit).text

/-! ## Application -/

def appliesTo (transform : Transform) (path : List String) (type : Option String) : Bool :=
  transform.matcher.all (·.accepts path type) && transform.kind.coversType type

/-- The token before any transform: named by its path. -/
def start (token : ResolvedToken) : TransformedToken where
  path := token.path
  name := Text.join "-" token.path
  value := token.value
  written := token.written
  type := token.type
  description := token.description

/-- A transform applied over the work of earlier ones, always from the resolved token. -/
def step (base : Float) (token : ResolvedToken) (result : TransformedToken)
    (transform : Transform) : TransformedToken :=
  if transform.appliesTo token.path token.type then
    match transform.kind with
    | .name style => { result with name := style.apply token.path }
    | .color format =>
        { result with value := (convertColor token.value format).getD result.value }
    | .size unit => { result with value := (convertSize token.value unit base).getD result.value }
    | .time unit => { result with value := (convertTime token.value unit).getD result.value }
  else result

def transformToken (transforms : List Transform) (base : Float) (token : ResolvedToken) :
    TransformedToken :=
  transforms.foldl (step base token) (start token)

def transformAll (transforms : List Transform) (base : Float) (tokens : List ResolvedToken) :
    List TransformedToken :=
  tokens.map (transformToken transforms base)

/-! ## Documents -/

def toJson (transform : Transform) : Json :=
  let (key, text) := transform.kind.entry
  .object ((key, .string text) ::
    match transform.matcher with
    | some matcher => [("matcher", matcher.toJson)]
    | none => [])

def outline : Json.Outline :=
  .object [("matcher", TokenMatcher.outline)]

def ofJson (value : Json) : Json.Decoded Transform := do
  let fields ← Json.Decode.fields value
  let matcher ← Json.Decode.fieldOption fields "matcher" TokenMatcher.ofJson
  return ⟨← TransformKind.ofFields fields, matcher⟩

/-! ## Groups -/

def groupNames : List String := ["css", "scss", "less", "js", "android", "ios"]

def suite (style : NameCase) (format : Value.ColorFormat) (size : Value.SizeUnit)
    (time : Value.TimeUnit) : List Transform :=
  [{ kind := .name style }, { kind := .color format }, { kind := .size size },
    { kind := .time time }]

def group? (name : String) : Option (List Transform) :=
  if name = "css" ∨ name = "scss" ∨ name = "less" then some (suite .kebab .hex .rem .ms)
  else if name = "js" then some (suite .camel .hex .rem .ms)
  else if name = "android" then some (suite .snake .hex .px .ms)
  else if name = "ios" then some (suite .camel .rgba .px .s)
  else none

end Transform
end DesignTokens
