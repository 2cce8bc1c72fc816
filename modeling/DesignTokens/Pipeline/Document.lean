import DesignTokens.Pipeline.Basic

/-!
# Pipeline documents

Pipelines as JSON objects. A page's tokens are the token document of its store.
-/

namespace DesignTokens

open Json (Decoded)
open Json.Decode

namespace Variable

def toJson (v : Variable) : Json :=
  .object [("id", .string v.id.text), ("name", .string v.name),
    ("key", .string v.key), ("values", .ofTexts v.values)]

def ofJson (value : Json) : Decoded Variable := do
  let fields ← record ["id", "name", "key", "values"] value
  return { id := ⟨← field fields "id" text⟩
           name := ← field fields "name" text
           key := ← field fields "key" text
           values := ← field fields "values" (list text) }

end Variable

namespace Layer

def toJson (layer : Layer) : Json :=
  .object [("id", .string layer.id.text), ("name", .string layer.name),
    ("order", .number (.int layer.order.toInt)), ("variableKeys", .ofTexts layer.variableKeys),
    ("required", .bool layer.required)]

def ofJson (value : Json) : Decoded Layer := do
  let fields ← record ["id", "name", "order", "variableKeys", "required"] value
  return { id := ⟨← field fields "id" text⟩
           name := ← field fields "name" text
           order := ← field fields "order" int32
           variableKeys := ← fieldOr fields "variableKeys" [] (list text)
           required := ← fieldOr fields "required" false bool }

end Layer

def storeOfJson (value : Json) : Decoded Store :=
  match Store.ofJson value.collapse with
  | .ok store => .ok store
  | .error _ => .error (.shape "a token document")

namespace Page

def toJson (page : Page) : Json :=
  .object [("id", .string page.id.text), ("layerId", .string page.layer.text),
    ("name", .string page.name), ("variableValues", page.assignment.toJson),
    ("tokens", page.tokens.toJson)]

def ofJson (value : Json) : Decoded Page := do
  let fields ← record ["id", "layerId", "name", "variableValues", "tokens"] value
  return { id := ⟨← field fields "id" text⟩
           layer := ⟨← field fields "layerId" text⟩
           name := ← field fields "name" text
           assignment := ← fieldOr fields "variableValues" .empty Assignment.ofJson
           tokens := ← fieldOr fields "tokens" .empty storeOfJson }

end Page

namespace Pipeline

def toFields (pipeline : Pipeline) : List (String × Json) :=
  [("variables", .array (pipeline.vars.map (·.toJson))),
    ("layers", .array (pipeline.layers.map (·.toJson))),
    ("pages", .array (pipeline.pages.map (·.toJson)))]

def toJson (pipeline : Pipeline) : Json :=
  .object pipeline.toFields

/-- The pipeline of the fields of an object; missing lists are empty. -/
def ofFields (fields : List (String × Json)) : Decoded Pipeline := do
  return { vars := ← fieldOr fields "variables" [] (list Variable.ofJson)
           layers := ← fieldOr fields "layers" [] (list Layer.ofJson)
           pages := ← fieldOr fields "pages" [] (list Page.ofJson) }

def ofJson (value : Json) : Decoded Pipeline := do
  ofFields (← record ["variables", "layers", "pages"] value)

end Pipeline
end DesignTokens
