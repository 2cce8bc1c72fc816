import DesignTokens.Pipeline.Basic

/-!
# Slots and build configurations

A slot is an assignment that a layer can have a page for. A build configuration selects one value
for every variable in use, which is one that some layer is bound to. Both are listed with the last
variable varying fastest: slots in the order of the layer's bindings, configurations in the order
in which the variables are declared.
-/

namespace DesignTokens

structure BuildConfig where
  name : String
  selections : Assignment
deriving DecidableEq

namespace BuildConfig

/-- The configuration of pairs in the order of the variables: named by its values, or `default`
without any. -/
def ofPairs (pairs : List (String × String)) : BuildConfig where
  name := if pairs.isEmpty then "default" else Text.join "-" (pairs.map (·.2))
  selections := Assignment.ofPairs pairs

/-- The configuration without selections. -/
def empty : BuildConfig := ofPairs []

/-- The part of the configuration that selects a page of a layer, `none` when it has no value for
one of the layer's keys. -/
def project (config : BuildConfig) (layer : Layer) : Option Assignment :=
  (layer.variableKeys.mapM fun key => (config.selections[key]?).map fun value => (key, value)).map
    Assignment.ofPairs

def toJson (config : BuildConfig) : Json :=
  .object [("name", .string config.name), ("selections", config.selections.toJson)]

def ofJson (value : Json) : Json.Decoded BuildConfig := do
  let fields ← Json.Decode.record ["name", "selections"] value
  return { name := ← Json.Decode.field fields "name" Json.Decode.text
           selections := ← Json.Decode.field fields "selections" Assignment.ofJson }

end BuildConfig

namespace Variable

def axis (v : Variable) : List (String × String) :=
  v.values.map fun value => (v.key, value)

end Variable

namespace Pipeline

/-! ## Slots -/

def slots (pipeline : Pipeline) (layer : Layer) : List Assignment :=
  let axes := layer.variableKeys.filterMap fun key =>
    (pipeline.variableFor? key).map fun found => found.values.map fun value => (key, value)
  (Sequence.choices axes).map Assignment.ofPairs

/-- The slots of a layer without a page. -/
def missingSlots (pipeline : Pipeline) (layer : Layer) : List Assignment :=
  (pipeline.slots layer).filter fun slot => (pipeline.findPage? layer.id slot).isNone

/-! ## Configurations -/

/-- The variables that some layer is bound to, in the order of their declaration. -/
def variablesInUse (pipeline : Pipeline) : List Variable :=
  pipeline.vars.filter fun v =>
    pipeline.layers.any fun layer => layer.variableKeys.contains v.key

def buildConfigs (pipeline : Pipeline) : List BuildConfig :=
  (Sequence.choices (pipeline.variablesInUse.map Variable.axis)).map BuildConfig.ofPairs

/-- The configuration of the first value of every variable in use. -/
def defaultConfig (pipeline : Pipeline) : BuildConfig :=
  .ofPairs (pipeline.variablesInUse.filterMap fun v =>
    v.values.head?.map fun value => (v.key, value))

end Pipeline
end DesignTokens
