import DesignTokens.Pipeline.Basic

/-!
# Edits of variables

Adding, renaming and removing variables and their values. New keys and new values are carried into
the bindings of layers and the assignments of pages. Removing a variable or a value leaves the pages
that used it as orphans.
-/

namespace DesignTokens
namespace Layer

def renameKey (layer : Layer) (key newKey : String) : Layer :=
  { layer with
    variableKeys := layer.variableKeys.map fun bound => if bound = key then newKey else bound }

/-- The layer without bindings to a variable. -/
def dropKey (layer : Layer) (key : String) : Layer :=
  { layer with variableKeys := layer.variableKeys.filter (· ≠ key) }

end Layer

namespace Variable

def renameValue (v : Variable) (value newValue : String) : Variable :=
  { v with values := Store.replaceFirst value newValue v.values }

end Variable

namespace Pipeline

def addVariable (slug : String → String) (name key : String) (values : List String) :
    PipelineEdit VariableId := do
  Edit.check (checkName name)
  Edit.check (checkKey key)
  let pipeline ← get
  if (pipeline.variableFor? key).isSome then throw (.duplicateVariableKey key)
  Edit.check (checkValues key values)
  let id : VariableId := ⟨freshId slug "var" key (pipeline.vars.map (·.id.text))⟩
  let added : Variable := ⟨id, name, key, values⟩
  set { pipeline with vars := pipeline.vars ++ [added] }
  return id

def renameVariable (key name : String) : PipelineEdit Unit := do
  Edit.check (checkName name)
  let _ ← needVariable key
  modify fun pipeline => pipeline.updateVariable key ({ · with name := name })

/-- The pipeline with a variable under another key, in bindings and assignments as well. -/
def withVariableKey (pipeline : Pipeline) (key newKey : String) : Pipeline where
  vars := (pipeline.updateVariable key ({ · with key := newKey })).vars
  layers := pipeline.layers.map (·.renameKey key newKey)
  pages := pipeline.pages.map fun page =>
    { page with assignment := page.assignment.renameKey key newKey }

def setVariableKey (key newKey : String) : PipelineEdit Unit := do
  let _ ← needVariable key
  Edit.check (checkKey newKey)
  if key = newKey then return
  let pipeline ← get
  if (pipeline.variableFor? newKey).isSome then throw (.duplicateVariableKey newKey)
  set (pipeline.withVariableKey key newKey)

/-- The pipeline without a variable and without the bindings to it. -/
def withoutVariable (pipeline : Pipeline) (key : String) : Pipeline where
  vars := pipeline.vars.eraseP (·.key = key)
  layers := pipeline.layers.map (·.dropKey key)
  pages := pipeline.pages

/-- Removes a variable, which is the answer. -/
def removeVariable (key : String) : PipelineEdit Variable := do
  let removed ← needVariable key
  modify (·.withoutVariable key)
  return removed

/-- Adds a value to a variable, at the end. -/
def addVariableValue (key value : String) : PipelineEdit Unit := do
  let found ← needVariable key
  Edit.check (checkName value)
  if value ∈ found.values then throw (.duplicateVariableValue key value)
  modify fun pipeline =>
    pipeline.updateVariable key fun v => { v with values := v.values ++ [value] }

def removeVariableValue (key value : String) : PipelineEdit Unit := do
  let found ← needVariable key
  if value ∉ found.values then throw (.unknownVariableValue key value)
  modify fun pipeline =>
    pipeline.updateVariable key fun v => { v with values := v.values.erase value }

/-- The pipeline with a value of a variable renamed, in assignments as well. -/
def withVariableValue (pipeline : Pipeline) (key value newValue : String) : Pipeline where
  vars := (pipeline.updateVariable key (·.renameValue value newValue)).vars
  layers := pipeline.layers
  pages := pipeline.pages.map fun page =>
    { page with assignment := page.assignment.renameValue key value newValue }

def renameVariableValue (key value newValue : String) : PipelineEdit Unit := do
  let found ← needVariable key
  Edit.check (checkName newValue)
  if value ∉ found.values then throw (.unknownVariableValue key value)
  if value ≠ newValue ∧ newValue ∈ found.values then
    throw (.duplicateVariableValue key newValue)
  modify fun pipeline => (pipeline.withVariableValue key value newValue).refreshPageNames

end Pipeline
end DesignTokens
