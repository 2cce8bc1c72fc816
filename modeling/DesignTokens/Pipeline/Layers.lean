import DesignTokens.Pipeline.Basic

/-!
# Edits of layers

Adding, renaming, removing, ordering and binding layers. A removed layer takes its pages with it;
a layer bound to another set of variables leaves its pages as orphans.
-/

namespace DesignTokens

/-- The order just after the layer's own; the greatest order has none. -/
def Layer.orderAfter? (layer : Layer) : Option Int32 :=
  if layer.order = Int32.maxValue then none else some (layer.order + 1)

namespace Pipeline

/-- Refuses the first key that no variable has or that stands among `seen`. -/
def checkBindings (pipeline : Pipeline) (layer : String) :
    List String → List String → Except PipelineError Unit
  | _, [] => .ok ()
  | seen, key :: rest =>
      if (pipeline.variableFor? key).isNone then .error (.unknownVariable key)
      else if key ∈ seen then .error (.alreadyBound layer key)
      else checkBindings pipeline layer (key :: seen) rest

/-- The order of a layer after all others: the greatest of the orders just after theirs, zero for
the first layer. There is none when one of these is missing. -/
def nextOrder? (pipeline : Pipeline) : Option Int32 := do
  let orders ← pipeline.layers.mapM Layer.orderAfter?
  return (orders.max?).getD 0

def addLayer (slug : String → String) (name : String) (variableKeys : List String)
    (required : Bool) : PipelineEdit LayerId := do
  Edit.check (checkName name)
  let pipeline ← get
  if (pipeline.layerNamed? name).isSome then throw (.duplicateLayerName name)
  Edit.check (pipeline.checkBindings name [] variableKeys)
  let id : LayerId := ⟨freshId slug "layer" name (pipeline.layers.map (·.id.text))⟩
  match pipeline.nextOrder? with
  | none => throw .overflow
  | some order =>
      let layer : Layer := ⟨id, name, order, variableKeys, required⟩
      set { pipeline with layers := pipeline.layers ++ [layer] }
      return id

def renameLayer (id : LayerId) (name : String) : PipelineEdit Unit := do
  let _ ← needLayer id
  Edit.check (checkName name)
  let pipeline ← get
  if pipeline.layers.any fun layer => layer.name = name && layer.id ≠ id then
    throw (.duplicateLayerName name)
  set (pipeline.updateLayer id ({ · with name := name })).refreshPageNames

/-- The pipeline without a layer and its pages. -/
def withoutLayer (pipeline : Pipeline) (id : LayerId) : Pipeline where
  vars := pipeline.vars
  layers := pipeline.layers.eraseP (·.id = id)
  pages := pipeline.pages.filter (·.layer ≠ id)

/-- Removes a layer with its pages, which are the answer. -/
def removeLayer (id : LayerId) : PipelineEdit (Layer × List Page) := do
  let layer ← needLayer id
  let pipeline ← get
  set (pipeline.withoutLayer id)
  return (layer, pipeline.pagesOf id)

def renumber : Nat → List Layer → List Layer
  | _, [] => []
  | n, layer :: rest => { layer with order := Int32.ofNat n } :: renumber (n + 1) rest

/-- The layers in order with one of them taken out and inserted at a position, or at the end when
the position is beyond it. -/
def reordered (pipeline : Pipeline) (id : LayerId) (position : Nat) : List Layer :=
  let layers := pipeline.layersInOrder
  match layers.find? (·.id = id) with
  | none => layers
  | some layer =>
      let others := layers.eraseP (·.id = id)
      others.take position ++ layer :: others.drop position

/-- Moves a layer to a position in the order, and numbers all layers anew. -/
def moveLayer (id : LayerId) (position : Nat) : PipelineEdit Unit := do
  let _ ← needLayer id
  modify fun pipeline => { pipeline with layers := renumber 0 (pipeline.reordered id position) }

def setLayerRequired (id : LayerId) (required : Bool) : PipelineEdit Unit := do
  let _ ← needLayer id
  modify fun pipeline => pipeline.updateLayer id ({ · with required := required })

/-- Binds a layer to a variable, after the others that it is bound to. -/
def bindVariable (id : LayerId) (key : String) : PipelineEdit Unit := do
  let layer ← needLayer id
  let _ ← needVariable key
  if key ∈ layer.variableKeys then throw (.alreadyBound layer.name key)
  modify fun pipeline =>
    pipeline.updateLayer id fun l => { l with variableKeys := l.variableKeys ++ [key] }

def unbindVariable (id : LayerId) (key : String) : PipelineEdit Unit := do
  let layer ← needLayer id
  if key ∉ layer.variableKeys then throw (.unknownVariable key)
  modify fun pipeline =>
    pipeline.updateLayer id fun l => { l with variableKeys := l.variableKeys.erase key }

end Pipeline
end DesignTokens
