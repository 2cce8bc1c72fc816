import DesignTokens.Pipeline.Assignment
import DesignTokens.Token.Error

/-!
# Errors of pipelines

Why an edit of a pipeline is refused, or why a pipeline is not valid.
-/

namespace DesignTokens

inductive LabelFault where
  | blankName
  | emptyKey
  | keyCharacters
deriving DecidableEq, Repr

def LabelFault.reason : LabelFault → String
  | .blankName => "name must not be empty"
  | .emptyKey => "key must not be empty"
  | .keyCharacters => "keys may only contain ASCII letters, digits, '-' and '_'"

/-- Why a pipeline or an edit of one is refused. An overflow is no refusal: a sum is out of the
range of its type, and the program panics before anything is written. -/
inductive PipelineError where
  | invalidName (name : String) (fault : LabelFault)
  | duplicateVariableKey (key : String)
  | duplicateVariableValue (key value : String)
  | duplicateLayerName (name : String)
  | unknownLayer (id : String)
  | unknownVariable (key : String)
  | unknownVariableValue (key value : String)
  | unknownPage (id : String)
  | alreadyBound (layer key : String)
  | invalidAssignment (layer : String) (assignment : Assignment) (bindings : List String)
  | duplicatePage (layer : String) (assignment : Assignment)
  | token (error : TokenError)
  | overflow
deriving DecidableEq

def PipelineError.kind : PipelineError → String
  | .invalidName .. => "InvalidName"
  | .duplicateVariableKey _ => "DuplicateVariableKey"
  | .duplicateVariableValue .. => "DuplicateVariableValue"
  | .duplicateLayerName _ => "DuplicateLayerName"
  | .unknownLayer _ => "UnknownLayer"
  | .unknownVariable _ => "UnknownVariable"
  | .unknownVariableValue .. => "UnknownVariableValue"
  | .unknownPage _ => "UnknownPage"
  | .alreadyBound .. => "AlreadyBound"
  | .invalidAssignment .. => "InvalidAssignment"
  | .duplicatePage .. => "DuplicatePage"
  | .token _ => "Token"
  | .overflow => "panic"

def PipelineError.message : PipelineError → String
  | .invalidName name fault => "Invalid name '" ++ name ++ "': " ++ fault.reason
  | .duplicateVariableKey key => "A variable with key '" ++ key ++ "' already exists"
  | .duplicateVariableValue key value =>
      "Variable '" ++ key ++ "' already has the value '" ++ value ++ "'"
  | .duplicateLayerName name => "A layer named '" ++ name ++ "' already exists"
  | .unknownLayer id => "Unknown layer: '" ++ id ++ "'"
  | .unknownVariable key => "Unknown variable: '" ++ key ++ "'"
  | .unknownVariableValue key value => "Variable '" ++ key ++ "' has no value '" ++ value ++ "'"
  | .unknownPage id => "Unknown page: '" ++ id ++ "'"
  | .alreadyBound layer key =>
      "Layer '" ++ layer ++ "' is already bound to variable '" ++ key ++ "'"
  | .invalidAssignment layer assignment bindings =>
      "Invalid assignment for layer '" ++ layer ++ "': " ++ assignment.describe ++
        " does not match bindings [" ++ Text.join ", " bindings ++ "]"
  | .duplicatePage layer assignment =>
      "Duplicate page for layer '" ++ layer ++ "' and assignment " ++ assignment.describe
  | .token error => "Token edit failed: " ++ error.message
  | .overflow => "attempt to add with overflow"

end DesignTokens
