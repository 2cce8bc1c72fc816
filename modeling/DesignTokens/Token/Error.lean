/-!
# Errors of token documents

Why a document is no token document, and why an edit of one is refused.
-/

namespace DesignTokens

inductive NameFault where
  | blank
  | reserved
  | separator
  | braces
deriving DecidableEq, Repr

def NameFault.reason : NameFault → String
  | .blank => "name must not be empty"
  | .reserved => "names starting with '$' are reserved"
  | .separator => "names must not contain '.'"
  | .braces => "names must not contain braces"

inductive AttributeShape where
  | text
  | fields
deriving DecidableEq, Repr

def AttributeShape.demand : AttributeShape → String
  | .text => "expected a string"
  | .fields => "expected an object"

inductive TokenError where
  | malformed
  | rootNotObject
  | invalidAttribute (path key : String) (shape : AttributeShape)
  | invalidName (name : String) (fault : NameFault)
  | notFound (path : String)
  | alreadyExists (path : String)
  | notAGroup (path : String)
  | notAToken (path : String)
  | moveIntoSelf (path target : String)
deriving DecidableEq, Repr

def TokenError.kind : TokenError → String
  | .malformed => "Json"
  | .rootNotObject => "RootNotObject"
  | .invalidAttribute .. => "InvalidAttribute"
  | .invalidName .. => "InvalidName"
  | .notFound _ => "NotFound"
  | .alreadyExists _ => "AlreadyExists"
  | .notAGroup _ => "NotAGroup"
  | .notAToken _ => "NotAToken"
  | .moveIntoSelf .. => "MoveIntoSelf"

def TokenError.message : TokenError → String
  | .malformed => "JSON parsing error: malformed document"
  | .rootNotObject => "Token file root must be a JSON object"
  | .invalidAttribute path key shape =>
      "Invalid attribute '" ++ key ++ "' at '" ++ path ++ "': " ++ shape.demand
  | .invalidName name fault => "Invalid name '" ++ name ++ "': " ++ fault.reason
  | .notFound path => "Path not found: '" ++ path ++ "'"
  | .alreadyExists path => "'" ++ path ++ "' already exists"
  | .notAGroup path => "'" ++ path ++ "' is a token, not a group"
  | .notAToken path => "'" ++ path ++ "' is a group, not a token"
  | .moveIntoSelf path target =>
      "Cannot move '" ++ path ++ "' into its own subtree '" ++ target ++ "'"

end DesignTokens
