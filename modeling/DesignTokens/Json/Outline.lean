/-!
# Outlines of documents

An outline says which parts of a document are read. What is read must be well-formed JSON and within
all limits. A part that is passed over need only have the syntax of JSON: it may hold numbers out of
range, lone surrogates, and any number of nested containers.
-/

namespace DesignTokens
namespace Json

/-- The parts of a value that are read: all of it, or for arrays and objects those that the outlines
of their parts say. The fields that a record does not name are passed over, those that an object
does not name are read whole. -/
inductive Outline where
  | whole
  | list (item : Outline)
  | record (fields : List (String × Outline))
  | object (fields : List (String × Outline))

namespace Outline

def plainRecord (names : List String) : Outline :=
  .record (names.map fun name => (name, .whole))

def item : Outline → Outline
  | .list item => item
  | _ => .whole

def lookup? (fields : List (String × Outline)) (name : String) : Option Outline :=
  (fields.find? (·.1 = name)).map (·.2)

/-- The outline of a field of an object, `none` for a field that is passed over. -/
def field? (outline : Outline) (name : String) : Option Outline :=
  match outline with
  | .record fields => lookup? fields name
  | .object fields => some ((lookup? fields name).getD .whole)
  | _ => some .whole

end Outline
end Json
end DesignTokens
