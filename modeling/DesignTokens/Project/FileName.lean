import DesignTokens.Text.Split

/-!
# Output file names

The name of an output file under one of several configurations. A template says where the
configuration's name goes by a placeholder; without one, a dash and the name go before the first
dot of the last path component, so that `tokens.d.ts` becomes `tokens-dark.d.ts`. A dot that starts
the component does not count.
-/

namespace DesignTokens
namespace FileName

def placeholder : List Char :=
  ['\x7b', 'c', 'o', 'n', 'f', 'i', 'g', '\x7d']

def hasPlaceholder : List Char → Bool
  | [] => false
  | c :: rest => placeholder.isPrefixOf (c :: rest) || hasPlaceholder rest

def directory (template : List Char) : List Char :=
  (template.reverse.dropWhile (· ≠ '/')).reverse

def lastComponent (template : List Char) : List Char :=
  (template.reverse.takeWhile (· ≠ '/')).reverse

/-- A component up to its first dot that is not its first character. -/
def stem : List Char → List Char
  | [] => []
  | c :: rest => c :: rest.takeWhile (· ≠ '.')

/-- A component from its first dot that is not its first character. -/
def extension : List Char → List Char
  | [] => []
  | _ :: rest => rest.dropWhile (· ≠ '.')

def forConfigChars (template config : List Char) (multiple : Bool) : List Char :=
  if hasPlaceholder template then Text.replace placeholder config template
  else if multiple then
    directory template ++ stem (lastComponent template) ++ '-' :: config ++
      extension (lastComponent template)
  else template

/-- The file name of a template for a configuration, which need not show when there is just one. -/
def forConfig (template config : String) (multiple : Bool) : String :=
  String.ofList (forConfigChars template.toList config.toList multiple)

end FileName
end DesignTokens
