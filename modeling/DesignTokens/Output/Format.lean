import DesignTokens.Output.JsonFile
import DesignTokens.Output.Script
import DesignTokens.Output.Swift

/-!
# Output formats

Every syntax that tokens can be written in, with its names and its file names.
-/

namespace DesignTokens

inductive OutputFormat where
  | cssVariables
  | scssVariables
  | lessVariables
  | jsonNested
  | jsonFlat
  | jsModule
  | tsDeclarations
  | androidXml
  | iosSwift
deriving DecidableEq, Repr

namespace OutputFormat

def all : List OutputFormat :=
  [.cssVariables, .scssVariables, .lessVariables, .jsonNested, .jsonFlat, .jsModule,
    .tsDeclarations, .androidXml, .iosSwift]

def name : OutputFormat → String
  | .cssVariables => "cssVariables"
  | .scssVariables => "scssVariables"
  | .lessVariables => "lessVariables"
  | .jsonNested => "jsonNested"
  | .jsonFlat => "jsonFlat"
  | .jsModule => "jsModule"
  | .tsDeclarations => "tsDeclarations"
  | .androidXml => "androidXml"
  | .iosSwift => "iosSwift"

def ofName? (name : String) : Option OutputFormat :=
  all.find? (·.name = name)

def label : OutputFormat → String
  | .cssVariables => "CSS custom properties"
  | .scssVariables => "SCSS variables"
  | .lessVariables => "Less variables"
  | .jsonNested => "Nested JSON"
  | .jsonFlat => "Flat JSON"
  | .jsModule => "JavaScript module"
  | .tsDeclarations => "TypeScript declarations"
  | .androidXml => "Android resources"
  | .iosSwift => "iOS Swift"

def extension : OutputFormat → String
  | .cssVariables => "css"
  | .scssVariables => "scss"
  | .lessVariables => "less"
  | .jsonNested => "json"
  | .jsonFlat => "json"
  | .jsModule => "js"
  | .tsDeclarations => "d.ts"
  | .androidXml => "xml"
  | .iosSwift => "swift"

/-- The file name of an output that does not set one. -/
def defaultFileName (format : OutputFormat) : String :=
  let stem := match format with
    | .androidXml => "tokens_resources"
    | .iosSwift => "Tokens"
    | _ => "tokens"
  stem ++ "." ++ format.extension

/-- The file of tokens in a format. The prefix is put before the names, and the base font size turns
relative sizes into absolute ones. -/
def render (format : OutputFormat) (tokens : List TransformedToken) (start : Option String)
    (base : Float) : String :=
  match format with
  | .cssVariables => Output.cssVariables tokens start
  | .scssVariables => Output.preprocessorVariables '$' tokens start
  | .lessVariables => Output.preprocessorVariables '@' tokens start
  | .jsonNested => Output.jsonFile (Output.nested tokens)
  | .jsonFlat => Output.jsonFile (Output.flat tokens start)
  | .jsModule => Output.jsModule tokens start
  | .tsDeclarations => Output.tsDeclarations tokens start
  | .androidXml => Output.androidResources tokens start base
  | .iosSwift => Output.iosSwift tokens start base

end OutputFormat
end DesignTokens
