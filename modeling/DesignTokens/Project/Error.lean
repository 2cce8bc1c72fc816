import DesignTokens.File.Error
import DesignTokens.Interchange.Import
import DesignTokens.Pipeline.Error

/-!
# Errors of projects

Why a project cannot be read, built or written.
-/

namespace DesignTokens

inductive ProjectError where
  | duplicatePlatform (name : String)
  | malformed (error : Json.Error)
  | pipeline (error : PipelineError)
  | interchange (error : Interchange.ImportError)
  | file (error : FileError)
  | unknownPlatform (name : String)
  | unknownConfig (name : String)
  | unsafePath (path : String)
deriving DecidableEq

def ProjectError.kind : ProjectError → String
  | .duplicatePlatform _ => "Config"
  | .malformed _ => "Json"
  | .pipeline _ => "Pipeline"
  | .interchange _ => "Interchange"
  | .file _ => "Io"
  | .unknownPlatform _ => "UnknownPlatform"
  | .unknownConfig _ => "UnknownConfig"
  | .unsafePath _ => "UnsafePath"

def ProjectError.message : ProjectError → String
  | .duplicatePlatform name => "Configuration error: duplicate platform name '" ++ name ++ "'"
  | .malformed error => "JSON serialization/deserialization error: " ++ error.message
  | .pipeline error => "Pipeline error: " ++ error.message
  | .interchange error => "Interchange error: " ++ error.message
  | .file error => "I/O error: " ++ error.message
  | .unknownPlatform name => "Unknown platform: '" ++ name ++ "'"
  | .unknownConfig name => "Unknown build config: '" ++ name ++ "'"
  | .unsafePath path => "Output path leaves the output directory: '" ++ path ++ "'"

end DesignTokens
