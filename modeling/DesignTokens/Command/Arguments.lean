import DesignTokens.Text.Split

/-!
# Command arguments

The arguments of the program are a command, the path that it works on, and options: long ones with
two dashes and, for some, a single letter with one. The value of an option follows it, either after
an equals sign, right after its letter, or as the next argument. After `--` everything is a path.

Arguments are read from left to right, so that of two faults the first one counts, and a request for
help counts unless a fault stands before it.
-/

namespace DesignTokens

inductive UsageError where
  | noCommand
  | unknownCommand (name : String)
  | unexpected (argument : String)
  | missingValue (option : String)
  | unneededValue (option : String)
  | repeated (option : String)
  | invalidValue (name value : String)
  | missing (name : String)
deriving DecidableEq, Repr

def UsageError.message : UsageError → String
  | .noCommand => "a command is required"
  | .unknownCommand name => "unrecognized command '" ++ name ++ "'"
  | .unexpected argument => "unexpected argument '" ++ argument ++ "'"
  | .missingValue option => "a value is required for '" ++ option ++ "'"
  | .unneededValue option => "'" ++ option ++ "' takes no value"
  | .repeated option => "'" ++ option ++ "' cannot be used multiple times"
  | .invalidValue name value => "invalid value '" ++ value ++ "' for '" ++ name ++ "'"
  | .missing name => "'" ++ name ++ "' is required"

inductive Command where
  | build (project out : String) (bundle platform config : Option String)
  | configs (project : String)
  | tokens (project layer : String) (selections : List (String × String))
  | importPlatforms (config : String) (into : Option String)
  | exportPlatforms (project : String)
deriving DecidableEq, Repr

namespace Arguments

inductive Verb where
  | build
  | configs
  | tokens
  | importPlatforms
  | exportPlatforms
deriving DecidableEq, Repr

def Verb.all : List Verb := [.build, .configs, .tokens, .importPlatforms, .exportPlatforms]

def Verb.name : Verb → String
  | .build => "build"
  | .configs => "configs"
  | .tokens => "tokens"
  | .importPlatforms => "import"
  | .exportPlatforms => "export"

def Verb.ofName? (name : String) : Option Verb :=
  all.find? (·.name = name)

/-! ## Values -/

/-- A path that is not empty. -/
def isPath (value : String) : Bool :=
  value ≠ ""

/-- The key and the value of `key=value`, neither of them empty. -/
def selection? (value : String) : Option (String × String) :=
  let key := value.toList.takeWhile (· ≠ '=')
  match value.toList.dropWhile (· ≠ '=') with
  | '=' :: c :: rest =>
      if key = [] then none else some (String.ofList key, String.ofList (c :: rest))
  | _ => none

structure OptionSpec where
  name : String
  letter : Option Char := none
  repeatable : Bool := false
  accepts : String → Bool := fun _ => true

def Verb.options : Verb → List OptionSpec
  | .build =>
      [{ name := "out", letter := some 'o', accepts := isPath },
        { name := "bundle", accepts := isPath }, { name := "platform" }, { name := "config" }]
  | .configs => []
  | .tokens =>
      [{ name := "layer" },
        { name := "config", repeatable := true, accepts := fun value => (selection? value).isSome }]
  | .importPlatforms => [{ name := "into", accepts := isPath }]
  | .exportPlatforms => []

/-! ## What is given -/

structure Given where
  path : Option String := none
  options : List (String × String) := []
  verbose : Bool := false
deriving DecidableEq, Repr

namespace Given

def values (given : Given) (name : String) : List String :=
  (given.options.filter (·.1 = name)).map (·.2)

/-- The value of an option that is not repeated. -/
def value? (given : Given) (name : String) : Option String :=
  (given.values name).head?

def addOption (given : Given) (option : OptionSpec) (value : String) : Except UsageError Given :=
  if !option.accepts value then .error (.invalidValue option.name value)
  else if !option.repeatable && (given.value? option.name).isSome then
    .error (.repeated option.name)
  else .ok { given with options := given.options ++ [(option.name, value)] }

def addPath (given : Given) (path : String) : Except UsageError Given :=
  if given.path.isSome then .error (.unexpected path)
  else if !isPath path then .error (.invalidValue "path" path)
  else .ok { given with path := some path }

def addVerbose (given : Given) : Except UsageError Given :=
  if given.verbose then .error (.repeated "verbose") else .ok { given with verbose := true }

end Given

/-! ## Reading -/

inductive Form where
  | separator
  | long (name : String) (value : Option String)
  | letters (letters : List Char)
  | plain (text : String)
deriving DecidableEq, Repr

def Form.of (argument : String) : Form :=
  match argument.toList with
  | ['-', '-'] => .separator
  | '-' :: '-' :: rest =>
      let name := String.ofList (rest.takeWhile (· ≠ '='))
      match rest.dropWhile (· ≠ '=') with
      | _ :: value => .long name (some (String.ofList value))
      | [] => .long name none
  | '-' :: c :: rest => .letters (c :: rest)
  | _ => .plain argument

/-- What was read: so much, or a request for help. -/
inductive Reading where
  | given (given : Given)
  | help
deriving DecidableEq, Repr

/-- What a group of letters gives, with the option at its end that still lacks a value. -/
inductive LettersReading where
  | done (given : Given)
  | pending (given : Given) (option : OptionSpec)
  | help

def readLetters (options : List OptionSpec) (given : Given) :
    List Char → Except UsageError LettersReading
  | [] => .ok (.done given)
  | 'h' :: _ => .ok .help
  | 'v' :: rest => do readLetters options (← given.addVerbose) rest
  | c :: rest =>
      match options.find? (·.letter = some c) with
      | none => .error (.unexpected (String.ofList ['-', c]))
      | some option =>
          match rest with
          | [] => .ok (.pending given option)
          | '=' :: value => return .done (← given.addOption option (String.ofList value))
          | value => return .done (← given.addOption option (String.ofList value))

def takeValue (given : Given) (option : OptionSpec) (next : Option String) :
    Except UsageError Given :=
  match next.map fun argument => (argument, Form.of argument) with
  | some (argument, .plain _) => given.addOption option argument
  | _ => .error (.missingValue option.name)

def readAll (options : List OptionSpec) : List String → Given → Except UsageError Reading
  | [], given => .ok (.given given)
  | argument :: rest, given =>
      match Form.of argument with
      | .separator => return .given (← rest.foldlM Given.addPath given)
      | .plain path => do readAll options rest (← given.addPath path)
      | .long "help" value => if value.isSome then .error (.unneededValue "help") else .ok .help
      | .long "verbose" value => do
          if value.isSome then throw (.unneededValue "verbose")
          readAll options rest (← given.addVerbose)
      | .long name value =>
          match options.find? (·.name = name), value with
          | none, _ => .error (.unexpected argument)
          | some option, some value => do readAll options rest (← given.addOption option value)
          | some option, none => do
              readAll options rest.tail (← takeValue given option rest.head?)
      | .letters letters => do
          match ← readLetters options given letters with
          | .help => return .help
          | .done given => readAll options rest given
          | .pending given option => do
              readAll options rest.tail (← takeValue given option rest.head?)
termination_by arguments => arguments.length

/-! ## Commands -/

def required (name : String) : Option String → Except UsageError String
  | some value => .ok value
  | none => .error (.missing name)

def commandOf (verb : Verb) (given : Given) : Except UsageError Command := do
  let path ← required "path" given.path
  match verb with
  | .build =>
      return .build path ((given.value? "out").getD "build") (given.value? "bundle")
        (given.value? "platform") (given.value? "config")
  | .configs => return .configs path
  | .tokens =>
      return .tokens path (← required "layer" (given.value? "layer"))
        ((given.values "config").filterMap selection?)
  | .importPlatforms => return .importPlatforms path (given.value? "into")
  | .exportPlatforms => return .exportPlatforms path

inductive Request where
  | command (command : Command)
  | help
deriving DecidableEq, Repr

def readHelp : List String → Except UsageError Request
  | [] => .ok .help
  | [name] => if (Verb.ofName? name).isSome ∨ name = "help" then .ok .help
      else .error (.unknownCommand name)
  | name :: _ => .error (.unknownCommand name)

/-- The request of a list of arguments, the switches before the command first. -/
def parseFrom (given : Given) : List String → Except UsageError Request
  | [] => .error .noCommand
  | argument :: rest =>
      match Verb.ofName? argument with
      | some verb => do
          match ← readAll verb.options rest {} with
          | .help => return .help
          | .given given => return .command (← commandOf verb given)
      | none =>
          if argument = "help" then readHelp rest
          else match Form.of argument with
            | .separator =>
                match rest with
                | [] => .error .noCommand
                | next :: _ => .error (.unexpected next)
            | .plain name => .error (.unknownCommand name)
            | _ => do
                match ← readAll [] [argument] given with
                | .help => return .help
                | .given given => parseFrom given rest

def parse (arguments : List String) : Except UsageError Request :=
  parseFrom {} arguments

end Arguments
end DesignTokens
