import SchemaTypes.Conversion

/-!
# Commands

What a user can ask for: the declarations of schemas, or only the names that they would get. A
command line is one command with its settings, and how much should be told about the work.
-/

namespace SchemaTypes

/-- What both commands are told: the inputs, where the schema is in each of them, and what an
untitled document is called. -/
structure InputOptions where
  selection : Selector := {}
  inputs : List String
  rootName : Option String := none

/-- The settings for writing declarations. -/
structure DeclarationOptions where
  input : InputOptions
  directory : Option FilePath := none
  exports : Exports := .all
  noBanner : Bool := false
  /-- Only show the command line. -/
  noOp : Bool := false

/-- A command with its settings. -/
inductive Command where
  | declarations (settings : DeclarationOptions)
  | names (settings : InputOptions)

/-- A command and how much is told. -/
structure CommandLine where
  verbosity : Nat := 0
  command : Command

/-- Why arguments make no command line. -/
inductive UsageFault where
  | help
  | nothingGiven
  | missingCommand
  | unknownCommand
  | unknownOption
  | missingInput
  /-- An option without its value, or with a value that it does not take. -/
  | badValue
  /-- A switch with a value. -/
  | needlessValue
  | givenTwice
  deriving DecidableEq

namespace UsageFault

/-- The text for a user who is not understood. -/
def message : UsageFault → String
  | .help | .nothingGiven =>
    "usage: (ts | names) -i INPUT... [--jq-expr FILTER] [--json-pointer POINTER]\n" ++
      "       [--root-name NAME] [-v]\n" ++
      "       ts also takes [-o DIRECTORY] [--export all|root] [--no-banner] [--no-op]"
  | .missingCommand => "error: no command is given"
  | .unknownCommand => "error: there is no such command"
  | .unknownOption => "error: there is no such option"
  | .missingInput => "error: no input is given"
  | .badValue => "error: an option has no value, or one that it does not take"
  | .needlessValue => "error: an option that takes no value has one"
  | .givenTwice => "error: an option is given twice"

/-- How the program ends. Help that was asked for is no failure. -/
def exitCode : UsageFault → UInt8
  | .help => 0
  | _ => 2

end UsageFault

end SchemaTypes
