import SchemaTypes.Command.Basic

/-!
# Reading command lines

The arguments are read from the first to the last. Options and switches may stand in any order
behind the command; a value stands behind `=`, behind a short option itself, or in the next
arguments up to one that starts with a dash. An option whose values stand in the next arguments is
*pending* until the next option or the end shows that it has them all; only then they are checked.
An argument that is no option at all is refused before the pending option is looked at.
-/

namespace SchemaTypes

/-- What may stand in front of values, or alone. -/
inductive CommandOption where
  | pointer
  | filter
  | input
  | rootName
  | directory
  | exports
  | noBanner
  | noOp
  | verbose
  | help
  deriving DecidableEq

/-- The two commands. -/
inductive CommandVerb where
  | declarations
  | names
  deriving DecidableEq

namespace CommandVerb

/-- The command of the given name. -/
def ofName? : String → Option CommandVerb
  | "ts" => some .declarations
  | "names" => some .names
  | _ => none

/-- Whether an option belongs to a command, or stands in front of all commands. -/
def takes (verb? : Option CommandVerb) : CommandOption → Bool
  | .verbose | .help => true
  | .pointer | .filter | .input | .rootName => verb?.isSome
  | .directory | .exports | .noBanner | .noOp => verb? = some .declarations

end CommandVerb

namespace CommandOption

/-- The option that is written behind two dashes. -/
def ofLong? : String → Option CommandOption
  | "json-pointer" => some .pointer
  | "jq-expr" => some .filter
  | "input" => some .input
  | "root-name" => some .rootName
  | "out-dir" => some .directory
  | "export" => some .exports
  | "no-banner" => some .noBanner
  | "no-op" => some .noOp
  | "verbose" => some .verbose
  | "help" => some .help
  | _ => none

/-- The option that is written behind one dash. -/
def ofShort? : Char → Option CommandOption
  | 'i' => some .input
  | 'o' => some .directory
  | 'v' => some .verbose
  | 'h' => some .help
  | _ => none

/-- Whether values belong to an option. -/
def takesValue : CommandOption → Bool
  | .noBanner | .noOp | .verbose | .help => false
  | _ => true

/-- Whether an option may be given more than once, and with more than one value at a time. -/
def isRepeatable : CommandOption → Bool
  | .input => true
  | _ => false

/-- Whether an option takes a value. A directory is not the empty text. -/
def accepts : CommandOption → String → Bool
  | .directory, value => value ≠ ""
  | .exports, value => value = "all" ∨ value = "root"
  | _, _ => true

end CommandOption

/-- The form of an argument. -/
inductive Argument where
  /-- Two dashes alone. -/
  | endOfOptions
  | long (name : String) (value? : Option String)
  | short (letters : List Char)
  | word (text : String)

/-- The form of an argument; a dash alone is a word. -/
def Argument.ofText (text : String) : Argument :=
  match text.toList with
  | ['-', '-'] => .endOfOptions
  | '-' :: '-' :: rest =>
    let name := String.ofList (rest.takeWhile (· ≠ '='))
    match rest.dropWhile (· ≠ '=') with
    | [] => .long name none
    | _ :: value => .long name (some (String.ofList value))
  | '-' :: letter :: rest => .short (letter :: rest)
  | _ => .word text

/-- What has been read of a command line. -/
structure ArgumentReading where
  /-- The options that are dealt with, each with its values. -/
  given : List (CommandOption × List String) := []
  pending : Option (CommandOption × List String) := none
  /-- Whether the pending option takes another value. -/
  isOpen : Bool := false
  verbosity : Nat := 0

namespace ArgumentReading

/-- Whether an option is among those that are dealt with. -/
def has (r : ArgumentReading) (option : CommandOption) : Bool :=
  r.given.any (·.1 = option)

/-- The values of an option. -/
def values (r : ArgumentReading) (option : CommandOption) : List String :=
  (r.given.filter (·.1 = option)).flatMap (·.2)

/-- The reading after an option with all its values. -/
def add (r : ArgumentReading) (option : CommandOption) (values : List String) :
    Except UsageFault ArgumentReading :=
  if option.takesValue && values.isEmpty then .error .badValue
  else if !option.isRepeatable && r.has option then .error .givenTwice
  else if !values.all option.accepts then .error .badValue
  else .ok { r with given := r.given ++ [(option, values)], isOpen := false }

/-- The reading after the pending option has all its values. -/
def settle (r : ArgumentReading) : Except UsageFault ArgumentReading :=
  match r.pending with
  | none => .ok { r with isOpen := false }
  | some (option, values) => add { r with pending := none } option values

/-- The reading after a switch. The wish to be told more is counted, in one byte. -/
def addSwitch (r : ArgumentReading) (option : CommandOption) :
    Except UsageFault ArgumentReading := do
  let r ← r.settle
  match option with
  | .help => throw .help
  | .verbose => return { r with verbosity := min (r.verbosity + 1) 255 }
  | _ => r.add option []

/-- The reading after an option and the value at it, if there is one. Without a value at it, the
option is pending. -/
def addOption (r : ArgumentReading) (option : CommandOption) (value? : Option String) :
    Except UsageFault ArgumentReading := do
  let r ← r.settle
  match value? with
  | some value => r.add option [value]
  | none => return { r with pending := some (option, []), isOpen := true }

/-- The reading after an argument with two dashes. -/
def readLong (verb? : Option CommandVerb) (r : ArgumentReading) (name : String)
    (value? : Option String) : Except UsageFault ArgumentReading :=
  match (CommandOption.ofLong? name).filter (CommandVerb.takes verb?) with
  | none => .error .unknownOption
  | some option =>
    if option.takesValue then r.addOption option value?
    else if value?.isSome then .error .needlessValue
    else r.addSwitch option

/-- The reading after the letters behind one dash: switches, and at most one option, to which all
that follows it belongs. -/
def readShort (verb? : Option CommandVerb) (r : ArgumentReading) :
    List Char → Except UsageFault ArgumentReading
  | [] => .ok r
  | letter :: rest =>
    match (CommandOption.ofShort? letter).filter (CommandVerb.takes verb?) with
    | none => .error .unknownOption
    | some option =>
      if option.takesValue then
        r.addOption option <|
          match rest with
          | [] => none
          | '=' :: value => some (String.ofList value)
          | value => some (String.ofList value)
      else do
        readShort verb? (← r.addSwitch option) rest

/-- The reading after a word, which has to be a value of the pending option. -/
def readWord (r : ArgumentReading) (text : String) : Except UsageFault ArgumentReading :=
  match r.pending with
  | some (option, values) =>
    if r.isOpen then
      .ok { r with pending := some (option, values ++ [text]), isOpen := option.isRepeatable }
    else .error .unknownOption
  | none => .error .unknownOption

/-- The reading after all arguments of a command. Nothing may stand behind two dashes. -/
def readAll (verb : CommandVerb) (r : ArgumentReading) :
    List String → Except UsageFault ArgumentReading
  | [] => r.settle
  | text :: rest =>
    match Argument.ofText text with
    | .endOfOptions => if rest.isEmpty then r.settle else .error .unknownOption
    | .long name value? => do readAll verb (← r.readLong (some verb) name value?) rest
    | .short letters => do readAll verb (← r.readShort (some verb) letters) rest
    | .word text => do readAll verb (← r.readWord text) rest

/-- The settings that both commands have. Without an input there are none. -/
def inputSettings (r : ArgumentReading) : Except UsageFault InputOptions :=
  if r.has .input then
    .ok {
      selection := ⟨(r.values .filter).head?, (r.values .pointer).head?⟩
      inputs := r.values .input
      rootName := (r.values .rootName).head? }
  else .error .missingInput

/-- The command that was read. -/
def command (r : ArgumentReading) : CommandVerb → Except UsageFault Command
  | .declarations => do
    return .declarations {
      input := ← r.inputSettings
      directory := (r.values .directory).head?.map FilePath.mk
      exports := if r.values .exports = ["root"] then .root else .all
      noBanner := r.has .noBanner
      noOp := r.has .noOp }
  | .names => do return .names (← r.inputSettings)

end ArgumentReading

namespace CommandLine

/-- What is asked about by name: nothing, a command, or the word for help itself. -/
def readHelp : List String → UsageFault
  | [] => .help
  | [name] => if name = "help" ∨ (CommandVerb.ofName? name).isSome then .help else .unknownCommand
  | _ => .unknownCommand

/-- What the arguments behind two dashes in front of a command amount to. -/
def readBehindDashes (verbosity : Nat) : List String → UsageFault
  | [] => if verbosity = 0 then .nothingGiven else .missingCommand
  | name :: _ =>
    if name = "help" ∨ (CommandVerb.ofName? name).isSome then .unknownOption else .unknownCommand

/-- The command line behind the given number of wishes to be told more. If there are such wishes
behind the command too, only those count. -/
def readFrom (front : ArgumentReading) : List String → Except UsageFault CommandLine
  | [] => .error (readBehindDashes front.verbosity [])
  | text :: rest =>
    match Argument.ofText text with
    | .endOfOptions => .error (readBehindDashes front.verbosity rest)
    | .long name value? => do readFrom (← front.readLong none name value?) rest
    | .short letters => do readFrom (← front.readShort none letters) rest
    | .word name =>
      match CommandVerb.ofName? name with
      | some verb => do
        let r ← ArgumentReading.readAll verb {} rest
        return ⟨if r.verbosity = 0 then front.verbosity else r.verbosity, ← r.command verb⟩
      | none => .error (if name = "help" then readHelp rest else .unknownCommand)

/-- The command line that the arguments of the program make. -/
def read (arguments : List String) : Except UsageFault CommandLine :=
  readFrom {} arguments

end CommandLine

end SchemaTypes
