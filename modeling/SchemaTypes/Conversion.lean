import SchemaTypes.Files.Naming
import SchemaTypes.Files.Source
import SchemaTypes.Filter.Select
import SchemaTypes.Module

/-!
# Conversion of files

Every source is converted on its own: its file is read, the schema in it is selected, and the module
of that schema is written below a directory or kept as text. A source that fails leaves the others
alone.
-/

namespace SchemaTypes

/-- Where the schema is in each document: behind a filter, at a pointer, or first behind the filter
and then at the pointer of what it gives. -/
structure Selector where
  filter : Option String := none
  pointer : Option String := none

/-- How sources are converted. Modules are only written if there is a directory for them. -/
structure ConversionOptions where
  module : ModuleOptions := {}
  selection : Selector := {}
  directory : Option FilePath := none

/-- Why a source is not converted. -/
inductive ConversionFault where
  | unreadable (file : FilePath) (fault : FileFault)
  | notJson (file : FilePath) (e : SyntaxError)
  | notFiltered (file : FilePath) (e : FilterError)
  | nothingSelected (pointer : String) (file : FilePath)
  | notSchema (e : InvalidSchema)
  | notBuilt (file : FilePath) (e : BuildError)
  | directoryNotMade (directory : FilePath) (fault : FileFault)
  | notWritten (file : FilePath) (fault : FileFault)

/-- The texts of a fault and of its cause, if it has one that is told. -/
def ConversionFault.chain : ConversionFault → List String
  | .unreadable file fault => ["failed to read source file " ++ file.text, fault.message]
  | .notJson file e => ["failed to parse JSON source file " ++ file.text, e.message]
  | .notFiltered file e =>
    let cause :=
      match e with
      | .notSingle filter count => [FilterError.countMessage filter count]
      | _ => []
    ("failed to apply jq expression to " ++ file.text) :: cause
  | .nothingSelected pointer file =>
    ["JSON pointer " ++ pointer ++ " selects nothing in " ++ file.text]
  | .notSchema e => [e.message]
  | .notBuilt file e => ["failed to convert " ++ file.text, e.message]
  | .directoryNotMade directory fault => ["failed to create " ++ directory.text, fault.message]
  | .notWritten file fault => ["failed to write " ++ file.text, fault.message]

/-- What became of a source. -/
structure SourceResult (α : Type) where
  file : FilePath
  result : Except ConversionFault α

/-- The module of a source: its text, the file it was written to, and the number of its
declarations. -/
structure ConvertedModule where
  rendered : String
  target : Option FilePath
  declarations : Nat

namespace Source

/-- The value that is selected in a document. -/
def select (selection : Selector) (file : FilePath) (value : Json) :
    Except ConversionFault Json := do
  let value ←
    match selection.filter with
    | some filter => (Filter.select? filter value).mapError (.notFiltered file)
    | none => pure value
  match selection.pointer with
  | some pointer =>
    match value.pointed? pointer with
    | some value => return value
    | none => throw (.nothingSelected pointer file)
  | none => return value

/-- The document in a file. -/
def load (fs : FileSystem) (selection : Selector) (file : FilePath) :
    Except ConversionFault Document := do
  let text ← (fs.read file).mapError (.unreadable file)
  let value ← (Json.read text).mapError (.notJson file)
  (Document.read (← select selection file value)).mapError .notSchema

/-- The options for the module of one file: an untitled document is called after the file unless
another name is given. -/
def moduleOptions (options : ConversionOptions) (file : FilePath) : ModuleOptions :=
  { options.module with rootName := options.module.rootName <|> file.documentName? }

/-- Writes a module to its place below a directory, which is made if it is missing. -/
def write (fs : FileSystem) (directory : FilePath) (source : Source) (text : String) :
    Except ConversionFault FilePath × FileSystem :=
  let target := directory.moduleFile source.relative
  let put (fs : FileSystem) : Except ConversionFault FilePath × FileSystem :=
    match fs.write target text.toUTF8 with
    | .ok fs => (.ok target, fs)
    | .error fault => (.error (.notWritten target fault), fs)
  match target.parent? with
  | none => put fs
  | some parent =>
    match fs.makeNested parent.ancestors with
    | (.ok (), fs) => put fs
    | (.error fault, fs) => (.error (.directoryNotMade parent fault), fs)

/-- The module of a source, which is not written yet. -/
def build (options : ConversionOptions) (fs : FileSystem) (source : Source) :
    Except ConversionFault ConvertedModule := do
  let document ← load fs options.selection source.path
  let made ← (Module.generate document (moduleOptions options source.path)).mapError
    (.notBuilt source.path)
  return ⟨made.render, none, made.declarations.length⟩

/-- Converts one source. -/
def convert (options : ConversionOptions) (fs : FileSystem) (source : Source) :
    Except ConversionFault ConvertedModule × FileSystem :=
  match build options fs source with
  | .error fault => (.error fault, fs)
  | .ok converted =>
    match options.directory with
    | none => (.ok converted, fs)
    | some directory =>
      match write fs directory source converted.rendered with
      | (.ok target, fs) => (.ok { converted with target := some target }, fs)
      | (.error fault, fs) => (.error fault, fs)

/-- Converts all sources in order, each on its own. -/
def convertAll (options : ConversionOptions) (fs : FileSystem) :
    List Source → List (SourceResult ConvertedModule) × FileSystem
  | [] => ([], fs)
  | source :: rest =>
    let (result, fs) := convert options fs source
    let (results, fs) := convertAll options fs rest
    (⟨source.path, result⟩ :: results, fs)

/-- The names that the places of a source get, in the order of their pointers. -/
def names (options : ConversionOptions) (fs : FileSystem) (source : Source) :
    Except ConversionFault (List (Pointer × String)) := do
  let document ← load fs options.selection source.path
  return (Survey.names document (moduleOptions options source.path).rootName).names

/-- The names of all sources, each on its own. -/
def namesOfAll (options : ConversionOptions) (fs : FileSystem) (sources : List Source) :
    List (SourceResult (List (Pointer × String))) :=
  sources.map fun source => ⟨source.path, names options fs source⟩

end Source

end SchemaTypes
