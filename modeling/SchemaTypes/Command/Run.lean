import SchemaTypes.Command.Basic
import SchemaTypes.Text.Layout

/-!
# Running commands

What a command line does, as a function of the files that are there: the texts it prints, how it
ends, and the files that are there afterwards. A document that fails is told about and makes the run
fail, but the others are converted all the same.
-/

namespace SchemaTypes

/-- What a run leaves behind. -/
structure Report where
  output : String := ""
  messages : String := ""
  failed : Bool := false
  files : FileSystem
  /-- The files that were written, in order. -/
  written : List FilePath := []

namespace Report

/-- The report with one more text printed. -/
def print (r : Report) (text : String) : Report :=
  { r with output := r.output ++ text }

/-- The report with one more line of messages. -/
def tell (r : Report) (line : String) : Report :=
  { r with messages := r.messages ++ line ++ "\n" }

/-- The report of a run that ends with an error. -/
def fail (r : Report) (text : String) : Report :=
  { r.tell ("error: " ++ text) with failed := true }

/-- The report after telling of a source that failed. -/
def tellFault (r : Report) (source : FilePath) (fault : ConversionFault) : Report :=
  r.tell ("✗ " ++ source.text ++ ": " ++ ": ".intercalate fault.chain)

/-- The report after all documents, of which some may have failed. -/
def close (r : Report) (outcomes : List (SourceResult α)) : Report :=
  let failed := (outcomes.filter fun o => !o.result.isOk).length
  if failed = 0 then r
  else r.fail (toString failed ++ " of " ++ toString outcomes.length ++ " documents failed")

end Report

namespace InputOptions

/-- The settings as a report shows them. -/
def layout (settings : InputOptions) : Layout :=
  let text (s : String) : Layout := .atom (Text.shown s)
  .record "InputSettings" [
    ("json_pointer", .ofOption text settings.selection.pointer),
    ("jq_expr", .ofOption text settings.selection.filter),
    ("input", .list (settings.inputs.map text)),
    ("root_name", .ofOption text settings.rootName)]

end InputOptions

namespace DeclarationOptions

/-- The settings as a report shows them. -/
def layout (settings : DeclarationOptions) : Layout :=
  .record "TsOut" [
    ("input_settings", settings.input.layout),
    ("out_dir", .ofOption (fun p => .atom (Text.shown p.text)) settings.directory),
    ("export", .atom (match settings.exports with | .all => "All" | .root => "Root")),
    ("no_banner", .ofBool settings.noBanner),
    ("no_op", .ofBool settings.noOp)]

/-- How the sources are converted. -/
def options (settings : DeclarationOptions) : ConversionOptions where
  module := ⟨settings.input.rootName, settings.exports, !settings.noBanner⟩
  selection := settings.input.selection
  directory := settings.directory

/-- The report after one document: where its module went, or the module itself, under a line with
the path of its source if it is not alone. -/
def reportOutcome (alone : Bool) (r : Report) (outcome : SourceResult ConvertedModule) : Report :=
  let source := outcome.file.text
  match outcome.result with
  | .error fault => r.tellFault outcome.file fault
  | .ok converted =>
    match converted.target with
    | some target =>
      let r := r.tell ("✓ " ++ source ++ " → " ++ target.text ++ " (" ++
        toString converted.declarations ++ " declarations)")
      { r with written := r.written ++ [target] }
    | none =>
      (if alone then r else r.print ("// " ++ source ++ "\n")).print converted.rendered

/-- Converts the inputs. -/
def run (settings : DeclarationOptions) (fs : FileSystem) : Report :=
  match Source.ofInputs fs settings.input.inputs with
  | .error fault => (Report.mk "" "" false fs []).fail fault.message
  | .ok sources =>
    let (outcomes, after) := Source.convertAll settings.options fs sources
    let report := outcomes.foldl (reportOutcome (outcomes.length ≤ 1)) { files := after }
    report.close outcomes

end DeclarationOptions

namespace InputOptions

/-- How the sources are read. -/
def options (settings : InputOptions) : ConversionOptions where
  module := { rootName := settings.rootName }
  selection := settings.selection

/-- Lists the names that the places of the inputs would get, as one JSON object. -/
def run (settings : InputOptions) (fs : FileSystem) : Report :=
  match Source.ofInputs fs settings.inputs with
  | .error fault => (Report.mk "" "" false fs []).fail fault.message
  | .ok sources =>
    let outcomes := Source.namesOfAll settings.options fs sources
    let report := outcomes.foldl (fun (r : Report) outcome =>
      match outcome.result with
      | .ok _ => r
      | .error fault => r.tellFault outcome.file fault) { files := fs }
    let listed := outcomes.filterMap fun outcome =>
      match outcome.result with
      | .ok names =>
        some (outcome.file.text, Json.object (names.map fun (p, name) => (p.text, .string name)))
      | .error _ => none
    (report.print ((Json.object listed).pretty ++ "\n")).close outcomes

end InputOptions

namespace CommandLine

/-- The command line as a report shows it. -/
def layout (line : CommandLine) : Layout :=
  .record "CommandLineInterface" [
    ("verbose", .atom (toString line.verbosity)),
    ("cmd",
      match line.command with
      | .declarations settings => .tagged "Ts" settings.layout
      | .names settings => .tagged "Names" (.record "NamesOut" [
          ("input_settings", settings.layout)]))]

/-- Does what a command line asks for. -/
def run (line : CommandLine) (fs : FileSystem) : Report :=
  match line.command with
  | .declarations settings =>
    if settings.noOp then (Report.mk "" "" false fs []).tell line.layout.text
    else settings.run fs
  | .names settings => settings.run fs

end CommandLine

end SchemaTypes
