import SchemaTypes.Command.Arguments
import SchemaTypes.Command.Run

/-!
# The program

Looks at the files that a command line is about, runs it on them, writes the modules that the run
leaves behind, and prints what it tells.
-/

namespace SchemaTypes

/-- The paths that a command line is about: what its inputs start from, and where modules go. -/
def CommandLine.places (line : CommandLine) : List FilePath :=
  let ofInput (input : String) : FilePath :=
    if Source.isPattern input then Source.base ⟨input⟩ else ⟨input⟩
  match line.command with
  | .declarations settings => settings.input.inputs.map ofInput ++ settings.directory.toList
  | .names settings => settings.inputs.map ofInput

/-- The way from the root to a path, if no step of it is a link. -/
def FileSystem.wayTo (fs : FileSystem) (p : FilePath) : List EntryName :=
  p.parts.foldl (fun way part =>
    match part with
    | .root => []
    | .here => way
    | .parent => way.dropLast
    | .name s => way ++ (EntryName.ofText? s).toList)
    (if p.isAbsolute then [] else fs.workingDirectory)

/-- What is at a path, down to the given depth. What cannot be read counts as missing. -/
def loadNode (depth : Nat) (text : String) : IO (Option Node) := do
  let path := (← IO.currentDir) / text
  try
    if ← path.isDir then
      match depth with
      | 0 => return some (.directory [])
      | depth + 1 =>
        let mut entries := #[]
        for entry in ← path.readDir do
          if let some name := EntryName.ofText? entry.fileName then
            if let some node ← loadNode depth (text ++ "/" ++ entry.fileName) then
              entries := entries.push (name, node)
        return some (.directory entries.toList)
    else if ← path.pathExists then
      return some (.file (← IO.FS.readBinFile path))
    else
      return none
  catch _ => return none

/-- The files that a command line is about, and the directories that they lie in. -/
def loadFiles (places : List FilePath) : IO FileSystem := do
  let here : FilePath := ⟨(← IO.currentDir).toString⟩
  let start : FileSystem := ⟨.directory [], []⟩
  let way := start.wayTo here
  let mut fs : FileSystem := { start.put way (.directory []) with workingDirectory := way }
  for place in places do
    for directory in place.ancestors.reverse.dropLast do
      if !fs.contains directory then
        if let some node ← loadNode 0 directory.text then
          fs := fs.put (fs.wayTo directory) node
    let text := if place.text = "" then "." else place.text
    if let some node ← loadNode 100 text then
      fs := fs.put (fs.wayTo place) node
  return fs

/-- Writes a module to its file. -/
def writeModule (files : FileSystem) (target : FilePath) : IO Unit := do
  let here ← IO.currentDir
  if let some parent := target.parent? then
    IO.FS.createDirAll (here / parent.text)
  if let .ok text := files.read target then
    IO.FS.writeFile (here / target.text) text

/-- Runs the command line that the arguments make. -/
def runArguments (arguments : List String) : IO UInt32 := do
  match CommandLine.read arguments with
  | .error fault =>
    (if fault = .help then IO.println else IO.eprintln) fault.message
    return fault.exitCode.toUInt32
  | .ok line =>
    let report := line.run (← loadFiles line.places)
    report.written.forM (writeModule report.files)
    IO.print report.output
    IO.eprint report.messages
    return if report.failed then 1 else 0

end SchemaTypes

/-- The program: from its arguments to how it ends. -/
def main (arguments : List String) : IO UInt32 :=
  SchemaTypes.runArguments arguments
