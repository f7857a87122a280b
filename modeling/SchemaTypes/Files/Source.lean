import SchemaTypes.Files.Glob

/-!
# Sources

The files that a list of inputs names. An input is a pattern, if it holds a wildcard, or a
directory, which stands for everything below it whose name ends in `.json`, or else a file. A file
that several inputs name is one source.
-/

namespace SchemaTypes

/-- A file to read, and where it lies below the input that named it. -/
structure Source where
  path : FilePath
  relative : FilePath

/-- Why inputs name no files. -/
inductive InputFault where
  | badPattern (fault : GlobFault)
  | noMatch (pattern : String)

/-- The text of a fault. -/
def InputFault.message : InputFault → String
  | .badPattern fault => fault.message
  | .noMatch pattern => "glob pattern matched no files: " ++ pattern

namespace Source

/-- Whether a text holds a character that is special in patterns. An opening brace is one, although
it stands for itself. -/
def isPattern (text : String) : Bool :=
  text.toList.any fun c => c == '*' || c == '?' || c == '[' || c == '\x7b'

/-- The directory in front of the first part of a pattern that holds a wildcard. -/
def base (pattern : FilePath) : FilePath :=
  (pattern.parts.takeWhile fun part => !isPattern part.text).foldl
    (fun directory part => directory.join ⟨part.text⟩) ⟨""⟩

/-- The source at a path that was found from a directory. If it does not lie below that directory,
only its name counts. -/
def found (directory path : FilePath) : Source :=
  let alone : FilePath := (path.fileName?.map FilePath.mk).getD path
  match path.relativeTo? directory with
  | some rest => ⟨path, if rest.text = "" then alone else rest⟩
  | none => ⟨path, alone⟩

/-- The pattern for the documents below a directory. -/
def nested (directory : String) : String :=
  String.ofList (directory.toList.reverse.dropWhile (· == '/')).reverse ++ "/**/*.json"

/-- The sources that a pattern names, and at least one. -/
def ofPattern (fs : FileSystem) (pattern : String) : Except InputFault (List Source) := do
  let glob ← (Glob.parse pattern).mapError .badPattern
  let sources := ((glob.paths fs).filter fs.isFile).map (found (base ⟨pattern⟩))
  if sources.isEmpty then throw (.noMatch pattern)
  return sources

/-- The sources in a directory. -/
def ofDirectory (fs : FileSystem) (directory : String) : Except InputFault (List Source) := do
  let glob ← (Glob.parse (nested directory)).mapError .badPattern
  return (glob.paths fs).map (found ⟨directory⟩)

/-- The sources that one input names. -/
def ofInput (fs : FileSystem) (input : String) : Except InputFault (List Source) :=
  if isPattern input then ofPattern fs input
  else if fs.isDirectory ⟨input⟩ then ofDirectory fs input
  else .ok [found ((FilePath.mk input).parent?.getD ⟨""⟩) ⟨input⟩]

/-- Sources are ordered by their paths, and for one path by where they lie below their inputs. -/
def lt (a b : Source) : Bool :=
  decide (a.path < b.path) || a.path.same b.path && decide (a.relative < b.relative)

/-- The sources behind `first`, and it, without those that have the path of the source in front of
them. -/
def distinctFrom (first : Source) : List Source → List Source
  | [] => [first]
  | next :: rest =>
    if first.path.same next.path then distinctFrom first rest
    else first :: distinctFrom next rest

/-- Sources without those that have the path of the source in front of them. -/
def distinct : List Source → List Source
  | [] => []
  | first :: rest => distinctFrom first rest

/-- The sources that inputs name, in the order of their paths and each path once. -/
def ofInputs (fs : FileSystem) (inputs : List String) : Except InputFault (List Source) := do
  let sources ← inputs.mapM (ofInput fs)
  return distinct (sources.flatten.mergeSort fun a b => !b.lt a)

end Source

end SchemaTypes
