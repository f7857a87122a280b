import SchemaTypes.Files.Path

/-!
# A tree of files

A file system as a program sees it: a tree of directories and files, without links, and the
directory that the program works in. A path is walked step by step from there, or from the root, and
every step but the last has to lead to a directory. Nothing here depends on the order of the entries
of a directory except the order in which they are listed.
-/

namespace SchemaTypes

/-- The name of an entry of a directory: a text that can be a step of a path and means nothing else
there. -/
structure EntryName where
  text : String
  isStep : text ≠ "" ∧ text ≠ "." ∧ text ≠ ".." ∧ '/' ∉ text.toList
  deriving DecidableEq

/-- The name that a text is, if it is one. -/
def EntryName.ofText? (text : String) : Option EntryName :=
  if h : text ≠ "" ∧ text ≠ "." ∧ text ≠ ".." ∧ '/' ∉ text.toList then some ⟨text, h⟩ else none

/-- A file or a directory. -/
inductive Node where
  | file (content : ByteArray)
  | directory (entries : List (EntryName × Node))

/-- Why an operation on files fails. -/
inductive FileFault where
  | notFound
  | exists
  | notDirectory
  | isDirectory
  | notText
  deriving DecidableEq

/-- The text of a failure. -/
def FileFault.message : FileFault → String
  | .notFound => "No such file or directory (os error 2)"
  | .exists => "File exists (os error 17)"
  | .notDirectory => "Not a directory (os error 20)"
  | .isDirectory => "Is a directory (os error 21)"
  | .notText => "stream did not contain valid UTF-8"

/-- The path of an entry of a directory. In front of an entry of the working directory stands
nothing. -/
def FilePath.child (directory : FilePath) (name : EntryName) : FilePath :=
  if directory.same .here then ⟨name.text⟩ else directory.join ⟨name.text⟩

/-- Something that lies below a directory: its path, its own name and what it is. -/
structure Found where
  path : FilePath
  name : EntryName
  node : Node

namespace Node

/-- Whether a node is a directory. -/
def isDirectory : Node → Bool
  | .directory _ => true
  | .file _ => false

/-- The entries of a directory; a file has none. -/
def entries : Node → List (EntryName × Node)
  | .directory entries => entries
  | .file _ => []

/-- The entry of the given name. -/
def entry? (node : Node) (name : EntryName) : Option Node :=
  node.entries.lookup name

/-- The node at the end of a way down. -/
def at? : Node → List EntryName → Option Node
  | node, [] => some node
  | node, name :: way => node.entry? name |>.bind (at? · way)

/-- The entries of a directory with one of them set; a new one goes to the end. -/
def setEntry (name : EntryName) (node : Node) :
    List (EntryName × Node) → List (EntryName × Node)
  | [] => [(name, node)]
  | (other, old) :: rest =>
    if other = name then (name, node) :: rest else (other, old) :: setEntry name node rest

/-- The tree with `new` at the end of a way down. A directory that is missing on the way is made,
and a way through a file changes nothing. -/
def put (new : Node) : Node → List EntryName → Node
  | _, [] => new
  | .file content, _ :: _ => .file content
  | .directory entries, name :: way =>
    .directory (setEntry name (put new ((entries.lookup name).getD (.directory [])) way) entries)

mutual

/-- Everything below a node, where `place` is the path of the node. A directory stands before what
lies below it. -/
def descendants (place : FilePath) : Node → List Found
  | .file _ => []
  | .directory entries => descendantsOf place entries

/-- The given entries of the directory `place` and everything below them. -/
def descendantsOf (place : FilePath) : List (EntryName × Node) → List Found
  | [] => []
  | (name, node) :: rest =>
    ⟨place.child name, name, node⟩ ::
      (node.descendants (place.child name) ++ descendantsOf place rest)

end

end Node

/-- A tree of files and the way to the directory that a program works in. -/
structure FileSystem where
  root : Node
  workingDirectory : List EntryName

namespace FileSystem

/-- The end of a walk that starts at `place`. -/
def walk (root : Node) : List EntryName → List String → Except FileFault (List EntryName)
  | place, [] => .ok place
  | place, step :: rest =>
    match root.at? place with
    | none => .error .notFound
    | some (.file _) => .error .notDirectory
    | some (.directory entries) =>
      if step = "" ∨ step = "." then walk root place rest
      else if step = ".." then walk root place.dropLast rest
      else
        match EntryName.ofText? step with
        | none => .error .notFound
        | some name =>
          if (entries.lookup name).isSome then walk root (place ++ [name]) rest
          else .error .notFound

/-- The steps of a path, and where its walk starts. -/
def start (fs : FileSystem) (p : FilePath) : List EntryName × List String :=
  (if p.isAbsolute then [] else fs.workingDirectory, Text.splitAt '/' p.text)

/-- Where a path leads to. The empty path leads nowhere. -/
def locate (fs : FileSystem) (p : FilePath) : Except FileFault (List EntryName) :=
  if p.text = "" then .error .notFound
  else walk fs.root (fs.start p).1 (fs.start p).2

/-- What a path leads to. -/
def node (fs : FileSystem) (p : FilePath) : Except FileFault Node := do
  match fs.root.at? (← fs.locate p) with
  | some node => return node
  | none => throw .notFound

/-- Whether a path leads to a directory. -/
def isDirectory (fs : FileSystem) (p : FilePath) : Bool :=
  match fs.node p with
  | .ok (.directory _) => true
  | _ => false

/-- Whether a path leads to a file. -/
def isFile (fs : FileSystem) (p : FilePath) : Bool :=
  match fs.node p with
  | .ok (.file _) => true
  | _ => false

/-- Whether a path leads to anything. -/
def contains (fs : FileSystem) (p : FilePath) : Bool :=
  (fs.node p).isOk

/-- The names of the entries of a directory. -/
def names (fs : FileSystem) (p : FilePath) : List EntryName :=
  match fs.node p with
  | .ok node => node.entries.map (·.1)
  | .error _ => []

/-- Everything below a directory, with its path. -/
def descendants (fs : FileSystem) (p : FilePath) : List Found :=
  match fs.node p with
  | .ok node => node.descendants p
  | .error _ => []

/-- The text of a file. -/
def read (fs : FileSystem) (p : FilePath) : Except FileFault String := do
  match ← fs.node p with
  | .directory _ => throw .isDirectory
  | .file content =>
    match String.fromUTF8? content with
    | some text => return text
    | none => throw .notText

/-- Where a new entry goes: the way to a directory that is there, and a name. -/
def vacancy? (fs : FileSystem) (p : FilePath) : Option (List EntryName) := do
  let (place, steps) := fs.start p
  let name ← EntryName.ofText? (← steps.getLast?)
  let directory ← (walk fs.root place steps.dropLast).toOption
  match fs.root.at? directory with
  | some (.directory _) => some (directory ++ [name])
  | _ => none

/-- The file system with another node at the end of a way down. -/
def put (fs : FileSystem) (way : List EntryName) (node : Node) : FileSystem :=
  { fs with root := Node.put node fs.root way }

/-- Makes one directory in a directory that is there. -/
def makeDirectory (fs : FileSystem) (p : FilePath) : Except FileFault FileSystem :=
  match fs.locate p, fs.vacancy? p with
  | .ok _, _ => .error .exists
  | .error _, some way => .ok (fs.put way (.directory []))
  | .error fault, none => .error fault

/-- Makes the first of the given directories, of which each lies in the next, and those of the
others that are missing. The directories that were made stay if one cannot be made. -/
def makeNested (fs : FileSystem) : List FilePath → Except FileFault Unit × FileSystem
  | [] => (.ok (), fs)
  | directory :: above =>
    match fs.makeDirectory directory with
    | .ok made => (.ok (), made)
    | .error .notFound =>
      match makeNested fs above with
      | (.error fault, fs) => (.error fault, fs)
      | (.ok (), fs) =>
        match fs.makeDirectory directory with
        | .ok made => (.ok (), made)
        | .error fault => (if fs.isDirectory directory then .ok () else .error fault, fs)
    | .error fault => (if fs.isDirectory directory then .ok () else .error fault, fs)

/-- Makes a directory and those that it lies in, as far as they are missing. -/
def makeDirectories (fs : FileSystem) (p : FilePath) : Except FileFault FileSystem :=
  let (result, fs) := fs.makeNested p.ancestors
  result.map fun _ => fs

/-- Writes a file into a directory that is there. -/
def write (fs : FileSystem) (p : FilePath) (content : ByteArray) : Except FileFault FileSystem :=
  match fs.locate p, fs.vacancy? p with
  | .ok way, _ =>
    match fs.root.at? way with
    | some (.directory _) => .error .isDirectory
    | _ => .ok (fs.put way (.file content))
  | .error _, some way => .ok (fs.put way (.file content))
  | .error fault, none => .error fault

end FileSystem

end SchemaTypes
