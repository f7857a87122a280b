import SchemaTypes.Files.Path
import SchemaTypes.Identifier

/-!
# Names from paths

The file that a document was read from names it, if nothing else does, and the place of that file
below an input decides where the module of the document goes. Both take the name of the file as a
text. A name that is no Unicode text is not modelled: the program reads U+FFFD for what cannot be
decoded in it, and the modules of two such names may go to one file.
-/

namespace SchemaTypes
namespace FilePath

/-- The name of an untitled document: what its file name up to the first dot makes. -/
def documentName? (p : FilePath) : Option String :=
  p.fileName?.bind fun name =>
    Identifier.normalized? (String.ofList (name.toList.takeWhile (· ≠ '.')))

/-- A file name without one `.json` at its end. -/
def stem (name : String) : String :=
  match name.toList.reverse with
  | 'n' :: 'o' :: 's' :: 'j' :: '.' :: rest => String.ofList rest.reverse
  | _ => name

/-- The file that the module of a document goes to: below `directory` what the document's file is
below its input, with the ending for declarations. The name of the document's file is text, so
nothing is lost in reading it. -/
def moduleFile (directory relative : FilePath) : FilePath :=
  (directory.join relative).withFileName (stem (relative.fileName?.getD "") ++ ".d.ts")

end FilePath
end SchemaTypes
