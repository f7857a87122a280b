import SchemaTypes.Text.Split

/-!
# File paths

A path is a text cut at slashes. Its parts are the root, if it starts with a slash, and the names on
the way; an empty piece is no part, and neither is a dot, except in front of a path without a root.
Paths are compared part by part, so `a//b` and `a/./b` are the same path as `a/b`, and `a/b` stands
before `a-b`.

The pieces of a path keep the text between the slashes beside the part it stands for, so that a path
can be shortened without changing how the rest of it is written.

Only paths of Unicode text are modelled. File systems may allow names of other bytes, and the
program reads these lossily where it needs a text: what cannot be decoded becomes U+FFFD, so
different names may be read as one. What is said here of different names is said of names that are
text.
-/

namespace SchemaTypes

/-- A step of a path. -/
inductive PathPart where
  | root
  | here
  | parent
  | name (s : String)
  deriving DecidableEq

namespace PathPart

/-- The place of the kinds of parts in the order of paths. -/
def rank : PathPart → Nat
  | .root => 0
  | .here => 1
  | .parent => 2
  | .name _ => 3

/-- Names are ordered as texts are, and stand behind all other parts. -/
def lt : PathPart → PathPart → Bool
  | .name s, .name t => decide (s < t)
  | a, b => decide (a.rank < b.rank)

instance : LT PathPart := ⟨fun a b => a.lt b⟩

instance : DecidableLT PathPart := fun a b => inferInstanceAs (Decidable (a.lt b = true))

/-- The part as it is written; the root is a slash. -/
def text : PathPart → String
  | .root => "/"
  | .here => "."
  | .parent => ".."
  | .name s => s

end PathPart

/-- The address of a file or a directory, as it is written. It is Unicode text; a name of other bytes,
which the program reads lossily, is none that is modelled. -/
structure FilePath where
  text : String
  deriving DecidableEq

namespace FilePath

/-- What stands between two slashes, and the part it stands for. -/
structure Piece where
  chars : List Char
  part? : Option PathPart

/-- Whether a piece stands for no part. -/
def Piece.isVoid (piece : Piece) : Bool :=
  piece.part?.isNone

/-- A piece of a path. A dot is a part only in front. -/
def Piece.ofChars (inFront : Bool) (cs : List Char) : Piece where
  chars := cs
  part? :=
    match cs with
    | [] => none
    | ['.'] => if inFront then some .here else none
    | ['.', '.'] => some .parent
    | cs => some (.name (String.ofList cs))

/-- The pieces of a path that was cut at its slashes. In front of a first slash stands the root. -/
def piecesOf : List (List Char) → List Piece
  | [] => []
  | [] :: next :: rest => ⟨[], some .root⟩ :: (next :: rest).map (.ofChars false)
  | first :: rest => .ofChars true first :: rest.map (.ofChars false)

/-- The pieces of a path, from front to end. -/
def pieces (p : FilePath) : List Piece :=
  piecesOf (Text.split (· == '/') p.text.toList)

/-- The path that consists of the given pieces. -/
def ofPieces : List Piece → FilePath
  | [⟨[], some .root⟩] => ⟨"/"⟩
  | pieces => ⟨String.ofList (List.intercalate ['/'] (pieces.map (·.chars)))⟩

/-- The parts of a path. -/
def parts (p : FilePath) : List PathPart :=
  p.pieces.filterMap (·.part?)

/-- Whether two paths have the same parts. -/
def same (p q : FilePath) : Bool :=
  decide (p.parts = q.parts)

instance : LT FilePath := ⟨fun p q => p.parts < q.parts⟩

instance : DecidableLT FilePath := fun p q => inferInstanceAs (Decidable (p.parts < q.parts))

/-- The directory that a program works in. -/
def here : FilePath :=
  ⟨"."⟩

/-- Whether a path starts at the root. -/
def isAbsolute (p : FilePath) : Bool :=
  p.text.toList.head? == some '/'

/-- The last part of a path, if it is a name. -/
def fileName? (p : FilePath) : Option String :=
  match p.parts.getLast? with
  | some (.name s) => some s
  | _ => none

/-- The path without its last part. A path without a part has none, and neither has the root. -/
def parent? (p : FilePath) : Option FilePath :=
  match p.pieces.reverse.dropWhile Piece.isVoid with
  | [] | [⟨_, some .root⟩] => none
  | _ :: before => some (ofPieces (before.dropWhile Piece.isVoid).reverse)

/-- The paths that end at a part, from the longest to the shortest. -/
def ancestorsOf : List Piece → List FilePath
  | [] => []
  | piece :: before =>
    if piece.isVoid then ancestorsOf before
    else ofPieces (piece :: before).reverse :: ancestorsOf before

/-- A path and the directories that it lies in, from the path up. -/
def ancestors (p : FilePath) : List FilePath :=
  ancestorsOf p.pieces.reverse

/-- The pieces behind the given parts, if they stand in front. -/
def dropParts? : List PathPart → List Piece → Option (List Piece)
  | [], pieces => some pieces
  | _ :: _, [] => none
  | part :: parts, piece :: pieces =>
    match piece.part? with
    | none => dropParts? (part :: parts) pieces
    | some other => if part = other then dropParts? parts pieces else none

/-- The way from a directory to a path below it. -/
def relativeTo? (p base : FilePath) : Option FilePath :=
  (dropParts? base.parts p.pieces).map fun rest =>
    ofPieces ((rest.dropWhile Piece.isVoid).reverse.dropWhile Piece.isVoid).reverse

/-- A path below a directory. A path that starts at the root stays as it is. -/
def join (base p : FilePath) : FilePath :=
  if p.isAbsolute then p
  else
    match base.text.toList.getLast? with
    | none | some '/' => ⟨base.text ++ p.text⟩
    | some _ => ⟨base.text ++ "/" ++ p.text⟩

/-- The path with another name at its end; a path whose last part is no name gets one more part. -/
def withFileName (p : FilePath) (name : String) : FilePath :=
  match p.fileName?, p.parent? with
  | some _, some directory => directory.join ⟨name⟩
  | _, _ => p.join ⟨name⟩

end FilePath

end SchemaTypes
