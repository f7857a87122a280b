/-!
# Scanning the text of a type

A scan goes over the text of a type from left to right and keeps track of whether it is inside a
string and how many brackets are open outside of strings. That is enough to tell from the text alone
whether it is a union or an intersection at its outermost level (`hasJoin`).
-/

namespace SchemaTypes

/-- Where a scan stands: outside of strings, inside one, or behind a backslash in one. -/
inductive ScanMode where
  | plain
  | quoted
  | escaped
  deriving DecidableEq

/-- A scan: where it stands, and how many brackets are open. -/
structure Scan where
  mode : ScanMode := .plain
  depth : Nat := 0
  deriving DecidableEq

namespace Scan

/-- Whether a character opens a bracket. -/
def isOpening (c : Char) : Bool :=
  c == '(' || c == '[' || c == '\x7b' || c == '<'

/-- Whether a character closes a bracket. -/
def isClosing (c : Char) : Bool :=
  c == ')' || c == ']' || c == '\x7d' || c == '>'

/-- The scan after one more character. A closing bracket without an opening one counts as none. -/
def step (s : Scan) (c : Char) : Scan :=
  match s.mode with
  | .escaped => { s with mode := .quoted }
  | .quoted =>
    if c = '\\' then { s with mode := .escaped }
    else if c = '"' then { s with mode := .plain }
    else s
  | .plain =>
    if c = '"' then { s with mode := .quoted }
    else if isOpening c then { s with depth := s.depth + 1 }
    else if isClosing c then { s with depth := s.depth - 1 }
    else s

/-- The scan after a text. -/
def run (s : Scan) (cs : List Char) : Scan :=
  cs.foldl step s

/-- Whether a bar or an ampersand between blanks stands in a text outside of brackets and strings,
when the scan has come to the text and `before` is the character before it. -/
def hasJoin (s : Scan) (before : Char) : List Char → Bool
  | [] => false
  | c :: rest =>
    (s.mode = .plain && s.depth = 0 && (c = '|' || c = '&') && before = ' ' &&
        rest.head? = some ' ') ||
      hasJoin (s.step c) c rest

end Scan

/-- Whether the text of a type joins several types at its outermost level. -/
def isCompound (text : String) : Bool :=
  Scan.hasJoin {} '\x00' text.toList

end SchemaTypes
