import SchemaTypes.Text.Quoted

/-!
# Values laid out over lines

A value of records, lists and atoms as a report shows it: every part on a line of its own, four
blanks further in than what it is a part of, and with a comma behind it.
-/

namespace SchemaTypes

/-- A value to be laid out. -/
inductive Layout where
  | atom (text : String)
  | record (name : String) (fields : List (String × Layout))
  | tagged (name : String) (value : Layout)
  | list (elements : List Layout)

namespace Layout

/-- A part with its label in front, a comma behind, and every line indented. -/
def asPart (label : String) : List String → List String
  | [] => []
  | [line] => ["    " ++ label ++ line ++ ","]
  | line :: rest =>
    ("    " ++ label ++ line) ::
      rest.dropLast.map ("    " ++ ·) ++ [("    " ++ rest.getLast?.getD "") ++ ","]

mutual

/-- The lines of a value. -/
def lines : Layout → List String
  | .atom text => [text]
  | .tagged name value => [name ++ "("] ++ asPart "" value.lines ++ [")"]
  | .record name fields => [name ++ " \x7b"] ++ fieldLines fields ++ ["\x7d"]
  | .list elements => ["["] ++ elementLines elements ++ ["]"]

/-- The lines of the fields of a record. -/
def fieldLines : List (String × Layout) → List String
  | [] => []
  | (name, value) :: rest => asPart (name ++ ": ") value.lines ++ fieldLines rest

/-- The lines of the elements of a list. -/
def elementLines : List Layout → List String
  | [] => []
  | value :: rest => asPart "" value.lines ++ elementLines rest

end

/-- The text of a value. -/
def text (value : Layout) : String :=
  "\n".intercalate value.lines

/-- A truth value. -/
def ofBool (b : Bool) : Layout :=
  .atom (if b then "true" else "false")

/-- A value that may be missing. -/
def ofOption (layout : α → Layout) : Option α → Layout
  | none => .atom "None"
  | some value => .tagged "Some" (layout value)

end Layout

end SchemaTypes
