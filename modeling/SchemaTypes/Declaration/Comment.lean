import SchemaTypes.Json.Printer
import SchemaTypes.Schema.Basic
import SchemaTypes.Text.Split

/-!
# Documentation comments

The title, the description and the first example of a schema, as the comment in front of its
declaration. Whatever these texts hold, the comment ends where it should, because the mark that ends
a comment is broken up inside it.
-/

namespace SchemaTypes
namespace Comment

/-- A text with another behind it, and `gap` between the two if the first is not empty. -/
def append (text gap more : String) : String :=
  if text.isEmpty then more else text ++ gap ++ more

/-- The documentation of a schema, empty if there is none. -/
def text (s : Schema) : String :=
  let title := s.title.getD ""
  let described := match s.description with
    | some description => append title "\n\n" description
    | none => title
  let exemplified := match s.examples.head? with
    | some first => append described "\n\n" ("@example\n" ++ first.pretty)
    | none => described
  if s.deprecated then append exemplified "\n" "@deprecated" else exemplified

/-- A text in which every mark that would end a comment is broken up. -/
def breakMarks : List Char → List Char
  | '*' :: '/' :: rest => '*' :: '\\' :: '/' :: breakMarks rest
  | c :: rest => c :: breakMarks rest
  | [] => []

/-- A line without the carriage return at its end. -/
def dropReturn (line : List Char) : List Char :=
  if line.getLast? = some '\r' then line.dropLast else line

/-- The lines of a text. A line end at the end of the text starts no further line, and a carriage
return in front of a line end belongs to it. -/
def lines (cs : List Char) : List (List Char) :=
  let pieces := Text.split (· == '\n') cs
  let ended := pieces.dropLast.map dropReturn
  match pieces.getLast? with
  | some (c :: last) => ended ++ [c :: last]
  | _ => ended

/-- A line of a comment. -/
def commentLine (line : List Char) : String :=
  if line.isEmpty then " *\n" else " * " ++ String.ofList line ++ "\n"

/-- A text as a comment; the empty text makes none. -/
def wrap (text : String) : String :=
  if text.isEmpty then ""
  else "/**\n" ++ String.join ((lines (breakMarks text.toList)).map commentLine) ++ " */\n"

/-- The comment in front of the declaration of a schema. -/
def ofSchema (s : Schema) : String :=
  wrap (text s)

end Comment
end SchemaTypes
