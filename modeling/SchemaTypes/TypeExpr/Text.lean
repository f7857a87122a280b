import SchemaTypes.Identifier
import SchemaTypes.TypeExpr.Basic
import SchemaTypes.TypeExpr.Scan

/-!
# The text of a type

Types are written in TypeScript. A union or an intersection is put into parentheses where something
is appended to it or it becomes a part of an intersection. An object type has one property a line,
indented by two blanks more than the type around it.
-/

namespace SchemaTypes

/-- A basic type as it is written. -/
def BasicType.text : BasicType → String
  | .string => "string"
  | .number => "number"
  | .boolean => "boolean"
  | .null => "null"
  | .unknown => "unknown"
  | .never => "never"

namespace TypeExpr

/-- What stands between the members of a union. -/
def bar : String := " | "

/-- What stands between the members of an intersection. -/
def ampersand : String := " & "

/-- The text of a type as a part of a larger one. -/
def group (text : String) : String :=
  if isCompound text then "(" ++ text ++ ")" else text

/-- A text of several lines, of which all but the first are indented by two blanks more. -/
def indent (text : String) : String :=
  String.ofList (text.toList.flatMap fun c => if c = '\n' then ['\n', ' ', ' '] else [c])

/-- The text of an object type with the given lines. -/
def objectBody (lines : List String) : String :=
  if lines.isEmpty then "\x7b\x7d"
  else "\x7b\n" ++ String.join (lines.map fun line => "  " ++ indent line ++ "\n") ++ "\x7d"

/-- The line of a property. -/
def propertyLine (key : String) (isOptional : Bool) (type : String) : String :=
  Identifier.propertyKey key ++ (if isOptional then "?" else "") ++ ": " ++ type ++ ";"

/-- The line for all other properties. -/
def othersLine (type : String) : String :=
  "[key: string]: " ++ type ++ ";"

mutual

/-- The text of a type. -/
def text : TypeExpr → String
  | .named name => name
  | .basic t => t.text
  | .record => "Record<string, unknown>"
  | .literal v => v.compact
  | .union members => bar.intercalate (texts members)
  | .intersection members => ampersand.intercalate ((texts members).map group)
  | .array element => group (text element) ++ "[]"
  | .tuple elements => "[" ++ ", ".intercalate (texts elements) ++ "]"
  | .object properties none => objectBody (propertyLines properties)
  | .object properties (some others) =>
    objectBody (propertyLines properties ++ [othersLine (text others)])
  | .shaped shape other => text shape ++ ampersand ++ group (text other)

/-- The texts of types. -/
def texts : List TypeExpr → List String
  | [] => []
  | t :: ts => text t :: texts ts

/-- The lines of properties. -/
def propertyLines : List (PropertyType TypeExpr) → List String
  | [] => []
  | ⟨key, isOptional, type⟩ :: rest =>
    propertyLine key isOptional (text type) :: propertyLines rest

end

end TypeExpr

end SchemaTypes
