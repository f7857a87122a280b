import SchemaTypes.Json.Printer
import SchemaTypes.Text.Quoted

/-!
# Values that are no schema

What keeps a JSON value from being read as a schema, and where in the value: the location is the
list of keys and positions that lead to the offending part.
-/

namespace SchemaTypes

/-- One step into a JSON value. -/
inductive JsonStep where
  | key (k : String)
  | position (i : Nat)
  deriving DecidableEq

namespace JsonStep

/-- The text of the steps after the first: keys follow a dot, positions stand in brackets. -/
def textAfter : List JsonStep → String
  | [] => ""
  | .key k :: rest => "." ++ k ++ textAfter rest
  | .position i :: rest => "[" ++ toString i ++ "]" ++ textAfter rest

/-- The text of a location; that of the whole value is a dot. -/
def location : List JsonStep → String
  | [] => "."
  | .key k :: rest => k ++ textAfter rest
  | .position i :: rest => "[" ++ toString i ++ "]" ++ textAfter rest

end JsonStep

namespace Json

/-- The value at a location. -/
def at? (v : Json) : List JsonStep → Option Json
  | [] => some v
  | .key k :: rest => (v.member? k).bind (at? · rest)
  | .position i :: rest => (v.element? i).bind (at? · rest)

end Json

/-- What a part of a schema has to be. -/
inductive Wanted where
  | string
  | boolean
  | list
  | object
  | schema
  deriving DecidableEq

/-- A keyword whose value may take several forms. -/
inductive Choice where
  | typeNames
  | items
  | additionalProperties
  deriving DecidableEq

/-- Why a value is no schema. -/
inductive SchemaFault where
  /-- A value of another kind than the one wanted. -/
  | wrongKind (found : Json) (wanted : Wanted)
  /-- A value that has none of the forms that the keyword allows. -/
  | noForm (choice : Choice)
  /-- A schema written as a list that ends before a position it may not leave out. -/
  | tooShort (length : Nat)
  /-- A schema written as a list with more positions than there are keywords. -/
  | tooLong (length : Nat)

/-- How a value is named in a message. -/
def Json.described : Json → String
  | .null => "null"
  | .bool b => "boolean `" ++ (if b then "true" else "false") ++ "`"
  | .number (.integer n) => "integer `" ++ toString n.value ++ "`"
  | .number (.float x) => "floating point `" ++ (Number.float x).text ++ "`"
  | .string s => "string " ++ Text.shown s
  | .array _ => "sequence"
  | .object _ => "map"

/-- How a wanted kind is named in a message. -/
def Wanted.described : Wanted → String
  | .string => "a string"
  | .boolean => "a boolean"
  | .list => "a sequence"
  | .object => "a map"
  | .schema => "struct Schema"

/-- How a keyword with several forms is named in a message. -/
def Choice.described : Choice → String
  | .typeNames => "TypeSpec"
  | .items => "Items"
  | .additionalProperties => "AdditionalProperties"

/-- The text of a fault. -/
def SchemaFault.message : SchemaFault → String
  | .wrongKind found wanted =>
    "invalid type: " ++ found.described ++ ", expected " ++ wanted.described
  | .noForm choice => "data did not match any variant of untagged enum " ++ choice.described
  | .tooShort length =>
    "invalid length " ++ toString length ++ ", expected struct Schema with 17 elements"
  | .tooLong length =>
    "invalid length " ++ toString length ++ ", expected fewer elements in array"

/-- A fault and the location at which it was found. -/
structure InvalidSchema where
  location : List JsonStep
  fault : SchemaFault

namespace InvalidSchema

/-- The text of the location. -/
def path (e : InvalidSchema) : String :=
  JsonStep.location e.location

/-- The text of the error. -/
def message (e : InvalidSchema) : String :=
  "invalid schema document at JSON path " ++ e.path ++ " → " ++ e.fault.message

end InvalidSchema

end SchemaTypes
