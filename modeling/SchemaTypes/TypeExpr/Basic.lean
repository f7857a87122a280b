import SchemaTypes.Json.Basic

/-!
# Type expressions

The types that a schema is turned into, as trees. How a tree is written is fixed in
`SchemaTypes.TypeExpr.Text`.
-/

namespace SchemaTypes

/-- A type that is a word of the language. -/
inductive BasicType where
  | string
  | number
  | boolean
  | null
  | unknown
  | never
  deriving DecidableEq

/-- A property of an object type. -/
structure PropertyType (τ : Type) where
  key : String
  isOptional : Bool
  type : τ

/-- A type expression. -/
inductive TypeExpr where
  /-- A type that is declared elsewhere. -/
  | named (name : String)
  | basic (t : BasicType)
  /-- An object of which nothing more is known. -/
  | record
  /-- The type of one value. -/
  | literal (v : Json)
  | union (members : List TypeExpr)
  | intersection (members : List TypeExpr)
  | array (element : TypeExpr)
  | tuple (elements : List TypeExpr)
  /-- An object with its properties, and the type of all others if there may be any. -/
  | object (properties : List (PropertyType TypeExpr)) (others : Option TypeExpr)
  /-- An object that also has another type. -/
  | shaped (shape : TypeExpr) (other : TypeExpr)

namespace TypeExpr

/-- The type that is unknown. -/
abbrev unknown : TypeExpr := .basic .unknown

/-- The type of a type name of a schema. -/
def ofTypeName : String → TypeExpr
  | "string" => .basic .string
  | "number" => .basic .number
  | "integer" => .basic .number
  | "boolean" => .basic .boolean
  | "null" => .basic .null
  | "array" => .array unknown
  | "object" => .record
  | _ => unknown

/-- The type of a list of values. -/
def ofValues (vs : List Json) : TypeExpr :=
  if vs.isEmpty then .basic .never else .union (vs.map .literal)

end TypeExpr

end SchemaTypes
