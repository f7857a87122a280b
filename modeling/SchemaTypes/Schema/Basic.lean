import SchemaTypes.Json.Basic
import SchemaTypes.Pointer

/-!
# Schemas

One node of a schema document with the facets that matter for its type. Any of them may be present
at once. Properties and definitions stand in the order in which they were written.
-/

namespace SchemaTypes

/-- The `type` keyword: one type name, or a list of names. -/
inductive TypeNames where
  | single (name : String)
  | multiple (names : List String)
  deriving DecidableEq

/-- The `items` keyword: one schema for every element, or one for each position. -/
inductive ItemSchemas (σ : Type) where
  | each (schema : σ)
  | tuple (schemas : List σ)

/-- The `additionalProperties` keyword: whether there may be any, or the schema of each of them. -/
inductive OtherProperties (σ : Type) where
  | allowed (permitted : Bool)
  | schema (schema : σ)

/-- A schema. The constant `null` is told apart from no constant. -/
structure Schema where
  type : Option TypeNames := none
  properties : Option (List (String × Schema)) := none
  required : List String := []
  items : Option (ItemSchemas Schema) := none
  additionalProperties : Option (OtherProperties Schema) := none
  enum : Option (List Json) := none
  const : Option Json := none
  oneOf : Option (List Schema) := none
  anyOf : Option (List Schema) := none
  allOf : Option (List Schema) := none
  definitions : Option (List (String × Schema)) := none
  defs : Option (List (String × Schema)) := none
  reference : Option String := none
  title : Option String := none
  description : Option String := none
  examples : List Json := []
  deprecated : Bool := false

namespace TypeNames

/-- The names of the types whose values have no parts. -/
def scalars : List String :=
  ["string", "number", "integer", "boolean", "null"]

/-- The names that are listed. -/
def names : TypeNames → List String
  | .single name => [name]
  | .multiple names => names

/-- Whether there are names and all of them are names of scalar types. -/
def isScalar (t : TypeNames) : Bool :=
  !t.names.isEmpty && t.names.all scalars.contains

end TypeNames

namespace Schema

/-- Whether the schema combines others. -/
def hasCombinator (s : Schema) : Bool :=
  s.oneOf.isSome || s.anyOf.isSome || s.allOf.isSome

/-- Whether `object` is the only type named. -/
def isObjectType (s : Schema) : Bool :=
  s.type == some (.single "object")

/-- Whether the schema says anything about the properties of an object. -/
def hasObjectShape (s : Schema) : Bool :=
  s.properties.isSome || s.additionalProperties.isSome || s.isObjectType

/-- Whether the schema is a bare reference: a `$ref` with nothing beside it that describes a type.
-/
def isReference (s : Schema) : Bool :=
  s.reference.isSome && s.type.isNone && s.properties.isNone && s.items.isNone &&
    s.additionalProperties.isNone && s.enum.isNone && s.const.isNone && !s.hasCombinator

/-- Whether the schema names scalar types and has no properties, items or alternatives. -/
def isSimpleAlias (s : Schema) : Bool :=
  s.type.any TypeNames.isScalar && s.properties.isNone && s.items.isNone && s.oneOf.isNone

/-- The target of the `$ref`, if it lies in the same document. -/
def internalReference? (s : Schema) : Option Pointer :=
  s.reference.bind Pointer.ofRef?

end Schema

end SchemaTypes
