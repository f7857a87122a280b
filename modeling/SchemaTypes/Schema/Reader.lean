import SchemaTypes.Schema.Basic
import SchemaTypes.Schema.Fault

/-!
# Reading a schema from JSON

A schema is written as an object, by keywords, or as a list that gives the values of the keywords by
position. The members of an object are read in the order in which they stand, and the first fault is
the answer. Other members than the keywords are left alone. For most keywords `null` is the same as
no value.
-/

namespace SchemaTypes

/-- The keywords of a schema, in the order of the positions of a schema written as a list. -/
inductive Keyword where
  | type
  | properties
  | required
  | items
  | additionalProperties
  | enum
  | const
  | oneOf
  | anyOf
  | allOf
  | definitions
  | defs
  | ref
  | title
  | description
  | examples
  | deprecated
  deriving DecidableEq

namespace Keyword

/-- A keyword as it is written. -/
def text : Keyword → String
  | .type => "type"
  | .properties => "properties"
  | .required => "required"
  | .items => "items"
  | .additionalProperties => "additionalProperties"
  | .enum => "enum"
  | .const => "const"
  | .oneOf => "oneOf"
  | .anyOf => "anyOf"
  | .allOf => "allOf"
  | .definitions => "definitions"
  | .defs => "$defs"
  | .ref => "$ref"
  | .title => "title"
  | .description => "description"
  | .examples => "examples"
  | .deprecated => "deprecated"

/-- All keywords, by position. -/
def all : List Keyword :=
  [.type, .properties, .required, .items, .additionalProperties, .enum, .const, .oneOf, .anyOf,
    .allOf, .definitions, .defs, .ref, .title, .description, .examples, .deprecated]

/-- The keyword that is written so. -/
def ofText? (text : String) : Option Keyword :=
  all.find? (·.text == text)

/-- Whether a schema written as a list may end before the position of the keyword. -/
def mayBeMissing : Keyword → Bool
  | .required | .const | .examples | .deprecated => true
  | _ => false

end Keyword

namespace Schema

/-- Reading either succeeds or meets a fault at some location. -/
abbrev Reading := Except InvalidSchema

/-- The fault of a value itself. -/
def fail {α : Type} (fault : SchemaFault) : Reading α :=
  .error ⟨[], fault⟩

/-- The answer of a part, with the step that leads to the part in front of the location. -/
def within {α : Type} (step : JsonStep) : Reading α → Reading α
  | .ok a => .ok a
  | .error e => .error ⟨step :: e.location, e.fault⟩

/-! ## Values that hold no schema -/

/-- A text. -/
def readString : Json → Reading String
  | .string s => .ok s
  | v => fail (.wrongKind v .string)

/-- A truth value. -/
def readBool : Json → Reading Bool
  | .bool b => .ok b
  | v => fail (.wrongKind v .boolean)

/-- A list of any values. -/
def readList : Json → Reading (List Json)
  | .array vs => .ok vs
  | v => fail (.wrongKind v .list)

/-- The texts of a list, from position `i` on. -/
def readStringsFrom (i : Nat) : List Json → Reading (List String)
  | [] => .ok []
  | v :: vs => do
    let s ← within (.position i) (readString v)
    let rest ← readStringsFrom (i + 1) vs
    return s :: rest

/-- A list of texts. -/
def readStrings : Json → Reading (List String)
  | .array vs => readStringsFrom 0 vs
  | v => fail (.wrongKind v .list)

/-- One type name or a list of them. -/
def readTypeNames : Json → Reading TypeNames
  | .string name => .ok (.single name)
  | .array vs =>
    match readStringsFrom 0 vs with
    | .ok names => .ok (.multiple names)
    | .error _ => fail (.noForm .typeNames)
  | _ => fail (.noForm .typeNames)

/-- A value that may be left out or be `null`. -/
def optional {α : Type} (read : Json → Reading α) : Json → Reading (Option α)
  | .null => .ok none
  | v => some <$> read v

/-- A schema with the value of a keyword that holds no other schema; the others change nothing. -/
def readFacet (s : Schema) (keyword : Keyword) (v : Json) : Reading Schema :=
  match keyword with
  | .type => do return { s with type := ← optional readTypeNames v }
  | .required => do return { s with required := ← readStrings v }
  | .enum => do return { s with enum := ← optional readList v }
  | .const => .ok { s with const := some v }
  | .ref => do return { s with reference := ← optional readString v }
  | .title => do return { s with title := ← optional readString v }
  | .description => do return { s with description := ← optional readString v }
  | .examples => do return { s with examples := ← readList v }
  | .deprecated => do return { s with deprecated := ← readBool v }
  | _ => .ok s

/-! ## Schemas -/

/-- The end of a schema written as a list: no position that is still to come may be needed. -/
def finishPositions (s : Schema) (i : Nat) : Reading Schema :=
  match (Keyword.all.drop i).findIdx? (!·.mayBeMissing) with
  | some j => fail (.tooShort (i + j))
  | none => .ok s

mutual

/-- A schema. -/
def read : Json → Reading Schema
  | .object members => readMembers {} members
  | .array elements => readPositions elements.length {} 0 elements
  | v => fail (.wrongKind v .schema)

/-- A schema to which the members of an object are added. -/
def readMembers (s : Schema) : List (String × Json) → Reading Schema
  | [] => .ok s
  | (key, v) :: rest =>
    match Keyword.ofText? key with
    | none => readMembers s rest
    | some keyword => do
      let s ← within (.key key) (readKeyword s keyword v)
      readMembers s rest

/-- A schema to which the elements of a list of the given length are added, from position `i` on. -/
def readPositions (length : Nat) (s : Schema) (i : Nat) : List Json → Reading Schema
  | [] => finishPositions s i
  | v :: rest =>
    match Keyword.all[i]? with
    | none => fail (.tooLong length)
    | some keyword => do
      let s ← within (.position i) (readKeyword s keyword v)
      readPositions length s (i + 1) rest

/-- A schema with the value of a keyword. -/
def readKeyword (s : Schema) (keyword : Keyword) : Json → Reading Schema
  | .null =>
    match keyword with
    | .properties | .items | .additionalProperties | .oneOf | .anyOf | .allOf | .definitions
    | .defs => .ok s
    | _ => readFacet s keyword .null
  | .array vs =>
    match keyword with
    | .items =>
      match readSchemas 0 vs with
      | .ok cs => .ok { s with items := some (.tuple cs) }
      | .error _ =>
        match readPositions vs.length {} 0 vs with
        | .ok c => .ok { s with items := some (.each c) }
        | .error _ => fail (.noForm .items)
    | .additionalProperties =>
      match readPositions vs.length {} 0 vs with
      | .ok c => .ok { s with additionalProperties := some (.schema c) }
      | .error _ => fail (.noForm .additionalProperties)
    | .oneOf => do return { s with oneOf := some (← readSchemas 0 vs) }
    | .anyOf => do return { s with anyOf := some (← readSchemas 0 vs) }
    | .allOf => do return { s with allOf := some (← readSchemas 0 vs) }
    | .properties | .definitions | .defs => fail (.wrongKind (.array vs) .object)
    | _ => readFacet s keyword (.array vs)
  | .object ms =>
    match keyword with
    | .items =>
      match readMembers {} ms with
      | .ok c => .ok { s with items := some (.each c) }
      | .error _ => fail (.noForm .items)
    | .additionalProperties =>
      match readMembers {} ms with
      | .ok c => .ok { s with additionalProperties := some (.schema c) }
      | .error _ => fail (.noForm .additionalProperties)
    | .properties => do return { s with properties := some (← readEntries ms) }
    | .definitions => do return { s with definitions := some (← readEntries ms) }
    | .defs => do return { s with defs := some (← readEntries ms) }
    | .oneOf | .anyOf | .allOf => fail (.wrongKind (.object ms) .list)
    | _ => readFacet s keyword (.object ms)
  | v =>
    match keyword, v with
    | .items, _ => fail (.noForm .items)
    | .additionalProperties, .bool b => .ok { s with additionalProperties := some (.allowed b) }
    | .additionalProperties, _ => fail (.noForm .additionalProperties)
    | .properties, _ | .definitions, _ | .defs, _ => fail (.wrongKind v .object)
    | .oneOf, _ | .anyOf, _ | .allOf, _ => fail (.wrongKind v .list)
    | _, _ => readFacet s keyword v

/-- The schemas of a list, from position `i` on. -/
def readSchemas (i : Nat) : List Json → Reading (List Schema)
  | [] => .ok []
  | v :: vs => do
    let c ← within (.position i) (read v)
    let cs ← readSchemas (i + 1) vs
    return c :: cs

/-- The schemas of a keyed container. -/
def readEntries : List (String × Json) → Reading (List (String × Schema))
  | [] => .ok []
  | (key, v) :: rest => do
    let c ← within (.key key) (read v)
    let cs ← readEntries rest
    return (key, c) :: cs

end

end Schema

end SchemaTypes
