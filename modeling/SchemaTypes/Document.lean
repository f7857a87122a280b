import SchemaTypes.Json.Distinct
import SchemaTypes.Schema.Reader
import SchemaTypes.Schema.Slot

/-!
# Documents

A document is a JSON value with distinct keys that reads as a schema, together with that schema. A
pointer into it is followed from slot to slot of the schema as long as that works; any other pointer
is followed through the JSON value, and what is found there is read as a schema of its own.
-/

namespace SchemaTypes

/-- A JSON value and the schema it reads as. -/
structure Document where
  json : Json
  root : Schema
  distinct : json.KeysDistinct
  reads : Schema.read json = .ok root

/-- The schema at a pointer, and whether it is a part of the document's schema. -/
structure Located where
  schema : Schema
  inSchema : Bool

namespace Document

/-- The document of a JSON value. A value that comes from a text has distinct keys as it is; in any
other the last of the members with the same key counts. -/
def read (v : Json) : Except InvalidSchema Document :=
  match h : Schema.read v.merge with
  | .ok root => .ok ⟨v.merge, root, Json.keysDistinct_merge v, h⟩
  | .error e => .error e

/-- The schema that is reached from slot to slot. -/
def walk? (d : Document) (p : Pointer) : Option Schema :=
  d.root.walk? p.segments

/-- The schema that the JSON value at a pointer reads as. -/
def readAt? (d : Document) (p : Pointer) : Option Schema :=
  (d.json.follow? p.segments).bind fun v => (Schema.read v).toOption

/-- The schema at a pointer. -/
def resolve? (d : Document) (p : Pointer) : Option Located :=
  match d.walk? p with
  | some s => some ⟨s, true⟩
  | none => (d.readAt? p).map (⟨·, false⟩)

/-- The target of the bare reference at a pointer. -/
def next? (d : Document) (p : Pointer) : Option Pointer :=
  match d.resolve? p with
  | some found => if found.schema.isReference then found.schema.internalReference? else none
  | none => none

end Document

end SchemaTypes
