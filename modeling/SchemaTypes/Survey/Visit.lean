import SchemaTypes.Identifier
import SchemaTypes.Schema.Slot

/-!
# Visiting a schema

A visit is a node of a schema on the way from the top down, with its pointer and the name that its
title and the way to it make. A definition is called by its title or by its key; a node inside a
type is called by the name of the node around it and what it is there, or by its title if that makes
no name.
-/

namespace SchemaTypes

/-- In what role a node stands. -/
inductive Role where
  | document
  | definition
  | inner
  deriving DecidableEq

/-- A node of a schema, where it stands, and the name it may get. -/
structure Visit where
  pointer : Pointer
  schema : Schema
  role : Role
  name : Option String

namespace Visit

/-- The name of a node that is suggested to be called `suggested`; the empty text suggests
nothing. -/
def nameOf (s : Schema) (suggested : String) (role : Role) : Option String :=
  let title := s.title.bind Identifier.normalized?
  if role ≠ .inner ∧ title.isSome then title
  else if suggested.isEmpty then title
  else some suggested

/-- The name of the node around with something put behind it, if there is such a name. -/
def derived (name : Option String) (suffix : String) : String :=
  match name with
  | some name => name ++ suffix
  | none => ""

/-- What a node is suggested to be called that stands in a slot of a node of the given name. A
member of a combinator that is a bare reference would only restate its target, so it gets no name.
-/
def suggestion (name : Option String) (slot : Slot) (s : Schema) : String :=
  match slot with
  | .definition key | .defs key => Identifier.normalize key
  | .property key => derived name (Identifier.normalize key)
  | .item => derived name "Item"
  | .itemAt i => derived name ("Item" ++ toString i)
  | .otherProperties => derived name "Value"
  | .oneOf i | .anyOf i =>
    if s.isReference then "" else derived name ("Option" ++ toString i)
  | .allOf i => if s.isReference then "" else derived name ("Part" ++ toString i)

/-- The role of a node in a slot. -/
def roleIn : Slot → Role
  | .definition _ | .defs _ => .definition
  | _ => .inner

/-- A node and all nodes below it, each before those below it. -/
def visits (s : Schema) (p : Pointer) (suggested : String) (role : Role) : List Visit :=
  let name := nameOf s suggested role
  ⟨p, s, role, name⟩ ::
    s.children.attach.flatMap fun ⟨(slot, c), _⟩ =>
      visits c (p.slot slot) (suggestion name slot c) (roleIn slot)
termination_by sizeOf s
decreasing_by exact Schema.sizeOf_lt_of_mem_children ‹_›

/-- Whether a node is worth a declaration of its own: the whole document, definitions, nodes with a
title, and objects with properties. -/
def earnsDeclaration (v : Visit) : Bool :=
  v.role ≠ .inner || v.schema.title.isSome ||
    v.schema.properties.any (!·.isEmpty)

end Visit

end SchemaTypes
