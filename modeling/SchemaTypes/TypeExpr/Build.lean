import SchemaTypes.Document
import SchemaTypes.NameTable
import SchemaTypes.TypeExpr.Text

/-!
# The type of a schema

A schema is turned into a type in a fixed order: a `$ref` comes before all else, then an object
shape and combinators (both, if both are there), then constants, and the named types last. Every
place that has a name in the table is referred to by that name, except for the place whose
declaration is being built.

A reference whose target has no name is followed if the target is a bare reference or an alias of a
scalar type, and it is an error if bare references lead back to a place that was passed. Where
references are followed there is no bound in the schema itself, so building takes a number of steps;
`Builder.stepLimit` is enough for them.
-/

namespace SchemaTypes

/-- Why a type cannot be built. -/
inductive BuildError where
  /-- References lead back to a place: the places passed, the last of which is one of the others. -/
  | cycle (chain : List Pointer)
  /-- The steps ran out. -/
  | outOfSteps
  deriving DecidableEq

/-- The text of an error. -/
def BuildError.message : BuildError → String
  | .cycle chain => "reference cycle: " ++ " → ".intercalate (chain.map (·.text))
  | .outOfSteps => "references do not come to an end"

/-- Building a type either succeeds or fails. -/
abbrev Building := Except BuildError

/-- Where a type is being built: the place, whether its name stands for it, and the places from
which references led here. -/
structure BuildSite where
  place : Pointer
  byName : Bool
  chain : List Pointer

/-- The site of the declaration of a place. -/
def BuildSite.declaration (p : Pointer) : BuildSite :=
  ⟨p, false, []⟩

/-- The site of a part of a type. References before it do not matter any more. -/
def BuildSite.part (p : Pointer) : BuildSite :=
  ⟨p, true, []⟩

/-- What types are built from: a document and the names of its places. -/
structure Builder where
  document : Document
  table : NameTable

namespace Builder

/-- Follows bare references from `cursor` on, when the places `passed` have been passed. It is an
error if they come back to one of these. -/
def follow (d : Document) : Nat → List Pointer → Pointer → Building Unit
  | 0, _, _ => .error .outOfSteps
  | steps + 1, passed, cursor =>
    if passed.contains cursor then .error (.cycle (passed ++ [cursor]))
    else
      match d.next? cursor with
      | some next => follow d steps (passed ++ [cursor]) next
      | none => .ok ()

/-- How many steps are enough to follow bare references: they pass no place twice, and every place
is a text of the document. -/
def followLimit (d : Document) : Nat :=
  d.json.size + 2

/-- The type of a reference from a site. `build` builds the type of a target that is followed. -/
def reference (b : Builder) (build : Schema → BuildSite → Building TypeExpr) (ref : String)
    (site : BuildSite) : Building TypeExpr :=
  match Pointer.ofRef? ref with
  | none => .ok (.named (Identifier.ofExternal ref))
  | some target => do
    let chain := site.chain ++ [site.place]
    follow b.document (followLimit b.document) chain target
    match b.table.lookup? target with
    | some name => return .named name
    | none =>
      match b.document.resolve? target with
      | none => return .named (Identifier.ofPointer target)
      | some found =>
        if found.schema.isSimpleAlias || found.schema.isReference then
          build found.schema ⟨target, false, chain⟩
        else return .named (Identifier.ofPointer target)

/-- The types of the members of a list from position `i` on. -/
def members (part : Slot → Schema → Building TypeExpr) (slot : Nat → Slot) (i : Nat) :
    List Schema → Building (List TypeExpr)
  | [] => .ok []
  | c :: cs => do
    let t ← part (slot i) c
    let ts ← members part slot (i + 1) cs
    return t :: ts

/-- The union of the alternatives of a list; an absent or empty list makes none. -/
def alternatives (part : Slot → Schema → Building TypeExpr) (slot : Nat → Slot) :
    Option (List Schema) → Building (List TypeExpr)
  | none => .ok []
  | some cs => do
    let ts ← members part slot 0 cs
    return if ts.isEmpty then [] else [.union ts]

/-- The intersection of the members of a list, without those that are written as the unknown type,
which would take in all others. -/
def conjunction (part : Slot → Schema → Building TypeExpr) :
    Option (List Schema) → Building (List TypeExpr)
  | none => .ok []
  | some cs => do
    let ts := (← members part .allOf 0 cs).filter (·.text ≠ BasicType.unknown.text)
    return if ts.isEmpty then [] else [.intersection ts]

/-- The type of the combinators of a schema, if it has any that say something. -/
def combinators (part : Slot → Schema → Building TypeExpr) (s : Schema) :
    Building (Option TypeExpr) := do
  let oneOf ← alternatives part .oneOf s.oneOf
  let anyOf ← alternatives part .anyOf s.anyOf
  let allOf ← conjunction part s.allOf
  match oneOf ++ anyOf ++ allOf with
  | [] => return none
  | [t] => return some t
  | ts => return some (.intersection ts)

/-- The properties of an object type. -/
def properties (part : Slot → Schema → Building TypeExpr) (required : List String) :
    List (String × Schema) → Building (List (PropertyType TypeExpr))
  | [] => .ok []
  | (key, c) :: rest => do
    let t ← part (.property key) c
    let ts ← properties part required rest
    return ⟨key, !required.contains key, t⟩ :: ts

/-- The type of all properties that are not listed. -/
def otherProperties (part : Slot → Schema → Building TypeExpr) :
    Option (OtherProperties Schema) → Building (Option TypeExpr)
  | some (.schema c) => some <$> part .otherProperties c
  | some (.allowed true) => .ok (some .unknown)
  | _ => .ok none

/-- The object type of a schema with properties. -/
def object (part : Slot → Schema → Building TypeExpr) (s : Schema) : Building TypeExpr := do
  let listed ← properties part s.required (s.properties.getD [])
  let others ← otherProperties part s.additionalProperties
  return .object listed others

/-- The type of a list. -/
def array (part : Slot → Schema → Building TypeExpr) :
    Option (ItemSchemas Schema) → Building TypeExpr
  | some (.each c) => .array <$> part .item c
  | some (.tuple cs) => .tuple <$> members part .itemAt 0 cs
  | none => .ok (.array .unknown)

/-- The type of a schema without an object shape and combinators. -/
def plain (part : Slot → Schema → Building TypeExpr) (s : Schema) : Building TypeExpr :=
  match s.const, s.enum, s.type with
  | some v, _, _ => .ok (.literal v)
  | none, some vs, _ => .ok (.ofValues vs)
  | none, none, some (.multiple names) => .ok (.union (names.map .ofTypeName))
  | none, none, some (.single "array") => array part s.items
  | none, none, some (.single name) => .ok (.ofTypeName name)
  | none, none, none => .ok .unknown

/-- The type of a schema without `$ref`. `part` builds the types of its parts. -/
def body (part : Slot → Schema → Building TypeExpr) (s : Schema) : Building TypeExpr := do
  let combined ← combinators part s
  if s.properties.isSome || s.additionalProperties.isSome then
    let shape ← object part s
    match combined with
    | some t => return .shaped shape t
    | none => return shape
  else
    match combined with
    | some t => return t
    | none => if s.isObjectType then return .record else plain part s

/-- The type of a schema at a site, in at most `steps` steps into parts or to targets. -/
def build (b : Builder) : Nat → Schema → BuildSite → Building TypeExpr
  | 0, _, _ => .error .outOfSteps
  | steps + 1, s, site =>
    match if site.byName then b.table.lookup? site.place else none with
    | some name => .ok (.named name)
    | none =>
      match s.reference with
      | some ref => b.reference (build b steps) ref site
      | none => body (fun slot c => build b steps c (.part (site.place.slot slot))) s

/-- How many steps are enough: between two steps to the same target there are at most as many steps
as there are values in the document, and no target is stepped to a third time. -/
def stepLimit (d : Document) : Nat :=
  (2 * d.json.size + 2) * (d.json.size + 1)

/-- The type that the declaration of a place stands for. -/
def declared (b : Builder) (s : Schema) (p : Pointer) : Building TypeExpr :=
  b.build (stepLimit b.document) s (.declaration p)

end Builder

end SchemaTypes
