import SchemaTypes.Declaration
import SchemaTypes.Survey
import SchemaTypes.TypeExpr.Build

/-!
# Modules of declarations

A document is turned into a module: one declaration for every place that the survey named, in the
order of their pointers, and a statement that exports all of them or only that of the whole
document.
-/

namespace SchemaTypes

/-- Which declarations a module exports. -/
inductive Exports where
  | all
  | root
  deriving DecidableEq

/-- How a module is made. `rootName` is what an untitled document is called. -/
structure ModuleOptions where
  rootName : Option String := none
  exports : Exports := .all
  banner : Bool := false

/-- The declarations of a document, in the order of their places, and the names it exports. -/
structure Module where
  declarations : List Declaration
  exports : List String
  banner : Bool

namespace Module

/-- What stands at the top of a file of declarations. -/
def bannerText : String :=
  "/* eslint-disable */\n" ++
  "/**\n" ++
  " * Generated from a JSON Schema document. Do not edit by hand;\n" ++
  " * change the schema and regenerate instead.\n" ++
  " */"

/-- The declarations of the given places. A place that holds no schema has none. -/
def declare (b : Builder) : List (Pointer × String) → Building (List Declaration)
  | [] => .ok []
  | (p, name) :: rest =>
    match b.document.resolve? p with
    | none => declare b rest
    | some found => do
      let type ← b.declared found.schema p
      let others ← declare b rest
      return .ofSchema name found.schema type.text :: others

/-- The names that are exported. -/
def exported (choice : Exports) (table : NameTable) (declared : List Declaration) : List String :=
  match choice with
  | .all => declared.map (·.name)
  | .root =>
    match table.lookup? .root with
    | some name => if declared.any (·.name == name) then [name] else []
    | none => []

/-- The module of a document whose places have the given names. -/
def ofTable (d : Document) (table : NameTable) (options : ModuleOptions) : Building Module := do
  let declared ← declare ⟨d, table⟩ table.names
  return ⟨declared, exported options.exports table declared, options.banner⟩

/-- The module of a document. -/
def generate (d : Document) (options : ModuleOptions) : Building Module :=
  ofTable d (Survey.names d options.rootName) options

/-- The text of a module. -/
def render (m : Module) : String :=
  let banner := if m.banner then bannerText ++ "\n\n" else ""
  let body := "\n\n".intercalate (m.declarations.map (·.text))
  let bodyEnd := if m.declarations.isEmpty then "" else "\n"
  let gap := if m.declarations.isEmpty then "" else "\n"
  let exports :=
    if m.exports.isEmpty then ""
    else gap ++ "export type \x7b " ++ ", ".intercalate m.exports ++ " \x7d;\n"
  banner ++ body ++ bodyEnd ++ exports

end Module

end SchemaTypes
