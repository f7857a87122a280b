import SchemaTypes.Document
import SchemaTypes.NameTable
import SchemaTypes.Survey.Visit

/-!
# The survey of a document

The survey decides which places of a document get a declaration, and under which names. First every
node of the schema is visited, and those that are worth a declaration are named. Then the targets of
references that have no name yet are named, and what is found outside the schema is visited too,
until no reference is left to look at. At last the names of bare references are given up that only
restate what they refer to.
-/

namespace SchemaTypes

/-- What a survey has gathered: names, the references it came across, in ascending order, and those
whose targets are dealt with. -/
structure Survey where
  table : NameTable := {}
  references : List String := []
  settled : List Pointer := []

namespace Survey

/-- An ascending list of texts with one more at its place. -/
def insertText (s : String) : List String → List String
  | [] => [s]
  | t :: rest =>
    if s < t then s :: t :: rest
    else if s = t then t :: rest
    else t :: insertText s rest

/-- The survey after a visit. -/
def record (survey : Survey) (visit : Visit) : Survey :=
  let table :=
    match visit.name with
    | some name =>
      if visit.earnsDeclaration then (survey.table.register visit.pointer name).2 else survey.table
    | none => survey.table
  let references :=
    match visit.schema.reference with
    | some reference => insertText reference survey.references
    | none => survey.references
  { survey with table, references }

/-- The survey after visiting a node and all nodes below it. -/
def visitAll (survey : Survey) (s : Schema) (p : Pointer) (suggested : String)
    (role : Role) : Survey :=
  (Visit.visits s p suggested role).foldl record survey

/-- The survey of the schema itself. -/
def ofSchema (d : Document) (rootName : Option String) : Survey :=
  let suggested := (rootName.map Identifier.normalize).getD ""
  visitAll {} d.root .root suggested .document

/-- The targets that are still to be dealt with. -/
def pending (survey : Survey) : List Pointer :=
  (survey.references.filterMap Pointer.ofRef?).filter (!survey.settled.contains ·)

/-- The survey after dealing with a target. -/
def settle (d : Document) (survey : Survey) (target : Pointer) : Survey :=
  let survey := { survey with settled := target :: survey.settled }
  if survey.table.contains target then survey
  else
    match d.resolve? target with
    | none => survey
    | some found =>
      let (name, table) := survey.table.register target (Identifier.ofPointer target)
      let survey := { survey with table }
      if found.inSchema then survey else survey.visitAll found.schema target name .definition

/-- The survey after at most `rounds` rounds, each of which deals with all targets that are pending
when it starts. -/
def close (d : Document) : Nat → Survey → Survey
  | 0, survey => survey
  | rounds + 1, survey =>
    if survey.pending.isEmpty then survey
    else close d rounds (survey.pending.foldl (settle d) survey)

/-- How many rounds are enough: every round but the last settles a reference, and there are fewer
references than values in the document. -/
def roundLimit (d : Document) : Nat :=
  d.json.size + 1

/-- Whether the entry of a place only restates the one it refers to. -/
def isRedundant (d : Document) (table : NameTable) (p : Pointer) : Bool :=
  match d.next? p with
  | some target => target ≠ p && table.contains target && table.base? p == table.base? target
  | none => false

/-- A table without the entries that only restate others. Each decision counts what was removed
before it. -/
def prune (d : Document) (table : NameTable) : NameTable :=
  table.pointers.foldl (fun t p => if isRedundant d t p then t.remove p else t) table

/-- The names of the places of a document that get declarations. An untitled document is called
`rootName`, if that makes a name. -/
def names (d : Document) (rootName : Option String) : NameTable :=
  prune d (close d (roundLimit d) (ofSchema d rootName)).table

end Survey

end SchemaTypes
