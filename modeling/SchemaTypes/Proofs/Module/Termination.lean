import SchemaTypes.Module
import SchemaTypes.Proofs.NameTable.Fresh
import SchemaTypes.Proofs.TypeExpr.Termination

/-!
# Generating a module comes to an end

Nothing that is done on the way from a document to its module runs out of the tries, rounds and
steps it is given (`Module.ends_document`).
-/

namespace SchemaTypes
namespace Module

open Builder

variable {d : Document} {options : ModuleOptions} {b : Builder} {places : List (Pointer × String)}
  {p : Pointer} {name : String} {found : Located}

/-- What the types of a module are built from: the document and the names of its survey. -/
def builder (d : Document) (options : ModuleOptions) : Builder :=
  ⟨d, Survey.names d options.rootName⟩

/-- A module is made of the declarations of all places that have names. -/
theorem generate_eq (d : Document) (options : ModuleOptions) :
    generate d options = (do
      let declared ← declare (builder d options) (builder d options).table.names
      return ⟨declared, exported options.exports (builder d options).table declared,
        options.banner⟩) :=
  rfl

/-- What is found at a place with a name is a node. -/
theorem surveyed_of_mem_names (hmem : (p, name) ∈ (builder d options).table.names)
    (hr : d.resolve? p = some found) : ∃ q, d.Surveyed q found.schema :=
  Survey.surveyed_of_contains_names (NameTable.contains_of_mem_names hmem) hr

/-- Declarations come to an end if each of them does. -/
theorem ends_declare (h : ∀ p name found, (p, name) ∈ places →
      b.document.resolve? p = some found → Ends (b.declared found.schema p)) :
    Ends (declare b places) := by
  induction places with
  | nil => exact .inl ⟨[], rfl⟩
  | cons place rest ih =>
    obtain ⟨p, name⟩ := place
    have hrest : Ends (declare b rest) := ih fun q name found hmem => h q name found (.tail _ hmem)
    rw [declare]
    split
    · exact hrest
    · next found hr =>
      exact (h p name found (.head _) hr).bind fun _ _ => hrest.bind fun _ _ => .inl ⟨_, rfl⟩

/-- What is declared for a place with a name comes to an end. -/
theorem ends_declared_of_mem_names (hmem : (p, name) ∈ (builder d options).table.names)
    (hr : d.resolve? p = some found) : Ends ((builder d options).declared found.schema p) := by
  obtain ⟨_, hs⟩ := surveyed_of_mem_names hmem hr
  exact ends_declared (complete_names d options.rootName) hs p

/-- The module of a document comes to an end. -/
theorem ends_generate (d : Document) (options : ModuleOptions) : Ends (generate d options) := by
  rw [generate_eq]
  have hdeclare : Ends (declare (builder d options) (builder d options).table.names) :=
    ends_declare fun _ _ _ hmem hr => ends_declared_of_mem_names hmem hr
  exact hdeclare.bind fun _ _ => .inl ⟨_, rfl⟩

/-- Whatever the document and the options, everything comes to an end. The search for a name finds
one that was not given. After its rounds, the survey has no target left to deal with. Following bare
references ends at a place or with the error that they lead back, and so do the declarations of all
places that have names, and the module as a whole. -/
theorem ends_document (d : Document) (options : ModuleOptions) :
    (∀ (t : NameTable) (base : String), NameTable.variant base (t.nextVariant base) ∉ t.given) ∧
    (Survey.close d (Survey.roundLimit d) (Survey.ofSchema d options.rootName)).pending = [] ∧
    (∀ passed cursor, Ends (follow d (followLimit d) passed cursor)) ∧
    (∀ p name found, (p, name) ∈ (builder d options).table.names → d.resolve? p = some found →
      Ends ((builder d options).declared found.schema p)) ∧
    Ends (generate d options) :=
  ⟨NameTable.variant_nextVariant_notMem, Survey.pending_complete d options.rootName, ends_follow d,
    fun _ _ _ => ends_declared_of_mem_names, ends_generate d options⟩

end Module
end SchemaTypes
