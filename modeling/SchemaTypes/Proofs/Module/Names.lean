import SchemaTypes.Proofs.Module.Declarations
import SchemaTypes.Proofs.Module.References
import SchemaTypes.Proofs.Survey.Agreement
import SchemaTypes.Proofs.Survey.Requests

/-!
# The names in a module

What places are called, and what stands for schemas that no declaration is made of, are all made by
the same rules, so all of them are names (`Module.isName_names`). For the same reason a name that a
reference makes may be that of a declaration. It is so only if a place asked for this very name:
what is put behind a name to tell it from others makes no such name
(`Module.mem_declarations_iff_requests`).
-/

namespace SchemaTypes

open Identifier

variable {d : Document} {b : Builder} {ref name : String} {site : BuildSite}
  {options : ModuleOptions} {m : Module}

/-- A name is no word of the language. -/
theorem Identifier.IsName.ne_text (h : IsName name) (t : BasicType) : name ≠ t.text := by
  rintro rfl
  obtain ⟨c, hc, hstart⟩ := h.starts
  cases t <;> simp [BasicType.text] at hc <;> subst hc <;> simp at hstart

namespace Builder

/-! ## Names made from references -/

/-- A reference becomes what it makes itself: it leads out of the document, or its target has no
name and is not followed. -/
def NamedByItself (b : Builder) (ref : String) : Prop :=
  ∀ q, Pointer.ofRef? ref = some q → b.table.lookup? q = none ∧
    ∀ found, b.document.resolve? q = some found →
      (found.schema.isSimpleAlias || found.schema.isReference) = false

/-- The name that a reference makes. -/
def nameOfReference (ref : String) : String :=
  match Pointer.ofRef? ref with
  | none => ofExternal ref
  | some q => ofPointer q

/-- What a reference makes is a plain name. -/
theorem isPlain_nameOfReference (ref : String) : IsPlain (nameOfReference ref) := by
  rw [nameOfReference]
  split
  · exact isPlain_ofExternal ref
  · exact isPlain_ofPointer _

/-- A reference that becomes what it makes itself becomes a name. -/
theorem reference_of_namedByItself {build : Schema → BuildSite → Building TypeExpr}
    {type : TypeExpr} (h : b.reference build ref site = .ok type) (href : b.NamedByItself ref) :
    type = .named (nameOfReference ref) := by
  rw [nameOfReference]
  cases hq : Pointer.ofRef? ref with
  | none => exact reference_of_external h hq
  | some q =>
    obtain ⟨hnone, hfound⟩ := href q hq
    rw [reference, hq] at h
    obtain ⟨_, -, h⟩ := Except.bind_eq_ok_iff.1 h
    rw [hnone] at h
    cases hr : b.document.resolve? q with
    | none =>
      rw [hr] at h
      cases h
      rfl
    | some found =>
      simp only [hr, hfound found hr, Bool.false_eq_true, if_false] at h
      cases h
      rfl

end Builder

namespace Module

open Builder

/-- All that places of a document are called and all that they asked for are names, and no two
places are called the same. A reference that becomes what it makes itself becomes a name, whatever
it is built from. No name is empty, or a word of the language. -/
theorem isName_names (d : Document) (rootName : Option String) :
    let table := Survey.names d rootName
    (∀ place ∈ table.entries, IsName place.2.name ∧ IsName place.2.base) ∧
    (table.names.map (·.2)).Nodup ∧
    (∀ (b : Builder) build ref site type, b.reference build ref site = .ok type →
      b.NamedByItself ref → ∃ name, type = .named name ∧ IsName name) ∧
    ∀ name, IsName name → name ≠ "" ∧ ∀ t : BasicType, name ≠ t.text := by
  intro table
  have hconsistent : table.Consistent := Survey.consistent_names d rootName
  refine ⟨fun place hplace => ?_, hconsistent.nodup_names, fun b build ref site type h href => ?_,
    fun name hname => ⟨hname.ne_empty, hname.ne_text⟩⟩
  · obtain ⟨hrequests, n, hn⟩ :=
      Survey.requests_of_entry?_names (hconsistent.entry?_of_mem hplace)
    rw [hn]
    exact ⟨NameTable.isName_variant hrequests.isName n, hrequests.isName⟩
  · exact ⟨_, reference_of_namedByItself h href, (isPlain_nameOfReference ref).isName⟩

/-! ## Names for what is not declared -/

/-- `Record`, by which an object is written of which nothing more is known, is a plain name. -/
theorem isPlain_record : IsPlain "Record" where
  starts := ⟨'R', by simp, .inl rfl⟩
  behind := by simp

/-- A name that the types of a module use for something that the module does not declare: `Record`,
or what a reference became that became what it makes itself. -/
inductive Foreign (b : Builder) : String → Prop where
  | record : Foreign b "Record"
  | reference {steps : Nat} {s : Schema} {site : BuildSite} {ref name : String} :
    b.Built steps s site → b.Unnamed site → s.reference = some ref → b.NamedByItself ref →
      b.build steps s site = .ok (.named name) → Foreign b name

/-- What is used for something that is not declared is a plain name. -/
theorem Foreign.isPlain (h : Foreign b name) : IsPlain name := by
  cases h with
  | record => exact isPlain_record
  | reference _ hsite href hitself hbuild =>
    obtain ⟨n, hreference⟩ := reference_of_build hsite href hbuild
    cases reference_of_namedByItself hreference hitself
    exact isPlain_nameOfReference _

/-- What is declared are the names of the places at which anything is found. -/
theorem mem_declarations_iff (h : generate d options = .ok m) :
    name ∈ m.declarations.map (·.name) ↔
      ∃ p, (builder d options).table.lookup? p = some name ∧ (d.resolve? p).isSome = true := by
  have hconsistent : (builder d options).table.Consistent :=
    Survey.consistent_names d options.rootName
  rw [generate_eq] at h
  obtain ⟨declared, hdeclared, h⟩ := Except.bind_eq_ok_iff.1 h
  cases h
  show name ∈ declared.map (·.name) ↔ _
  rw [map_name_declare hdeclared, List.mem_map]
  constructor
  · rintro ⟨⟨p, _⟩, hplace, rfl⟩
    obtain ⟨hmem, hfound⟩ := List.mem_filter.1 hplace
    exact ⟨p, hconsistent.lookup?_of_mem_names hmem, hfound⟩
  · rintro ⟨p, hname, hfound⟩
    exact ⟨(p, name), List.mem_filter.2 ⟨NameTable.mem_names_of_lookup? hname, hfound⟩, rfl⟩

/-- A name that a module uses for something it does not declare is the name of a declaration if and
only if that declaration stands at a place that got exactly the name it asked for, and this is the
one: a node there is called so, or the place is a target whose pointer makes the name. The name of a
place that has no declaration is never that of a declaration. -/
theorem mem_declarations_iff_requests (h : generate d options = .ok m) :
    let table := (builder d options).table
    (∀ name, Foreign (builder d options) name →
      (name ∈ m.declarations.map (·.name) ↔
        ∃ p, table.entry? p = some ⟨name, name⟩ ∧ (d.resolve? p).isSome = true)) ∧
    (∀ p name, table.entry? p = some ⟨name, name⟩ →
      (∃ v ∈ Survey.visited d options.rootName,
        v.pointer = p ∧ v.name = some name ∧ v.earnsDeclaration = true) ∨
      d.IsTarget p ∧ (d.resolve? p).isSome = true ∧ name = ofPointer p) ∧
    ∀ p name, table.lookup? p = some name → d.resolve? p = none →
      name ∉ m.declarations.map (·.name) := by
  intro table
  refine ⟨fun name hforeign => ?_, fun p name he => ?_, fun p name hname hnone hmem => ?_⟩
  · rw [mem_declarations_iff h]
    exact exists_congr fun p => and_congr_left fun _ => Survey.lookup?_names_eq_iff hforeign.isPlain
  · exact Survey.requests_iff.1 (Survey.requests_of_entry?_names he).1
  · obtain ⟨q, hq, hfound⟩ := (mem_declarations_iff h).1 hmem
    have hconsistent := Survey.consistent_names d options.rootName
    obtain rfl := hconsistent.eq_of_lookup? hname hq
    rw [hnone] at hfound
    cases hfound

/-- A document with definitions `Owner` and `Record`, and one that refers to a definition `Owner` of
another document. -/
def captured : Document where
  json := .object [("definitions", .object [("Owner", .object [("type", .string "string")]),
    ("Pet", .object [("$ref", .string "people.json#/definitions/Owner")]),
    ("Record", .object [("type", .string "object")])])]
  root := { definitions := some [("Owner", { type := some (.single "string") }),
    ("Pet", { reference := some "people.json#/definitions/Owner" }),
    ("Record", { type := some (.single "object") })] }
  distinct := by simp [Json.KeysDistinct, Json.MembersDistinct]
  reads := rfl

/-- The names of that document: each definition is called by its key. -/
def capturedTable : NameTable where
  entries := ["Owner", "Pet", "Record"].map fun key => (definitionAt key, ⟨key, key⟩)
  counters := [("Owner", 1), ("Pet", 1), ("Record", 1)]
  given := ["Record", "Pet", "Owner"]

/-- The reference of that document leads out of it. -/
theorem ofRef?_captured : Pointer.ofRef? "people.json#/definitions/Owner" = none :=
  rfl

/-- All definitions keep their names. -/
theorem builder_captured : builder captured {} = ⟨captured, capturedTable⟩ := by
  have hschema : Survey.ofSchema captured none =
      ⟨capturedTable, ["people.json#/definitions/Owner"], []⟩ := by cbv
  have hpointers : capturedTable.pointers = ["Owner", "Pet", "Record"].map definitionAt := rfl
  refine congrArg (Builder.mk captured) (Survey.names_eq_of_forall hschema ?_ ?_)
  · simp [ofRef?_captured]
  · have hOwner : captured.next? (definitionAt "Owner") = none :=
      (Document.next?_definition rfl).trans rfl
    have hPet : captured.next? (definitionAt "Pet") = none :=
      (Document.next?_definition rfl).trans rfl
    have hRecord : captured.next? (definitionAt "Record") = none :=
      (Document.next?_definition rfl).trans rfl
    simp [hpointers, Survey.isRedundant, hOwner, hPet, hRecord]

/-- The module of that document. -/
def capturedModule : Module where
  declarations := [⟨"Owner", "type Owner = string;"⟩, ⟨"Pet", "type Pet = Owner;"⟩,
    ⟨"Record", "type Record = Record<string, unknown>;"⟩]
  exports := ["Owner", "Pet", "Record"]
  banner := false

/-- The definition that refers to another document becomes what the reference makes. -/
theorem declared_captured : declared ⟨captured, capturedTable⟩
    { reference := some "people.json#/definitions/Owner" } (definitionAt "Pet") =
      .ok (.named "Owner") := by
  obtain ⟨n, hlimit⟩ : ∃ n, stepLimit captured = n + 1 := ⟨_, rfl⟩
  have hname : ofExternal "people.json#/definitions/Owner" = "Owner" := rfl
  rw [declared, hlimit, build_reference n (unnamed_of_byName rfl) rfl, reference, ofRef?_captured]
  simp only [hname]

/-- That is the module of the document. -/
theorem generate_captured : generate captured {} = .ok capturedModule := by
  have hnames : capturedTable.names = [(definitionAt "Owner", "Owner"), (definitionAt "Pet", "Pet"),
    (definitionAt "Record", "Record")] := rfl
  have hfoundOwner : captured.resolve? (definitionAt "Owner") =
      some ⟨{ type := some (.single "string") }, true⟩ := Document.resolve?_definition rfl
  have hfoundPet : captured.resolve? (definitionAt "Pet") =
      some ⟨{ reference := some "people.json#/definitions/Owner" }, true⟩ :=
    Document.resolve?_definition rfl
  have hfoundRecord : captured.resolve? (definitionAt "Record") =
      some ⟨{ type := some (.single "object") }, true⟩ := Document.resolve?_definition rfl
  obtain ⟨n, hlimit⟩ : ∃ n, stepLimit captured = n + 1 := ⟨_, rfl⟩
  have hOwner : declared ⟨captured, capturedTable⟩ { type := some (.single "string") }
      (definitionAt "Owner") = .ok (.basic .string) := by
    rw [declared, hlimit, build_body n (unnamed_of_byName rfl) rfl]
    rfl
  have hRecord : declared ⟨captured, capturedTable⟩ { type := some (.single "object") }
      (definitionAt "Record") = .ok .record := by
    rw [declared, hlimit, build_body n (unnamed_of_byName rfl) rfl]
    rfl
  rw [generate_eq, builder_captured, hnames]
  simp only [declare, hfoundOwner, hfoundPet, hfoundRecord, hOwner, declared_captured, hRecord]
  rfl

/-- The names `Owner` and `Record` are used in that module for what it does not declare, and there
are declarations of these names: the one of the other document is not meant by `Owner`, and no
object by `Record`. -/
theorem captures_captured : generate captured {} = .ok capturedModule ∧
    ∀ name ∈ ["Owner", "Record"], Foreign (builder captured {}) name ∧
      name ∈ capturedModule.declarations.map (·.name) := by
  have hfound : captured.resolve? (definitionAt "Pet") =
      some ⟨{ reference := some "people.json#/definitions/Owner" }, true⟩ :=
    Document.resolve?_definition rfl
  have hOwner : Foreign (builder captured {}) "Owner" := by
    rw [builder_captured]
    refine .reference (.declaration (.tail _ (.head _)) hfound) (unnamed_of_byName rfl) rfl ?_
      declared_captured
    intro q hq
    cases ofRef?_captured.symm.trans hq
  refine ⟨generate_captured, fun name hname => ?_⟩
  rcases List.mem_pair.1 hname with rfl | rfl
  · exact ⟨hOwner, by decide⟩
  · exact ⟨.record, by decide⟩

/-- `Record` is the name of a declaration of that module, because a place asked for it. -/
theorem requests_captured : generate captured {} = .ok capturedModule ∧
    "Record" ∈ capturedModule.declarations.map (·.name) ∧
    ∃ p, NameTable.entry? (builder captured {}).table p = some ⟨"Record", "Record"⟩ ∧
      (captured.resolve? p).isSome = true := by
  have hmem : "Record" ∈ capturedModule.declarations.map (·.name) := by decide
  obtain ⟨hiff, -, -⟩ := mem_declarations_iff_requests generate_captured
  exact ⟨generate_captured, hmem, (hiff "Record" .record).1 hmem⟩

end Module
end SchemaTypes
