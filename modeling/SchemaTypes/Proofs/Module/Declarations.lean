import Mathlib
import SchemaTypes.Proofs.Module.Termination
import SchemaTypes.Proofs.Survey.Named

/-!
# What a module declares and exports

A module declares the places that have names, in the order of their pointers, as far as anything is
found there (`Module.map_name_declare`). That is all of them, unless one is inside of a list that is
referred to outside of the schema of the document: such a place has a name, but no declaration
(`Module.declarations_generate`).
-/

namespace SchemaTypes
namespace Module

open Builder

variable {d : Document} {options : ModuleOptions} {b : Builder} {m : Module}
  {places : List (Pointer × String)} {declared : List Declaration} {table : NameTable}

/-- A declaration has the name it was given. -/
theorem name_ofSchema (name : String) (s : Schema) (type : String) :
    (Declaration.ofSchema name s type).name = name := by
  simp only [Declaration.ofSchema]
  split <;> rfl

/-- The declarations of places have the names of those at which anything is found, in their
order. -/
theorem map_name_declare (h : declare b places = .ok declared) :
    declared.map (·.name) =
      (places.filter fun place => (b.document.resolve? place.1).isSome).map (·.2) := by
  induction places generalizing declared with
  | nil =>
    cases h
    rfl
  | cons place rest ih =>
    obtain ⟨p, name⟩ := place
    rw [declare] at h
    cases hr : b.document.resolve? p with
    | none =>
      rw [hr] at h
      rw [ih h, List.filter_cons_of_neg (by simp [hr])]
    | some found =>
      rw [hr] at h
      obtain ⟨type, others, -, hothers, rfl⟩ := Except.bind_bind_pure_eq_ok_iff.1 h
      rw [List.map_cons, ih hothers, List.filter_cons_of_pos (by simp [hr]), List.map_cons,
        name_ofSchema]

/-- What is declared are the types that are built at the places. -/
theorem exists_type_of_mem_declare {declaration : Declaration} (h : declare b places = .ok declared)
    (hmem : declaration ∈ declared) : ∃ p name found type, (p, name) ∈ places ∧
      b.document.resolve? p = some found ∧ b.declared found.schema p = .ok type ∧
      declaration = .ofSchema name found.schema type.text := by
  induction places generalizing declared with
  | nil =>
    cases h
    cases hmem
  | cons place rest ih =>
    obtain ⟨q, other⟩ := place
    have hlater (ds : List Declaration) (hds : declare b rest = .ok ds) (hmem : declaration ∈ ds) :
        ∃ p name found type, (p, name) ∈ (q, other) :: rest ∧
          b.document.resolve? p = some found ∧ b.declared found.schema p = .ok type ∧
          declaration = .ofSchema name found.schema type.text := by
      obtain ⟨p, name, found, type, hplace, hrest⟩ := ih hds hmem
      exact ⟨p, name, found, type, .tail _ hplace, hrest⟩
    rw [declare] at h
    split at h
    · exact hlater declared h hmem
    · next found hr =>
      obtain ⟨type, others, htype, hothers, rfl⟩ := Except.bind_bind_pure_eq_ok_iff.1 h
      rcases List.mem_cons.1 hmem with rfl | hmem
      · exact ⟨q, other, found, type, .head _, hr, htype, rfl⟩
      · exact hlater others hothers hmem

/-- If only the whole document has a name, it is all that is declared. -/
theorem exists_generate_of_names {name : String} {type : TypeExpr}
    (hnames : (builder d options).table.names = [(.root, name)])
    (htype : (builder d options).declared d.root .root = .ok type) :
    ∃ m, generate d options = .ok m ∧ m.declarations = [.ofSchema name d.root type.text] := by
  have hroot : (builder d options).document.resolve? .root = some ⟨d.root, true⟩ := d.resolve?_root
  have hdeclare : declare (builder d options) [(.root, name)] =
      .ok [.ofSchema name d.root type.text] := by
    simp only [declare, hroot, htype]
    rfl
  rw [generate_eq, hnames, hdeclare]
  exact ⟨_, rfl, rfl⟩

/-- If all names are declared whose places are found, the whole document is exported by its name, if
it has one. -/
theorem exported_root {ds : List Declaration} (hroot : ∀ name, table.lookup? .root = some name →
      name ∈ ds.map (·.name)) : exported .root table ds = (table.lookup? .root).toList := by
  rw [exported]
  cases hname : table.lookup? .root with
  | none => rfl
  | some name =>
    obtain ⟨x, hx, heq⟩ := List.mem_map.1 (hroot name hname)
    have hany : ds.any (·.name == name) = true := List.any_eq_true.2 ⟨x, hx, beq_iff_eq.2 heq⟩
    simp [hany]

/-- Leaving out the places that do not pass a test changes no name if and only if all pass it. -/
theorem map_filter_eq_map_iff {test : Pointer × String → Bool} :
    (places.filter test).map (·.2) = places.map (·.2) ↔ ∀ place ∈ places, test place = true := by
  constructor
  · intro heq
    have hlength := congrArg List.length heq
    rw [List.length_map, List.length_map] at hlength
    exact List.length_filter_eq_length_iff.1 hlength
  · intro hall
    rw [List.filter_eq_self.2 hall]

/-- The places that have names ascend strictly. A module declares those of them, in this order, at
which anything is found, and these are the ones that are not inside of a list. It exports all that
it declares, or the whole document, if that has a name. -/
theorem declarations_generate (h : generate d options = .ok m) :
    let table := Survey.names d options.rootName
    (table.names.Pairwise fun a b => a.1 < b.1) ∧
    (m.declarations.map (·.name) =
      (table.names.filter fun place => (d.resolve? place.1).isSome).map (·.2)) ∧
    (∀ place ∈ table.names, (d.resolve? place.1).isSome = true ↔ ¬d.InsideList place.1) ∧
    (m.declarations.map (·.name) = table.names.map (·.2) ↔
      ∀ place ∈ table.names, ¬d.InsideList place.1) ∧
    (options.exports = .all → m.exports = m.declarations.map (·.name)) ∧
    (options.exports = .root → m.exports = (table.lookup? .root).toList) := by
  intro table
  rw [generate_eq] at h
  obtain ⟨declared, hdeclared, h⟩ := Except.bind_eq_ok_iff.1 h
  cases h
  have hnames : declared.map (·.name) =
      (table.names.filter fun place => (d.resolve? place.1).isSome).map (·.2) :=
    map_name_declare (b := builder d options) hdeclared
  have hfound (place : Pointer × String) (hplace : place ∈ table.names) :
      (d.resolve? place.1).isSome = true ↔ ¬d.InsideList place.1 := by
    have hcontains := NameTable.contains_of_mem_names hplace
    rw [← Survey.resolve?_eq_none_iff_of_contains_names hcontains, Option.isSome_iff_ne_none]
  refine ⟨?_, hnames, hfound, ?_, ?_, ?_⟩
  · have hconsistent := Survey.consistent_names d options.rootName
    exact List.pairwise_map.2 hconsistent.ascending
  · show declared.map (·.name) = _ ↔ _
    rw [hnames, map_filter_eq_map_iff]
    exact forall₂_congr hfound
  · intro hall
    rw [hall]
    rfl
  · intro hroot
    rw [hroot]
    refine exported_root ?_
    intro name hname
    have hmem := NameTable.mem_names_of_lookup? hname
    show name ∈ declared.map (·.name)
    rw [hnames]
    refine List.mem_map.2 ⟨(.root, name), List.mem_filter.2 ⟨hmem, ?_⟩, rfl⟩
    have hwalk : d.walk? .root = some d.root := by
      rw [Document.walk?, Pointer.segments_root, Schema.walk?]
    rw [Document.resolve?_of_walk? hwalk]
    rfl

/-- A list that reads as a schema with a property, in the order of the keywords. -/
def positionalValue : Json :=
  .array (.null :: .object [("a", .object [("title", .string "A")])] :: .array [] ::
    List.replicate 12 .null)

/-- The schema that the list reads as. -/
def positionalSchema : Schema :=
  { properties := some [("a", { title := some "A" })], const := some .null }

/-- A document that refers to the list, which is not in its schema. -/
def positional : Document where
  json := .object [("$ref", .string "#/x"), ("x", positionalValue)]
  root := { reference := some "#/x" }
  distinct := by
    simp [Json.KeysDistinct, Json.MembersDistinct, Json.ElementsDistinct, positionalValue]
  reads := rfl

/-- The place of the list. -/
def positionalPlace : Pointer :=
  ⟨"#/x", by decide⟩

/-- The pointer is followed to the list in the value of the document. -/
theorem follow?_positional :
    positional.json.follow? positionalPlace.segments = some positionalValue := by
  have hsteps : positionalPlace.segments = ["x"] := by decide
  rw [hsteps]
  rfl

/-- The list is found at its place, outside of the schema of the document. -/
theorem resolve?_positional : positional.resolve? positionalPlace =
    some ⟨positionalSchema, false⟩ := by
  have hsteps : positionalPlace.segments = ["x"] := by decide
  have hwalk : positional.walk? positionalPlace = none := by
    rw [Document.walk?, hsteps, Schema.walk?]
    rfl
  have hread : Schema.read positionalValue = .ok positionalSchema := by cbv
  rw [Document.resolve?, hwalk, Document.readAt?, follow?_positional, Option.bind_some, hread]
  rfl

/-- The place of the property is inside of the list. -/
theorem insideList_positional : positional.InsideList (positionalPlace.slot (.property "a")) :=
  Document.insideList_slot resolve?_positional follow?_positional _

/-- The names that the list and its property get. -/
def positionalTable : NameTable where
  entries := [(positionalPlace, ⟨"X", "X"⟩),
    (positionalPlace.slot (.property "a"), ⟨"XA", "XA"⟩)]
  counters := [("X", 1), ("XA", 1)]
  given := ["XA", "X"]

/-- The places that have names, with their names. -/
theorem names_positionalTable : positionalTable.names =
    [(positionalPlace, "X"), (positionalPlace.slot (.property "a"), "XA")] :=
  rfl

/-- The list and its property have names. -/
theorem names_positional : Survey.names positional none = positionalTable := by
  have hschema : Survey.ofSchema positional none = ⟨{}, ["#/x"], []⟩ := by cbv
  obtain ⟨n, hlimit⟩ : ∃ n, Survey.roundLimit positional = n + 1 + 1 := ⟨_, rfl⟩
  have hpending : Survey.pending ⟨{}, ["#/x"], []⟩ = [positionalPlace] := by cbv
  have hname : Identifier.ofPointer positionalPlace = "X" := rfl
  have hsettle : Survey.settle positional ⟨{}, ["#/x"], []⟩ positionalPlace =
      ⟨positionalTable, ["#/x"], [positionalPlace]⟩ := by
    rw [Survey.settle, resolve?_positional, hname]
    cbv
  have hdone : Survey.pending ⟨positionalTable, ["#/x"], [positionalPlace]⟩ = [] := by cbv
  have hcomplete : (Survey.complete positional none).table = positionalTable := by
    rw [Survey.complete, hschema, hlimit, Survey.close, hpending, if_neg (by simp),
      List.foldl_cons, List.foldl_nil, hsettle, Survey.close, hdone]
    rfl
  have hlist : Survey.isRedundant positional positionalTable positionalPlace = false := by
    rw [Survey.isRedundant, Document.next?, resolve?_positional]
    rfl
  have hproperty : Survey.isRedundant positional positionalTable
      (positionalPlace.slot (.property "a")) = false := by
    rw [Survey.isRedundant, Document.next?, insideList_positional.resolve?_eq_none]
  have hpointers : positionalTable.pointers =
      [positionalPlace, positionalPlace.slot (.property "a")] := rfl
  change Survey.prune positional (Survey.complete positional none).table = _
  rw [hcomplete, Survey.prune_eq_self]
  rw [hpointers]
  simp [hlist, hproperty]

/-- There is a module of that document. -/
theorem exists_generate_positional : ∃ m, generate positional {} = .ok m := by
  have hbuilder : builder positional {} = ⟨positional, positionalTable⟩ :=
    congrArg (Builder.mk positional) names_positional
  obtain ⟨n, hlimit⟩ : ∃ n, stepLimit positional = n + 1 + 1 := ⟨_, rfl⟩
  have hname : positionalTable.lookup? (positionalPlace.slot (.property "a")) = some "XA" := by cbv
  have hproperty : build ⟨positional, positionalTable⟩ (n + 1) { title := some "A" }
      (.part (positionalPlace.slot (.property "a"))) = .ok (.named "XA") :=
    build_named n _ rfl hname
  have hlist : declared ⟨positional, positionalTable⟩ positionalSchema positionalPlace =
      .ok (.object [⟨"a", true, .named "XA"⟩] none) := by
    have hplace : (BuildSite.declaration positionalPlace).place = positionalPlace := rfl
    rw [declared, hlimit, build_body (n + 1) (unnamed_of_byName rfl) rfl]
    simp only [hplace, body, combinators, alternatives, conjunction, object, properties,
      positionalSchema, Option.getD_some, hproperty]
    rfl
  rw [generate_eq, hbuilder, names_positionalTable]
  simp only [declare, resolve?_positional, hlist, insideList_positional.resolve?_eq_none]
  exact ⟨_, rfl⟩

/-- Both the list and its property have names, but only the list is declared and exported. -/
theorem declarations_positional :
    ∃ m, generate positional {} = .ok m ∧
      (Survey.names positional none).names.map (·.2) = ["X", "XA"] ∧
      m.declarations.map (·.name) = ["X"] ∧ m.exports = ["X"] := by
  obtain ⟨m, hm⟩ := exists_generate_positional
  obtain ⟨-, hdeclared, -, -, hexports, -⟩ := declarations_generate hm
  have hnames : m.declarations.map (·.name) = ["X"] := by
    rw [hdeclared, names_positional, names_positionalTable]
    simp [resolve?_positional, insideList_positional.resolve?_eq_none]
  refine ⟨m, hm, ?_, hnames, (hexports rfl).trans hnames⟩
  rw [names_positional, names_positionalTable]
  rfl

end Module
end SchemaTypes
