import Mathlib
import SchemaTypes.Proofs.Module.Termination

/-!
# What references become

A module is built from the schemas at the places that have names, from what these use, and from what
their references are followed to (`Builder.Built`). If there is a module, all of it was built, and
every reference became a name: a reference inside of the document the name that its target leads to,
which there is if anything is found at the target (`Module.build_reference_eq_named`).
-/

namespace SchemaTypes

variable {d : Document} {t : NameTable} {b : Builder} {p q : Pointer} {name ref : String}
  {s : Schema} {found : Located} {site : BuildSite} {steps : Nat} {options : ModuleOptions}
  {m : Module}

namespace Builder

open Document

/-! ## References that were built -/

section
variable {build : Schema → BuildSite → Building TypeExpr} {type : TypeExpr}

/-- Before a reference inside of the document is built, its target is followed. -/
theorem follow_of_reference (h : b.reference build ref site = .ok type)
    (hq : Pointer.ofRef? ref = some q) :
    follow b.document (followLimit b.document) (site.chain ++ [site.place]) q = .ok () := by
  rw [reference, hq] at h
  obtain ⟨_, hfollow, -⟩ := Except.bind_eq_ok_iff.1 h
  exact hfollow

/-- A reference out of the document becomes what its address makes. -/
theorem reference_of_external (h : b.reference build ref site = .ok type)
    (hq : Pointer.ofRef? ref = none) : type = .named (Identifier.ofExternal ref) := by
  rw [reference, hq] at h
  cases h
  rfl

/-- A reference to a place with a name becomes that name. -/
theorem reference_of_lookup? (h : b.reference build ref site = .ok type)
    (hq : Pointer.ofRef? ref = some q) (hname : b.table.lookup? q = some name) :
    type = .named name := by
  rw [reference, hq] at h
  obtain ⟨_, -, h⟩ := Except.bind_eq_ok_iff.1 h
  rw [hname] at h
  cases h
  rfl

/-- A reference to a place at which nothing is found becomes the name of the place, or what its last
step makes. -/
theorem reference_of_resolve?_none (h : b.reference build ref site = .ok type)
    (hq : Pointer.ofRef? ref = some q) (hr : b.document.resolve? q = none) :
    type = .named ((b.table.lookup? q).getD (Identifier.ofPointer q)) := by
  cases hname : b.table.lookup? q with
  | some name => exact reference_of_lookup? h hq hname
  | none =>
    rw [reference, hq] at h
    obtain ⟨_, -, h⟩ := Except.bind_eq_ok_iff.1 h
    rw [hname, hr] at h
    cases h
    rfl

/-- A reference to a place without a name at which a bare reference or an alias of a scalar type is
found becomes what is found there. -/
theorem reference_of_target (h : b.reference build ref site = .ok type)
    (hq : Pointer.ofRef? ref = some q) (hname : b.table.lookup? q = none)
    (hr : b.document.resolve? q = some found)
    (hfound : (found.schema.isSimpleAlias || found.schema.isReference) = true) :
    build found.schema ⟨q, false, site.chain ++ [site.place]⟩ = .ok type := by
  rw [reference, hq] at h
  obtain ⟨_, -, h⟩ := Except.bind_eq_ok_iff.1 h
  rw [hname, hr] at h
  simpa only [hfound, if_true] using h

/-- If a schema with a `$ref` was built without its name, the reference was. -/
theorem reference_of_build (hsite : b.Unnamed site) (href : s.reference = some ref)
    (h : b.build steps s site = .ok type) :
    ∃ n, b.reference (b.build n) ref site = .ok type := by
  cases steps with
  | zero => cases h
  | succ n => exact ⟨n, by rwa [build_reference n hsite href] at h⟩

/-- A reference to a place that leads to a name becomes that name. -/
theorem build_of_leadsTo (hlead : b.document.LeadsTo b.table q name) (hsite : b.Unnamed site)
    (href : s.reference = some ref) (hq : Pointer.ofRef? ref = some q)
    (h : b.build steps s site = .ok type) : type = .named name := by
  induction hlead generalizing s site ref steps with
  | here hname =>
    obtain ⟨n, h⟩ := reference_of_build hsite href h
    exact reference_of_lookup? h hq hname
  | next hnone hnext _ ih =>
    obtain ⟨n, h⟩ := reference_of_build hsite href h
    obtain ⟨found, hr, hbare, hnext⟩ := next?_eq_some_iff.1 hnext
    obtain ⟨ref', href', hq'⟩ := Schema.internalReference?_eq_some_iff.1 hnext
    exact ih (unnamed_of_byName rfl) href' hq'
      (reference_of_target h hq hnone hr (by rw [hbare, Bool.or_true]))

end

/-! ## What is built for the declarations -/

/-- For the declarations of all places that have names, the schema is built at the site, with the
steps that are left: it is what is found at one of the places, or used by what is built, or found at
the target of a reference that is built and followed. -/
inductive Built (b : Builder) : Nat → Schema → BuildSite → Prop where
  | declaration {p : Pointer} {name : String} {found : Located} :
    (p, name) ∈ b.table.names → b.document.resolve? p = some found →
      Built b (stepLimit b.document) found.schema (.declaration p)
  | part {steps : Nat} {s c : Schema} {site : BuildSite} {slot : Slot} :
    Built b (steps + 1) s site → b.Unnamed site → s.reference = none →
      Uses (fun slot c => b.build steps c (.part (site.place.slot slot))) s slot c →
      Built b steps c (.part (site.place.slot slot))
  | target {steps : Nat} {s : Schema} {site : BuildSite} {ref : String} {q : Pointer}
    {found : Located} :
    Built b (steps + 1) s site → b.Unnamed site → s.reference = some ref →
      Pointer.ofRef? ref = some q → b.table.lookup? q = none →
      b.document.resolve? q = some found →
      (found.schema.isSimpleAlias || found.schema.isReference) = true →
      Built b steps found.schema ⟨q, false, site.chain ++ [site.place]⟩

/-- If all declarations are built, so is everything that is built for them. -/
theorem Built.exists_ok (h : b.Built steps s site)
    (hall : ∀ p name found, (p, name) ∈ b.table.names → b.document.resolve? p = some found →
      ∃ type, b.declared found.schema p = .ok type) : ∃ type, b.build steps s site = .ok type := by
  induction h with
  | declaration hmem hr => exact hall _ _ _ hmem hr
  | part _ hsite href hused ih =>
    obtain ⟨type, htype⟩ := ih
    rw [build_body _ hsite href] at htype
    exact (restsOn_body _ _).exists_ok htype hused
  | target _ hsite href hq hnone hr hfound ih =>
    obtain ⟨type, htype⟩ := ih
    rw [build_reference _ hsite href] at htype
    exact ⟨type, reference_of_target htype hq hnone hr hfound⟩

end Builder

namespace Module

open Builder

/-- If places are declared, what stands at each of them was built. -/
theorem exists_type_of_declare {places : List (Pointer × String)} {ds : List Declaration}
    (h : declare b places = .ok ds) (hmem : (p, name) ∈ places)
    (hr : b.document.resolve? p = some found) :
    ∃ type, b.declared found.schema p = .ok type := by
  induction places generalizing ds with
  | nil => cases hmem
  | cons place rest ih =>
    obtain ⟨q, other⟩ := place
    rw [declare] at h
    rcases List.mem_cons.1 hmem with heq | hmem
    · cases heq
      rw [hr] at h
      obtain ⟨type, htype, -⟩ := Except.bind_eq_ok_iff.1 h
      exact ⟨type, htype⟩
    · split at h
      · exact ih h hmem
      · obtain ⟨_, -, h⟩ := Except.bind_eq_ok_iff.1 h
        obtain ⟨_, hrest, -⟩ := Except.bind_eq_ok_iff.1 h
        exact ih hrest hmem

/-- What is built for a module are nodes. -/
theorem surveyed_of_built (h : (builder d options).Built steps s site) : ∃ p, d.Surveyed p s := by
  induction h with
  | declaration hmem hr => exact surveyed_of_mem_names hmem hr
  | part _ _ _ hused ih =>
    obtain ⟨p, hs⟩ := ih
    exact ⟨_, hs.child hused.holds⟩
  | target _ _ href hq _ hr _ ih =>
    obtain ⟨p, hs⟩ := ih
    have htarget := Schema.internalReference?_eq_some_iff.2 ⟨_, href, hq⟩
    exact Document.IsTarget.of_resolve? ⟨p, _, hs, htarget⟩ hr

/-- If there is a module, what stands at each place with a name was built. -/
theorem exists_type_of_generate (h : generate d options = .ok m)
    (hmem : (p, name) ∈ (builder d options).table.names) (hr : d.resolve? p = some found) :
    ∃ type, (builder d options).declared found.schema p = .ok type := by
  rw [generate_eq] at h
  obtain ⟨ds, hds, -⟩ := Except.bind_eq_ok_iff.1 h
  exact exists_type_of_declare hds hmem hr

/-- If there is a module, everything that is built for it was built. -/
theorem exists_type_of_built (h : generate d options = .ok m)
    (hbuilt : (builder d options).Built steps s site) :
    ∃ type, (builder d options).build steps s site = .ok type :=
  hbuilt.exists_ok fun _ _ _ hmem hr => exists_type_of_generate h hmem hr

/-- Every reference that is built for a module becomes a name. A reference inside of the document
becomes the name that its target leads to, if anything is found at the target. Only if nothing is
found there and the target has no name, or if the reference leads out of the document, the name is
made from the reference. -/
theorem build_reference_eq_named (h : generate d options = .ok m)
    (hbuilt : (builder d options).Built steps s site) (hsite : (builder d options).Unnamed site)
    (href : s.reference = some ref) :
    ∃ name, (builder d options).build steps s site = .ok (.named name) ∧
      (∀ q found, Pointer.ofRef? ref = some q → d.resolve? q = some found →
        d.LeadsTo (builder d options).table q name) ∧
      (∀ q, Pointer.ofRef? ref = some q → d.resolve? q = none →
        name = ((builder d options).table.lookup? q).getD (Identifier.ofPointer q)) ∧
      (Pointer.ofRef? ref = none → name = Identifier.ofExternal ref) := by
  obtain ⟨type, htype⟩ := exists_type_of_built h hbuilt
  obtain ⟨n, hreference⟩ := reference_of_build hsite href htype
  cases hq : Pointer.ofRef? ref with
  | none =>
    cases reference_of_external hreference hq
    exact ⟨_, htype, nofun, nofun, fun _ => rfl⟩
  | some q =>
    cases hr : d.resolve? q with
    | none =>
      cases reference_of_resolve?_none hreference hq hr
      refine ⟨_, htype, fun q' found hq' hr' => ?_, fun q' hq' _ => ?_, nofun⟩
      · cases hq'
        cases hr.symm.trans hr'
      · cases hq'
        rfl
    | some found =>
      obtain ⟨p, hs⟩ := surveyed_of_built hbuilt
      have htarget := Schema.internalReference?_eq_some_iff.2 ⟨ref, href, hq⟩
      obtain ⟨name, hname⟩ := complete_names d options.rootName q found ⟨p, s, hs, htarget⟩ hr
      cases build_of_leadsTo hname hsite href hq htype
      refine ⟨name, htype, fun q' _ hq' _ => ?_, fun q' hq' hr' => ?_, nofun⟩
      · cases hq'
        exact hname
      · cases hq'
        cases hr.symm.trans hr'

/-- The place of a definition of a document. -/
def definitionAt (key : String) : Pointer :=
  Pointer.root.slot (.definition key)

/-- A document in which a definition refers to another by an alias of the same name. -/
def aliased : Document where
  json := .object [("definitions", .object [("Pet", .object [("type", .string "string")]),
    ("pet", .object [("$ref", .string "#/definitions/Pet")]),
    ("Owner", .object [("$ref", .string "#/definitions/pet")])])]
  root := { definitions := some [("Pet", { type := some (.single "string") }),
    ("pet", { reference := some "#/definitions/Pet" }),
    ("Owner", { reference := some "#/definitions/pet" })] }
  distinct := by simp [Json.KeysDistinct, Json.MembersDistinct]
  reads := rfl

/-- The definition leads on to the alias, and the alias to the other definition. -/
theorem next?_aliased :
    aliased.next? (definitionAt "Owner") = some (definitionAt "pet") ∧
      aliased.next? (definitionAt "pet") = some (definitionAt "Pet") ∧
      aliased.next? (definitionAt "Pet") = none := by
  refine ⟨(Document.next?_definition rfl).trans ?_, (Document.next?_definition rfl).trans ?_,
    (Document.next?_definition rfl).trans ?_⟩ <;> cbv

/-- The names of that document: that of the alias was given up. -/
theorem builder_aliased : builder aliased {} = ⟨aliased,
    [(definitionAt "Owner", ⟨"Owner", "Owner"⟩), (definitionAt "Pet", ⟨"Pet", "Pet"⟩)],
    [("Pet", 2), ("Owner", 1)], ["Owner", "Pet_1", "Pet"]⟩ := by
  obtain ⟨table, htable⟩ : ∃ table : NameTable, table =
      ⟨[(definitionAt "Owner", ⟨"Owner", "Owner"⟩), (definitionAt "Pet", ⟨"Pet", "Pet"⟩),
        (definitionAt "pet", ⟨"Pet_1", "Pet"⟩)], [("Pet", 2), ("Owner", 1)],
        ["Owner", "Pet_1", "Pet"]⟩ := ⟨_, rfl⟩
  have hcomplete : (Survey.complete aliased none).table = table := by
    have hschema : Survey.ofSchema aliased none =
        ⟨table, ["#/definitions/Pet", "#/definitions/pet"], []⟩ := by rw [htable]; cbv
    have hrefPet : Pointer.ofRef? "#/definitions/Pet" = some (definitionAt "Pet") := by cbv
    have hrefpet : Pointer.ofRef? "#/definitions/pet" = some (definitionAt "pet") := by cbv
    have hcontains : ∀ key ∈ ["Pet", "pet"], table.contains (definitionAt key) = true := by
      rw [htable]
      decide
    rw [Survey.complete, hschema]
    refine Survey.table_close_eq ?_ _
    simp [hrefPet, hrefpet, hcontains]
  have howner : Survey.isRedundant aliased table (definitionAt "Owner") = false := by
    rw [Survey.isRedundant, next?_aliased.1, htable]
    cbv
  have hpet : Survey.isRedundant aliased table (definitionAt "pet") = true := by
    rw [Survey.isRedundant, next?_aliased.2.1, htable]
    cbv
  have hPet : Survey.isRedundant aliased table (definitionAt "Pet") = false := by
    rw [Survey.isRedundant, next?_aliased.2.2]
  have hpointers : table.pointers =
      [definitionAt "Owner", definitionAt "Pet", definitionAt "pet"] := by rw [htable]; rfl
  have hprune : Survey.prune aliased table = table.remove (definitionAt "pet") := by
    simp only [Survey.prune, hpointers, List.foldl_cons, List.foldl_nil, howner, hPet, hpet,
      if_true, Bool.false_eq_true, if_false]
  change Builder.mk aliased (Survey.prune aliased (Survey.complete aliased none).table) = _
  rw [hcomplete, hprune, htable]
  cbv

/-- There is a module of that document. -/
theorem generate_aliased : ∃ m, generate aliased {} = .ok m := by
  obtain ⟨table, htable⟩ : ∃ table : NameTable, table =
      ⟨[(definitionAt "Owner", ⟨"Owner", "Owner"⟩), (definitionAt "Pet", ⟨"Pet", "Pet"⟩)],
        [("Pet", 2), ("Owner", 1)], ["Owner", "Pet_1", "Pet"]⟩ := ⟨_, rfl⟩
  have hnames : table.names = [(definitionAt "Owner", "Owner"), (definitionAt "Pet", "Pet")] := by
    rw [htable]; rfl
  have hfoundOwner : aliased.resolve? (definitionAt "Owner") =
      some ⟨{ reference := some "#/definitions/pet" }, true⟩ := Document.resolve?_definition rfl
  have hfoundpet : aliased.resolve? (definitionAt "pet") =
      some ⟨{ reference := some "#/definitions/Pet" }, true⟩ := Document.resolve?_definition rfl
  have hfoundPet : aliased.resolve? (definitionAt "Pet") =
      some ⟨{ type := some (.single "string") }, true⟩ := Document.resolve?_definition rfl
  obtain ⟨n, hn⟩ : ∃ n, stepLimit aliased = n + 1 + 1 := ⟨_, rfl⟩
  have hPet : declared ⟨aliased, table⟩ { type := some (.single "string") } (definitionAt "Pet") =
      .ok (.basic .string) := by
    rw [declared, hn, build_body (n + 1) (unnamed_of_byName rfl) rfl]
    rfl
  have hOwner : declared ⟨aliased, table⟩ { reference := some "#/definitions/pet" }
      (definitionAt "Owner") = .ok (.named "Pet") := by
    have hlimit : followLimit aliased = 8 + 1 + 1 := by cbv
    have hfollowpet : follow aliased (8 + 1 + 1) [definitionAt "Owner"] (definitionAt "pet") =
        .ok () := by
      rw [follow_of_next?_eq_some (by decide) next?_aliased.2.1,
        follow_of_next?_eq_none (by decide) next?_aliased.2.2]
    have hfollowPet : follow aliased (8 + 1 + 1) [definitionAt "Owner", definitionAt "pet"]
        (definitionAt "Pet") = .ok () :=
      follow_of_next?_eq_none (by decide) next?_aliased.2.2
    have hrefpet : Pointer.ofRef? "#/definitions/pet" = some (definitionAt "pet") := by cbv
    have hrefPet : Pointer.ofRef? "#/definitions/Pet" = some (definitionAt "Pet") := by cbv
    have hnonepet : table.lookup? (definitionAt "pet") = none := by rw [htable]; cbv
    have hnamePet : table.lookup? (definitionAt "Pet") = some "Pet" := by rw [htable]; cbv
    rw [declared, hn, build_reference (n + 1) (unnamed_of_byName rfl) rfl]
    simp only [reference, hrefpet, hlimit, BuildSite.declaration, List.nil_append, hfollowpet,
      hnonepet, hfoundpet]
    change build _ _ _ _ = _
    rw [build_reference n (unnamed_of_byName rfl) rfl]
    simp only [reference, hrefPet, hlimit, List.cons_append, List.nil_append, hfollowPet, hnamePet]
    rfl
  rw [generate_eq, builder_aliased, ← htable]
  simp only [hnames, declare, hfoundOwner, hfoundPet, hOwner, hPet]
  exact ⟨_, rfl⟩

/-- The definition that refers to the alias becomes the name of what the alias refers to. -/
theorem build_aliased :
    ∃ m, generate aliased {} = .ok m ∧
      (builder aliased {}).Built (stepLimit aliased) { reference := some "#/definitions/pet" }
        (.declaration (definitionAt "Owner")) ∧
      (builder aliased {}).build (stepLimit aliased) { reference := some "#/definitions/pet" }
        (.declaration (definitionAt "Owner")) = .ok (.named "Pet") := by
  obtain ⟨m, hm⟩ := generate_aliased
  have howner : aliased.resolve? (definitionAt "Owner") =
      some ⟨{ reference := some "#/definitions/pet" }, true⟩ := Document.resolve?_definition rfl
  have hpet : aliased.resolve? (definitionAt "pet") =
      some ⟨{ reference := some "#/definitions/Pet" }, true⟩ := Document.resolve?_definition rfl
  have hbuilt : (builder aliased {}).Built (stepLimit aliased)
      { reference := some "#/definitions/pet" } (.declaration (definitionAt "Owner")) := by
    rw [builder_aliased]
    exact Built.declaration (b := ⟨aliased, _⟩) (.head _) howner
  obtain ⟨name, hbuild, hlead, -⟩ :=
    build_reference_eq_named hm hbuilt (unnamed_of_byName rfl) rfl
  have hPet : aliased.LeadsTo (builder aliased {}).table (definitionAt "pet") "Pet" := by
    rw [builder_aliased]
    exact .next (by cbv) next?_aliased.2.1 (.here (by cbv))
  cases (hlead _ _ (by cbv) hpet).unique hPet
  exact ⟨m, hm, hbuilt, hbuild⟩

end Module
end SchemaTypes
