import SchemaTypes.Proofs.Survey.Traversal
import SchemaTypes.Proofs.TypeExpr.Traversal

/-!
# One address for every node

The survey names places, the builder asks for the names of places, and references are looked up by
place, so all three must mean the same by a place. They do (`Document.agreesAt_of_resolve?`):
wherever something is found in the schema of a document, or in an object of its value, the survey
and the builder go on from there to the same places, what they come to is what is found there, and
neither of them comes to a place twice.
-/

namespace SchemaTypes

open Builder

variable {d : Document} {p : Pointer} {s t : Schema} {b : Builder} {steps left : Nat}
  {site site' : BuildSite} {slots : List Slot}

/-- What the builder descends to, a survey visits at the same place. -/
theorem Builder.Descends.exists_visit (h : b.Descends steps s site slots left t site')
    (suggested : String) (role : Role) :
    ∃ v ∈ Visit.visits s site.place suggested role, v.pointer = site'.place ∧ v.schema = t := by
  induction h generalizing suggested role with
  | here => exact ⟨_, Visit.mem_visits_iff.2 (.inl rfl), rfl, rfl⟩
  | part _ _ hused _ ih =>
    obtain ⟨v, hv, hplace, hschema⟩ := ih _ _
    exact ⟨v, Visit.mem_visits_iff.2 (.inr ⟨_, _, hused.holds, hv⟩), hplace, hschema⟩

namespace Document

/-- Surveys, builders and pointers agree on the places of what stands in a schema at a place. -/
structure AgreesAt (d : Document) (p : Pointer) (s : Schema) : Prop where
  /-- What a slot holds is found at the place of the slot. -/
  found : ∀ slot c, (slot, c) ∈ s.children →
    (d.resolve? (p.slot slot)).map (·.schema) = some c
  /-- A survey goes on to what each slot holds, at the place of the slot. -/
  visits : ∀ suggested role, Visit.visits s p suggested role =
    ⟨p, s, role, Visit.nameOf s suggested role⟩ :: s.children.flatMap fun (slot, c) =>
      Visit.visits c (p.slot slot) (Visit.suggestion (Visit.nameOf s suggested role) slot c)
        (Visit.roleIn slot)
  /-- A survey comes to no place twice. -/
  visitsOnce : ∀ suggested role, ((Visit.visits s p suggested role).map (·.pointer)).Nodup
  /-- A builder goes on to what slots hold, at the places of the slots. -/
  builds : ∀ (b : Builder) steps site, site.place = p → b.Unnamed site → s.reference = none →
    b.build (steps + 1) s site = body (fun slot c => b.build steps c (.part (p.slot slot))) s
  /-- All that a type is built from are slots and what they hold. -/
  uses : ∀ part, RestsOn part (Uses part s) (body part s) ∧
    ∀ slot c, Uses part s slot c → (slot, c) ∈ s.children
  /-- What a builder descends to, a survey visits at the same place. -/
  descends : ∀ (b : Builder) steps site slots left t site', site.place = p →
    b.Descends steps s site slots left t site' → ∀ suggested role,
      ∃ v ∈ Visit.visits s p suggested role, v.pointer = site'.place ∧ v.schema = t
  /-- A builder comes to no place in two ways. -/
  descendsOnce : ∀ (b : Builder) steps site slots left t site' slots' left' t' site'',
    b.Descends steps s site slots left t site' → b.Descends steps s site slots' left' t' site'' →
      site'.place = site''.place → slots = slots'

/-- What is found in the schema of a document, or in an object of its value, has the same places for
surveys, builders and pointers. -/
theorem agreesAt_of_resolve? {found : Located} (hr : d.resolve? p = some found)
    (hplace : found.inSchema = true ∨
      ∃ members, d.json.follow? p.segments = some (.object members)) :
    AgreesAt d p found.schema where
  found slot c hc := by
    obtain ⟨s, inSchema⟩ := found
    have hheld := Schema.mem_children_iff.1 hc
    cases inSchema with
    | true => rw [resolve?_of_walk? (walk?_slot (walk?_of_resolve? hr) hheld)]; rfl
    | false =>
      obtain ⟨members, hv⟩ := hplace.resolve_left Bool.false_ne_true
      obtain ⟨v, hv', hread⟩ := read_of_resolve? hr
      cases hv.symm.trans hv'
      obtain ⟨inSchema, hslot⟩ := exists_resolve?_slot hv hread hheld
      rw [hslot]
      rfl
  visits := Visit.visits_eq _ _
  visitsOnce suggested role :=
    Visit.nodup_map_pointer_visits _ p suggested role fun _ ht => keysDistinct_of_part hr ht
  builds b steps site hsite hunnamed href := by
    subst hsite
    exact build_body steps hunnamed href
  uses part := ⟨restsOn_body part _, fun _ _ hused => Schema.mem_children_iff.2 hused.holds⟩
  descends b steps site slots left t site' hsite h suggested role := by
    subst hsite
    exact h.exists_visit suggested role
  descendsOnce b steps site slots left t site' slots' left' t' site'' h h' heq :=
    h.slots_eq h' (fun _ ht => keysDistinct_of_part hr ht) heq

/-- A document that refers to an object outside of its schema, with a key that has to be escaped. -/
def outside : Document where
  json := .object [("$ref", .string "#/shared"), ("shared", .object [("properties", .object [
    ("a/b", .object [("title", .string "B")])])])]
  root := { reference := some "#/shared" }
  distinct := by simp [Json.KeysDistinct, Json.MembersDistinct]
  reads := rfl

/-- The place of that object. -/
def outsideObject : Pointer :=
  ⟨"#/shared", by decide⟩

/-- Surveys, builders and pointers agree on the places in that object, and what it holds under that
key is found at the place of its slot. -/
theorem agreesAt_outside :
    outside.resolve? outsideObject =
        some ⟨{ properties := some [("a/b", { title := some "B" })] }, false⟩ ∧
      outside.json.follow? outsideObject.segments = some (.object [("properties", .object [
        ("a/b", .object [("title", .string "B")])])]) ∧
      AgreesAt outside outsideObject { properties := some [("a/b", { title := some "B" })] } ∧
      (outside.resolve? (outsideObject.slot (.property "a/b"))).map (·.schema) =
        some { title := some "B" } := by
  have hsteps : outsideObject.segments = ["shared"] := by decide
  have hv : outside.json.follow? outsideObject.segments = some (.object [("properties", .object [
      ("a/b", .object [("title", .string "B")])])]) := by
    rw [hsteps]
    rfl
  have hr : outside.resolve? outsideObject =
      some ⟨{ properties := some [("a/b", { title := some "B" })] }, false⟩ := by
    have hwalk : outside.walk? outsideObject = none := by
      rw [walk?, hsteps, Schema.walk?]
      rfl
    rw [resolve?, hwalk, readAt?, hv]
    rfl
  have hagree := agreesAt_of_resolve? hr (.inr ⟨_, hv⟩)
  exact ⟨hr, hv, hagree, hagree.found _ _ (.head _)⟩

end Document
end SchemaTypes
