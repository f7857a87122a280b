import SchemaTypes.Proofs.Survey.Agreement
import SchemaTypes.Proofs.Survey.Traversal

/-!
# Documents of one name

A survey is not changed by a visit to a node that is worth no declaration and refers to nothing. If
that is so of all nodes below the root, only the whole document gets a name
(`Survey.names_of_forall`).
-/

namespace SchemaTypes
namespace Survey

variable {d : Document} {survey : Survey} {rootName : Option String} {name : String}

/-- Nothing is to be recorded of a node that is worth no declaration and refers to nothing. -/
def Unnoted (v : Visit) : Prop :=
  v.earnsDeclaration = false ∧ v.schema.reference = none

/-- A visit of which nothing is to be recorded changes no survey. -/
theorem record_eq_self {v : Visit} (h : Unnoted v) : survey.record v = survey := by
  obtain ⟨hearns, href⟩ := h
  obtain ⟨p, s, role, name⟩ := v
  cases name <;> simp_all [record]

/-- Nor do several of them. -/
theorem foldl_record_eq_self {visits : List Visit} (h : ∀ v ∈ visits, Unnoted v) :
    visits.foldl record survey = survey := by
  induction visits with
  | nil => rfl
  | cons v visits ih =>
    obtain ⟨hv, hvisits⟩ := List.forall_mem_cons.1 h
    rw [List.foldl_cons, record_eq_self hv, ih hvisits]

/-- Nothing is to be recorded of a node in a type that has no parts, no title and no reference. -/
theorem unnoted_of_children_eq_nil {s : Schema} (hs : s.children = []) (htitle : s.title = none)
    (href : s.reference = none) (p : Pointer) (suggested : String) :
    ∀ v ∈ Visit.visits s p suggested .inner, Unnoted v := by
  have hproperties : s.properties.any (!·.isEmpty) = false := by
    cases hprops : s.properties with
    | none => rfl
    | some entries =>
      cases entries with
      | nil => rfl
      | cons entry rest =>
        have hmem : (.property entry.1, entry.2) ∈ s.children :=
          Schema.mem_children_iff.2 ⟨_, hprops, .head _⟩
        rw [hs] at hmem
        cases hmem
  rw [Visit.visits_eq, hs, List.flatMap_nil, List.forall_mem_singleton]
  exact ⟨by simp [Visit.earnsDeclaration, hproperties, htitle], href⟩

/-- If nothing is to be recorded but the name of the whole document, that is the only one. -/
theorem names_of_forall
    (hname : Visit.nameOf d.root ((rootName.map Identifier.normalize).getD "") .document =
      some name)
    (href : d.root.reference = none)
    (hrest : ∀ slot c, (slot, c) ∈ d.root.children → ∀ v ∈ Visit.visits c (Pointer.root.slot slot)
      (Visit.suggestion (some name) slot c) (Visit.roleIn slot), Unnoted v) :
    names d rootName = ⟨[(.root, ⟨name, name⟩)], [(name, 1)], [name]⟩ := by
  obtain ⟨table, htable⟩ : ∃ table : NameTable,
      table = ⟨[(.root, ⟨name, name⟩)], [(name, 1)], [name]⟩ := ⟨_, rfl⟩
  have hfirst : record {} ⟨.root, d.root, .document, some name⟩ = ⟨table, [], []⟩ := by
    simp only [record, href, htable]
    rfl
  have hschema : ofSchema d rootName = ⟨table, [], []⟩ := by
    rw [ofSchema, visitAll, Visit.visits_eq, hname, List.foldl_cons, hfirst]
    refine foldl_record_eq_self fun v hv => ?_
    obtain ⟨⟨slot, c⟩, hc, hv⟩ := List.mem_flatMap.1 hv
    exact hrest slot c hc v hv
  have hpointers : table.pointers = [.root] := by
    rw [htable]
    rfl
  have hbare : d.root.isReference = false := by simp [Schema.isReference, href]
  rw [← htable]
  refine names_eq_of_forall hschema (by simp) ?_
  rw [hpointers, List.forall_mem_singleton]
  simp [isRedundant, Document.next?, d.resolve?_root, hbare]

end Survey
end SchemaTypes
