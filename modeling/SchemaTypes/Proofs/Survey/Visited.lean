import SchemaTypes.Proofs.Survey.Closure

/-!
# The nodes that a survey visits

In the end, the nodes that a survey has visited are all nodes of the document
(`Survey.exists_visited_iff`), and the places with names are those of the nodes worth a declaration,
and the targets at which anything is found (`Survey.contains_complete_iff_visited`).
-/

namespace SchemaTypes
namespace Survey

open Document

variable {d : Document} {p q : Pointer} {s : Schema} {rootName : Option String}

/-- In the end, all targets of visited nodes have been dealt with. -/
theorem mem_settled_complete_iff :
    q ∈ (complete d rootName).settled ↔
      ∃ v ∈ visited d rootName, v.schema.internalReference? = some q := by
  have hrecorded := recorded_complete d rootName
  refine ⟨hrecorded.targets q, ?_⟩
  rintro ⟨v, hv, href⟩
  obtain ⟨ref, href, hq⟩ := Schema.internalReference?_eq_some_iff.1 href
  by_contra hnot
  have hmem := mem_pending_iff.2 ⟨⟨ref, (hrecorded.references ref).2 ⟨v, hv, href⟩, hq⟩, hnot⟩
  rw [pending_complete] at hmem
  cases hmem

/-- In the end, all nodes of the document have been visited, each of them at its place. -/
theorem exists_visited_iff :
    (∃ v ∈ visited d rootName, v.pointer = p ∧ v.schema = s) ↔ d.Surveyed p s := by
  have hrecorded := recorded_complete d rootName
  constructor
  · rintro ⟨v, hv, rfl, rfl⟩
    exact hrecorded.surveyed v hv
  · intro hs
    induction hs with
    | root =>
      exact ⟨_, List.mem_append_left _ (Visit.mem_visits_iff.2 (.inl rfl)), rfl, rfl⟩
    | child _ hc ih =>
      obtain ⟨v, hv, rfl, rfl⟩ := ih
      exact hrecorded.below v hv _ _ hc
    | target _ href hr ih =>
      obtain ⟨v, hv, -, rfl⟩ := ih
      exact hrecorded.outside _ _ (mem_settled_complete_iff.2 ⟨v, hv, href⟩) hr

/-- In the end, a place with a name is that of a node, or a target at which anything is found. -/
theorem surveyed_or_isTarget_of_contains (h : (complete d rootName).table.contains p = true) :
    (∃ s, d.Surveyed p s) ∨ d.IsTarget p ∧ ∃ found, d.resolve? p = some found := by
  have hrecorded := recorded_complete d rootName
  rcases (hrecorded.names p).1 h with ⟨v, hv, rfl, -⟩ | ⟨hsettled, hfound⟩
  · exact .inl ⟨v.schema, hrecorded.surveyed v hv⟩
  · obtain ⟨v, hv, href⟩ := hrecorded.targets p hsettled
    exact .inr ⟨⟨v.pointer, v.schema, hrecorded.surveyed v hv, href⟩,
      Option.isSome_iff_exists.1 hfound⟩

/-- The rounds of a survey end with no target left to deal with. By then it has visited exactly the
nodes of the document: the schema, what is found outside of it at a target of a visited node, and
all that these hold. A place has a name if and only if it is that of a visited node that is worth a
declaration and that there is a name for, or the target of a visited node and anything is found
there. -/
theorem contains_complete_iff_visited (d : Document) (rootName : Option String) :
    (complete d rootName).pending = [] ∧
    (∀ p s, (∃ v ∈ visited d rootName, v.pointer = p ∧ v.schema = s) ↔ d.Surveyed p s) ∧
    ∀ p, (complete d rootName).table.contains p = true ↔
      (∃ v ∈ visited d rootName, v.pointer = p ∧ v.name.isSome = true ∧
        v.earnsDeclaration = true) ∨
      (∃ v ∈ visited d rootName, v.schema.internalReference? = some p) ∧
        ∃ found, d.resolve? p = some found := by
  refine ⟨pending_complete d rootName, fun p s => exists_visited_iff, fun p => ?_⟩
  rw [(recorded_complete d rootName).names p, mem_settled_complete_iff,
    Option.isSome_iff_exists]
  rfl

end Survey
end SchemaTypes
