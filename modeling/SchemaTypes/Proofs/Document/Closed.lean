import SchemaTypes.Proofs.Document.Addresses

/-!
# Documents that refer to their schema only

If every reference inside of the document that stands in its schema leads to a part of the schema,
nothing outside of the schema is ever found: the place of each node is in the schema
(`Document.Closed.walk?_of_surveyed`), and so are the targets of nodes and all places that bare
references lead on to. There, another document with the same schema has the same to find
(`Document.resolve?_congr`).
-/

namespace SchemaTypes
namespace Document

variable {d d' : Document} {p q : Pointer} {s : Schema}

/-- The references inside of the document that stand in its schema lead to parts of it. -/
def Closed (d : Document) : Prop :=
  ∀ (s : Schema) q, s.Part d.root → s.internalReference? = some q → ∃ t, d.walk? q = some t

/-! ## What is found -/

/-- Two documents with one schema are followed to the same parts of it. -/
theorem walk?_congr (hroot : d.root = d'.root) (p : Pointer) : d.walk? p = d'.walk? p := by
  rw [walk?, walk?, hroot]

/-- Two documents with one schema have the same to find at a pointer that is followed in it. -/
theorem resolve?_congr (hroot : d.root = d'.root) (h : d.walk? p = some s) :
    d.resolve? p = d'.resolve? p := by
  have h' : d'.walk? p = some s := walk?_congr hroot p ▸ h
  rw [resolve?_of_walk? h, resolve?_of_walk? h']

/-- From a pointer that is followed in their schema, two documents with one schema lead on to the
same place. -/
theorem next?_congr (hroot : d.root = d'.root) (h : d.walk? p = some s) :
    d.next? p = d'.next? p := by
  rw [next?, next?, resolve?_congr hroot h]

/-! ## Where everything is found -/

/-- The place of a node is in the schema. -/
theorem Closed.walk?_of_surveyed (h : d.Closed) (hs : d.Surveyed p s) : d.walk? p = some s := by
  induction hs with
  | root => rw [walk?, Pointer.segments_root, Schema.walk?]
  | child _ hc ih => exact walk?_slot ih hc
  | @target p q s t _ href hr ih =>
    obtain ⟨u, hu⟩ := h s q (part_of_walk? ih) href
    cases (resolve?_of_walk? hu).symm.trans hr

/-- The target of a node is in the schema. -/
theorem Closed.exists_walk?_of_isTarget (h : d.Closed) (hq : d.IsTarget q) :
    ∃ t, d.walk? q = some t := by
  obtain ⟨p, s, hs, href⟩ := hq
  exact h s q (part_of_walk? (h.walk?_of_surveyed hs)) href

/-- From a place in the schema, bare references lead on to places in the schema. -/
theorem Closed.exists_walk?_of_next? (h : d.Closed) (hp : d.walk? p = some s)
    (hnext : d.next? p = some q) : ∃ t, d.walk? q = some t := by
  obtain ⟨found, hr, -, href⟩ := next?_eq_some_iff.1 hnext
  cases (resolve?_of_walk? hp).symm.trans hr
  exact h s q (part_of_walk? hp) href

end Document
end SchemaTypes
