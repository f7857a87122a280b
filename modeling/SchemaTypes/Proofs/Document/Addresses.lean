import SchemaTypes.Proofs.Document.Surveyed
import SchemaTypes.Proofs.Schema.Slots

/-!
# Where nodes are found

What a schema holds is found at the places of its slots, if the schema itself is found in the schema
of the document (`Document.walk?_slot`) or in an object (`Document.exists_resolve?_slot`). A schema
that is written as a list outside of the schema of the document is different: it holds others as any
schema does, but no pointer leads from the list to them. So every node is found at its place, unless
the way to it goes through such a list (`Document.InsideList`), and then nothing is found there
(`Document.Surveyed.resolve?_eq_none_iff`).
-/

namespace SchemaTypes

namespace Schema

variable {s : Schema} {v : Json}

/-- What stands in a schema that was read from a value with distinct keys has distinct keys. -/
theorem keysDistinct_of_part {t : Schema} (hv : v.KeysDistinct) (h : read v = .ok s)
    (ht : t.Part s) : t.KeysDistinct := by
  induction ht generalizing v with
  | self => exact keysDistinct_of_read hv h
  | inside hc _ ih =>
    obtain ⟨w, hw, -, hread⟩ := exists_part_of_holds hv h hc
    exact ih (hw.keysDistinct hv) hread

/-- Where a value is a list, a walk that comes to no schema there does not go on by a keyword. -/
theorem walk?_append_keyword_eq_none {steps : List String} {elements : List Json}
    (hv : v.KeysDistinct) (hs : read v = .ok s) (hwalk : s.walk? steps = none)
    (hlist : v.follow? steps = some (.array elements)) (keyword : Keyword) (rest : List String) :
    s.walk? (steps ++ keyword.text :: rest) = none := by
  induction s, steps using walk?.induct generalizing v with
  | case1 s => cases hwalk
  | case2 s step =>
    cases hslot : s.slotOf step with
    | some slot =>
      rw [walk?_cons hslot] at hwalk
      cases hc : s.child? slot with
      | none => rw [List.singleton_append, walk?_cons hslot, hc, Option.bind_none]
      | some c => rw [hc] at hwalk; cases hwalk
    | none =>
      rw [List.singleton_append, walk?_cons_cons hslot]
      cases hpair : (slotOfPair step keyword.text).bind s.child? with
      | none => rfl
      | some c =>
        -- The walk would go on in an entry, but the list is no container of entries.
        obtain ⟨slot, hslot, hc⟩ := Option.bind_eq_some_iff.1 hpair
        obtain ⟨hstep, hinside⟩ := inside?_array_of_slotOfPair hslot elements
        obtain ⟨u, w, hu, hw, -⟩ := read_child hv hs (holds_of_child? hc)
        obtain ⟨x, hx, hend⟩ := Option.bind_eq_some_iff.1 hlist
        cases hend
        rw [← hstep] at hx
        rw [← eq_of_step?_keyword hv hu hx, hinside] at hw
        cases hw
  | case3 s step next steps slot hslot ih =>
    rw [walk?_cons hslot] at hwalk
    rw [List.cons_append, walk?_cons hslot]
    cases hc : s.child? slot with
    | none => rfl
    | some c =>
      rw [hc] at hwalk
      obtain ⟨w, -, hw, hread, hrest⟩ :=
        exists_read_of_follow?_append hv hs hc (spelledBy_of_slotOf hslot) hlist
      exact ih c hw hread hwalk hrest
  | case4 s step next steps hslot ih =>
    rw [walk?_cons_cons hslot] at hwalk
    rw [List.cons_append, List.cons_append, walk?_cons_cons hslot]
    cases hpair : (slotOfPair step next).bind s.child? with
    | none => rfl
    | some c =>
      rw [hpair] at hwalk
      obtain ⟨slot, hslot, hc⟩ := Option.bind_eq_some_iff.1 hpair
      obtain ⟨w, -, hw, hread, hrest⟩ :=
        exists_read_of_follow?_append hv hs hc (spelledBy_of_slotOfPair hslot) hlist
      exact ih c hw hread hwalk hrest

end Schema

namespace Document

variable {d : Document} {p q : Pointer} {s c : Schema} {slot : Slot} {v : Json}

/-! ## Slots of what is found -/

/-- What stands in what is found at a pointer has distinct keys. -/
theorem keysDistinct_of_part {found : Located} (h : d.resolve? p = some found)
    (ht : s.Part found.schema) : s.KeysDistinct := by
  obtain ⟨t, _ | _⟩ := found
  · obtain ⟨v, hv, hread⟩ := read_of_resolve? h
    exact Schema.keysDistinct_of_part ((Json.part_of_follow? hv).keysDistinct d.distinct) hread ht
  · have hpart := part_of_walk? (walk?_of_resolve? h)
    exact Schema.keysDistinct_of_part d.distinct d.reads (ht.trans hpart)

/-- What is found at a pointer has distinct keys. -/
theorem keysDistinct_of_resolve? {found : Located} (h : d.resolve? p = some found) :
    found.schema.KeysDistinct :=
  keysDistinct_of_part h (.self _)

/-- Where a pointer is followed to in the schema of the document, it is found. -/
theorem resolve?_of_walk? (h : d.walk? p = some s) : d.resolve? p = some ⟨s, true⟩ := by
  rw [resolve?, h]

/-- The whole document is found at its root. -/
theorem resolve?_root (d : Document) : d.resolve? .root = some ⟨d.root, true⟩ := by
  refine resolve?_of_walk? ?_
  rw [walk?, Pointer.segments_root, Schema.walk?]

/-- What is found outside of the schema of the document is not in it. -/
theorem walk?_eq_none_of_resolve? (h : d.resolve? p = some ⟨s, false⟩) : d.walk? p = none := by
  cases hwalk : d.walk? p with
  | none => rfl
  | some t => cases (resolve?_of_walk? hwalk).symm.trans h

/-- Where the value goes on to something that reads as a schema, that schema is found. -/
theorem exists_resolve?_of_follow? (hv : d.json.follow? p.segments = some v)
    (hread : Schema.read v = .ok s) : ∃ inSchema, d.resolve? p = some ⟨s, inSchema⟩ := by
  cases hwalk : d.walk? p with
  | some t =>
    have hagree := (Schema.walks_of_walk? hwalk).read_follow? d.distinct d.reads hv
    cases hread.symm.trans hagree
    exact ⟨true, resolve?_of_walk? hwalk⟩
  | none =>
    have hraw : d.readAt? p = some s := by
      rw [readAt?, hv, Option.bind_some, hread]
      rfl
    exact ⟨false, by rw [resolve?, hwalk, hraw]; rfl⟩

/-- What a schema in the schema of the document holds is in it, too, at the place of its slot. -/
theorem walk?_slot (h : d.walk? p = some s) (hc : s.Holds slot c) :
    d.walk? (p.slot slot) = some c := by
  have hkeys := keysDistinct_of_resolve? (resolve?_of_walk? h)
  rw [walk?, Pointer.segments_slot, Schema.walk?_append h, Schema.walk?_steps hkeys hc]

/-- What a schema that was read from an object holds is found at the place of its slot. -/
theorem exists_resolve?_slot {members : List (String × Json)}
    (hv : d.json.follow? p.segments = some (.object members))
    (hread : Schema.read (.object members) = .ok s) (hc : s.Holds slot c) :
    ∃ inSchema, d.resolve? (p.slot slot) = some ⟨c, inSchema⟩ := by
  have hkeys := (Json.part_of_follow? hv).keysDistinct d.distinct
  obtain ⟨w, hw, hread⟩ := Schema.exists_follow?_steps hkeys hread hc
  refine exists_resolve?_of_follow? ?_ hread
  rw [Pointer.segments_slot, Json.follow?_append, hv, Option.bind_some, hw]

/-! ## Inside of lists -/

/-- The pointer goes by a keyword into a list that is not in the schema of the document, as if the
list were an object. -/
def InsideList (d : Document) (p : Pointer) : Prop :=
  ∃ before keyword after elements, p.segments = before ++ Keyword.text keyword :: after ∧
    d.root.walk? before = none ∧ d.json.follow? before = some (.array elements)

/-- Nothing is found inside of such a list. -/
theorem InsideList.resolve?_eq_none (h : d.InsideList p) : d.resolve? p = none := by
  obtain ⟨before, keyword, after, elements, hp, hwalk, hlist⟩ := h
  have hnowalk : d.walk? p = none := by
    rw [walk?, hp]
    exact Schema.walk?_append_keyword_eq_none d.distinct d.reads hwalk hlist keyword after
  have hnoread : d.readAt? p = none := by
    rw [readAt?, hp, Json.follow?_append, hlist, Option.bind_some, Schema.follow?_keyword_array]
    rfl
  rw [resolve?, hnowalk, hnoread]
  rfl

/-- Further in, it is still inside of the list. -/
theorem InsideList.descend (h : d.InsideList p) (slot : Slot) : d.InsideList (p.slot slot) := by
  obtain ⟨before, keyword, after, elements, hp, hwalk, hlist⟩ := h
  refine ⟨before, keyword, after ++ slot.steps, elements, ?_, hwalk, hlist⟩
  rw [Pointer.segments_slot, hp, List.append_assoc, List.cons_append]

/-- A list that is found outside of the schema of the document has its slots inside. -/
theorem insideList_slot {elements : List Json} (hr : d.resolve? p = some ⟨s, false⟩)
    (hv : d.json.follow? p.segments = some (.array elements)) (slot : Slot) :
    d.InsideList (p.slot slot) := by
  obtain ⟨rest, hrest⟩ := Schema.exists_steps_eq slot
  refine ⟨p.segments, slot.keyword, rest, elements, ?_, walk?_eq_none_of_resolve? hr, hv⟩
  rw [Pointer.segments_slot, hrest]

/-- Every node is found at its place, or its place is inside of a list. -/
theorem Surveyed.exists_resolve?_or_insideList (h : Surveyed d p s) :
    (∃ inSchema, d.resolve? p = some ⟨s, inSchema⟩) ∨ d.InsideList p := by
  induction h with
  | root => exact .inl ⟨true, d.resolve?_root⟩
  | target _ _ hr _ => exact .inl ⟨false, hr⟩
  | @child p s c slot _ hc ih =>
    rcases ih with ⟨_ | _, hr⟩ | hinside
    · obtain ⟨v, hv, hread⟩ := read_of_resolve? hr
      cases v with
      | object members => exact .inl (exists_resolve?_slot hv hread hc)
      | array elements => exact .inr (insideList_slot hr hv slot)
      | _ => cases hread
    · exact .inl ⟨true, resolve?_of_walk? (walk?_slot (walk?_of_resolve? hr) hc)⟩
    · exact .inr (hinside.descend slot)

/-- Nothing is found at the place of a node if and only if it is inside of a list. -/
theorem Surveyed.resolve?_eq_none_iff (h : Surveyed d p s) :
    d.resolve? p = none ↔ d.InsideList p := by
  constructor
  · intro hnone
    refine h.exists_resolve?_or_insideList.resolve_left ?_
    rintro ⟨inSchema, hr⟩
    cases hnone.symm.trans hr
  · exact InsideList.resolve?_eq_none

end Document
end SchemaTypes
