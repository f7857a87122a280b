import SchemaTypes.Proofs.Document.Addresses
import SchemaTypes.Proofs.Survey.Visits

/-!
# The pointers of a traversal

A traversal goes from a node to what it holds, and hands on the pointer of the slot each time
(`Visit.visits_eq`). No two slots of a node share an address, and everything below a node stands
behind its address, so no pointer is visited twice (`Visit.nodup_map_pointer_visits`).
-/

namespace SchemaTypes

namespace Visit

variable {s : Schema} {p : Pointer} {suggested : String} {role : Role} {v : Visit}

/-- The visits of a node are its own and, for each slot that is filled, those of what the slot
holds at the pointer of the slot. -/
theorem visits_eq (s : Schema) (p : Pointer) (suggested : String) (role : Role) :
    visits s p suggested role = ⟨p, s, role, nameOf s suggested role⟩ ::
      s.children.flatMap fun (slot, c) =>
        visits c (p.slot slot) (suggestion (nameOf s suggested role) slot c) (roleIn slot) := by
  rw [visits]
  conv_rhs => rw [← List.attach_map_subtype_val s.children, List.flatMap_map]

/-- What is visited from a node on stands behind its pointer. -/
theorem exists_segments_eq_append {s : Schema} {p : Pointer} {suggested : String} {role : Role}
    (hv : v ∈ visits s p suggested role) :
    ∃ rest, v.pointer.segments = p.segments ++ rest := by
  rcases mem_visits_iff.1 hv with rfl | ⟨slot, c, hc, hv⟩
  · exact ⟨[], (List.append_nil _).symm⟩
  · have hlt := Schema.sizeOf_lt_of_mem_children (Schema.mem_children_iff.2 hc)
    obtain ⟨rest, hrest⟩ := exists_segments_eq_append hv
    refine ⟨slot.steps ++ rest, ?_⟩
    rw [hrest, Pointer.segments_slot, List.append_assoc]
termination_by sizeOf s

/-- No pointer is visited twice. -/
theorem nodup_map_pointer_visits (s : Schema) (p : Pointer) (suggested : String) (role : Role)
    (hs : ∀ t : Schema, t.Part s → t.KeysDistinct) :
    ((visits s p suggested role).map (·.pointer)).Nodup := by
  -- What is visited from a slot on stands behind the steps of the slot.
  have hbehind {slot : Slot} {c : Schema} {suggested : String} {role : Role} {q : Pointer}
      (hq : q ∈ (visits c (p.slot slot) suggested role).map (·.pointer)) :
      ∃ rest, q.segments = p.segments ++ (slot.steps ++ rest) := by
    obtain ⟨v, hv, rfl⟩ := List.mem_map.1 hq
    obtain ⟨rest, hrest⟩ := exists_segments_eq_append hv
    refine ⟨rest, ?_⟩
    rw [hrest, Pointer.segments_slot, List.append_assoc]
  have hslots := Schema.nodup_map_fst_children (hs s (.self s))
  rw [visits_eq, List.map_cons, List.map_flatMap, List.nodup_cons, List.nodup_flatMap]
  refine ⟨?_, ?_, ?_⟩
  · intro hp
    obtain ⟨⟨slot, c⟩, -, hp⟩ := List.mem_flatMap.1 hp
    obtain ⟨rest, hrest⟩ := hbehind hp
    obtain ⟨more, hmore⟩ := Schema.exists_steps_eq slot
    rw [hmore] at hrest
    exact absurd (List.self_eq_append_right.1 hrest) (List.cons_ne_nil _ _)
  · intro ⟨slot, c⟩ hc
    have hlt := Schema.sizeOf_lt_of_mem_children hc
    exact nodup_map_pointer_visits c _ _ _ fun t ht =>
      hs t (.inside (Schema.mem_children_iff.1 hc) ht)
  · refine (List.pairwise_map.1 hslots).imp_of_mem ?_
    intro ⟨slot, c⟩ ⟨slot', c'⟩ hmem hmem' hne q hq hq'
    obtain ⟨rest, hrest⟩ := hbehind hq
    obtain ⟨rest', hrest'⟩ := hbehind hq'
    have heq := List.append_cancel_left (hrest.symm.trans hrest')
    exact hne (Schema.eq_of_steps_append (Schema.mem_children_iff.1 hmem)
      (Schema.mem_children_iff.1 hmem') heq)
termination_by sizeOf s

end Visit
end SchemaTypes
