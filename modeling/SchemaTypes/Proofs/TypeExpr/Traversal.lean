import SchemaTypes.Proofs.Document.Addresses
import SchemaTypes.Proofs.TypeExpr.Parts

/-!
# The sites of a traversal

While a type is built, the builder descends from slot to slot (`Builder.Descends`). The place of a
site is the slots on the way written one behind the other, so two descents that come to the same
place have gone the same way (`Builder.Descends.slots_eq`).
-/

namespace SchemaTypes
namespace Builder

variable {b : Builder} {steps left left' : Nat} {s t t' : Schema} {site site' site'' : BuildSite}
  {slots slots' : List Slot}

/-- While the type of a schema is built at a site, with so many steps left, the builder goes by the
slots, and comes to build another type at another site, with less steps left. -/
inductive Descends (b : Builder) :
    Nat → Schema → BuildSite → List Slot → Nat → Schema → BuildSite → Prop where
  | here {steps : Nat} {s : Schema} {site : BuildSite} : Descends b steps s site [] steps s site
  | part {steps left : Nat} {s c t : Schema} {site site' : BuildSite} {slot : Slot}
    {slots : List Slot} :
    b.Unnamed site → s.reference = none →
      Uses (fun slot c => b.build steps c (.part (site.place.slot slot))) s slot c →
      Descends b steps c (.part (site.place.slot slot)) slots left t site' →
      Descends b (steps + 1) s site (slot :: slots) left t site'

/-- The place that is come to is written by the slots on the way. -/
theorem Descends.segments_eq (h : b.Descends steps s site slots left t site') :
    site'.place.segments = site.place.segments ++ slots.flatMap Slot.steps := by
  induction h with
  | here => rw [List.flatMap_nil, List.append_nil]
  | @part _ _ _ _ _ site _ slot slots _ _ _ _ ih =>
    have hplace : (BuildSite.part (site.place.slot slot)).place = site.place.slot slot := rfl
    rw [ih, hplace, Pointer.segments_slot, List.flatMap_cons, List.append_assoc]

/-- Two descents that come to the same place have gone the same way. -/
theorem Descends.slots_eq (h : b.Descends steps s site slots left t site')
    (h' : b.Descends steps s site slots' left' t' site'')
    (hs : ∀ u : Schema, u.Part s → u.KeysDistinct) (heq : site'.place = site''.place) :
    slots = slots' := by
  have hsteps : slots.flatMap Slot.steps = slots'.flatMap Slot.steps := by
    have hsegments := h.segments_eq
    rw [heq, h'.segments_eq] at hsegments
    exact (List.append_cancel_left hsegments).symm
  clear heq
  induction h generalizing slots' with
  | here =>
    cases h' with
    | here => rfl
    | @part _ _ _ _ _ _ _ slot =>
      obtain ⟨rest, hrest⟩ := Schema.exists_steps_eq slot
      rw [List.flatMap_cons, hrest] at hsteps
      cases hsteps
  | @part _ _ _ _ _ _ _ slot _ _ _ hused _ ih =>
    rw [List.flatMap_cons] at hsteps
    cases h' with
    | here =>
      obtain ⟨rest, hrest⟩ := Schema.exists_steps_eq slot
      rw [hrest] at hsteps
      cases hsteps
    | part _ _ hused' h' =>
      rw [List.flatMap_cons] at hsteps
      obtain rfl := Schema.eq_of_steps_append hused.holds hused'.holds hsteps
      -- The slot holds only one schema.
      have hc := Schema.child?_of_holds (hs _ (.self _)) hused.holds
      obtain rfl := Option.some.inj (hc.symm.trans
        (Schema.child?_of_holds (hs _ (.self _)) hused'.holds))
      rw [ih h' (fun u hu => hs u (.inside hused.holds hu)) (List.append_cancel_left hsteps)]

end Builder
end SchemaTypes
