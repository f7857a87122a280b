import Mathlib.Data.List.Chain
import SchemaTypes.Proofs.Document.Addresses

/-!
# The position of a pointer

A walk along a pointer goes through slots of the schema (`Document.position?`). Several pointers can
have one position, for a step can be written in several ways: a tilde of a key with or without its
escape, a position in a list with a plus sign or with zeros in front. `Document.Plain` tells the
pointer that is written as a place is when its slots are gone through one by one, so that no two
plain pointers have one position (`Document.Plain.eq`).

A pointer that the value of the document is followed along goes through lists by positions without
sign and zeros only (`Schema.Passes.flatMap_steps_of_follow?`). Where such a pointer is plain, so is
what is written behind it slot by slot (`Document.Plain.within`), although a walk need not take
these steps for the slots that they were written for.
-/

namespace SchemaTypes

namespace Schema

variable {s t c : Schema} {v w : Json} {slot : Slot} {slots : List Slot} {steps : List String}

/-! ## The slots of a walk -/

/-- The slots that a walk goes through, if each step stays among slots. -/
def slots? (s : Schema) : List String → Option (List Slot)
  | [] => some []
  | [step] =>
    (s.slotOf step).bind fun slot => (s.child? slot).map fun _ => [slot]
  | step :: next :: rest =>
    match s.slotOf step with
    | some slot => (s.child? slot).bind fun c => (c.slots? (next :: rest)).map (slot :: ·)
    | none =>
      (slotOfPair step next).bind fun slot =>
        (s.child? slot).bind fun c => (c.slots? rest).map (slot :: ·)

/-- The schema that is held in one slot after the other. -/
def descendant? (s : Schema) : List Slot → Option Schema
  | [] => some s
  | slot :: rest => (s.child? slot).bind (descendant? · rest)

/-- A walk whose first step names a slot goes through it. -/
theorem slots?_cons {step : String} (hslot : s.slotOf step = some slot) (rest : List String) :
    s.slots? (step :: rest) =
      (s.child? slot).bind fun c => (c.slots? rest).map (slot :: ·) := by
  cases rest with
  | nil => cases h : s.child? slot <;> simp [slots?, hslot, h]
  | cons next rest => rw [slots?, hslot]

/-- A walk whose first two steps name a slot only together goes through it. -/
theorem slots?_cons_cons {step : String} (hslot : s.slotOf step = none) (next : String)
    (rest : List String) :
    s.slots? (step :: next :: rest) = (slotOfPair step next).bind fun slot =>
      (s.child? slot).bind fun c => (c.slots? rest).map (slot :: ·) := by
  rw [slots?, hslot]

/-- A walk along some steps goes through slots, each named by one step or by two. -/
inductive Passes : Schema → List String → List Slot → Prop where
  | nil {s : Schema} : Passes s [] []
  | one {s c : Schema} {step : String} {slot : Slot} {rest : List String} {slots : List Slot} :
    s.slotOf step = some slot → s.child? slot = some c → Passes c rest slots →
      Passes s (step :: rest) (slot :: slots)
  | two {s c : Schema} {step next : String} {slot : Slot} {rest : List String}
    {slots : List Slot} :
    s.slotOf step = none → slotOfPair step next = some slot → s.child? slot = some c →
      Passes c rest slots → Passes s (step :: next :: rest) (slot :: slots)

/-- The slots of a walk are those that it goes through. -/
theorem passes_of_slots? (h : s.slots? steps = some slots) : s.Passes steps slots := by
  induction s, steps using walk?.induct generalizing slots with
  | case1 s =>
    cases h
    exact .nil
  | case2 s step =>
    obtain ⟨slot, hslot, hheld⟩ := Option.bind_eq_some_iff.1 h
    obtain ⟨c, hc, rfl⟩ := Option.map_eq_some_iff.1 hheld
    exact .one hslot hc .nil
  | case3 s step next rest slot hslot ih =>
    rw [slots?_cons hslot] at h
    obtain ⟨c, hc, hrest⟩ := Option.bind_eq_some_iff.1 h
    obtain ⟨more, hmore, rfl⟩ := Option.map_eq_some_iff.1 hrest
    exact .one hslot hc (ih c hmore)
  | case4 s step next rest hslot ih =>
    rw [slots?_cons_cons hslot] at h
    obtain ⟨slot, hpair, h⟩ := Option.bind_eq_some_iff.1 h
    obtain ⟨c, hc, hrest⟩ := Option.bind_eq_some_iff.1 h
    obtain ⟨more, hmore, rfl⟩ := Option.map_eq_some_iff.1 hrest
    exact .two hslot hpair hc (ih c hmore)

/-- A walk leads to what is held in the slots that it goes through. -/
theorem walk?_eq_bind_slots? (s : Schema) (steps : List String) :
    s.walk? steps = (s.slots? steps).bind s.descendant? := by
  induction s, steps using walk?.induct with
  | case1 s => rfl
  | case2 s step =>
    rw [walk?, slots?]
    cases s.slotOf step with
    | none => rfl
    | some slot => cases hc : s.child? slot <;> simp [descendant?, hc]
  | case3 s step next rest slot hslot ih =>
    rw [walk?_cons hslot, slots?_cons hslot]
    cases hc : s.child? slot with
    | none => rfl
    | some c => cases hrest : c.slots? (next :: rest) <;> simp [ih c, hrest, descendant?, hc]
  | case4 s step next rest hslot ih =>
    rw [walk?_cons_cons hslot, slots?_cons_cons hslot]
    cases slotOfPair step next with
    | none => rfl
    | some slot =>
      cases hc : s.child? slot with
      | none => simp [hc]
      | some c => cases hrest : c.slots? rest <;> simp [ih c, hrest, descendant?, hc]

/-- A walk by the steps of a slot that is filled goes through it. -/
theorem slots?_steps_append (hc : s.child? slot = some c) (rest : List String) :
    s.slots? (slot.steps ++ rest) = (c.slots? rest).map (slot :: ·) := by
  rcases steps_of_holds (holds_of_child? hc) with
    ⟨step, hsteps, hslot⟩ | ⟨head, next, hsteps, hnone, hpair⟩
  · rw [hsteps, List.singleton_append, slots?_cons hslot, hc]
    rfl
  · rw [hsteps]
    show s.slots? (head :: next :: rest) = _
    rw [slots?_cons_cons hnone, hpair, Option.bind_some, hc]
    rfl

/-- A walk by the steps of the slots that another one goes through goes through the same. -/
theorem Passes.slots?_flatMap_steps (h : s.Passes steps slots) :
    s.slots? (slots.flatMap Slot.steps) = some slots := by
  induction h with
  | nil => rfl
  | one _ hc _ ih | two _ _ hc _ ih =>
    rw [List.flatMap_cons, slots?_steps_append hc, ih]
    rfl

/-- The slots that a walk goes through hold something. -/
theorem Passes.exists_descendant? (h : s.Passes steps slots) :
    ∃ t, s.descendant? slots = some t := by
  induction h with
  | @nil s => exact ⟨s, rfl⟩
  | one _ hc _ ih | two _ _ hc _ ih =>
    obtain ⟨t, ht⟩ := ih
    exact ⟨t, by rw [descendant?, hc, Option.bind_some, ht]⟩

/-! ## Steps that are read back -/

/-- If two steps name a slot, they are those that it is written by. -/
def ReadsBack (head next : String) : Prop :=
  ∀ slot, slotOfPair head next = some slot → slot.steps = [head, next]

/-- The steps that a slot is written by are read back. -/
theorem readsBack_of_steps {head next : String} (h : slot.steps = [head, next]) :
    ReadsBack head next := by
  intro slot' hslot'
  cases (slotOfPair_of_steps h).symm.trans hslot'
  exact h

/-- A keyword is read back behind any step, because it is the key of an entry there. -/
theorem readsBack_keyword (head : String) (keyword : Keyword) : ReadsBack head keyword.text := by
  intro slot hslot
  have hindex : Step.index? keyword.text = none := by cases keyword <;> decide
  have hspelled := spelledBy_of_slotOfPair hslot
  cases hspelled with
  | definition | defs | property => rfl
  | itemAt hi | oneOf hi | anyOf hi | allOf hi => cases hindex.symm.trans hi

/-- The steps of slots are read back, also behind another step and across the slots. -/
theorem isChain_readsBack (head : String) (slots : List Slot) :
    (head :: slots.flatMap Slot.steps).IsChain ReadsBack := by
  induction slots generalizing head with
  | nil => exact List.isChain_singleton head
  | cons slot rest ih =>
    obtain ⟨more, hsteps⟩ := exists_steps_eq slot
    have hfirst := readsBack_keyword head slot.keyword
    rw [List.flatMap_cons, hsteps, List.cons_append, List.isChain_cons_cons]
    refine ⟨hfirst, ?_⟩
    cases more with
    | nil => exact ih slot.keyword.text
    | cons next more =>
      have hmore : more = [] := by cases slot <;> cases hsteps <;> rfl
      subst hmore
      exact List.isChain_cons_cons.2 ⟨readsBack_of_steps hsteps, ih next⟩

/-- A single step that names a slot is the one that it is written by. -/
theorem steps_of_slotOf {step : String} (h : s.slotOf step = some slot) : slot.steps = [step] := by
  unfold slotOf at h
  split at h
  · cases h; rfl
  · cases h; rfl
  · cases h

/-- A walk along steps that are read back goes through the slots that write them. -/
theorem Passes.flatMap_steps (h : s.Passes steps slots) (hchain : steps.IsChain ReadsBack) :
    slots.flatMap Slot.steps = steps := by
  induction h with
  | nil => rfl
  | one hslot _ _ ih =>
    rw [List.flatMap_cons, steps_of_slotOf hslot, ih hchain.tail]
    rfl
  | two _ hpair _ _ ih =>
    have hfirst := (List.isChain_cons_cons.1 hchain).1
    rw [List.flatMap_cons, hfirst _ hpair, ih hchain.tail.tail]
    rfl

/-! ## Steps into a value -/

/-- Steps that lead into a slot, both of a schema and of the value that it was read from, are those
that the slot is written by. -/
theorem steps_of_follow? (hv : v.KeysDistinct) (h : read v = .ok s) (hc : s.Holds slot c)
    (hsteps : slot.SpelledBy steps) (hw : v.follow? steps = some w) : slot.steps = steps := by
  obtain ⟨u, x, hu, hx, -⟩ := read_child hv h hc
  -- The elements of a list are found by positions without sign and zeros only.
  have hstrict {keyword : Keyword} {step : String} {i : Nat} (hu : (keyword, u) ∈ v.assigned)
      (hx : u.element? i = some x) (hi : Step.index? step = some i)
      (hw : v.follow? [keyword.text, step] = some w) : toString i = step := by
    obtain ⟨y, hy, hw⟩ := Option.bind_eq_some_iff.1 hw
    rw [eq_of_step?_keyword hv hu hy] at hw
    obtain ⟨z, hz, -⟩ := Option.bind_eq_some_iff.1 hw
    cases u with
    | array elements =>
      obtain ⟨j, hj, -⟩ := Option.bind_eq_some_iff.1 hz
      cases (Step.index?_of_strictIndex? hj).symm.trans hi
      exact Step.toString_of_strictIndex? hj
    | _ => cases hx
  cases hsteps with
  | definition | defs | property | item | otherProperties => rfl
  | itemAt hi | oneOf hi | anyOf hi | allOf hi => rw [← hstrict hu hx hi hw]; rfl

/-- A walk goes through the slots that write its steps, if the value is followed along some of them
and the others are steps of slots. -/
theorem Passes.flatMap_steps_of_follow? {all : List String} {below : List Slot}
    (h : s.Passes all slots) (hall : steps ++ below.flatMap Slot.steps = all)
    (hv : v.KeysDistinct) (hs : read v = .ok s) (hw : v.follow? steps = some w) :
    slots.flatMap Slot.steps = all := by
  induction h generalizing v steps with
  | nil => rfl
  | one hslot hc hrest ih =>
    cases steps with
    | nil =>
      exact (Passes.one hslot hc hrest).flatMap_steps (hall ▸ (isChain_readsBack "" below).tail)
    | cons _ steps =>
      cases hall
      have hspelled := spelledBy_of_slotOf hslot
      obtain ⟨u, hfollow, hu, hread, hrest⟩ := exists_read_of_follow?_append hv hs hc hspelled hw
      have hfirst := steps_of_follow? hv hs (holds_of_child? hc) hspelled hfollow
      rw [List.flatMap_cons, hfirst, ih rfl hu hread hrest]
      rfl
  | two hslot hpair hc hrest ih =>
    match steps, hall with
    | [], hall =>
      exact (Passes.two hslot hpair hc hrest).flatMap_steps
        (hall ▸ (isChain_readsBack "" below).tail)
    | [first], hall =>
      exact (Passes.two hslot hpair hc hrest).flatMap_steps (hall ▸ isChain_readsBack first below)
    | _ :: _ :: steps, hall =>
      cases hall
      have hspelled := spelledBy_of_slotOfPair hpair
      obtain ⟨u, hfollow, hu, hread, hrest⟩ := exists_read_of_follow?_append hv hs hc hspelled hw
      have hfirst := steps_of_follow? hv hs (holds_of_child? hc) hspelled hfollow
      rw [List.flatMap_cons, hfirst, ih rfl hu hread hrest]
      rfl

end Schema

/-! ## Places slot by slot -/

namespace Pointer

/-- The place that some slots further in lead to. -/
def within (p : Pointer) (below : List Slot) : Pointer :=
  below.foldl slot p

/-- One slot further in. -/
theorem within_concat (p : Pointer) (below : List Slot) (slot : Slot) :
    p.within (below ++ [slot]) = (p.within below).slot slot :=
  List.foldl_concat ..

/-- Some slots further in is where their steps lead. -/
theorem within_eq_descend (p : Pointer) (below : List Slot) :
    p.within below = p.descend (below.flatMap Slot.steps) := by
  induction below generalizing p with
  | nil => rfl
  | cons slot rest ih =>
    show (p.slot slot).within rest = _
    rw [ih, List.flatMap_cons]
    exact (List.foldl_append ..).symm

/-- Some slots further in there are their steps more. -/
theorem segments_within (p : Pointer) (below : List Slot) :
    (p.within below).segments = p.segments ++ below.flatMap Slot.steps := by
  rw [within_eq_descend, segments_descend]

end Pointer

namespace Document

variable {d : Document} {p q : Pointer} {slots : List Slot}

/-- The slots that a pointer leads through in the schema of the document. -/
def position? (d : Document) (p : Pointer) : Option (List Slot) :=
  d.root.slots? p.segments

/-- Where a pointer is followed to is what its position holds. -/
theorem walk?_eq_bind_position? (d : Document) (p : Pointer) :
    d.walk? p = (d.position? p).bind d.root.descendant? :=
  Schema.walk?_eq_bind_slots? d.root p.segments

/-- A pointer that has a position is followed to something. -/
theorem exists_walk?_of_position? (h : d.position? p = some slots) : ∃ t, d.walk? p = some t := by
  rw [walk?_eq_bind_position?, h]
  exact (Schema.passes_of_slots? h).exists_descendant?

/-- Pointers of the same position are followed to the same. -/
theorem walk?_eq_of_position?_eq (h : d.position? p = d.position? q) : d.walk? p = d.walk? q := by
  rw [walk?_eq_bind_position?, walk?_eq_bind_position?, h]

/-- The pointer is written as its steps are one by one, and if it leads through slots, these are its
steps. -/
structure Plain (d : Document) (p : Pointer) : Prop where
  text : Pointer.root.descend p.segments = p
  steps : ∀ slots, d.position? p = some slots → slots.flatMap Slot.steps = p.segments

/-- No two plain pointers have the same position. -/
theorem Plain.eq (hp : d.Plain p) (hq : d.Plain q) (hslots : d.position? p = some slots)
    (hslots' : d.position? q = some slots) : p = q :=
  calc p
    _ = Pointer.root.descend p.segments := hp.text.symm
    _ = Pointer.root.descend (slots.flatMap Slot.steps) := by rw [hp.steps slots hslots]
    _ = Pointer.root.descend q.segments := by rw [hq.steps slots hslots']
    _ = q := hq.text

/-- The place that slots lead to from the document on is plain. -/
theorem plain_within (d : Document) (below : List Slot) : d.Plain (Pointer.root.within below) := by
  have hsegments : (Pointer.root.within below).segments = below.flatMap Slot.steps := by
    rw [Pointer.segments_within, Pointer.segments_root, List.nil_append]
  constructor
  case text => rw [hsegments, Pointer.within_eq_descend]
  case steps =>
    intro slots hslots
    rw [position?, hsegments] at hslots
    rw [hsegments]
    exact (Schema.passes_of_slots? hslots).flatMap_steps (Schema.isChain_readsBack "" below).tail

/-- The place that slots lead to from a plain pointer on is plain, if the value is followed along
the pointer. -/
theorem Plain.within {v : Json} (h : d.Plain p) (hv : d.json.follow? p.segments = some v)
    (below : List Slot) : d.Plain (p.within below) := by
  have hsegments := Pointer.segments_within p below
  constructor
  case text =>
    rw [hsegments, Pointer.within_eq_descend]
    nth_rewrite 2 [← h.text]
    exact List.foldl_append ..
  case steps =>
    intro slots hslots
    rw [position?, hsegments] at hslots
    rw [hsegments]
    exact (Schema.passes_of_slots? hslots).flatMap_steps_of_follow? rfl d.distinct d.reads hv

/-- The slots that a pointer leads through lead to a place of the same position. -/
theorem position?_within (h : d.position? p = some slots) :
    d.position? (Pointer.root.within slots) = some slots := by
  rw [position?, Pointer.segments_within, Pointer.segments_root, List.nil_append]
  exact (Schema.passes_of_slots? h).slots?_flatMap_steps

end Document
end SchemaTypes
