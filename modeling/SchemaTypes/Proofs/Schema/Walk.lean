import SchemaTypes.Document
import SchemaTypes.Proofs.Pointer.Segments
import SchemaTypes.Proofs.Schema.Reading

/-!
# The two ways to follow a pointer

A pointer is followed from slot to slot of a schema, or from key to key of the value that the schema
was read from. A step between slots is a step between values (`Schema.read_follow_child`): one slot
at a time, looking into the value of its keyword is what following its steps does. So both ways lead
to the same schema wherever they both lead somewhere (`Document.read_eq_of_walk_of_follow`).
-/

namespace SchemaTypes

/-! ## The steps that lead into a slot -/

/-- The steps lead from a schema to what it holds in a slot. A position may have a plus sign or
zeros in front. -/
inductive Slot.SpelledBy : Slot → List String → Prop where
  | definition (key : String) : SpelledBy (.definition key) ["definitions", key]
  | defs (key : String) : SpelledBy (.defs key) ["$defs", key]
  | property (key : String) : SpelledBy (.property key) ["properties", key]
  | item : SpelledBy .item ["items"]
  | itemAt {i : Nat} {step : String} :
    Step.index? step = some i → SpelledBy (.itemAt i) ["items", step]
  | otherProperties : SpelledBy .otherProperties ["additionalProperties"]
  | oneOf {i : Nat} {step : String} :
    Step.index? step = some i → SpelledBy (.oneOf i) ["oneOf", step]
  | anyOf {i : Nat} {step : String} :
    Step.index? step = some i → SpelledBy (.anyOf i) ["anyOf", step]
  | allOf {i : Nat} {step : String} :
    Step.index? step = some i → SpelledBy (.allOf i) ["allOf", step]

/-- The steps that a slot is written by lead into it. -/
theorem Slot.spelledBy_steps (slot : Slot) : slot.SpelledBy slot.steps := by
  cases slot with
  | definition key => exact .definition key
  | defs key => exact .defs key
  | property key => exact .property key
  | item => exact .item
  | itemAt i => exact .itemAt (Step.index?_toString i)
  | otherProperties => exact .otherProperties
  | oneOf i => exact .oneOf (Step.index?_toString i)
  | anyOf i => exact .anyOf (Step.index?_toString i)
  | allOf i => exact .allOf (Step.index?_toString i)

/-- A keyword that is recognised is written so. -/
theorem Keyword.text_of_ofText? {key : String} {keyword : Keyword}
    (h : Keyword.ofText? key = some keyword) : keyword.text = key := by
  simpa using List.find?_some h

namespace Schema

/-- The single step that names a slot leads into it. -/
theorem spelledBy_of_slotOf {s : Schema} {step : String} {slot : Slot}
    (h : s.slotOf step = some slot) : slot.SpelledBy [step] := by
  unfold slotOf at h
  split at h
  · cases h; exact .otherProperties
  · cases h; exact .item
  · cases h

/-- The two steps that name a slot lead into it. -/
theorem spelledBy_of_slotOfPair {head next : String} {slot : Slot}
    (h : slotOfPair head next = some slot) : slot.SpelledBy [head, next] := by
  unfold slotOfPair at h
  split at h
  · cases h; exact .definition next
  · cases h; exact .defs next
  · cases h; exact .property next
  · obtain ⟨i, hi, rfl⟩ := Option.map_eq_some_iff.1 h; exact .itemAt hi
  · obtain ⟨i, hi, rfl⟩ := Option.map_eq_some_iff.1 h; exact .oneOf hi
  · obtain ⟨i, hi, rfl⟩ := Option.map_eq_some_iff.1 h; exact .anyOf hi
  · obtain ⟨i, hi, rfl⟩ := Option.map_eq_some_iff.1 h; exact .allOf hi
  · cases h

/-! ## Looking into a value -/

/-- No keyword is a position, so a list has nothing under it. -/
theorem strictIndex?_keyword (keyword : Keyword) : Step.strictIndex? keyword.text = none := by
  cases keyword <;> decide

/-- A step by a keyword leads to the value that the keyword is given. -/
theorem eq_of_step?_keyword {v u w : Json} {keyword : Keyword} (hv : v.KeysDistinct)
    (hu : (keyword, u) ∈ v.assigned) (hw : v.step? keyword.text = some w) : w = u := by
  cases v with
  | object members =>
    obtain ⟨⟨key, x⟩, hmem, hkey⟩ := List.mem_filterMap.1 hu
    obtain ⟨_, htext, heq⟩ := Option.map_eq_some_iff.1 hkey
    cases heq
    have hlookup := lookup_of_mem hv.1 hmem
    rw [← Keyword.text_of_ofText? htext] at hlookup
    exact Option.some.inj (hw.symm.trans hlookup)
  | array elements =>
    rw [Json.step?, strictIndex?_keyword] at hw
    cases hw
  | _ => cases hw

/-- A step by a key leads to the member of that key. -/
theorem eq_of_step?_member {u w x : Json} {key : String} (hx : u.member? key = some x)
    (hw : u.step? key = some w) : w = x := by
  cases u with
  | object members => exact Option.some.inj (hw.symm.trans hx)
  | _ => cases hx

/-- A step by a position, however it is written, leads to the element there. -/
theorem eq_of_step?_element {u w x : Json} {step : String} {i : Nat}
    (hi : Step.index? step = some i) (hx : u.element? i = some x) (hw : u.step? step = some w) :
    w = x := by
  cases u with
  | array elements =>
    obtain ⟨j, hj, hw⟩ := Option.bind_eq_some_iff.1 hw
    cases (Step.index?_of_strictIndex? hj).symm.trans hi
    exact Option.some.inj (hw.symm.trans hx)
  | _ => cases hx

/-- The steps into a slot lead to what stands there in the value of its keyword. -/
theorem eq_of_follow?_spelled {v u w x : Json} {slot : Slot} {steps : List String}
    (hv : v.KeysDistinct) (hsteps : slot.SpelledBy steps) (hu : (slot.keyword, u) ∈ v.assigned)
    (hx : slot.inside? u = some x) (hw : v.follow? steps = some w) : w = x := by
  have hfirst {step : String} {rest : List String} (hstep : slot.keyword.text = step)
      (h : v.follow? (step :: rest) = some w) : u.follow? rest = some w := by
    obtain ⟨y, hy, hrest⟩ := Option.bind_eq_some_iff.1 h
    rw [← hstep] at hy
    rwa [eq_of_step?_keyword hv hu hy] at hrest
  have hsecond {step : String} (h : u.follow? [step] = some w) : u.step? step = some w := by
    obtain ⟨y, hy, hend⟩ := Option.bind_eq_some_iff.1 h
    cases hend
    exact hy
  cases hsteps with
  | definition | defs | property => exact eq_of_step?_member hx (hsecond (hfirst rfl hw))
  | item | otherProperties =>
    cases hfirst rfl hw
    cases hx
    rfl
  | itemAt hi | oneOf hi | anyOf hi | allOf hi =>
    exact eq_of_step?_element hi hx (hsecond (hfirst rfl hw))

/-- The steps into a slot of a schema lead to the value that the schema in the slot was read
from. -/
theorem read_follow_child {v w : Json} {s c : Schema} {slot : Slot} {steps : List String}
    (hv : v.KeysDistinct) (h : read v = .ok s) (hc : s.Holds slot c)
    (hsteps : slot.SpelledBy steps) (hw : v.follow? steps = some w) : read w = .ok c := by
  obtain ⟨u, x, hu, hx, hread⟩ := read_child hv h hc
  rwa [eq_of_follow?_spelled hv hsteps hu hx hw]

/-! ## Walks -/

/-- What is found in a slot is held there. -/
theorem holds_of_child? {s c : Schema} {slot : Slot} (h : s.child? slot = some c) :
    s.Holds slot c := by
  cases slot with
  | definition | defs | property =>
    obtain ⟨entries, hentries, hlookup⟩ := Option.bind_eq_some_iff.1 h
    exact ⟨entries, hentries, mem_of_lookup hlookup⟩
  | item | itemAt | otherProperties =>
    simp only [child?] at h
    split at h
    · next heq => first | (cases h; exact heq) | exact ⟨_, heq, h⟩
    · cases h
  | oneOf | anyOf | allOf => exact Option.bind_eq_some_iff.1 h

/-- Where the value goes on beyond the steps into a slot, what the slot holds was read from the
value that these steps lead to. -/
theorem exists_read_of_follow?_append {v w : Json} {s c : Schema} {slot : Slot}
    {steps rest : List String} (hv : v.KeysDistinct) (hs : read v = .ok s)
    (hc : s.child? slot = some c) (hsteps : slot.SpelledBy steps)
    (hw : v.follow? (steps ++ rest) = some w) :
    ∃ u, v.follow? steps = some u ∧ u.KeysDistinct ∧ read u = .ok c ∧ u.follow? rest = some w := by
  rw [Json.follow?_append] at hw
  obtain ⟨u, hu, hrest⟩ := Option.bind_eq_some_iff.1 hw
  exact ⟨u, hu, (Json.part_of_follow? hu).keysDistinct hv,
    read_follow_child hv hs (holds_of_child? hc) hsteps hu, hrest⟩

/-- A walk goes through one slot after the other. -/
inductive Walks : Schema → List String → Schema → Prop where
  | nil {s : Schema} : Walks s [] s
  | cons {s c t : Schema} {slot : Slot} {steps rest : List String} :
    s.Holds slot c → slot.SpelledBy steps → Walks c rest t → Walks s (steps ++ rest) t

/-- The walk of a schema goes through slots. -/
theorem walks_of_walk? {s t : Schema} {steps : List String} (h : s.walk? steps = some t) :
    Walks s steps t := by
  induction s, steps using walk?.induct with
  | case1 s => cases h; exact .nil
  | case2 s step =>
    rw [walk?] at h
    obtain ⟨slot, hslot, hc⟩ := Option.bind_eq_some_iff.1 h
    exact .cons (holds_of_child? hc) (spelledBy_of_slotOf hslot) .nil
  | case3 s step next rest slot hslot ih =>
    rw [walk?, hslot] at h
    obtain ⟨c, hc, hrest⟩ := Option.bind_eq_some_iff.1 h
    exact .cons (holds_of_child? hc) (spelledBy_of_slotOf hslot) (ih c hrest)
  | case4 s step next rest hslot ih =>
    rw [walk?, hslot] at h
    obtain ⟨c, hc, hrest⟩ := Option.bind_eq_some_iff.1 h
    obtain ⟨slot, hpair, hc⟩ := Option.bind_eq_some_iff.1 hc
    exact .cons (holds_of_child? hc) (spelledBy_of_slotOfPair hpair) (ih c hrest)

/-- What a walk leads to is what is read at the end of its steps, if the value goes on so far. -/
theorem Walks.read_follow? {s t : Schema} {steps : List String} (h : Walks s steps t) {v w : Json}
    (hv : v.KeysDistinct) (hs : read v = .ok s) (hw : v.follow? steps = some w) :
    read w = .ok t := by
  induction h generalizing v with
  | nil => cases hw; exact hs
  | cons hc hsteps _ ih =>
    rw [Json.follow?_append] at hw
    obtain ⟨u, hu, hw⟩ := Option.bind_eq_some_iff.1 hw
    exact ih ((Json.part_of_follow? hu).keysDistinct hv) (read_follow_child hv hs hc hsteps hu) hw

end Schema

/-! ## Agreement -/

/-- Where a pointer can be followed both from slot to slot of the schema and through the value of a
document, what the value holds there reads as the schema found there. -/
theorem Document.read_eq_of_walk_of_follow (d : Document) (p : Pointer) (s : Schema) (v : Json)
    (hs : d.walk? p = some s) (hv : d.json.follow? p.segments = some v) :
    Schema.read v = .ok s :=
  (Schema.walks_of_walk? hs).read_follow? d.distinct d.reads hv

/-- A document with a key that has to be escaped and a list of one schema a position. -/
def Document.pairs : Document where
  json := .object [("properties", .object [("a/b", .object [
    ("items", .array [.object [("type", .string "string")], .object [("title", .string "B")]])])])]
  root := { properties := some [("a/b", {
    items := some (.tuple [{ type := some (.single "string") }, { title := some "B" }]) })] }
  distinct := by simp [Json.KeysDistinct, Json.MembersDistinct, Json.ElementsDistinct]
  reads := rfl

/-- The place of the second schema of that list. -/
def Document.pairsSecond : Pointer :=
  ⟨"#/properties/a~1b/items/1", by decide⟩

/-- Both ways lead to the second schema of that list. -/
theorem Document.read_pairsSecond :
    pairs.walk? pairsSecond = some { title := some "B" } ∧
      pairs.json.follow? pairsSecond.segments = some (.object [("title", .string "B")]) ∧
      Schema.read (.object [("title", .string "B")]) = .ok { title := some "B" } := by
  have hsteps : pairsSecond.segments = ["properties", "a/b", "items", "1"] := by decide
  have hs : pairs.walk? pairsSecond = some { title := some "B" } := by
    obtain ⟨s, hlist⟩ : ∃ s : Schema, s = { items := some (.tuple
        [{ type := some (.single "string") }, { title := some "B" }]) } := ⟨_, rfl⟩
    have hroot : pairs.root.slotOf "properties" = none := rfl
    have hproperty : Schema.slotOfPair "properties" "a/b" = some (.property "a/b") := rfl
    have hfirst : pairs.root.child? (.property "a/b") = some s := by rw [hlist]; rfl
    have hitems : s.slotOf "items" = none := by rw [hlist]; rfl
    have hposition : Schema.slotOfPair "items" "1" = some (.itemAt 1) := by
      have hone : Step.index? "1" = some 1 := Step.index?_toString 1
      rw [Schema.slotOfPair, hone]
      rfl
    have hsecond : s.child? (.itemAt 1) = some { title := some "B" } := by rw [hlist]; rfl
    rw [walk?, hsteps, Schema.walk?, hroot]
    simp only [hproperty, Option.bind_some, hfirst]
    rw [Schema.walk?, hitems]
    simp only [hposition, Option.bind_some, hsecond]
    rw [Schema.walk?]
  have hv : pairs.json.follow? pairsSecond.segments = some (.object [("title", .string "B")]) := by
    rw [hsteps]
    rfl
  exact ⟨hs, hv, Document.read_eq_of_walk_of_follow _ _ _ _ hs hv⟩

end SchemaTypes
