import SchemaTypes.Schema.Reader
import SchemaTypes.Schema.Slot
import SchemaTypes.Proofs.Except
import SchemaTypes.Proofs.Json.Part

/-!
# What a schema is read from

Reading goes through the keywords that a value gives, whether it is written as an object or as a
list (`Json.assigned`), and each of them changes the schema in one of the ways of `Schema.Takes`.
So whatever a schema holds was read from a part of its value: the value of the keyword of its slot,
looked into as the slot says (`Schema.read_child`). The same goes for its `$ref`
(`Schema.mem_texts_of_reference`).
-/

namespace SchemaTypes

/-! ## Slots of a schema -/

/-- Whether the value of a keyword holds schemas. -/
def Keyword.holdsSchemas : Keyword → Bool
  | .properties | .items | .additionalProperties | .oneOf | .anyOf | .allOf | .definitions
  | .defs => true
  | _ => false

/-- The keyword that a slot belongs to. -/
def Slot.keyword : Slot → Keyword
  | .definition _ => .definitions
  | .defs _ => .defs
  | .property _ => .properties
  | .item | .itemAt _ => .items
  | .otherProperties => .additionalProperties
  | .oneOf _ => .oneOf
  | .anyOf _ => .anyOf
  | .allOf _ => .allOf

/-- What stands in a slot, in the value of its keyword. -/
def Slot.inside? : Slot → Json → Option Json
  | .definition key, v | .defs key, v | .property key, v => v.member? key
  | .item, v | .otherProperties, v => some v
  | .itemAt i, v | .oneOf i, v | .anyOf i, v | .allOf i, v => v.element? i

/-- What stands in a slot is a part of the value of its keyword. -/
theorem Slot.part_of_inside? {slot : Slot} {v w : Json} (h : slot.inside? v = some w) :
    Json.Part w v := by
  cases slot with
  | definition | defs | property => exact Json.part_of_member? h
  | item | otherProperties => cases h; exact .self _
  | itemAt | oneOf | anyOf | allOf => exact Json.part_of_element? h

/-- The keywords that a value gives with their values: an object by its keys, a list by its
positions. -/
def Json.assigned : Json → List (Keyword × Json)
  | .object members => members.filterMap fun (key, v) => (Keyword.ofText? key).map (·, v)
  | .array elements => Keyword.all.zip elements
  | _ => []

namespace Schema

/-- The schema `c` stands in a slot of the schema `s`. -/
def Holds (s : Schema) : Slot → Schema → Prop
  | .definition key, c => ∃ entries, s.definitions = some entries ∧ (key, c) ∈ entries
  | .defs key, c => ∃ entries, s.defs = some entries ∧ (key, c) ∈ entries
  | .property key, c => ∃ entries, s.properties = some entries ∧ (key, c) ∈ entries
  | .item, c => s.items = some (.each c)
  | .itemAt i, c => ∃ cs, s.items = some (.tuple cs) ∧ cs[i]? = some c
  | .otherProperties, c => s.additionalProperties = some (.schema c)
  | .oneOf i, c => ∃ cs, s.oneOf = some cs ∧ cs[i]? = some c
  | .anyOf i, c => ∃ cs, s.anyOf = some cs ∧ cs[i]? = some c
  | .allOf i, c => ∃ cs, s.allOf = some cs ∧ cs[i]? = some c

/-- A keyed container fills the slots of its entries. -/
theorem mem_keyed {slotOf : String → Slot} {entries : Option (List (String × Schema))}
    {slot : Slot} {c : Schema} :
    (slot, c) ∈ keyed slotOf entries ↔
      ∃ key es, slotOf key = slot ∧ entries = some es ∧ (key, c) ∈ es := by
  cases entries with
  | none => simp [keyed]
  | some es =>
    simp only [keyed, Option.getD_some, List.mem_map, Prod.exists, Prod.mk.injEq, Option.some.injEq]
    constructor
    · rintro ⟨key, d, hmem, hslot, rfl⟩
      exact ⟨key, es, hslot, rfl, hmem⟩
    · rintro ⟨key, _, hslot, rfl, hmem⟩
      exact ⟨key, c, hmem, hslot, rfl⟩

/-- A list fills the slots of its positions. -/
theorem mem_listed {slotOf : Nat → Slot} {members : Option (List Schema)} {slot : Slot}
    {c : Schema} :
    (slot, c) ∈ listed slotOf members ↔
      ∃ i cs, slotOf i = slot ∧ members = some cs ∧ cs[i]? = some c := by
  cases members with
  | none => simp [listed]
  | some cs => simp [listed, List.mem_mapIdx, List.getElem?_eq_some_iff]

/-- The children of a schema are what its slots hold. -/
theorem mem_children_iff {s c : Schema} {slot : Slot} :
    (slot, c) ∈ s.children ↔ s.Holds slot c := by
  rcases hitems : s.items with _ | (d | ds) <;>
    rcases hothers : s.additionalProperties with _ | (b | e) <;>
    simp only [children, hitems, hothers, List.mem_append, mem_keyed, mem_listed] <;>
    cases slot <;> simp [Holds, hitems, hothers, eq_comm]

/-! ## One keyword -/

/-- What the value of a keyword makes of a schema. A keyword that holds schemas reads them from its
value; `null` leaves the schema as it is. -/
inductive Takes (s : Schema) : Keyword → Json → Schema → Prop where
  | absent {keyword : Keyword} : Takes s keyword .null s
  | facet {keyword : Keyword} {v : Json} {s' : Schema} :
    keyword.holdsSchemas = false → readFacet s keyword v = .ok s' → Takes s keyword v s'
  | definitions {members : List (String × Json)} {entries : List (String × Schema)} :
    readEntries members = .ok entries →
      Takes s .definitions (.object members) { s with definitions := some entries }
  | defs {members : List (String × Json)} {entries : List (String × Schema)} :
    readEntries members = .ok entries →
      Takes s .defs (.object members) { s with defs := some entries }
  | properties {members : List (String × Json)} {entries : List (String × Schema)} :
    readEntries members = .ok entries →
      Takes s .properties (.object members) { s with properties := some entries }
  | each {v : Json} {c : Schema} :
    read v = .ok c → Takes s .items v { s with items := some (.each c) }
  | tuple {elements : List Json} {cs : List Schema} :
    readSchemas 0 elements = .ok cs →
      Takes s .items (.array elements) { s with items := some (.tuple cs) }
  | allowed {b : Bool} :
    Takes s .additionalProperties (.bool b) { s with additionalProperties := some (.allowed b) }
  | others {v : Json} {c : Schema} :
    read v = .ok c →
      Takes s .additionalProperties v { s with additionalProperties := some (.schema c) }
  | oneOf {elements : List Json} {cs : List Schema} :
    readSchemas 0 elements = .ok cs → Takes s .oneOf (.array elements) { s with oneOf := some cs }
  | anyOf {elements : List Json} {cs : List Schema} :
    readSchemas 0 elements = .ok cs → Takes s .anyOf (.array elements) { s with anyOf := some cs }
  | allOf {elements : List Json} {cs : List Schema} :
    readSchemas 0 elements = .ok cs → Takes s .allOf (.array elements) { s with allOf := some cs }

/-- Reading the value of a keyword takes it in one of these ways. -/
theorem takes_of_readKeyword {s s' : Schema} {keyword : Keyword} {v : Json}
    (h : readKeyword s keyword v = .ok s') : Takes s keyword v s' := by
  cases v with
  | null =>
    cases keyword <;> simp only [readKeyword] at h
    case properties | items | additionalProperties | oneOf | anyOf | allOf | definitions | defs =>
      cases h
      exact .absent
    all_goals exact .facet rfl h
  | array elements =>
    cases keyword <;> simp only [readKeyword] at h
    case items =>
      split at h
      · next cs hcs => cases h; exact .tuple hcs
      · split at h
        · next c hc => cases h; exact .each hc
        · cases h
    case additionalProperties =>
      split at h
      · next c hc => cases h; exact .others hc
      · cases h
    case oneOf => obtain ⟨cs, hcs, h⟩ := Except.bind_eq_ok_iff.1 h; cases h; exact .oneOf hcs
    case anyOf => obtain ⟨cs, hcs, h⟩ := Except.bind_eq_ok_iff.1 h; cases h; exact .anyOf hcs
    case allOf => obtain ⟨cs, hcs, h⟩ := Except.bind_eq_ok_iff.1 h; cases h; exact .allOf hcs
    case properties | definitions | defs => cases h
    all_goals exact .facet rfl h
  | object members =>
    cases keyword <;> simp only [readKeyword] at h
    case items =>
      split at h
      · next c hc => cases h; exact .each hc
      · cases h
    case additionalProperties =>
      split at h
      · next c hc => cases h; exact .others hc
      · cases h
    case properties =>
      obtain ⟨es, hes, h⟩ := Except.bind_eq_ok_iff.1 h; cases h; exact .properties hes
    case definitions =>
      obtain ⟨es, hes, h⟩ := Except.bind_eq_ok_iff.1 h; cases h; exact .definitions hes
    case defs => obtain ⟨es, hes, h⟩ := Except.bind_eq_ok_iff.1 h; cases h; exact .defs hes
    case oneOf | anyOf | allOf => cases h
    all_goals exact .facet rfl h
  | bool b =>
    cases keyword <;> simp only [readKeyword] at h
    case additionalProperties => cases h; exact .allowed
    case properties | items | oneOf | anyOf | allOf | definitions | defs => cases h
    all_goals exact .facet rfl h
  | number n =>
    cases keyword <;> simp only [readKeyword] at h
    case properties | items | additionalProperties | oneOf | anyOf | allOf | definitions | defs =>
      cases h
    all_goals exact .facet rfl h
  | string t =>
    cases keyword <;> simp only [readKeyword] at h
    case properties | items | additionalProperties | oneOf | anyOf | allOf | definitions | defs =>
      cases h
    all_goals exact .facet rfl h

/-- A keyword that holds no schemas changes nothing that is held. -/
theorem holds_readFacet {s s' c : Schema} {keyword : Keyword} {v : Json} {slot : Slot}
    (h : readFacet s keyword v = .ok s') : s'.Holds slot c ↔ s.Holds slot c := by
  cases keyword <;> simp only [readFacet] at h
  case const | properties | items | additionalProperties | oneOf | anyOf | allOf | definitions
      | defs =>
    cases h
    cases slot <;> rfl
  all_goals
    obtain ⟨a, -, h⟩ := Except.bind_eq_ok_iff.1 h
    cases h
    cases slot <;> rfl

/-- A step into a value that reads does not change what is read. -/
theorem within_eq_ok_iff {α : Type} {step : JsonStep} {r : Reading α} {a : α} :
    within step r = .ok a ↔ r = .ok a := by
  cases r <;> simp [within]

/-- Each schema of a container was read from the member of its key. -/
theorem read_of_mem_entries {members : List (String × Json)} {entries : List (String × Schema)}
    {key : String} {c : Schema} (h : readEntries members = .ok entries)
    (hc : (key, c) ∈ entries) : ∃ v, (key, v) ∈ members ∧ read v = .ok c := by
  induction members generalizing entries with
  | nil => cases h; cases hc
  | cons m rest ih =>
    obtain ⟨k, v⟩ := m
    rw [readEntries] at h
    obtain ⟨d, ds, hd, hds, rfl⟩ := Except.bind_bind_pure_eq_ok_iff.1 h
    rcases List.mem_cons.1 hc with heq | hrest
    · cases heq
      exact ⟨v, .head _, within_eq_ok_iff.1 hd⟩
    · obtain ⟨w, hw, hread⟩ := ih hds hrest
      exact ⟨w, .tail _ hw, hread⟩

/-- Each schema of a list was read from the element at its position. -/
theorem read_of_getElem?_schemas {elements : List Json} {cs : List Schema} {i j : Nat} {c : Schema}
    (h : readSchemas j elements = .ok cs) (hc : cs[i]? = some c) :
    ∃ v, elements[i]? = some v ∧ read v = .ok c := by
  induction elements generalizing cs i j with
  | nil => cases h; cases hc
  | cons v rest ih =>
    rw [readSchemas] at h
    obtain ⟨d, ds, hd, hds, rfl⟩ := Except.bind_bind_pure_eq_ok_iff.1 h
    cases i with
    | zero => cases hc; exact ⟨v, rfl, within_eq_ok_iff.1 hd⟩
    | succ i => exact ih hds hc

/-- What a schema holds after a keyword it held before, or the keyword is that of its slot, and it
was read from what stands in that slot of the value. -/
theorem Takes.holds {s s' c : Schema} {keyword : Keyword} {v : Json} {slot : Slot}
    (h : Takes s keyword v s') (hv : v.KeysDistinct) (hc : s'.Holds slot c) :
    s.Holds slot c ∨ slot.keyword = keyword ∧ ∃ w, slot.inside? v = some w ∧ read w = .ok c := by
  cases h with
  | absent => exact .inl hc
  | facet _ h => exact .inl ((holds_readFacet h).1 hc)
  | definitions h | defs h | properties h =>
    cases slot
    case definition | defs | property =>
      first
      | exact .inl hc
      | obtain ⟨_, heq, hmem⟩ := hc
        cases heq
        obtain ⟨w, hw, hread⟩ := read_of_mem_entries h hmem
        exact .inr ⟨rfl, w, lookup_of_mem hv.1 hw, hread⟩
    all_goals exact .inl hc
  | each h =>
    cases slot
    case item => cases hc; exact .inr ⟨rfl, v, rfl, h⟩
    case itemAt => obtain ⟨_, heq, -⟩ := hc; cases heq
    all_goals exact .inl hc
  | tuple h =>
    cases slot
    case item => cases hc
    case itemAt =>
      obtain ⟨_, heq, hget⟩ := hc
      cases heq
      obtain ⟨w, hw, hread⟩ := read_of_getElem?_schemas h hget
      exact .inr ⟨rfl, w, hw, hread⟩
    all_goals exact .inl hc
  | allowed =>
    cases slot
    case otherProperties => cases hc
    all_goals exact .inl hc
  | others h =>
    cases slot
    case otherProperties => cases hc; exact .inr ⟨rfl, v, rfl, h⟩
    all_goals exact .inl hc
  | oneOf h | anyOf h | allOf h =>
    cases slot
    case oneOf | anyOf | allOf =>
      first
      | exact .inl hc
      | obtain ⟨_, heq, hget⟩ := hc
        cases heq
        obtain ⟨w, hw, hread⟩ := read_of_getElem?_schemas h hget
        exact .inr ⟨rfl, w, hw, hread⟩
    all_goals exact .inl hc

/-- A `$ref` after a keyword was there before, or it is the text that the keyword gives. -/
theorem Takes.reference {s s' : Schema} {keyword : Keyword} {v : Json} {ref : String}
    (h : Takes s keyword v s') (hr : s'.reference = some ref) :
    s.reference = some ref ∨ keyword = .ref ∧ v = .string ref := by
  cases h with
  | facet _ h =>
    cases keyword <;> simp only [readFacet] at h
    case ref =>
      obtain ⟨o, ho, h⟩ := Except.bind_eq_ok_iff.1 h
      cases h
      cases v with
      | string t => cases ho; cases hr; exact .inr ⟨rfl, rfl⟩
      | null => cases ho; cases hr
      | _ => cases ho
    case const | properties | items | additionalProperties | oneOf | anyOf | allOf | definitions
        | defs =>
      cases h
      exact .inl hr
    all_goals
      obtain ⟨o, -, h⟩ := Except.bind_eq_ok_iff.1 h
      cases h
      exact .inl hr
  | _ => exact .inl hr

/-! ## All keywords of a value -/

/-- What the values of several keywords make of a schema, one after the other. -/
inductive TakesAll : Schema → List (Keyword × Json) → Schema → Prop where
  | nil {s : Schema} : TakesAll s [] s
  | cons {s s' t : Schema} {keyword : Keyword} {v : Json} {rest : List (Keyword × Json)} :
    Takes s keyword v s' → TakesAll s' rest t → TakesAll s ((keyword, v) :: rest) t

/-- Reading members takes the keywords among them. -/
theorem takesAll_of_readMembers {s t : Schema} {members : List (String × Json)}
    (h : readMembers s members = .ok t) : TakesAll s (Json.object members).assigned t := by
  induction members generalizing s with
  | nil => cases h; exact .nil
  | cons m rest ih =>
    obtain ⟨key, v⟩ := m
    rw [readMembers] at h
    cases hkey : Keyword.ofText? key with
    | none =>
      rw [hkey] at h
      rw [Json.assigned, List.filterMap_cons_none (by simp [hkey])]
      exact ih h
    | some keyword =>
      rw [hkey] at h
      obtain ⟨s', hs', h⟩ := Except.bind_eq_ok_iff.1 h
      rw [Json.assigned, List.filterMap_cons_some (b := (keyword, v)) (by simp [hkey])]
      exact .cons (takes_of_readKeyword (within_eq_ok_iff.1 hs')) (ih h)

/-- Reading positions takes the keywords of these positions. -/
theorem takesAll_of_readPositions {length i : Nat} {s t : Schema} {elements : List Json}
    (h : readPositions length s i elements = .ok t) :
    TakesAll s ((Keyword.all.drop i).zip elements) t := by
  induction elements generalizing s i with
  | nil =>
    rw [readPositions, finishPositions] at h
    split at h
    · cases h
    · cases h
      rw [List.zip_nil_right]
      exact .nil
  | cons v rest ih =>
    rw [readPositions] at h
    cases hi : Keyword.all[i]? with
    | none => rw [hi] at h; cases h
    | some keyword =>
      rw [hi] at h
      obtain ⟨s', hs', hrest⟩ := Except.bind_eq_ok_iff.1 h
      obtain ⟨hlt, rfl⟩ := List.getElem?_eq_some_iff.1 hi
      rw [List.drop_eq_getElem_cons hlt, List.zip_cons_cons]
      exact .cons (takes_of_readKeyword (within_eq_ok_iff.1 hs')) (ih hrest)

/-- Reading a schema takes the keywords that its value gives. -/
theorem takesAll_of_read {v : Json} {s : Schema} (h : read v = .ok s) :
    TakesAll {} v.assigned s := by
  cases v with
  | object members => exact takesAll_of_readMembers h
  | array elements => exact takesAll_of_readPositions (i := 0) h
  | _ => cases h

/-- The value of a keyword that a value gives is a part of it, and smaller. -/
theorem part_of_mem_assigned {v u : Json} {keyword : Keyword} (h : (keyword, u) ∈ v.assigned) :
    Json.Part u v ∧ u.size < v.size := by
  cases v with
  | object members =>
    obtain ⟨⟨key, w⟩, hmem, hkey⟩ := List.mem_filterMap.1 h
    obtain ⟨_, -, heq⟩ := Option.map_eq_some_iff.1 hkey
    cases heq
    have := Json.size_le_sizeMembers hmem
    exact ⟨.member hmem (.self _), by rw [Json.size]; dsimp only at this; omega⟩
  | array elements =>
    have hmem := (List.of_mem_zip h).2
    have := Json.size_le_sizeElements hmem
    exact ⟨.element hmem (.self _), by rw [Json.size]; omega⟩
  | _ => cases h

/-- What a schema holds after some keywords it held before, or it was read from what stands in its
slot of one of the values. -/
theorem TakesAll.holds {s t c : Schema} {assigned : List (Keyword × Json)} {slot : Slot}
    (h : TakesAll s assigned t) (hv : ∀ a ∈ assigned, a.2.KeysDistinct) (hc : t.Holds slot c) :
    s.Holds slot c ∨
      ∃ u w, (slot.keyword, u) ∈ assigned ∧ slot.inside? u = some w ∧ read w = .ok c := by
  induction h with
  | nil => exact .inl hc
  | cons htakes _ ih =>
    rcases ih (fun a ha => hv a (.tail _ ha)) hc with h | ⟨u, w, hmem, hw⟩
    · rcases htakes.holds (hv _ (.head _)) h with h | ⟨rfl, w, hw⟩
      · exact .inl h
      · exact .inr ⟨_, w, .head _, hw⟩
    · exact .inr ⟨u, w, .tail _ hmem, hw⟩

/-- What a schema holds was read from what stands in its slot of the value of its keyword. -/
theorem read_child {v : Json} {s c : Schema} {slot : Slot} (hv : v.KeysDistinct)
    (h : read v = .ok s) (hc : s.Holds slot c) :
    ∃ u w, (slot.keyword, u) ∈ v.assigned ∧ slot.inside? u = some w ∧ read w = .ok c := by
  have hparts : ∀ a ∈ v.assigned, a.2.KeysDistinct :=
    fun a ha => (part_of_mem_assigned ha).1.keysDistinct hv
  rcases (takesAll_of_read h).holds hparts hc with hc | hc
  · cases slot
    case definition | defs | property | itemAt | oneOf | anyOf | allOf =>
      obtain ⟨_, heq, -⟩ := hc
      cases heq
    case item | otherProperties => cases hc
  · exact hc

/-- What a schema holds was read from a smaller part of its value. -/
theorem exists_part_of_holds {v : Json} {s c : Schema} {slot : Slot} (hv : v.KeysDistinct)
    (h : read v = .ok s) (hc : s.Holds slot c) :
    ∃ w, Json.Part w v ∧ w.size < v.size ∧ read w = .ok c := by
  obtain ⟨u, w, hu, hw, hread⟩ := read_child hv h hc
  obtain ⟨hpart, hsize⟩ := part_of_mem_assigned hu
  have hwu := Slot.part_of_inside? hw
  have := hwu.size_le
  exact ⟨w, hwu.trans hpart, by omega, hread⟩

/-- A `$ref` after some keywords was there before, or it is the text of one of them. -/
theorem TakesAll.reference {s t : Schema} {assigned : List (Keyword × Json)} {ref : String}
    (h : TakesAll s assigned t) (hr : t.reference = some ref) :
    s.reference = some ref ∨ (.ref, .string ref) ∈ assigned := by
  induction h with
  | nil => exact .inl hr
  | cons htakes _ ih =>
    rcases ih hr with h | hmem
    · rcases htakes.reference h with h | ⟨rfl, rfl⟩
      · exact .inl h
      · exact .inr (.head _)
    · exact .inr (.tail _ hmem)

/-- The `$ref` of a schema is a text of the value it was read from. -/
theorem mem_texts_of_reference {v : Json} {s : Schema} {ref : String} (h : read v = .ok s)
    (hr : s.reference = some ref) : ref ∈ v.texts := by
  rcases (takesAll_of_read h).reference hr with h | hmem
  · cases h
  · exact (part_of_mem_assigned hmem).1.texts_subset (.head _)

end Schema
end SchemaTypes
