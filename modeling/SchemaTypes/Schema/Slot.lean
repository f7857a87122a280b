import SchemaTypes.Schema.Basic

/-!
# Where a schema holds other schemas

A `Slot` is a place in a schema that can hold another one: an entry of a keyed container, a position
of a list, or a keyword that holds a single schema. `Schema.children` lists the slots that are
filled and `Schema.child?` looks one up; a slot is written in a pointer by one or two steps
(`Slot.steps`), and `Schema.walk?` follows the steps of a pointer from slot to slot.
-/

namespace SchemaTypes

/-- A place in a schema that can hold another one. -/
inductive Slot where
  | definition (key : String)
  | defs (key : String)
  | property (key : String)
  | item
  | itemAt (i : Nat)
  | otherProperties
  | oneOf (i : Nat)
  | anyOf (i : Nat)
  | allOf (i : Nat)
  deriving DecidableEq

/-- The steps that lead from a schema to what it holds in a slot. -/
def Slot.steps : Slot → List String
  | .definition key => ["definitions", key]
  | .defs key => ["$defs", key]
  | .property key => ["properties", key]
  | .item => ["items"]
  | .itemAt i => ["items", toString i]
  | .otherProperties => ["additionalProperties"]
  | .oneOf i => ["oneOf", toString i]
  | .anyOf i => ["anyOf", toString i]
  | .allOf i => ["allOf", toString i]

/-- The pointer to what is held in a slot. -/
def Pointer.slot (p : Pointer) (slot : Slot) : Pointer :=
  p.descend slot.steps

namespace Schema

/-- The schema held in a slot. -/
def child? (s : Schema) : Slot → Option Schema
  | .definition key => s.definitions.bind (·.lookup key)
  | .defs key => s.defs.bind (·.lookup key)
  | .property key => s.properties.bind (·.lookup key)
  | .item => match s.items with | some (.each c) => some c | _ => none
  | .itemAt i => match s.items with | some (.tuple cs) => cs[i]? | _ => none
  | .otherProperties =>
    match s.additionalProperties with | some (.schema c) => some c | _ => none
  | .oneOf i => s.oneOf.bind (·[i]?)
  | .anyOf i => s.anyOf.bind (·[i]?)
  | .allOf i => s.allOf.bind (·[i]?)

/-- The entries of a keyed container with their slots. -/
def keyed (slot : String → Slot) (entries : Option (List (String × Schema))) :
    List (Slot × Schema) :=
  (entries.getD []).map fun (key, c) => (slot key, c)

/-- The members of a list with their slots. -/
def listed (slot : Nat → Slot) (members : Option (List Schema)) : List (Slot × Schema) :=
  (members.getD []).mapIdx fun i c => (slot i, c)

/-- The schemas that a schema holds, with their slots. -/
def children (s : Schema) : List (Slot × Schema) :=
  keyed .definition s.definitions ++ keyed .defs s.defs ++ keyed .property s.properties ++
    (match s.items with
    | some (.each c) => [(.item, c)]
    | some (.tuple cs) => listed .itemAt (some cs)
    | none => []) ++
    (match s.additionalProperties with
    | some (.schema c) => [(.otherProperties, c)]
    | _ => []) ++
    listed .oneOf s.oneOf ++ listed .anyOf s.anyOf ++ listed .allOf s.allOf

/-- The slot that a single step names. -/
def slotOf (s : Schema) (step : String) : Option Slot :=
  match step, s.items with
  | "additionalProperties", _ => some .otherProperties
  | "items", some (.each _) => some .item
  | _, _ => none

/-- The slot that two steps name. -/
def slotOfPair (head next : String) : Option Slot :=
  match head with
  | "definitions" => some (.definition next)
  | "$defs" => some (.defs next)
  | "properties" => some (.property next)
  | "items" => (Step.index? next).map .itemAt
  | "oneOf" => (Step.index? next).map .oneOf
  | "anyOf" => (Step.index? next).map .anyOf
  | "allOf" => (Step.index? next).map .allOf
  | _ => none

/-- The schema at the end of the given steps, if each of them stays among slots. -/
def walk? (s : Schema) : List String → Option Schema
  | [] => some s
  | [step] => (s.slotOf step).bind s.child?
  | step :: next :: rest =>
    match s.slotOf step with
    | some slot => (s.child? slot).bind (walk? · (next :: rest))
    | none => ((slotOfPair step next).bind s.child?).bind (walk? · rest)

/-- What a schema holds is smaller than the schema. -/
theorem sizeOf_lt_of_mem_children {s : Schema} {slot : Slot} {c : Schema}
    (h : (slot, c) ∈ s.children) : sizeOf c < sizeOf s := by
  have keyed_lt {slotOf : String → Slot} {entries : Option (List (String × Schema))}
      (h : (slot, c) ∈ keyed slotOf entries) : sizeOf c < sizeOf entries := by
    cases entries with
    | none => simp [keyed] at h
    | some entries =>
      simp only [keyed, Option.getD_some, List.mem_map, Prod.mk.injEq, Prod.exists] at h
      obtain ⟨key, d, hmem, _, rfl⟩ := h
      have := List.sizeOf_lt_of_mem hmem
      simp only [Prod.mk.sizeOf_spec, Option.some.sizeOf_spec] at this ⊢
      omega
  have listed_lt {slotOf : Nat → Slot} {members : Option (List Schema)}
      (h : (slot, c) ∈ listed slotOf members) : sizeOf c < sizeOf members := by
    cases members with
    | none => simp [listed] at h
    | some members =>
      simp only [listed, Option.getD_some, List.mem_mapIdx, Prod.mk.injEq] at h
      obtain ⟨i, hi, _, rfl⟩ := h
      have := List.sizeOf_lt_of_mem (List.getElem_mem hi)
      simp only [Option.some.sizeOf_spec]
      omega
  obtain ⟨type, properties, required, items, additional, enum, const, oneOf, anyOf, allOf,
    definitions, defs, reference, title, description, examples, deprecated⟩ := s
  simp only [children, List.mem_append] at h
  simp only [Schema.mk.sizeOf_spec]
  rcases h with ((((((h | h) | h) | h) | h) | h) | h) | h
  · have := keyed_lt h; omega
  · have := keyed_lt h; omega
  · have := keyed_lt h; omega
  · have : sizeOf c < sizeOf items := by
      match items with
      | none => simp at h
      | some (.each d) =>
        simp only [List.mem_singleton, Prod.mk.injEq] at h
        obtain ⟨-, rfl⟩ := h
        simp only [Option.some.sizeOf_spec, ItemSchemas.each.sizeOf_spec]
        omega
      | some (.tuple ds) =>
        have := listed_lt h
        simp only [Option.some.sizeOf_spec, ItemSchemas.tuple.sizeOf_spec] at this ⊢
        omega
    omega
  · have : sizeOf c < sizeOf additional := by
      match additional with
      | none => simp at h
      | some (.allowed _) => simp at h
      | some (.schema d) =>
        simp only [List.mem_singleton, Prod.mk.injEq] at h
        obtain ⟨-, rfl⟩ := h
        simp only [Option.some.sizeOf_spec, OtherProperties.schema.sizeOf_spec]
        omega
    omega
  · have := listed_lt h; omega
  · have := listed_lt h; omega
  · have := listed_lt h; omega

end Schema

end SchemaTypes
