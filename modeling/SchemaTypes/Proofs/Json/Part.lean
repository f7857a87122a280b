import SchemaTypes.Json.Distinct
import SchemaTypes.Pointer

/-!
# Parts of a JSON value

`Json.Part w v` says that `w` is `v` or stands somewhere inside of it. A part is no larger than the
whole, keeps its distinct keys (`Part.keysDistinct`), and is what a pointer leads to
(`part_of_follow?`). The texts of a value, `Json.texts`, are finitely many: no more than the value
has parts (`length_texts_le`). That is what bounds every walk along the references of a document.
-/

namespace SchemaTypes

section
variable {κ α : Type} [BEq κ] [LawfulBEq κ] {key : κ} {a : α} {entries : List (κ × α)}

/-- Of entries with distinct keys, each is the one that is found under its key. -/
theorem lookup_of_mem (hd : (entries.map (·.1)).Nodup) (h : (key, a) ∈ entries) :
    entries.lookup key = some a := by
  induction entries with
  | nil => cases h
  | cons entry rest ih =>
    obtain ⟨k, b⟩ := entry
    rw [List.map_cons, List.nodup_cons] at hd
    rw [List.lookup_cons]
    rcases List.mem_cons.1 h with heq | hrest
    · cases heq
      simp
    · have hne : (key == k) = false := by
        rw [beq_eq_false_iff_ne]
        rintro rfl
        exact hd.1 (List.mem_map_of_mem (f := (·.1)) hrest)
      rw [hne]
      exact ih hd.2 hrest

/-- What is found under a key is an entry. -/
theorem mem_of_lookup (h : entries.lookup key = some a) : (key, a) ∈ entries := by
  obtain ⟨before, after, rfl, -⟩ := List.lookup_eq_some_iff.1 h
  exact List.mem_append_right _ (.head _)

end

namespace Json

/-- The value `w` is the value `v` or stands inside of it. -/
inductive Part : Json → Json → Prop where
  | self (v : Json) : Part v v
  | element {w v : Json} {elements : List Json} :
    v ∈ elements → Part w v → Part w (.array elements)
  | member {w v : Json} {key : String} {members : List (String × Json)} :
    (key, v) ∈ members → Part w v → Part w (.object members)

mutual

/-- The texts in a value, in the order in which they stand; keys are not among them. -/
def texts : Json → List String
  | .string s => [s]
  | .array elements => textsOfElements elements
  | .object members => textsOfMembers members
  | _ => []

/-- The texts in the elements of a list. -/
def textsOfElements : List Json → List String
  | [] => []
  | v :: rest => texts v ++ textsOfElements rest

/-- The texts in the values of members. -/
def textsOfMembers : List (String × Json) → List String
  | [] => []
  | (_, v) :: rest => texts v ++ textsOfMembers rest

end

/-! ## Size -/

/-- No value is empty. -/
theorem size_pos (v : Json) : 0 < v.size := by
  cases v <;> simp [size]

/-- An element is smaller than its list. -/
theorem size_le_sizeElements {v : Json} {elements : List Json} (h : v ∈ elements) :
    v.size ≤ sizeElements elements := by
  induction elements with
  | nil => cases h
  | cons w rest ih =>
    rw [sizeElements]
    rcases List.mem_cons.1 h with rfl | h
    · omega
    · have := ih h
      omega

/-- The members of an object are as large as the list of their values. -/
theorem sizeMembers_eq (members : List (String × Json)) :
    sizeMembers members = sizeElements (members.map (·.2)) := by
  induction members with
  | nil => rfl
  | cons m rest ih => rw [sizeMembers, List.map_cons, sizeElements, ih]

/-- The value of a member is smaller than its object. -/
theorem size_le_sizeMembers {m : String × Json} {members : List (String × Json)}
    (h : m ∈ members) : m.2.size ≤ sizeMembers members := by
  rw [sizeMembers_eq]
  exact size_le_sizeElements (List.mem_map_of_mem h)

/-- A part is no larger than the whole. -/
theorem Part.size_le {w v : Json} (h : Part w v) : w.size ≤ v.size := by
  induction h with
  | self => exact Nat.le_refl _
  | element hmem _ ih =>
    have := size_le_sizeElements hmem
    rw [size]
    omega
  | member hmem _ ih =>
    have := size_le_sizeMembers hmem
    rw [size]
    dsimp only at this
    omega

/-- A part of a part is a part. -/
theorem Part.trans {u w v : Json} (huw : Part u w) (hwv : Part w v) : Part u v := by
  induction hwv with
  | self => exact huw
  | element hmem _ ih => exact .element hmem ih
  | member hmem _ ih => exact .member hmem ih

/-- A part of a value with distinct keys has distinct keys. -/
theorem Part.keysDistinct {w v : Json} (h : Part w v) (hv : v.KeysDistinct) : w.KeysDistinct := by
  induction h with
  | self => exact hv
  | element hmem _ ih =>
    rw [KeysDistinct, elementsDistinct_iff] at hv
    exact ih (hv _ hmem)
  | member hmem _ ih =>
    rw [KeysDistinct, membersDistinct_iff] at hv
    exact ih (hv.2 _ hmem)

/-! ## What lookups lead to -/

/-- The member of a value under a key is a part of it. -/
theorem part_of_member? {v w : Json} {key : String} (h : v.member? key = some w) : Part w v := by
  cases v with
  | object members => exact .member (mem_of_lookup h) (.self w)
  | _ => cases h

/-- The element of a value at a position is a part of it. -/
theorem part_of_element? {v w : Json} {i : Nat} (h : v.element? i = some w) : Part w v := by
  cases v with
  | array elements => exact .element (List.mem_of_getElem? h) (.self w)
  | _ => cases h

/-- What stands one step below a value is a part of it. -/
theorem part_of_step? {v w : Json} {step : String} (h : v.step? step = some w) : Part w v := by
  cases v with
  | object members => exact part_of_member? (v := .object members) h
  | array elements =>
    obtain ⟨i, -, hi⟩ := Option.bind_eq_some_iff.1 h
    exact part_of_element? hi
  | _ => cases h

/-- What stands at the end of some steps is a part. -/
theorem part_of_follow? {v w : Json} {steps : List String} (h : v.follow? steps = some w) :
    Part w v := by
  induction steps generalizing v with
  | nil => cases h; exact .self _
  | cons step rest ih =>
    obtain ⟨u, hu, hrest⟩ := Option.bind_eq_some_iff.1 h
    exact (ih hrest).trans (part_of_step? hu)

/-- Steps are followed one list after the other. -/
theorem follow?_append (v : Json) (steps more : List String) :
    v.follow? (steps ++ more) = (v.follow? steps).bind (·.follow? more) := by
  induction steps generalizing v with
  | nil => rfl
  | cons step rest ih => simp only [List.cons_append, follow?, ih, Option.bind_assoc]

/-! ## Texts -/

/-- The texts of an element are among those of its list. -/
theorem texts_subset_elements {v : Json} {elements : List Json} (h : v ∈ elements) :
    v.texts ⊆ textsOfElements elements := by
  induction elements with
  | nil => cases h
  | cons w rest ih =>
    rw [textsOfElements]
    rcases List.mem_cons.1 h with rfl | h
    · exact List.subset_append_left _ _
    · exact fun _ ht => List.mem_append_right _ (ih h ht)

/-- The texts in the members of an object are those in the list of their values. -/
theorem textsOfMembers_eq (members : List (String × Json)) :
    textsOfMembers members = textsOfElements (members.map (·.2)) := by
  induction members with
  | nil => rfl
  | cons m rest ih => rw [textsOfMembers, List.map_cons, textsOfElements, ih]

/-- The texts of the value of a member are among those of its object. -/
theorem texts_subset_members {m : String × Json} {members : List (String × Json)}
    (h : m ∈ members) : m.2.texts ⊆ textsOfMembers members := by
  rw [textsOfMembers_eq]
  exact texts_subset_elements (List.mem_map_of_mem h)

/-- The texts of a part are among those of the whole. -/
theorem Part.texts_subset {w v : Json} (h : Part w v) : w.texts ⊆ v.texts := by
  induction h with
  | self => exact List.Subset.refl _
  | element hmem _ ih =>
    rw [texts]
    exact List.Subset.trans ih (texts_subset_elements hmem)
  | member hmem _ ih =>
    rw [texts]
    exact List.Subset.trans ih (texts_subset_members hmem)

mutual

/-- A value has no more texts than parts. -/
theorem length_texts_le : ∀ v : Json, v.texts.length ≤ v.size
  | .null | .bool _ | .number _ | .string _ => by simp [texts, size]
  | .array elements => by
    have := length_textsOfElements_le elements
    rw [texts, size]
    omega
  | .object members => by
    have := length_textsOfMembers_le members
    rw [texts, size]
    omega

/-- Elements have no more texts than parts. -/
theorem length_textsOfElements_le :
    ∀ elements : List Json, (textsOfElements elements).length ≤ sizeElements elements
  | [] => by simp [textsOfElements]
  | v :: rest => by
    have := length_texts_le v
    have := length_textsOfElements_le rest
    rw [textsOfElements, sizeElements, List.length_append]
    omega

/-- Members have no more texts than parts. -/
theorem length_textsOfMembers_le :
    ∀ members : List (String × Json), (textsOfMembers members).length ≤ sizeMembers members
  | [] => by simp [textsOfMembers]
  | (_, v) :: rest => by
    have := length_texts_le v
    have := length_textsOfMembers_le rest
    rw [textsOfMembers, sizeMembers, List.length_append]
    omega

end

end Json
end SchemaTypes
