import SchemaTypes.Json.Basic

/-!
# Distinct keys

The text of a value never leaves an object with a key twice, because a repeated key only replaces
what stood under it. `Json.KeysDistinct` says so of a value, and `Json.merge` brings any value into
that form by the same rule.
-/

namespace SchemaTypes
namespace Json

mutual

/-- Whether no object in a value has a key twice. -/
def KeysDistinct : Json → Prop
  | .array elements => ElementsDistinct elements
  | .object members => (members.map (·.1)).Nodup ∧ MembersDistinct members
  | _ => True

/-- Whether no object in the elements of a list has a key twice. -/
def ElementsDistinct : List Json → Prop
  | [] => True
  | v :: rest => KeysDistinct v ∧ ElementsDistinct rest

/-- Whether no object in the values of members has a key twice. -/
def MembersDistinct : List (String × Json) → Prop
  | [] => True
  | (_, v) :: rest => KeysDistinct v ∧ MembersDistinct rest

end

mutual

/-- The value in which every key of an object stands once: of members with the same key the last
counts, at the place of the first. -/
def merge : Json → Json
  | .array elements => .array (mergeElements elements)
  | .object members => .object (mergeMembers [] members)
  | v => v

/-- The elements of a list, each of them merged. -/
def mergeElements : List Json → List Json
  | [] => []
  | v :: rest => merge v :: mergeElements rest

/-- Members merged into those before them. -/
def mergeMembers (before : List (String × Json)) : List (String × Json) → List (String × Json)
  | [] => before
  | (key, v) :: rest => mergeMembers (setMember key (merge v) before) rest

end

/-- Setting a member adds no other key than its own. -/
theorem mem_keys_setMember {key k : String} {v : Json} {members : List (String × Json)}
    (h : k ∈ (setMember key v members).map (·.1)) : k = key ∨ k ∈ members.map (·.1) := by
  induction members with
  | nil => simpa [setMember] using h
  | cons m rest ih =>
    simp only [setMember] at h
    split at h
    · simp_all
    · simp only [List.map_cons, List.mem_cons] at h ⊢
      rcases h with rfl | h
      · exact .inr (.inl rfl)
      · exact (ih h).imp_right .inr

/-- Setting a member keeps keys distinct. -/
theorem nodup_keys_setMember {key : String} {v : Json} {members : List (String × Json)}
    (h : (members.map (·.1)).Nodup) : ((setMember key v members).map (·.1)).Nodup := by
  induction members with
  | nil => simp [setMember]
  | cons m rest ih =>
    simp only [List.map_cons, List.nodup_cons] at h
    simp only [setMember]
    split
    · simpa using h
    · next hne =>
      rw [List.map_cons, List.nodup_cons]
      refine ⟨fun hmem => ?_, ih h.2⟩
      rcases mem_keys_setMember hmem with hkey | hrest
      · exact hne hkey
      · exact h.1 hrest

/-- Setting a member to a value with distinct keys keeps the keys inside the values distinct. -/
theorem MembersDistinct.setMember {key : String} {v : Json} {members : List (String × Json)}
    (hv : v.KeysDistinct) (h : MembersDistinct members) :
    MembersDistinct (Json.setMember key v members) := by
  induction members with
  | nil => exact ⟨hv, trivial⟩
  | cons m rest ih =>
    simp only [Json.setMember]
    split
    · exact ⟨hv, h.2⟩
    · exact ⟨h.1, ih h.2⟩

mutual

/-- A merged value has distinct keys. -/
theorem keysDistinct_merge : ∀ v : Json, v.merge.KeysDistinct
  | .null | .bool _ | .number _ | .string _ => by simp [merge, KeysDistinct]
  | .array elements => by
    rw [merge, KeysDistinct]
    exact elementsDistinct_merge elements
  | .object members => by
    rw [merge, KeysDistinct]
    exact membersDistinct_merge members .nil trivial

/-- Merged elements have distinct keys. -/
theorem elementsDistinct_merge : ∀ vs : List Json, ElementsDistinct (mergeElements vs)
  | [] => trivial
  | v :: rest => ⟨keysDistinct_merge v, elementsDistinct_merge rest⟩

/-- Members merged into distinct ones are distinct, and have distinct keys inside. -/
theorem membersDistinct_merge : ∀ {before : List (String × Json)} (members : List (String × Json)),
    (before.map (·.1)).Nodup → MembersDistinct before →
      ((mergeMembers before members).map (·.1)).Nodup ∧
        MembersDistinct (mergeMembers before members)
  | _, [], hn, hd => ⟨hn, hd⟩
  | _, (_, v) :: rest, hn, hd =>
    membersDistinct_merge rest (nodup_keys_setMember hn) (hd.setMember (keysDistinct_merge v))

end

/-- Elements have distinct keys if and only if each of them has. -/
theorem elementsDistinct_iff {vs : List Json} :
    ElementsDistinct vs ↔ ∀ v ∈ vs, v.KeysDistinct := by
  induction vs with
  | nil => simp [ElementsDistinct]
  | cons v rest ih => simp [ElementsDistinct, ih]

/-- Members have distinct keys inside if and only if each value has. -/
theorem membersDistinct_iff {members : List (String × Json)} :
    MembersDistinct members ↔ ∀ m ∈ members, m.2.KeysDistinct := by
  induction members with
  | nil => simp [MembersDistinct]
  | cons m rest ih => simp [MembersDistinct, ih]

end Json
end SchemaTypes
