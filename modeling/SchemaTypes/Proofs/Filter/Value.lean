import Mathlib
import SchemaTypes.Filter.Eval
import SchemaTypes.Proofs.Except
import SchemaTypes.Proofs.Json.Part

/-!
# Values of filters as values of JSON

A value whose numbers are all whole (`Filter.Value.isWhole`) is one of JSON (`Filter.Value.toJson`).
Like a value that was read, it has the keys of each of its objects only once
(`Filter.Value.KeysDistinct`): no operation on values puts a key into an object a second time.
-/

namespace SchemaTypes
namespace Filter

namespace Quantity

/-- The whole number that a number is, if it fits an unsigned or a signed 64-bit word and is written
as one. Of a literal that does not fit a signed word only its text is kept, and that may start with
zeros or be too long. -/
def integer? : Quantity → Option Integer
  | .given (.integer n) => some n
  | .written text _ =>
    (Integer.ofInt? (Nat.ofDigitChars 10 text.toList 0)).filter fun n => toString n.value = text
  | .given (.float _) | .computed _ => none

/-- The number of a document that a number is, and the nearest float if it is not whole. -/
def toNumber (q : Quantity) : Number :=
  match q.integer? with
  | some n => .integer n
  | none => .float q.toFloat

/-- A whole number has its text. -/
theorem text_of_integer? {q : Quantity} {n : Integer} (h : q.integer? = some n) :
    q.text = toString n.value := by
  unfold integer? at h
  split at h
  · cases h
    rfl
  · obtain ⟨-, htext⟩ := Option.filter_eq_some_iff.1 h
    exact (of_decide_eq_true htext).symm
  · cases h
  · cases h

end Quantity

namespace Value

variable {v w key : Value} {vs : List Value} {ms ns : List (String × Value)} {k : String}

/-! ## Whole values -/

mutual

/-- Whether all numbers in a value are whole ones. -/
def isWhole : Value → Bool
  | .number q => q.integer?.isSome
  | .array vs => elementsWhole vs
  | .object ms => membersWhole ms
  | .null | .bool _ | .string _ => true

/-- Whether all numbers in the elements of a list are whole ones. -/
def elementsWhole : List Value → Bool
  | [] => true
  | v :: vs => isWhole v && elementsWhole vs

/-- Whether all numbers in the members of an object are whole ones. -/
def membersWhole : List (String × Value) → Bool
  | [] => true
  | (_, v) :: rest => isWhole v && membersWhole rest

end

mutual

/-- How deep lists and objects are nested in a value. -/
def depth : Value → Nat
  | .array vs => elementsDepth vs + 1
  | .object ms => membersDepth ms + 1
  | .null | .bool _ | .number _ | .string _ => 0

/-- How deep lists and objects are nested in the elements of a list. -/
def elementsDepth : List Value → Nat
  | [] => 0
  | v :: vs => max (depth v) (elementsDepth vs)

/-- How deep lists and objects are nested in the members of an object. -/
def membersDepth : List (String × Value) → Nat
  | [] => 0
  | (_, v) :: rest => max (depth v) (membersDepth rest)

end

mutual

/-- The JSON value that a value is, with every number that is not whole as a float. -/
def toJson : Value → Json
  | .null => .null
  | .bool b => .bool b
  | .number q => .number q.toNumber
  | .string s => .string s
  | .array vs => .array (elementsToJson vs)
  | .object ms => .object (membersToJson ms)

/-- The JSON values of the elements of a list. -/
def elementsToJson : List Value → List Json
  | [] => []
  | v :: vs => toJson v :: elementsToJson vs

/-- The JSON values of the members of an object. -/
def membersToJson : List (String × Value) → List (String × Json)
  | [] => []
  | (k, v) :: rest => (k, toJson v) :: membersToJson rest

end

mutual

/-- A JSON value is the one that its value is. -/
@[simp] theorem toJson_ofJson : ∀ v : Json, (ofJson v).toJson = v
  | .null | .bool _ | .string _ | .number (.integer _) | .number (.float _) => rfl
  | .array vs => congrArg Json.array (elementsToJson_ofElements vs)
  | .object ms => congrArg Json.object (membersToJson_ofMembers ms)

/-- The elements of a list are those that their values are. -/
@[simp] theorem elementsToJson_ofElements : ∀ vs : List Json, elementsToJson (ofElements vs) = vs
  | [] => rfl
  | v :: vs => congrArg₂ List.cons (toJson_ofJson v) (elementsToJson_ofElements vs)

/-- The members of an object are those that their values are. -/
@[simp] theorem membersToJson_ofMembers :
    ∀ ms : List (String × Json), membersToJson (ofMembers ms) = ms
  | [] => rfl
  | (k, v) :: rest =>
    congrArg₂ (fun w more => (k, w) :: more) (toJson_ofJson v) (membersToJson_ofMembers rest)

end

/-! ## Distinct keys -/

mutual

/-- Whether no object in a value has a key twice. -/
def KeysDistinct : Value → Prop
  | .array vs => ElementsDistinct vs
  | .object ms => (ms.map (·.1)).Nodup ∧ MembersDistinct ms
  | .null | .bool _ | .number _ | .string _ => True

/-- Whether no object in the elements of a list has a key twice. -/
def ElementsDistinct : List Value → Prop
  | [] => True
  | v :: vs => KeysDistinct v ∧ ElementsDistinct vs

/-- Whether no object in the values of members has a key twice. -/
def MembersDistinct : List (String × Value) → Prop
  | [] => True
  | (_, v) :: rest => KeysDistinct v ∧ MembersDistinct rest

end

/-- Elements have distinct keys if and only if each of them has. -/
theorem elementsDistinct_iff : ElementsDistinct vs ↔ ∀ v ∈ vs, v.KeysDistinct := by
  induction vs with
  | nil => simp [ElementsDistinct]
  | cons v rest ih => simp [ElementsDistinct, ih]

/-- Members have distinct keys inside if and only if each value has. -/
theorem membersDistinct_iff : MembersDistinct ms ↔ ∀ m ∈ ms, m.2.KeysDistinct := by
  induction ms with
  | nil => simp [MembersDistinct]
  | cons m rest ih => simp [MembersDistinct, ih]

/-- A list has distinct keys if and only if each of its elements has. -/
@[simp] theorem keysDistinct_array : (array vs).KeysDistinct ↔ ∀ v ∈ vs, v.KeysDistinct := by
  rw [KeysDistinct, elementsDistinct_iff]

/-- An object has distinct keys if and only if it has and each of its members has. -/
@[simp] theorem keysDistinct_object : (object ms).KeysDistinct ↔
    (ms.map (·.1)).Nodup ∧ ∀ m ∈ ms, m.2.KeysDistinct := by
  rw [KeysDistinct, membersDistinct_iff]

/-- The members of an object have its keys. -/
theorem map_fst_ofMembers (ms : List (String × Json)) :
    (ofMembers ms).map (·.1) = ms.map (·.1) := by
  induction ms with
  | nil => rfl
  | cons m rest ih => exact congrArg (m.1 :: ·) ih

mutual

/-- The value of a JSON value with distinct keys has distinct keys. -/
theorem keysDistinct_ofJson : ∀ {v : Json}, v.KeysDistinct → (ofJson v).KeysDistinct
  | .null, _ | .bool _, _ | .string _, _ | .number _, _ => trivial
  | .array _, h => elementsDistinct_ofElements h
  | .object ms, h => ⟨(map_fst_ofMembers ms).symm ▸ h.1, membersDistinct_ofMembers h.2⟩

/-- The values of elements with distinct keys have distinct keys. -/
theorem elementsDistinct_ofElements :
    ∀ {vs : List Json}, Json.ElementsDistinct vs → ElementsDistinct (ofElements vs)
  | [], _ => trivial
  | _ :: _, h => ⟨keysDistinct_ofJson h.1, elementsDistinct_ofElements h.2⟩

/-- The values of members with distinct keys inside have distinct keys inside. -/
theorem membersDistinct_ofMembers :
    ∀ {ms : List (String × Json)}, Json.MembersDistinct ms → MembersDistinct (ofMembers ms)
  | [], _ => trivial
  | (_, _) :: _, h => ⟨keysDistinct_ofJson h.1, membersDistinct_ofMembers h.2⟩

end

/-! ## Operations -/

/-- Setting a member adds its key at the end, unless it is there. -/
theorem map_fst_setMember (k : String) (v : Value) (ms : List (String × Value)) :
    (setMember k v ms).map (·.1) =
      if k ∈ ms.map (·.1) then ms.map (·.1) else ms.map (·.1) ++ [k] := by
  induction ms with
  | nil => rfl
  | cons m rest ih =>
    rw [setMember]
    split
    · next heq => simp [heq]
    · next hne =>
      rw [List.map_cons, ih, List.map_cons]
      by_cases hmem : k ∈ rest.map (·.1)
      · rw [if_pos hmem, if_pos (.tail _ hmem)]
      · rw [if_neg hmem, if_neg (by simpa [Ne.symm hne] using hmem)]
        rfl

/-- A member after setting one is that one or was there before. -/
theorem eq_or_mem_of_mem_setMember {m : String × Value} (h : m ∈ setMember k v ms) :
    m.2 = v ∨ m ∈ ms := by
  induction ms with
  | nil => simp_all [setMember]
  | cons other rest ih =>
    rw [setMember] at h
    split at h
    · rcases List.mem_cons.1 h with rfl | h
      · exact .inl rfl
      · exact .inr (.tail _ h)
    · rcases List.mem_cons.1 h with rfl | h
      · exact .inr (.head _)
      · exact (ih h).imp_right (.tail _)

/-- Setting a member to a value with distinct keys keeps keys distinct. -/
theorem KeysDistinct.setMember (h : (object ms).KeysDistinct) (hv : v.KeysDistinct) (k : String) :
    (object (Value.setMember k v ms)).KeysDistinct := by
  rw [keysDistinct_object] at h ⊢
  refine ⟨?_, fun m hm => ?_⟩
  · rw [map_fst_setMember]
    split
    · exact h.1
    · next hk => exact List.concat_eq_append ▸ h.1.concat hk
  · rcases eq_or_mem_of_mem_setMember hm with hm | hm
    · exact hm ▸ hv
    · exact h.2 m hm

/-- Setting the members of another object keeps keys distinct. -/
theorem KeysDistinct.foldl_setMember (h : (object ms).KeysDistinct)
    (h' : ∀ m ∈ ns, m.2.KeysDistinct) :
    (object (ns.foldl (fun l (k, x) => Value.setMember k x l) ms)).KeysDistinct := by
  induction ns generalizing ms with
  | nil => exact h
  | cons m rest ih =>
    obtain ⟨hm, hrest⟩ := List.forall_mem_cons.1 h'
    exact ih (h.setMember hm m.1) hrest

/-- Merging objects keeps keys distinct. -/
theorem KeysDistinct.merge (h : (object ms).KeysDistinct) (h' : ∀ m ∈ ns, m.2.KeysDistinct) :
    (object (Value.merge ms ns)).KeysDistinct := by
  fun_induction Value.merge ms ns with
  | case1 => exact h
  | case2 left key right rest merged ihInner ih =>
    obtain ⟨hright, hrest⟩ := List.forall_mem_cons.1 h'
    have hmerged : (object merged).KeysDistinct := by
      unfold merged
      split
      · next inner hinner =>
        exact ihInner inner ((keysDistinct_object.1 h).2 _ (mem_of_lookup hinner))
          (keysDistinct_object.1 hright).2
      · exact hright
    exact ih (h.setMember hmerged key) hrest
  | case3 left key v rest _ ih =>
    obtain ⟨hv, hrest⟩ := List.forall_mem_cons.1 h'
    exact ih (h.setMember hv key) hrest

/-- A value that may be missing has distinct keys, if it has when it is there. -/
theorem keysDistinct_getD {found : Option Value} (h : ∀ w, found = some w → w.KeysDistinct) :
    (found.getD null).KeysDistinct := by
  cases found with
  | none => trivial
  | some w => exact h w rfl

/-- What is found in a value with distinct keys has distinct keys. -/
theorem KeysDistinct.index (hv : v.KeysDistinct) (h : v.index key = .ok w) : w.KeysDistinct := by
  unfold Value.index at h
  split at h
  · cases h
    exact keysDistinct_getD fun x hx => (keysDistinct_object.1 hv).2 _ (mem_of_lookup hx)
  · next vs q =>
    split at h
    · next i _ =>
      cases h
      generalize (if i < 0 then i + vs.length else i) = position
      split
      · trivial
      · exact keysDistinct_getD fun x hx =>
          keysDistinct_array.1 hv x (List.mem_of_getElem? hx)
    · cases h
  · cases h

/-- A part of a list with distinct keys has distinct keys. -/
theorem KeysDistinct.slice {first? last? : Option Value} (hv : v.KeysDistinct)
    (h : v.slice first? last? = .ok w) : w.KeysDistinct := by
  obtain ⟨first, -, h⟩ := Except.bind_eq_ok_iff.1 h
  obtain ⟨last, -, h⟩ := Except.bind_eq_ok_iff.1 h
  cases v with
  | array vs =>
    cases h
    exact keysDistinct_array.2 fun x hx =>
      keysDistinct_array.1 hv x (List.mem_of_mem_take (List.mem_of_mem_drop hx))
  | string s =>
    cases h
    trivial
  | null | bool _ | number _ | object _ => cases h

/-- The elements of a list or the values of an object have distinct keys if it has. -/
theorem KeysDistinct.elements (hv : v.KeysDistinct) (h : v.elements = .ok vs) :
    ∀ w ∈ vs, w.KeysDistinct := by
  cases v with
  | array _ =>
    cases h
    exact keysDistinct_array.1 hv
  | object ms =>
    cases h
    exact List.forall_mem_map.2 (keysDistinct_object.1 hv).2
  | null | bool _ | number _ | string _ => cases h

/-- A length is a number. -/
theorem keysDistinct_length (h : v.length = .ok w) : w.KeysDistinct := by
  cases v with
  | bool _ => cases h
  | number q =>
    rw [Value.length] at h
    split at h <;> cases h <;> trivial
  | null | string _ | array _ | object _ =>
    cases h
    trivial

/-- Keys are texts, and positions numbers. -/
theorem keysDistinct_keys (h : v.keys = .ok w) : w.KeysDistinct := by
  cases v with
  | array _ | object _ =>
    cases h
    rw [keysDistinct_array, List.forall_mem_map]
    exact fun _ _ => trivial
  | null | bool _ | number _ | string _ => cases h

/-- An object with one member has distinct keys if the member has. -/
theorem KeysDistinct.singleton (hv : v.KeysDistinct) (h : Filter.singleton key v = .ok w) :
    w.KeysDistinct := by
  cases key with
  | string k =>
    cases h
    exact keysDistinct_object.2 ⟨List.nodup_singleton k, List.forall_mem_singleton.2 hv⟩
  | null | bool _ | number _ | array _ | object _ => cases h

/-- Sums of values with distinct keys have distinct keys. -/
theorem KeysDistinct.add {x : Value} (hv : v.KeysDistinct) (hw : w.KeysDistinct)
    (h : v.add w = .ok x) : x.KeysDistinct := by
  unfold Value.add at h
  split at h
  case h_5 =>
    cases h
    exact keysDistinct_array.2
      (List.forall_mem_append.2 ⟨keysDistinct_array.1 hv, keysDistinct_array.1 hw⟩)
  case h_6 =>
    cases h
    exact hv.foldl_setMember (keysDistinct_object.1 hw).2
  case h_7 => cases h
  all_goals
    cases h
    trivial

/-- Differences of values with distinct keys have distinct keys. -/
theorem KeysDistinct.subtract {x : Value} (hv : v.KeysDistinct) (h : v.subtract w = .ok x) :
    x.KeysDistinct := by
  unfold Value.subtract at h
  split at h
  · cases h
    trivial
  · cases h
    exact keysDistinct_array.2 fun y hy => keysDistinct_array.1 hv y (List.mem_of_mem_filter hy)
  · cases h

/-- Products of values with distinct keys have distinct keys. -/
theorem KeysDistinct.multiply {x : Value} (hv : v.KeysDistinct) (hw : w.KeysDistinct)
    (h : v.multiply w = .ok x) : x.KeysDistinct := by
  have hrepeated (s : String) (n : Int) : (repeated s n).KeysDistinct := by
    unfold repeated
    split <;> trivial
  unfold Value.multiply at h
  split at h
  · cases h
    trivial
  · split at h <;> cases h
    exact hrepeated _ _
  · split at h <;> cases h
    exact hrepeated _ _
  · cases h
    exact hv.merge (keysDistinct_object.1 hw).2
  · cases h

/-- An operator gives values with distinct keys from values with distinct keys. -/
theorem KeysDistinct.apply {x : Value} (hv : v.KeysDistinct) (hw : w.KeysDistinct)
    (how : Arithmetic) (h : how.apply v w = .ok x) : x.KeysDistinct :=
  match how with
  | .add => hv.add hw h
  | .subtract => hv.subtract h
  | .multiply => hv.multiply hw h

/-- A number with its sign changed is a number. -/
theorem keysDistinct_negate (h : v.negate = .ok w) : w.KeysDistinct := by
  cases v with
  | number q =>
    cases h
    trivial
  | null | bool _ | string _ | array _ | object _ => cases h

end Value
end Filter
end SchemaTypes
