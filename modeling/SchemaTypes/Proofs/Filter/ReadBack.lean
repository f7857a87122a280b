import SchemaTypes.Proofs.Filter.Value
import SchemaTypes.Proofs.Json.Numbers
import SchemaTypes.Proofs.Json.Quoted

/-!
# The text of a value is read back

The JSON text of a value whose numbers are whole is read back as the value
(`Filter.Value.read_text`): its texts, its numbers, and the order of its elements and members, as
long as it is not nested deeper than a document may be and no object has a key twice.
-/

namespace SchemaTypes

namespace Json

variable {c : Char} {cs after rest : List Char} {depth fuel : Nat} {v : Json} {vs : List Json}
  {key : String} {before members : List (String × Json)}

/-! ## Steps of the reader -/

/-- Setting a member whose key is not there puts it at the end. -/
theorem setMember_of_notMem (h : key ∉ before.map (·.1)) :
    setMember key v before = before ++ [(key, v)] := by
  induction before with
  | nil => rfl
  | cons m rest ih =>
    rw [List.map_cons, List.mem_cons, not_or] at h
    rw [setMember, if_neg (Ne.symm h.1), ih h.2]
    rfl

/-- A list is read behind its opening bracket. -/
theorem readValue_list (h : readElements (depth + 1) fuel true cs = .ok (vs, rest)) :
    readValue (depth + 2) (fuel + 1) ('[' :: cs) = .ok (.array vs, rest) := by
  rw [readValue, skipBlanks_cons rfl]
  show (readElements (depth + 1) fuel true cs >>= _) = _
  rw [h]
  rfl

/-- An object is read behind its opening brace. -/
theorem readValue_members (h : readMembers (depth + 1) fuel [] true cs = .ok (members, rest)) :
    readValue (depth + 2) (fuel + 1) ('\x7b' :: cs) = .ok (.object members, rest) := by
  rw [readValue, skipBlanks_cons rfl]
  show (readMembers (depth + 1) fuel [] true cs >>= _) = _
  rw [h]
  rfl

/-- A closing bracket ends a list. -/
theorem readElements_end (first : Bool) :
    readElements depth (fuel + 1) first (']' :: rest) = .ok ([], rest) := by
  rw [readElements, skipBlanks_cons rfl]
  rfl

/-- The first element of a list is read in front of the others. -/
theorem readElements_first (hblank : isBlank c = false) (hc : c ≠ ']')
    (hv : readValue depth fuel (c :: cs) = .ok (v, after))
    (hvs : readElements depth fuel false after = .ok (vs, rest)) :
    readElements depth (fuel + 1) true (c :: cs) = .ok (v :: vs, rest) := by
  rw [readElements, skipBlanks_cons hblank]
  simp [hv, hvs, bind, Except.bind, pure, Except.pure]

/-- A later element of a list is read behind its comma. -/
theorem readElements_comma (hblank : isBlank c = false) (hc : c ≠ ']')
    (hv : readValue depth fuel (c :: cs) = .ok (v, after))
    (hvs : readElements depth fuel false after = .ok (vs, rest)) :
    readElements depth (fuel + 1) false (',' :: c :: cs) = .ok (v :: vs, rest) := by
  rw [readElements, skipBlanks_cons rfl]
  simp [skipBlanks_cons hblank, hc, hv, hvs, bind, Except.bind, pure, Except.pure]

/-- A closing brace ends an object. -/
theorem readMembers_end (first : Bool) :
    readMembers depth (fuel + 1) before first ('\x7d' :: rest) = .ok (before, rest) := by
  rw [readMembers, skipBlanks_cons rfl]
  rfl

/-- The first member of an object is read from its key on. -/
theorem readMembers_first : readMembers depth (fuel + 1) before true ('"' :: cs) =
    readMember depth fuel before cs := by
  rw [readMembers, skipBlanks_cons rfl]
  rfl

/-- A later member of an object is read behind its comma. -/
theorem readMembers_comma : readMembers depth (fuel + 1) before false (',' :: '"' :: cs) =
    readMember depth fuel before cs := by
  rw [readMembers, skipBlanks_cons rfl]
  simp [skipBlanks_cons (c := '"') rfl]

/-- A member is read with its key, the colon and its value. -/
theorem readMember_colon (hkey : readString cs = .ok (key, ':' :: after))
    (hv : readValue depth fuel after = .ok (v, rest)) :
    readMember depth (fuel + 1) before cs =
      readMembers depth fuel (setMember key v before) false rest := by
  rw [readMember, hkey]
  simp [skipBlanks_cons (c := ':') rfl, hv, bind, Except.bind]

end Json

namespace Filter
namespace Value

open Json (EndsNumber isBlank readValue readElements readMembers readMember skipBlanks)

variable {v : Value} {rest : List Char} {depth fuel : Nat}

/-! ## How texts are put together -/

/-- The characters of a value are read back. -/
theorem readsBack_escapeChar : Json.ReadsBack escapeChar := by
  intro fuel rest cs last c h
  rw [escapeChar]
  split
  · next hc =>
    refine Json.readChars_escapeCode h ?_
    simp only [Bool.or_eq_true, decide_eq_true_eq] at hc
    rcases hc with rfl | rfl <;> decide
  · exact Json.readsBack_escapeChar c h

/-- A member of an object as it is written. -/
def memberText (m : String × Value) : List Char :=
  (quote m.1).toList ++ ':' :: (text m.2).toList

/-- A text with its quotes, as it is written. -/
theorem toList_quote (s : String) :
    (quote s).toList = '"' :: (s.toList.flatMap escapeChar ++ ['"']) := by
  rw [quote, String.toList_ofList, List.cons_append]

/-- A member is written with its key in quotes and a colon behind it. -/
theorem memberText_eq (k : String) (v : Value) : memberText (k, v) =
    '"' :: (k.toList.flatMap escapeChar ++ '"' :: ':' :: (text v).toList) := by
  simp [memberText, toList_quote]

/-- The elements of a list are written with a comma in front of each but the first. -/
theorem toList_elementsText (v : Value) (vs : List Value) : (elementsText (v :: vs)).toList =
    (text v).toList ++ vs.flatMap fun w => ',' :: (text w).toList := by
  induction vs generalizing v with
  | nil => simp [elementsText]
  | cons w more ih => simp [elementsText, ih]

/-- The members of an object are written with a comma in front of each but the first. -/
theorem toList_membersText (m : String × Value) (ms : List (String × Value)) :
    (membersText (m :: ms)).toList = memberText m ++ ms.flatMap fun n => ',' :: memberText n := by
  induction ms generalizing m with
  | nil => simp [membersText, memberText]
  | cons n more ih => simp [membersText, memberText, ih]

/-- A list is written with brackets around it. -/
theorem toList_text_array (vs : List Value) :
    (text (.array vs)).toList = '[' :: ((elementsText vs).toList ++ [']']) := by
  simp [text]

/-- An object is written with braces around it. -/
theorem toList_text_object (ms : List (String × Value)) :
    (text (.object ms)).toList = '\x7b' :: ((membersText ms).toList ++ ['\x7d']) := by
  simp [text]

/-- What starts with a comma, or else with what ends a number, ends a number. -/
theorem endsNumber_flatMap {α : Type} {f : α → List Char} (l : List α)
    (h : EndsNumber rest) : EndsNumber ((l.flatMap fun a => ',' :: f a) ++ rest) := by
  cases l with
  | nil => exact h
  | cons a more => exact Json.endsNumber_cons (by decide) _

/-! ## Reading -/

/-- The text of a value is read up to what stands behind it, if lists and objects may be nested as
deep as the limit says. It does not start like the end of a list. -/
structure IsReadBack (limit : Nat) (v : Value) : Prop where
  starts : ∃ c cs, (text v).toList = c :: cs ∧ isBlank c = false ∧ c ≠ ']'
  read {fuel : Nat} {rest : List Char} : 2 * (text v).toList.length + 1 ≤ fuel → EndsNumber rest →
    readValue limit fuel ((text v).toList ++ rest) = .ok (v.toJson, rest)

namespace IsReadBack

variable {vs : List Value} {ms : List (String × Value)} {limit : Nat}

theorem null : IsReadBack limit .null where
  starts := ⟨'n', ['u', 'l', 'l'], by simp [text], rfl, by decide⟩
  read {fuel rest} hfuel _ := by
    obtain ⟨fuel, rfl⟩ : ∃ n, fuel = n + 1 := ⟨fuel - 1, by omega⟩
    simp [text, readValue, Json.skipBlanks_cons (c := 'n') rfl, Json.readWord, toJson]

theorem bool (b : Bool) : IsReadBack limit (.bool b) where
  starts := by cases b <;> simp [text, Json.isBlank]
  read {fuel rest} hfuel _ := by
    obtain ⟨fuel, rfl⟩ : ∃ n, fuel = n + 1 := ⟨fuel - 1, by omega⟩
    cases b
    · simp [text, readValue, Json.skipBlanks_cons (c := 'f') rfl, Json.readWord, toJson]
    · simp [text, readValue, Json.skipBlanks_cons (c := 't') rfl, Json.readWord, toJson]

/-- A whole number is read back. -/
theorem number {q : Quantity} {n : Integer} (hn : q.integer? = some n) :
    IsReadBack limit (.number q) where
  starts := by
    rw [text, Quantity.text_of_integer? hn, Json.toList_toString_int]
    split
    · exact ⟨'-', _, rfl, rfl, by decide⟩
    · obtain ⟨c, cs, hcons, hdigit⟩ := Json.exists_toDigits_eq n.value.natAbs
      refine ⟨c, cs, hcons, Json.isBlank_of_isDigit hdigit, ?_⟩
      rintro rfl
      cases hdigit
  read {fuel rest} hfuel hrest := by
    obtain ⟨fuel, rfl⟩ : ∃ n, fuel = n + 1 := ⟨fuel - 1, by omega⟩
    rw [text, Quantity.text_of_integer? hn, Json.readValue_integer n hrest, toJson,
      Quantity.toNumber, hn]

/-- A text is read back. -/
theorem string (s : String) : IsReadBack limit (.string s) where
  starts := ⟨'"', _, toList_quote s, rfl, by decide⟩
  read {fuel rest} hfuel _ := by
    obtain ⟨fuel, rfl⟩ : ∃ n, fuel = n + 1 := ⟨fuel - 1, by omega⟩
    rw [text, toList_quote, List.cons_append, List.append_assoc, List.singleton_append, readValue,
      Json.skipBlanks_cons rfl]
    show (Json.readString (s.toList.flatMap escapeChar ++ '"' :: rest) >>= _) = _
    rw [readsBack_escapeChar.readString_quote]
    rfl

/-- An element of a list is read up to the next comma or the closing bracket. -/
theorem read_element (h : IsReadBack limit v) (vs : List Value) {fuel : Nat} {rest : List Char}
    (hfuel : 2 * (text v).toList.length + 1 ≤ fuel) :
    readValue limit fuel ((text v).toList ++
      ((vs.flatMap fun w => ',' :: (text w).toList) ++ ']' :: rest)) =
        .ok (v.toJson, (vs.flatMap fun w => ',' :: (text w).toList) ++ ']' :: rest) :=
  h.read hfuel (endsNumber_flatMap vs (Json.endsNumber_cons (by decide) rest))

/-- The later elements of a list are read up to its closing bracket. -/
theorem elements (h : ∀ v ∈ vs, IsReadBack limit v) {fuel : Nat} {rest : List Char}
    (hfuel : 2 * (vs.flatMap fun w => ',' :: (text w).toList).length + 1 ≤ fuel) :
    readElements limit fuel false ((vs.flatMap fun w => ',' :: (text w).toList) ++ ']' :: rest) =
      .ok (elementsToJson vs, rest) := by
  induction vs generalizing fuel with
  | nil =>
    obtain ⟨fuel, rfl⟩ : ∃ n, fuel = n + 1 := ⟨fuel - 1, by omega⟩
    exact Json.readElements_end false
  | cons v vs ih =>
    obtain ⟨hv, hvs⟩ := List.forall_mem_cons.1 h
    obtain ⟨c, cs, hcons, hblank, hc⟩ := hv.starts
    simp only [List.flatMap_cons, List.length_cons, List.length_append] at hfuel
    simp only [List.flatMap_cons, List.cons_append, List.append_assoc]
    obtain ⟨fuel, rfl⟩ : ∃ n, fuel = n + 1 := ⟨fuel - 1, by omega⟩
    have hread := @read_element v limit hv vs fuel rest (by omega)
    rw [hcons] at hread ⊢
    exact Json.readElements_comma hblank hc hread (ih hvs (by omega))

/-- A list is read back, if its elements are. -/
theorem array (h : ∀ v ∈ vs, IsReadBack (limit + 1) v) : IsReadBack (limit + 2) (.array vs) where
  starts := ⟨'[', _, toList_text_array vs, rfl, by decide⟩
  read {fuel rest} hfuel _ := by
    rw [toList_text_array] at hfuel ⊢
    simp only [List.length_cons, List.length_append] at hfuel
    obtain ⟨fuel, rfl⟩ : ∃ n, fuel = n + 2 := ⟨fuel - 2, by omega⟩
    cases vs with
    | nil => exact Json.readValue_list (Json.readElements_end true)
    | cons v vs =>
      obtain ⟨hv, hvs⟩ := List.forall_mem_cons.1 h
      obtain ⟨c, cs, hcons, hblank, hc⟩ := hv.starts
      rw [toList_elementsText, List.length_append] at hfuel
      rw [toList_elementsText]
      simp only [List.cons_append, List.append_assoc, List.nil_append]
      have hread := @read_element v (limit + 1) hv vs fuel rest (by omega)
      rw [hcons] at hread ⊢
      exact Json.readValue_list (Json.readElements_first hblank hc hread
        (elements hvs (by omega)))

/-- A member of an object is read before the later ones. -/
theorem read_member (h : IsReadBack limit v) (k : String) (ms : List (String × Value))
    {before : List (String × Json)} {fuel : Nat} {rest : List Char}
    (hfuel : 2 * (text v).toList.length + 1 ≤ fuel) :
    readMember limit (fuel + 1) before (k.toList.flatMap escapeChar ++ '"' :: ':' ::
      ((text v).toList ++ ((ms.flatMap fun m => ',' :: memberText m) ++ '\x7d' :: rest))) =
        readMembers limit fuel (Json.setMember k v.toJson before) false
          ((ms.flatMap fun m => ',' :: memberText m) ++ '\x7d' :: rest) :=
  Json.readMember_colon (readsBack_escapeChar.readString_quote k _)
    (h.read hfuel (endsNumber_flatMap ms (Json.endsNumber_cons (by decide) rest)))

/-- The later members of an object are read up to its closing brace. -/
theorem members (h : ∀ m ∈ ms, IsReadBack limit m.2) {before : List (String × Json)} {fuel : Nat}
    {rest : List Char} (hnodup : (before.map (·.1) ++ ms.map (·.1)).Nodup)
    (hfuel : 2 * (ms.flatMap fun m => ',' :: memberText m).length + 1 ≤ fuel) :
    readMembers limit fuel before false
        ((ms.flatMap fun m => ',' :: memberText m) ++ '\x7d' :: rest) =
      .ok (before ++ membersToJson ms, rest) := by
  induction ms generalizing before fuel with
  | nil =>
    obtain ⟨fuel, rfl⟩ : ∃ n, fuel = n + 1 := ⟨fuel - 1, by omega⟩
    exact (Json.readMembers_end false).trans (by rw [membersToJson, List.append_nil])
  | cons m ms ih =>
    obtain ⟨k, v⟩ := m
    obtain ⟨hv : IsReadBack limit v, hms⟩ := List.forall_mem_cons.1 h
    have hfresh : k ∉ before.map (·.1) := fun hmem =>
      (List.nodup_append.1 hnodup).2.2 k hmem k (.head _) rfl
    simp only [List.flatMap_cons, memberText_eq, List.length_cons, List.length_append] at hfuel
    simp only [List.flatMap_cons, memberText_eq, List.cons_append, List.append_assoc]
    obtain ⟨fuel, rfl⟩ : ∃ n, fuel = n + 2 := ⟨fuel - 2, by omega⟩
    rw [Json.readMembers_comma, hv.read_member k ms (by omega), Json.setMember_of_notMem hfresh,
      ih hms (by simpa using hnodup) (by omega), List.append_assoc]
    rfl

/-- An object is read back, if its members are and no key is there twice. -/
theorem object (h : ∀ m ∈ ms, IsReadBack (limit + 1) m.2) (hnodup : (ms.map (·.1)).Nodup) :
    IsReadBack (limit + 2) (.object ms) where
  starts := ⟨'\x7b', _, toList_text_object ms, rfl, by decide⟩
  read {fuel rest} hfuel _ := by
    rw [toList_text_object] at hfuel ⊢
    simp only [List.length_cons, List.length_append] at hfuel
    obtain ⟨fuel, rfl⟩ : ∃ n, fuel = n + 3 := ⟨fuel - 3, by omega⟩
    cases ms with
    | nil => exact Json.readValue_members (Json.readMembers_end true)
    | cons m ms =>
      obtain ⟨k, v⟩ := m
      obtain ⟨hv : IsReadBack (limit + 1) v, hms⟩ := List.forall_mem_cons.1 h
      rw [toList_membersText, memberText_eq] at hfuel ⊢
      simp only [List.length_cons, List.length_append] at hfuel
      simp only [List.cons_append, List.append_assoc, List.nil_append]
      refine Json.readValue_members (Json.readMembers_first.trans ?_)
      rw [hv.read_member k ms (by omega)]
      exact members hms hnodup (by omega)

end IsReadBack

mutual

/-- A value is read back, if its numbers are whole, no object has a key twice, and it is nested less
deep than the limit says. -/
theorem isReadBack : ∀ {v : Value} {limit : Nat}, v.isWhole = true → v.KeysDistinct →
    v.depth < limit → IsReadBack limit v
  | .null, _, _, _, _ => .null
  | .bool b, _, _, _, _ => .bool b
  | .number _, _, h, _, _ => (Option.isSome_iff_exists.1 h).elim fun _ => .number
  | .string s, _, _, _, _ => .string s
  | .array _, _ + 2, h, hd, hdepth =>
    .array (isReadBack_elements h hd (Nat.lt_of_succ_lt_succ hdepth))
  | .object _, _ + 2, h, hd, hdepth =>
    .object (isReadBack_members h hd.2 (Nat.lt_of_succ_lt_succ hdepth)) hd.1

/-- The elements of a list are read back. -/
theorem isReadBack_elements : ∀ {vs : List Value} {limit : Nat}, elementsWhole vs = true →
    ElementsDistinct vs → elementsDepth vs < limit → ∀ v ∈ vs, IsReadBack limit v
  | [], _, _, _, _ => nofun
  | _ :: _, _, h, hd, hdepth =>
    have hwhole := Bool.and_eq_true_iff.1 h
    List.forall_mem_cons.2 ⟨isReadBack hwhole.1 hd.1 (max_lt_iff.1 hdepth).1,
      isReadBack_elements hwhole.2 hd.2 (max_lt_iff.1 hdepth).2⟩

/-- The members of an object are read back. -/
theorem isReadBack_members : ∀ {ms : List (String × Value)} {limit : Nat}, membersWhole ms = true →
    MembersDistinct ms → membersDepth ms < limit → ∀ m ∈ ms, IsReadBack limit m.2
  | [], _, _, _, _ => nofun
  | (_, _) :: _, _, h, hd, hdepth =>
    have hwhole := Bool.and_eq_true_iff.1 h
    List.forall_mem_cons.2 ⟨isReadBack hwhole.1 hd.1 (max_lt_iff.1 hdepth).1,
      isReadBack_members hwhole.2 hd.2 (max_lt_iff.1 hdepth).2⟩

end

/-- The text of a value whose numbers are whole is read back, if no object has a key twice and
lists and objects are nested less deep than a document's may be. -/
theorem read_text (h : v.isWhole = true) (hd : v.KeysDistinct)
    (hdepth : v.depth < Json.depthLimit) : Json.read v.text = .ok v.toJson := by
  have hread := @(isReadBack h hd hdepth).read (3 * (text v).toList.length + 3) [] (by omega) nofun
  rw [List.append_nil] at hread
  rw [Json.read, Json.readWithin, Json.readText, hread]
  rfl

end Value
end Filter
end SchemaTypes
