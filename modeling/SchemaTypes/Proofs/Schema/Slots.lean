import Mathlib.Data.List.Induction
import Mathlib.Data.List.Nodup
import SchemaTypes.Proofs.Schema.Walk

/-!
# Slots as addresses

A schema that was read from a value with distinct keys has distinct keys too
(`Schema.keysDistinct_of_read`), so each of its slots holds one schema, which is what looking up the
slot finds (`Schema.child?_of_holds`), and none is filled twice (`Schema.nodup_map_fst_children`).
The steps of a slot lead there (`Schema.walk?_steps`), and no two filled slots start the same steps
(`Schema.eq_of_steps_append`). In the value, the steps lead to what the schema in the slot was read
from, as long as the value is an object (`Schema.exists_follow?_steps`); into a list no keyword
leads.
-/

namespace SchemaTypes

/-! ## Positions -/

namespace Step

/-- A position is written strictly. -/
theorem strictIndex?_toString (i : Nat) : strictIndex? (toString i) = some i := by
  have hlist : (toString i).toList = Nat.toDigits 10 i := Nat.toList_repr
  rw [strictIndex?, hlist]
  split
  · next c rest h =>
    by_cases hi : 0 < i
    · have hzero := head?_toDigits_ne i hi
      rw [h] at hzero
      exact absurd rfl hzero
    · rw [Nat.eq_zero_of_not_pos hi] at h
      cases h
  · exact digits?_toDigits i

/-- A digit is the one that its value is written with. -/
theorem digitChar_of_isDigit {c : Char} (h : c.isDigit = true) :
    (c.toNat - '0'.toNat).digitChar = c := by
  obtain ⟨hlow, hhigh⟩ := Char.isDigit_iff_toNat.1 h
  have hzero : '0'.toNat = 48 := rfl
  have hnine : '9'.toNat = 57 := rfl
  have hdigit : (c.toNat - '0'.toNat).digitChar.isDigit = true := by
    rw [Nat.isDigit_digitChar, decide_eq_true_iff]
    omega
  have hvalue := Nat.toNat_digitChar_sub_48_of_lt_ten (n := c.toNat - '0'.toNat) (by omega)
  have := (Char.isDigit_iff_toNat.1 hdigit).1
  apply Char.toNat_inj.1
  omega

/-- Digits without a zero in front are those of the number they make. -/
theorem toDigits_ofDigitChars {cs : List Char} (hne : cs ≠ [])
    (hdigits : ∀ c ∈ cs, c.isDigit = true) (hzero : ∀ c rest, cs ≠ '0' :: c :: rest) :
    Nat.toDigits 10 (Nat.ofDigitChars 10 cs 0) = cs := by
  induction cs using List.reverseRecOn with
  | nil => exact absurd rfl hne
  | append_singleton before c ih =>
    have hc : c.isDigit = true := hdigits c (List.mem_append_right _ (.head _))
    have hlt : c.toNat - '0'.toNat < 10 := by
      have := (Char.isDigit_iff_toNat.1 hc).2
      have hzero : '0'.toNat = 48 := rfl
      have hnine : '9'.toNat = 57 := rfl
      omega
    have hlast : Nat.toDigits 10 (c.toNat - '0'.toNat) = [c] := by
      rw [Nat.toDigits_of_lt_base hlt, digitChar_of_isDigit hc]
    rw [Nat.ofDigitChars_append, Nat.ofDigitChars_cons, Nat.ofDigitChars_nil]
    cases before with
    | nil => simpa using hlast
    | cons first rest =>
      have hfirst : first ≠ '0' := by
        rintro rfl
        cases rest with
        | nil => exact hzero c [] rfl
        | cons second rest => exact hzero second (rest ++ [c]) rfl
      have hbefore := ih (List.cons_ne_nil _ _)
        (fun b hb => hdigits b (List.mem_append_left _ hb))
        (fun b rest' heq => hfirst (List.cons.inj heq).1)
      have hpos : 0 < Nat.ofDigitChars 10 (first :: rest) 0 := by
        refine Nat.pos_of_ne_zero fun hnil => hfirst ?_
        rw [hnil, Nat.toDigits_zero] at hbefore
        exact (List.cons.inj hbefore).1.symm
      rw [← Nat.toDigits_append_toDigits (by decide) hpos hlt, hbefore, hlast]

/-- What reads strictly as a position is the text of the position. -/
theorem toString_of_strictIndex? {step : String} {i : Nat} (h : strictIndex? step = some i) :
    toString i = step := by
  rw [strictIndex?] at h
  split at h
  · cases h
  · next hzero =>
    rw [digits?] at h
    split at h
    · cases h
    · next hdigits =>
      rw [not_or, List.isEmpty_iff, Bool.not_eq_true', Bool.not_eq_false, List.all_eq_true]
        at hdigits
      have hi : Nat.ofDigitChars 10 step.toList 0 = i := Option.some.inj h
      have hlist := toDigits_ofDigitChars hdigits.1 hdigits.2 hzero
      rw [hi] at hlist
      exact String.toList_inj.1 (Nat.toList_repr.trans hlist)

end Step

namespace Schema

variable {s t c : Schema} {slot : Slot} {v : Json}

/-! ## Distinct keys -/

/-- No keyed container of a schema has a key twice. -/
structure KeysDistinct (s : Schema) : Prop where
  definitions : ∀ entries, s.definitions = some entries → (entries.map (·.1)).Nodup
  defs : ∀ entries, s.defs = some entries → (entries.map (·.1)).Nodup
  properties : ∀ entries, s.properties = some entries → (entries.map (·.1)).Nodup

/-- The schemas of a container stand under the keys of the members they were read from. -/
theorem keys_of_readEntries {members : List (String × Json)} {entries : List (String × Schema)}
    (h : readEntries members = .ok entries) : entries.map (·.1) = members.map (·.1) := by
  induction members generalizing entries with
  | nil =>
    cases h
    rfl
  | cons m rest ih =>
    obtain ⟨key, w⟩ := m
    rw [readEntries] at h
    obtain ⟨d, ds, -, hds, rfl⟩ := Except.bind_bind_pure_eq_ok_iff.1 h
    rw [List.map_cons, List.map_cons, ih hds]

/-- A keyword that holds no schemas changes no container. -/
theorem containers_readFacet {s' : Schema} {keyword : Keyword}
    (h : readFacet s keyword v = .ok s') :
    s'.definitions = s.definitions ∧ s'.defs = s.defs ∧ s'.properties = s.properties := by
  cases keyword <;> simp only [readFacet] at h
  case const | properties | items | additionalProperties | oneOf | anyOf | allOf | definitions
      | defs =>
    cases h
    exact ⟨rfl, rfl, rfl⟩
  all_goals
    obtain ⟨a, -, h⟩ := Except.bind_eq_ok_iff.1 h
    cases h
    exact ⟨rfl, rfl, rfl⟩

/-- Keys stay distinct when a keyword is read from a value with distinct keys. -/
theorem Takes.keysDistinct {s' : Schema} {keyword : Keyword} (h : Takes s keyword v s')
    (hv : v.KeysDistinct) (hs : s.KeysDistinct) : s'.KeysDistinct := by
  cases h with
  | absent => exact hs
  | facet _ h =>
    obtain ⟨hdefinitions, hdefs, hproperties⟩ := containers_readFacet h
    constructor
    · rw [hdefinitions]
      exact hs.definitions
    · rw [hdefs]
      exact hs.defs
    · rw [hproperties]
      exact hs.properties
  | definitions h =>
    refine ⟨fun entries heq => ?_, hs.defs, hs.properties⟩
    cases heq
    rw [keys_of_readEntries h]
    exact hv.1
  | defs h =>
    refine ⟨hs.definitions, fun entries heq => ?_, hs.properties⟩
    cases heq
    rw [keys_of_readEntries h]
    exact hv.1
  | properties h =>
    refine ⟨hs.definitions, hs.defs, fun entries heq => ?_⟩
    cases heq
    rw [keys_of_readEntries h]
    exact hv.1
  | each _ | tuple _ | allowed | others _ | oneOf _ | anyOf _ | allOf _ =>
    exact ⟨hs.definitions, hs.defs, hs.properties⟩

/-- Keys stay distinct when several keywords are read. -/
theorem TakesAll.keysDistinct {assigned : List (Keyword × Json)} (h : TakesAll s assigned t)
    (hv : ∀ a ∈ assigned, a.2.KeysDistinct) (hs : s.KeysDistinct) : t.KeysDistinct := by
  induction h with
  | nil => exact hs
  | cons htakes _ ih =>
    have hfirst := htakes.keysDistinct (hv _ (.head _)) hs
    exact ih (fun a ha => hv a (.tail _ ha)) hfirst

/-- A schema that was read from a value with distinct keys has distinct keys. -/
theorem keysDistinct_of_read (hv : v.KeysDistinct) (h : read v = .ok s) : s.KeysDistinct := by
  have hparts : ∀ a ∈ v.assigned, a.2.KeysDistinct :=
    fun a ha => (part_of_mem_assigned ha).1.keysDistinct hv
  exact (takesAll_of_read h).keysDistinct hparts ⟨nofun, nofun, nofun⟩

/-- What a slot holds is what looking it up finds. -/
theorem child?_of_holds (hs : s.KeysDistinct) (h : s.Holds slot c) : s.child? slot = some c := by
  cases slot with
  | definition key =>
    obtain ⟨entries, heq, hmem⟩ := h
    rw [child?, heq]
    exact lookup_of_mem (hs.definitions entries heq) hmem
  | defs key =>
    obtain ⟨entries, heq, hmem⟩ := h
    rw [child?, heq]
    exact lookup_of_mem (hs.defs entries heq) hmem
  | property key =>
    obtain ⟨entries, heq, hmem⟩ := h
    rw [child?, heq]
    exact lookup_of_mem (hs.properties entries heq) hmem
  | item | otherProperties =>
    simp only [Holds] at h
    rw [child?, h]
  | itemAt i =>
    obtain ⟨cs, heq, hget⟩ := h
    rw [child?, heq]
    exact hget
  | oneOf i | anyOf i | allOf i =>
    obtain ⟨cs, heq, hget⟩ := h
    rw [child?, heq]
    exact hget

/-! ## Slots that are filled -/

/-- The schemas that a schema holds for a keyword, with their slots. -/
def childrenOf (s : Schema) : Keyword → List (Slot × Schema)
  | .definitions => keyed .definition s.definitions
  | .defs => keyed .defs s.defs
  | .properties => keyed .property s.properties
  | .items =>
    match s.items with
    | some (.each c) => [(.item, c)]
    | some (.tuple cs) => listed .itemAt (some cs)
    | none => []
  | .additionalProperties =>
    match s.additionalProperties with
    | some (.schema c) => [(.otherProperties, c)]
    | _ => []
  | .oneOf => listed .oneOf s.oneOf
  | .anyOf => listed .anyOf s.anyOf
  | .allOf => listed .allOf s.allOf
  | _ => []

/-- What a schema holds, it holds for one keyword after the other. -/
theorem children_eq_flatMap (s : Schema) :
    s.children = [.definitions, .defs, .properties, .items, .additionalProperties, .oneOf, .anyOf,
      .allOf].flatMap s.childrenOf := by
  simp only [children, List.flatMap_cons, List.flatMap_nil, List.append_assoc, List.append_nil]
  rfl

/-- The slots of a keyword are written by it. -/
theorem keyword_of_mem_childrenOf {keyword : Keyword} (h : (slot, c) ∈ s.childrenOf keyword) :
    slot.keyword = keyword := by
  unfold childrenOf at h
  split at h
  case h_1 | h_2 | h_3 =>
    obtain ⟨key, _, rfl, -, -⟩ := mem_keyed.1 h
    rfl
  case h_4 =>
    split at h
    · cases List.mem_singleton.1 h
      rfl
    · obtain ⟨i, _, rfl, -, -⟩ := mem_listed.1 h
      rfl
    · cases h
  case h_5 =>
    split at h
    · cases List.mem_singleton.1 h
      rfl
    · cases h
  case h_6 | h_7 | h_8 =>
    obtain ⟨i, _, rfl, -, -⟩ := mem_listed.1 h
    rfl
  case h_9 => cases h

/-- The slots of a keyed container are different if its keys are. -/
theorem nodup_map_fst_keyed {slotOf : String → Slot} (hinj : Function.Injective slotOf)
    {entries : Option (List (String × Schema))}
    (h : ∀ es, entries = some es → (es.map (·.1)).Nodup) :
    ((keyed slotOf entries).map (·.1)).Nodup := by
  cases entries with
  | none => exact .nil
  | some es =>
    have hmap : (keyed slotOf (some es)).map (·.1) = (es.map (·.1)).map slotOf := by simp [keyed]
    rw [hmap]
    exact (h es rfl).map hinj

/-- The slots of a list are different. -/
theorem nodup_map_fst_listed {slotOf : Nat → Slot} (hinj : Function.Injective slotOf)
    (members : Option (List Schema)) : ((listed slotOf members).map (·.1)).Nodup := by
  have hmap : (listed slotOf members).map (·.1) =
      (List.range (members.getD []).length).map slotOf := by
    refine List.ext_getElem (by simp [listed]) fun i _ _ => ?_
    simp [listed]
  rw [hmap]
  exact List.nodup_range.map hinj

/-- No slot of a keyword is filled twice. -/
theorem nodup_map_fst_childrenOf (hs : s.KeysDistinct) (keyword : Keyword) :
    ((s.childrenOf keyword).map (·.1)).Nodup := by
  unfold childrenOf
  split
  · exact nodup_map_fst_keyed (fun _ _ => Slot.definition.inj) hs.definitions
  · exact nodup_map_fst_keyed (fun _ _ => Slot.defs.inj) hs.defs
  · exact nodup_map_fst_keyed (fun _ _ => Slot.property.inj) hs.properties
  · split
    · exact List.nodup_singleton _
    · exact nodup_map_fst_listed (fun _ _ => Slot.itemAt.inj) _
    · exact .nil
  · split
    · exact List.nodup_singleton _
    · exact .nil
  · exact nodup_map_fst_listed (fun _ _ => Slot.oneOf.inj) _
  · exact nodup_map_fst_listed (fun _ _ => Slot.anyOf.inj) _
  · exact nodup_map_fst_listed (fun _ _ => Slot.allOf.inj) _
  · exact .nil

/-- No slot of a schema with distinct keys is filled twice. -/
theorem nodup_map_fst_children (hs : s.KeysDistinct) : (s.children.map (·.1)).Nodup := by
  rw [children_eq_flatMap, List.map_flatMap, List.nodup_flatMap]
  refine ⟨fun keyword _ => nodup_map_fst_childrenOf hs keyword, ?_⟩
  have hkeywords : [Keyword.definitions, .defs, .properties, .items, .additionalProperties, .oneOf,
      .anyOf, .allOf].Nodup := by decide
  refine hkeywords.imp fun {k k'} hne slot hk hk' => hne ?_
  obtain ⟨⟨_, c⟩, hmem, rfl⟩ := List.mem_map.1 hk
  obtain ⟨⟨_, c'⟩, hmem', rfl⟩ := List.mem_map.1 hk'
  exact (keyword_of_mem_childrenOf hmem).symm.trans (keyword_of_mem_childrenOf hmem')

/-! ## Steps into a slot -/

/-- The slot that the first step or the first two of some steps name. -/
def firstSlot? (s : Schema) : List String → Option Slot
  | [] => none
  | step :: rest =>
    match s.slotOf step with
    | some slot => some slot
    | none => rest.head?.bind (slotOfPair step)

/-- The two steps that a slot is written by name it. -/
theorem slotOfPair_of_steps {head next : String} (h : slot.steps = [head, next]) :
    slotOfPair head next = some slot := by
  cases slot with
  | definition | defs | property =>
    cases h
    rfl
  | item | otherProperties => cases h
  | itemAt i | oneOf i | anyOf i | allOf i =>
    cases h
    rw [slotOfPair, Step.index?_toString]
    rfl

/-- A slot that is filled is written by a single step that names it, or by two of which the first
alone names none. -/
theorem steps_of_holds (h : s.Holds slot c) :
    (∃ step, slot.steps = [step] ∧ s.slotOf step = some slot) ∨
      ∃ head next, slot.steps = [head, next] ∧ s.slotOf head = none ∧
        slotOfPair head next = some slot := by
  cases slot with
  | item =>
    simp only [Holds] at h
    exact .inl ⟨"items", rfl, by simp [slotOf, h]⟩
  | otherProperties => exact .inl ⟨"additionalProperties", rfl, rfl⟩
  | itemAt i =>
    obtain ⟨cs, heq, -⟩ := h
    exact .inr ⟨_, _, rfl, by simp [slotOf, heq], slotOfPair_of_steps rfl⟩
  | definition | defs | property | oneOf | anyOf | allOf =>
    exact .inr ⟨_, _, rfl, by simp [slotOf], slotOfPair_of_steps rfl⟩

/-- The steps of a slot that is filled name it, whatever comes behind them. -/
theorem firstSlot?_steps_append (h : s.Holds slot c) (rest : List String) :
    s.firstSlot? (slot.steps ++ rest) = some slot := by
  rcases steps_of_holds h with ⟨step, hsteps, hslot⟩ | ⟨head, next, hsteps, hnone, hpair⟩
  · simp [hsteps, firstSlot?, hslot]
  · simp [hsteps, firstSlot?, hnone, hpair]

/-- Two slots that are filled are the same if some steps start with those of either. -/
theorem eq_of_steps_append {slot' : Slot} {c' : Schema} {rest rest' : List String}
    (h : s.Holds slot c) (h' : s.Holds slot' c')
    (heq : slot.steps ++ rest = slot'.steps ++ rest') : slot = slot' := by
  have hfirst := firstSlot?_steps_append h rest
  rw [heq, firstSlot?_steps_append h'] at hfirst
  exact (Option.some.inj hfirst).symm

/-- A walk whose first step names a slot goes on in what the slot holds. -/
theorem walk?_cons {step : String} (hslot : s.slotOf step = some slot) (rest : List String) :
    s.walk? (step :: rest) = (s.child? slot).bind (·.walk? rest) := by
  cases rest with
  | nil => cases h : s.child? slot <;> simp [walk?, hslot, h]
  | cons next rest => rw [walk?, hslot]

/-- A walk whose first two steps name a slot only together goes on in what the slot holds. -/
theorem walk?_cons_cons {step : String} (hslot : s.slotOf step = none) (next : String)
    (rest : List String) :
    s.walk? (step :: next :: rest) =
      ((slotOfPair step next).bind s.child?).bind (·.walk? rest) := by
  rw [walk?, hslot]

/-- A walk goes on from where it has come to. -/
theorem walk?_append {steps : List String} (h : s.walk? steps = some t) (rest : List String) :
    s.walk? (steps ++ rest) = t.walk? rest := by
  induction s, steps using walk?.induct with
  | case1 s =>
    cases h
    rfl
  | case2 s step =>
    rw [walk?] at h
    obtain ⟨slot, hslot, hc⟩ := Option.bind_eq_some_iff.1 h
    rw [List.singleton_append, walk?_cons hslot, hc, Option.bind_some]
  | case3 s step next steps slot hslot ih =>
    rw [walk?_cons hslot] at h
    obtain ⟨d, hd, hsteps⟩ := Option.bind_eq_some_iff.1 h
    rw [List.cons_append, walk?_cons hslot, hd, Option.bind_some, ih d hsteps]
  | case4 s step next steps hslot ih =>
    rw [walk?_cons_cons hslot] at h
    obtain ⟨d, hd, hsteps⟩ := Option.bind_eq_some_iff.1 h
    rw [List.cons_append, List.cons_append, walk?_cons_cons hslot, hd, Option.bind_some,
      ih d hsteps]

/-- A walk by the steps of a slot leads to what it holds. -/
theorem walk?_steps (hs : s.KeysDistinct) (h : s.Holds slot c) : s.walk? slot.steps = some c := by
  have hc := child?_of_holds hs h
  rcases steps_of_holds h with ⟨step, hsteps, hslot⟩ | ⟨head, next, hsteps, hnone, hpair⟩
  · rw [hsteps, walk?_cons hslot, hc]
    rfl
  · rw [hsteps, walk?_cons_cons hnone, hpair, Option.bind_some, hc]
    rfl

/-! ## Steps into a value -/

/-- Into a list no keyword leads. -/
theorem follow?_keyword_array (elements : List Json) (keyword : Keyword) (rest : List String) :
    (Json.array elements).follow? (keyword.text :: rest) = none := by
  rw [Json.follow?, Json.step?, strictIndex?_keyword]
  rfl

/-- A keyword is the second step of entries only, which no list has. -/
theorem inside?_array_of_slotOfPair {head : String} {keyword : Keyword}
    (h : slotOfPair head keyword.text = some slot) (elements : List Json) :
    slot.keyword.text = head ∧ slot.inside? (.array elements) = none := by
  have hindex : Step.index? keyword.text = none := by cases keyword <;> decide
  unfold slotOfPair at h
  split at h
  · cases h; exact ⟨rfl, rfl⟩
  · cases h; exact ⟨rfl, rfl⟩
  · cases h; exact ⟨rfl, rfl⟩
  · rw [hindex] at h; cases h
  · rw [hindex] at h; cases h
  · rw [hindex] at h; cases h
  · rw [hindex] at h; cases h
  · cases h

/-- The first step of a slot is its keyword. -/
theorem exists_steps_eq (slot : Slot) : ∃ rest, slot.steps = slot.keyword.text :: rest := by
  cases slot <;> exact ⟨_, rfl⟩

/-- In an object, a keyword leads to the value that it is given. -/
theorem step?_keyword {members : List (String × Json)} {keyword : Keyword} {u : Json}
    (hv : (Json.object members).KeysDistinct)
    (hu : (keyword, u) ∈ (Json.object members).assigned) :
    (Json.object members).step? keyword.text = some u := by
  obtain ⟨⟨key, x⟩, hmem, hkey⟩ := List.mem_filterMap.1 hu
  obtain ⟨_, htext, heq⟩ := Option.map_eq_some_iff.1 hkey
  cases heq
  rw [Keyword.text_of_ofText? htext]
  exact lookup_of_mem hv.1 hmem

/-- In the value of a keyword, the further steps of a slot lead to what stands in the slot. -/
theorem follow?_inside {u w : Json} {rest : List String}
    (hrest : slot.steps = slot.keyword.text :: rest) (h : slot.inside? u = some w) :
    u.follow? rest = some w := by
  cases slot with
  | item | otherProperties =>
    cases hrest
    exact h
  | definition key | defs key | property key =>
    cases hrest
    cases u with
    | object members =>
      have hstep : (Json.object members).step? key = some w := h
      rw [Json.follow?, hstep]
      rfl
    | _ => cases h
  | itemAt i | oneOf i | anyOf i | allOf i =>
    cases hrest
    cases u with
    | array elements =>
      have hstep : (Json.array elements).step? (toString i) = some w := by
        rw [Json.step?, Step.strictIndex?_toString]
        exact h
      rw [Json.follow?, hstep]
      rfl
    | _ => cases h

/-- In an object, the steps of a slot lead to what the schema in the slot was read from. -/
theorem exists_follow?_steps {members : List (String × Json)}
    (hv : (Json.object members).KeysDistinct) (h : read (.object members) = .ok s)
    (hc : s.Holds slot c) :
    ∃ w, (Json.object members).follow? slot.steps = some w ∧ read w = .ok c := by
  obtain ⟨u, w, hu, hw, hread⟩ := read_child hv h hc
  obtain ⟨rest, hrest⟩ := exists_steps_eq slot
  refine ⟨w, ?_, hread⟩
  rw [hrest, Json.follow?, step?_keyword hv hu]
  exact follow?_inside hrest hw

end Schema
end SchemaTypes
