import SchemaTypes.Proofs.Module.Forms
import SchemaTypes.Proofs.TypeExpr.Blank
import SchemaTypes.Proofs.TypeExpr.Traversal

/-!
# What is written as nothing

An empty list of type names makes an empty union, and this is written as nothing. It is the only
thing that is: in what is built for a node, or declared, there is a blank type if and only if the
builder descends from the node to one whose type is that of an empty list of names
(`Module.blank_iff`). An empty list of values, of alternatives, of members or of items leaves no
blank behind.
-/

namespace SchemaTypes
namespace Builder

open TypeExpr

variable {b : Builder} {part : Slot → Schema → Building TypeExpr} {s : Schema} {steps : Nat}
  {site : BuildSite} {type : TypeExpr} {ts : List TypeExpr} {keywords : List Keyword}

/-- The type of the schema is that of an empty list of type names: it has no object shape, its
combinators say nothing, and it lists no values. -/
structure NamesNoType (part : Slot → Schema → Building TypeExpr) (s : Schema) : Prop where
  properties : s.properties = none
  additionalProperties : s.additionalProperties = none
  combinators : combinators part s = .ok none
  const : s.const = none
  enum : s.enum = none
  type : s.type = some (.multiple [])

/-- From a node the builder descends to one whose type is that of an empty list of type names. -/
def ComesToNoType (b : Builder) (steps : Nat) (s : Schema) (site : BuildSite) : Prop :=
  ∃ slots left t site', b.Descends steps s site slots (left + 1) t site' ∧ b.Unnamed site' ∧
    t.reference = none ∧ NamesNoType (b.parts left site'.place) t

/-- Under one of the keywords, the schema holds another of which the type has a blank part. -/
def HoldsBlank (part : Slot → Schema → Building TypeExpr) (s : Schema)
    (keywords : List Keyword) : Prop :=
  ∃ slot c t, slot.keyword ∈ keywords ∧ s.Holds slot c ∧ part slot c = .ok t ∧ t.HasBlank

/-- A member has a blank part if and only if the type of one of the schemas has one. -/
theorem exists_hasBlank_members {slot : Nat → Slot} {cs : List Schema}
    (h : members part slot 0 cs = .ok ts) : (∃ t ∈ ts, t.HasBlank) ↔
      ∃ i c t, cs[i]? = some c ∧ part (slot i) c = .ok t ∧ t.HasBlank := by
  constructor
  · rintro ⟨t, ht, hblank⟩
    obtain ⟨i, c, hc, hpart⟩ := (mem_members_iff h).1 ht
    exact ⟨i, c, t, hc, hpart, hblank⟩
  · rintro ⟨i, c, t, hc, hpart, hblank⟩
    exact ⟨t, (mem_members_iff h).2 ⟨i, c, hc, hpart⟩, hblank⟩

/-- The union of alternatives has a blank part only in one of them: there is no union of none. -/
theorem exists_hasBlank_alternatives {slot : Nat → Slot} {cs : Option (List Schema)}
    (h : alternatives part slot cs = .ok ts) : (∃ t ∈ ts, t.HasBlank) ↔
      ∃ i c t, (∃ cs', cs = some cs' ∧ cs'[i]? = some c) ∧ part (slot i) c = .ok t ∧
        t.HasBlank := by
  cases cs with
  | none =>
    cases h
    simp
  | some cs =>
    obtain ⟨us, hus, h⟩ := Except.bind_eq_ok_iff.1 h
    cases h
    simp only [Option.some.injEq, exists_eq_left', ← exists_hasBlank_members hus]
    cases us with
    | nil => simp
    | cons u us => simp

/-- Nor is there an intersection of none, and no member with a blank part is left out. -/
theorem exists_hasBlank_conjunction {cs : Option (List Schema)}
    (h : conjunction part cs = .ok ts) : (∃ t ∈ ts, t.HasBlank) ↔
      ∃ i c t, (∃ cs', cs = some cs' ∧ cs'[i]? = some c) ∧ part (.allOf i) c = .ok t ∧
        t.HasBlank := by
  cases cs with
  | none =>
    cases h
    simp
  | some cs =>
    obtain ⟨us, hus, h⟩ := Except.bind_eq_ok_iff.1 h
    cases h
    have hkept : (∃ t ∈ us.filter (·.text ≠ BasicType.unknown.text), t.HasBlank) ↔
        ∃ t ∈ us, t.HasBlank := by
      constructor
      · rintro ⟨t, ht, hblank⟩
        exact ⟨t, List.mem_of_mem_filter ht, hblank⟩
      · rintro ⟨t, ht, hblank⟩
        exact ⟨t, List.mem_filter.2 ⟨ht, decide_eq_true hblank.text_ne⟩, hblank⟩
    simp only [Option.some.injEq, exists_eq_left', ← exists_hasBlank_members hus, ← hkept]
    generalize us.filter (·.text ≠ BasicType.unknown.text) = kept
    cases kept with
    | nil => simp
    | cons u us => simp

/-- The type of the combinators has a blank part only in what they combine. -/
theorem exists_hasBlank_combinators {combined : Option TypeExpr}
    (h : combinators part s = .ok combined) : (∃ t, combined = some t ∧ t.HasBlank) ↔
      HoldsBlank part s [.oneOf, .anyOf, .allOf] := by
  obtain ⟨oneOf, hone, h⟩ := Except.bind_eq_ok_iff.1 h
  obtain ⟨anyOf, hany, h⟩ := Except.bind_eq_ok_iff.1 h
  obtain ⟨allOf, hall, h⟩ := Except.bind_eq_ok_iff.1 h
  have hholds : (∃ t ∈ oneOf ++ anyOf ++ allOf, t.HasBlank) ↔
      HoldsBlank part s [.oneOf, .anyOf, .allOf] := by
    simp only [List.mem_append, or_and_right, exists_or, exists_hasBlank_alternatives hone,
      exists_hasBlank_alternatives hany, exists_hasBlank_conjunction hall]
    constructor
    · rintro ((⟨i, c, t, hc, ht⟩ | ⟨i, c, t, hc, ht⟩) | ⟨i, c, t, hc, ht⟩)
      · exact ⟨.oneOf i, c, t, .head _, hc, ht⟩
      · exact ⟨.anyOf i, c, t, .tail _ (.head _), hc, ht⟩
      · exact ⟨.allOf i, c, t, .tail _ (.tail _ (.head _)), hc, ht⟩
    · rintro ⟨slot, c, t, hslot, hc, ht⟩
      cases slot with
      | oneOf i => exact .inl (.inl ⟨i, c, t, hc, ht⟩)
      | anyOf i => exact .inl (.inr ⟨i, c, t, hc, ht⟩)
      | allOf i => exact .inr ⟨i, c, t, hc, ht⟩
      | _ => simp [Slot.keyword] at hslot
  rw [← hholds]
  generalize oneOf ++ anyOf ++ allOf = ts at h
  split at h
  · cases h
    simp
  · cases h
    simp
  · next hnil _ =>
    have hne : ts ≠ [] := hnil
    cases h
    simp [hne]

/-- A property has a blank part if and only if the type of one of the schemas has one. -/
theorem exists_hasBlank_properties {required : List String} {entries : List (String × Schema)}
    {listed : List (PropertyType TypeExpr)} (h : properties part required entries = .ok listed) :
    (∃ p ∈ listed, p.type.HasBlank) ↔
      ∃ key c t, (key, c) ∈ entries ∧ part (.property key) c = .ok t ∧ t.HasBlank := by
  have hbuilt := forall₂_properties h
  clear h
  induction hbuilt with
  | nil => simp
  | @cons p entry _ _ hfirst _ ih =>
    obtain ⟨-, -, ht⟩ := hfirst
    refine (List.exists_mem_cons_iff _ _ _).trans ((or_congr_right ih).trans ?_)
    constructor
    · rintro (hblank | ⟨key, c, t, hmem, hc⟩)
      · exact ⟨entry.1, entry.2, p.type, .head _, ht, hblank⟩
      · exact ⟨key, c, t, .tail _ hmem, hc⟩
    · rintro ⟨key, c, t, hmem, hc, hblank⟩
      rcases List.mem_cons.1 hmem with rfl | hmem
      · cases ht.symm.trans hc
        exact .inl hblank
      · exact .inr ⟨key, c, t, hmem, hc, hblank⟩

/-- The type of all other properties has a blank part only if it is that of a schema. -/
theorem exists_hasBlank_otherProperties {schema : Option (OtherProperties Schema)}
    {others : Option TypeExpr} (h : otherProperties part schema = .ok others) :
    (∃ t, others = some t ∧ t.HasBlank) ↔
      ∃ c t, schema = some (.schema c) ∧ part .otherProperties c = .ok t ∧ t.HasBlank := by
  rw [otherProperties.eq_def] at h
  split at h
  · next c =>
    obtain ⟨t, ht, h⟩ := Except.bind_eq_ok_iff.1 h
    cases h
    simp [ht]
  · cases h
    simp
  · next hnone _ =>
    cases h
    refine iff_of_false (by simp) ?_
    rintro ⟨c, t, hc, -⟩
    exact hnone c hc

/-- An object type has a blank part only in the types of properties. -/
theorem hasBlank_of_object (h : object part s = .ok type) :
    type.HasBlank ↔ HoldsBlank part s [.properties, .additionalProperties] := by
  obtain ⟨listed, others, hlisted, hothers, rfl⟩ := object_eq_ok_iff.1 h
  rw [hasBlank_object, exists_hasBlank_properties hlisted, exists_hasBlank_otherProperties hothers]
  constructor
  · rintro (⟨key, c, t, hmem, ht⟩ | ⟨c, t, hc, ht⟩)
    · cases hproperties : s.properties with
      | none => simp [hproperties] at hmem
      | some entries =>
        rw [hproperties] at hmem
        exact ⟨.property key, c, t, .head _, ⟨entries, hproperties, hmem⟩, ht⟩
    · exact ⟨.otherProperties, c, t, .tail _ (.head _), hc, ht⟩
  · rintro ⟨slot, c, t, hslot, hc, ht⟩
    cases slot with
    | property key =>
      obtain ⟨entries, hproperties, hmem⟩ := hc
      exact .inl ⟨key, c, t, by rwa [hproperties], ht⟩
    | otherProperties => exact .inr ⟨c, t, hc, ht⟩
    | _ => simp [Slot.keyword] at hslot

/-- The type of a list has a blank part only in the types of its items. -/
theorem hasBlank_of_array (h : array part s.items = .ok type) :
    type.HasBlank ↔ HoldsBlank part s [.items] := by
  rw [array.eq_def] at h
  split at h
  · next c hitems =>
    obtain ⟨t, ht, h⟩ := Except.bind_eq_ok_iff.1 h
    cases h
    rw [hasBlank_array]
    constructor
    · intro hblank
      exact ⟨.item, c, t, .head _, hitems, ht, hblank⟩
    · rintro ⟨slot, c', t', hslot, hc, ht', hblank⟩
      cases slot with
      | item =>
        cases hitems.symm.trans hc
        cases ht.symm.trans ht'
        exact hblank
      | itemAt i =>
        obtain ⟨cs, hcs, -⟩ := hc
        cases hitems.symm.trans hcs
      | _ => simp [Slot.keyword] at hslot
  · next cs hitems =>
    obtain ⟨ts, hts, h⟩ := Except.bind_eq_ok_iff.1 h
    cases h
    rw [hasBlank_tuple, exists_hasBlank_members hts]
    constructor
    · rintro ⟨i, c, t, hc, ht⟩
      exact ⟨.itemAt i, c, t, .head _, ⟨cs, hitems, hc⟩, ht⟩
    · rintro ⟨slot, c, t, hslot, hc, ht⟩
      cases slot with
      | item => cases hitems.symm.trans hc
      | itemAt i =>
        obtain ⟨cs', hcs', hc⟩ := hc
        cases hitems.symm.trans hcs'
        exact ⟨i, c, t, hc, ht⟩
      | _ => simp [Slot.keyword] at hslot
  · next hitems =>
    cases h
    rw [hasBlank_array]
    refine iff_of_false (not_hasBlank_basic _) ?_
    rintro ⟨slot, c, t, hslot, hc, -⟩
    cases slot <;> simp [Slot.keyword, Schema.Holds, hitems] at hslot hc

/-- The type of a type name has no blank part. -/
theorem not_hasBlank_ofTypeName (name : String) : ¬(ofTypeName name).HasBlank := by
  rw [ofTypeName.eq_def]
  split <;> simp

/-- Nor has the type of values, of which there is one even if there are none. -/
theorem not_hasBlank_ofValues (vs : List Json) : ¬(ofValues vs).HasBlank := by
  rw [ofValues]
  split
  · exact not_hasBlank_basic _
  · next hne => simpa using hne

/-- The schema has only its type, and names no type or is a list: it has no object shape, its
combinators say nothing, and it lists no values. -/
structure OnlyTyped (part : Slot → Schema → Building TypeExpr) (s : Schema) : Prop where
  properties : s.properties = none
  additionalProperties : s.additionalProperties = none
  combinators : combinators part s = .ok none
  const : s.const = none
  enum : s.enum = none
  type : s.type = some (.multiple []) ∨ s.type = some (.single "array")

/-- Where there is more to a schema than its type, it neither names no type nor is a list. -/
theorem not_or_of_not_onlyTyped (h : ¬OnlyTyped part s) : ¬NamesNoType part s ∧ ¬IsList part s := by
  constructor
  · rintro ⟨hprops, hothers, hcombinators, hconst, henum, htype⟩
    exact h ⟨hprops, hothers, hcombinators, hconst, henum, .inl htype⟩
  · rintro ⟨hprops, hothers, hcombinators, hconst, henum, htype⟩
    exact h ⟨hprops, hothers, hcombinators, hconst, henum, .inr htype⟩

/-- The type of a schema without an object shape and combinators has a blank part only if this
schema lists no type names, or if it is a list and the type of an item has one. -/
theorem hasBlank_of_plain (hprops : s.properties = none) (hothers : s.additionalProperties = none)
    (hcombinators : combinators part s = .ok none) (h : plain part s = .ok type) :
    type.HasBlank ↔ NamesNoType part s ∨ IsList part s ∧ HoldsBlank part s [.items] := by
  have hneither (htyped : ¬OnlyTyped part s) :
      ¬(NamesNoType part s ∨ IsList part s ∧ HoldsBlank part s [.items]) := by
    obtain ⟨hnames, hlist⟩ := not_or_of_not_onlyTyped htyped
    simp [hnames, hlist]
  rw [plain] at h
  split at h
  · next v hconst =>
    cases h
    refine iff_of_false (not_hasBlank_literal v) (hneither fun htyped => ?_)
    cases hconst.symm.trans htyped.const
  · next vs hconst henum =>
    cases h
    refine iff_of_false (not_hasBlank_ofValues vs) (hneither fun htyped => ?_)
    cases henum.symm.trans htyped.enum
  · next names hconst henum htype =>
    cases h
    rw [hasBlank_union]
    constructor
    · rintro (hnil | ⟨t, ht, hblank⟩)
      · cases List.map_eq_nil_iff.1 hnil
        exact .inl ⟨hprops, hothers, hcombinators, hconst, henum, htype⟩
      · obtain ⟨name, -, rfl⟩ := List.mem_map.1 ht
        exact absurd hblank (not_hasBlank_ofTypeName name)
    · rintro (hnames | ⟨hlist, -⟩)
      · cases htype.symm.trans hnames.type
        exact .inl rfl
      · cases htype.symm.trans hlist.type
  · next hconst henum htype =>
    have hlist : IsList part s := ⟨hprops, hothers, hcombinators, hconst, henum, htype⟩
    have hnames : ¬NamesNoType part s := by
      intro hnames
      cases htype.symm.trans hnames.type
    rw [hasBlank_of_array h, or_iff_right hnames, and_iff_right hlist]
  · next name hname hconst henum htype =>
    cases h
    refine iff_of_false (not_hasBlank_ofTypeName name) (hneither fun htyped => ?_)
    rcases htyped.type with hnone | harray
    · cases htype.symm.trans hnone
    · cases htype.symm.trans harray
      exact hname rfl
  · next hconst henum htype =>
    cases h
    refine iff_of_false (not_hasBlank_basic _) (hneither fun htyped => ?_)
    rcases htyped.type with hnone | harray
    · cases htype.symm.trans hnone
    · cases htype.symm.trans harray

/-- What a schema uses is what it combines, its properties, and its items if it is a list. -/
theorem exists_uses_iff : (∃ slot c t, Uses part s slot c ∧ part slot c = .ok t ∧ t.HasBlank) ↔
    HoldsBlank part s [.oneOf, .anyOf, .allOf] ∨
      HoldsBlank part s [.properties, .additionalProperties] ∨
        IsList part s ∧ HoldsBlank part s [.items] := by
  constructor
  · rintro ⟨slot, c, t, hused, ht⟩
    cases hused with
    | combinator hslot hc => exact .inl ⟨slot, c, t, hslot, hc, ht⟩
    | property hslot hc => exact .inr (.inl ⟨slot, c, t, hslot, hc, ht⟩)
    | item hslot hlist hc =>
      exact .inr (.inr ⟨hlist, slot, c, t, List.mem_singleton.2 hslot, hc, ht⟩)
  · rintro (⟨slot, c, t, hslot, hc, ht⟩ | ⟨slot, c, t, hslot, hc, ht⟩ |
      ⟨hlist, slot, c, t, hslot, hc, ht⟩)
    · exact ⟨slot, c, t, .combinator hslot hc, ht⟩
    · exact ⟨slot, c, t, .property hslot hc, ht⟩
    · exact ⟨slot, c, t, .item (List.mem_singleton.1 hslot) hlist hc, ht⟩

/-- The type of a schema without `$ref` has a blank part if and only if this schema lists no type
names, or the type of a schema that it uses has one. -/
theorem hasBlank_of_body (h : body part s = .ok type) : type.HasBlank ↔
    NamesNoType part s ∨
      ∃ slot c t, Uses part s slot c ∧ part slot c = .ok t ∧ t.HasBlank := by
  obtain ⟨combined, hcombined, h⟩ := Except.bind_eq_ok_iff.1 h
  have hblank := exists_hasBlank_combinators hcombined
  rw [exists_uses_iff, ← hblank]
  by_cases hshape : (s.properties.isSome || s.additionalProperties.isSome) = true
  · -- A schema with an object shape neither names no type nor is a list.
    have htyped : ¬OnlyTyped part s := by
      intro htyped
      simp [htyped.properties, htyped.additionalProperties] at hshape
    obtain ⟨hnames, hlist⟩ := not_or_of_not_onlyTyped htyped
    rw [if_pos hshape] at h
    obtain ⟨shape, hobject, h⟩ := Except.bind_eq_ok_iff.1 h
    rw [← hasBlank_of_object hobject]
    cases combined with
    | none =>
      cases h
      simp [hnames, hlist]
    | some t =>
      cases h
      simp [hnames, hlist, or_comm]
  · -- A schema without one holds no properties.
    rw [if_neg hshape] at h
    obtain ⟨hprops, hothers⟩ : s.properties = none ∧ s.additionalProperties = none := by
      simpa using hshape
    have hnone : ¬HoldsBlank part s [.properties, .additionalProperties] := by
      rintro ⟨slot, c, t, hslot, hc, -⟩
      cases slot <;> simp [Slot.keyword, Schema.Holds, hprops, hothers] at hslot hc
    cases combined with
    | some t =>
      cases h
      have htyped : ¬OnlyTyped part s := by
        intro htyped
        cases hcombined.symm.trans htyped.combinators
      simp [not_or_of_not_onlyTyped htyped, hnone]
    | none =>
      by_cases hobject : s.isObjectType = true
      · simp only [hobject, if_true] at h
        cases h
        have htyped : ¬OnlyTyped part s := by
          intro htyped
          rcases htyped.type with htype | htype
          all_goals simp [Schema.isObjectType, htype] at hobject
        simp [not_or_of_not_onlyTyped htyped, hnone]
      · simp only [hobject] at h
        rw [hasBlank_of_plain hprops hothers hcombined h]
        simp [hnone]

end Builder

namespace Module

open Builder TypeExpr

variable {d : Document} {options : ModuleOptions} {steps : Nat} {s : Schema} {site : BuildSite}
  {type : TypeExpr}

/-- No name is blank. -/
theorem not_hasBlank_named {name : String}
    (h : (builder d options).build steps s site = .ok (.named name)) :
    ¬(TypeExpr.named name).HasBlank := by
  cases wellNamed_build (namesPlaces_builder d options) h with
  | named hname => exact mt hasBlank_named.1 hname.ne_empty

/-- What is built for a node has a blank part if and only if the builder comes to a node that names
no type. -/
theorem hasBlank_of_build (hbuilt : (builder d options).Built steps s site)
    (h : (builder d options).build steps s site = .ok type) :
    type.HasBlank ↔ (builder d options).ComesToNoType steps s site := by
  induction steps generalizing s site type with
  | zero => cases h
  | succ steps ih =>
    rcases (builder d options).named_or_unnamed site with ⟨name, hby, hname⟩ | hsite
    · -- Where a name stands for what is built, the builder does not go on.
      cases (build_named steps s hby hname).symm.trans h
      refine iff_of_false (not_hasBlank_named h) ?_
      rintro ⟨slots, left, t, site', hdescends, hsite', -⟩
      cases hdescends with
      | here => cases (hsite' hby).symm.trans hname
      | part hsite _ _ _ => cases (hsite hby).symm.trans hname
    cases href : s.reference with
    | some ref =>
      obtain ⟨name, rfl⟩ := exists_named_of_built hbuilt hsite href h
      refine iff_of_false (not_hasBlank_named h) ?_
      rintro ⟨slots, left, t, site', hdescends, -, hnone, -⟩
      cases hdescends with
      | here => cases hnone.symm.trans href
      | part _ hnone _ _ => cases hnone.symm.trans href
    | none =>
      rw [build_body steps hsite href] at h
      rw [hasBlank_of_body h]
      constructor
      · rintro (hnames | ⟨slot, c, t, hused, ht, hblank⟩)
        · exact ⟨[], steps, s, site, .here, hsite, href, hnames⟩
        · obtain ⟨slots, left, t, site', hdescends, hnames⟩ :=
            (ih (.part hbuilt hsite href hused) ht).1 hblank
          exact ⟨slot :: slots, left, t, site', .part hsite href hused hdescends, hnames⟩
      · rintro ⟨slots, left, t, site', hdescends, hnames⟩
        cases hdescends with
        | here => exact .inl hnames.2.2
        | @part _ _ _ c _ _ _ slot slots _ _ hused hdescends =>
          obtain ⟨u, hu⟩ := (restsOn_body _ s).exists_ok h hused
          exact .inr ⟨slot, c, u, hused, hu, (ih (.part hbuilt hsite href hused) hu).2
            ⟨slots, left, t, site', hdescends, hnames⟩⟩

/-- A part of what is built for a node, the whole included, is written as nothing if and only if the
builder descends from the node to one whose type is that of an empty list of type names. In
particular this is so for what is declared. -/
theorem blank_iff (d : Document) (options : ModuleOptions) :
    (∀ steps s site type, (builder d options).Built steps s site →
      (builder d options).build steps s site = .ok type →
        ((∃ u : TypeExpr, u.Within type ∧ u.text = "") ↔
          (builder d options).ComesToNoType steps s site)) ∧
    ∀ m declaration, generate d options = .ok m → declaration ∈ m.declarations →
      ∃ p s type, Declares (builder d options) declaration p s type ∧
        declaration = .ofSchema declaration.name s type.text ∧
        ((∃ u : TypeExpr, u.Within type ∧ u.text = "") ↔
          (builder d options).ComesToNoType (stepLimit d) s (.declaration p)) := by
  refine ⟨fun steps s site type hbuilt h => hasBlank_of_build hbuilt h, ?_⟩
  intro m declaration h hmem
  obtain ⟨p, s, type, hdeclares, heq⟩ := exists_declares h hmem
  exact ⟨p, s, type, hdeclares, heq, hasBlank_of_build hdeclares.toBuilt hdeclares.built⟩

/-- A document with an empty list of type names. -/
def typeless : Document where
  json := .object [("type", .array [])]
  root := { type := some (.multiple []) }
  distinct := by simp [Json.KeysDistinct, Json.MembersDistinct, Json.ElementsDistinct]
  reads := rfl

/-- The whole document is called by a name. -/
theorem builder_typeless : builder typeless { rootName := some "T" } =
    ⟨typeless, [(.root, ⟨"T", "T"⟩)], [("T", 1)], ["T"]⟩ := by
  have hname : Visit.nameOf typeless.root (Identifier.normalize "T") .document = some "T" := by
    decide
  refine congrArg (Builder.mk typeless) (Survey.names_of_forall hname rfl fun slot c hc => ?_)
  cases hc

/-- A name is declared of which the type is written as nothing. -/
theorem blank_typeless :
    (∃ m, generate typeless { rootName := some "T" } = .ok m ∧
      m.declarations = [⟨"T", "type T = ;"⟩]) ∧
    (builder typeless { rootName := some "T" }).Built (stepLimit typeless) typeless.root
      (.declaration .root) ∧
    (builder typeless { rootName := some "T" }).build (stepLimit typeless) typeless.root
      (.declaration .root) = .ok (.union []) ∧
    ∃ u : TypeExpr, u.Within (.union []) ∧ u.text = "" := by
  have hnames : (builder typeless { rootName := some "T" }).table.names = [(.root, "T")] := by
    rw [builder_typeless]
    rfl
  have hbuilt : (builder typeless { rootName := some "T" }).Built (stepLimit typeless)
      typeless.root (.declaration .root) :=
    .declaration (by rw [hnames]; exact .head _) typeless.resolve?_root
  have hbuild : (builder typeless { rootName := some "T" }).build (stepLimit typeless)
      typeless.root (.declaration .root) = .ok (.union []) := by
    rw [builder_typeless]
    rfl
  refine ⟨exists_generate_of_names hnames hbuild, hbuilt, hbuild, ?_⟩
  obtain ⟨left, hleft⟩ : ∃ left, stepLimit typeless = left + 1 := ⟨_, rfl⟩
  rw [hleft] at hbuilt hbuild
  exact ((blank_iff typeless _).1 _ _ _ _ hbuilt hbuild).2 ⟨[], left, typeless.root,
    .declaration .root, .here, unnamed_of_byName rfl, rfl, by constructor <;> rfl⟩

end Module
end SchemaTypes
