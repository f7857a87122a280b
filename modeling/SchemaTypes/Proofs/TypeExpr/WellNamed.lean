import SchemaTypes.Proofs.TypeExpr.Parts
import SchemaTypes.Proofs.TypeExpr.Phrases

/-!
# The names in what is built

If the names of all places are names, so are all names in the types that are built
(`Builder.wellNamed_build`): a type is built from the types of its parts and from words, and a
reference becomes the name of a place or one that it makes.
-/

namespace SchemaTypes
namespace Builder

open TypeExpr

variable {b : Builder} {part : Slot → Schema → Building TypeExpr} {s : Schema} {type : TypeExpr}
  {ts : List TypeExpr}

/-! ## Parts -/

/-- What the parts are built to is well named. -/
def PartsWellNamed (part : Slot → Schema → Building TypeExpr) : Prop :=
  ∀ slot c t, part slot c = .ok t → t.WellNamed

/-- Members are well named. -/
theorem wellNamed_members (hpart : PartsWellNamed part) {slot : Nat → Slot} {cs : List Schema}
    (h : members part slot 0 cs = .ok ts) : ∀ t ∈ ts, t.WellNamed := by
  intro t ht
  obtain ⟨i, c, -, hc⟩ := (mem_members_iff h).1 ht
  exact hpart _ c t hc

/-- The union of alternatives is well named. -/
theorem wellNamed_alternatives (hpart : PartsWellNamed part) {slot : Nat → Slot}
    {cs : Option (List Schema)} (h : alternatives part slot cs = .ok ts) :
    ∀ t ∈ ts, t.WellNamed := by
  cases cs with
  | none =>
    cases h
    simp
  | some cs =>
    obtain ⟨members, hmembers, h⟩ := Except.bind_eq_ok_iff.1 h
    cases h
    split
    · simp
    · exact List.forall_mem_singleton.2 (.union (wellNamed_members hpart hmembers))

/-- The intersection of members is well named. -/
theorem wellNamed_conjunction (hpart : PartsWellNamed part) {cs : Option (List Schema)}
    (h : conjunction part cs = .ok ts) : ∀ t ∈ ts, t.WellNamed := by
  cases cs with
  | none =>
    cases h
    simp
  | some cs =>
    obtain ⟨members, hmembers, h⟩ := Except.bind_eq_ok_iff.1 h
    cases h
    split
    · simp
    · refine List.forall_mem_singleton.2 (.intersection fun t ht => ?_)
      exact wellNamed_members hpart hmembers t (List.mem_of_mem_filter ht)

/-- The type of combinators is well named. -/
theorem wellNamed_combinators (hpart : PartsWellNamed part) {combined : Option TypeExpr}
    (h : combinators part s = .ok combined) : ∀ t, combined = some t → t.WellNamed := by
  obtain ⟨oneOf, hone, h⟩ := Except.bind_eq_ok_iff.1 h
  obtain ⟨anyOf, hany, h⟩ := Except.bind_eq_ok_iff.1 h
  obtain ⟨allOf, hall, h⟩ := Except.bind_eq_ok_iff.1 h
  have hts : ∀ t ∈ oneOf ++ anyOf ++ allOf, t.WellNamed :=
    List.forall_mem_append.2 ⟨List.forall_mem_append.2 ⟨wellNamed_alternatives hpart hone,
      wellNamed_alternatives hpart hany⟩, wellNamed_conjunction hpart hall⟩
  split at h
  · cases h
    simp
  · next t heq =>
    cases h
    rintro _ ⟨⟩
    exact hts t (heq ▸ .head _)
  · cases h
    rintro _ ⟨⟩
    exact .intersection hts

/-- Properties are built one by one. -/
theorem forall₂_properties {required : List String} {entries : List (String × Schema)}
    {listed : List (PropertyType TypeExpr)} (h : properties part required entries = .ok listed) :
    List.Forall₂ (fun p entry => p.key = entry.1 ∧ p.isOptional = !required.contains entry.1 ∧
      part (.property entry.1) entry.2 = .ok p.type) listed entries := by
  induction entries generalizing listed with
  | nil =>
    cases h
    exact .nil
  | cons entry entries ih =>
    obtain ⟨t, rest, ht, hrest, rfl⟩ := Except.bind_bind_pure_eq_ok_iff.1 h
    exact .cons ⟨rfl, rfl, ht⟩ (ih hrest)

/-- Properties are well named. -/
theorem wellNamed_properties (hpart : PartsWellNamed part) {required : List String}
    {entries : List (String × Schema)} {listed : List (PropertyType TypeExpr)}
    (h : properties part required entries = .ok listed) : ∀ p ∈ listed, p.type.WellNamed := by
  have hnamed : List.Forall₂ (fun p entry => p.type.WellNamed ∧ p.key = entry.1) listed entries :=
    (forall₂_properties h).imp fun p entry h => ⟨hpart _ entry.2 p.type h.2.2, h.1⟩
  exact ((List.forall₂_and_left listed entries).1 hnamed).1

/-- The type of all other properties is well named. -/
theorem wellNamed_otherProperties (hpart : PartsWellNamed part) {others : Option TypeExpr}
    {schema : Option (OtherProperties Schema)} (h : otherProperties part schema = .ok others) :
    ∀ t, others = some t → t.WellNamed := by
  rw [otherProperties.eq_def] at h
  split at h
  · next c =>
    obtain ⟨t, ht, h⟩ := Except.bind_eq_ok_iff.1 h
    cases h
    rintro _ ⟨⟩
    exact hpart _ c t ht
  · cases h
    rintro _ ⟨⟩
    exact .basic _
  · cases h
    simp

/-- The object type of a schema is well named. -/
theorem wellNamed_object (hpart : PartsWellNamed part) (h : object part s = .ok type) :
    type.WellNamed := by
  obtain ⟨listed, others, hlisted, hothers, rfl⟩ := object_eq_ok_iff.1 h
  exact .object (wellNamed_properties hpart hlisted) (wellNamed_otherProperties hpart hothers)

/-- The type of a list is well named. -/
theorem wellNamed_array (hpart : PartsWellNamed part) {items : Option (ItemSchemas Schema)}
    (h : array part items = .ok type) : type.WellNamed := by
  rw [array.eq_def] at h
  split at h
  · next c =>
    obtain ⟨t, ht, h⟩ := Except.bind_eq_ok_iff.1 h
    cases h
    exact .array (hpart _ c t ht)
  · obtain ⟨ts, hts, h⟩ := Except.bind_eq_ok_iff.1 h
    cases h
    exact .tuple (wellNamed_members hpart hts)
  · cases h
    exact .array (.basic _)

/-- The type of a type name is well named. -/
theorem wellNamed_ofTypeName (name : String) : (ofTypeName name).WellNamed := by
  rw [ofTypeName.eq_def]
  split
  case h_6 => exact .array (.basic _)
  case h_7 => exact .record
  all_goals exact .basic _

/-- The type of values is well named. -/
theorem wellNamed_ofValues (vs : List Json) : (ofValues vs).WellNamed := by
  rw [ofValues]
  split
  · exact .basic _
  · exact .union (by simpa using fun v _ => .literal v)

/-- The type of a schema without an object shape and combinators is well named. -/
theorem wellNamed_plain (hpart : PartsWellNamed part) (h : plain part s = .ok type) :
    type.WellNamed := by
  rw [plain] at h
  split at h
  · cases h
    exact .literal _
  · cases h
    exact wellNamed_ofValues _
  · cases h
    exact .union (by simpa using fun name _ => wellNamed_ofTypeName name)
  · exact wellNamed_array hpart h
  · cases h
    exact wellNamed_ofTypeName _
  · cases h
    exact .basic _

/-- The type of a schema without `$ref` is well named. -/
theorem wellNamed_body (hpart : PartsWellNamed part) (h : body part s = .ok type) :
    type.WellNamed := by
  obtain ⟨combined, hcombined, h⟩ := Except.bind_eq_ok_iff.1 h
  have hcombined := wellNamed_combinators hpart hcombined
  split at h
  · obtain ⟨shape, hshape, h⟩ := Except.bind_eq_ok_iff.1 h
    have hshape := wellNamed_object hpart hshape
    cases combined with
    | none =>
      cases h
      exact hshape
    | some t =>
      cases h
      exact .shaped hshape (hcombined t rfl)
  · cases combined with
    | none =>
      simp only at h
      split at h
      · cases h
        exact .record
      · exact wellNamed_plain hpart h
    | some t =>
      cases h
      exact hcombined _ rfl

/-! ## What is built -/

/-- All places are called by names. -/
def NamesPlaces (b : Builder) : Prop :=
  ∀ p name, b.table.lookup? p = some name → Identifier.IsName name

/-- The type of a reference is well named, if what it is followed to is. -/
theorem wellNamed_reference (hb : b.NamesPlaces) {build : Schema → BuildSite → Building TypeExpr}
    (hbuild : ∀ s site t, build s site = .ok t → TypeExpr.WellNamed t) {ref : String}
    {site : BuildSite} (h : b.reference build ref site = .ok type) : type.WellNamed := by
  rw [reference.eq_def] at h
  split at h
  · cases h
    exact .named (Identifier.isPlain_ofExternal ref).isName
  · obtain ⟨_, -, h⟩ := Except.bind_eq_ok_iff.1 h
    split at h
    · next name hname =>
      cases h
      exact .named (hb _ name hname)
    · split at h
      · cases h
        exact .named (Identifier.isPlain_ofPointer _).isName
      · split at h
        · exact hbuild _ _ _ h
        · cases h
          exact .named (Identifier.isPlain_ofPointer _).isName

/-- What is built is well named, if all places are called by names. -/
theorem wellNamed_build (hb : b.NamesPlaces) {steps : Nat} {site : BuildSite}
    (h : b.build steps s site = .ok type) : type.WellNamed := by
  induction steps generalizing s site type with
  | zero => cases h
  | succ steps ih =>
    rcases b.named_or_unnamed site with ⟨name, hby, hname⟩ | hsite
    · cases (build_named steps s hby hname).symm.trans h
      exact .named (hb _ name hname)
    · cases href : s.reference with
      | some ref =>
        rw [build_reference steps hsite href] at h
        exact wellNamed_reference hb (fun _ _ _ => ih) h
      | none =>
        rw [build_body steps hsite href] at h
        exact wellNamed_body (fun _ _ _ => ih) h

end Builder
end SchemaTypes
