import SchemaTypes.Proofs.Document.Closed
import SchemaTypes.Proofs.TypeExpr.Parts

/-!
# One type from two documents

What is built from two documents agrees (`Builder.Agree`) if it is the same unless one of them runs
out of steps; how many steps there are depends on the size of the document. What is built of parts
agrees if the parts do (`Builder.agree_body`). A type is built from the schema, and from what is
found where references lead, so if one schema belongs to both documents and all its references lead
to parts of it, the types agree (`Builder.agree_build`).
-/

namespace SchemaTypes
namespace Builder

/-- The same was built, unless the steps ran out. -/
def Agree {α : Type} (x y : Building α) : Prop :=
  x ≠ .error .outOfSteps → y ≠ .error .outOfSteps → x = y

section
variable {α β : Type} {x y : Building α} {f g : α → Building β}

/-- What is the same agrees. -/
theorem Agree.refl (x : Building α) : Agree x x :=
  fun _ _ => rfl

/-- Whatever runs out of steps agrees with anything. -/
theorem agree_outOfSteps_left (y : Building α) : Agree (.error .outOfSteps) y :=
  fun hx _ => absurd rfl hx

/-- Anything agrees with what runs out of steps. -/
theorem agree_outOfSteps_right (x : Building α) : Agree x (.error .outOfSteps) :=
  fun _ hy => absurd rfl hy

/-- What is built one after the other agrees if both do. -/
theorem Agree.bind (h : Agree x y) (hfg : ∀ a, Agree (f a) (g a)) :
    Agree (x >>= f) (y >>= g) := by
  intro hx hy
  have hx' : x ≠ .error .outOfSteps := by
    rintro rfl
    exact hx rfl
  have hy' : y ≠ .error .outOfSteps := by
    rintro rfl
    exact hy rfl
  obtain rfl := h hx' hy'
  cases x with
  | error e => rfl
  | ok a => exact hfg a hx hy

/-- What is made of things that agree agrees. -/
theorem Agree.map (f : α → β) (h : Agree x y) : Agree (f <$> x) (f <$> y) := by
  intro hx hy
  refine congrArg (f <$> ·) (h ?_ ?_)
  · rintro rfl
    exact hx rfl
  · rintro rfl
    exact hy rfl

end

/-! ## Parts -/

section
variable {part part' : Slot → Schema → Building TypeExpr} {s : Schema}

/-- The types of members agree if each does. -/
theorem agree_members {cs : List Schema} (slot : Nat → Slot) (i : Nat)
    (h : ∀ c ∈ cs, ∀ slot, Agree (part slot c) (part' slot c)) :
    Agree (members part slot i cs) (members part' slot i cs) := by
  induction cs generalizing i with
  | nil => exact .refl _
  | cons c rest ih =>
    have hrest := ih (i + 1) fun c hc => h c (.tail _ hc)
    exact (h c (.head _) _).bind fun t => hrest.bind fun ts => .refl _

/-- The types of properties agree if each does. -/
theorem agree_properties {entries : List (String × Schema)} (required : List String)
    (h : ∀ entry ∈ entries, ∀ slot, Agree (part slot entry.2) (part' slot entry.2)) :
    Agree (properties part required entries) (properties part' required entries) := by
  induction entries with
  | nil => exact .refl _
  | cons entry rest ih =>
    have hrest := ih fun entry hentry => h entry (.tail _ hentry)
    exact (h entry (.head _) _).bind fun t => hrest.bind fun ts => .refl _

/-- What two ways make of the schemas that a schema holds agrees. -/
def AgreeWithin (part part' : Slot → Schema → Building TypeExpr) (s : Schema) : Prop :=
  ∀ slot c, s.Holds slot c → ∀ slot', Agree (part slot' c) (part' slot' c)

variable (h : AgreeWithin part part' s)
include h

/-- The types of the members of a list agree if the schema holds them. -/
theorem AgreeWithin.members {cs : List Schema} (slot : Nat → Slot)
    (hcs : ∀ i c, cs[i]? = some c → s.Holds (slot i) c) :
    Agree (members part slot 0 cs) (members part' slot 0 cs) := by
  refine agree_members slot 0 fun c hc slot' => ?_
  obtain ⟨i, hi⟩ := List.getElem?_of_mem hc
  exact h (slot i) c (hcs i c hi) slot'

/-- Unions of alternatives agree if the schema holds them. -/
theorem AgreeWithin.alternatives {members : Option (List Schema)} (slot : Nat → Slot)
    (hcs : ∀ i c cs, members = some cs → cs[i]? = some c → s.Holds (slot i) c) :
    Agree (alternatives part slot members) (alternatives part' slot members) := by
  cases members with
  | none => exact .refl _
  | some cs => exact (h.members slot fun i c hi => hcs i c cs rfl hi).bind fun ts => .refl _

/-- The combinators of a schema agree. -/
theorem agree_combinators : Agree (combinators part s) (combinators part' s) := by
  have hone : Agree (alternatives part .oneOf s.oneOf) (alternatives part' .oneOf s.oneOf) :=
    h.alternatives .oneOf fun i c cs hcs hi => ⟨cs, hcs, hi⟩
  have hany : Agree (alternatives part .anyOf s.anyOf) (alternatives part' .anyOf s.anyOf) :=
    h.alternatives .anyOf fun i c cs hcs hi => ⟨cs, hcs, hi⟩
  have hall : Agree (conjunction part s.allOf) (conjunction part' s.allOf) := by
    cases hcs : s.allOf with
    | none => exact .refl _
    | some cs => exact (h.members .allOf fun i c hi => ⟨cs, hcs, hi⟩).bind fun ts => .refl _
  exact hone.bind fun _ => hany.bind fun _ => hall.bind fun _ => .refl _

/-- The object type of a schema agrees. -/
theorem agree_object : Agree (object part s) (object part' s) := by
  have hlisted : Agree (properties part s.required (s.properties.getD []))
      (properties part' s.required (s.properties.getD [])) := by
    refine agree_properties s.required fun entry hentry => ?_
    cases hentries : s.properties with
    | none =>
      rw [hentries] at hentry
      cases hentry
    | some entries =>
      rw [hentries] at hentry
      exact h (.property entry.1) entry.2 ⟨entries, hentries, hentry⟩
  have hothers : Agree (otherProperties part s.additionalProperties)
      (otherProperties part' s.additionalProperties) := by
    match hc : s.additionalProperties with
    | none | some (.allowed true) | some (.allowed false) => exact .refl _
    | some (.schema c) => exact (h .otherProperties c hc _).map some
  exact hlisted.bind fun _ => hothers.bind fun _ => .refl _

/-- The type of a list agrees. -/
theorem agree_array : Agree (array part s.items) (array part' s.items) := by
  match hc : s.items with
  | none => exact .refl _
  | some (.each c) => exact (h .item c hc _).map TypeExpr.array
  | some (.tuple cs) =>
    exact (h.members .itemAt fun i c hi => ⟨cs, hc, hi⟩).map TypeExpr.tuple

/-- The type of a schema without an object shape and combinators agrees. -/
theorem agree_plain : Agree (plain part s) (plain part' s) := by
  unfold plain
  split
  case h_4 => exact agree_array h
  all_goals exact .refl _

/-- The type of a schema without `$ref` agrees. -/
theorem agree_body : Agree (body part s) (body part' s) := by
  refine (agree_combinators h).bind fun combined => ?_
  split
  · exact (agree_object h).bind fun shape => .refl _
  · cases combined with
    | some t => exact .refl _
    | none =>
      dsimp only
      split
      · exact .refl _
      · exact agree_plain h

end

/-! ## Two documents -/

variable {d d' : Document} {t : NameTable} {cursor : Pointer} {s : Schema} {site : BuildSite}

/-- Following bare references agrees. -/
theorem agree_follow (hroot : d.root = d'.root) (hclosed : d.Closed)
    (hcursor : d.walk? cursor = some s) {passed : List Pointer} (steps steps' : Nat) :
    Agree (follow d steps passed cursor) (follow d' steps' passed cursor) := by
  induction steps generalizing steps' passed cursor s with
  | zero => exact agree_outOfSteps_left _
  | succ steps ih =>
    cases steps' with
    | zero => exact agree_outOfSteps_right _
    | succ steps' =>
      rw [follow, follow, ← Document.next?_congr hroot hcursor]
      split
      · exact .refl _
      · split
        · next q hnext =>
          obtain ⟨t, ht⟩ := hclosed.exists_walk?_of_next? hcursor hnext
          exact ih ht steps'
        · exact .refl _

/-- The type of a reference agrees, if the types of all parts of the schema do. -/
theorem agree_reference {build build' : Schema → BuildSite → Building TypeExpr} {ref : String}
    (hroot : d.root = d'.root) (hclosed : d.Closed)
    (hbuild : ∀ s site, s.Part d.root → Agree (build s site) (build' s site))
    (hs : s.Part d.root) (href : s.reference = some ref) :
    Agree (reference ⟨d, t⟩ build ref site) (reference ⟨d', t⟩ build' ref site) := by
  rw [reference, reference]
  split
  · exact .refl _
  next target htarget =>
  obtain ⟨u, hu⟩ := hclosed s target hs
    (Schema.internalReference?_eq_some_iff.2 ⟨ref, href, htarget⟩)
  refine (agree_follow hroot hclosed hu _ _).bind fun _ => ?_
  dsimp only
  cases t.lookup? target with
  | some name => exact .refl _
  | none =>
    rw [← Document.resolve?_congr hroot hu, Document.resolve?_of_walk? hu]
    dsimp only
    split
    · exact hbuild u _ (Document.part_of_walk? hu)
    · exact .refl _

/-- The type of a part of the schema agrees. -/
theorem agree_build (hroot : d.root = d'.root) (hclosed : d.Closed) (hs : s.Part d.root)
    (steps steps' : Nat) : Agree (build ⟨d, t⟩ steps s site) (build ⟨d', t⟩ steps' s site) := by
  induction steps generalizing steps' s site with
  | zero => exact agree_outOfSteps_left _
  | succ steps ih =>
    cases steps' with
    | zero => exact agree_outOfSteps_right _
    | succ steps' =>
      rcases named_or_unnamed ⟨d, t⟩ site with ⟨name, hby, hname⟩ | hsite
      · rw [build_named steps s hby hname, build_named (b := ⟨d', t⟩) steps' s hby hname]
        exact .refl _
      have hsite' : Unnamed ⟨d', t⟩ site := hsite
      cases href : s.reference with
      | some ref =>
        rw [build_reference steps hsite href, build_reference steps' hsite' href]
        exact agree_reference hroot hclosed (fun _ _ hs => ih hs steps') hs href
      | none =>
        rw [build_body steps hsite href, build_body steps' hsite' href]
        refine agree_body fun slot c hc slot' => ?_
        exact ih ((Schema.Part.inside hc (.self c)).trans hs) steps'

end Builder
end SchemaTypes
