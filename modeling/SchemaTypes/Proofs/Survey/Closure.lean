import SchemaTypes.Proofs.Survey.Recorded

/-!
# The closure of a survey

A survey goes on until no target is pending. A round deals with every target that is pending, and
there are only so many targets, so the rounds that a survey takes are enough (`pending_complete`).
Since all it has comes from its visits, it is `Survey.Sound` then: it has gathered references of
nodes only, all references inside of whatever it has named, and a name for every target it dealt
with that means anything. So the references of all nodes have been gathered, and every target of a
node that means anything has a name (`contains_complete`).
-/

namespace SchemaTypes
namespace Survey

open Document

variable {d : Document} {survey : Survey} {visits : List Visit} {v : Visit} {p q : Pointer}
  {s t : Schema} {found : Located}

/-- The survey of a document before names are given up. -/
def complete (d : Document) (rootName : Option String) : Survey :=
  close d (roundLimit d) (ofSchema d rootName)

/-- All references in a node have been gathered. -/
def Covers (survey : Survey) (s : Schema) : Prop :=
  ∀ (t : Schema) (ref : String), t.Part s → t.reference = some ref → ref ∈ survey.references

/-- What holds of a survey of a document whenever it has dealt with a target. -/
structure Sound (d : Document) (survey : Survey) : Prop where
  /-- The references gathered are those of nodes. -/
  ofNode : ∀ ref ∈ survey.references, ∃ p s, d.Surveyed p s ∧ s.reference = some ref
  /-- All references in the schema of the document have been gathered. -/
  root : survey.Covers d.root
  /-- What is found at a place that has a name is a node, and all references in it have been
  gathered. -/
  named : ∀ p found, survey.table.contains p = true → d.resolve? p = some found →
    (∃ q, d.Surveyed q found.schema) ∧ survey.Covers found.schema
  /-- A target that was dealt with has a name, or there is nothing. -/
  settled : ∀ q ∈ survey.settled, survey.table.contains q = true ∨ d.resolve? q = none

/-! ## Rounds -/

/-- What is pending is a target of a node. -/
theorem Recorded.isTarget (h : Recorded d survey visits) (hq : q ∈ survey.pending) :
    d.IsTarget q := by
  obtain ⟨v, hv, href⟩ := h.exists_of_mem_pending hq
  exact ⟨v.pointer, v.schema, h.surveyed v hv, href⟩

/-- If all targets have names, but for those where nothing is found, no more names are given. -/
theorem table_close_eq (h : ∀ ref ∈ survey.references, ∀ q, Pointer.ofRef? ref = some q →
    survey.table.contains q = true ∨ d.resolve? q = none) (rounds : Nat) :
    (close d rounds survey).table = survey.table := by
  -- No round changes anything but what was dealt with.
  have hclose : ∃ settled, close d rounds survey = { survey with settled } := by
    refine closeVisits_induction (P := fun after _ => ∃ settled, after = { survey with settled })
      ?_ rounds survey [] ⟨_, rfl⟩
    rintro _ - ⟨settled, rfl⟩
    refine List.foldlRecOn (motive := fun after => ∃ settled, after = { survey with settled })
      (pending { survey with settled }) (settle d) ⟨settled, rfl⟩ ?_
    rintro _ ⟨settled', rfl⟩ q hq
    obtain ⟨ref, href, hq⟩ := List.mem_filterMap.1 (List.mem_of_mem_filter hq)
    exact ⟨_, settle_eq_of_or (h ref href q hq)⟩
  obtain ⟨settled, hclose⟩ := hclose
  rw [hclose]

/-- A round leaves fewer targets if one is pending. -/
theorem Recorded.card_targetsLeft_lt (h : Recorded d survey visits) (hq : q ∈ survey.pending) :
    (d.targetsLeft (survey.pending.foldl (Survey.settle d) survey).settled).card <
      (d.targetsLeft survey.settled).card :=
  Document.card_targetsLeft_lt (h.isTarget hq).mem_targets (mem_pending_iff.1 hq).2
    (mem_settled_foldl_settle.2 (.inl hq)) fun _ hr => mem_settled_foldl_settle.2 (.inr hr)

/-- After more rounds than targets were left, nothing is pending. -/
theorem Recorded.pending_close {rounds : Nat} (h : Recorded d survey visits)
    (hlt : (d.targetsLeft survey.settled).card < rounds) :
    (Survey.close d rounds survey).pending = [] := by
  induction rounds generalizing survey visits with
  | zero => omega
  | succ rounds ih =>
    rw [Survey.close]
    split
    · next hempty => exact List.isEmpty_iff.1 hempty
    · next hne =>
      obtain ⟨q, hq⟩ := List.exists_mem_of_ne_nil _ (mt List.isEmpty_iff.2 hne)
      have := h.card_targetsLeft_lt hq
      exact ih (h.round fun _ => h.exists_of_mem_pending) (by omega)

/-- What a complete survey has comes from all its visits. -/
theorem recorded_complete (d : Document) (rootName : Option String) :
    Recorded d (complete d rootName) (visited d rootName) :=
  (recorded_ofSchema d rootName).close (roundLimit d)

/-- The rounds of a survey are enough to deal with every target. -/
theorem pending_complete (d : Document) (rootName : Option String) :
    (complete d rootName).pending = [] :=
  (recorded_ofSchema d rootName).pending_close (Nat.lt_succ_of_le (d.card_targetsLeft_le _))

/-! ## References and names -/

/-- All references in a part have been gathered if those in the whole have. -/
theorem Covers.part (h : survey.Covers s) (ht : t.Part s) : survey.Covers t :=
  fun u ref hu href => h u ref (hu.trans ht) href

/-- All parts of a visited node are visited. -/
theorem Recorded.exists_of_part (h : Recorded d survey visits) (hv : v ∈ visits)
    (ht : t.Part v.schema) : ∃ w ∈ visits, w.schema = t := by
  generalize hs : v.schema = s at ht
  induction ht generalizing v with
  | self => exact ⟨v, hv, hs⟩
  | inside hc _ ih =>
    subst hs
    obtain ⟨w, hw, -, hschema⟩ := h.below v hv _ _ hc
    exact ih hw hschema

/-- All references in a visited node have been gathered. -/
theorem Recorded.covers (h : Recorded d survey visits) (hv : v ∈ visits) :
    survey.Covers v.schema := by
  intro t ref ht href
  obtain ⟨w, hw, rfl⟩ := h.exists_of_part hv ht
  exact (h.references ref).2 ⟨w, hw, href⟩

/-- A survey that has visited the schema of the document is sound. -/
theorem Recorded.sound (h : Recorded d survey visits) (hv : v ∈ visits)
    (hroot : v.schema = d.root) : Sound d survey := by
  constructor
  case ofNode =>
    intro ref href
    obtain ⟨w, hw, hwref⟩ := (h.references ref).1 href
    exact ⟨w.pointer, w.schema, h.surveyed w hw, hwref⟩
  case root => exact hroot ▸ h.covers hv
  case named =>
    intro p found hp hr
    obtain ⟨w, hw, hschema⟩ : ∃ w ∈ visits, w.schema = found.schema := by
      obtain ⟨t, _ | _⟩ := found
      · obtain ⟨w, hw, -, hschema⟩ := h.exists_of_contains hp hr
        exact ⟨w, hw, hschema⟩
      · exact h.exists_of_part hv (hroot ▸ part_of_walk? (walk?_of_resolve? hr))
    rw [← hschema]
    exact ⟨⟨w.pointer, h.surveyed w hw⟩, h.covers hw⟩
  case settled =>
    intro q hq
    cases hr : d.resolve? q with
    | none => exact .inr rfl
    | some found => exact .inl ((h.names q).2 (.inr ⟨hq, by rw [hr]; rfl⟩))

/-- The survey of a document is sound. -/
theorem sound_complete (d : Document) (rootName : Option String) :
    Sound d (complete d rootName) :=
  (recorded_complete d rootName).sound
    (List.mem_append_left _ (Visit.mem_visits_iff.2 (.inl rfl))) rfl

/-- In the end, what is found at a target whose reference was gathered has a name. -/
theorem contains_complete_of_mem (rootName : Option String) {ref : String}
    (href : ref ∈ (complete d rootName).references) (hq : Pointer.ofRef? ref = some q)
    (hr : d.resolve? q = some found) : (complete d rootName).table.contains q = true := by
  have hsettled : q ∈ (complete d rootName).settled := by
    by_contra hnot
    have hmem := mem_pending_iff.2 ⟨⟨ref, href, hq⟩, hnot⟩
    rw [pending_complete] at hmem
    cases hmem
  rcases (sound_complete d rootName).settled q hsettled with h | h
  · exact h
  · cases h.symm.trans hr

/-- In the end the references of all nodes have been gathered. -/
theorem covers_complete (rootName : Option String) (h : d.Surveyed p s) :
    (complete d rootName).Covers s := by
  induction h with
  | root => exact (sound_complete d rootName).root
  | child _ hc ih => exact ih.part (.inside hc (.self _))
  | target _ href hr ih =>
    obtain ⟨ref, href, hq⟩ := Schema.internalReference?_eq_some_iff.1 href
    have hcontains := contains_complete_of_mem rootName (ih _ ref (.self _) href) hq hr
    exact ((sound_complete d rootName).named _ _ hcontains hr).2

/-- In the end every target of a node at which anything is found has a name. -/
theorem contains_complete (rootName : Option String) (h : d.IsTarget q)
    (hr : d.resolve? q = some found) : (complete d rootName).table.contains q = true := by
  obtain ⟨p, s, hs, href⟩ := h
  obtain ⟨ref, href, hq⟩ := Schema.internalReference?_eq_some_iff.1 href
  exact contains_complete_of_mem rootName (covers_complete rootName hs _ ref (.self _) href) hq hr

end Survey
end SchemaTypes
