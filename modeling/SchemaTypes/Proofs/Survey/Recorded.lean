import SchemaTypes.Proofs.NameTable.Consistent
import SchemaTypes.Proofs.Survey.Visits

/-!
# What a survey records

A survey visits the schema of the document and, for every target that has no name when its turn
comes, what is found there outside of that schema (`Survey.visited`). All it gathers comes from
these visits and from the targets it deals with (`Survey.Recorded`). It is so for the survey of the
schema, and stays so with every target (`Survey.Recorded.settle`), so it is so after any number of
rounds (`Survey.Recorded.close`).

A target that has a name is not visited. Nothing is missed by that: the name was given when the
target was visited as a part of something else, or when it was dealt with before
(`Survey.Recorded.exists_of_contains`).
-/

namespace SchemaTypes
namespace Survey

open Document

variable {d : Document} {survey : Survey} {p q : Pointer}

/-! ## Targets -/

/-- A target is pending if a reference to it has been gathered and it has not been dealt with. -/
theorem mem_pending_iff :
    q ∈ survey.pending ↔
      (∃ ref ∈ survey.references, Pointer.ofRef? ref = some q) ∧ q ∉ survey.settled := by
  simp [pending]

/-- There is nothing to do about a target that has a name, or where nothing is found. -/
theorem settle_eq_of_or (h : survey.table.contains q = true ∨ d.resolve? q = none) :
    settle d survey q = { survey with settled := q :: survey.settled } := by
  rcases h with h | h <;> simp [settle, h]

/-- A target that was dealt with is remembered. -/
theorem settled_settle (d : Document) (survey : Survey) (q : Pointer) :
    (settle d survey q).settled = q :: survey.settled := by
  simp only [settle]
  split
  · rfl
  · split
    · rfl
    · split
      · rfl
      · exact settled_foldl_record

/-- Targets that were dealt with are remembered, and so are those before. -/
theorem mem_settled_foldl_settle {qs : List Pointer} :
    q ∈ (qs.foldl (settle d) survey).settled ↔ q ∈ qs ∨ q ∈ survey.settled := by
  induction qs generalizing survey with
  | nil => simp
  | cons r rest ih => rw [List.foldl_cons, ih, settled_settle, List.mem_cons, List.mem_cons,
      or_left_comm, or_assoc]

/-! ## The visits of a survey -/

/-- The visits that are made when a target is dealt with. -/
def settleVisits (d : Document) (survey : Survey) (target : Pointer) : List Visit :=
  if survey.table.contains target then []
  else
    match d.resolve? target with
    | none => []
    | some found =>
      let (name, _) := survey.table.register target (Identifier.ofPointer target)
      if found.inSchema then [] else Visit.visits found.schema target name .definition

/-- The visits that are made when several targets are dealt with. -/
def roundVisits (d : Document) (survey : Survey) : List Pointer → List Visit
  | [] => []
  | q :: rest => settleVisits d survey q ++ roundVisits d (settle d survey q) rest

/-- The visits that are made in at most `rounds` rounds. -/
def closeVisits (d : Document) : Nat → Survey → List Visit
  | 0, _ => []
  | rounds + 1, survey =>
    if survey.pending.isEmpty then []
    else
      roundVisits d survey survey.pending ++
        closeVisits d rounds (survey.pending.foldl (settle d) survey)

/-- What holds of a survey and its visits, and with every round still does, holds after any number of
rounds. -/
theorem closeVisits_induction {P : Survey → List Visit → Prop}
    (hround : ∀ survey visits, P survey visits →
      P (survey.pending.foldl (settle d) survey)
        (visits ++ roundVisits d survey survey.pending))
    (rounds : Nat) (survey : Survey) (visits : List Visit) (hP : P survey visits) :
    P (close d rounds survey) (visits ++ closeVisits d rounds survey) := by
  induction rounds generalizing survey visits with
  | zero => rwa [closeVisits, List.append_nil]
  | succ rounds ih =>
    rw [close, closeVisits]
    split
    · rwa [List.append_nil]
    · rw [← List.append_assoc]
      exact ih _ _ (hround survey visits hP)

/-- All visits that the survey of a document makes. -/
def visited (d : Document) (rootName : Option String) : List Visit :=
  Visit.visits d.root .root ((rootName.map Identifier.normalize).getD "") .document ++
    closeVisits d (roundLimit d) (ofSchema d rootName)

/-- The survey after a target was named, if anything is found there, and before it is visited. -/
def enter (d : Document) (survey : Survey) (target : Pointer) : Survey :=
  { survey with
    table :=
      if (d.resolve? target).isSome then
        (survey.table.register target (Identifier.ofPointer target)).2
      else survey.table
    settled := target :: survey.settled }

/-- A target is dealt with by naming it and by making its visits. -/
theorem settle_eq_foldl_record (d : Document) (survey : Survey) (q : Pointer) :
    settle d survey q = (settleVisits d survey q).foldl record (enter d survey q) := by
  rw [settle, settleVisits, enter]
  cases hcontains : survey.table.contains q with
  | true =>
    obtain ⟨e, he⟩ := Option.isSome_iff_exists.1 hcontains
    simp [NameTable.register_named he]
  | false =>
    cases d.resolve? q with
    | none => simp
    | some found => cases hin : found.inSchema <;> simp [hin, visitAll]

/-- When a target is dealt with that has no name, what is found there outside of the schema is
visited; otherwise nothing is. -/
theorem settleVisits_eq_or (d : Document) (survey : Survey) (q : Pointer) :
    (settleVisits d survey q = [] ∧
      ∀ t, d.resolve? q = some ⟨t, false⟩ → survey.table.contains q = true) ∨
    ∃ t name, d.resolve? q = some ⟨t, false⟩ ∧
      settleVisits d survey q = Visit.visits t q name .definition := by
  rw [settleVisits]
  cases hcontains : survey.table.contains q with
  | true => exact .inl ⟨rfl, fun _ _ => rfl⟩
  | false =>
    cases hr : d.resolve? q with
    | none => exact .inl ⟨rfl, nofun⟩
    | some found =>
      obtain ⟨t, _ | _⟩ := found
      · exact .inr ⟨t, _, rfl, rfl⟩
      · exact .inl ⟨rfl, nofun⟩

/-! ## What a survey has after its visits -/

/-- What a survey has gathered comes from the visits that it made and the targets it dealt with. -/
structure Recorded (d : Document) (survey : Survey) (visits : List Visit) : Prop where
  /-- The visits are those of nodes. -/
  surveyed : ∀ v ∈ visits, d.Surveyed v.pointer v.schema
  /-- What a visited node holds is visited. -/
  below : ∀ v ∈ visits, ∀ slot c, v.schema.Holds slot c →
    ∃ w ∈ visits, w.pointer = v.pointer.slot slot ∧ w.schema = c
  /-- The references gathered are those of the visited nodes. -/
  references : ∀ ref, ref ∈ survey.references ↔ ∃ v ∈ visits, v.schema.reference = some ref
  /-- The targets dealt with are those of visited nodes. -/
  targets : ∀ q ∈ survey.settled, ∃ v ∈ visits, v.schema.internalReference? = some q
  /-- What is found outside of the schema at a target dealt with is visited. -/
  outside : ∀ q t, q ∈ survey.settled → d.resolve? q = some ⟨t, false⟩ →
    ∃ v ∈ visits, v.pointer = q ∧ v.schema = t
  /-- The places with names are those of visited nodes that get one, and of the targets dealt with
  at which anything is found. -/
  names : ∀ p, survey.table.contains p = true ↔
    (∃ v ∈ visits, v.pointer = p ∧ v.GetsName) ∨
      p ∈ survey.settled ∧ (d.resolve? p).isSome = true

variable {visits : List Visit}

/-- The survey of the schema itself has recorded the visits of the schema. -/
theorem recorded_ofSchema (d : Document) (rootName : Option String) :
    Recorded d (ofSchema d rootName)
      (Visit.visits d.root .root ((rootName.map Identifier.normalize).getD "") .document) where
  surveyed v hv := (Visit.surveyed_of_mem hv .root).1
  below v hv slot c hc := Visit.exists_of_holds hv hc
  references ref := by
    refine mem_references_foldl_record.trans ?_
    exact or_iff_right List.not_mem_nil
  targets q hq := by
    rw [ofSchema, visitAll, settled_foldl_record] at hq
    cases hq
  outside q t hq := by
    rw [ofSchema, visitAll, settled_foldl_record] at hq
    cases hq
  names p := by
    have hsettled : (ofSchema d rootName).settled = [] := settled_foldl_record
    rw [hsettled]
    refine contains_foldl_record_iff.trans ?_
    simp [NameTable.contains, NameTable.entry?]

/-- What is found outside of the schema at a place with a name was visited. -/
theorem Recorded.exists_of_contains (h : Recorded d survey visits)
    (hq : survey.table.contains q = true) {t : Schema} (hr : d.resolve? q = some ⟨t, false⟩) :
    ∃ v ∈ visits, v.pointer = q ∧ v.schema = t := by
  rcases (h.names q).1 hq with ⟨v, hv, rfl, -⟩ | ⟨hsettled, -⟩
  · -- The node and what is found at its place were read from the same value.
    obtain ⟨w, hw, hread⟩ := read_of_resolve? hr
    have hsame := (h.surveyed v hv).read_of_follow? hw
    exact ⟨v, hv, rfl, Except.ok.inj (hsame.symm.trans hread)⟩
  · exact h.outside q t hsettled hr

/-- The visits of a target are those of nodes, and of all that these hold. -/
theorem Recorded.settleVisits (h : Recorded d survey visits)
    (hq : ∃ v ∈ visits, v.schema.internalReference? = some q) :
    (∀ v ∈ settleVisits d survey q, d.Surveyed v.pointer v.schema ∧ ∀ slot c,
      v.schema.Holds slot c → ∃ w ∈ Survey.settleVisits d survey q,
        w.pointer = v.pointer.slot slot ∧ w.schema = c) ∧
    ∀ t, d.resolve? q = some ⟨t, false⟩ →
      ∃ v ∈ visits ++ Survey.settleVisits d survey q, v.pointer = q ∧ v.schema = t := by
  obtain ⟨u, hu, href⟩ := hq
  rcases settleVisits_eq_or d survey q with ⟨hnil, hnamed⟩ | ⟨t, name, hr, heq⟩
  · rw [hnil, List.append_nil]
    exact ⟨nofun, fun t hr => h.exists_of_contains (hnamed t hr) hr⟩
  · have ht : d.Surveyed q t := (h.surveyed u hu).target href hr
    rw [heq]
    refine ⟨fun v hv => ⟨(Visit.surveyed_of_mem hv ht).1, fun slot c hc =>
      Visit.exists_of_holds hv hc⟩, fun t' hr' => ?_⟩
    cases hr.symm.trans hr'
    exact ⟨_, List.mem_append_right _ (Visit.mem_visits_iff.2 (.inl rfl)), rfl, rfl⟩

/-- The places with names after a target was named. -/
theorem contains_enter_iff :
    (enter d survey q).table.contains p = true ↔
      survey.table.contains p = true ∨ p = q ∧ (d.resolve? p).isSome = true := by
  rw [enter]
  by_cases hp : p = q
  · subst hp
    split
    · next hfound => simp [NameTable.contains_register_self, hfound]
    · next hnone => simp [hnone]
  · split
    · simp [NameTable.contains_register, hp]
    · simp [hp]

/-- When one more target is dealt with, what the survey has still comes from its visits. -/
theorem Recorded.settle (h : Recorded d survey visits)
    (hq : ∃ v ∈ visits, v.schema.internalReference? = some q) :
    Recorded d (settle d survey q) (visits ++ Survey.settleVisits d survey q) := by
  obtain ⟨hnew, hfound⟩ := h.settleVisits hq
  have hsettled := settled_settle d survey q
  constructor
  case surveyed =>
    intro v hv
    rcases List.mem_append.1 hv with hv | hv
    · exact h.surveyed v hv
    · exact (hnew v hv).1
  case below =>
    intro v hv slot c hc
    rcases List.mem_append.1 hv with hv | hv
    · obtain ⟨w, hw, hat⟩ := h.below v hv slot c hc
      exact ⟨w, List.mem_append_left _ hw, hat⟩
    · obtain ⟨w, hw, hat⟩ := (hnew v hv).2 slot c hc
      exact ⟨w, List.mem_append_right _ hw, hat⟩
  case references =>
    intro ref
    rw [settle_eq_foldl_record, mem_references_foldl_record]
    show ref ∈ survey.references ∨ _ ↔ _
    rw [h.references ref]
    simp only [List.mem_append, or_and_right, exists_or]
  case targets =>
    intro r hr
    rw [hsettled] at hr
    obtain ⟨v, hv, href⟩ : ∃ v ∈ visits, v.schema.internalReference? = some r := by
      rcases List.mem_cons.1 hr with rfl | hr
      · exact hq
      · exact h.targets r hr
    exact ⟨v, List.mem_append_left _ hv, href⟩
  case outside =>
    intro r t hr hresolve
    rw [hsettled] at hr
    rcases List.mem_cons.1 hr with rfl | hr
    · exact hfound t hresolve
    · obtain ⟨v, hv, hat⟩ := h.outside r t hr hresolve
      exact ⟨v, List.mem_append_left _ hv, hat⟩
  case names =>
    intro r
    rw [hsettled, settle_eq_foldl_record, contains_foldl_record_iff, contains_enter_iff, h.names r]
    simp only [List.mem_append, List.mem_cons, or_and_right, exists_or]
    constructor
    · rintro (((hold | hsettled) | hself) | hnew)
      · exact .inl (.inl hold)
      · exact .inr (.inr hsettled)
      · exact .inr (.inl hself)
      · exact .inl (.inr hnew)
    · rintro ((hold | hnew) | hself | hsettled)
      · exact .inl (.inl (.inl hold))
      · exact .inr hnew
      · exact .inl (.inr hself)
      · exact .inl (.inl (.inr hsettled))

/-- When several targets are dealt with, what the survey has still comes from its visits. -/
theorem Recorded.round {qs : List Pointer} (h : Recorded d survey visits)
    (hqs : ∀ q ∈ qs, ∃ v ∈ visits, v.schema.internalReference? = some q) :
    Recorded d (qs.foldl (Survey.settle d) survey) (visits ++ roundVisits d survey qs) := by
  induction qs generalizing survey visits with
  | nil => rwa [roundVisits, List.append_nil]
  | cons q rest ih =>
    have hfirst := h.settle (hqs q (.head _))
    rw [roundVisits, ← List.append_assoc]
    refine ih hfirst fun r hr => ?_
    obtain ⟨v, hv, href⟩ := hqs r (.tail _ hr)
    exact ⟨v, List.mem_append_left _ hv, href⟩

/-- What is pending is the target of a visited node. -/
theorem Recorded.exists_of_mem_pending (h : Recorded d survey visits) (hq : q ∈ survey.pending) :
    ∃ v ∈ visits, v.schema.internalReference? = some q := by
  obtain ⟨⟨ref, href, hq⟩, -⟩ := mem_pending_iff.1 hq
  obtain ⟨v, hv, hvref⟩ := (h.references ref).1 href
  exact ⟨v, hv, Schema.internalReference?_eq_some_iff.2 ⟨ref, hvref, hq⟩⟩

/-- After any number of rounds, what the survey has comes from its visits. -/
theorem Recorded.close (rounds : Nat) (h : Recorded d survey visits) :
    Recorded d (close d rounds survey) (visits ++ closeVisits d rounds survey) :=
  closeVisits_induction (fun _ _ h => h.round fun _ => h.exists_of_mem_pending) rounds _ _ h

end Survey
end SchemaTypes
