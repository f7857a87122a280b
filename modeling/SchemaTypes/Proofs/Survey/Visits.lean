import SchemaTypes.Survey
import SchemaTypes.Proofs.Document.Surveyed
import SchemaTypes.Proofs.NameTable.Entries

/-!
# What visits leave behind

The visits of a node go through its parts, each of them at its own place (`Visit.surveyed_of_mem`).
What a survey has after them is what it had before, the references of the nodes visited, and names
for those that get one.
-/

namespace SchemaTypes

namespace Visit

variable {d : Document} {s t : Schema} {p : Pointer} {suggested : String} {role : Role} {v : Visit}

/-- The visits of a node are the visit of itself and those of what it holds. -/
theorem mem_visits_iff :
    v ∈ visits s p suggested role ↔
      v = ⟨p, s, role, nameOf s suggested role⟩ ∨ ∃ slot c, s.Holds slot c ∧
        v ∈ visits c (p.slot slot) (suggestion (nameOf s suggested role) slot c) (roleIn slot) := by
  rw [visits]
  simp only [List.mem_cons, List.mem_flatMap, List.mem_attach, true_and, Subtype.exists,
    Prod.exists, ← Schema.mem_children_iff, exists_prop]

/-- The place of the node gets a name: there is one for it, and the node is worth a declaration. -/
def GetsName (v : Visit) : Prop :=
  v.name.isSome = true ∧ v.earnsDeclaration = true

/-- Only parts of a node are visited, each of them at its place. -/
theorem surveyed_of_mem {s : Schema} {p : Pointer} {suggested : String} {role : Role}
    (hv : v ∈ visits s p suggested role) (hs : d.Surveyed p s) :
    d.Surveyed v.pointer v.schema ∧ v.schema.Part s := by
  rcases mem_visits_iff.1 hv with rfl | ⟨slot, c, hc, hv⟩
  · exact ⟨hs, .self s⟩
  · have hlt := Schema.sizeOf_lt_of_mem_children (Schema.mem_children_iff.2 hc)
    obtain ⟨hsurveyed, hpart⟩ := surveyed_of_mem hv (hs.child hc)
    exact ⟨hsurveyed, .inside hc hpart⟩
termination_by sizeOf s

/-- What a visited node holds is visited, too, at the place of its slot. -/
theorem exists_of_holds {s c : Schema} {p : Pointer} {suggested : String} {role : Role}
    {v : Visit} {slot : Slot} (hv : v ∈ visits s p suggested role) (hc : v.schema.Holds slot c) :
    ∃ w ∈ visits s p suggested role, w.pointer = v.pointer.slot slot ∧ w.schema = c := by
  rcases mem_visits_iff.1 hv with rfl | ⟨slot', c', hc', hv⟩
  · exact ⟨_, mem_visits_iff.2 (.inr ⟨slot, c, hc, mem_visits_iff.2 (.inl rfl)⟩), rfl, rfl⟩
  · have hlt := Schema.sizeOf_lt_of_mem_children (Schema.mem_children_iff.2 hc')
    obtain ⟨w, hw, hplace, hschema⟩ := exists_of_holds hv hc
    exact ⟨w, mem_visits_iff.2 (.inr ⟨slot', c', hc', hw⟩), hplace, hschema⟩
termination_by sizeOf s

end Visit

namespace Survey

variable {d : Document} {survey : Survey} {p q : Pointer} {s t : Schema} {ref : String}
  {visits : List Visit}

/-! ## One visit -/

/-- The texts of a list with one more are that one and those of the list. -/
theorem mem_insertText {text : String} {texts : List String} :
    ref ∈ insertText text texts ↔ ref = text ∨ ref ∈ texts := by
  induction texts with
  | nil => simp [insertText]
  | cons t rest ih =>
    rw [insertText]
    split
    · simp
    · split
      · next heq => simp [heq]
      · rw [List.mem_cons, ih, List.mem_cons]
        exact or_left_comm

/-- A visit adds the reference of its node. -/
theorem mem_references_record {v : Visit} :
    ref ∈ (survey.record v).references ↔
      ref ∈ survey.references ∨ v.schema.reference = some ref := by
  simp only [record]
  cases hr : v.schema.reference with
  | none => simp
  | some r => rw [mem_insertText, or_comm, Option.some.injEq, eq_comm]

/-- After a visit the places with names are those from before, and that of the node if it gets
one. -/
theorem contains_record_iff {v : Visit} :
    (survey.record v).table.contains q = true ↔
      survey.table.contains q = true ∨ v.pointer = q ∧ v.GetsName := by
  simp only [record]
  cases hname : v.name with
  | none => simp [Visit.GetsName, hname]
  | some name =>
    cases hearns : v.earnsDeclaration with
    | false => simp [Visit.GetsName, hearns]
    | true =>
      show (survey.table.register v.pointer name).2.contains q = true ↔ _
      rw [NameTable.contains_register, or_comm, @eq_comm _ q]
      simp [Visit.GetsName, hname, hearns]

/-! ## All visits of a node -/

/-- Visits add the references of their nodes. -/
theorem mem_references_foldl_record :
    ref ∈ (visits.foldl record survey).references ↔
      ref ∈ survey.references ∨ ∃ v ∈ visits, v.schema.reference = some ref := by
  induction visits generalizing survey with
  | nil => simp
  | cons v rest ih =>
    simp only [List.foldl_cons, ih, mem_references_record, List.mem_cons, exists_eq_or_imp,
      or_assoc]

/-- After visits the places with names are those from before, and those of the nodes that get
one. -/
theorem contains_foldl_record_iff :
    (visits.foldl record survey).table.contains q = true ↔
      survey.table.contains q = true ∨ ∃ v ∈ visits, v.pointer = q ∧ v.GetsName := by
  induction visits generalizing survey with
  | nil => simp
  | cons v rest ih =>
    simp only [List.foldl_cons, ih, contains_record_iff, List.mem_cons, exists_eq_or_imp, or_assoc]

/-- Visits deal with no targets. -/
theorem settled_foldl_record : (visits.foldl record survey).settled = survey.settled := by
  induction visits generalizing survey with
  | nil => rfl
  | cons v rest ih => rw [List.foldl_cons, ih]; rfl

end Survey
end SchemaTypes
