import Mathlib.Data.Finset.Card
import SchemaTypes.Proofs.Schema.Walk

/-!
# The nodes of a document

`Document.Surveyed d p s` says that `s` is a node of the document at the place `p`: it stands in the
schema of the document, or in what a reference of such a node is found to mean outside of that
schema. Every such node was read from a part of the value of the document
(`Surveyed.exists_json`), and if the value goes on along its place, the node is what is read there
(`Surveyed.read_of_follow?`). All references of nodes are texts of the value, so their targets are
finitely many (`Document.targets`).
-/

namespace SchemaTypes

namespace Schema

/-- The schema `t` is the schema `s` or stands inside of it. -/
inductive Part : Schema → Schema → Prop where
  | self (s : Schema) : Part s s
  | inside {t s c : Schema} {slot : Slot} : s.Holds slot c → Part t c → Part t s

/-- A part of a part is a part. -/
theorem Part.trans {t u s : Schema} (htu : Part t u) (hus : Part u s) : Part t s := by
  induction hus with
  | self => exact htu
  | inside hc _ ih => exact .inside hc ih

/-- What a walk leads to is a part. -/
theorem Walks.part {s t : Schema} {steps : List String} (h : Walks s steps t) : Part t s := by
  induction h with
  | nil => exact .self _
  | cons hc _ _ ih => exact .inside hc ih

/-- The target of a `$ref` is written as the `$ref` is. -/
theorem internalReference?_eq_some_iff {s : Schema} {q : Pointer} :
    s.internalReference? = some q ↔ ∃ ref, s.reference = some ref ∧ Pointer.ofRef? ref = some q :=
  Option.bind_eq_some_iff

end Schema

namespace Document

variable {d : Document} {p q : Pointer} {s t : Schema}

/-! ## Looking up a pointer -/

/-- A pointer that is followed through the schema leads to a part of it. -/
theorem part_of_walk? (h : d.walk? p = some s) : s.Part d.root :=
  (Schema.walks_of_walk? h).part

/-- What is found in the schema is what the pointer is followed to there. -/
theorem walk?_of_resolve? (h : d.resolve? p = some ⟨s, true⟩) : d.walk? p = some s := by
  unfold resolve? at h
  split at h
  · next hwalk => cases h; exact hwalk
  · obtain ⟨_, -, heq⟩ := Option.map_eq_some_iff.1 h
    cases heq

/-- What is found outside of the schema was read from the value that the pointer leads to. -/
theorem read_of_resolve? (h : d.resolve? p = some ⟨s, false⟩) :
    ∃ v, d.json.follow? p.segments = some v ∧ Schema.read v = .ok s := by
  unfold resolve? at h
  split at h
  · cases h
  · obtain ⟨_, hread, heq⟩ := Option.map_eq_some_iff.1 h
    cases heq
    obtain ⟨v, hv, hread⟩ := Option.bind_eq_some_iff.1 hread
    cases hs : Schema.read v with
    | error e => rw [hs] at hread; cases hread
    | ok t => rw [hs] at hread; cases hread; exact ⟨v, hv, hs⟩

/-- A definition of the document is found at its place. -/
theorem resolve?_definition {key : String} {c : Schema}
    (h : d.root.child? (.definition key) = some c) :
    d.resolve? (Pointer.root.slot (.definition key)) = some ⟨c, true⟩ := by
  simp [resolve?, walk?, Slot.steps, Schema.walk?, Schema.slotOf, Schema.slotOfPair, h]

/-- A place leads on if a bare reference is found there. -/
theorem next?_eq_some_iff :
    d.next? p = some q ↔ ∃ found, d.resolve? p = some found ∧ found.schema.isReference = true ∧
      found.schema.internalReference? = some q := by
  rw [next?]
  cases d.resolve? p with
  | none => simp
  | some found => cases hs : found.schema.isReference <;> simp [hs]

/-- A definition that is a bare reference leads on to its target. -/
theorem next?_definition {key : String} {c : Schema}
    (h : d.root.child? (.definition key) = some c) :
    d.next? (Pointer.root.slot (.definition key)) =
      if c.isReference then c.internalReference? else none := by
  rw [next?, resolve?_definition h]

/-! ## Nodes -/

/-- The schema `s` is a node of the document at the place `p`. -/
inductive Surveyed (d : Document) : Pointer → Schema → Prop where
  /-- The schema of the document is a node. -/
  | root : Surveyed d .root d.root
  /-- What a node holds is a node. -/
  | child {p : Pointer} {s c : Schema} {slot : Slot} :
    Surveyed d p s → s.Holds slot c → Surveyed d (p.slot slot) c
  /-- What is found outside of the schema at the target of a node is a node. -/
  | target {p q : Pointer} {s t : Schema} :
    Surveyed d p s → s.internalReference? = some q → d.resolve? q = some ⟨t, false⟩ →
      Surveyed d q t

/-- The pointer is the target of a node. -/
def IsTarget (d : Document) (q : Pointer) : Prop :=
  ∃ p s, Surveyed d p s ∧ s.internalReference? = some q

/-- The parts of a node are nodes. -/
theorem Surveyed.of_part (h : Surveyed d p s) (ht : t.Part s) : ∃ q, Surveyed d q t := by
  induction ht generalizing p with
  | self => exact ⟨p, h⟩
  | inside hc _ ih => exact ih (h.child hc)

/-- A part of the schema of the document is a node. -/
theorem exists_surveyed_of_part (h : t.Part d.root) : ∃ q, Surveyed d q t :=
  Surveyed.root.of_part h

/-- A node was read from a part of the value of the document. -/
theorem Surveyed.exists_json (h : Surveyed d p s) :
    ∃ v, Json.Part v d.json ∧ Schema.read v = .ok s := by
  induction h with
  | root => exact ⟨d.json, .self _, d.reads⟩
  | child _ hc ih =>
    obtain ⟨v, hv, hread⟩ := ih
    obtain ⟨w, hw, -, hread⟩ := Schema.exists_part_of_holds (hv.keysDistinct d.distinct) hread hc
    exact ⟨w, hw.trans hv, hread⟩
  | target _ _ hr _ =>
    obtain ⟨v, hv, hread⟩ := read_of_resolve? hr
    exact ⟨v, Json.part_of_follow? hv, hread⟩

/-- A node is what the value at its place reads as, if the value goes on so far. -/
theorem Surveyed.read_of_follow? (h : Surveyed d p s) {v : Json}
    (hv : d.json.follow? p.segments = some v) : Schema.read v = .ok s := by
  induction h generalizing v with
  | root =>
    rw [Pointer.segments_root] at hv
    cases hv
    exact d.reads
  | @child p s c slot _ hc ih =>
    rw [Pointer.segments_slot, Json.follow?_append] at hv
    obtain ⟨w, hw, hv⟩ := Option.bind_eq_some_iff.1 hv
    exact Schema.read_follow_child ((Json.part_of_follow? hw).keysDistinct d.distinct) (ih hw) hc
      slot.spelledBy_steps hv
  | target _ _ hr _ =>
    obtain ⟨w, hw, hread⟩ := read_of_resolve? hr
    cases hw.symm.trans hv
    exact hread

/-- What is found at the target of a node is a node. -/
theorem IsTarget.of_resolve? (h : IsTarget d q) {found : Located}
    (hr : d.resolve? q = some found) : ∃ p, Surveyed d p found.schema := by
  obtain ⟨p, s, hs, href⟩ := h
  obtain ⟨t, _ | _⟩ := found
  · exact ⟨q, hs.target href hr⟩
  · exact exists_surveyed_of_part (part_of_walk? (walk?_of_resolve? hr))

/-! ## Targets -/

/-- The pointers among the texts of the document. -/
def targets (d : Document) : Finset Pointer :=
  (d.json.texts.filterMap Pointer.ofRef?).toFinset

/-- There are no more targets than parts of the document. -/
theorem card_targets_le (d : Document) : d.targets.card ≤ d.json.size :=
  calc d.targets.card
    _ ≤ (d.json.texts.filterMap Pointer.ofRef?).length := List.toFinset_card_le _
    _ ≤ d.json.texts.length := List.length_filterMap_le _ _
    _ ≤ d.json.size := d.json.length_texts_le

/-- The target of a schema that was read from a part of the document is among the targets. -/
theorem mem_targets_of_read {v : Json} (hv : Json.Part v d.json) (hread : Schema.read v = .ok s)
    (href : s.internalReference? = some q) : q ∈ d.targets := by
  obtain ⟨ref, href, hq⟩ := Schema.internalReference?_eq_some_iff.1 href
  rw [targets, List.mem_toFinset, List.mem_filterMap]
  exact ⟨ref, hv.texts_subset (Schema.mem_texts_of_reference hread href), hq⟩

/-- The target of a node is among the targets. -/
theorem IsTarget.mem_targets (h : IsTarget d q) : q ∈ d.targets := by
  obtain ⟨p, s, hs, href⟩ := h
  obtain ⟨v, hv, hread⟩ := hs.exists_json
  exact mem_targets_of_read hv hread href

/-- The targets that are left when some pointers are done with. -/
def targetsLeft (d : Document) (done : List Pointer) : Finset Pointer :=
  d.targets \ done.toFinset

/-- No more targets are left than there are parts of the document. -/
theorem card_targetsLeft_le (d : Document) (done : List Pointer) :
    (d.targetsLeft done).card ≤ d.json.size :=
  (Finset.card_le_card Finset.sdiff_subset).trans d.card_targets_le

/-- Less targets are left when one more is done with. -/
theorem card_targetsLeft_lt {done more : List Pointer} (hq : q ∈ d.targets) (hdone : q ∉ done)
    (hmore : q ∈ more) (hsub : done ⊆ more) :
    (d.targetsLeft more).card < (d.targetsLeft done).card := by
  simp only [targetsLeft]
  refine Finset.card_lt_card ((Finset.ssubset_iff_of_subset ?_).2 ⟨q, ?_, ?_⟩)
  · exact Finset.sdiff_subset_sdiff (Finset.Subset.refl _) fun r hr =>
      List.mem_toFinset.2 (hsub (List.mem_toFinset.1 hr))
  · exact Finset.mem_sdiff.2 ⟨hq, fun hmem => hdone (List.mem_toFinset.1 hmem)⟩
  · exact fun hmem => (Finset.mem_sdiff.1 hmem).2 (List.mem_toFinset.2 hmore)

/-- One target less is left when it is done with after some others. -/
theorem card_targetsLeft_append_lt {done : List Pointer} (hq : q ∈ d.targets) (hdone : q ∉ done) :
    (d.targetsLeft (done ++ [q])).card < (d.targetsLeft done).card :=
  card_targetsLeft_lt hq hdone (List.mem_append_right _ (.head _)) (List.subset_append_left _ _)

/-- Where a place leads on to is among the targets. -/
theorem mem_targets_of_next? (h : d.next? p = some q) : q ∈ d.targets := by
  obtain ⟨⟨s, _ | _⟩, hr, -, href⟩ := next?_eq_some_iff.1 h
  · obtain ⟨v, hv, hread⟩ := read_of_resolve? hr
    exact mem_targets_of_read (Json.part_of_follow? hv) hread href
  · obtain ⟨p', hs⟩ := exists_surveyed_of_part (part_of_walk? (walk?_of_resolve? hr))
    exact IsTarget.mem_targets ⟨p', s, hs, href⟩

end Document
end SchemaTypes
