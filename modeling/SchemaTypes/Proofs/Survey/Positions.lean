import SchemaTypes.Proofs.Document.Positions
import SchemaTypes.Proofs.Survey.GivenUp
import SchemaTypes.Proofs.Survey.Visited

/-!
# Names of one position

Names belong to pointers, and pointers are told apart by how they are written. A survey writes the
place of a node slot by slot, but a target is named as the reference to it is written. Where every
such target is plain, each place is, so no position has two names. A target that is not plain is
named beside the plain place of its position, and so are the places of what it holds
(`Survey.eq_or_respelled`).
-/

namespace SchemaTypes

variable {d : Document} {p q r : Pointer} {s : Schema} {slots : List Slot}
  {rootName : Option String}

namespace Document

/-- The pointer is the target of a node and not plain, or some slots further in than such a
target. -/
def Respelled (d : Document) (p : Pointer) : Prop :=
  ∃ r below, d.IsTarget r ∧ ¬ d.Plain r ∧ p = r.within below

/-- The place of a node is some slots further in than the document, or than a target at which a
schema outside of that of the document is found. -/
theorem Surveyed.exists_within (h : d.Surveyed p s) :
    ∃ r below, p = r.within below ∧
      (r = .root ∨ d.IsTarget r ∧ ∃ t, d.resolve? r = some ⟨t, false⟩) := by
  induction h with
  | root => exact ⟨.root, [], rfl, .inl rfl⟩
  | @child p s c slot _ _ ih =>
    obtain ⟨r, below, rfl, hr⟩ := ih
    exact ⟨r, below ++ [slot], (Pointer.within_concat r below slot).symm, hr⟩
  | @target p q s t hs href hr _ => exact ⟨q, [], rfl, .inr ⟨⟨p, s, hs, href⟩, t, hr⟩⟩

/-- The place of a node is plain, unless it is within a target that is not. -/
theorem Surveyed.plain_or_respelled (h : d.Surveyed p s) : d.Plain p ∨ d.Respelled p := by
  obtain ⟨r, below, rfl, hr⟩ := h.exists_within
  rcases hr with rfl | ⟨htarget, t, hr⟩
  · exact .inl (d.plain_within below)
  · by_cases hplain : d.Plain r
    · obtain ⟨v, hv, -⟩ := read_of_resolve? hr
      exact .inl (hplain.within hv below)
    · exact .inr ⟨r, below, htarget, hplain, rfl⟩

/-- The target of a node is plain, or else it is respelled itself. -/
theorem IsTarget.plain_or_respelled (h : d.IsTarget p) : d.Plain p ∨ d.Respelled p := by
  by_cases hplain : d.Plain p
  · exact .inl hplain
  · exact .inr ⟨p, [], h, hplain, rfl⟩

/-- What is found at a pointer that has a position is found at the plain place of the position,
too. -/
theorem resolve?_within (h : d.position? r = some slots) :
    d.resolve? (Pointer.root.within slots) = d.resolve? r := by
  obtain ⟨t, ht⟩ := exists_walk?_of_position? h
  have hplain : d.walk? (Pointer.root.within slots) = some t :=
    (walk?_eq_of_position?_eq ((position?_within h).trans h.symm)).trans ht
  rw [resolve?_of_walk? ht, resolve?_of_walk? hplain]

end Document

namespace Survey

open Document

/-- A pointer that has a name is plain, unless it is within a target that is not. -/
theorem plain_or_respelled_of_contains (h : (names d rootName).contains p = true) :
    d.Plain p ∨ d.Respelled p := by
  rcases surveyed_or_isTarget_of_contains (contains_of_contains_prune h) with
    ⟨s, hs⟩ | ⟨htarget, -⟩
  · exact hs.plain_or_respelled
  · exact htarget.plain_or_respelled

/-- Two pointers with names that have the same position are the same, unless one of them is within a
target that is not plain. And a target that is not plain has a name beside the plain place of its
position, if that had a name before any was given up and what they lead to is no bare reference. -/
theorem eq_or_respelled (d : Document) (rootName : Option String) :
    (∀ p q slots, (names d rootName).contains p = true → (names d rootName).contains q = true →
      d.position? p = some slots → d.position? q = some slots →
      p = q ∨ d.Respelled p ∨ d.Respelled q) ∧
    ∀ r slots, d.IsTarget r → ¬ d.Plain r → d.position? r = some slots → d.next? r = none →
      (complete d rootName).table.contains (Pointer.root.within slots) = true →
      (names d rootName).contains r = true ∧
        (names d rootName).contains (Pointer.root.within slots) = true ∧
        Pointer.root.within slots ≠ r ∧
        d.position? (Pointer.root.within slots) = some slots := by
  constructor
  · intro p q slots hp hq hslots hslots'
    rcases plain_or_respelled_of_contains hp with hp | hp
    · rcases plain_or_respelled_of_contains hq with hq | hq
      · exact .inl (hp.eq hq hslots hslots')
      · exact .inr (.inr hq)
    · exact .inr (.inl hp)
  · intro r slots htarget hplain hslots hnext hcontains
    obtain ⟨t, ht⟩ := exists_walk?_of_position? hslots
    have hr := contains_complete rootName htarget (resolve?_of_walk? ht)
    have hnext' : d.next? (Pointer.root.within slots) = none := by
      rw [next?, resolve?_within hslots]
      exact hnext
    have hne : Pointer.root.within slots ≠ r := by
      rintro rfl
      exact hplain (d.plain_within slots)
    exact ⟨contains_prune_of_next?_eq_none hnext hr,
      contains_prune_of_next?_eq_none hnext' hcontains, hne, position?_within hslots⟩

/-- A document that refers to the first element of a list by two digits. -/
def respelling : Document where
  json := .object [("items",
    .array [.object [("title", .string "A")], .object [("$ref", .string "#/items/00")]])]
  root := { items := some (.tuple [{ title := some "A" }, { reference := some "#/items/00" }]) }
  distinct := by simp [Json.KeysDistinct, Json.MembersDistinct, Json.ElementsDistinct]
  reads := rfl

/-- The first element of the list, as the document refers to it. -/
def twoDigits : Pointer :=
  ⟨"#/items/00", by decide⟩

/-- The first element of the list is worth a declaration, so its place has a name before any is
given up. -/
theorem contains_complete_respelling :
    (complete respelling none).table.contains (Pointer.root.within [.itemAt 0]) = true := by
  have hvisit : ⟨Pointer.root.slot (.itemAt 0), { title := some "A" }, .inner, some "A"⟩ ∈
      Visit.visits respelling.root .root "" .document := by
    rw [Visit.mem_visits_iff]
    refine .inr ⟨.itemAt 0, { title := some "A" }, ⟨_, rfl, rfl⟩, ?_⟩
    rw [Visit.mem_visits_iff]
    exact .inl rfl
  exact ((recorded_complete respelling none).names _).2
    (.inl ⟨_, List.mem_append_left _ hvisit, rfl, rfl, rfl⟩)

/-- The first element of the list has two names. -/
theorem two_names_respelling :
    (names respelling none).contains twoDigits = true ∧
      (names respelling none).contains (Pointer.root.within [.itemAt 0]) = true ∧
      respelling.position? twoDigits = some [.itemAt 0] ∧
      respelling.position? (Pointer.root.within [.itemAt 0]) = some [.itemAt 0] ∧
      Pointer.root.within [.itemAt 0] ≠ twoDigits ∧
      (respelling.Respelled twoDigits ∨
        respelling.Respelled (Pointer.root.within [.itemAt 0])) := by
  have hsteps : twoDigits.segments = ["items", "00"] := by decide
  have hitems : respelling.root.slotOf "items" = none := rfl
  have hpair : Schema.slotOfPair "items" "00" = some (.itemAt 0) := by
    have hzero : Step.index? "00" = some 0 := by decide
    rw [Schema.slotOfPair, hzero]
    rfl
  have hposition : respelling.position? twoDigits = some [.itemAt 0] := by
    rw [position?, hsteps, Schema.slots?_cons_cons hitems, hpair]
    rfl
  have hwalk : respelling.walk? twoDigits = some { title := some "A" } := by
    rw [walk?, hsteps, Schema.walk?_cons_cons hitems, hpair]
    rfl
  have hplain : ¬ respelling.Plain twoDigits := by
    intro hplain
    have hwritten := hplain.steps _ hposition
    rw [hsteps] at hwritten
    revert hwritten
    decide
  have hnext : respelling.next? twoDigits = none := by
    rw [next?, resolve?_of_walk? hwalk]
    rfl
  have htarget : respelling.IsTarget twoDigits := by
    refine ⟨Pointer.root.slot (.itemAt 1), { reference := some "#/items/00" }, ?_, by decide⟩
    exact .child .root ⟨_, rfl, rfl⟩
  obtain ⟨htwo, hone, hne, hsame⟩ := (eq_or_respelled respelling none).2 twoDigits _ htarget
    hplain hposition hnext contains_complete_respelling
  have heither := (eq_or_respelled respelling none).1 _ _ _ htwo hone hposition hsame
  exact ⟨htwo, hone, hposition, hsame, hne, heither.resolve_left hne.symm⟩

end Survey
end SchemaTypes
