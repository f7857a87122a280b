import Mathlib.Data.List.Basic
import SchemaTypes.Proofs.Document.Closed
import SchemaTypes.Proofs.Survey.Pruning
import SchemaTypes.Proofs.Survey.Visited

/-!
# The survey of a schema

A survey looks at a document only where it looks up targets and places with names. In a document
that refers to its schema only, all these are in the schema. So another document with the same
schema is surveyed in the same way, round for round, and has the same names (`Survey.names_congr`).
How many rounds either may take depends on the size of its value, but both take enough.
-/

namespace SchemaTypes
namespace Survey

open Document

variable {d d' : Document} {survey : Survey} {t : NameTable} {p q : Pointer} {s : Schema}
  {rootName : Option String}

/-! ## Targets -/

/-- A target in the schema is dealt with in the same way. -/
theorem settle_congr (hroot : d.root = d'.root) (hq : d.walk? q = some s) (survey : Survey) :
    settle d survey q = settle d' survey q := by
  rw [settle, settle, resolve?_congr hroot hq]

/-- A survey with nothing left to deal with stays as it is. -/
theorem close_of_pending_eq_nil (h : survey.pending = []) (d : Document) (rounds : Nat) :
    close d rounds survey = survey := by
  cases rounds with
  | zero => rfl
  | succ rounds => simp [close, h]

/-- If all targets that are dealt with are in the schema, two surveys that have nothing left to deal
with after some rounds are the same. -/
theorem close_congr (hroot : d.root = d'.root) (hclosed : d.Closed) {rounds rounds' : Nat}
    {visits : List Visit} (h : Recorded d survey visits)
    (hdone : (close d rounds survey).pending = [])
    (hdone' : (close d' rounds' survey).pending = []) :
    close d rounds survey = close d' rounds' survey := by
  induction rounds generalizing rounds' survey visits with
  | zero => exact (close_of_pending_eq_nil hdone d' rounds').symm
  | succ rounds ih =>
    by_cases hempty : survey.pending = []
    · rw [close_of_pending_eq_nil hempty, close_of_pending_eq_nil hempty]
    cases rounds' with
    | zero => exact absurd hdone' hempty
    | succ rounds' =>
      have hround : survey.pending.foldl (settle d) survey =
          survey.pending.foldl (settle d') survey := by
        refine List.foldl_ext _ _ _ fun survey' q hq => ?_
        obtain ⟨t, ht⟩ := hclosed.exists_walk?_of_isTarget (h.isTarget hq)
        exact settle_congr hroot ht survey'
      have hrecorded := h.round fun _ => h.exists_of_mem_pending
      have hne : ¬ survey.pending.isEmpty = true := mt List.isEmpty_iff.1 hempty
      rw [close, if_neg hne] at hdone hdone' ⊢
      rw [close, if_neg hne, ← hround]
      exact ih hrecorded hdone (hround ▸ hdone')

/-- Two documents with one schema are surveyed in the same way. -/
theorem complete_congr (hroot : d.root = d'.root) (hclosed : d.Closed)
    (rootName : Option String) : complete d rootName = complete d' rootName := by
  have hschema : ofSchema d rootName = ofSchema d' rootName := by rw [ofSchema, ofSchema, hroot]
  have hdone := pending_complete d rootName
  have hdone' := pending_complete d' rootName
  rw [complete] at hdone hdone'
  rw [complete, complete, ← hschema] at *
  exact close_congr hroot hclosed (recorded_ofSchema d rootName) hdone hdone'

/-! ## Names -/

/-- All places that get names are in the schema. -/
theorem exists_walk?_of_contains_complete (hclosed : d.Closed)
    (h : (complete d rootName).table.contains p = true) : ∃ s, d.walk? p = some s := by
  rcases surveyed_or_isTarget_of_contains h with ⟨s, hs⟩ | ⟨htarget, -⟩
  · exact ⟨s, hclosed.walk?_of_surveyed hs⟩
  · exact hclosed.exists_walk?_of_isTarget htarget

/-- If all places with names are in the schema, the same names are given up. -/
theorem prune_congr (hroot : d.root = d'.root)
    (h : ∀ p, t.contains p = true → ∃ s, d.walk? p = some s) : prune d t = prune d' t := by
  refine List.foldl_ext _ _ _ fun t' p hp => ?_
  obtain ⟨s, hs⟩ := h p (NameTable.mem_pointers_iff.1 hp)
  rw [isRedundant, isRedundant, next?_congr hroot hs]

/-- Two documents with one schema have the same names. -/
theorem names_congr (hroot : d.root = d'.root) (hclosed : d.Closed) (rootName : Option String) :
    names d rootName = names d' rootName := by
  show prune d (complete d rootName).table = prune d' (complete d' rootName).table
  rw [← complete_congr hroot hclosed]
  exact prune_congr hroot fun p hp => exists_walk?_of_contains_complete hclosed hp

/-- All places with names are in the schema. -/
theorem exists_walk?_of_contains_names (hclosed : d.Closed)
    (h : (names d rootName).contains p = true) : ∃ s, d.walk? p = some s :=
  exists_walk?_of_contains_complete hclosed (contains_of_contains_prune h)

end Survey
end SchemaTypes
