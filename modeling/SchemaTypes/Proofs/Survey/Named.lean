import SchemaTypes.Proofs.Document.Addresses
import SchemaTypes.Proofs.NameTable.Consistent
import SchemaTypes.Proofs.Survey.Pruning
import SchemaTypes.Proofs.Survey.Visited

/-!
# The places that get names

The names of a document are made by naming places and removing some of them, so they are consistent
(`Survey.consistent_names`). Only nodes get names, and targets at which something is found
(`Survey.isPlace_of_contains_names`). So at a place with a name nothing is found if and only if it
is inside of a list (`Survey.resolve?_eq_none_iff_of_contains_names`).
-/

namespace SchemaTypes

variable {d : Document} {survey : Survey} {p q : Pointer} {s : Schema} {rootName : Option String}

namespace Document

/-- A place of a document: that of a node, or a pointer at which something is found. -/
def IsPlace (d : Document) (p : Pointer) : Prop :=
  (∃ s, d.Surveyed p s) ∨ ∃ found, d.resolve? p = some found

/-- Nothing is found at a place of a document if and only if it is inside of a list. -/
theorem IsPlace.resolve?_eq_none_iff (h : d.IsPlace p) : d.resolve? p = none ↔ d.InsideList p := by
  rcases h with ⟨s, hs⟩ | ⟨found, hr⟩
  · exact hs.resolve?_eq_none_iff
  · constructor
    · intro hnone
      cases hnone.symm.trans hr
    · exact InsideList.resolve?_eq_none

end Document

namespace Survey

open Document

/-! ## From target to target -/

/-- What is kept whenever a target is dealt with is kept in any number of rounds. -/
theorem close_induction {P : Survey → Prop}
    (hsettle : ∀ survey q, P survey → P (settle d survey q)) (rounds : Nat) (hP : P survey) :
    P (close d rounds survey) := by
  refine closeVisits_induction (P := fun survey _ => P survey) (fun survey _ hP => ?_)
    rounds survey [] hP
  exact List.foldlRecOn survey.pending (settle d) hP fun survey' hP q _ => hsettle survey' q hP

/-! ## Consistency -/

/-- A table stays consistent when a node is visited with all below it. -/
theorem consistent_visitAll (h : survey.table.Consistent) (s : Schema) (p : Pointer)
    (suggested : String) (role : Role) : (survey.visitAll s p suggested role).table.Consistent := by
  have hfold (visits : List Visit) (survey : Survey) (h : survey.table.Consistent) :
      (visits.foldl record survey).table.Consistent := by
    induction visits generalizing survey with
    | nil => exact h
    | cons v rest ih =>
      refine ih (survey.record v) ?_
      simp only [record]
      split
      · split
        · exact h.register _ _
        · exact h
      · exact h
  exact hfold _ survey h

/-- A table stays consistent when a target is dealt with. -/
theorem consistent_settle (h : survey.table.Consistent) (q : Pointer) :
    (settle d survey q).table.Consistent := by
  simp only [settle]
  split
  · exact h
  · split
    · exact h
    · split
      · exact h.register _ _
      · exact consistent_visitAll (h.register _ _) _ _ _ _

/-- The names of a document are consistent. -/
theorem consistent_names (d : Document) (rootName : Option String) :
    (names d rootName).Consistent := by
  have hcomplete : (complete d rootName).table.Consistent := by
    refine close_induction (P := fun survey => survey.table.Consistent) ?_ (roundLimit d) ?_
    · intro survey q h
      exact consistent_settle h q
    · exact consistent_visitAll NameTable.consistent_empty _ _ _ _
  exact prune_induction (fun t p _ h => h.remove p) hcomplete

/-! ## Places -/

/-- Only places of the document have names. -/
theorem isPlace_of_contains_names (h : (names d rootName).contains p = true) : d.IsPlace p :=
  (surveyed_or_isTarget_of_contains (contains_of_contains_prune h)).imp_right (·.2)

/-- At a place with a name nothing is found if and only if it is inside of a list. -/
theorem resolve?_eq_none_iff_of_contains_names (h : (names d rootName).contains p = true) :
    d.resolve? p = none ↔ d.InsideList p :=
  (isPlace_of_contains_names h).resolve?_eq_none_iff

end Survey
end SchemaTypes
