import Mathlib.Data.List.Chain
import SchemaTypes.Proofs.NameTable.Consistent
import SchemaTypes.Proofs.Survey.Pruning

/-!
# What becomes of names that are given up

Entries are given up one at a time, and whether one is redundant depends on what was given up before
it. Three things hold nevertheless. What is left is as it was. From a place whose entry was given
up, bare references lead to one whose entry is left, and has the same base: when this entry is given
up in turn, the way goes on from there, and it comes to no place again, because all it has passed
have been given up and the place it goes on to has not (`Survey.Pruned.remove`). And no redundant
entry is left, because fewer entries make no entry redundant (`Survey.isRedundant_prune`).
-/

namespace SchemaTypes

variable {d : Document} {t t' : NameTable} {p q r : Pointer} {rootName : Option String}

namespace Document

/-- Bare references lead from `p` by way of the places `between` to `q`, and pass no place twice. -/
structure Way (d : Document) (p : Pointer) (between : List Pointer) (q : Pointer) : Prop where
  leads : (p :: between ++ [q]).IsChain fun a b => d.next? a = some b
  nodup : (p :: between ++ [q]).Nodup

/-- A bare reference to another place is a way there. -/
theorem Way.single (hnext : d.next? p = some q) (hne : q ≠ p) : d.Way p [] q where
  leads := List.isChain_pair.2 hnext
  nodup := by simpa using hne.symm

/-- A way goes on by a bare reference to a place that it has not passed. -/
theorem Way.snoc {between : List Pointer} (h : d.Way p between q) (hnext : d.next? q = some r)
    (hr : r ∉ p :: between ++ [q]) : d.Way p (between ++ [q]) r where
  leads := by
    show (p :: between ++ [q] ++ [r]).IsChain _
    refine h.leads.append (List.isChain_singleton r) ?_
    intro a ha b hb
    rw [List.getLast?_concat] at ha
    cases ha
    cases hb
    exact hnext
  nodup := by
    show (p :: between ++ [q] ++ [r]).Nodup
    exact List.nodup_append.2 ⟨h.nodup, List.nodup_singleton r, fun a ha b hb hab =>
      hr (by rwa [← List.mem_singleton.1 hb, ← hab])⟩

/-- A way leads on from where it starts. -/
theorem Way.exists_next {between : List Pointer} (h : d.Way p between q) :
    ∃ r, d.next? p = some r := by
  cases between with
  | nil => exact ⟨q, (List.isChain_cons_cons.1 h.leads).1⟩
  | cons r rest => exact ⟨r, (List.isChain_cons_cons.1 h.leads).1⟩

end Document

namespace Survey

open Document

/-! ## One entry -/

/-- The entries of `t'` are left of those of `t`, and for each that was given up another one stands
in: bare references lead there by places whose entries were given up, too, and it has the same
base. -/
structure Pruned (d : Document) (t t' : NameTable) : Prop where
  kept : ∀ p e, t'.entry? p = some e → t.entry? p = some e
  standsIn : ∀ p e, t.entry? p = some e → t'.entry? p = none → ∃ between q f,
    d.Way p between q ∧ (∀ r ∈ between, t'.entry? r = none) ∧ t'.entry? q = some f ∧
      f.base = e.base

/-- Nothing was given up of a table that is as it was. -/
theorem Pruned.refl (d : Document) (t : NameTable) : Pruned d t t where
  kept _ _ he := he
  standsIn p e he hnone := by cases hnone.symm.trans he

/-- For a redundant entry that is given up, the one it leads on to stands in. -/
theorem Pruned.remove (h : Pruned d t t') (hr : isRedundant d t' r = true) :
    Pruned d t (t'.remove r) := by
  obtain ⟨q, e, f, hnext, hne, he, hf, hbase⟩ := isRedundant_iff.1 hr
  have hself : NameTable.entry? (t'.remove r) r = none := by
    rw [NameTable.entry?_remove, if_pos rfl]
  have hq : NameTable.entry? (t'.remove r) q = some f := by
    rw [NameTable.entry?_remove, if_neg hne, hf]
  have hgone {p : Pointer} (hp : t'.entry? p = none) : NameTable.entry? (t'.remove r) p = none := by
    rw [NameTable.entry?_remove, hp, ite_self]
  constructor
  case kept =>
    intro p e he
    exact h.kept p e (NameTable.entry?_of_entry?_remove he)
  case standsIn =>
    intro p e' he' hnone
    by_cases hp : p = r
    · -- The entry itself.
      subst hp
      cases (h.kept p e he).symm.trans he'
      exact ⟨[], q, f, .single hnext hne, nofun, hq, hbase.symm⟩
    rw [NameTable.entry?_remove, if_neg hp] at hnone
    obtain ⟨between, s, g, hway, hbetween, hg, hsame⟩ := h.standsIn p e' he' hnone
    have hgiven : ∀ x ∈ between, NameTable.entry? (t'.remove r) x = none := by
      intro x hx
      exact hgone (hbetween x hx)
    by_cases hs : s = r
    · -- An entry for which the one that is given up has stood in. The way to this goes on.
      subst hs
      cases hg.symm.trans he
      have hnew : q ∉ p :: between ++ [s] := by
        intro hmem
        rcases List.mem_append.1 hmem with hmem | hmem
        · rcases List.mem_cons.1 hmem with rfl | hmem
          · cases hnone.symm.trans hf
          · cases (hbetween q hmem).symm.trans hf
        · exact hne (List.mem_singleton.1 hmem)
      refine ⟨between ++ [s], q, f, hway.snoc hnext hnew, ?_, hq, hbase.symm.trans hsame⟩
      intro x hx
      rcases List.mem_append.1 hx with hx | hx
      · exact hgiven x hx
      · exact List.mem_singleton.1 hx ▸ hself
    · -- Any other entry.
      have hg' : NameTable.entry? (t'.remove r) s = some g := by
        rw [NameTable.entry?_remove, if_neg hs, hg]
      exact ⟨between, s, g, hway, hgiven, hg', hsame⟩

/-- An entry that is redundant after another was given up was so before. -/
theorem isRedundant_of_isRedundant_remove (h : isRedundant d (t.remove r) p = true) :
    p ≠ r ∧ isRedundant d t p = true := by
  obtain ⟨q, e, f, hnext, hne, he, hf, hbase⟩ := isRedundant_iff.1 h
  refine ⟨?_, isRedundant_iff.2 ⟨q, e, f, hnext, hne, NameTable.entry?_of_entry?_remove he,
    NameTable.entry?_of_entry?_remove hf, hbase⟩⟩
  rintro rfl
  rw [NameTable.entry?_remove, if_pos rfl] at he
  cases he

/-! ## All entries -/

/-- For all entries that are given up, others stand in that are left. -/
theorem pruned_prune (d : Document) (t : NameTable) : Pruned d t (prune d t) :=
  prune_induction (P := Pruned d t) (fun _ _ hr h => h.remove hr) (.refl d t)

/-- No redundant entry is left. -/
theorem isRedundant_prune (d : Document) (t : NameTable) (p : Pointer) :
    isRedundant d (prune d t) p = false := by
  -- An entry is not redundant once it has had its turn.
  have hfold (ps : List Pointer) (t : NameTable) (hp : p ∈ ps ∨ isRedundant d t p = false) :
      isRedundant d (ps.foldl (fun t p => if isRedundant d t p then t.remove p else t) t) p =
        false := by
    induction ps generalizing t with
    | nil => exact hp.resolve_left List.not_mem_nil
    | cons r rest ih =>
      refine ih _ (or_iff_not_imp_left.2 fun hrest => ?_)
      rw [List.mem_cons, or_iff_left hrest] at hp
      refine Bool.eq_false_iff.2 fun hredundant => ?_
      beta_reduce at hredundant
      split at hredundant
      · obtain ⟨hne, hbefore⟩ := isRedundant_of_isRedundant_remove hredundant
        rw [hp.resolve_left hne] at hbefore
        cases hbefore
      · next hr =>
        rcases hp with rfl | hp
        · exact hr hredundant
        · cases hp.symm.trans hredundant
  refine hfold t.pointers t ?_
  by_cases hp : t.contains p = true
  · exact .inl (NameTable.mem_pointers_iff.2 hp)
  · refine .inr (Bool.eq_false_iff.2 fun hredundant => hp ?_)
    obtain ⟨_, e, _, -, -, he, -⟩ := isRedundant_iff.1 hredundant
    exact Option.isSome_iff_exists.2 ⟨e, he⟩

/-- A place that does not lead on keeps its name. -/
theorem contains_prune_of_next?_eq_none (hnext : d.next? p = none) (h : t.contains p = true) :
    (prune d t).contains p = true := by
  obtain ⟨e, he⟩ := Option.isSome_iff_exists.1 h
  by_contra hnot
  have hnone : NameTable.entry? (prune d t) p = none := Option.not_isSome_iff_eq_none.1 hnot
  obtain ⟨_, _, _, hway, -⟩ := (pruned_prune d t).standsIn p e he hnone
  obtain ⟨r, hr⟩ := hway.exists_next
  cases hnext.symm.trans hr

/-- The names of a document against those it had before any was given up. An entry that is left is
as it was. Where an entry was given up, there is a bare reference inside of the document, and from
there bare references lead, by other places whose entries were given up and past none of them twice,
to a place whose entry is left and has the same base. Where an entry is left, there is no bare
reference to another place whose entry is left and has the same base, so that doing it all again
gives up nothing. -/
theorem entries_names (d : Document) (rootName : Option String) :
    let before := (complete d rootName).table
    let after := names d rootName
    (∀ p e, after.entry? p = some e → before.entry? p = some e) ∧
    (∀ p e, before.entry? p = some e → after.entry? p = none →
      (∃ found target, d.resolve? p = some found ∧ found.schema.isReference = true ∧
        found.schema.internalReference? = some target) ∧
      ∃ between q f, (p :: between ++ [q]).IsChain (fun a b => d.next? a = some b) ∧
        (p :: between ++ [q]).Nodup ∧
        (∀ r ∈ between, after.entry? r = none) ∧ after.entry? q = some f ∧ f.base = e.base) ∧
    (∀ p q e f, d.next? p = some q → q ≠ p → after.entry? p = some e → after.entry? q = some f →
      e.base ≠ f.base) ∧
    prune d after = after := by
  intro before after
  have hpruned : Pruned d before after := pruned_prune d before
  have hleft : ∀ p, isRedundant d after p = false := isRedundant_prune d before
  refine ⟨hpruned.kept, fun p e he hnone => ?_, fun p q e f hnext hne he hf hbase => ?_,
    prune_eq_self fun p _ => hleft p⟩
  · obtain ⟨between, q, f, hway, hbetween, hf, hbase⟩ := hpruned.standsIn p e he hnone
    obtain ⟨target, hnext⟩ := hway.exists_next
    obtain ⟨found, hr, hbare, htarget⟩ := next?_eq_some_iff.1 hnext
    exact ⟨⟨found, target, hr, hbare, htarget⟩, between, q, f, hway.leads, hway.nodup, hbetween,
      hf, hbase⟩
  · have hredundant := isRedundant_iff.2 ⟨q, e, f, hnext, hne, he, hf, hbase⟩
    cases (hleft p).symm.trans hredundant

end Survey
end SchemaTypes
