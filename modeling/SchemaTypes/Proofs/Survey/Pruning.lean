import SchemaTypes.Proofs.Survey.Closure

/-!
# The names that remain

A name is given up only where a bare reference is found that leads on to another place with a name.
So whoever follows bare references from a place that had a name still comes to a name
(`exists_leadsTo_remove`), and every target of a node at which anything is found leads to one of the
names of the document (`exists_leadsTo_names`).
-/

namespace SchemaTypes

open Document

variable {d : Document} {t : NameTable} {p q r : Pointer} {name : String} {found : Located}

/-- The place `p` leads to the name `name`: it is the first name of a place on the way along bare
references from `p` on. -/
inductive Document.LeadsTo (d : Document) (t : NameTable) : Pointer → String → Prop where
  | here {p : Pointer} {name : String} : t.lookup? p = some name → LeadsTo d t p name
  | next {p q : Pointer} {name : String} :
    t.lookup? p = none → d.next? p = some q → LeadsTo d t q name → LeadsTo d t p name

/-- A place leads to no more than one name. -/
theorem Document.LeadsTo.unique {name' : String} (h : d.LeadsTo t p name)
    (h' : d.LeadsTo t p name') : name = name' := by
  induction h with
  | here hname =>
    cases h' with
    | here hname' => exact Option.some.inj (hname.symm.trans hname')
    | next hnone => cases hnone.symm.trans hname
  | next hnone hnext _ ih =>
    cases h' with
    | here hname' => cases hnone.symm.trans hname'
    | next _ hnext' hrest =>
      cases hnext.symm.trans hnext'
      exact ih hrest

/-- A place with a name leads to it. -/
theorem Document.exists_leadsTo_of_contains (h : t.contains p = true) :
    ∃ name, d.LeadsTo t p name := by
  obtain ⟨name, hname⟩ := NameTable.contains_iff.1 h
  exact ⟨name, .here hname⟩

namespace Survey

/-- An entry is redundant if a bare reference leads on from its place to another one whose entry has
the same base. -/
theorem isRedundant_iff :
    isRedundant d t p = true ↔ ∃ q e f, d.next? p = some q ∧ q ≠ p ∧ t.entry? p = some e ∧
      t.entry? q = some f ∧ e.base = f.base := by
  rw [isRedundant]
  cases hnext : d.next? p with
  | none => simp
  | some q =>
    cases hp : t.entry? p <;> cases hq : t.entry? q <;>
      simp [NameTable.contains, NameTable.base?, hp, hq]

/-- A place with a redundant entry leads on to another place with a name. -/
theorem exists_next_of_isRedundant (h : isRedundant d t p = true) :
    ∃ q, d.next? p = some q ∧ q ≠ p ∧ t.contains q = true := by
  obtain ⟨q, e, f, hnext, hne, -, hq, -⟩ := isRedundant_iff.1 h
  exact ⟨q, hnext, hne, Option.isSome_iff_exists.2 ⟨f, hq⟩⟩

/-- Who comes to a name still does when a redundant entry is removed: where the way ended at the
entry, it goes one step further. -/
theorem exists_leadsTo_remove (h : d.LeadsTo t q name) (hp : isRedundant d t p = true) :
    ∃ name', d.LeadsTo (t.remove p) q name' := by
  induction h with
  | @here q name hname =>
    by_cases hqp : q = p
    · subst hqp
      obtain ⟨r, hnext, hne, hr⟩ := exists_next_of_isRedundant hp
      obtain ⟨name', hname'⟩ := NameTable.contains_iff.1 hr
      rw [← NameTable.lookup?_remove_of_ne t hne] at hname'
      exact ⟨name', .next (NameTable.lookup?_remove_self t q) hnext (.here hname')⟩
    · rw [← NameTable.lookup?_remove_of_ne t hqp] at hname
      exact ⟨name, .here hname⟩
  | @next q r name hnone hnext _ ih =>
    obtain ⟨name', hrest⟩ := ih
    refine ⟨name', .next ?_ hnext hrest⟩
    by_cases hqp : q = p
    · rw [hqp, NameTable.lookup?_remove_self]
    · rw [NameTable.lookup?_remove_of_ne t hqp, hnone]

/-- What holds of a table and is kept when a redundant entry is removed holds of the pruned
table. -/
theorem prune_induction {P : NameTable → Prop}
    (hremove : ∀ t p, isRedundant d t p = true → P t → P (t.remove p)) (h : P t) :
    P (prune d t) := by
  have hfold (ps : List Pointer) (t : NameTable) (ht : P t) :
      P (ps.foldl (fun t p => if isRedundant d t p then t.remove p else t) t) := by
    induction ps generalizing t with
    | nil => exact ht
    | cons p rest ih =>
      rw [List.foldl_cons]
      split
      · next hp => exact ih _ (hremove t p hp ht)
      · exact ih _ ht
  exact hfold t.pointers t h

/-- Where no entry is redundant, none is given up. -/
theorem prune_eq_self (h : ∀ p ∈ t.pointers, isRedundant d t p = false) : prune d t = t := by
  rw [prune]
  exact List.foldlRecOn (motive := fun t' => t' = t) t.pointers _ rfl fun _ ht p hp => by
    rw [ht, h p hp, if_neg Bool.false_ne_true]

/-- Who comes to a name still does after pruning. -/
theorem exists_leadsTo_prune (h : ∃ name, d.LeadsTo t q name) :
    ∃ name, d.LeadsTo (prune d t) q name :=
  prune_induction (P := fun t => ∃ name, d.LeadsTo t q name)
    (fun _ _ hp ⟨_, hlead⟩ => exists_leadsTo_remove hlead hp) h

/-- A place that has a name after pruning had it before. -/
theorem contains_of_contains_prune (h : (prune d t).contains q = true) : t.contains q = true :=
  prune_induction (P := fun t' => t'.contains q = true → t.contains q = true)
    (fun _ _ _ hkept hq => hkept (NameTable.contains_of_contains_remove hq)) id h

/-! ## The names of a document -/

/-- The survey of the schema gives all names, if it names every target where anything is found and
no entry is redundant. -/
theorem names_eq_of_forall {rootName : Option String} {refs : List String}
    (hschema : ofSchema d rootName = ⟨t, refs, []⟩)
    (hnamed : ∀ ref ∈ refs, ∀ q, Pointer.ofRef? ref = some q →
      t.contains q = true ∨ d.resolve? q = none)
    (hleft : ∀ p ∈ t.pointers, isRedundant d t p = false) : names d rootName = t := by
  have hclose : (close d (roundLimit d) ⟨t, refs, []⟩).table = t := table_close_eq hnamed _
  rw [names, hschema, hclose, prune_eq_self hleft]

/-- What is found at a place with a name is a node. -/
theorem surveyed_of_contains_names {rootName : Option String}
    (h : (names d rootName).contains p = true) (hr : d.resolve? p = some found) :
    ∃ q, d.Surveyed q found.schema :=
  ((sound_complete d rootName).named p found (contains_of_contains_prune h) hr).1

/-- Every target of a node at which anything is found leads to a name. -/
theorem exists_leadsTo_names (rootName : Option String) (h : d.IsTarget q)
    (hr : d.resolve? q = some found) : ∃ name, d.LeadsTo (names d rootName) q name :=
  exists_leadsTo_prune (exists_leadsTo_of_contains (contains_complete rootName h hr))

end Survey
end SchemaTypes
