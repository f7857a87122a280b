import SchemaTypes.Proofs.Module.References

/-!
# Bare references without an end

If bare references lead on without an end from the target of a node, there is no module
(`Module.generate_eq_cycle`): the target leads to a place with a name nevertheless, and what is
declared there goes around until it comes to a place it has passed. It does not matter which places
have lost their names, because one is always left.
-/

namespace SchemaTypes

variable {d : Document} {t : NameTable} {b : Builder} {p q : Pointer} {name : String} {s : Schema}
  {found : Located} {steps : Nat}

/-! ## Endless chains -/

namespace Document

/-- The place some bare references further on. -/
def hop? (d : Document) : Nat → Pointer → Option Pointer
  | 0, p => some p
  | n + 1, p => (d.next? p).bind (d.hop? n)

/-- Bare references lead on from a place without an end. -/
def Endless (d : Document) (p : Pointer) : Prop :=
  ∀ n, (d.hop? n p).isSome = true

/-- From a place without an end it goes on to another. -/
theorem Endless.exists_next (h : d.Endless p) : ∃ q, d.next? p = some q ∧ d.Endless q := by
  cases hnext : d.next? p with
  | none =>
    have hone := h 1
    rw [hop?, hnext] at hone
    cases hone
  | some q =>
    refine ⟨q, rfl, fun n => ?_⟩
    have hmore := h (n + 1)
    rwa [hop?, hnext] at hmore

/-- Hops are made some at a time. -/
theorem hop?_add (d : Document) (m n : Nat) (p : Pointer) :
    d.hop? (m + n) p = (d.hop? m p).bind (d.hop? n) := by
  induction m generalizing p with
  | zero => rw [Nat.zero_add]; rfl
  | succ m ih =>
    rw [Nat.add_right_comm, hop?, hop?, Option.bind_assoc]
    exact congrArg _ (funext ih)

/-- Who hops on for a while hops on for a shorter while. -/
theorem isSome_hop?_of_le {m n : Nat} (h : (d.hop? n p).isSome = true) (hle : m ≤ n) :
    (d.hop? m p).isSome = true := by
  obtain ⟨k, rfl⟩ := Nat.exists_eq_add_of_le hle
  rw [hop?_add] at h
  exact Option.isSome_of_isSome_bind h

/-- Bare references that run into a loop have no end. -/
theorem endless_of_loop {m n : Nat} (hreach : d.hop? m p = some q)
    (hloop : d.hop? (n + 1) q = some q) : d.Endless p := by
  have hround (k : Nat) : (d.hop? k q).isSome = true := by
    induction k using Nat.strong_induction_on with
    | _ k ih =>
      by_cases hle : k ≤ n + 1
      · exact isSome_hop?_of_le (by rw [hloop]; rfl) hle
      · obtain ⟨j, rfl⟩ := Nat.exists_eq_add_of_lt (Nat.lt_of_not_le hle)
        rw [Nat.add_assoc, hop?_add, hloop]
        exact ih (j + 1) (by omega)
  intro k
  refine isSome_hop?_of_le (n := m + k) ?_ (Nat.le_add_left k m)
  rw [hop?_add, hreach]
  exact hround k

/-- The name that a place without an end leads to is that of a place without an end. -/
theorem LeadsTo.exists_endless (h : d.LeadsTo t p name) (hend : d.Endless p) :
    ∃ q, t.lookup? q = some name ∧ d.Endless q := by
  induction h with
  | here hname => exact ⟨_, hname, hend⟩
  | next _ hnext _ ih =>
    obtain ⟨q, hq, hrest⟩ := hend.exists_next
    cases hnext.symm.trans hq
    exact ih hrest

end Document

namespace Builder

/-- Bare references without an end are not followed. -/
theorem follow_ne_ok_of_endless {passed : List Pointer} {cursor : Pointer}
    (h : d.Endless cursor) : follow d steps passed cursor ≠ .ok () := by
  induction steps generalizing passed cursor with
  | zero =>
    intro hok
    cases hok
  | succ steps ih =>
    obtain ⟨q, hq, hrest⟩ := h.exists_next
    rw [follow]
    split
    · intro hok
      cases hok
    · rw [hq]
      exact ih hrest

/-- Where bare references lead on without an end, nothing can be declared. -/
theorem declared_ne_ok_of_endless {type : TypeExpr} (hr : b.document.resolve? p = some found)
    (h : b.document.Endless p) : b.declared found.schema p ≠ .ok type := by
  intro hok
  obtain ⟨q, hnext, hrest⟩ := h.exists_next
  obtain ⟨_, hr', -, hq⟩ := Document.next?_eq_some_iff.1 hnext
  cases hr.symm.trans hr'
  obtain ⟨ref, href, hq⟩ := Schema.internalReference?_eq_some_iff.1 hq
  obtain ⟨n, hbuild⟩ := reference_of_build (unnamed_of_byName rfl) href hok
  exact follow_ne_ok_of_endless hrest (follow_of_reference hbuild hq)

end Builder

namespace Module

open Builder Document

/-- If bare references lead on without an end from the target of a node, there is no module. -/
theorem generate_eq_cycle (options : ModuleOptions) (hs : d.Surveyed p s)
    (hq : s.internalReference? = some q) (hend : d.Endless q) :
    ∃ chain, generate d options = .error (.cycle chain) := by
  refine (ends_generate d options).resolve_left ?_
  rintro ⟨m, hm⟩
  obtain ⟨_, hnext, -⟩ := hend.exists_next
  obtain ⟨_, hr, -⟩ := Document.next?_eq_some_iff.1 hnext
  obtain ⟨name, hlead⟩ := complete_names d options.rootName q _ ⟨p, s, hs, hq⟩ hr
  obtain ⟨r, hname, hend⟩ := hlead.exists_endless hend
  obtain ⟨_, hnext, -⟩ := hend.exists_next
  obtain ⟨found, hr, -⟩ := Document.next?_eq_some_iff.1 hnext
  obtain ⟨type, htype⟩ := exists_type_of_generate hm (NameTable.mem_names_of_lookup? hname) hr
  exact declared_ne_ok_of_endless hr hend htype

/-- A document with two definitions that refer to each other. -/
def circular : Document where
  json := .object [("definitions", .object [("A", .object [("$ref", .string "#/definitions/B")]),
    ("B", .object [("$ref", .string "#/definitions/A")])])]
  root := { definitions := some [("A", { reference := some "#/definitions/B" }),
    ("B", { reference := some "#/definitions/A" })] }
  distinct := by simp [Json.KeysDistinct, Json.MembersDistinct]
  reads := rfl

/-- Either definition leads on to the other. -/
theorem endless_circular : circular.Endless (definitionAt "B") := by
  have hA : circular.next? (definitionAt "A") = some (definitionAt "B") :=
    (next?_definition rfl).trans (by cbv)
  have hB : circular.next? (definitionAt "B") = some (definitionAt "A") :=
    (next?_definition rfl).trans (by cbv)
  have hloop : circular.hop? (1 + 1) (definitionAt "B") = some (definitionAt "B") := by
    simp only [hop?, hA, hB, Option.bind_some]
  exact endless_of_loop (m := 0) rfl hloop

/-- There is no module of that document. -/
theorem generate_circular :
    circular.Surveyed (definitionAt "A") { reference := some "#/definitions/B" } ∧
      circular.Endless (definitionAt "B") ∧
      ∃ chain, generate circular {} = .error (.cycle chain) := by
  have hs : circular.Surveyed (definitionAt "A") { reference := some "#/definitions/B" } :=
    Surveyed.root.child (show circular.root.Holds (.definition "A") _ from ⟨_, rfl, .head _⟩)
  exact ⟨hs, endless_circular, generate_eq_cycle {} hs (by cbv) endless_circular⟩

end Module
end SchemaTypes
