import SchemaTypes.Proofs.NameTable.Consistent

/-!
# Runs of a name table

Places ask for names and give them up again, in any order and any number of times. `Run` follows
such requests from an empty table on, and remembers every name that was an answer, and which of them
a place got that had no name. A place gets the first variant of its base that was no answer before
in the whole run, whatever became of the places that got the others
(`Run.register_eq_variant_of_isFirstFree`).
-/

namespace SchemaTypes
namespace NameTable

/-- What can be asked of a table. -/
inductive Request where
  | register (p : Pointer) (base : String)
  | remove (p : Pointer)
  deriving DecidableEq

/-- A run: the table that it has come to, all names that were answers, and those that places without
an entry got; the last first. -/
structure Run where
  table : NameTable := {}
  answered : List String := []
  granted : List (Pointer × String) := []

namespace Run

/-- The run after one more request. -/
def step (run : Run) : Request → Run
  | .register p base =>
    let (name, table) := run.table.register p base
    ⟨table, name :: run.answered,
      if run.table.contains p then run.granted else (p, name) :: run.granted⟩
  | .remove p => { run with table := run.table.remove p }

/-- The run of some requests, one after the other, from an empty table on. -/
def ofRequests (requests : List Request) : Run :=
  requests.foldl step {}

variable {run : Run} {requests more : List Request} {p : Pointer} {e : NameEntry}

/-! ## One request -/

/-- What holds of a run. -/
structure Sound (run : Run) : Prop where
  consistent : run.table.Consistent
  /-- The names that were given are those that were answers. -/
  answered : ∀ name, name ∈ run.answered ↔ name ∈ run.table.given
  /-- Names were given to places without an entry only. -/
  granted : run.granted.map (·.2) = run.table.given

/-- A run stays sound when a request is answered. -/
theorem Sound.step (h : run.Sound) (request : Request) : (run.step request).Sound := by
  cases request with
  | remove p => exact ⟨h.consistent.remove p, h.answered, h.granted⟩
  | register p base =>
    refine ⟨h.consistent.register p base, ?_, ?_⟩
    · intro name
      cases hp : run.table.entry? p with
      | some e =>
        -- The answer is the name of an entry, so it was given before.
        simp only [Run.step, register_named hp, List.mem_cons, h.answered name]
        constructor
        · rintro (rfl | hname)
          · exact h.consistent.given p e hp
          · exact hname
        · exact .inr
      | none =>
        simp only [Run.step, register_unnamed hp, List.mem_cons, h.answered name]
    · cases hp : run.table.entry? p with
      | some e => simp only [Run.step, register_named hp, contains, hp, Option.isSome_some,
          if_true, h.granted]
      | none => simp only [Run.step, register_unnamed hp, contains, hp, Option.isSome_none,
          Bool.false_eq_true, if_false, List.map_cons, h.granted]

/-- An entry stays as it is until it is removed. -/
theorem entry?_step {request : Request} (he : run.table.entry? p = some e)
    (hne : request ≠ .remove p) : entry? (run.step request).table p = some e := by
  cases request with
  | remove q =>
    have hpq : p ≠ q := by
      rintro rfl
      exact hne rfl
    rw [step, entry?_remove, if_neg hpq, he]
  | register q base =>
    by_cases hpq : p = q
    · subst hpq
      simpa only [step, register_named he] using he
    · exact (entry?_register_of_ne run.table base hpq).trans he

/-! ## All requests -/

/-- Every run is sound. -/
theorem sound_ofRequests (requests : List Request) : (ofRequests requests).Sound := by
  have hfold (requests : List Request) (run : Run) (h : run.Sound) :
      (requests.foldl step run).Sound := by
    induction requests generalizing run with
    | nil => exact h
    | cons request rest ih => exact ih (run.step request) (h.step request)
  exact hfold requests {} ⟨consistent_empty, fun _ => Iff.rfl, rfl⟩

/-- An entry stays as it is as long as it is not removed. -/
theorem entry?_ofRequests_append (he : (ofRequests requests).table.entry? p = some e)
    (hmore : .remove p ∉ more) : (ofRequests (requests ++ more)).table.entry? p = some e := by
  rw [ofRequests, List.foldl_append]
  change (more.foldl step (ofRequests requests)).table.entry? p = some e
  generalize ofRequests requests = run at he
  induction more generalizing run with
  | nil => exact he
  | cons request rest ih =>
    have hne : request ≠ .remove p := by
      rintro rfl
      exact hmore (.head _)
    exact ih (fun hmem => hmore (.tail _ hmem)) (run.step request) (entry?_step he hne)

/-- After any requests, a place without an entry gets the first variant of its base that was no
answer before, and its entry keeps the base. The search for that variant stops by itself: it finds
the same however many more tries it is allowed. A place with an entry is answered its name and
changes nothing, and removing a place deletes its entry and no other. So no two places without an
entry got the same name in the whole run, and an entry stays as it is until it is removed. -/
theorem register_eq_variant_of_isFirstFree (requests : List Request) :
    let run := ofRequests requests
    (∀ p base, run.table.entry? p = none → ∃ n,
      IsFirstFree run.answered base n ∧
      (∀ tries ≥ run.table.given.length,
        firstFree run.table.given base tries (run.table.counter base) = n) ∧
      (run.table.register p base).1 = variant base n ∧
      ∀ q, entry? (run.table.register p base).2 q =
        if q = p then some ⟨variant base n, base⟩ else run.table.entry? q) ∧
    (∀ p base e, run.table.entry? p = some e → run.table.register p base = (e.name, run.table)) ∧
    (∀ p q, entry? (run.table.remove p) q = if q = p then none else run.table.entry? q) ∧
    (run.granted.map (·.2)).Nodup ∧
    (∀ p e more, run.table.entry? p = some e → .remove p ∉ more →
      (ofRequests (requests ++ more)).table.entry? p = some e) := by
  intro run
  have hsound : run.Sound := sound_ofRequests requests
  refine ⟨fun p base hp => ⟨run.table.nextVariant base, ?_, ?_, ?_, ?_⟩,
    fun p base e he => register_named he base, entry?_remove run.table, ?_,
    fun p e more => entry?_ofRequests_append⟩
  · obtain ⟨hfree, hpassed⟩ := hsound.consistent.isFirstFree_nextVariant base
    exact ⟨fun hmem => hfree ((hsound.answered _).1 hmem),
      fun i hi => (hsound.answered _).2 (hpassed i hi)⟩
  · intro tries htries
    obtain ⟨more, rfl⟩ := Nat.exists_eq_add_of_le htries
    exact firstFree_add more (run.table.variant_nextVariant_notMem base)
  · rw [register_unnamed hp]
  · intro q
    by_cases hq : q = p
    · subst hq
      rw [if_pos rfl, entry?_register_self hp]
    · rw [if_neg hq, entry?_register_of_ne run.table base hq]
  · rw [hsound.granted]
    exact hsound.consistent.nodup

/-- A name that looks like a variant of another is passed over, and a name that was given up is not
given again. -/
example :
    let a : Pointer := ⟨"#/a", by decide⟩
    let b : Pointer := ⟨"#/b", by decide⟩
    let c : Pointer := ⟨"#/c", by decide⟩
    (ofRequests [.register a "A_1", .register b "A", .remove b, .register b "A",
      .register c "A"]).answered = ["A_3", "A_2", "A", "A_1"] := by
  cbv

end Run
end NameTable
end SchemaTypes
