import SchemaTypes.NameTable
import SchemaTypes.Proofs.Json.Part

/-!
# The entries of a name table

What a table says about a place after another place got a name (`NameTable.entry?_register_of_ne`,
`NameTable.contains_register`) or lost it (`NameTable.entry?_remove`). None of this depends on the
order of the entries.
-/

namespace SchemaTypes
namespace NameTable

variable {t : NameTable} {p q : Pointer} {name : String}

/-- The first entry is found at its place, and elsewhere what the others say. -/
theorem lookup_cons_eq (p q : Pointer) (e : NameEntry) (rest : List (Pointer × NameEntry)) :
    ((p, e) :: rest).lookup q = if q = p then some e else rest.lookup q := by
  rw [List.lookup_cons]
  by_cases h : q = p
  · simp [h]
  · simp [beq_false_of_ne h, h]

/-- Among entries with one more, the new one is found at its place, and elsewhere what was found
before. -/
theorem lookup_insertEntry (p q : Pointer) (e : NameEntry) (entries : List (Pointer × NameEntry)) :
    (insertEntry p e entries).lookup q = if q = p then some e else entries.lookup q := by
  induction entries with
  | nil => rw [insertEntry, lookup_cons_eq]
  | cons entry rest ih =>
    obtain ⟨r, f⟩ := entry
    rw [insertEntry]
    split
    · rw [lookup_cons_eq]
    · split
      · next heq =>
        subst heq
        by_cases h : q = p <;> simp [lookup_cons_eq, h]
      · next hne =>
        rw [lookup_cons_eq, lookup_cons_eq, ih]
        by_cases h : q = r
        · subst h
          simp [Ne.symm hne]
        · simp [h]

/-- A place has a name if and only if it is found with one. -/
theorem contains_iff : t.contains p = true ↔ ∃ name, t.lookup? p = some name := by
  rw [contains, ← Option.isSome_map (f := (·.name)), Option.isSome_iff_exists, lookup?]

/-- The other places keep their entries when a place asks for a name. -/
theorem entry?_register_of_ne (t : NameTable) (base : String) (h : q ≠ p) :
    entry? (t.register p base).2 q = t.entry? q := by
  rw [register]
  split
  · rfl
  · exact (lookup_insertEntry p q _ t.entries).trans (if_neg h)

/-- A place that asks for a name gets one. -/
theorem contains_register_self (t : NameTable) (p : Pointer) (base : String) :
    (t.register p base).2.contains p = true := by
  rw [register]
  split
  · next e he => simp [contains, he]
  · simp [contains, entry?, lookup_insertEntry]

/-- After a place asked for a name, it has one, and so have the places that had one before. -/
theorem contains_register (t : NameTable) (p q : Pointer) (base : String) :
    (t.register p base).2.contains q = true ↔ q = p ∨ t.contains q = true := by
  by_cases h : q = p
  · subst h
    simp [contains_register_self]
  · rw [contains, entry?_register_of_ne t base h, contains]
    simp [h]

/-- A place that is removed has no entry any more, and the others keep theirs. -/
theorem entry?_remove (t : NameTable) (p q : Pointer) :
    entry? (t.remove p) q = if q = p then none else t.entry? q := by
  obtain ⟨entries, counters, given⟩ := t
  simp only [remove, entry?]
  induction entries with
  | nil => simp
  | cons entry rest ih =>
    obtain ⟨r, f⟩ := entry
    rw [List.filter_cons]
    by_cases hr : r = p
    · subst hr
      rw [if_neg (by simp), ih, lookup_cons_eq]
      by_cases h : q = r <;> simp [h]
    · rw [if_pos (by simp [hr]), lookup_cons_eq, lookup_cons_eq, ih]
      by_cases h : q = r
      · subst h
        simp [hr]
      · simp [h]

/-- A place that is removed has no name any more. -/
@[simp] theorem lookup?_remove_self (t : NameTable) (p : Pointer) :
    (t.remove p).lookup? p = none := by
  simp [lookup?, entry?_remove]

/-- The other places keep their names when a place is removed. -/
theorem lookup?_remove_of_ne (t : NameTable) (h : q ≠ p) :
    (t.remove p).lookup? q = t.lookup? q := by
  simp [lookup?, entry?_remove, h]

/-- A place that has a name after another was removed had it before. -/
theorem contains_of_contains_remove (h : (t.remove p).contains q = true) : t.contains q = true := by
  rw [contains, entry?_remove] at h
  split at h
  · cases h
  · exact h

/-- A place that is found with a name is listed with it. -/
theorem mem_names_of_lookup? (h : t.lookup? p = some name) : (p, name) ∈ t.names := by
  obtain ⟨e, he, rfl⟩ := Option.map_eq_some_iff.1 h
  exact List.mem_map.2 ⟨(p, e), mem_of_lookup he, rfl⟩

/-- The places that are listed are those with names. -/
theorem mem_pointers_iff : p ∈ t.pointers ↔ t.contains p = true := by
  rw [contains, entry?, List.lookup_isSome_iff, pointers, List.mem_map]
  constructor
  · rintro ⟨a, ha, rfl⟩
    exact ⟨a, ha, beq_self_eq_true _⟩
  · rintro ⟨a, ha, heq⟩
    exact ⟨a, ha, (beq_iff_eq.1 heq).symm⟩

/-- A place that is listed with a name has one. -/
theorem contains_of_mem_names (h : (p, name) ∈ t.names) : t.contains p = true := by
  obtain ⟨⟨_, e⟩, he, heq⟩ := List.mem_map.1 h
  cases heq
  exact mem_pointers_iff.1 (List.mem_map_of_mem he)

end NameTable
end SchemaTypes
