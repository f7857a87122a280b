import SchemaTypes.Proofs.NameTable.Entries
import SchemaTypes.Proofs.NameTable.Fresh

/-!
# Consistent name tables

A name table starts empty, and all that is ever done to it is to name a place and to remove one. So
every table is `NameTable.Consistent`: its places ascend, no two of them have the same name, every
name of a place was given, and so were all variants of a base that its counter has passed. The last
is why the search for a name may start at the counter: it finds the first of all variants that was
not given (`Consistent.isFirstFree_nextVariant`).
-/

namespace SchemaTypes

/-! ## The order of pointers -/

namespace Pointer

variable {p q r : Pointer}

/-- A pointer in front of another is not the same. -/
theorem ne_of_lt (h : p < q) : p ≠ q := by
  rintro rfl
  exact String.lt_irrefl p.text h

/-- What stands in front of a pointer stands in front of all behind it. -/
theorem lt_trans (hpq : p < q) (hqr : q < r) : p < r :=
  String.lt_trans (a := p.text) hpq hqr

/-- Of two different pointers one stands in front of the other. -/
theorem lt_or_gt_of_ne (h : p ≠ q) : p < q ∨ q < p := by
  have htext : p.text ≠ q.text := by
    intro heq
    cases p
    cases q
    cases heq
    exact h rfl
  by_cases hlt : p.text < q.text
  · exact .inl hlt
  · have hle : q.text ≤ p.text := String.not_lt.1 hlt
    exact .inr (show q.text < p.text from Std.lt_of_le_of_ne hle htext.symm)

end Pointer

namespace NameTable

variable {t : NameTable} {p q : Pointer} {base : String}

/-! ## One name -/

/-- The variant `n` of a base is the first that was not given. -/
def IsFirstFree (given : List String) (base : String) (n : Nat) : Prop :=
  variant base n ∉ given ∧ ∀ i < n, variant base i ∈ given

/-- The search passes only variants that were given. -/
theorem mem_of_lt_firstFree {given : List String} {steps n i : Nat} (hle : n ≤ i)
    (hlt : i < firstFree given base steps n) : variant base i ∈ given := by
  induction steps generalizing n with
  | zero =>
    rw [firstFree] at hlt
    omega
  | succ steps ih =>
    rw [firstFree] at hlt
    split at hlt
    · next hmem =>
      by_cases hi : i = n
      · rw [hi]
        exact List.contains_iff_mem.1 hmem
      · exact ih (by omega) hlt
    · omega

/-- The search stops where it does however many more tries it has. -/
theorem firstFree_add {given : List String} {steps n : Nat} (more : Nat)
    (h : variant base (firstFree given base steps n) ∉ given) :
    firstFree given base (steps + more) n = firstFree given base steps n := by
  induction steps generalizing n with
  | zero =>
    rw [firstFree] at h
    cases more with
    | zero => rfl
    | succ more => simp [firstFree, h]
  | succ steps ih =>
    rw [Nat.add_right_comm, firstFree, firstFree]
    rw [firstFree] at h
    split
    · next hmem =>
      rw [if_pos hmem] at h
      exact ih h
    · rfl

/-- Setting a counter changes that of its base only. -/
theorem lookup_setCounter (base b : String) (n : Nat) (counters : List (String × Nat)) :
    (setCounter base n counters).lookup b = if b = base then some n else counters.lookup b := by
  induction counters with
  | nil =>
    by_cases h : b = base
    · simp [setCounter, h]
    · simp [setCounter, h]
  | cons entry rest ih =>
    obtain ⟨c, m⟩ := entry
    rw [setCounter]
    split
    · next heq =>
      subst heq
      by_cases h : b = c
      · simp [h]
      · simp [List.lookup_cons, h, beq_false_of_ne h]
    · next hne =>
      rw [List.lookup_cons, List.lookup_cons, ih]
      by_cases h : b = c
      · subst h
        simp [hne]
      · simp [beq_false_of_ne h]

/-! ## Registering a place -/

/-- A place that has an entry gets its name again, and nothing changes. -/
theorem register_named {e : NameEntry} (h : t.entry? p = some e) (base : String) :
    t.register p base = (e.name, t) := by
  rw [register, h]

/-- A place without an entry gets the next variant of what it asks for. -/
theorem register_unnamed (h : t.entry? p = none) (base : String) :
    t.register p base = (variant base (t.nextVariant base),
      { entries := insertEntry p ⟨variant base (t.nextVariant base), base⟩ t.entries
        counters := setCounter base (t.nextVariant base + 1) t.counters
        given := variant base (t.nextVariant base) :: t.given }) := by
  rw [register, h]

/-- What a place without an entry asked for, and what it got, is kept in its entry. -/
theorem entry?_register_self (h : t.entry? p = none) (base : String) :
    entry? (t.register p base).2 p = some ⟨variant base (t.nextVariant base), base⟩ := by
  rw [register_unnamed h, entry?, lookup_insertEntry, if_pos rfl]

/-- Entries with one more are that one and those before. -/
theorem mem_insertEntry {e : NameEntry} {a : Pointer × NameEntry}
    {entries : List (Pointer × NameEntry)} (ha : a ∈ insertEntry p e entries) :
    a = (p, e) ∨ a ∈ entries := by
  induction entries with
  | nil => exact .inl (List.mem_singleton.1 ha)
  | cons entry rest ih =>
    rw [insertEntry] at ha
    split at ha
    · exact List.mem_cons.1 ha
    · split at ha
      · exact (List.mem_cons.1 ha).imp_right (List.mem_cons_of_mem _)
      · rcases List.mem_cons.1 ha with rfl | ha
        · exact .inr (.head _)
        · exact (ih ha).imp_right (List.mem_cons_of_mem _)

/-- Entries that ascend still do with one more. -/
theorem pairwise_insertEntry {entries : List (Pointer × NameEntry)} (e : NameEntry)
    (h : entries.Pairwise fun a b => a.1 < b.1) :
    (insertEntry p e entries).Pairwise fun a b => a.1 < b.1 := by
  induction entries with
  | nil => exact List.pairwise_singleton _ _
  | cons entry rest ih =>
    obtain ⟨q, f⟩ := entry
    have hrest (a : Pointer × NameEntry) (ha : a ∈ rest) : q < a.1 :=
      List.rel_of_pairwise_cons h ha
    rw [insertEntry]
    split
    · next hlt =>
      refine h.cons fun a ha => ?_
      rcases List.mem_cons.1 ha with rfl | ha
      · exact hlt
      · exact Pointer.lt_trans hlt (hrest a ha)
    · next hnlt =>
      split
      · next heq =>
        subst heq
        exact h.of_cons.cons hrest
      · next hne =>
        refine (ih h.of_cons).cons fun a ha => ?_
        -- The new entry goes behind this one, because it does not go in front of it.
        have hlt : q < p := (Pointer.lt_or_gt_of_ne hne).resolve_left hnlt
        rcases mem_insertEntry ha with rfl | ha
        · exact hlt
        · exact hrest a ha

/-! ## What holds of every table -/

/-- What holds of a table that was made by naming and removing places. -/
structure Consistent (t : NameTable) : Prop where
  /-- The places ascend. -/
  ascending : t.entries.Pairwise fun a b => a.1 < b.1
  /-- No name was given twice. -/
  nodup : t.given.Nodup
  /-- The variants of a base that its counter has passed were given. -/
  counted : ∀ base i, i < t.counter base → variant base i ∈ t.given
  /-- The name of a place was given. -/
  given : ∀ p e, t.entry? p = some e → e.name ∈ t.given
  /-- Places with the same name are the same. -/
  distinct : ∀ p q e f, t.entry? p = some e → t.entry? q = some f → e.name = f.name → p = q

/-- An empty table is consistent. -/
theorem consistent_empty : Consistent {} where
  ascending := .nil
  nodup := .nil
  counted := by
    intro base i hi
    exact absurd hi (Nat.not_lt_zero i)
  given := nofun
  distinct := nofun

/-- The next variant of a base is the first of all its variants that was not given. -/
theorem Consistent.isFirstFree_nextVariant (h : t.Consistent) (base : String) :
    IsFirstFree t.given base (t.nextVariant base) := by
  refine ⟨t.variant_nextVariant_notMem base, fun i hi => ?_⟩
  by_cases hlt : i < t.counter base
  · exact h.counted base i hlt
  · exact mem_of_lt_firstFree (Nat.le_of_not_lt hlt) hi

/-- A table stays consistent when a place is named. -/
theorem Consistent.register (h : t.Consistent) (p : Pointer) (base : String) :
    (t.register p base).2.Consistent := by
  cases hp : t.entry? p with
  | some e => rwa [register_named hp]
  | none =>
    have hself := entry?_register_self hp base
    have hother (q : Pointer) (hq : q ≠ p) := entry?_register_of_ne t base hq
    obtain ⟨hfree, hpassed⟩ := h.isFirstFree_nextVariant base
    -- A name that was given before is not the new one.
    have hne (q : Pointer) (f : NameEntry) (hf : t.entry? q = some f) :
        f.name ≠ variant base (t.nextVariant base) := by
      intro heq
      exact hfree (heq ▸ h.given q f hf)
    rw [register_unnamed hp] at hself hother ⊢
    constructor
    case ascending => exact pairwise_insertEntry _ h.ascending
    case nodup => exact List.nodup_cons.2 ⟨hfree, h.nodup⟩
    case counted =>
      intro b i hi
      rw [counter, lookup_setCounter] at hi
      by_cases hb : b = base
      · subst hb
        rw [if_pos rfl, Option.getD_some] at hi
        rcases Nat.lt_or_eq_of_le (Nat.le_of_lt_succ hi) with hlt | rfl
        · exact .tail _ (hpassed i hlt)
        · exact .head _
      · rw [if_neg hb] at hi
        exact .tail _ (h.counted b i hi)
    case given =>
      intro q f hf
      by_cases hq : q = p
      · subst hq
        cases hself.symm.trans hf
        exact .head _
      · rw [hother q hq] at hf
        exact .tail _ (h.given q f hf)
    case distinct =>
      intro q r f g hf hg hname
      by_cases hq : q = p <;> by_cases hr : r = p
      · rw [hq, hr]
      · subst hq
        cases hself.symm.trans hf
        rw [hother r hr] at hg
        exact absurd hname.symm (hne r g hg)
      · subst hr
        cases hself.symm.trans hg
        rw [hother q hq] at hf
        exact absurd hname (hne q f hf)
      · rw [hother q hq] at hf
        rw [hother r hr] at hg
        exact h.distinct q r f g hf hg hname

/-- An entry that is there after a place was removed was there before. -/
theorem entry?_of_entry?_remove {e : NameEntry} (h : entry? (t.remove p) q = some e) :
    t.entry? q = some e := by
  rw [entry?_remove] at h
  split at h
  · cases h
  · exact h

/-- A table stays consistent when a place is removed. -/
theorem Consistent.remove (h : t.Consistent) (p : Pointer) : (t.remove p).Consistent where
  ascending := h.ascending.filter _
  nodup := h.nodup
  counted := h.counted
  given := by
    intro q e he
    exact h.given q e (entry?_of_entry?_remove he)
  distinct := by
    intro q r e f he hf hname
    exact h.distinct q r e f (entry?_of_entry?_remove he) (entry?_of_entry?_remove hf) hname

/-- Places that are found with the same name are the same. -/
theorem Consistent.eq_of_lookup? {name : String} (h : t.Consistent) (hp : t.lookup? p = some name)
    (hq : t.lookup? q = some name) : p = q := by
  obtain ⟨e, he, rfl⟩ := Option.map_eq_some_iff.1 hp
  obtain ⟨f, hf, hname⟩ := Option.map_eq_some_iff.1 hq
  exact h.distinct p q e f he hf hname.symm

/-- The places of a consistent table strictly ascend. -/
theorem Consistent.pairwise_pointers (h : t.Consistent) : t.pointers.Pairwise (· < ·) :=
  List.pairwise_map.2 h.ascending

/-- In a consistent table, a place is found with the entry with which it is listed. -/
theorem Consistent.entry?_of_mem {e : NameEntry} (h : t.Consistent) (hmem : (p, e) ∈ t.entries) :
    t.entry? p = some e := by
  have hnodup : t.pointers.Nodup := h.pairwise_pointers.imp Pointer.ne_of_lt
  exact lookup_of_mem hnodup hmem

/-- In a consistent table, a place is found with the name with which it is listed. -/
theorem Consistent.lookup?_of_mem_names {name : String} (h : t.Consistent)
    (hmem : (p, name) ∈ t.names) : t.lookup? p = some name := by
  obtain ⟨⟨_, e⟩, he, heq⟩ := List.mem_map.1 hmem
  cases heq
  exact Option.map_eq_some_iff.2 ⟨e, h.entry?_of_mem he, rfl⟩

/-- No name is listed twice in a consistent table. -/
theorem Consistent.nodup_names (h : t.Consistent) : (t.names.map (·.2)).Nodup := by
  have hnames : t.names.map (·.2) = t.entries.map (·.2.name) := List.map_map
  rw [hnames]
  refine List.pairwise_map.2 (h.ascending.imp_of_mem fun {a b} ha hb hlt heq => ?_)
  exact Pointer.ne_of_lt hlt (h.distinct _ _ _ _ (h.entry?_of_mem ha) (h.entry?_of_mem hb) heq)

end NameTable
end SchemaTypes
