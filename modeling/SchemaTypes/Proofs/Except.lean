/-!
# Computations that may fail

When one of several steps fails, so does the whole, so a computation that succeeds is taken apart
into steps that do.
-/

namespace SchemaTypes

variable {ε ε' α β γ : Type}

/-- A computation that succeeds gives something. -/
theorem Except.isOk_iff_exists {x : Except ε α} : x.isOk = true ↔ ∃ a, x = .ok a := by
  cases x with
  | error e => exact ⟨nofun, nofun⟩
  | ok a => exact ⟨fun _ => ⟨a, rfl⟩, fun _ => rfl⟩

/-- A computation after another succeeds if and only if both do. -/
theorem Except.bind_eq_ok_iff {x : Except ε α} {f : α → Except ε β} {b : β} :
    (x >>= f) = .ok b ↔ ∃ a, x = .ok a ∧ f a = .ok b := by
  cases x with
  | error e => exact ⟨nofun, nofun⟩
  | ok a => exact ⟨fun h => ⟨a, rfl, h⟩, fun ⟨_, ha, h⟩ => Except.ok.inj ha ▸ h⟩

/-- Two computations whose results are only put together succeed if and only if both do. -/
theorem Except.bind_bind_pure_eq_ok_iff {x : Except ε α} {y : Except ε β} {f : α → β → γ} {c : γ} :
    (x >>= fun a => y >>= fun b => pure (f a b)) = .ok c ↔
      ∃ a b, x = .ok a ∧ y = .ok b ∧ c = f a b := by
  cases x with
  | error e => simp [bind, Except.bind]
  | ok a => cases y <;> simp [bind, Except.bind, pure, Except.pure, eq_comm]

/-- A computation after another fails if and only if the first one fails, or does not and the other
one fails. -/
theorem Except.bind_eq_error_iff {x : Except ε α} {f : α → Except ε β} {e : ε} :
    (x >>= f) = .error e ↔ x = .error e ∨ ∃ a, x = .ok a ∧ f a = .error e := by
  cases x with
  | error e' => simp [bind, Except.bind]
  | ok a => simp [bind, Except.bind]

/-- A computation whose result is only taken further fails if and only if it does so itself. -/
theorem Except.bind_pure_eq_error_iff {x : Except ε α} {f : α → β} {e : ε} :
    (x >>= fun a => pure (f a)) = .error e ↔ x = .error e := by
  rw [Except.bind_eq_error_iff]
  refine ⟨?_, .inl⟩
  rintro (h | ⟨a, -, h⟩)
  · exact h
  · cases h

/-- A computation fails if and only if it does with its result mapped. -/
theorem Except.map_eq_error_iff {x : Except ε α} {f : α → β} {e : ε} :
    x.map f = .error e ↔ x = .error e := by
  cases x with
  | error e' => simp [Except.map]
  | ok a => simp [Except.map]

/-- A computation succeeds if and only if it does with another error. -/
theorem Except.mapError_eq_ok_iff {x : Except ε α} {f : ε → ε'} {a : α} :
    x.mapError f = .ok a ↔ x = .ok a := by
  cases x with
  | error e => exact ⟨nofun, nofun⟩
  | ok a' =>
    constructor
    · intro h
      cases h
      rfl
    · intro h
      cases h
      rfl

/-- A computation succeeds for a list if and only if it does for the first member and for the
others. -/
theorem Except.mapM_cons_eq_ok_iff {f : α → Except ε β} {a : α} {l : List α} {l' : List β} :
    (a :: l).mapM f = .ok l' ↔ ∃ b bs, f a = .ok b ∧ l.mapM f = .ok bs ∧ l' = b :: bs := by
  rw [List.mapM_cons]
  exact Except.bind_bind_pure_eq_ok_iff

/-- What a computation gives for the members of a list, it gives for one of them. -/
theorem Except.exists_of_mem_mapM {f : α → Except ε β} {l : List α} {l' : List β}
    (h : l.mapM f = .ok l') {b : β} (hb : b ∈ l') : ∃ a ∈ l, f a = .ok b := by
  induction l generalizing l' with
  | nil =>
    cases h
    cases hb
  | cons a rest ih =>
    obtain ⟨first, others, hfirst, hothers, rfl⟩ := Except.mapM_cons_eq_ok_iff.1 h
    rcases List.mem_cons.1 hb with rfl | hb
    · exact ⟨a, .head _, hfirst⟩
    · obtain ⟨other, hother, heq⟩ := ih hothers hb
      exact ⟨other, .tail _ hother, heq⟩

/-- A computation that succeeds for a list succeeds for each of its members. -/
theorem Except.exists_of_mem_of_mapM {f : α → Except ε β} {l : List α} {l' : List β}
    (h : l.mapM f = .ok l') {a : α} (ha : a ∈ l) : ∃ b ∈ l', f a = .ok b := by
  induction l generalizing l' with
  | nil => cases ha
  | cons first rest ih =>
    obtain ⟨b, others, hb, hothers, rfl⟩ := Except.mapM_cons_eq_ok_iff.1 h
    rcases List.mem_cons.1 ha with rfl | ha
    · exact ⟨b, .head _, hb⟩
    · obtain ⟨other, hother, heq⟩ := ih hothers ha
      exact ⟨other, .tail _ hother, heq⟩

/-- A computation that succeeds for each member of a list succeeds for the list. -/
theorem Except.exists_mapM_eq_ok {f : α → Except ε β} {l : List α}
    (h : ∀ a ∈ l, ∃ b, f a = .ok b) : ∃ l', l.mapM f = .ok l' := by
  induction l with
  | nil => exact ⟨[], rfl⟩
  | cons first rest ih =>
    obtain ⟨⟨b, hb⟩, hrest⟩ := List.forall_mem_cons.1 h
    obtain ⟨others, hothers⟩ := ih hrest
    exact ⟨b :: others, Except.mapM_cons_eq_ok_iff.2 ⟨b, others, hb, hothers, rfl⟩⟩

/-- A computation gives something for every member of a list. -/
theorem Except.length_of_mapM {f : α → Except ε β} {l : List α} {l' : List β}
    (h : l.mapM f = .ok l') : l'.length = l.length := by
  induction l generalizing l' with
  | nil =>
    cases h
    rfl
  | cons a rest ih =>
    obtain ⟨first, others, -, hothers, rfl⟩ := Except.mapM_cons_eq_ok_iff.1 h
    exact congrArg (· + 1) (ih hothers)

end SchemaTypes
