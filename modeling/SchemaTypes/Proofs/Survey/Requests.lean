import SchemaTypes.Proofs.Identifier.Names
import SchemaTypes.Proofs.Survey.Named

/-!
# Who asks for a name

A place has a name only because it asked for one: a node worth a declaration was visited there, or
it is a target at which something is found (`Survey.Asked`). What it got is a variant of what it
asked for (`Survey.Granted`). All that is ever asked for are names (`Survey.Requests.isName`), so
all that is ever given are, and a plain name is given only to a place that asked for exactly this
one (`Survey.lookup?_names_eq_iff`).
-/

namespace SchemaTypes

open Identifier

variable {d : Document} {survey : Survey} {p q : Pointer} {e : NameEntry}
  {rootName : Option String} {name : String}

namespace NameTable

variable {t : NameTable}

/-- An entry that is there after a place asked for a name was there before, or it is that of the
place: the next variant of what it asked for. -/
theorem entry?_of_entry?_register {base : String}
    (h : entry? (t.register p base).2 q = some e) :
    t.entry? q = some e ∨ q = p ∧ e = ⟨variant base (t.nextVariant base), base⟩ := by
  by_cases hq : q = p
  · subst hq
    cases hold : t.entry? q with
    | some f =>
      rw [register_named hold] at h
      exact .inl (hold.symm.trans h)
    | none => exact .inr ⟨rfl, Option.some.inj (h.symm.trans (entry?_register_self hold base))⟩
  · exact .inl ((entry?_register_of_ne t base hq).symm.trans h)

end NameTable

/-! ## What visits ask for -/

namespace Visit

variable {s : Schema} {suggested suffix : String} {role : Role} {v : Visit}

/-- What is put behind the name of the node around is a name again, or nothing. -/
theorem derived_eq_or {around : Option String} (h : ∀ name, around = some name → IsName name)
    (hs : ∀ c ∈ suffix.toList, isNameChar c = true) :
    derived around suffix = "" ∨ IsName (derived around suffix) := by
  cases around with
  | none => exact .inl rfl
  | some name => exact .inr ((h name rfl).append hs)

/-- What a node in a slot is suggested to be called is a name, or nothing. -/
theorem suggestion_eq_or {around : Option String} (h : ∀ name, around = some name → IsName name)
    (slot : Slot) (s : Schema) :
    suggestion around slot s = "" ∨ IsName (suggestion around slot s) := by
  have hnumbered (word : String) (hword : ∀ c ∈ word.toList, isNameChar c = true) (i : Nat) :
      ∀ c ∈ (word ++ toString i).toList, isNameChar c = true := by
    intro c hc
    rw [String.toList_append] at hc
    exact (List.mem_append.1 hc).elim (hword c) isNameChar_of_mem_toString
  cases slot with
  | definition key | defs key => exact (normalize_eq_or key).imp_right IsPlain.isName
  | property key => exact derived_eq_or h fun c hc => isNameChar_of_mem_normalize hc
  | item => exact derived_eq_or h (by simp [isNameChar])
  | itemAt i => exact derived_eq_or h (hnumbered _ (by simp [isNameChar]) i)
  | otherProperties => exact derived_eq_or h (by simp [isNameChar])
  | oneOf i | anyOf i | allOf i =>
    rw [suggestion]
    split
    · exact .inl rfl
    · exact derived_eq_or h (hnumbered _ (by simp [isNameChar]) i)

/-- What a node is called is a name. -/
theorem isName_nameOf (hs : suggested = "" ∨ IsName suggested)
    (h : nameOf s suggested role = some name) : IsName name := by
  have htitle (h : s.title.bind normalized? = some name) : IsName name := by
    obtain ⟨title, -, hname⟩ := Option.bind_eq_some_iff.1 h
    exact (isPlain_of_normalized? hname).isName
  simp only [nameOf] at h
  split at h
  · exact htitle h
  · split at h
    · exact htitle h
    · next hne =>
      cases h
      refine hs.resolve_left ?_
      rintro rfl
      exact hne rfl

/-- What visited nodes are called are names, if the first is suggested to be called by one. -/
theorem isName_of_mem {s : Schema} {p : Pointer} {suggested : String} {role : Role}
    (hv : v ∈ visits s p suggested role) (hs : suggested = "" ∨ IsName suggested)
    (hname : v.name = some name) : IsName name := by
  rcases mem_visits_iff.1 hv with rfl | ⟨slot, c, hc, hv⟩
  · exact isName_nameOf hs hname
  · have hlt := Schema.sizeOf_lt_of_mem_children (Schema.mem_children_iff.2 hc)
    exact isName_of_mem hv (suggestion_eq_or (fun _ h => isName_nameOf hs h) slot c) hname
termination_by sizeOf s

end Visit

namespace Survey

variable {visits : List Visit}

/-! ## What the visits of a survey ask for -/

/-- What is visited when a target is dealt with is called by what the target got. -/
theorem exists_of_mem_settleVisits {v : Visit} (hv : v ∈ settleVisits d survey q) :
    ∃ t n, v ∈ Visit.visits t q (NameTable.variant (ofPointer q) n) .definition := by
  rw [settleVisits] at hv
  split at hv
  · cases hv
  · next hcontains =>
    split at hv
    · cases hv
    · next found hr =>
      have hnone : survey.table.entry? q = none := by
        simpa [NameTable.contains] using hcontains
      simp only [NameTable.register_unnamed hnone] at hv
      split at hv
      · cases hv
      · exact ⟨found.schema, _, hv⟩

/-- What is visited in a round is visited when one of its targets is dealt with. -/
theorem exists_of_mem_roundVisits {qs : List Pointer} {v : Visit}
    (hv : v ∈ roundVisits d survey qs) : ∃ survey' q, v ∈ settleVisits d survey' q := by
  induction qs generalizing survey with
  | nil => cases hv
  | cons q rest ih =>
    rcases List.mem_append.1 hv with hv | hv
    · exact ⟨survey, q, hv⟩
    · exact ih hv

/-- What is visited in several rounds is visited when a target is dealt with. -/
theorem exists_of_mem_closeVisits {rounds : Nat} {v : Visit}
    (hv : v ∈ closeVisits d rounds survey) : ∃ survey' q, v ∈ settleVisits d survey' q := by
  have hnone : ∀ v ∈ ([] : List Visit), ∃ survey' q, v ∈ settleVisits d survey' q := nofun
  exact closeVisits_induction
    (P := fun _ visits => ∀ v ∈ visits, ∃ survey' q, v ∈ settleVisits d survey' q)
    (fun _ _ h v hv => (List.mem_append.1 hv).elim (h v) exists_of_mem_roundVisits)
    rounds survey [] hnone v hv

/-- What visited nodes are called are names. -/
theorem isName_of_mem_visited {v : Visit} (hv : v ∈ visited d rootName)
    (hname : v.name = some name) : IsName name := by
  rcases List.mem_append.1 hv with hv | hv
  · refine Visit.isName_of_mem hv ?_ hname
    cases rootName with
    | none => exact .inl rfl
    | some raw => exact (normalize_eq_or raw).imp_right IsPlain.isName
  · obtain ⟨survey, q, hv⟩ := exists_of_mem_closeVisits hv
    obtain ⟨t, n, hv⟩ := exists_of_mem_settleVisits hv
    exact Visit.isName_of_mem hv
      (.inr (NameTable.isName_variant (isPlain_ofPointer q).isName n)) hname

/-! ## What is granted -/

/-- A place asks for a name: that of a visited node there that is worth a declaration, or what its
pointer makes, if it is a target dealt with at which anything is found. -/
def Asked (d : Document) (visits : List Visit) (targets : List Pointer) (p : Pointer)
    (base : String) : Prop :=
  (∃ v ∈ visits, v.pointer = p ∧ v.name = some base ∧ v.earnsDeclaration = true) ∨
    p ∈ targets ∧ (d.resolve? p).isSome = true ∧ base = ofPointer p

/-- Every place with a name asked for the base of its entry, and got a variant of it. -/
def Granted (d : Document) (survey : Survey) (visits : List Visit) : Prop :=
  ∀ p e, survey.table.entry? p = some e →
    Asked d visits survey.settled p e.base ∧ ∃ n, e.name = NameTable.variant e.base n

/-- Who asks among some visits and targets does among more of them. -/
theorem Asked.mono {visits visits' : List Visit} {targets targets' : List Pointer} {base : String}
    (h : Asked d visits targets p base) (hv : visits ⊆ visits') (ht : targets ⊆ targets') :
    Asked d visits' targets' p base := by
  rcases h with ⟨v, hmem, hplace⟩ | ⟨hmem, hfound⟩
  · exact .inl ⟨v, hv hmem, hplace⟩
  · exact .inr ⟨ht hmem, hfound⟩

/-- A visit gives its place what it asks for. -/
theorem Granted.record (h : Granted d survey visits) (v : Visit) :
    Granted d (survey.record v) (visits ++ [v]) := by
  intro p e he
  have hsettled : (survey.record v).settled = survey.settled := rfl
  have hkept (hold : survey.table.entry? p = some e) :
      Asked d (visits ++ [v]) survey.settled p e.base ∧
        ∃ n, e.name = NameTable.variant e.base n := by
    obtain ⟨hasked, hname⟩ := h p e hold
    exact ⟨hasked.mono (List.subset_append_left _ _) (List.Subset.refl _), hname⟩
  rw [hsettled]
  simp only [Survey.record] at he
  split at he
  · next name hname =>
    split at he
    · next hearns =>
      rcases NameTable.entry?_of_entry?_register he with hold | ⟨rfl, rfl⟩
      · exact hkept hold
      · exact ⟨.inl ⟨v, by simp, rfl, hname, hearns⟩, _, rfl⟩
    · exact hkept he
  · exact hkept he

/-- Visits give their places what they ask for. -/
theorem Granted.foldl_record {more : List Visit} (h : Granted d survey visits) :
    Granted d (more.foldl Survey.record survey) (visits ++ more) := by
  induction more generalizing survey visits with
  | nil => rwa [List.append_nil]
  | cons v rest ih =>
    rw [List.append_cons]
    exact ih (h.record v)

/-- A target at which anything is found gets what it asks for. -/
theorem Granted.enter (h : Granted d survey visits) (q : Pointer) :
    Granted d (enter d survey q) visits := by
  intro p e he
  have hkept (hold : survey.table.entry? p = some e) :
      Asked d visits (q :: survey.settled) p e.base ∧
        ∃ n, e.name = NameTable.variant e.base n := by
    obtain ⟨hasked, hname⟩ := h p e hold
    exact ⟨hasked.mono (List.Subset.refl _) (List.subset_cons_self _ _), hname⟩
  simp only [Survey.enter] at he
  split at he
  · next hfound =>
    rcases NameTable.entry?_of_entry?_register he with hold | ⟨rfl, rfl⟩
    · exact hkept hold
    · exact ⟨.inr ⟨.head _, hfound, rfl⟩, _, rfl⟩
  · exact hkept he

/-- A target gets what it asks for, and so does all that is visited with it. -/
theorem Granted.settle (h : Granted d survey visits) (q : Pointer) :
    Granted d (settle d survey q) (visits ++ settleVisits d survey q) := by
  rw [settle_eq_foldl_record]
  exact (h.enter q).foldl_record

/-- In a round all get what they ask for. -/
theorem Granted.round {qs : List Pointer} (h : Granted d survey visits) :
    Granted d (qs.foldl (Survey.settle d) survey) (visits ++ roundVisits d survey qs) := by
  induction qs generalizing survey visits with
  | nil => rwa [roundVisits, List.append_nil]
  | cons q rest ih =>
    rw [roundVisits, ← List.append_assoc]
    exact ih (h.settle q)

/-- In any number of rounds all get what they ask for. -/
theorem Granted.close (rounds : Nat) (h : Granted d survey visits) :
    Granted d (close d rounds survey) (visits ++ closeVisits d rounds survey) :=
  closeVisits_induction (fun _ _ h => h.round) rounds _ _ h

/-- In the end, every place with a name asked for the base of its entry, and got a variant of it. -/
theorem granted_complete (d : Document) (rootName : Option String) :
    Granted d (complete d rootName) (visited d rootName) := by
  have hempty : Granted d {} [] := nofun
  exact hempty.foldl_record.close (roundLimit d)

/-! ## The names of a document -/

/-- A place asks for a name in the survey of a document. -/
def Requests (d : Document) (rootName : Option String) (p : Pointer) (base : String) : Prop :=
  Asked d (visited d rootName) (complete d rootName).settled p base

/-- The entries that are left were there before names were given up. -/
theorem entry?_of_entry?_names (he : NameTable.entry? (names d rootName) p = some e) :
    NameTable.entry? (complete d rootName).table p = some e :=
  prune_induction
    (P := fun t => t.entry? p = some e →
      NameTable.entry? (complete d rootName).table p = some e)
    (fun _ _ _ hkept he => hkept (NameTable.entry?_of_entry?_remove he)) id he

/-- Every place with a name asked for the base of its entry, and got a variant of it. -/
theorem requests_of_entry?_names (he : NameTable.entry? (names d rootName) p = some e) :
    Requests d rootName p e.base ∧ ∃ n, e.name = NameTable.variant e.base n :=
  granted_complete d rootName p e (entry?_of_entry?_names he)

/-- A place asks for a name if it is that of a visited node that is worth a declaration and is
called so, or the target of a node at which anything is found, whose pointer makes the name. -/
theorem requests_iff {base : String} :
    Requests d rootName p base ↔
      (∃ v ∈ visited d rootName, v.pointer = p ∧ v.name = some base ∧ v.earnsDeclaration = true) ∨
        d.IsTarget p ∧ (d.resolve? p).isSome = true ∧ base = ofPointer p := by
  have htarget : p ∈ (complete d rootName).settled ↔ d.IsTarget p := by
    rw [mem_settled_complete_iff]
    constructor
    · rintro ⟨v, hv, href⟩
      exact ⟨v.pointer, v.schema, (recorded_complete d rootName).surveyed v hv, href⟩
    · rintro ⟨q, s, hs, href⟩
      obtain ⟨v, hv, -, rfl⟩ := exists_visited_iff.2 hs
      exact ⟨v, hv, href⟩
  rw [Requests, Asked, htarget]

/-- Only names are asked for. -/
theorem Requests.isName {base : String} (h : Requests d rootName p base) : IsName base := by
  rcases h with ⟨v, hv, -, hname, -⟩ | ⟨-, -, rfl⟩
  · exact isName_of_mem_visited hv hname
  · exact (isPlain_ofPointer p).isName

/-- A place has a plain name if and only if it asked for exactly this one and got it. -/
theorem lookup?_names_eq_iff (hname : IsPlain name) :
    (names d rootName).lookup? p = some name ↔
      NameTable.entry? (names d rootName) p = some ⟨name, name⟩ := by
  constructor
  · intro h
    obtain ⟨⟨_, base⟩, he, rfl⟩ := Option.map_eq_some_iff.1 h
    obtain ⟨hrequests, n, hn⟩ := requests_of_entry?_names he
    dsimp only at hn hname hrequests
    -- No variant but the base itself is plain.
    obtain rfl := NameTable.eq_zero_of_isPlain_variant hrequests.isName.ne_empty (hn ▸ hname)
    rw [he, hn]
    rfl
  · intro h
    exact Option.map_eq_some_iff.2 ⟨_, h, rfl⟩

end Survey
end SchemaTypes
