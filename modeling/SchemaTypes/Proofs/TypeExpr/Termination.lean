import SchemaTypes.Proofs.Survey.Pruning
import SchemaTypes.Proofs.TypeExpr.Parts

/-!
# Building types comes to an end

Neither following bare references nor building a type runs out of the steps it is given. Bare
references lead from target to target and pass none of them twice, and there are only so many
(`Builder.ends_follow`). A type is built going down in the value that its schema was read from,
until a reference is met. From there on no other value is gone down into: a target without a name
was given up by the survey, so it is a bare reference that leads on to a name
(`Builder.ends_reference`).
-/

namespace SchemaTypes
namespace Builder

open Document

variable {d : Document} {b : Builder} {passed : List Pointer} {cursor p q : Pointer} {s : Schema}
  {site : BuildSite} {steps : Nat}

/-- What is built comes to an end, with a result or with the error that references lead back. -/
def Ends {α : Type} (x : Building α) : Prop :=
  (∃ a, x = .ok a) ∨ ∃ chain, x = .error (.cycle chain)

/-- What does not run out of steps comes to an end. -/
theorem ends_iff {α : Type} {x : Building α} : Ends x ↔ x ≠ .error .outOfSteps := by
  constructor
  · rintro (⟨a, rfl⟩ | ⟨chain, rfl⟩) <;> nofun
  · intro h
    match x with
    | .ok a => exact .inl ⟨a, rfl⟩
    | .error (.cycle chain) => exact .inr ⟨chain, rfl⟩
    | .error .outOfSteps => exact absurd rfl h

/-- What is built one after the other comes to an end if both do. -/
theorem Ends.bind {α β : Type} {x : Building α} {f : α → Building β} (hx : Ends x)
    (hf : ∀ a, x = .ok a → Ends (f a)) : Ends (x >>= f) := by
  rcases hx with ⟨a, rfl⟩ | ⟨chain, rfl⟩
  · exact hf a rfl
  · exact .inr ⟨chain, rfl⟩

/-! ## Following bare references -/

/-- What leads back to a place that was passed is not followed. -/
theorem notMem_of_follow (h : follow d steps passed cursor = .ok ()) : cursor ∉ passed := by
  cases steps with
  | zero => cases h
  | succ steps =>
    rw [follow] at h
    split at h
    · cases h
    · next hnot => simpa using hnot

/-- To come to a place that was passed is an error. -/
theorem follow_of_mem (hmem : cursor ∈ passed) :
    follow d (steps + 1) passed cursor = .error (.cycle (passed ++ [cursor])) := by
  rw [follow, if_pos (by simpa using hmem)]

/-- A place that does not lead on is followed no further. -/
theorem follow_of_next?_eq_none (hnot : cursor ∉ passed) (hnext : d.next? cursor = none) :
    follow d (steps + 1) passed cursor = .ok () := by
  rw [follow, if_neg (by simpa using hnot), hnext]

/-- A place that leads on is passed, and its target is followed. -/
theorem follow_of_next?_eq_some (hnot : cursor ∉ passed) (hnext : d.next? cursor = some q) :
    follow d (steps + 1) passed cursor = follow d steps (passed ++ [cursor]) q := by
  rw [follow, if_neg (by simpa using hnot), hnext]

/-- From a target on, as many steps as targets are left are enough. -/
theorem ends_follow_of_mem (hmem : cursor ∈ d.targets)
    (hlt : (d.targetsLeft passed).card < steps) : Ends (follow d steps passed cursor) := by
  induction steps generalizing passed cursor with
  | zero => omega
  | succ steps ih =>
    rw [follow]
    split
    · exact .inr ⟨_, rfl⟩
    · next hnot =>
      split
      · next q hq =>
        have := card_targetsLeft_append_lt hmem (by simpa using hnot)
        exact ih (mem_targets_of_next? hq) (by omega)
      · exact .inl ⟨(), rfl⟩

/-- Following bare references comes to an end, from any place on and whatever was passed. -/
theorem ends_follow (d : Document) (passed : List Pointer) (cursor : Pointer) :
    Ends (follow d (followLimit d) passed cursor) := by
  rw [followLimit, follow]
  split
  · exact .inr ⟨_, rfl⟩
  · split
    · next q hq =>
      have := d.card_targetsLeft_le (passed ++ [cursor])
      exact ends_follow_of_mem (mem_targets_of_next? hq) (by omega)
    · exact .inl ⟨(), rfl⟩

/-! ## References -/

/-- Every target of a node at which anything is found leads to a name of the table. -/
def Complete (b : Builder) : Prop :=
  ∀ q found, b.document.IsTarget q → b.document.resolve? q = some found →
    ∃ name, b.document.LeadsTo b.table q name

/-- The names of a document are complete. -/
theorem complete_names (d : Document) (rootName : Option String) :
    Complete ⟨d, Survey.names d rootName⟩ :=
  fun _ _ hq hr => Survey.exists_leadsTo_names rootName hq hr

/-- A target without a name leads on. -/
theorem Complete.exists_next (hb : b.Complete) {found : Located} (hq : b.document.IsTarget q)
    (hnone : b.table.lookup? q = none) (hr : b.document.resolve? q = some found) :
    ∃ r, b.document.next? q = some r := by
  obtain ⟨name, hname⟩ := hb q found hq hr
  cases hname with
  | here hname => cases hnone.symm.trans hname
  | next _ hnext => exact ⟨_, hnext⟩

/-- The type of a reference comes to an end in as many steps as targets are left. -/
theorem ends_reference (hb : b.Complete) (hs : b.document.Surveyed p s) {ref : String}
    (href : s.reference = some ref)
    (hle : (b.document.targetsLeft (site.chain ++ [site.place])).card ≤ steps) :
    Ends (b.reference (b.build steps) ref site) := by
  induction steps using Nat.strong_induction_on generalizing p s site ref with
  | _ steps ih =>
  rw [reference]
  split
  · exact .inl ⟨_, rfl⟩
  next q hq =>
  refine (ends_follow _ _ _).bind fun _ hfollow => ?_
  split
  · exact .inl ⟨_, rfl⟩
  next hnone =>
  split
  · exact .inl ⟨_, rfl⟩
  next found hr =>
  split
  · -- The target is a bare reference, and one target less is left from there on.
    have htarget : b.document.IsTarget q :=
      ⟨p, s, hs, Schema.internalReference?_eq_some_iff.2 ⟨ref, href, hq⟩⟩
    obtain ⟨r, hnext⟩ := hb.exists_next htarget hnone hr
    obtain ⟨_, hr', -, hr''⟩ := next?_eq_some_iff.1 hnext
    cases hr.symm.trans hr'
    obtain ⟨ref', href', -⟩ := Schema.internalReference?_eq_some_iff.1 hr''
    obtain ⟨p', hs'⟩ := htarget.of_resolve? hr
    have hlt := card_targetsLeft_append_lt htarget.mem_targets (notMem_of_follow hfollow)
    obtain ⟨n, rfl⟩ : ∃ n, steps = n + 1 := Nat.exists_eq_succ_of_ne_zero (by omega)
    rw [build_reference n (unnamed_of_byName rfl) href']
    exact ih n (Nat.lt_succ_self n) hs' href' (by dsimp only; omega)
  · exact .inl ⟨_, rfl⟩

/-! ## Schemas -/

/-- The type of a node comes to an end in as many steps as its value has parts and the document has
targets. -/
theorem ends_build (hb : b.Complete) (hs : b.document.Surveyed p s) {v : Json}
    (hv : Json.Part v b.document.json) (hread : Schema.read v = .ok s)
    (hle : v.size + b.document.targets.card ≤ steps) : Ends (b.build steps s site) := by
  induction steps generalizing p s v site with
  | zero =>
    have := v.size_pos
    omega
  | succ steps ih =>
    have hpos := v.size_pos
    rcases b.named_or_unnamed site with ⟨name, hby, hname⟩ | hsite
    · exact .inl ⟨_, build_named steps s hby hname⟩
    cases href : s.reference with
    | some ref =>
      rw [build_reference steps hsite href]
      have : (b.document.targetsLeft (site.chain ++ [site.place])).card ≤
        b.document.targets.card := Finset.card_le_card Finset.sdiff_subset
      exact ends_reference hb hs href (by omega)
    | none =>
      rw [build_body steps hsite href]
      refine ends_iff.2 ((restsOn_body _ s).ne_outOfSteps fun slot c hc => ends_iff.1 ?_)
      obtain ⟨w, hw, hsize, hread⟩ :=
        Schema.exists_part_of_holds (hv.keysDistinct b.document.distinct) hread hc.holds
      exact ih (hs.child hc.holds) (hw.trans hv) hread (by omega)

/-- What is declared for a node comes to an end. -/
theorem ends_declared (hb : b.Complete) (hs : b.document.Surveyed p s) (place : Pointer) :
    Ends (b.declared s place) := by
  obtain ⟨v, hv, hread⟩ := hs.exists_json
  have hsize := hv.size_le
  have hcard := b.document.card_targets_le
  refine ends_build hb hs hv hread ?_
  calc v.size + b.document.targets.card
    _ ≤ 2 * b.document.json.size + 2 := by omega
    _ ≤ stepLimit b.document := Nat.le_mul_of_pos_right _ (Nat.succ_pos _)

end Builder
end SchemaTypes
