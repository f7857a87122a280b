import SchemaTypes.Proofs.Filter.Value

/-!
# Outputs with distinct keys

What holds of all outputs of some filters (`Filter.Results.All`) holds of all outputs of those that
are made of them, if what is done with the outputs keeps it. So the outputs of a filter have
distinct keys if its input and its literals have (`Filter.all_eval`).
-/

namespace SchemaTypes
namespace Filter

open Value

/-! ## Results -/

namespace Results

variable {α β γ : Type} {P : α → Prop} {Q : β → Prop} {R : γ → Prop} {results : Results α}

/-- Whether something holds of all outputs. -/
def All (P : α → Prop) : Results α → Prop
  | .done | .failed _ => True
  | .output a rest => P a ∧ All P (rest ())

/-- What always holds holds of all outputs. -/
theorem all_true (results : Results α) : results.All fun _ => True := by
  induction results with
  | done | failed _ => trivial
  | output a rest ih => exact ⟨trivial, ih ()⟩

/-- What holds of something holds of it as the only output. -/
theorem all_one {a : α} (h : P a) : (one a).All P :=
  ⟨h, trivial⟩

/-- What holds of what is computed holds of it as the only output. -/
theorem all_ofExcept {x : Except Failure α} (h : ∀ a, x = .ok a → P a) : (ofExcept x).All P := by
  cases x with
  | error e => trivial
  | ok a => exact all_one (h a rfl)

/-- What holds of the elements of a list holds of them as outputs. -/
theorem all_ofList {l : List α} (h : ∀ a ∈ l, P a) : (ofList l).All P := by
  induction l with
  | nil => trivial
  | cons a rest ih =>
    obtain ⟨ha, hrest⟩ := List.forall_mem_cons.1 h
    exact ⟨ha, ih hrest⟩

namespace All

/-- What holds of the outputs of two filters holds of those of one after the other. -/
theorem append {second : Unit → Results α} (h : results.All P) (h' : (second ()).All P) :
    (results.append second).All P := by
  induction results with
  | done => exact h'
  | failed e => trivial
  | output a rest ih => exact ⟨h.1, ih () h.2⟩

/-- A function that keeps what holds is applied to all outputs. -/
theorem map {f : α → β} (h : results.All P) (hf : ∀ a, P a → Q (f a)) :
    (results.map f).All Q := by
  induction results with
  | done | failed _ => trivial
  | output a rest ih => exact ⟨hf a h.1, ih () h.2⟩

/-- All outputs are replaced by results whose outputs keep what holds. -/
theorem bind {f : α → Results β} (h : results.All P) (hf : ∀ a, P a → (f a).All Q) :
    (results.bind f).All Q := by
  induction results with
  | done | failed _ => trivial
  | output a rest ih => exact (hf a h.1).append (ih () h.2)

/-- All outputs of one filter are combined with all of another, in a way that keeps what holds. -/
theorem pairs {right : Unit → Results β} {f : α → β → Except Failure γ} (h : results.All P)
    (h' : (right ()).All Q) (hf : ∀ a b c, P a → Q b → f a b = .ok c → R c) :
    (results.pairs right f).All R := by
  induction results with
  | done => trivial
  | failed e =>
    rw [Results.pairs]
    split <;> trivial
  | output a rest ih =>
    exact (h'.bind fun b hb => all_ofExcept fun c hc => hf a b c h.1 hb hc).append (ih () h.2)

/-- Without the failure, the outputs are the same. -/
theorem quiet (h : results.All P) : results.quiet.All P := by
  induction results with
  | done | failed _ => trivial
  | output a rest ih => exact ⟨h.1, ih () h.2⟩

/-- Outputs that count as true are outputs. -/
theorem whereTrue {P : Value → Prop} {results : Results Value} (h : results.All P) :
    results.whereTrue.All P := by
  induction results with
  | done | failed _ => trivial
  | output v rest ih =>
    rw [Results.whereTrue]
    split
    · exact ⟨h.1, ih () h.2⟩
    · exact ih () h.2

/-- An alternative has the outputs of one of its sides. -/
theorem orElse {P : Value → Prop} {results : Results Value} {other : Unit → Results Value}
    (h : results.All P) (h' : (other ()).All P) : (results.orElse other).All P := by
  have hkept := h.whereTrue
  rw [Results.orElse]
  split
  · exact h'
  · exact hkept

/-- What is not changed is the only output of a filter that raises its outputs. -/
theorem raise {P : Value → Prop} {results : Results Value} {v : Value} (hv : P v) :
    (results.raise v).All P := by
  cases results with
  | done => exact all_one hv
  | failed _ | output _ _ => trivial

/-- What holds of all outputs and of those found before holds of all together. -/
theorem collectFrom {found l : List α} (h : results.All P) (hfound : ∀ a ∈ found, P a)
    (hl : Results.collectFrom found results = .ok l) : ∀ a ∈ l, P a := by
  induction results generalizing found with
  | done =>
    cases hl
    exact fun a ha => hfound a (List.mem_reverse.1 ha)
  | failed e => cases hl
  | output a rest ih => exact ih () h.2 (List.forall_mem_cons.2 ⟨h.1, hfound⟩) hl

/-- What holds of all outputs holds of all that are collected. -/
theorem collect {l : List α} (h : results.All P) (hl : results.collect = .ok l) : ∀ a ∈ l, P a :=
  h.collectFrom (List.forall_mem_nil _) hl

end All
end Results

/-! ## Filters -/

mutual

/-- Whether the literals of which a filter makes outputs have distinct keys. -/
def LiteralsDistinct : Filter → Prop
  | .literal v => v.KeysDistinct
  | .path f _ | .list (some f) | .quiet f | .map f => LiteralsDistinct f
  | .object entries => EntriesDistinct entries
  | .pipe f g | .both f g | .orElse f g | .arithmetic _ f g | .ifThenElse _ f g =>
    LiteralsDistinct f ∧ LiteralsDistinct g
  | .identity | .list none | .and _ _ | .or _ _ | .compare _ _ _ | .negate _ | .empty | .error _
  | .not | .length | .keys | .select _ | .undefined _ _ => True

/-- Whether the literals of which entries make values have distinct keys. -/
def EntriesDistinct : List (Filter × Filter) → Prop
  | [] => True
  | (_, f) :: rest => LiteralsDistinct f ∧ EntriesDistinct rest

end

/-- The elements of a value with distinct keys have distinct keys. -/
theorem all_elements {v : Value} (hv : v.KeysDistinct) : (Results.elements v).All KeysDistinct := by
  rw [Results.elements]
  split
  · next vs hvs => exact Results.all_ofList (hv.elements hvs)
  · trivial

/-- A list of outputs with distinct keys has distinct keys. -/
theorem all_array {results : Results Value} (h : results.All KeysDistinct) :
    (Results.ofExcept (Value.array <$> results.collect)).All KeysDistinct := by
  refine Results.all_ofExcept fun w hw => ?_
  cases hcollect : results.collect with
  | error e =>
    rw [hcollect] at hw
    cases hw
  | ok vs =>
    rw [hcollect] at hw
    cases hw
    exact keysDistinct_array.2 (h.collect hcollect)

/-- The results of the steps of a path from a value with distinct keys have distinct keys. -/
theorem all_follow {v : Value} (hv : v.KeysDistinct) (steps : List (PathStep Value × Bool)) :
    (follow v steps).All KeysDistinct := by
  induction steps generalizing v with
  | nil => exact Results.all_one hv
  | cons first rest ih =>
    obtain ⟨step, isQuiet⟩ := first
    have hreached : (step.apply v).All KeysDistinct := by
      cases step with
      | index key => exact Results.all_ofExcept fun w hw => hv.index hw
      | slice first last => exact Results.all_ofExcept fun w hw => hv.slice hw
      | each => exact all_elements hv
    rw [follow]
    refine Results.All.bind ?_ fun w hw => ih hw
    split
    · exact hreached.quiet
    · exact hreached

mutual

/-- The outputs of a filter have distinct keys if its input and the literals of which it makes them
have. -/
theorem all_eval : ∀ {f : Filter} {v : Value}, f.LiteralsDistinct → v.KeysDistinct →
    (eval f v).All KeysDistinct
  | .identity, v, _, hv => Results.all_one hv
  | .literal w, v, hw, _ => Results.all_one hw
  | .path start steps, v, h, hv => by
    have hstart : start.LiteralsDistinct := h
    rw [eval]
    exact (all_eval hstart hv).bind fun w hw =>
      (Results.all_true _).bind fun steps _ => all_follow hw steps
  | .list none, v, _, _ => Results.all_one (keysDistinct_array.2 nofun)
  | .list (some f), v, h, hv => all_array (all_eval h hv)
  | .object entries, v, h, hv => all_evalEntries h hv
  | .pipe f g, v, h, hv => (all_eval h.1 hv).bind fun w hw => all_eval h.2 hw
  | .both f g, v, h, hv => (all_eval h.1 hv).append (all_eval h.2 hv)
  | .orElse f g, v, h, hv => (all_eval h.1 hv).orElse (all_eval h.2 hv)
  | .and f g, v, _, _ => by
    rw [eval]
    refine (Results.all_true _).bind fun w _ => ?_
    split
    · exact (Results.all_true _).map fun _ _ => trivial
    · exact Results.all_one trivial
  | .or f g, v, _, _ => by
    rw [eval]
    refine (Results.all_true _).bind fun w _ => ?_
    split
    · exact Results.all_one trivial
    · exact (Results.all_true _).map fun _ _ => trivial
  | .compare how f g, v, _, _ => by
    rw [eval]
    refine (Results.all_true _).pairs (Results.all_true _) fun _ _ c _ _ hc => ?_
    cases hc
    trivial
  | .arithmetic how f g, v, h, hv =>
    (all_eval h.1 hv).pairs (all_eval h.2 hv) fun _ _ _ hw hx hc => hw.apply hx how hc
  | .negate f, v, _, _ => by
    rw [eval]
    exact (Results.all_true _).bind fun _ _ =>
      Results.all_ofExcept fun x hx => keysDistinct_negate hx
  | .ifThenElse f g h, v, hd, hv => by
    rw [eval]
    refine (Results.all_true _).bind fun w _ => ?_
    split
    · exact all_eval hd.1 hv
    · exact all_eval hd.2 hv
  | .quiet f, v, h, hv => by
    have hf : f.LiteralsDistinct := h
    rw [eval]
    exact (all_eval hf hv).quiet
  | .empty, v, _, _ => trivial
  | .error f, v, _, hv => Results.All.raise hv
  | .not, v, _, _ => Results.all_one trivial
  | .length, v, _, _ => Results.all_ofExcept fun w hw => keysDistinct_length hw
  | .keys, v, _, _ => Results.all_ofExcept fun w hw => keysDistinct_keys hw
  | .select f, v, _, hv => by
    rw [eval]
    refine (Results.all_true _).bind fun w _ => ?_
    split
    · exact Results.all_one hv
    · trivial
  | .map f, v, h, hv => all_array ((all_elements hv).bind fun w hw => all_eval h hw)
  | .undefined name _, v, _, _ => trivial

/-- The objects of entries have distinct keys if the input and the literals of which the entries
make values have. -/
theorem all_evalEntries : ∀ {entries : List (Filter × Filter)} {v : Value},
    EntriesDistinct entries → v.KeysDistinct → (evalEntries entries v).All KeysDistinct
  | [], _, _, _ => Results.all_one (keysDistinct_object.2 ⟨.nil, nofun⟩)
  | [(_, _)], _, h, hv =>
    (Results.all_true _).pairs (all_eval h.1 hv) fun _ _ _ _ hx hc => hx.singleton hc
  | (_, _) :: _ :: _, _, h, hv =>
    ((Results.all_true _).pairs (all_eval h.1 hv) fun _ _ _ _ hx hc => hx.singleton hc).pairs
      (all_evalEntries h.2 hv) fun _ _ _ hx hy hc => hx.add hy hc

end

end Filter
end SchemaTypes
