import SchemaTypes.TypeExpr.Build
import SchemaTypes.Proofs.Schema.Reading

/-!
# The parts that a type is built from

The type of a schema is built from the types of some of the schemas it holds; which ones is said by
`Builder.Uses`. Nothing else can fail: the type is built if all of these are, and if it is not, it
is for the fault of one of them (`Builder.restsOn_body`).
-/

namespace SchemaTypes
namespace Builder

variable {α β : Type} {part : Slot → Schema → Building TypeExpr} {U V : Slot → Schema → Prop}

/-- What is built rests on the parts `U`: it succeeds only if all of them do, and it fails only as
one of them does. -/
def RestsOn (part : Slot → Schema → Building TypeExpr) (U : Slot → Schema → Prop) :
    Building α → Prop
  | .ok _ => ∀ slot c, U slot c → ∃ t, part slot c = .ok t
  | .error e => ∃ slot c, U slot c ∧ part slot c = .error e

namespace RestsOn

variable {x : Building α} {a : α} {slot : Slot} {c : Schema}

/-- If something is built, so is every part it rests on. -/
theorem exists_ok (h : RestsOn part U x) (hx : x = .ok a) (hc : U slot c) :
    ∃ t, part slot c = .ok t := by
  subst hx
  exact h slot c hc

/-- What rests on parts that do not run out of steps does not either. -/
theorem ne_outOfSteps (h : RestsOn part U x)
    (hU : ∀ slot c, U slot c → part slot c ≠ .error .outOfSteps) :
    x ≠ .error .outOfSteps := by
  rintro rfl
  obtain ⟨slot, c, hc, herror⟩ := h
  exact hU slot c hc herror

/-- The parts that something rests on may be described in another way. -/
theorem congr (h : RestsOn part U x) (hUV : ∀ slot c, U slot c ↔ V slot c) :
    RestsOn part V x := by
  cases x with
  | ok a => exact fun slot c hc => h slot c ((hUV slot c).2 hc)
  | error e =>
    obtain ⟨slot, c, hc, herror⟩ := h
    exact ⟨slot, c, (hUV slot c).1 hc, herror⟩

/-- What is given rests on nothing. -/
theorem ok (a : α) : RestsOn part (fun _ _ => False) (.ok a) :=
  fun _ _ => False.elim

/-- A part rests on itself. -/
theorem self (slot : Slot) (c : Schema) :
    RestsOn part (fun slot' c' => slot' = slot ∧ c' = c) (part slot c) := by
  cases h : part slot c with
  | ok t => rintro _ _ ⟨rfl, rfl⟩; exact ⟨t, h⟩
  | error e => exact ⟨slot, c, ⟨rfl, rfl⟩, h⟩

/-- What is built one after the other rests on the parts of both. -/
theorem bind {f : α → Building β} (hx : RestsOn part U x)
    (hf : ∀ a, x = .ok a → RestsOn part V (f a)) :
    RestsOn part (fun slot c => U slot c ∨ V slot c) (x >>= f) := by
  cases x with
  | error e =>
    obtain ⟨slot, c, hc, herror⟩ := hx
    exact ⟨slot, c, .inl hc, herror⟩
  | ok a =>
    have hfa := hf a rfl
    change RestsOn part _ (f a)
    cases hb : f a with
    | ok b =>
      rw [hb] at hfa
      exact fun slot c hc => hc.elim (hx slot c) (hfa slot c)
    | error e =>
      rw [hb] at hfa
      obtain ⟨slot, c, hc, herror⟩ := hfa
      exact ⟨slot, c, .inr hc, herror⟩

/-- What is made of something that was built rests on the same parts. -/
theorem map (f : α → β) (hx : RestsOn part U x) : RestsOn part U (f <$> x) := by
  cases x with
  | ok a => exact hx
  | error e => exact hx

end RestsOn

/-! ## Members of lists and containers -/

/-- The types of the members of a list rest on those of the members. -/
theorem restsOn_members (part : Slot → Schema → Building TypeExpr) (slot : Nat → Slot) (i : Nat)
    (cs : List Schema) :
    RestsOn part (fun slot' c => ∃ j, slot (i + j) = slot' ∧ cs[j]? = some c)
      (members part slot i cs) := by
  induction cs generalizing i with
  | nil => exact (RestsOn.ok []).congr (by simp)
  | cons d ds ih =>
    refine ((RestsOn.self (slot i) d).bind fun t _ =>
      (ih (i + 1)).bind fun ts _ => RestsOn.ok (t :: ts)).congr fun slot' c => ?_
    constructor
    · rintro (⟨rfl, rfl⟩ | ⟨j, rfl, hc⟩ | h)
      · exact ⟨0, rfl, rfl⟩
      · exact ⟨j + 1, by rw [Nat.add_right_comm, Nat.add_assoc], hc⟩
      · exact h.elim
    · rintro ⟨_ | j, rfl, hc⟩
      · cases hc
        exact .inl ⟨rfl, rfl⟩
      · exact .inr (.inl ⟨j, by rw [Nat.add_right_comm, Nat.add_assoc], hc⟩)

/-- The types of the properties of an object rest on those of the properties. -/
theorem restsOn_properties (part : Slot → Schema → Building TypeExpr) (required : List String)
    (entries : List (String × Schema)) :
    RestsOn part (fun slot c => ∃ key, .property key = slot ∧ (key, c) ∈ entries)
      (properties part required entries) := by
  induction entries with
  | nil => exact (RestsOn.ok []).congr (by simp)
  | cons entry rest ih =>
    obtain ⟨key, d⟩ := entry
    refine ((RestsOn.self (.property key) d).bind fun t _ => ih.bind fun ts _ =>
      RestsOn.ok (_ :: ts)).congr fun slot c => ?_
    constructor
    · rintro (⟨rfl, rfl⟩ | ⟨key', rfl, hmem⟩ | h)
      · exact ⟨key, rfl, .head _⟩
      · exact ⟨key', rfl, .tail _ hmem⟩
      · exact h.elim
    · rintro ⟨key', rfl, hmem⟩
      rcases List.mem_cons.1 hmem with heq | hmem
      · cases heq
        exact .inl ⟨rfl, rfl⟩
      · exact .inr (.inl ⟨key', rfl, hmem⟩)

/-- The members of a list are built one by one. -/
theorem getElem?_members {slot : Nat → Slot} {i : Nat} {cs : List Schema} {ts : List TypeExpr}
    (h : members part slot i cs = .ok ts) (j : Nat) (t : TypeExpr) :
    ts[j]? = some t ↔ ∃ c, cs[j]? = some c ∧ part (slot (i + j)) c = .ok t := by
  induction cs generalizing i j ts with
  | nil =>
    cases h
    simp
  | cons c cs ih =>
    obtain ⟨first, rest, hfirst, hrest, rfl⟩ := Except.bind_bind_pure_eq_ok_iff.1 h
    cases j with
    | zero => simp [hfirst, eq_comm]
    | succ j =>
      have hindex : i + (j + 1) = i + 1 + j := by omega
      rw [List.getElem?_cons_succ, List.getElem?_cons_succ, ih hrest, hindex]

/-- What is built for the members of a list are the types of these. -/
theorem mem_members_iff {slot : Nat → Slot} {cs : List Schema} {ts : List TypeExpr} {t : TypeExpr}
    (h : members part slot 0 cs = .ok ts) :
    t ∈ ts ↔ ∃ i c, cs[i]? = some c ∧ part (slot i) c = .ok t := by
  rw [List.mem_iff_getElem?]
  refine exists_congr fun i => ?_
  rw [getElem?_members h, Nat.zero_add]

/-! ## Keywords -/

/-- An object type is built from its properties and from the type of all others. -/
theorem object_eq_ok_iff {s : Schema} {type : TypeExpr} : object part s = .ok type ↔
    ∃ listed others, properties part s.required (s.properties.getD []) = .ok listed ∧
      otherProperties part s.additionalProperties = .ok others ∧ type = .object listed others :=
  Except.bind_bind_pure_eq_ok_iff

variable (part) (s : Schema)

/-- The union of alternatives rests on their types. -/
theorem restsOn_alternatives (slot : Nat → Slot) (members : Option (List Schema)) :
    RestsOn part (fun slot' c => ∃ i cs, slot i = slot' ∧ members = some cs ∧ cs[i]? = some c)
      (alternatives part slot members) := by
  cases members with
  | none => exact (RestsOn.ok []).congr (by simp)
  | some cs =>
    refine ((restsOn_members part slot 0 cs).bind fun ts _ => RestsOn.ok _).congr fun slot' c => ?_
    simp

/-- The intersection of members rests on their types. -/
theorem restsOn_conjunction (members : Option (List Schema)) :
    RestsOn part (fun slot c => ∃ i cs, .allOf i = slot ∧ members = some cs ∧ cs[i]? = some c)
      (conjunction part members) := by
  cases members with
  | none => exact (RestsOn.ok []).congr (by simp)
  | some cs =>
    refine ((restsOn_members part .allOf 0 cs).bind fun ts _ => RestsOn.ok _).congr
      fun slot c => ?_
    simp

/-- The combinators of a schema rest on what it holds for them. -/
theorem restsOn_combinators :
    RestsOn part (fun slot c => slot.keyword ∈ [Keyword.oneOf, .anyOf, .allOf] ∧ s.Holds slot c)
      (combinators part s) := by
  refine ((restsOn_alternatives part .oneOf s.oneOf).bind fun oneOf _ =>
    (restsOn_alternatives part .anyOf s.anyOf).bind fun anyOf _ =>
    (restsOn_conjunction part s.allOf).bind (V := fun _ _ => False) fun allOf _ => ?_).congr
    fun slot c => ?_
  · split <;> exact RestsOn.ok _
  · cases slot <;> simp [Slot.keyword, Schema.Holds]

/-- The object type of a schema rests on its properties and on the schema of all others. -/
theorem restsOn_object :
    RestsOn part
      (fun slot c => slot.keyword ∈ [Keyword.properties, .additionalProperties] ∧ s.Holds slot c)
      (object part s) := by
  have hothers : RestsOn part
      (fun slot c => .otherProperties = slot ∧ s.additionalProperties = some (.schema c))
      (otherProperties part s.additionalProperties) := by
    match h : s.additionalProperties with
    | none | some (.allowed true) | some (.allowed false) => exact (RestsOn.ok _).congr (by simp)
    | some (.schema d) =>
      refine ((RestsOn.self .otherProperties d).map some).congr fun slot c => ?_
      simp [eq_comm]
  refine ((restsOn_properties part s.required (s.properties.getD [])).bind fun listed _ =>
    hothers.bind fun others _ => RestsOn.ok _).congr fun slot c => ?_
  cases hprops : s.properties <;> cases slot <;> simp [Slot.keyword, Schema.Holds, hprops]

/-- The type of a list rests on the items that the schema holds. -/
theorem restsOn_array :
    RestsOn part (fun slot c => slot.keyword = .items ∧ s.Holds slot c) (array part s.items) := by
  match h : s.items with
  | none =>
    refine (RestsOn.ok _).congr fun slot c => ?_
    cases slot <;> simp [Slot.keyword, Schema.Holds, h]
  | some (.each d) =>
    refine ((RestsOn.self .item d).map TypeExpr.array).congr fun slot c => ?_
    cases slot <;> simp [Slot.keyword, Schema.Holds, h, eq_comm]
  | some (.tuple ds) =>
    refine ((restsOn_members part .itemAt 0 ds).map TypeExpr.tuple).congr fun slot c => ?_
    cases slot <;> simp [Slot.keyword, Schema.Holds, h]

/-! ## Schemas -/

/-- The type of the schema is that of its items: it has no object shape, its combinators say
nothing, it lists no values, and its type is `array`. -/
structure IsList (part : Slot → Schema → Building TypeExpr) (s : Schema) : Prop where
  properties : s.properties = none
  additionalProperties : s.additionalProperties = none
  combinators : combinators part s = .ok none
  const : s.const = none
  enum : s.enum = none
  type : s.type = some (.single "array")

/-- The schemas that a schema holds whose types are built for its own: those of its combinators,
its properties, and its items if it is a list. -/
inductive Uses (part : Slot → Schema → Building TypeExpr) (s : Schema) : Slot → Schema → Prop where
  | combinator {slot : Slot} {c : Schema} :
    slot.keyword ∈ [Keyword.oneOf, .anyOf, .allOf] → s.Holds slot c → Uses part s slot c
  | property {slot : Slot} {c : Schema} :
    slot.keyword ∈ [Keyword.properties, .additionalProperties] → s.Holds slot c →
      Uses part s slot c
  | item {slot : Slot} {c : Schema} :
    slot.keyword = .items → IsList part s → s.Holds slot c → Uses part s slot c

variable {part s}

/-- What is used is held. -/
theorem Uses.holds {slot : Slot} {c : Schema} (h : Uses part s slot c) : s.Holds slot c := by
  cases h with
  | combinator _ hc | property _ hc | item _ _ hc => exact hc

/-- The type of a schema without an object shape and combinators rests on its items, if it is a
list. -/
theorem restsOn_plain (hprops : s.properties = none) (hothers : s.additionalProperties = none)
    (hcombinators : combinators part s = .ok none) :
    RestsOn part (fun slot c => slot.keyword = .items ∧ IsList part s ∧ s.Holds slot c)
      (plain part s) := by
  unfold plain
  split
  case h_4 hconst henum htype =>
    refine (restsOn_array part s).congr fun slot c => ?_
    have hlist : IsList part s := ⟨hprops, hothers, hcombinators, hconst, henum, htype⟩
    simp [hlist]
  all_goals
    refine (RestsOn.ok _).congr fun slot c => ⟨False.elim, ?_⟩
    rintro ⟨-, ⟨-, -, -, hconst, henum, htype⟩, -⟩
    simp_all

/-- The type of a schema without `$ref` rests on what it uses. -/
theorem restsOn_body (part : Slot → Schema → Building TypeExpr) (s : Schema) :
    RestsOn part (Uses part s) (body part s) := by
  refine ((restsOn_combinators part s).bind (V := fun slot c =>
    slot.keyword ∈ [Keyword.properties, .additionalProperties] ∧ s.Holds slot c ∨
      slot.keyword = .items ∧ IsList part s ∧ s.Holds slot c) fun combined hcombined => ?_).congr
    fun slot c => ?_
  · by_cases hshape : (s.properties.isSome || s.additionalProperties.isSome) = true
    · -- A schema with an object shape is no list.
      rw [if_pos hshape]
      refine ((restsOn_object part s).bind (V := fun _ _ => False) fun shape _ => ?_).congr
        fun slot c => ?_
      · split <;> exact RestsOn.ok _
      · refine or_congr_right ⟨False.elim, fun ⟨_, hlist, _⟩ => ?_⟩
        simp [hlist.properties, hlist.additionalProperties] at hshape
    · -- A schema without one holds no properties.
      rw [if_neg hshape]
      obtain ⟨hprops, hothers⟩ : s.properties = none ∧ s.additionalProperties = none := by
        simpa using hshape
      have hnone (slot : Slot) (c : Schema) :
          ¬(slot.keyword ∈ [Keyword.properties, .additionalProperties] ∧ s.Holds slot c) := by
        cases slot <;> simp [Slot.keyword, Schema.Holds, hprops, hothers]
      cases combined with
      | some t =>
        refine (RestsOn.ok t).congr fun slot c => ⟨False.elim, ?_⟩
        rintro (hc | ⟨-, hlist, -⟩)
        · exact hnone slot c hc
        · cases hcombined.symm.trans hlist.combinators
      | none =>
        by_cases hobject : s.isObjectType = true
        · simp only [hobject, if_true]
          refine (RestsOn.ok _).congr fun slot c => ⟨False.elim, ?_⟩
          rintro (hc | ⟨-, hlist, -⟩)
          · exact hnone slot c hc
          · simp [Schema.isObjectType, hlist.type] at hobject
        · simp only [hobject]
          exact (restsOn_plain hprops hothers hcombined).congr fun slot c =>
            ⟨.inr, fun h => h.resolve_left (hnone slot c)⟩
  · constructor
    · rintro (⟨hslot, hc⟩ | ⟨hslot, hc⟩ | ⟨hslot, hlist, hc⟩)
      · exact .combinator hslot hc
      · exact .property hslot hc
      · exact .item hslot hlist hc
    · rintro (⟨hslot, hc⟩ | ⟨hslot, hc⟩ | ⟨hslot, hlist, hc⟩)
      · exact .inl ⟨hslot, hc⟩
      · exact .inr (.inl ⟨hslot, hc⟩)
      · exact .inr (.inr ⟨hslot, hlist, hc⟩)

/-! ## One step -/

/-- The name of the place does not stand for what is built at the site. -/
def Unnamed (b : Builder) (site : BuildSite) : Prop :=
  site.byName = true → b.table.lookup? site.place = none

variable {b : Builder} {site : BuildSite}

/-- What is built at a site that no name stands for is not called by one. -/
theorem Unnamed.ite_eq_none (h : b.Unnamed site) :
    (if site.byName = true then b.table.lookup? site.place else none) = none := by
  split
  · next hby => exact h hby
  · rfl

/-- No name stands for what is built at a site that has to be spelled out. -/
theorem unnamed_of_byName (h : site.byName = false) : b.Unnamed site :=
  fun hby => nomatch h.symm.trans hby

/-- A name stands for what is built at a site, or it does not. -/
theorem named_or_unnamed (b : Builder) (site : BuildSite) :
    (∃ name, site.byName = true ∧ b.table.lookup? site.place = some name) ∨ b.Unnamed site := by
  cases hname : b.table.lookup? site.place with
  | none => exact .inr fun _ => hname
  | some name =>
    cases hby : site.byName with
    | true => exact .inl ⟨name, rfl, rfl⟩
    | false => exact .inr (unnamed_of_byName hby)

/-- A place that has a name is referred to by it. -/
theorem build_named {name : String} (steps : Nat) (s : Schema) (hby : site.byName = true)
    (hname : b.table.lookup? site.place = some name) :
    b.build (steps + 1) s site = .ok (.named name) := by
  simp [build, hby, hname]

/-- A schema with a `$ref` is built as a reference. -/
theorem build_reference (steps : Nat) (hsite : b.Unnamed site) {ref : String}
    (href : s.reference = some ref) :
    b.build (steps + 1) s site = b.reference (b.build steps) ref site := by
  rw [build, hsite.ite_eq_none, href]

/-- A schema without a `$ref` is built from its parts. -/
theorem build_body (steps : Nat) (hsite : b.Unnamed site) (href : s.reference = none) :
    b.build (steps + 1) s site =
      body (fun slot c => b.build steps c (.part (site.place.slot slot))) s := by
  rw [build, hsite.ite_eq_none, href]

end Builder
end SchemaTypes
