import SchemaTypes.Proofs.Json.Location
import SchemaTypes.Proofs.Schema.Reading

/-!
# Values that are no schema

At every place of a schema something is expected (`Expected`), and the value there can be read on
its own as that. Where it cannot, it is either not what is expected, and the fault tells so
(`Schema.FailsItself`), or the value one step further inside is not (`Schema.FailsInside`). That
holds of everything that is expected (`Schema.fails_of_check`), so the location of a fault leads
from one such value to the next, and to the value that the fault is about
(`Schema.exists_at?_of_read_eq_error`).
-/

namespace SchemaTypes

/-! ## Expectations -/

/-- What a value at some place of a schema has to be: a schema, the value of a keyword, or one of
the texts in the value of a keyword. -/
inductive Expected where
  | schema
  | value (keyword : Keyword)
  | text

namespace Expected

/-- What is expected one step further inside. A keyword whose value may take several forms leaves
open which of them is meant, so nothing is expected inside of its value. -/
def step? : Expected → JsonStep → Option Expected
  | .schema, .key k => (Keyword.ofText? k).map .value
  | .schema, .position i => Keyword.all[i]?.map .value
  | .value .required, .position _ => some .text
  | .value .properties, .key _ | .value .definitions, .key _ | .value .defs, .key _ => some .schema
  | .value .oneOf, .position _ | .value .anyOf, .position _ | .value .allOf, .position _ =>
    some .schema
  | _, _ => none

/-- What is expected at a location. -/
def follow? (expected : Expected) : List JsonStep → Option Expected
  | [] => some expected
  | step :: rest => (expected.step? step).bind (follow? · rest)

/-- Reads a value on its own as what is expected, only to see whether it is that. -/
def check : Expected → Json → Schema.Reading Unit
  | .schema, v => (Schema.read v).map fun _ => ()
  | .value keyword, v => (Schema.readKeyword {} keyword v).map fun _ => ()
  | .text, v => (Schema.readString v).map fun _ => ()

/-- The kind of value that is wanted, if there is only one. -/
def wanted? : Expected → Option Wanted
  | .schema => some .schema
  | .value .properties | .value .definitions | .value .defs => some .object
  | .value .required | .value .enum | .value .examples | .value .oneOf | .value .anyOf
  | .value .allOf => some .list
  | .value .ref | .value .title | .value .description | .text => some .string
  | .value .deprecated => some .boolean
  | .value .type | .value .items | .value .additionalProperties | .value .const => none

end Expected

/-- Whether a value is of a kind. A schema is written as an object or as a list. -/
def Wanted.isKindOf : Wanted → Json → Bool
  | .string, .string _ | .boolean, .bool _ | .list, .array _ | .object, .object _
  | .schema, .array _ | .schema, .object _ => true
  | _, _ => false

/-- The keyword whose value may take several forms. -/
def Choice.keyword : Choice → Keyword
  | .typeNames => .type
  | .items => .items
  | .additionalProperties => .additionalProperties

/-- A value takes one of the forms that its keyword allows. -/
def Choice.HasForm : Choice → Json → Prop
  | .typeNames, v =>
    (∃ name, v = .string name) ∨ ∃ names : List String, v = .array (names.map .string)
  | .items, v =>
    (∃ elements cs, v = .array elements ∧ Schema.readSchemas 0 elements = .ok cs) ∨
      ∃ c, Schema.read v = .ok c
  | .additionalProperties, v => (∃ b, v = .bool b) ∨ ∃ c, Schema.read v = .ok c

/-- A fault tells what is wrong with a value of which something is expected. -/
inductive SchemaFault.Tells : SchemaFault → Expected → Json → Prop where
  | wrongKind {expected : Expected} {wanted : Wanted} {v : Json} :
    expected.wanted? = some wanted → wanted.isKindOf v = false →
      Tells (.wrongKind v wanted) expected v
  | noForm {choice : Choice} {v : Json} :
    v ≠ .null → ¬ choice.HasForm v → Tells (.noForm choice) (.value choice.keyword) v
  | tooShort {elements : List Json} {i : Nat} {keyword : Keyword} :
    elements.length ≤ i → Keyword.all[i]? = some keyword → keyword.mayBeMissing = false →
      Tells (.tooShort i) .schema (.array elements)
  | tooLong {elements : List Json} :
    Keyword.all.length < elements.length →
      Tells (.tooLong elements.length) .schema (.array elements)

namespace Schema

variable {s : Schema} {v u : Json} {e e' : InvalidSchema} {keyword : Keyword}
  {expected next : Expected}

/-- A value is not what is expected because of what it is itself, and the fault tells so. -/
def FailsItself (expected : Expected) (v : Json) (e : InvalidSchema) : Prop :=
  e.location = [] ∧ e.fault.Tells expected v

/-- A value is not what is expected because what stands one step further inside is not, as it shows
when that is read on its own. -/
def FailsInside (expected : Expected) (v : Json) (e : InvalidSchema) : Prop :=
  ∃ step next u e', expected.step? step = some next ∧ v.at? [step] = some u ∧
    next.check u = .error e' ∧ e = ⟨step :: e'.location, e'.fault⟩

/-- An element of a list that is not what is expected is so inside of the list. -/
theorem failsInside_position {elements : List Json} {j : Nat} (hu : elements[j]? = some u)
    (hnext : expected.step? (.position j) = some next) (hcheck : next.check u = .error e')
    (he : e = ⟨.position j :: e'.location, e'.fault⟩) :
    FailsInside expected (.array elements) e :=
  ⟨.position j, next, u, e', hnext, (Json.at?_position _ j).trans hu, hcheck, he⟩

/-- A member of an object that is not what is expected is so inside of the object. -/
theorem failsInside_key {members : List (String × Json)} {key : String}
    (hd : (Json.object members).KeysDistinct) (hu : (key, u) ∈ members)
    (hnext : expected.step? (.key key) = some next) (hcheck : next.check u = .error e')
    (he : e = ⟨.key key :: e'.location, e'.fault⟩) :
    FailsInside expected (.object members) e :=
  ⟨.key key, next, u, e', hnext, (Json.at?_key _ key).trans (lookup_of_mem hd.1 hu), hcheck, he⟩

/-! ## Values that hold no schema -/

/-- A reader of values of one kind fails on all others, and on them as a whole. -/
def Wants {α : Type} (wanted : Wanted) (read : Json → Reading α) : Prop :=
  ∀ v e, read v = .error e → e = ⟨[], .wrongKind v wanted⟩ ∧ wanted.isKindOf v = false

/-- Texts are wanted. -/
theorem wants_readString : Wants .string readString := by
  intro v e h
  cases v <;> cases h
  all_goals exact ⟨rfl, rfl⟩

/-- Truth values are wanted. -/
theorem wants_readBool : Wants .boolean readBool := by
  intro v e h
  cases v <;> cases h
  all_goals exact ⟨rfl, rfl⟩

/-- Lists are wanted. -/
theorem wants_readList : Wants .list readList := by
  intro v e h
  cases v <;> cases h
  all_goals exact ⟨rfl, rfl⟩

/-- A value of another kind than the expected one fails itself. -/
theorem Wants.failsItself {α : Type} {wanted : Wanted} {read : Json → Reading α}
    (hwants : Wants wanted read) (hexpected : expected.wanted? = some wanted)
    (h : read v = .error e) : FailsItself expected v e := by
  obtain ⟨rfl, hkind⟩ := hwants v e h
  exact ⟨rfl, .wrongKind hexpected hkind⟩

/-- A value that has none of the forms of its keyword fails itself. -/
theorem failsItself_of_not_hasForm (choice : Choice) (hnull : v ≠ .null)
    (hform : ¬ choice.HasForm v) :
    FailsItself (.value choice.keyword) v ⟨[], .noForm choice⟩ :=
  ⟨rfl, .noForm hnull hform⟩

/-- A value that may be left out fails as any other, unless it is left out. -/
theorem eq_error_of_optional {α : Type} {read : Json → Reading α}
    (h : optional read v = .error e) : v ≠ .null ∧ read v = .error e := by
  cases v with
  | null => cases h
  | _ => exact ⟨nofun, Except.map_eq_error_iff.1 h⟩

/-- A step into a value fails as the value does, with the step in front of the location. -/
theorem within_eq_error_iff {α : Type} {step : JsonStep} {r : Reading α} :
    within step r = .error e ↔ ∃ e', r = .error e' ∧ e = ⟨step :: e'.location, e'.fault⟩ := by
  cases r with
  | error e' => simp [within, eq_comm]
  | ok a => simp [within]

/-- Where the elements of a list are read one after the other and that fails, one of them fails. -/
theorem exists_of_elements_eq_error {α : Type} {read : Json → Reading α}
    {readFrom : Nat → List Json → Reading (List α)} {i : Nat} {elements : List Json}
    (hnil : ∀ i, readFrom i [] = .ok [])
    (hcons : ∀ i v vs, readFrom i (v :: vs) = do
      let a ← within (.position i) (read v)
      let rest ← readFrom (i + 1) vs
      return a :: rest)
    (h : readFrom i elements = .error e) :
    ∃ j u e', elements[j]? = some u ∧ read u = .error e' ∧
      e = ⟨.position (i + j) :: e'.location, e'.fault⟩ := by
  induction elements generalizing i with
  | nil =>
    rw [hnil] at h
    cases h
  | cons v rest ih =>
    rw [hcons] at h
    rcases Except.bind_eq_error_iff.1 h with h | ⟨a, -, h⟩
    · obtain ⟨e', hv, he⟩ := within_eq_error_iff.1 h
      exact ⟨0, v, e', rfl, hv, he⟩
    · obtain ⟨j, u, e', hu, hread, he⟩ := ih (Except.bind_pure_eq_error_iff.1 h)
      rw [Nat.add_right_comm, Nat.add_assoc] at he
      exact ⟨j + 1, u, e', hu, hread, he⟩

/-- A value that is no list of texts fails itself, or one of its elements is no text. -/
theorem fails_of_readStrings (h : readStrings v = .error e) :
    FailsItself (.value .required) v e ∨ FailsInside (.value .required) v e := by
  cases v with
  | array elements =>
    rw [readStrings] at h
    have hnil (i : Nat) : readStringsFrom i [] = .ok [] := rfl
    obtain ⟨j, u, e', hu, hread, he⟩ := exists_of_elements_eq_error hnil (fun _ _ _ => rfl) h
    rw [Nat.zero_add] at he
    exact .inr (failsInside_position hu rfl (Except.map_eq_error_iff.2 hread) he)
  | _ =>
    cases h
    exact .inl ⟨rfl, .wrongKind rfl rfl⟩

/-- The texts of a list of texts are read. -/
theorem readStringsFrom_map (i : Nat) (names : List String) :
    readStringsFrom i (names.map .string) = .ok names := by
  induction names generalizing i with
  | nil => rfl
  | cons name rest ih =>
    rw [List.map_cons, readStringsFrom, ih]
    rfl

/-- A value that names no types fails itself. -/
theorem failsItself_of_readTypeNames (hnull : v ≠ .null) (h : readTypeNames v = .error e) :
    FailsItself (.value .type) v e := by
  cases v with
  | string name => cases h
  | array elements =>
    rw [readTypeNames] at h
    split at h
    · cases h
    · next e' hread =>
      cases h
      refine failsItself_of_not_hasForm .typeNames hnull ?_
      rintro (⟨name, hname⟩ | ⟨names, hnames⟩)
      · cases hname
      · cases hnames
        cases (readStringsFrom_map 0 names).symm.trans hread
  | _ =>
    cases h
    refine failsItself_of_not_hasForm .typeNames hnull ?_
    rintro (⟨name, hname⟩ | ⟨names, hnames⟩)
    · cases hname
    · cases hnames

/-- A value of a keyword that holds no schemas fails itself, or it is a list of which one element is
no text. -/
theorem fails_of_readFacet (hkeyword : keyword.holdsSchemas = false)
    (h : readFacet s keyword v = .error e) :
    FailsItself (.value keyword) v e ∨ FailsInside (.value keyword) v e := by
  cases keyword <;> simp only [readFacet, Except.bind_pure_eq_error_iff] at h
  case type =>
    obtain ⟨hnull, h⟩ := eq_error_of_optional h
    exact .inl (failsItself_of_readTypeNames hnull h)
  case required => exact fails_of_readStrings h
  case enum => exact .inl (wants_readList.failsItself rfl (eq_error_of_optional h).2)
  case const => cases h
  case ref | title | description =>
    exact .inl (wants_readString.failsItself rfl (eq_error_of_optional h).2)
  case examples => exact .inl (wants_readList.failsItself rfl h)
  case deprecated => exact .inl (wants_readBool.failsItself rfl h)
  all_goals cases hkeyword

/-! ## Keywords -/

/-- A keyword that holds no schemas only adds its value. -/
theorem readKeyword_eq_readFacet (hkeyword : keyword.holdsSchemas = false) :
    readKeyword s keyword v = readFacet s keyword v := by
  cases v <;> cases keyword <;> simp only [readKeyword]
  all_goals cases hkeyword

/-- Whether a part can be read does not depend on what is made of it. -/
theorem map_bind_pure {α : Type} (r : Reading α) (f g : α → Schema) :
    (r >>= fun a => pure (f a)).map (fun _ => ()) =
      (r >>= fun a => pure (g a)).map fun _ => () := by
  cases r with
  | error e => rfl
  | ok a => rfl

/-- Whether the value of a keyword that holds no schemas can be read does not depend on the schema
that it is added to. -/
theorem map_readFacet (s t : Schema) (keyword : Keyword) (v : Json) :
    (readFacet s keyword v).map (fun _ => ()) = (readFacet t keyword v).map fun _ => () := by
  cases keyword <;> simp only [readFacet]
  case type | required | enum | ref | title | description | examples | deprecated =>
    exact map_bind_pure _ _ _
  all_goals rfl

/-- Whether the value of a keyword can be read does not depend on the schema that it is added to. -/
theorem map_readKeyword (s t : Schema) (keyword : Keyword) (v : Json) :
    (readKeyword s keyword v).map (fun _ => ()) = (readKeyword t keyword v).map fun _ => () := by
  cases keyword
  case items =>
    cases v <;> simp only [readKeyword]
    case array elements =>
      cases readSchemas 0 elements with
      | ok cs => rfl
      | error e => cases readPositions elements.length {} 0 elements <;> rfl
    case object members => cases readMembers {} members <;> rfl
    all_goals rfl
  case additionalProperties =>
    cases v <;> simp only [readKeyword]
    case array elements => cases readPositions elements.length {} 0 elements <;> rfl
    case object members => cases readMembers {} members <;> rfl
    all_goals rfl
  case oneOf | anyOf | allOf =>
    cases v <;> simp only [readKeyword]
    case array elements => exact map_bind_pure _ _ _
    all_goals rfl
  case properties | definitions | defs =>
    cases v <;> simp only [readKeyword]
    case object members => exact map_bind_pure _ _ _
    all_goals rfl
  all_goals
    rw [readKeyword_eq_readFacet rfl, readKeyword_eq_readFacet rfl]
    exact map_readFacet s t _ v

/-- A value that cannot be read as that of a keyword cannot be so on its own. -/
theorem check_of_readKeyword (h : readKeyword s keyword v = .error e) :
    (Expected.value keyword).check v = .error e :=
  (map_readKeyword {} s keyword v).trans (Except.map_eq_error_iff.2 h)

/-- A value that is no schema says nothing of items, unless it is a list of schemas. -/
theorem not_hasForm_items (hread : read v = .error e)
    (hlist : ∀ elements cs, v = .array elements → readSchemas 0 elements ≠ .ok cs) :
    ¬ Choice.items.HasForm v := by
  rintro (⟨elements, cs, heq, hcs⟩ | ⟨c, hc⟩)
  · exact hlist elements cs heq hcs
  · cases hread.symm.trans hc

/-- A value that is no schema says nothing of other properties, unless it is a truth value. -/
theorem not_hasForm_additionalProperties (hread : read v = .error e) (hbool : ∀ b, v ≠ .bool b) :
    ¬ Choice.additionalProperties.HasForm v := by
  rintro (⟨b, hb⟩ | ⟨c, hc⟩)
  · exact hbool b hb
  · cases hread.symm.trans hc

/-- A value that says nothing of items fails itself: what is wrong inside of it depends on its form
and is not told. -/
theorem failsItself_of_items (h : readKeyword s .items v = .error e) :
    FailsItself (.value .items) v e := by
  cases v <;> simp only [readKeyword] at h
  case null => cases h
  case array elements =>
    split at h
    · cases h
    · next e' hlist =>
      split at h
      · cases h
      · next e'' hpositions =>
        cases h
        have hread : read (.array elements) = .error e'' := by rw [read, hpositions]
        refine failsItself_of_not_hasForm .items (by simp) (not_hasForm_items hread ?_)
        intro elements' cs heq hcs
        cases heq
        cases hlist.symm.trans hcs
  case object members =>
    split at h
    · cases h
    · next e' hmembers =>
      cases h
      have hread : read (.object members) = .error e' := by rw [read, hmembers]
      exact failsItself_of_not_hasForm .items (by simp) (not_hasForm_items hread (by simp))
  all_goals
    cases h
    exact failsItself_of_not_hasForm .items (by simp) (not_hasForm_items rfl (by simp))

/-- A value that says nothing of other properties fails itself. -/
theorem failsItself_of_additionalProperties
    (h : readKeyword s .additionalProperties v = .error e) :
    FailsItself (.value .additionalProperties) v e := by
  cases v <;> simp only [readKeyword] at h
  case null | bool => cases h
  case array elements =>
    split at h
    · cases h
    · next e' hpositions =>
      cases h
      have hread : read (.array elements) = .error e' := by rw [read, hpositions]
      exact failsItself_of_not_hasForm .additionalProperties (by simp)
        (not_hasForm_additionalProperties hread (by simp))
  case object members =>
    split at h
    · cases h
    · next e' hmembers =>
      cases h
      have hread : read (.object members) = .error e' := by rw [read, hmembers]
      exact failsItself_of_not_hasForm .additionalProperties (by simp)
        (not_hasForm_additionalProperties hread (by simp))
  all_goals
    cases h
    exact failsItself_of_not_hasForm .additionalProperties (by simp)
      (not_hasForm_additionalProperties rfl (by simp))

/-- Where a list of schemas cannot be read, one of its elements is no schema. -/
theorem failsInside_of_readSchemas {elements : List Json}
    (hnext : ∀ j, expected.step? (.position j) = some .schema)
    (h : readSchemas 0 elements = .error e) : FailsInside expected (.array elements) e := by
  obtain ⟨j, u, e', hu, hread, he⟩ := exists_of_elements_eq_error
    (fun _ => by rw [readSchemas]) (fun _ _ _ => by rw [readSchemas]) h
  rw [Nat.zero_add] at he
  exact failsInside_position hu (hnext j) (Except.map_eq_error_iff.2 hread) he

/-- Where the entries of a container cannot be read, one of them is no schema. -/
theorem exists_of_readEntries_eq_error {members : List (String × Json)}
    (h : readEntries members = .error e) :
    ∃ key u e', (key, u) ∈ members ∧ read u = .error e' ∧
      e = ⟨.key key :: e'.location, e'.fault⟩ := by
  induction members with
  | nil =>
    rw [readEntries] at h
    cases h
  | cons m rest ih =>
    obtain ⟨key, v⟩ := m
    rw [readEntries] at h
    rcases Except.bind_eq_error_iff.1 h with h | ⟨c, -, h⟩
    · obtain ⟨e', hv, he⟩ := within_eq_error_iff.1 h
      exact ⟨key, v, e', .head _, hv, he⟩
    · obtain ⟨k, u, e', hu, hread, he⟩ := ih (Except.bind_pure_eq_error_iff.1 h)
      exact ⟨k, u, e', .tail _ hu, hread, he⟩

/-- A value that cannot be read as that of a keyword fails itself or inside. -/
theorem fails_of_readKeyword (hv : v.KeysDistinct) (h : readKeyword s keyword v = .error e) :
    FailsItself (.value keyword) v e ∨ FailsInside (.value keyword) v e := by
  cases keyword
  case items => exact .inl (failsItself_of_items h)
  case additionalProperties => exact .inl (failsItself_of_additionalProperties h)
  case oneOf | anyOf | allOf =>
    cases v <;> simp only [readKeyword] at h
    case null => cases h
    case array elements =>
      exact .inr (failsInside_of_readSchemas (fun _ => rfl) (Except.bind_pure_eq_error_iff.1 h))
    all_goals
      cases h
      exact .inl ⟨rfl, .wrongKind rfl rfl⟩
  case properties | definitions | defs =>
    cases v <;> simp only [readKeyword] at h
    case null => cases h
    case object members =>
      obtain ⟨key, u, e', hu, hread, he⟩ :=
        exists_of_readEntries_eq_error (Except.bind_pure_eq_error_iff.1 h)
      exact .inr (failsInside_key hv hu rfl (Except.map_eq_error_iff.2 hread) he)
    all_goals
      cases h
      exact .inl ⟨rfl, .wrongKind rfl rfl⟩
  all_goals
    rw [readKeyword_eq_readFacet rfl] at h
    exact fails_of_readFacet rfl h

/-! ## Schemas -/

/-- Where the members of an object cannot be read, the value of one of their keywords cannot be. -/
theorem exists_of_readMembers_eq_error {members : List (String × Json)}
    (h : readMembers s members = .error e) :
    ∃ key u keyword e', (key, u) ∈ members ∧ Keyword.ofText? key = some keyword ∧
      (Expected.value keyword).check u = .error e' ∧
        e = ⟨.key key :: e'.location, e'.fault⟩ := by
  induction members generalizing s with
  | nil =>
    rw [readMembers] at h
    cases h
  | cons m rest ih =>
    obtain ⟨key, v⟩ := m
    rw [readMembers] at h
    split at h
    · obtain ⟨k, u, keyword, e', hu, hrest⟩ := ih h
      exact ⟨k, u, keyword, e', .tail _ hu, hrest⟩
    · next keyword hkeyword =>
      rcases Except.bind_eq_error_iff.1 h with h | ⟨s', -, h⟩
      · obtain ⟨e', hv, he⟩ := within_eq_error_iff.1 h
        exact ⟨key, v, keyword, e', .head _, hkeyword, check_of_readKeyword hv, he⟩
      · obtain ⟨k, u, keyword, e', hu, hrest⟩ := ih h
        exact ⟨k, u, keyword, e', .tail _ hu, hrest⟩

/-- A list that ends too early lacks a keyword that may not be missing. -/
theorem exists_of_finishPositions_eq_error {i : Nat} (h : finishPositions s i = .error e) :
    ∃ j keyword, i ≤ j ∧ Keyword.all[j]? = some keyword ∧ keyword.mayBeMissing = false ∧
      e = ⟨[], .tooShort j⟩ := by
  rw [finishPositions] at h
  split at h
  · next j hj =>
    cases h
    obtain ⟨hlt, hmissing, -⟩ := List.findIdx?_eq_some_iff_getElem.1 hj
    refine ⟨i + j, _, Nat.le_add_right i j, ?_, Bool.not_eq_eq_eq_not.1 hmissing, rfl⟩
    rw [← List.getElem?_drop]
    exact List.getElem?_eq_getElem hlt
  · cases h

/-- Where the elements of a list cannot be read by position, there are too few or too many of them,
or the value of one of their keywords cannot be read. -/
theorem fails_of_readPositions {length i : Nat} {elements : List Json}
    (h : readPositions length s i elements = .error e) :
    (∃ j keyword, i + elements.length ≤ j ∧ Keyword.all[j]? = some keyword ∧
      keyword.mayBeMissing = false ∧ e = ⟨[], .tooShort j⟩) ∨
    (Keyword.all.length < i + elements.length ∧ e = ⟨[], .tooLong length⟩) ∨
    ∃ j u keyword e', elements[j]? = some u ∧ Keyword.all[i + j]? = some keyword ∧
      (Expected.value keyword).check u = .error e' ∧
        e = ⟨.position (i + j) :: e'.location, e'.fault⟩ := by
  induction elements generalizing s i with
  | nil =>
    rw [readPositions] at h
    exact .inl (exists_of_finishPositions_eq_error h)
  | cons v rest ih =>
    rw [readPositions] at h
    have hshift (j : Nat) : i + 1 + j = i + (j + 1) := by omega
    split at h
    · next hnone =>
      cases h
      have hlength := List.getElem?_eq_none_iff.1 hnone
      exact .inr (.inl ⟨Nat.lt_of_le_of_lt hlength (Nat.lt_add_of_pos_right (Nat.succ_pos _)), rfl⟩)
    · next keyword hkeyword =>
      rcases Except.bind_eq_error_iff.1 h with h | ⟨s', -, h⟩
      · obtain ⟨e', hv, he⟩ := within_eq_error_iff.1 h
        exact .inr (.inr ⟨0, v, keyword, e', rfl, hkeyword, check_of_readKeyword hv, he⟩)
      · rw [List.length_cons, ← hshift]
        rcases ih h with hshort | hlong | ⟨j, u, keyword, e', hu, hkeyword, hcheck, he⟩
        · exact .inl hshort
        · exact .inr (.inl hlong)
        · rw [hshift] at hkeyword he
          exact .inr (.inr ⟨j + 1, u, keyword, e', hu, hkeyword, hcheck, he⟩)

/-- A value that is no schema fails itself or inside. -/
theorem fails_of_read (hv : v.KeysDistinct) (h : read v = .error e) :
    FailsItself .schema v e ∨ FailsInside .schema v e := by
  cases v with
  | object members =>
    rw [read] at h
    obtain ⟨key, u, keyword, e', hu, hkeyword, hcheck, he⟩ := exists_of_readMembers_eq_error h
    exact .inr (failsInside_key hv hu (congrArg (Option.map _) hkeyword) hcheck he)
  | array elements =>
    rw [read] at h
    have hcases := fails_of_readPositions h
    simp only [Nat.zero_add] at hcases
    rcases hcases with ⟨j, keyword, hlength, hkeyword, hmissing, rfl⟩ | ⟨hlength, rfl⟩ |
      ⟨j, u, keyword, e', hu, hkeyword, hcheck, he⟩
    · exact .inl ⟨rfl, .tooShort hlength hkeyword hmissing⟩
    · exact .inl ⟨rfl, .tooLong hlength⟩
    · exact .inr (failsInside_position hu (congrArg (Option.map _) hkeyword) hcheck he)
  | _ =>
    cases h
    exact .inl ⟨rfl, .wrongKind rfl rfl⟩

/-! ## Locations -/

/-- A value that is not what is expected of it fails itself or inside. -/
theorem fails_of_check (hv : v.KeysDistinct) (h : expected.check v = .error e) :
    FailsItself expected v e ∨ FailsInside expected v e := by
  cases expected with
  | schema => exact fails_of_read hv (Except.map_eq_error_iff.1 h)
  | value keyword => exact fails_of_readKeyword hv (Except.map_eq_error_iff.1 h)
  | text => exact .inl (wants_readString.failsItself rfl (Except.map_eq_error_iff.1 h))

/-- The location of a fault leads to a value that is not what is expected there, as it shows when
that value is read on its own, and the fault tells what is wrong with it. -/
theorem exists_at?_of_check_eq_error (hv : v.KeysDistinct) (h : expected.check v = .error e) :
    ∃ w last, v.at? e.location = some w ∧ expected.follow? e.location = some last ∧
      last.check w = .error ⟨[], e.fault⟩ ∧ e.fault.Tells last w := by
  obtain ⟨location, fault⟩ := e
  induction location generalizing expected v with
  | nil =>
    rcases fails_of_check hv h with ⟨-, htells⟩ | ⟨step, next, u, e', -, -, -, he⟩
    · exact ⟨v, expected, rfl, rfl, h, htells⟩
    · cases he
  | cons step rest ih =>
    rcases fails_of_check hv h with ⟨hnil, -⟩ | ⟨first, next, u, e', hnext, hu, hcheck, he⟩
    · cases hnil
    · cases he
      have hdistinct : u.KeysDistinct := (Json.part_of_at? hu).keysDistinct hv
      obtain ⟨w, last, hw, hlast, hfails⟩ := ih hdistinct hcheck
      refine ⟨w, last, ?_, ?_, hfails⟩
      · rw [Json.at?_cons, hu]
        exact hw
      · rw [Expected.follow?, hnext]
        exact hlast

/-- Where a value is no schema, the path of the error renders a location in it, and the value there,
read on its own as what is expected at this place, fails as a whole and with the same fault, which
tells what is wrong with it. -/
theorem exists_at?_of_read_eq_error (hv : v.KeysDistinct) (h : read v = .error e) :
    ∃ w expected, JsonStep.Renders e.location e.path ∧ v.at? e.location = some w ∧
      Expected.schema.follow? e.location = some expected ∧
        expected.check w = .error ⟨[], e.fault⟩ ∧ e.fault.Tells expected w := by
  have hcheck : Expected.schema.check v = .error e := Except.map_eq_error_iff.2 h
  obtain ⟨w, expected, hw, hexpected, hfails⟩ := exists_at?_of_check_eq_error hv hcheck
  exact ⟨w, expected, JsonStep.renders_location e.location, hw, hexpected, hfails⟩

/-- A value with a truth value among the names of required properties, inside of a schema that is
written as a list. -/
def misnamed : Json :=
  .object [("title", .string "T"), ("definitions", .object [("a", .array [.null,
    .object [("x.y", .object [("oneOf", .array [.object [],
      .object [("required", .array [.string "k", .bool true])]])])]])])]

/-- The truth value is what that value is no schema for, and where it is told to be. -/
theorem at?_misnamed :
    misnamed.KeysDistinct ∧ ∃ e, read misnamed = .error e ∧
      e.path = "definitions.a[1].x.y.oneOf[1].required[1]" ∧
      misnamed.at? e.location = some (.bool true) ∧
      Expected.schema.follow? e.location = some .text ∧
      Expected.text.check (.bool true) = .error ⟨[], e.fault⟩ ∧
      e.fault.Tells .text (.bool true) := by
  have hdistinct : misnamed.KeysDistinct := by
    simp [misnamed, Json.KeysDistinct, Json.MembersDistinct, Json.ElementsDistinct]
  obtain ⟨e, he⟩ : ∃ e : InvalidSchema, e = ⟨[.key "definitions", .key "a", .position 1, .key "x.y",
    .key "oneOf", .position 1, .key "required", .position 1], .wrongKind (.bool true) .string⟩ :=
    ⟨_, rfl⟩
  have hread : read misnamed = .error e := by
    rw [he]
    rfl
  obtain ⟨w, expected, -, hw, hexpected, hfails⟩ := exists_at?_of_read_eq_error hdistinct hread
  have hvalue : misnamed.at? e.location = some (.bool true) := by
    rw [he]
    rfl
  have htext : Expected.schema.follow? e.location = some .text := by
    rw [he]
    rfl
  cases hvalue.symm.trans hw
  cases htext.symm.trans hexpected
  refine ⟨hdistinct, e, hread, ?_, hw, hexpected, hfails⟩
  rw [he]
  decide

end Schema
end SchemaTypes
