import SchemaTypes.Proofs.TypeExpr.Phrases

/-!
# Types without a text

A type is written as nothing if it is the union or the intersection of nothing, or of a single type
that is written as nothing. In most types nothing would be seen of that: an element that is blank
leaves `[]`. So what is looked for are blank types anywhere in a type (`TypeExpr.HasBlank`), which
can be told from the types it is made of.
-/

namespace SchemaTypes

/-! ## Literals -/

/-- A number is written as something. -/
theorem Number.text_ne_empty (n : Number) : n.text ≠ "" := by
  have hdigits (m : Nat) : toString m ≠ "" := by
    intro hempty
    exact absurd (congrArg String.toList hempty) (by simp)
  cases n with
  | integer n =>
    obtain ⟨value, hrange⟩ := n
    cases value with
    | ofNat m => exact hdigits m
    | negSucc m =>
      intro hempty
      have hlist := congrArg String.toList hempty
      have hsign : (Number.integer ⟨Int.negSucc m, hrange⟩).text.toList =
          '-' :: (toString (m + 1)).toList :=
        String.toList_append
      rw [hsign] at hlist
      cases hlist
  | float x =>
    intro hempty
    have hlist := congrArg String.toList hempty
    have hpositional (d : Decimal) : FloatFormat.positional d ≠ [] := by
      rw [FloatFormat.positional]
      split <;> simp
    have hscientific (plus : Bool) (d : Decimal) : FloatFormat.scientific plus d ≠ [] := by
      simp [FloatFormat.scientific]
    rw [text, FloatFormat.text] at hlist
    split at hlist
    · simp at hlist
    · rw [String.toList_ofList] at hlist
      have hbehind := (List.append_eq_nil_iff.1 hlist).2
      split at hbehind
      · exact hpositional _ hbehind
      · exact hscientific _ _ hbehind

/-- A value is written as something. -/
theorem Json.compact_ne_empty (v : Json) : v.compact ≠ "" := by
  cases v with
  | null => decide
  | bool b => cases b <;> decide
  | number n => exact n.text_ne_empty
  | string s =>
    intro hempty
    have hlist := congrArg String.toList hempty
    rw [compact, Nesting.toList_quote] at hlist
    cases hlist
  | array elements | object members =>
    intro hempty
    have hlist := congrArg String.toList hempty
    rw [compact, String.toList_append, String.toList_append] at hlist
    cases hlist

namespace TypeExpr

variable {t u v : TypeExpr} {ts : List TypeExpr} {name : String}

/-! ## Parts of types -/

/-- The types that a type is made of. -/
def components : TypeExpr → List TypeExpr
  | .union members | .intersection members => members
  | .array element => [element]
  | .tuple elements => elements
  | .object properties others => properties.map (·.type) ++ others.toList
  | .shaped shape other => [shape, other]
  | .named _ | .basic _ | .record | .literal _ => []

/-- A type is a part of another: it is the same, or a part of a type that the other is made of. -/
inductive Within (u : TypeExpr) : TypeExpr → Prop where
  | self : Within u u
  | component {t v : TypeExpr} : v ∈ t.components → Within u v → Within u t

/-- A type that is written as nothing is a part of a type. -/
def HasBlank (t : TypeExpr) : Prop :=
  ∃ u, Within u t ∧ u.text = ""

/-- Unless a type is written with a mark, it is written as any type that it is made of. -/
theorem text_eq_of_mem_components (hv : v ∈ t.components)
    (hplain : ∀ c ∈ Nesting.marks, c ∉ t.text.toList) : t.text = v.text := by
  cases t with
  | named | basic | record | literal => cases hv
  | union members =>
    rcases members with _ | ⟨x, _ | ⟨y, rest⟩⟩
    · cases hv
    · cases List.mem_singleton.1 hv
      exact String.intercalate_singleton
    · refine absurd ?_ (hplain '|' (by decide))
      rw [text, texts, texts, String.intercalate_cons_cons]
      simp [bar]
  | intersection members =>
    rcases members with _ | ⟨x, _ | ⟨y, rest⟩⟩
    · cases hv
    · -- An intersection of one type is written as a part of a larger one would be.
      cases List.mem_singleton.1 hv
      have hone : (TypeExpr.intersection [v]).text = group v.text := String.intercalate_singleton
      rw [hone] at hplain ⊢
      by_cases hcompound : isCompound v.text = true
      · refine absurd ?_ (hplain '(' (by decide))
        simp [group, hcompound]
      · simp [group, hcompound]
    · refine absurd ?_ (hplain '&' (by decide))
      rw [text, texts, texts, List.map_cons, List.map_cons, String.intercalate_cons_cons]
      simp [ampersand]
  | array element => exact absurd (by simp [text]) (hplain '[' (by decide))
  | tuple elements => exact absurd (by simp [text]) (hplain '[' (by decide))
  | object properties others =>
    refine absurd ?_ (hplain '\x7b' (by decide))
    cases others <;> rw [text, objectBody] <;> split <;> simp
  | shaped shape other => exact absurd (by simp [text, ampersand]) (hplain '&' (by decide))

/-- A type has a blank part if it is blank and made of no others, or if one of the types that it is
made of has a blank part. -/
theorem hasBlank_iff :
    HasBlank t ↔ (t.components = [] ∧ t.text = "") ∨ ∃ v ∈ t.components, HasBlank v := by
  constructor
  · rintro ⟨u, hu, hempty⟩
    cases hu with
    | self =>
      cases hcomponents : t.components with
      | nil => exact .inl ⟨rfl, hempty⟩
      | cons v rest =>
        have hv : v ∈ t.components := hcomponents ▸ .head _
        have htext := text_eq_of_mem_components hv (by simp [hempty])
        exact .inr ⟨v, .head _, v, .self, htext ▸ hempty⟩
    | component hv hu => exact .inr ⟨_, hv, u, hu, hempty⟩
  · rintro (⟨-, hempty⟩ | ⟨v, hv, u, hu, hempty⟩)
    · exact ⟨t, .self, hempty⟩
    · exact ⟨u, .component hv hu, hempty⟩

/-- A type of which a part is blank is not written as the unknown type. -/
theorem HasBlank.text_ne (h : HasBlank t) : t.text ≠ BasicType.unknown.text := by
  obtain ⟨u, hu, hempty⟩ := h
  induction hu with
  | self =>
    rw [hempty]
    decide
  | @component t v hv _ ih =>
    intro hunknown
    have hplain : ∀ c ∈ Nesting.marks, c ∉ BasicType.unknown.text.toList := by
      simp [Nesting.marks, BasicType.text]
    rw [← hunknown] at hplain
    exact ih (text_eq_of_mem_components hv hplain ▸ hunknown)

/-! ## Blank parts of each kind of type -/

@[simp] theorem hasBlank_named : HasBlank (.named name) ↔ name = "" := by
  rw [hasBlank_iff]
  simp [components, text]

@[simp] theorem not_hasBlank_basic (t : BasicType) : ¬HasBlank (.basic t) := by
  rw [hasBlank_iff]
  cases t <;> simp [components, text, BasicType.text]

@[simp] theorem not_hasBlank_record : ¬HasBlank .record := by
  rw [hasBlank_iff]
  simp [components, text]

@[simp] theorem not_hasBlank_literal (v : Json) : ¬HasBlank (.literal v) := by
  rw [hasBlank_iff]
  simp [components, text, v.compact_ne_empty]

@[simp] theorem hasBlank_union : HasBlank (.union ts) ↔ ts = [] ∨ ∃ t ∈ ts, HasBlank t := by
  rw [hasBlank_iff, components, and_iff_left_of_imp]
  rintro rfl
  rfl

@[simp] theorem hasBlank_intersection :
    HasBlank (.intersection ts) ↔ ts = [] ∨ ∃ t ∈ ts, HasBlank t := by
  rw [hasBlank_iff, components, and_iff_left_of_imp]
  rintro rfl
  rfl

@[simp] theorem hasBlank_array : HasBlank (.array t) ↔ HasBlank t := by
  rw [hasBlank_iff]
  simp [components]

@[simp] theorem hasBlank_tuple : HasBlank (.tuple ts) ↔ ∃ t ∈ ts, HasBlank t := by
  rw [hasBlank_iff]
  simp [components, text]

@[simp] theorem hasBlank_object {properties : List (PropertyType TypeExpr)}
    {others : Option TypeExpr} : HasBlank (.object properties others) ↔
      (∃ p ∈ properties, HasBlank p.type) ∨ ∃ t, others = some t ∧ HasBlank t := by
  have hne : (TypeExpr.object properties others).text ≠ "" := by
    cases others <;> rw [text, objectBody] <;> split <;> simp
  rw [hasBlank_iff]
  simp [components, hne, or_and_right, exists_or]

@[simp] theorem hasBlank_shaped {shape other : TypeExpr} :
    HasBlank (.shaped shape other) ↔ HasBlank shape ∨ HasBlank other := by
  rw [hasBlank_iff]
  simp [components]

end TypeExpr
end SchemaTypes
