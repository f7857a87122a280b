import SchemaTypes.Proofs.Identifier.Names
import SchemaTypes.Proofs.TypeExpr.Literals
import SchemaTypes.Proofs.TypeExpr.Operands

/-!
# The texts of types are phrases

If all names in a type are names, its text is put together of operands, and there are two or more of
them if and only if the type joins others at its outermost level (`TypeExpr.Formed`). The proof goes
down in the type: a member of a list stands beside joins, an element of a tuple in brackets, and a
property in a line.
-/

namespace SchemaTypes

namespace Nesting

variable {text : String}

/-- A text without strings, brackets and lines. -/
theorem Phrase.word (h : text.toList.all isWordChar = true) : Phrase false text.toList :=
  .of_forall (List.all_eq_true.1 h) fun h => absurd h Bool.false_ne_true

/-- Texts with a separator between them. -/
theorem Phrase.intercalate {separator : List Char} {texts : List (List Char)}
    (hseparator : Phrase false separator) (h : ∀ cs ∈ texts, Phrase false cs) :
    Phrase false (separator.intercalate texts) := by
  induction texts with
  | nil => exact nil
  | cons cs texts ih =>
    obtain ⟨hcs, htexts⟩ := List.forall_mem_cons.1 h
    cases texts with
    | nil => simpa [List.intercalate] using hcs
    | cons ds texts =>
      rw [List.intercalate_cons_cons]
      exact (hcs.append hseparator).append (ih htexts)

end Nesting

namespace TypeExpr

open Nesting

variable {t : TypeExpr} {ts : List TypeExpr} {text : String}

/-- Whether a type joins two types or more at its outermost level. A union of one type is that type,
and an intersection of one is that type in parentheses, if it needs them. -/
def isJoin : TypeExpr → Bool
  | .union [member] => member.isJoin
  | .union (_ :: _ :: _) => true
  | .intersection (_ :: _ :: _) => true
  | .shaped _ _ => true
  | _ => false

/-- All names in a type are names. -/
inductive WellNamed : TypeExpr → Prop where
  | named {name : String} : Identifier.IsName name → WellNamed (.named name)
  | basic (t : BasicType) : WellNamed (.basic t)
  | record : WellNamed .record
  | literal (v : Json) : WellNamed (.literal v)
  | union {members : List TypeExpr} : (∀ t ∈ members, WellNamed t) → WellNamed (.union members)
  | intersection {members : List TypeExpr} :
    (∀ t ∈ members, WellNamed t) → WellNamed (.intersection members)
  | array {element : TypeExpr} : WellNamed element → WellNamed (.array element)
  | tuple {elements : List TypeExpr} : (∀ t ∈ elements, WellNamed t) → WellNamed (.tuple elements)
  | object {properties : List (PropertyType TypeExpr)} {others : Option TypeExpr} :
    (∀ p ∈ properties, WellNamed p.type) → (∀ t, others = some t → WellNamed t) →
      WellNamed (.object properties others)
  | shaped {shape other : TypeExpr} : WellNamed shape → WellNamed other →
      WellNamed (.shaped shape other)

/-- The text of a type is put together of operands, and there are two or more of them if and only if
the type joins others. -/
def Formed (t : TypeExpr) : Prop :=
  ∃ ps, Joined ps t.text.toList ∧ (t.isJoin = true ↔ 1 < ps.length)

namespace Formed

/-- A type that joins nothing is written as an operand. -/
theorem of_operand (h : Phrase true t.text.toList) (hjoin : t.isJoin = false) : Formed t :=
  ⟨_, .one h, by simp [hjoin]⟩

/-- The text of a type is a phrase. -/
theorem phrase (h : Formed t) : Phrase false t.text.toList := by
  obtain ⟨ps, hps, -⟩ := h
  exact hps.phrase

/-- The text shows whether the type joins others. -/
theorem isCompound_eq (h : Formed t) : isCompound t.text = t.isJoin := by
  obtain ⟨ps, hps, hjoin⟩ := h
  exact Bool.eq_iff_iff.2 (hps.isCompound_iff.trans hjoin.symm)

/-- The text of a type as a part of a larger one is an operand. -/
theorem group (h : Formed t) : Phrase true (TypeExpr.group t.text).toList := by
  rw [TypeExpr.group, h.isCompound_eq]
  split
  · rw [String.toList_append, String.toList_append]
    exact h.phrase.enclose (c := '(') rfl fun _ => by decide
  · next hnot =>
    obtain ⟨ps, hps, hjoin⟩ := h
    have hpos := hps.length_pos
    exact hps.operand_of_length (by rw [hjoin] at hnot; omega)

end Formed

/-! ## Lists and lines -/

/-- The texts of a list. -/
theorem texts_eq_map (ts : List TypeExpr) : texts ts = ts.map TypeExpr.text := by
  induction ts with
  | nil => rfl
  | cons t ts ih => rw [texts, ih, List.map_cons]

/-- The lines of properties. -/
theorem propertyLines_eq_map (properties : List (PropertyType TypeExpr)) :
    propertyLines properties =
      properties.map fun p => propertyLine p.key p.isOptional p.type.text := by
  induction properties with
  | nil => rfl
  | cons p rest ih => rw [propertyLines, ih, List.map_cons]

/-- A property key starts with something to be seen. -/
theorem exists_propertyKey_eq (key : String) :
    ∃ c rest, (Identifier.propertyKey key).toList = c :: rest ∧
      (Identifier.isKeyStart c = true ∨ c = '"') := by
  rw [Identifier.propertyKey]
  split
  · next hbare =>
    obtain ⟨c, rest, heq, hc, -⟩ := Identifier.isBareKey_iff.1 hbare
    exact ⟨c, rest, heq, .inl hc⟩
  · exact ⟨'"', _, toList_quote key, .inr rfl⟩

/-- The line of a property. -/
theorem line_propertyLine (key : String) (isOptional : Bool) (h : Phrase false text.toList) :
    Line (propertyLine key isOptional text).toList := by
  have hlist : (propertyLine key isOptional text).toList =
      (Identifier.propertyKey key).toList ++ (if isOptional then "?" else "").toList ++
        ": ".toList ++ text.toList ++ ";".toList := by
    simp only [propertyLine, String.toList_append]
  obtain ⟨c, rest, hkey, hc⟩ := exists_propertyKey_eq key
  constructor
  · have hmark : Phrase false (if isOptional then "?" else "").toList := by
      split
      · exact .word (by decide)
      · exact .nil
    rw [hlist]
    exact ((((Identifier.flat_propertyKey key).phrase.mono.append hmark).append
      (.word (by decide))).append h).append (.word (by decide))
  · refine ⟨c, _, by rw [hlist, hkey]; rfl, ?_⟩
    have hne : Identifier.isKeyStart ' ' = false ∧ Identifier.isKeyStart '\n' = false ∧
        Identifier.isKeyStart '\x7d' = false := by
      decide
    refine ⟨?_, ?_, ?_⟩ <;> rintro rfl <;> simp [hne] at hc

/-- The line for all other properties. -/
theorem line_othersLine (h : Phrase false text.toList) : Line (othersLine text).toList := by
  have hlist : (othersLine text).toList =
      '[' :: "key: string".toList ++ [']'] ++ ": ".toList ++ text.toList ++ ";".toList := by
    simp [othersLine]
  constructor
  · have hkey : Phrase false ('[' :: "key: string".toList ++ [']']) :=
      ((Phrase.word (by decide)).enclose (c := '[') rfl fun _ => by decide).mono
    rw [hlist]
    exact ((hkey.append (.word (by decide))).append h).append (.word (by decide))
  · exact ⟨'[', _, by rw [hlist]; rfl, by decide, by decide, by decide⟩

/-! ## Types -/

/-- Texts that are phrases with a separator between them. -/
theorem phrase_intercalate {separator : String} {texts : List String}
    (hseparator : separator.toList.all isWordChar = true)
    (h : ∀ text ∈ texts, Phrase false text.toList) :
    Phrase false (separator.intercalate texts).toList := by
  rw [String.toList_intercalate]
  exact (Phrase.word hseparator).intercalate (by simpa using h)

/-- Two texts of operands or more with a join between any two. -/
theorem exists_joined_intercalate {separator : String} {c : Char} {texts : List String}
    (hc : c = '|' ∨ c = '&') (hseparator : separator.toList = [' ', c, ' '])
    (htexts : 1 < texts.length) (h : ∀ text ∈ texts, ∃ ps, Joined ps text.toList) :
    ∃ ps, Joined ps (separator.intercalate texts).toList ∧ 1 < ps.length := by
  have hne : texts.map String.toList ≠ [] := by
    rintro hnil
    rw [List.map_eq_nil_iff.1 hnil] at htexts
    exact absurd htexts (by decide)
  obtain ⟨ps, hps, hlength⟩ := Joined.exists_intercalate hc hne (by simpa using h)
  rw [List.length_map] at hlength
  rw [String.toList_intercalate, hseparator]
  exact ⟨ps, hps, htexts.trans_le hlength⟩

namespace Formed

/-- The union of types. -/
theorem union (h : ∀ t ∈ ts, Formed t) : Formed (.union ts) := by
  have htext : (TypeExpr.union ts).text = bar.intercalate (ts.map TypeExpr.text) := by
    rw [TypeExpr.text, texts_eq_map]
  have hmembers : ∀ text ∈ ts.map TypeExpr.text, ∃ ps, Joined ps text.toList :=
    List.forall_mem_map.2 fun t ht => (h t ht).imp fun _ => And.left
  rcases ts with _ | ⟨t, _ | ⟨u, rest⟩⟩
  · exact of_operand .nil rfl
  · -- A union of one type is written as that type.
    have hone : (TypeExpr.union [t]).text = t.text := htext.trans String.intercalate_singleton
    rw [Formed, hone, isJoin]
    exact h t (.head _)
  · have hseparator : bar.toList = [' ', '|', ' '] := rfl
    obtain ⟨ps, hps, hlength⟩ :=
      exists_joined_intercalate (.inl rfl) hseparator (by simp) hmembers
    exact ⟨ps, htext ▸ hps, iff_of_true rfl hlength⟩

/-- The intersection of types. -/
theorem intersection (h : ∀ t ∈ ts, Formed t) : Formed (.intersection ts) := by
  have htext : (TypeExpr.intersection ts).text =
      ampersand.intercalate (ts.map fun t => TypeExpr.group t.text) := by
    rw [TypeExpr.text, texts_eq_map, List.map_map]
    rfl
  have hmembers : ∀ text ∈ ts.map fun t => TypeExpr.group t.text, ∃ ps, Joined ps text.toList :=
    List.forall_mem_map.2 fun t ht => ⟨_, .one (h t ht).group⟩
  rcases ts with _ | ⟨t, _ | ⟨u, rest⟩⟩
  · exact of_operand .nil rfl
  · -- An intersection of one type is written as a part of a larger one would be.
    have hone : (TypeExpr.intersection [t]).text = TypeExpr.group t.text :=
      htext.trans String.intercalate_singleton
    exact of_operand (by rw [hone]; exact (h t (.head _)).group) rfl
  · have hseparator : ampersand.toList = [' ', '&', ' '] := rfl
    obtain ⟨ps, hps, hlength⟩ :=
      exists_joined_intercalate (.inr rfl) hseparator (by simp) hmembers
    exact ⟨ps, htext ▸ hps, iff_of_true rfl hlength⟩

/-- The list of a type. -/
theorem array (h : Formed t) : Formed (.array t) := by
  have hsuffix : Flat ['[', ']'] := Flat.nil.enclose (c := '[') rfl
  refine of_operand ?_ rfl
  rw [TypeExpr.text, String.toList_append]
  exact h.group.append hsuffix.phrase

/-- The tuple of types. -/
theorem tuple (h : ∀ t ∈ ts, Formed t) : Formed (.tuple ts) := by
  have helements : Phrase false (", ".intercalate (texts ts)).toList := by
    rw [texts_eq_map]
    exact phrase_intercalate (by decide) (by simpa using fun t ht => (h t ht).phrase)
  refine of_operand ?_ rfl
  rw [TypeExpr.text, String.toList_append, String.toList_append]
  exact helements.enclose (c := '[') rfl fun _ => by decide

/-- The object of types is written as a body of lines. -/
theorem exists_lines {properties : List (PropertyType TypeExpr)} {others : Option TypeExpr}
    (h : ∀ p ∈ properties, Formed p.type) (hothers : ∀ t, others = some t → Formed t) :
    ∃ lines, (TypeExpr.object properties others).text = objectBody lines ∧
      ∀ line ∈ lines, Line line.toList := by
  have hlines : ∀ line ∈ propertyLines properties, Line line.toList := by
    rw [propertyLines_eq_map]
    simpa using fun p hp => line_propertyLine p.key p.isOptional (h p hp).phrase
  cases others with
  | none => exact ⟨_, rfl, hlines⟩
  | some t =>
    have hlast : ∀ line ∈ [othersLine t.text], Line line.toList :=
      List.forall_mem_singleton.2 (line_othersLine (hothers t rfl).phrase)
    exact ⟨_, rfl, List.forall_mem_append.2 ⟨hlines, hlast⟩⟩

/-- The object of types. -/
theorem object {properties : List (PropertyType TypeExpr)} {others : Option TypeExpr}
    (h : ∀ p ∈ properties, Formed p.type) (hothers : ∀ t, others = some t → Formed t) :
    Formed (.object properties others) := by
  obtain ⟨lines, htext, hlines⟩ := exists_lines h hothers
  exact of_operand (htext ▸ .body hlines) rfl

/-- An object that also has another type. -/
theorem shaped {shape other : TypeExpr} (h : Formed shape) (hother : Formed other) :
    Formed (.shaped shape other) := by
  obtain ⟨ps, hps, -⟩ := h
  have htext : (TypeExpr.shaped shape other).text.toList =
      shape.text.toList ++ ' ' :: '&' :: ' ' :: (TypeExpr.group other.text).toList := by
    rw [TypeExpr.text, String.toList_append, String.toList_append, List.append_assoc]
    rfl
  refine ⟨_, htext ▸ hps.append (.inr rfl) (.one hother.group), iff_of_true rfl ?_⟩
  rw [List.length_append]
  exact Nat.lt_add_of_pos_left hps.length_pos

end Formed

/-- The text of a type whose names are names is a phrase. -/
theorem WellNamed.formed (h : WellNamed t) : Formed t := by
  induction h with
  | @named name hname =>
    have hmarks : ∀ c ∈ marks, Identifier.isNameChar c = false := by
      simp [marks, Identifier.isNameChar, Char.isAlphanum, Char.isAlpha, Char.isUpper, Char.isLower,
        Char.isDigit]
    exact .of_operand (.of_test hname.chars hmarks) rfl
  | basic t =>
    refine .of_operand (Flat.word ?_).phrase rfl
    cases t <;> simp [TypeExpr.text, BasicType.text, Char.isAlpha, Char.isUpper, Char.isLower]
  | record =>
    have hname : Flat "Record".toList :=
      .word (by simp [Char.isAlpha, Char.isUpper, Char.isLower])
    have hbrackets : Phrase true ('<' :: "string, unknown".toList ++ ['>']) :=
      (Phrase.word (by decide)).enclose (c := '<') rfl fun _ => by decide
    exact .of_operand (hname.phrase.append hbrackets) rfl
  | literal v => exact .of_operand v.flat_compact.phrase rfl
  | union _ ih => exact .union ih
  | intersection _ ih => exact .intersection ih
  | array _ ih => exact .array ih
  | tuple _ ih => exact .tuple ih
  | object _ _ ih ihothers => exact .object ih ihothers
  | shaped _ _ ih ihother => exact .shaped ih ihother

end TypeExpr

end SchemaTypes
