import SchemaTypes.Proofs.Pointer.Segments

/-!
# How pointers are written

The steps of a pointer are those that it was joined from, so different steps from the whole document
lead to different pointers (`Pointer.descend_root_injective`). Not every pointer is written as its
steps are: one is if and only if each tilde in it starts an escape
(`Pointer.descend_root_segments_iff`), since a tilde that starts none stands for itself and would be
written with one.
-/

namespace SchemaTypes

/-! ## Tildes -/

namespace Step

variable {c : Char} {cs ds : List Char} {css : List (List Char)}

/-- Every tilde of a text starts an escape: a zero or a one stands right behind it. -/
def TildesEscaped (cs : List Char) : Prop :=
  ∀ before after, cs = before ++ '~' :: after → after.head? = some '0' ∨ after.head? = some '1'

/-- In an empty text there is no tilde. -/
theorem tildesEscaped_nil : TildesEscaped [] := by
  intro before after h
  simp at h

/-- A character in front is a tilde that starts an escape, or no tilde. -/
theorem tildesEscaped_cons_iff : TildesEscaped (c :: cs) ↔
    (c = '~' → cs.head? = some '0' ∨ cs.head? = some '1') ∧ TildesEscaped cs := by
  constructor
  · intro h
    refine ⟨fun hc => h [] cs (by rw [hc, List.nil_append]), ?_⟩
    intro before after hcs
    exact h (c :: before) after (by rw [hcs, List.cons_append])
  · rintro ⟨hc, hcs⟩ before after h
    rcases List.cons_eq_append_iff.1 h with ⟨-, hafter⟩ | ⟨rest, -, hrest⟩
    · obtain ⟨rfl, rfl⟩ := List.cons.inj hafter
      exact hc rfl
    · exact hcs rest after hrest

/-- A tilde in front of a text that starts with neither digit starts no escape. -/
theorem tildesEscaped_append_iff (hzero : ds.head? ≠ some '0') (hone : ds.head? ≠ some '1') :
    TildesEscaped (cs ++ ds) ↔ TildesEscaped cs ∧ TildesEscaped ds := by
  induction cs with
  | nil => rw [List.nil_append, and_iff_right tildesEscaped_nil]
  | cons c rest ih =>
    have hhead : ((rest ++ ds).head? = some '0' ∨ (rest ++ ds).head? = some '1') ↔
        rest.head? = some '0' ∨ rest.head? = some '1' := by
      cases rest with
      | nil => simp [hzero, hone]
      | cons d more => rfl
    rw [List.cons_append, tildesEscaped_cons_iff, tildesEscaped_cons_iff, hhead, ih, and_assoc]

/-- No escape goes on behind a slash. -/
theorem tildesEscaped_flatMap_slash_iff :
    TildesEscaped (css.flatMap ('/' :: ·)) ↔ ∀ cs ∈ css, TildesEscaped cs := by
  induction css with
  | nil => simp [tildesEscaped_nil]
  | cons cs rest ih =>
    have hzero : (rest.flatMap ('/' :: ·)).head? ≠ some '0' := by cases rest <;> simp
    have hone : (rest.flatMap ('/' :: ·)).head? ≠ some '1' := by cases rest <;> simp
    rw [List.flatMap_cons, List.cons_append, tildesEscaped_cons_iff,
      tildesEscaped_append_iff hzero hone, ih, List.forall_mem_cons]
    exact and_iff_right nofun

/-- The escape of a character is written with tildes that start escapes. -/
theorem tildesEscaped_escapeChar_append (c : Char) (h : TildesEscaped cs) :
    TildesEscaped (escapeChar c ++ cs) := by
  rw [escapeChar]
  split
  · simp [tildesEscaped_cons_iff, h]
  · next htilde =>
    split
    · simp [tildesEscaped_cons_iff, h]
    · simp [tildesEscaped_cons_iff, h, htilde]

/-- Every tilde of a key that is written in a pointer starts an escape. -/
theorem tildesEscaped_flatMap_escapeChar (cs : List Char) :
    TildesEscaped (cs.flatMap escapeChar) := by
  induction cs with
  | nil => exact tildesEscaped_nil
  | cons c rest ih => exact tildesEscaped_escapeChar_append c ih

/-- A key is written as it was read, if every tilde starts an escape. -/
theorem flatMap_escapeChar_unescapeChars (hslash : '/' ∉ cs) (h : TildesEscaped cs) :
    (unescapeChars cs).flatMap escapeChar = cs := by
  fun_induction unescapeChars cs with
  | case1 rest ih =>
    rw [List.flatMap_cons, ih (by simp_all) (by simp_all [tildesEscaped_cons_iff])]
    rfl
  | case2 rest ih =>
    rw [List.flatMap_cons, ih (by simp_all) (by simp_all [tildesEscaped_cons_iff])]
    rfl
  | case3 c rest hone hzero ih =>
    obtain ⟨hc, hrest⟩ := tildesEscaped_cons_iff.1 h
    -- A tilde here would start an escape, and those were read before.
    have htilde : c ≠ '~' := by
      intro hctilde
      rcases hc hctilde with hhead | hhead
      · obtain ⟨more, rfl⟩ := List.head?_eq_some_iff.1 hhead
        exact hzero more hctilde rfl
      · obtain ⟨more, rfl⟩ := List.head?_eq_some_iff.1 hhead
        exact hone more hctilde rfl
    have hcslash : c ≠ '/' := fun hcslash => hslash (hcslash ▸ .head rest)
    have hescape : escapeChar c = [c] := by simp [escapeChar, htilde, hcslash]
    rw [List.flatMap_cons, hescape, ih (fun hmem => hslash (.tail c hmem)) hrest,
      List.singleton_append]
  | case4 => rfl

end Step

/-! ## Pointers -/

namespace Pointer

/-- The text of a pointer some steps further on. -/
theorem toList_text_descend (p : Pointer) (steps : List String) :
    (p.descend steps).text.toList =
      p.text.toList ++ (steps.map fun key => (Step.escape key).toList).flatMap ('/' :: ·) := by
  induction steps generalizing p with
  | nil => simp [descend]
  | cons key rest ih =>
    have hrest := ih (p.join key)
    have htext : (p.join key).text.toList = p.text.toList ++ '/' :: (Step.escape key).toList := by
      simp [join, String.toList_append]
    rw [htext] at hrest
    simpa [descend] using hrest

/-- A text with a slash in front consists of its pieces, each with a slash in front. -/
theorem flatMap_slash_split (cs : List Char) :
    (Text.split (· == '/') cs).flatMap ('/' :: ·) = '/' :: cs := by
  induction cs with
  | nil => rfl
  | cons c rest ih =>
    cases hc : c == '/' with
    | true =>
      rw [Text.split, if_pos hc, List.flatMap_cons, ih, beq_iff_eq.1 hc]
      rfl
    | false =>
      obtain ⟨piece, pieces, hsplit, hcons⟩ := @Text.split_cons_of_eq_false (· == '/') c hc rest
      rw [hsplit, List.flatMap_cons, List.cons_append] at ih
      rw [hcons, List.flatMap_cons, List.cons_append, List.cons_append, (List.cons.inj ih).2]

/-- The text of a pointer consists of pieces without slashes, and its steps are what these mean. -/
theorem exists_pieces (p : Pointer) : ∃ css : List (List Char), (∀ cs ∈ css, '/' ∉ cs) ∧
    p.text.toList = '#' :: css.flatMap ('/' :: ·) ∧ p.segments = css.map Step.unescape := by
  obtain ⟨rest, htext, hrest⟩ : ∃ rest, p.text.toList = '#' :: rest ∧
      (rest = [] ∨ ∃ cs, rest = '/' :: cs) := by
    rcases p.isInternal with hroot | hinside
    · exact ⟨[], by rw [hroot]; rfl, .inl rfl⟩
    · obtain ⟨cs, hcs⟩ := List.isPrefixOf_iff_prefix.1 hinside
      exact ⟨'/' :: cs, hcs.symm, .inr ⟨cs, rfl⟩⟩
  rcases hrest with rfl | ⟨cs, rfl⟩
  · refine ⟨[], nofun, htext, ?_⟩
    rw [segments, path, htext]
    rfl
  · refine ⟨Text.split (· == '/') cs, ?_, by rw [htext, flatMap_slash_split], ?_⟩
    · intro piece hpiece hslash
      simpa using Text.isSeparator_of_mem_split hpiece hslash
    · have hsplit : Text.split (· == '/') ('/' :: cs) = [] :: Text.split (· == '/') cs :=
        if_pos rfl
      rw [segments, path, htext, Step.ofText, List.drop_succ_cons, List.drop_zero, hsplit,
        List.drop_succ_cons, List.drop_zero]

/-- A pointer is its text. -/
theorem ext {p q : Pointer} (h : p.text = q.text) : p = q := by
  cases p
  cases q
  cases h
  rfl

/-- Different steps from the whole document lead to different pointers. -/
theorem descend_root_injective : Function.Injective root.descend := by
  intro steps steps' h
  have hsegments := congrArg segments h
  rwa [segments_descend, segments_descend, segments_root, List.nil_append, List.nil_append]
    at hsegments

/-- A pointer is written as its steps are if and only if every tilde in it starts an escape. -/
theorem descend_root_segments_iff (p : Pointer) :
    root.descend p.segments = p ↔ Step.TildesEscaped p.text.toList := by
  have hroot (css : List (List Char)) : Step.TildesEscaped ('#' :: css.flatMap ('/' :: ·)) ↔
      ∀ cs ∈ css, Step.TildesEscaped cs := by
    rw [Step.tildesEscaped_cons_iff, Step.tildesEscaped_flatMap_slash_iff]
    exact and_iff_right nofun
  constructor
  · intro h
    rw [← h, toList_text_descend]
    refine (hroot _).2 fun cs hcs => ?_
    obtain ⟨key, -, rfl⟩ := List.mem_map.1 hcs
    rw [Step.escape, String.toList_ofList]
    exact Step.tildesEscaped_flatMap_escapeChar _
  · intro h
    obtain ⟨css, hslash, htext, hsegments⟩ := p.exists_pieces
    rw [htext, hroot] at h
    have hwritten : ∀ cs ∈ css, (Step.escape (Step.unescape cs)).toList = cs := by
      intro cs hcs
      rw [Step.escape, Step.unescape, String.toList_ofList, String.toList_ofList]
      exact Step.flatMap_escapeChar_unescapeChars (hslash cs hcs) (h cs hcs)
    have heq : (root.descend p.segments).text = p.text := by
      refine String.toList_injective ?_
      rw [toList_text_descend, hsegments, htext, List.map_map]
      exact congrArg (fun css => '#' :: css.flatMap ('/' :: ·))
        ((List.map_congr_left hwritten).trans (List.map_id css))
    exact ext heq

/-- A step that is joined to a pointer is read back as the last one behind its others, and different
steps from the whole document lead to different pointers. The steps of a pointer lead back to it
from the whole document if and only if every tilde in it is followed by a zero or a one. -/
theorem segments_join_and_descend_root_segments_iff (p : Pointer) :
    (∀ key, (p.join key).segments = p.segments ++ [key] ∧
      (p.join key).lastSegment? = some key) ∧
    Function.Injective root.descend ∧
    (root.descend p.segments = p ↔ Step.TildesEscaped p.text.toList) := by
  refine ⟨fun key => ⟨segments_join p key, ?_⟩, descend_root_injective,
    descend_root_segments_iff p⟩
  rw [lastSegment?, segments_join, List.getLast?_concat]

end Pointer

end SchemaTypes
