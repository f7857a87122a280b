import SchemaTypes.Text.Split

/-!
# The pieces of a text

A text is cut at its separators (`Text.split_append_cons`), and so its pieces hold all of its
characters but these (`Text.exists_mem_split_iff`). Pieces that hold none are those of the text that
is put together of them (`Text.split_intercalate`).
-/

namespace SchemaTypes
namespace Text

variable {isSeparator : Char → Bool}

/-- A text has a piece. -/
theorem split_ne_nil (cs : List Char) : split isSeparator cs ≠ [] := by
  cases cs with
  | nil => simp [split]
  | cons c rest =>
    rw [split]
    split
    · simp
    · split <;> simp

/-- A text without a separator is one piece. -/
theorem split_eq_singleton {cs : List Char} (h : ∀ c ∈ cs, isSeparator c = false) :
    split isSeparator cs = [cs] := by
  induction cs with
  | nil => rfl
  | cons c rest ih =>
    rw [split, if_neg (by simp [h c (.head _)]), ih fun d hd => h d (.tail _ hd)]

/-- A separator ends a piece, so the pieces before and behind it are those of the whole. -/
theorem split_append_cons {c : Char} (hc : isSeparator c = true) (before after : List Char) :
    split isSeparator (before ++ c :: after) =
      split isSeparator before ++ split isSeparator after := by
  induction before with
  | nil => simp [split, hc]
  | cons d rest ih =>
    rw [List.cons_append, split, split, ih]
    split
    · rfl
    · cases h : split isSeparator rest with
      | nil => exact absurd h (split_ne_nil rest)
      | cons piece pieces => rfl

/-- A character that is no separator goes in front of the first piece. -/
theorem split_cons_of_eq_false {c : Char} (hc : isSeparator c = false) (rest : List Char) :
    ∃ piece pieces, split isSeparator rest = piece :: pieces ∧
      split isSeparator (c :: rest) = (c :: piece) :: pieces := by
  cases h : split isSeparator rest with
  | nil => exact absurd h (split_ne_nil rest)
  | cons piece pieces => exact ⟨piece, pieces, rfl, by rw [split, if_neg (by simp [hc]), h]⟩

/-- Only of the empty text there is nothing but an empty piece. -/
theorem eq_nil_of_split_eq {cs : List Char} (h : split isSeparator cs = [[]]) : cs = [] := by
  cases cs with
  | nil => rfl
  | cons c rest =>
    cases hc : isSeparator c with
    | true =>
      rw [split, if_pos hc] at h
      exact absurd (List.cons.inj h).2 (split_ne_nil rest)
    | false =>
      obtain ⟨piece, pieces, -, hsplit⟩ := split_cons_of_eq_false hc rest
      rw [hsplit] at h
      cases h

/-- The pieces of a text hold the characters of the text that are no separators. -/
theorem exists_mem_split_iff {cs : List Char} {c : Char} :
    (∃ piece ∈ split isSeparator cs, c ∈ piece) ↔ c ∈ cs ∧ isSeparator c = false := by
  induction cs with
  | nil => simp [split]
  | cons d rest ih =>
    cases hd : isSeparator d with
    | true =>
      have hne : isSeparator c = false → c ≠ d := by
        rintro hc rfl
        cases hc.symm.trans hd
      simp only [split, hd, if_true, List.mem_cons, exists_eq_or_imp, ih]
      constructor
      · rintro (hnil | ⟨hmem, hc⟩)
        · cases hnil
        · exact ⟨.inr hmem, hc⟩
      · rintro ⟨hmem, hc⟩
        exact .inr ⟨hmem.resolve_left (hne hc), hc⟩
    | false =>
      have heq : c = d → isSeparator c = false := by
        rintro rfl
        exact hd
      -- The character in front joins the first piece of the rest.
      obtain ⟨first, pieces, hrest, hsplit⟩ := split_cons_of_eq_false hd rest
      simp only [hrest, List.mem_cons, exists_eq_or_imp] at ih
      simp only [hsplit, List.mem_cons, exists_eq_or_imp, or_assoc, ih]
      rw [or_and_right, and_iff_left_of_imp heq]

/-- No piece of a text holds a separator. -/
theorem isSeparator_of_mem_split {cs piece : List Char} (h : piece ∈ split isSeparator cs)
    {c : Char} (hc : c ∈ piece) : isSeparator c = false :=
  (exists_mem_split_iff.1 ⟨piece, h, hc⟩).2

/-- The pieces of a text hold characters of the text. -/
theorem mem_of_mem_split {cs piece : List Char} (h : piece ∈ split isSeparator cs) {c : Char}
    (hc : c ∈ piece) : c ∈ cs :=
  (exists_mem_split_iff.1 ⟨piece, h, hc⟩).1

/-- Pieces without separators that are put together with a separator are the pieces of the whole. -/
theorem split_intercalate {c : Char} (hc : isSeparator c = true) {pieces : List (List Char)}
    (hne : pieces ≠ []) (h : ∀ piece ∈ pieces, ∀ d ∈ piece, isSeparator d = false) :
    split isSeparator ([c].intercalate pieces) = pieces := by
  induction pieces with
  | nil => exact absurd rfl hne
  | cons piece rest ih =>
    obtain ⟨hpiece, hrest⟩ := List.forall_mem_cons.1 h
    cases rest with
    | nil => rw [List.intercalate_singleton, split_eq_singleton hpiece]
    | cons next more =>
      rw [List.intercalate_cons_cons, List.append_assoc, List.singleton_append,
        split_append_cons hc, split_eq_singleton hpiece, ih (List.cons_ne_nil _ _) hrest]
      rfl

end Text
end SchemaTypes
