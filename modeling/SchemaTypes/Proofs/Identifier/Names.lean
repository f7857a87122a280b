import Mathlib
import SchemaTypes.NameTable
import SchemaTypes.Identifier
import SchemaTypes.Proofs.Text.Split

/-!
# What names look like

A name starts with a capital or an underscore and goes on with ASCII letters, digits and underscores
(`Identifier.IsName`), so it is no word of the language that types are written in. What a text makes
is a name, if it is not empty, and even a plain one: words that are put together leave no underscore
behind the first character (`Identifier.IsPlain`). What is put behind a name to tell it from others
starts with an underscore, so it never makes a plain name (`NameTable.eq_zero_of_isPlain_variant`).
-/

namespace SchemaTypes
namespace Identifier

variable {name suffix raw : String} {cs : List Char}

/-- Whether a character may stand in a name. -/
def isNameChar (c : Char) : Bool :=
  c.isAlphanum || c == '_'

/-- A name: a capital or an underscore, and behind it ASCII letters, digits and underscores. -/
structure IsName (name : String) : Prop where
  starts : ∃ c, name.toList.head? = some c ∧ (c.isUpper = true ∨ c = '_')
  chars : ∀ c ∈ name.toList, isNameChar c = true

/-- A name with no underscore behind its first character. -/
structure IsPlain (name : String) : Prop where
  starts : ∃ c, name.toList.head? = some c ∧ (c.isUpper = true ∨ c = '_')
  behind : ∀ c ∈ name.toList.tail, c.isAlphanum = true

/-- A plain name is a name. -/
theorem IsPlain.isName (h : IsPlain name) : IsName name where
  starts := h.starts
  chars := by
    obtain ⟨c, hc, hstart⟩ := h.starts
    obtain ⟨rest, hlist⟩ := List.head?_eq_some_iff.1 hc
    have hbehind := h.behind
    rw [hlist, List.tail_cons] at hbehind
    rw [hlist]
    refine List.forall_mem_cons.2 ⟨?_, fun d hd => ?_⟩
    · rcases hstart with hupper | rfl
      · simp [isNameChar, Char.isAlphanum, Char.isAlpha, hupper]
      · rfl
    · simp [isNameChar, hbehind d hd]

/-- A name is not empty. -/
theorem IsName.ne_empty (h : IsName name) : name ≠ "" := by
  rintro rfl
  obtain ⟨c, hc, -⟩ := h.starts
  cases hc

/-- A name with characters of names behind it is a name. -/
theorem IsName.append (h : IsName name) (hs : ∀ c ∈ suffix.toList, isNameChar c = true) :
    IsName (name ++ suffix) where
  starts := by
    obtain ⟨c, hc, hstart⟩ := h.starts
    exact ⟨c, by rw [String.toList_append, List.head?_append, hc, Option.some_or], hstart⟩
  chars := by
    intro c hc
    rw [String.toList_append] at hc
    exact (List.mem_append.1 hc).elim (h.chars c) (hs c)

/-- The digits of a number may stand in a name. -/
theorem isNameChar_of_mem_toString {n : Nat} {c : Char} (h : c ∈ (toString n).toList) :
    isNameChar c = true := by
  have hdigit := Nat.isDigit_of_mem_toDigits (by decide) (by decide)
    ((Nat.toList_repr (n := n)).subst h)
  simp [isNameChar, Char.isAlphanum, hdigit]

/-! ## What a text makes -/

/-- A word is not empty and consists of ASCII letters and digits. -/
theorem exists_of_mem_words {word : List Char} (h : word ∈ words cs) :
    ∃ c rest, word = c :: rest ∧ ∀ d ∈ word, d.isAlphanum = true := by
  obtain ⟨hword, hne⟩ := List.mem_filter.1 h
  cases word with
  | nil => cases hne
  | cons c rest => exact ⟨c, rest, rfl, fun d hd => by
      simpa using Text.isSeparator_of_mem_split hword hd⟩

/-- A letter or a digit that is raised is a capital or a digit. -/
theorem isUpper_or_isDigit_toUpper {c : Char} (h : c.isAlphanum = true) :
    c.toUpper.isUpper = true ∨ c.toUpper.isDigit = true := by
  rw [Char.isAlphanum, Bool.or_eq_true] at h
  rcases h with halpha | hdigit
  · exact .inl ((Char.isUpper_toUpper_eq_isAlpha c).trans halpha)
  · have hlower : ¬c.isLower := by
      simp only [Char.isDigit, Char.isLower, Bool.and_eq_true, decide_eq_true_eq,
        UInt32.le_iff_toNat_le] at hdigit ⊢
      rintro ⟨hlow, -⟩
      exact absurd (hlow.trans hdigit.2) (by decide)
    rw [Char.toUpper_eq_of_not_isLower hlower]
    exact .inr hdigit

/-- Words that are put together make nothing, or start with a capital or a digit and go on with
letters and digits. -/
theorem flatMap_raise_eq_or {ws : List (List Char)}
    (h : ∀ word ∈ ws, ∃ c rest, word = c :: rest ∧ ∀ d ∈ word, d.isAlphanum = true) :
    ws.flatMap raise = [] ∨ ∃ c rest, ws.flatMap raise = c :: rest ∧
      (c.isUpper = true ∨ c.isDigit = true) ∧ ∀ d ∈ rest, d.isAlphanum = true := by
  induction ws with
  | nil => exact .inl rfl
  | cons word ws ih =>
    obtain ⟨c, rest, rfl, hword⟩ := h word (.head _)
    refine .inr ⟨c.toUpper, rest ++ ws.flatMap raise, rfl, ?_, fun d hd => ?_⟩
    · exact isUpper_or_isDigit_toUpper (hword c (.head _))
    · rcases List.mem_append.1 hd with hd | hd
      · exact hword d (.tail _ hd)
      · rcases ih fun w hw => h w (.tail _ hw) with hnil | ⟨e, more, heq, hstart, hmore⟩
        · rw [hnil] at hd
          cases hd
        · rw [heq] at hd
          rcases List.mem_cons.1 hd with rfl | hd
          · rcases hstart with hupper | hdigit
            · simp [Char.isAlphanum, Char.isAlpha, hupper]
            · simp [Char.isAlphanum, hdigit]
          · exact hmore d hd

/-- What a text makes is empty or a plain name. -/
theorem normalize_eq_or (raw : String) : normalize raw = "" ∨ IsPlain (normalize raw) := by
  have hlist : (normalize raw).toList = guardDigit ((words raw.toList).flatMap raise) :=
    String.toList_ofList
  rcases flatMap_raise_eq_or fun word hword => exists_of_mem_words hword with
    hnil | ⟨c, rest, heq, hstart, hrest⟩
  · rw [hnil] at hlist
    exact .inl (String.toList_injective hlist)
  · rw [heq, guardDigit] at hlist
    refine .inr ?_
    split at hlist
    · next hdigit =>
      refine ⟨⟨'_', by rw [hlist]; rfl, .inr rfl⟩, ?_⟩
      rw [hlist, List.tail_cons]
      refine List.forall_mem_cons.2 ⟨?_, hrest⟩
      rw [Char.isAlphanum, hdigit, Bool.or_true]
    · next hdigit =>
      refine ⟨⟨c, by rw [hlist]; rfl, .inl (hstart.resolve_right hdigit)⟩, ?_⟩
      rw [hlist]
      exact hrest

/-- What a text makes consists of characters of names. -/
theorem isNameChar_of_mem_normalize {c : Char} (h : c ∈ (normalize raw).toList) :
    isNameChar c = true := by
  rcases normalize_eq_or raw with hempty | hplain
  · rw [hempty] at h
    cases h
  · exact hplain.isName.chars c h

/-- If a text makes a name, that is a plain one. -/
theorem isPlain_of_normalized? (h : normalized? raw = some name) : IsPlain name := by
  simp only [normalized?] at h
  split at h
  · cases h
  · next hne =>
    cases h
    refine (normalize_eq_or raw).resolve_left ?_
    intro hempty
    exact hne (by rw [hempty]; rfl)

/-- The name of a schema that nothing else names is plain. -/
theorem isPlain_schema : IsPlain "Schema" where
  starts := ⟨'S', by simp, .inl rfl⟩
  behind := by simp

/-- The name of a place that only its pointer is known of is plain. -/
theorem isPlain_ofPointer (p : Pointer) : IsPlain (ofPointer p) := by
  rw [ofPointer]
  split
  · exact ⟨⟨'R', by simp, .inl rfl⟩, by simp⟩
  · cases h : p.lastSegment?.bind normalized? with
    | none => exact isPlain_schema
    | some name =>
      obtain ⟨step, -, hstep⟩ := Option.bind_eq_some_iff.1 h
      exact isPlain_of_normalized? hstep

/-- The name of a schema outside the document is plain. -/
theorem isPlain_ofExternal (reference : String) : IsPlain (ofExternal reference) := by
  simp only [ofExternal]
  generalize hpieces : List.findSome? _ _ = found
  cases found with
  | none => exact isPlain_schema
  | some name =>
    obtain ⟨piece, -, hpiece⟩ := List.exists_of_findSome?_eq_some hpieces
    exact isPlain_of_normalized? hpiece

end Identifier

namespace NameTable

open Identifier

variable {base : String} {n : Nat}

/-- The variants of a name are names. -/
theorem isName_variant (h : IsName base) (n : Nat) : IsName (variant base n) := by
  rw [variant]
  split
  · exact h
  · exact (h.append (by simp [isNameChar])).append fun c hc => isNameChar_of_mem_toString hc

/-- Only a name itself is a plain one among its variants. -/
theorem eq_zero_of_isPlain_variant (hbase : base ≠ "") (h : IsPlain (variant base n)) : n = 0 := by
  by_contra hn
  have hlist : (variant base n).toList = base.toList ++ '_' :: (toString n).toList := by
    simp [variant, hn, String.toList_append]
  have hbehind := h.behind
  cases hcs : base.toList with
  | nil => exact hbase (String.toList_injective hcs)
  | cons c rest =>
    rw [hlist, hcs, List.cons_append, List.tail_cons] at hbehind
    have hunderscore := hbehind '_' (List.mem_append_right _ (.head _))
    simp [Char.isAlphanum, Char.isAlpha, Char.isUpper, Char.isLower, Char.isDigit] at hunderscore

end NameTable
end SchemaTypes
