import SchemaTypes.Proofs.Text.Split
import SchemaTypes.Schema.Slot

/-!
# The steps of a pointer

A step is written with an escape that reading undoes (`Step.unescape_escape`), and it holds no
slash, so a place one step further on has one more step (`Pointer.segments_join`). From that follow
the steps of the places that a schema holds others at (`Pointer.segments_slot`).
-/

namespace SchemaTypes

/-! ## Escapes -/

namespace Step

/-- A character other than a tilde is read as it is. -/
theorem unescapeChars_cons {c : Char} (h : c ≠ '~') (rest : List Char) :
    unescapeChars (c :: rest) = c :: unescapeChars rest := by
  rw [unescapeChars] <;> rintro _ rfl <;> exact absurd rfl h

/-- Reading undoes the escapes of characters. -/
theorem unescapeChars_flatMap_escapeChar (cs : List Char) :
    unescapeChars (cs.flatMap escapeChar) = cs := by
  induction cs with
  | nil => rfl
  | cons c rest ih =>
    rw [List.flatMap_cons]
    by_cases htilde : c = '~'
    · subst htilde
      simp [escapeChar, unescapeChars, ih]
    by_cases hslash : c = '/'
    · subst hslash
      simp [escapeChar, unescapeChars, ih]
    · have hc : escapeChar c = [c] := by simp [escapeChar, htilde, hslash]
      rw [hc, List.singleton_append, unescapeChars_cons htilde, ih]

/-- Reading undoes the escapes of a key. -/
theorem unescape_escape (key : String) : unescape (escape key).toList = key := by
  rw [unescape, escape, String.toList_ofList, unescapeChars_flatMap_escapeChar,
    String.ofList_toList]

/-- A key is written without a slash. -/
theorem slash_notMem_escape (key : String) : '/' ∉ (escape key).toList := by
  rw [escape, String.toList_ofList, List.mem_flatMap]
  rintro ⟨c, -, hc⟩
  rw [escapeChar] at hc
  split at hc
  · simp at hc
  · split at hc
    · simp at hc
    · next h => exact h (List.mem_singleton.1 hc).symm

/-- The digits of a number do not start with a zero, unless it is zero. -/
theorem head?_toDigits_ne (i : Nat) (hi : 0 < i) : (Nat.toDigits 10 i).head? ≠ some '0' := by
  induction i using Nat.strongRecOn with
  | ind i ih =>
    by_cases hlt : i < 10
    · rw [Nat.toDigits_of_lt_base hlt]
      intro hzero
      have := Nat.digitChar_eq_zero.1 (Option.some.inj hzero)
      omega
    · have hfirst := ih (i / 10) (by omega) (by omega)
      rw [Nat.toDigits_of_base_le (by decide) (by omega), List.head?_append]
      cases h : Nat.toDigits 10 (i / 10) with
      | nil => exact absurd h Nat.toDigits_ne_nil
      | cons c rest =>
        rw [h] at hfirst
        simpa using hfirst

/-- A position is read back from the digits it is written in. -/
theorem digits?_toDigits (n : Nat) : digits? (Nat.toDigits 10 n) = some n := by
  have hdigits : (Nat.toDigits 10 n).all Char.isDigit :=
    List.all_eq_true.2 fun _ hc => Nat.isDigit_of_mem_toDigits (by decide) (by decide) hc
  rw [digits?, if_neg (by simp [hdigits, Nat.toDigits_ne_nil])]
  exact congrArg some Nat.ofDigitChars_ten_toDigits

/-- A position is read back from its text. -/
theorem index?_toString (n : Nat) : index? (toString n) = some n := by
  have hlist : (toString n).toList = Nat.toDigits 10 n := Nat.toList_repr
  rw [index?, hlist]
  split
  · next rest h =>
    have hplus : '+' ∈ Nat.toDigits 10 n := h ▸ .head _
    have := Nat.isDigit_of_mem_toDigits (by decide) (by decide) hplus
    simp at this
  · exact digits?_toDigits n

/-- A position that is written strictly is also a position. -/
theorem index?_of_strictIndex? {step : String} {i : Nat} (h : strictIndex? step = some i) :
    index? step = some i := by
  rw [strictIndex?] at h
  split at h
  · cases h
  · rw [index?]
    split
    · next rest heq =>
      rw [heq, digits?] at h
      simp at h
    · exact h

end Step

/-! ## Pointers -/

namespace Pointer

/-- The whole document is no steps away. -/
@[simp] theorem segments_root : root.segments = [] := by
  decide

/-- The text of a pointer is not empty, so it goes on where the pointer does. -/
theorem path_join (p : Pointer) (key : String) :
    (p.join key).path = p.path ++ '/' :: (Step.escape key).toList := by
  have hpos : p.text.toList ≠ [] := by
    rcases p.isInternal with h | h
    · simp [h]
    · intro hnil
      rw [hnil] at h
      simp at h
  cases hp : p.text.toList with
  | nil => exact absurd hp hpos
  | cons c rest => simp [path, join, String.toList_append, hp]

/-- One step further on there is one more step. -/
@[simp] theorem segments_join (p : Pointer) (key : String) :
    (p.join key).segments = p.segments ++ [key] := by
  have hescaped : ∀ c ∈ (Step.escape key).toList, (c == '/') = false := by
    intro c hc
    rw [beq_eq_false_iff_ne]
    rintro rfl
    exact Step.slash_notMem_escape key hc
  rw [segments, segments, Step.ofText, Step.ofText, path_join,
    Text.split_append_cons (by simp), Text.split_eq_singleton hescaped]
  cases h : Text.split (· == '/') p.path with
  | nil => exact absurd h (Text.split_ne_nil _)
  | cons piece pieces => simp [Step.unescape_escape]

/-- Some steps further on there are these steps more. -/
@[simp] theorem segments_descend (p : Pointer) (steps : List String) :
    (p.descend steps).segments = p.segments ++ steps := by
  induction steps generalizing p with
  | nil => simp [descend]
  | cons step rest ih =>
    have := ih (p.join step)
    rw [segments_join, List.append_assoc, List.singleton_append] at this
    exact this

/-- A place that a schema holds another at is reached by the steps of its slot. -/
@[simp] theorem segments_slot (p : Pointer) (slot : Slot) :
    (p.slot slot).segments = p.segments ++ slot.steps :=
  segments_descend p slot.steps

end Pointer

end SchemaTypes
