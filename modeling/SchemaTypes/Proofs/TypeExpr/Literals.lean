import SchemaTypes.Proofs.TypeExpr.Nesting

/-!
# Values in a text

A JSON value that is written without blanks is a phrase of a single line, whatever stands in its
strings (`Json.flat_compact`), and so is a property key. Neither is changed by being indented.
-/

namespace SchemaTypes

/-! ## Numbers -/

namespace Decimal

variable {c : Char} {b : Binary} {tie : Tie} {n : Nat}

/-- The digits of a decimal on a grid are digits. -/
theorem isDigit_of_mem_ofGrid {e : Int} (h : c ∈ (ofGrid n e).digits) : c.isDigit = true := by
  have hmem := List.mem_reverse.1 ((List.dropWhile_suffix _).subset (List.mem_reverse.1 h))
  exact Nat.isDigit_of_mem_toDigits (by decide) (by decide) hmem

/-- The digits of the decimal that is searched for are digits. -/
theorem isDigit_of_mem_search {k : Int} {steps : Nat} (h : c ∈ (search tie b k steps n).digits) :
    c.isDigit = true := by
  induction steps generalizing n with
  | zero => exact isDigit_of_mem_ofGrid h
  | succ steps ih =>
    rw [search] at h
    split at h
    · exact isDigit_of_mem_ofGrid h
    · exact ih h

end Decimal

namespace Number

/-- Whether a character may stand in a number. -/
def isNumberChar (c : Char) : Bool :=
  c.isDigit || c == '-' || c == '+' || c == '.' || c == 'e'

variable {c : Char}

/-- The digits of a number may stand in one. -/
theorem isNumberChar_of_mem_toString {n : Nat} (h : c ∈ (toString n).toList) :
    isNumberChar c = true := by
  have hdigit := Nat.isDigit_of_mem_toDigits (by decide) (by decide)
    ((Nat.toList_repr (n := n)).subst h)
  simp [isNumberChar, hdigit]

/-- A decimal is written in characters of numbers, with the point at its place. -/
theorem isNumberChar_of_mem_positional {d : Decimal} (hd : ∀ c ∈ d.digits, c.isDigit = true) :
    ∀ c ∈ FloatFormat.positional d, isNumberChar c = true := by
  have hdigits : ∀ c ∈ d.digits, isNumberChar c = true := fun c hc => by
    simp [isNumberChar, hd c hc]
  have hzeros (n : Nat) : ∀ c ∈ List.replicate n '0', isNumberChar c = true := fun c hc => by
    rw [List.eq_of_mem_replicate hc]
    rfl
  rw [FloatFormat.positional]
  split
  · simp only [List.cons_append, List.forall_mem_cons, List.forall_mem_append]
    exact ⟨rfl, rfl, hzeros _, hdigits⟩
  · simp only [List.forall_mem_append, List.forall_mem_cons]
    refine ⟨⟨fun c hc => hdigits c (List.mem_of_mem_take hc), hzeros _⟩, rfl, ?_⟩
    split
    · simp [isNumberChar]
    · exact fun c hc => hdigits c (List.mem_of_mem_drop hc)

/-- A decimal is written in characters of numbers, with an exponent. -/
theorem isNumberChar_of_mem_scientific {d : Decimal} (hd : ∀ c ∈ d.digits, c.isDigit = true)
    (plus : Bool) : ∀ c ∈ FloatFormat.scientific plus d, isNumberChar c = true := by
  have hdigits : ∀ c ∈ d.digits, isNumberChar c = true := fun c hc => by
    simp [isNumberChar, hd c hc]
  have hexponent : ∀ c ∈ Nat.toDigits 10 d.exponent.natAbs, isNumberChar c = true := fun c hc => by
    simp [isNumberChar, Nat.isDigit_of_mem_toDigits (by decide) (by decide) hc]
  have hsign : ∀ c ∈ (if d.exponent < 0 then ['-'] else if plus then ['+'] else []),
      isNumberChar c = true := by
    split_ifs <;> simp [isNumberChar]
  rw [FloatFormat.scientific]
  simp only [List.forall_mem_append, List.forall_mem_cons]
  refine ⟨⟨⟨fun c hc => hdigits c (List.mem_of_mem_take hc), ?_⟩, rfl, hsign⟩, hexponent⟩
  split
  · simp
  · exact List.forall_mem_cons.2 ⟨rfl, fun c hc => hdigits c (List.mem_of_mem_drop hc)⟩

/-- A float is written in characters of numbers. -/
theorem isNumberChar_of_mem_float {format : FloatFormat} {x : Float} :
    ∀ c ∈ (format.text x).toList, isNumberChar c = true := by
  have hsign : ∀ c ∈ (if 0x8000000000000000 ≤ x.toBits.toNat then ['-'] else []),
      isNumberChar c = true := by
    split <;> simp [isNumberChar]
  have hdigits : ∀ c ∈ (Decimal.shortest format.tie (.ofBits x.toBits)).digits,
      c.isDigit = true := fun c hc => Decimal.isDigit_of_mem_search hc
  rw [FloatFormat.text]
  split
  · rw [String.toList_ofList]
    exact List.forall_mem_append.2 ⟨hsign, by simp [isNumberChar]⟩
  · rw [String.toList_ofList]
    refine List.forall_mem_append.2 ⟨hsign, ?_⟩
    split
    · exact isNumberChar_of_mem_positional hdigits
    · exact isNumberChar_of_mem_scientific hdigits _

/-- A number is written in characters of numbers. -/
theorem isNumberChar_of_mem_text (n : Number) : ∀ c ∈ n.text.toList, isNumberChar c = true := by
  cases n with
  | float x => exact isNumberChar_of_mem_float
  | integer n =>
    obtain ⟨value, hrange⟩ := n
    cases value with
    | ofNat m => exact fun c => isNumberChar_of_mem_toString (n := m)
    | negSucc m =>
      have hlist : (Number.integer ⟨Int.negSucc m, hrange⟩).text.toList =
          '-' :: (toString (m + 1)).toList :=
        String.toList_append
      rw [hlist]
      exact List.forall_mem_cons.2 ⟨rfl, fun c => isNumberChar_of_mem_toString⟩

end Number

/-! ## Values -/

namespace Nesting

/-- A text of a single line that is an operand. -/
structure Flat (cs : List Char) : Prop where
  phrase : Phrase true cs
  line : '\n' ∉ cs

namespace Flat

variable {cs ds : List Char} {c : Char}

/-- The empty text. -/
theorem nil : Flat [] where
  phrase := .nil
  line := List.not_mem_nil

/-- Two texts in a row. -/
theorem append (h : Flat cs) (h' : Flat ds) : Flat (cs ++ ds) where
  phrase := h.phrase.append h'.phrase
  line hmem := (List.mem_append.1 hmem).elim h.line h'.line

/-- Characters of a kind to which no mark belongs. -/
theorem of_test {test : Char → Bool} (h : ∀ c ∈ cs, test c = true)
    (htest : ∀ c ∈ marks, test c = false) : Flat cs where
  phrase := .of_test h htest
  line hmem := Bool.false_ne_true ((htest _ (by decide)).symm.trans (h _ hmem))

/-- A word of letters. -/
theorem word {s : String} (h : ∀ c ∈ s.toList, c.isAlpha = true) : Flat s.toList :=
  .of_test h (by simp [marks, Char.isAlpha, Char.isUpper, Char.isLower])

/-- A text in brackets. -/
theorem enclose (h : Flat cs) (hc : Scan.isOpening c = true) : Flat (c :: cs ++ [closing c]) where
  phrase := h.phrase.enclose hc fun hmem => absurd hmem h.line
  line := by
    have hline : c ≠ '\n' ∧ closing c ≠ '\n' := by
      rcases eq_or_of_isOpening hc with rfl | rfl | rfl | rfl <;> decide
    simp [h.line, hline.1.symm, hline.2.symm]

/-- A string. -/
theorem quote (s : String) : Flat (Json.quote s).toList where
  phrase := .quote s
  line := newline_notMem_quote s

/-- A text of a single line does not change if it is indented. -/
theorem indent_eq {text : String} (h : Flat text.toList) : TypeExpr.indent text = text :=
  String.toList_injective ((toList_indent text).trans (flatMap_indentChar_of_notMem h.line))

end Flat

end Nesting

namespace Json

open Nesting

/-- A comma and a colon are written between values. -/
theorem flat_separators : Flat [','] ∧ Flat [':'] := by
  have hcolon : ∀ c ∈ [':'], (c == ':') = true := by simp
  have hcomma : ∀ c ∈ [','], (c == ',') = true := by simp
  exact ⟨.of_test hcomma (by simp [marks]), .of_test hcolon (by simp [marks])⟩

mutual

/-- A value is a text of a single line, and its brackets are matched. -/
theorem flat_compact : ∀ v : Json, Flat v.compact.toList
  | .null => .word (s := "null") (by simp [Char.isAlpha, Char.isUpper, Char.isLower])
  | .bool true => .word (s := "true") (by simp [Char.isAlpha, Char.isUpper, Char.isLower])
  | .bool false => .word (s := "false") (by simp [Char.isAlpha, Char.isUpper, Char.isLower])
  | .number n =>
    .of_test n.isNumberChar_of_mem_text (by simp [marks, Number.isNumberChar, Char.isDigit])
  | .string s => .quote s
  | .array elements => by
    have h := (flat_compactElements elements).enclose (c := '[') rfl
    rw [compact, String.toList_append, String.toList_append]
    exact h
  | .object members => by
    have h := (flat_compactMembers members).enclose (c := '\x7b') rfl
    rw [compact, String.toList_append, String.toList_append]
    exact h

/-- The elements of a list are such a text. -/
theorem flat_compactElements : ∀ elements : List Json, Flat (compactElements elements).toList
  | [] => .nil
  | [v] => flat_compact v
  | v :: w :: rest => by
    rw [compactElements, String.toList_append, String.toList_append]
    · exact ((flat_compact v).append flat_separators.1).append (flat_compactElements (w :: rest))
    · simp

/-- The members of an object are such a text. -/
theorem flat_compactMembers :
    ∀ members : List (String × Json), Flat (compactMembers members).toList
  | [] => .nil
  | [(k, v)] => by
    rw [compactMembers, String.toList_append, String.toList_append]
    exact ((Flat.quote k).append flat_separators.2).append (flat_compact v)
  | (k, v) :: member :: rest => by
    rw [compactMembers, String.toList_append, String.toList_append, String.toList_append,
      String.toList_append]
    · exact ((((Flat.quote k).append flat_separators.2).append (flat_compact v)).append
        flat_separators.1).append (flat_compactMembers (member :: rest))
    · simp

end

end Json

/-! ## Property keys -/

namespace Identifier

open Nesting

/-- Whether a character may stand in a property key without quotes. -/
def isKeyChar (c : Char) : Bool :=
  isKeyStart c || c.isDigit

/-- A property key without quotes is not empty, and consists of characters of such keys. -/
theorem isBareKey_iff {cs : List Char} :
    isBareKey cs = true ↔ ∃ c rest, cs = c :: rest ∧ isKeyStart c = true ∧
      ∀ d ∈ rest, isKeyChar d = true := by
  cases cs with
  | nil => simp [isBareKey]
  | cons c rest => simp [isBareKey, isKeyChar]

/-- A property key is a text of a single line. -/
theorem flat_propertyKey (key : String) : Flat (propertyKey key).toList := by
  rw [propertyKey]
  split
  · next hbare =>
    obtain ⟨c, rest, heq, hc, hrest⟩ := isBareKey_iff.1 hbare
    have hchars : ∀ d ∈ c :: rest, isKeyChar d = true :=
      List.forall_mem_cons.2 ⟨by rw [isKeyChar, hc, Bool.true_or], hrest⟩
    rw [heq]
    exact .of_test hchars (by simp [marks, isKeyChar, isKeyStart, Char.isAlpha, Char.isUpper,
      Char.isLower, Char.isDigit])
  · exact .quote key

end Identifier

end SchemaTypes
