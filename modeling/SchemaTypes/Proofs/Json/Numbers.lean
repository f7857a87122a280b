import SchemaTypes.Json.Printer
import SchemaTypes.Json.Reader
import SchemaTypes.Proofs.Pointer.Segments

/-!
# Whole numbers are read back

The digits of a number that fits 64 bits are read back as that number, if what stands behind them
does not go on with it (`Json.readNumber_toDigits`), and so is a whole number with its sign
(`Json.readValue_integer`).
-/

namespace SchemaTypes
namespace Json

variable {digits rest : List Char}

/-- What stands behind a number does not go on with it. -/
def EndsNumber (rest : List Char) : Prop :=
  ∀ c ∈ rest.head?, c.isDigit = false ∧ c ≠ '.' ∧ c ≠ 'e' ∧ c ≠ 'E'

/-- A character that does not go on with a number ends it. -/
theorem endsNumber_cons {c : Char} (h : c.isDigit = false ∧ c ≠ '.' ∧ c ≠ 'e' ∧ c ≠ 'E')
    (rest : List Char) : EndsNumber (c :: rest) :=
  fun _ hc => Option.some.inj hc ▸ h

/-- Digits behind a number do not make it less. -/
theorem le_ofDigitChars (digits : List Char) (n : Nat) : n ≤ Nat.ofDigitChars 10 digits n := by
  induction digits generalizing n with
  | nil => exact Nat.le_refl _
  | cons c rest ih =>
    have := ih (10 * n + (c.toNat - '0'.toNat))
    rw [Nat.ofDigitChars_cons]
    omega

/-- No digit is left out of a number that fits. -/
theorem appendDigits_eq {n : Nat} (h : Nat.ofDigitChars 10 digits n < 0x10000000000000000) :
    appendDigits n digits = (Nat.ofDigitChars 10 digits n, 0) := by
  induction digits generalizing n with
  | nil => rfl
  | cons c rest ih =>
    rw [Nat.ofDigitChars_cons, Nat.mul_comm] at h ⊢
    have hle := le_ofDigitChars rest (n * 10 + digitValue c)
    rw [appendDigits, if_pos (Nat.lt_of_le_of_lt hle h)]
    exact ih h

/-- Digits are read up to what stands behind them. -/
theorem readDigits_append (hdigits : ∀ c ∈ digits, c.isDigit = true) (hrest : EndsNumber rest) :
    readDigits (digits ++ rest) = (digits, rest) := by
  rw [readDigits, List.takeWhile_append_of_pos hdigits, List.dropWhile_append_of_pos hdigits]
  cases rest with
  | nil => simp
  | cons c more => simp [(hrest c rfl).1]

/-- The digits of a number are read back. -/
theorem readNumber_toDigits {m : Nat} (hm : m < 0x10000000000000000) (hrest : EndsNumber rest)
    (negative : Bool) :
    readNumber negative (Nat.toDigits 10 m ++ rest) = .ok (wholeNumber negative m, rest) := by
  have hdigits : ∀ c ∈ Nat.toDigits 10 m, c.isDigit = true :=
    fun _ hc => Nat.isDigit_of_mem_toDigits (by decide) (by decide) hc
  have hread : readDigits (Nat.toDigits 10 m ++ rest) = (Nat.toDigits 10 m, rest) :=
    readDigits_append hdigits hrest
  have happend : appendDigits 0 (Nat.toDigits 10 m) = (m, 0) := by
    rw [appendDigits_eq, Nat.ofDigitChars_ten_toDigits]
    rwa [Nat.ofDigitChars_ten_toDigits]
  simp only [readNumber, hread]
  split
  · next hnil => exact absurd hnil Nat.toDigits_ne_nil
  · next next more hzero =>
    rcases Nat.eq_zero_or_pos m with rfl | hpos
    · cases hzero
    · exact absurd (by rw [hzero]; rfl) (Step.head?_toDigits_ne m hpos)
  · simp only [happend]
    split
    · exact absurd rfl (hrest '.' rfl).2.1
    · refine if_pos ⟨trivial, fun he => ?_, fun he => ?_⟩
      · exact (hrest 'e' he).2.2.1 rfl
      · exact (hrest 'E' he).2.2.2 rfl

/-- A text without a blank in front is left as it is. -/
theorem skipBlanks_cons {c : Char} (h : isBlank c = false) (rest : List Char) :
    skipBlanks (c :: rest) = c :: rest := by
  rw [skipBlanks, List.dropWhile_cons_of_neg (by simp [h])]

/-- A digit is no blank. -/
theorem isBlank_of_isDigit {c : Char} (h : c.isDigit = true) : isBlank c = false := by
  rw [Bool.eq_false_iff]
  intro hblank
  simp only [isBlank, Bool.or_eq_true, beq_iff_eq] at hblank
  rcases hblank with ((rfl | rfl) | rfl) | rfl <;> cases h

/-- The first digit of a number is one. -/
theorem exists_toDigits_eq (m : Nat) :
    ∃ c more, Nat.toDigits 10 m = c :: more ∧ c.isDigit = true := by
  obtain ⟨c, more, hcons⟩ := List.exists_cons_of_ne_nil (@Nat.toDigits_ne_nil m 10)
  have hmem : c ∈ Nat.toDigits 10 m := hcons ▸ .head more
  exact ⟨c, more, hcons, Nat.isDigit_of_mem_toDigits (by decide) (by decide) hmem⟩

/-- A digit starts a number. -/
theorem readValue_digit {c : Char} (h : c.isDigit = true) (depth fuel : Nat) (rest : List Char) :
    readValue depth (fuel + 1) (c :: rest) =
      (readNumber false (c :: rest)).map fun (n, after) => (.number n, after) := by
  rw [readValue, skipBlanks_cons (isBlank_of_isDigit h)]
  split
  case h_9 heq =>
    obtain ⟨rfl, rfl⟩ := List.cons.inj heq
    rw [if_pos h]
    rfl
  all_goals
    next heq =>
    cases heq
    try cases h

/-- The text of a whole number is the digits of its size behind its sign. -/
theorem toList_toString_int (n : Int) : (toString n).toList =
    if n < 0 then '-' :: Nat.toDigits 10 n.natAbs else Nat.toDigits 10 n.natAbs := by
  cases n with
  | ofNat m => exact Nat.toList_repr
  | negSucc m =>
    show ("-" ++ (m + 1).repr).toList = _
    rw [String.toList_append, Nat.toList_repr, if_pos (Int.negSucc_lt_zero m)]
    rfl

/-- The text of a whole number is read back. -/
theorem readValue_integer (n : Integer) (hrest : EndsNumber rest) (depth fuel : Nat) :
    readValue depth (fuel + 1) ((toString n.value).toList ++ rest) =
      .ok (.number (.integer n), rest) := by
  obtain ⟨value, hlow, hhigh⟩ := n
  have hnumber := readNumber_toDigits (m := value.natAbs) (by omega) hrest
  rw [toList_toString_int]
  by_cases hneg : value < 0
  · have hwhole : wholeNumber true value.natAbs = .integer ⟨value, hlow, hhigh⟩ := by
      rw [wholeNumber, if_pos rfl, dif_pos (by omega)]
      congr
      omega
    rw [if_pos hneg, List.cons_append, readValue, skipBlanks_cons rfl]
    show (readNumber true (Nat.toDigits 10 value.natAbs ++ rest) >>= _) = _
    rw [hnumber, hwhole]
    rfl
  · have hwhole : wholeNumber false value.natAbs = .integer ⟨value, hlow, hhigh⟩ := by
      rw [wholeNumber, if_neg Bool.false_ne_true, dif_pos (by omega)]
      congr
      omega
    obtain ⟨c, more, hcons, hdigit⟩ := exists_toDigits_eq value.natAbs
    rw [if_neg hneg, hcons, List.cons_append, readValue_digit hdigit, ← List.cons_append, ← hcons,
      hnumber, hwhole]
    rfl

end Json
end SchemaTypes
