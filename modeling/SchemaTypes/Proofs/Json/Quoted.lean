import Mathlib
import SchemaTypes.Json.Printer
import SchemaTypes.Json.Reader
import SchemaTypes.Proofs.Except

/-!
# Strings are read back

What is written in quotes is read back to the closing quote, whatever the text is
(`Json.ReadsBack.readString_quote`), if every character is written in one piece that the reader
takes in one step. So the characters of a document are written (`Json.readsBack_escapeChar`).
-/

namespace SchemaTypes
namespace Json

variable {c : Char} {cs rest last : List Char} {fuel : Nat}

/-- The digits of a character below `0x100` are read back. -/
theorem readHex_escapeCode {n : Nat} (hn : n < 0x100) (rest : List Char) :
    readHex ('0' :: '0' :: hexDigit (n / 16) :: hexDigit (n % 16) :: rest) = .ok (n, rest) := by
  have hvalue : ∀ m < 16, hexValue? (hexDigit m) = some m := by decide
  have hzero : hexValue? '0' = some 0 := by decide
  have hsum : n / 16 * 16 + n % 16 = n := Nat.div_add_mod' n 16
  simp [readHex, hzero, hvalue (n / 16) (by omega), hvalue (n % 16) (by omega), hsum]

/-- An escape is read in one step, if what is behind its backslash is read back. -/
theorem readChars_backslash {ds : List Char} (h : readChars fuel rest = .ok (cs, last))
    (hescape : readEscape ds = .ok (c, rest)) :
    readChars (fuel + 1) ('\\' :: ds) = .ok (c :: cs, last) := by
  simp [readChars, hescape, h, bind, Except.bind, pure, Except.pure]

/-- A character that needs no escape is read in one step. -/
theorem readChars_cons (h : readChars fuel rest = .ok (cs, last)) (hquote : c ≠ '"')
    (hslash : c ≠ '\\') (hcode : ¬c.toNat < 0x20) :
    readChars (fuel + 1) (c :: rest) = .ok (c :: cs, last) := by
  simp [readChars, hcode, h, bind, Except.bind, pure, Except.pure]

/-- A character below `0x100` that is written by its code is read in one step. -/
theorem readChars_escapeCode (h : readChars fuel rest = .ok (cs, last)) (hcode : c.toNat < 0x100) :
    readChars (fuel + 1) (escapeCode c ++ rest) = .ok (c :: cs, last) := by
  refine readChars_backslash h ?_
  have hread : readHex ('0' :: '0' :: hexDigit (c.toNat / 16) :: hexDigit (c.toNat % 16) :: rest) =
      .ok (c.toNat, rest) := readHex_escapeCode hcode rest
  have hlow : ¬(0xDC00 ≤ c.toNat ∧ c.toNat ≤ 0xDFFF) := by omega
  have hhigh : ¬(0xD800 ≤ c.toNat ∧ c.toNat ≤ 0xDBFF) := by omega
  simp [readEscape, hread, hlow, hhigh, bind, Except.bind, pure, Except.pure]

/-! ## Ways to write characters -/

/-- A way to write characters in quotes, each in a piece that the reader takes in one step. -/
def ReadsBack (escape : Char → List Char) : Prop :=
  ∀ {fuel rest cs last} (c : Char), readChars fuel rest = .ok (cs, last) →
    readChars (fuel + 1) (escape c ++ rest) = .ok (c :: cs, last)

/-- The characters of a document are read back. -/
theorem readsBack_escapeChar : ReadsBack escapeChar := by
  intro fuel rest cs last c h
  rw [escapeChar]
  split_ifs with hquote hslash _ _ _ _ _ hcode
  iterate 7
    · subst c
      exact readChars_backslash h rfl
  · exact readChars_escapeCode h (by omega)
  · exact readChars_cons h hquote hslash hcode

namespace ReadsBack

variable {escape : Char → List Char}

/-- A text in quotes is read to the closing quote. -/
theorem readChars_quoted (hescape : ReadsBack escape) (h : cs.length < fuel) (rest : List Char) :
    readChars fuel (cs.flatMap escape ++ '"' :: rest) = .ok (cs, rest) := by
  induction cs generalizing fuel with
  | nil =>
    obtain ⟨n, rfl⟩ := Nat.exists_eq_succ_of_ne_zero (Nat.ne_of_gt h)
    rfl
  | cons c cs ih =>
    obtain ⟨n, rfl⟩ := Nat.exists_eq_succ_of_ne_zero (Nat.ne_of_gt (Nat.zero_lt_of_lt h))
    rw [List.flatMap_cons, List.append_assoc]
    exact hescape c (ih (Nat.lt_of_succ_lt_succ h))

/-- A character is written as one or more. -/
theorem ne_nil (hescape : ReadsBack escape) (c : Char) : escape c ≠ [] := by
  intro hnil
  have hend : readChars 1 ['"'] = .ok ([], []) := rfl
  have hread := hescape c hend
  rw [hnil] at hread
  cases hread

/-- A string is read back to its closing quote. -/
theorem readString_quote (hescape : ReadsBack escape) (s : String) (rest : List Char) :
    readString (s.toList.flatMap escape ++ '"' :: rest) = .ok (s, rest) := by
  have hlength : s.toList.length ≤ (s.toList.flatMap escape).length := by
    induction s.toList with
    | nil => rfl
    | cons c cs ih =>
      have := List.length_pos_iff.2 (hescape.ne_nil c)
      rw [List.flatMap_cons, List.length_append, List.length_cons]
      omega
  rw [readString, hescape.readChars_quoted (by rw [List.length_append]; omega)]
  exact congrArg (fun t => Except.ok (t, rest)) String.ofList_toList

end ReadsBack

end Json
end SchemaTypes
