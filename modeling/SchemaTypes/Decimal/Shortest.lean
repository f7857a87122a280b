/-!
# The shortest decimal of a float

A finite positive 64-bit float is `m * 2 ^ q`. The reals that round to it form an interval around
it, which contains its ends exactly when `m` is even. Among the decimals in that interval
`Decimal.shortest` takes one with the fewest digits, and among those the nearest to the float; of
two at the same distance a rule (`Decimal.Tie`) takes one. If a point of a decimal grid lies in the
interval, so does one of the two neighbours of the float on that grid, so for each number of digits
only these two are looked at.
-/

namespace SchemaTypes

/-- A positive decimal `d.ddd * 10 ^ exponent`, by its digits (the first is not `0`). -/
structure Decimal where
  digits : List Char
  exponent : Int
  deriving DecidableEq

namespace Decimal

/-- Which of two neighbouring decimals at the same distance from a number is taken. -/
inductive Tie where
  /-- The one whose last digit is even. -/
  | toEven
  /-- The greater one. -/
  | up
  deriving DecidableEq

/-- Whether the lower of two neighbours is taken, `n` being its digits. -/
def Tie.takesLower (tie : Tie) (n : Nat) : Bool :=
  match tie with
  | .toEven => n % 2 == 0
  | .up => false

/-- A positive binary number `mantissa * 2 ^ exponent`. -/
structure Binary where
  mantissa : Nat
  exponent : Int
  deriving DecidableEq

/-- The mantissa and exponent of a finite positive float, by its bits. -/
def Binary.ofBits (bits : UInt64) : Binary :=
  let fraction : Nat := bits.toNat % 0x10000000000000
  let scale : Nat := bits.toNat / 0x10000000000000 % 0x800
  if scale = 0 then ⟨fraction, -1074⟩ else ⟨fraction + 0x10000000000000, (scale : Int) - 1075⟩

/-- The rational `num / den`, here of positive numbers only. -/
structure Ratio where
  num : Nat
  den : Nat

namespace Ratio

/-- The number `n * 2 ^ e`. -/
def scaled (n : Nat) (e : Int) : Ratio :=
  if 0 ≤ e then ⟨n * Nat.pow 2 e.toNat, 1⟩ else ⟨n, Nat.pow 2 (-e).toNat⟩

/-- The number divided by `10 ^ e`. -/
def shiftRight (x : Ratio) (e : Int) : Ratio :=
  if 0 ≤ e then ⟨x.num, x.den * Nat.pow 10 e.toNat⟩ else ⟨x.num * Nat.pow 10 (-e).toNat, x.den⟩

end Ratio

/-- The number of decimal digits of a positive number. -/
def digitCount (n : Nat) : Nat :=
  (Nat.toDigits 10 n).length

/-- The exponent `k` with `10 ^ k ≤ x < 10 ^ (k + 1)`. -/
def magnitude (x : Ratio) : Int :=
  if x.den ≤ x.num then
    (digitCount (x.num / x.den) : Int) - 1
  else
    let d := digitCount (x.den / x.num)
    if x.num * Nat.pow 10 (d - 1) = x.den then 1 - (d : Int) else -(d : Int)

/-- Whether the decimal `n * 10 ^ e` rounds to `b`: whether it lies in the interval from half the
gap below `b` to half the gap above it, ends included iff the mantissa of `b` is even. The gap below
the least mantissa of a binade is half as wide. -/
def roundsTo (b : Binary) (n : Nat) (e : Int) : Bool :=
  let below := if b.mantissa = 0x10000000000000 ∧ -1074 < b.exponent then 1 else 2
  let low := (Ratio.scaled (4 * b.mantissa - below) (b.exponent - 2)).shiftRight e
  let high := (Ratio.scaled (4 * b.mantissa + 2) (b.exponent - 2)).shiftRight e
  if b.mantissa % 2 = 0 then
    low.num ≤ n * low.den ∧ n * high.den ≤ high.num
  else
    low.num < n * low.den ∧ n * high.den < high.num

/-- The neighbour of `b` on the grid of multiples of `10 ^ e` that rounds to `b`; of two the nearer,
of two at the same distance the one that `tie` takes. -/
def neighbour? (tie : Tie) (b : Binary) (e : Int) : Option Nat :=
  let x := (Ratio.scaled b.mantissa b.exponent).shiftRight e
  let down := x.num / x.den
  let up := down + 1
  match roundsTo b down e, roundsTo b up e with
  | true, false => some down
  | false, true => some up
  | false, false => none
  | true, true =>
    let gap := 2 * (x.num % x.den)
    if gap < x.den ∨ (gap = x.den ∧ tie.takesLower down) then some down else some up

/-- The decimal `n * 10 ^ e`, without zeros at the end of its digits. -/
def ofGrid (n : Nat) (e : Int) : Decimal :=
  let digits := Nat.toDigits 10 n
  ⟨(digits.reverse.dropWhile (· == '0')).reverse, e + digits.length - 1⟩

/-- The first grid of at least `n` digits on which a neighbour of `b` rounds to it. Seventeen digits
are enough for every float. -/
def search (tie : Tie) (b : Binary) (k : Int) : Nat → Nat → Decimal
  | 0, n => ofGrid ((neighbour? tie b (k + 1 - n)).getD 0) (k + 1 - n)
  | steps + 1, n =>
    match neighbour? tie b (k + 1 - n) with
    | some d => ofGrid d (k + 1 - n)
    | none => search tie b k steps (n + 1)

/-- The shortest decimal that rounds to `b`. -/
def shortest (tie : Tie) (b : Binary) : Decimal :=
  search tie b (magnitude (Ratio.scaled b.mantissa b.exponent)) 16 1

end Decimal

end SchemaTypes
