import SchemaTypes.Json.Basic
import SchemaTypes.Decimal.Shortest

/-!
# JSON text

Two printed forms of a JSON value: `Json.compact` without any blanks, and `Json.pretty` with one
member or element a line, indented by two blanks a level. Both write a float with the fewest digits
that read back as the same float (`Decimal.shortest`), and escape in a string the quote, the
backslash and the control characters only.
-/

namespace SchemaTypes

/-- How a float is written: positionally while its decimal exponent lies between two bounds, else
with an exponent, whose plus sign may be written or not. The last digit follows a rule if two are at
the same distance. -/
structure FloatFormat where
  least : Int
  greatest : Int
  plus : Bool
  tie : Decimal.Tie

namespace FloatFormat

/-- The digits of a decimal with the point at its place, and at least one digit on either side. -/
def positional (d : Decimal) : List Char :=
  if d.exponent < 0 then
    '0' :: '.' :: List.replicate (-d.exponent - 1).toNat '0' ++ d.digits
  else
    let whole := d.exponent.toNat + 1
    let fraction := d.digits.drop whole
    d.digits.take whole ++ List.replicate (whole - d.digits.length) '0' ++
      '.' :: (if fraction.isEmpty then ['0'] else fraction)

/-- The digits of a decimal with the point after the first, and the exponent. -/
def scientific (plus : Bool) (d : Decimal) : List Char :=
  let fraction := d.digits.drop 1
  let sign := if d.exponent < 0 then ['-'] else if plus then ['+'] else []
  d.digits.take 1 ++ (if fraction.isEmpty then [] else '.' :: fraction) ++
    'e' :: sign ++ Nat.toDigits 10 d.exponent.natAbs

/-- The text of a finite float. -/
def text (format : FloatFormat) (x : Float) : String :=
  let bits := x.toBits
  let sign := if 0x8000000000000000 ≤ bits.toNat then ['-'] else []
  let binary := Decimal.Binary.ofBits bits
  if binary.mantissa = 0 then
    String.ofList (sign ++ ['0', '.', '0'])
  else
    let d := Decimal.shortest format.tie binary
    String.ofList <| sign ++
      if format.least ≤ d.exponent ∧ d.exponent ≤ format.greatest then positional d
      else scientific format.plus d

end FloatFormat

/-- In a document floats from `1e-5` to below `1e+16` are written positionally, and ties go to the
even digit. -/
def Number.floatFormat : FloatFormat := ⟨-5, 15, true, .toEven⟩

/-- The text of a number. -/
def Number.text : Number → String
  | .integer n => toString n.value
  | .float x => Number.floatFormat.text x

namespace Json

/-- The lower-case hexadecimal digit of a number below sixteen. -/
def hexDigit (n : Nat) : Char :=
  if n < 10 then Char.ofNat ('0'.toNat + n) else Char.ofNat ('a'.toNat + (n - 10))

/-- A character below `0x100` by its code point, in four hexadecimal digits. -/
def escapeCode (c : Char) : List Char :=
  ['\\', 'u', '0', '0', hexDigit (c.toNat / 16), hexDigit (c.toNat % 16)]

/-- A character as it stands inside quotes. -/
def escapeChar (c : Char) : List Char :=
  if c = '"' then ['\\', '"']
  else if c = '\\' then ['\\', '\\']
  else if c = '\x08' then ['\\', 'b']
  else if c = '\t' then ['\\', 't']
  else if c = '\n' then ['\\', 'n']
  else if c = '\x0c' then ['\\', 'f']
  else if c = '\r' then ['\\', 'r']
  else if c.toNat < 0x20 then escapeCode c
  else [c]

/-- A text as a JSON string, with its quotes. -/
def quote (s : String) : String :=
  String.ofList ('"' :: s.toList.flatMap escapeChar ++ ['"'])

mutual

/-- A value on one line, without blanks. -/
def compact : Json → String
  | .null => "null"
  | .bool b => if b then "true" else "false"
  | .number n => n.text
  | .string s => quote s
  | .array elements => "[" ++ compactElements elements ++ "]"
  | .object members => "\x7b" ++ compactMembers members ++ "\x7d"

/-- The elements of a list, separated by commas. -/
def compactElements : List Json → String
  | [] => ""
  | [v] => compact v
  | v :: rest => compact v ++ "," ++ compactElements rest

/-- The members of an object, separated by commas. -/
def compactMembers : List (String × Json) → String
  | [] => ""
  | [(k, v)] => quote k ++ ":" ++ compact v
  | (k, v) :: rest => quote k ++ ":" ++ compact v ++ "," ++ compactMembers rest

end

/-- The start of a line that is nested `depth` levels deep. -/
def indentation (depth : Nat) : String :=
  String.ofList (List.replicate (2 * depth) ' ')

mutual

/-- A value that is nested `depth` levels deep, over several lines. -/
def prettyAt (depth : Nat) : Json → String
  | .array [] => "[]"
  | .array elements =>
    "[\n" ++ prettyElements (depth + 1) elements ++ "\n" ++ indentation depth ++ "]"
  | .object [] => "\x7b\x7d"
  | .object members =>
    "\x7b\n" ++ prettyMembers (depth + 1) members ++ "\n" ++ indentation depth ++ "\x7d"
  | .null => "null"
  | .bool b => if b then "true" else "false"
  | .number n => n.text
  | .string s => quote s

/-- The elements of a list, one a line. -/
def prettyElements (depth : Nat) : List Json → String
  | [] => ""
  | [v] => indentation depth ++ prettyAt depth v
  | v :: rest => indentation depth ++ prettyAt depth v ++ ",\n" ++ prettyElements depth rest

/-- The members of an object, one a line. -/
def prettyMembers (depth : Nat) : List (String × Json) → String
  | [] => ""
  | [(k, v)] => indentation depth ++ quote k ++ ": " ++ prettyAt depth v
  | (k, v) :: rest =>
    indentation depth ++ quote k ++ ": " ++ prettyAt depth v ++ ",\n" ++ prettyMembers depth rest

end

/-- A value over several lines, two blanks of indentation a level. -/
def pretty (v : Json) : String :=
  prettyAt 0 v

end Json

end SchemaTypes
