import SchemaTypes.Filter.Basic

/-!
# Tokens of filters

The text of a filter is cut into words, numbers, strings, names of fields and symbols. Operators are
the longest runs of operator characters, but a minus sign is an operator by itself, so that it may
stand right behind another one. Blanks separate tokens; a comment goes from a hash sign to
the end of the line, or of the next line if the line ends with an odd number of backslashes.
-/

namespace SchemaTypes
namespace Filter

/-- A token. -/
inductive Token where
  | word (name : String)
  | variable (name : String)
  /-- A dot with a name right behind it. -/
  | field (name : String)
  | number (q : Quantity)
  | text (s : String)
  /-- A run of operator characters, or two dots. -/
  | operator (chars : String)
  /-- A dot, a bracket or another character that stands for itself. -/
  | mark (c : Char)

namespace Token

/-- Whether a character may start a name. -/
def isNameStart (c : Char) : Bool :=
  c.isAlpha || c == '_'

/-- Whether a character may continue a name. -/
def isNamePart (c : Char) : Bool :=
  c.isAlphanum || c == '_'

/-- Whether a character belongs to operators of several characters. -/
def isOperator (c : Char) : Bool :=
  "|=!<>+*/%".contains c

/-- Whether a character is a token by itself. -/
def isMark (c : Char) : Bool :=
  ".()[]\x7b\x7d:;,?".contains c

/-- Whether a character separates tokens. -/
def isSpace (c : Char) : Bool :=
  c.isWhitespace || c == '\x0b' || c == '\x0c' || c == '\x85' || c == '\xa0' ||
    c == '\u1680' || ('\u2000' ≤ c && c ≤ '\u200a') || c == '\u2028' || c == '\u2029' ||
    c == '\u202f' || c == '\u205f' || c == '\u3000'

/-- What is left of a text after the rest of a comment; `odd` says whether an odd number of
backslashes stands in front. -/
def skipComment (odd : Bool) : List Char → List Char
  | [] => []
  | '\\' :: rest => skipComment (!odd) rest
  | '\r' :: '\n' :: rest => if odd then skipComment false rest else rest
  | '\n' :: rest => if odd then skipComment false rest else rest
  | _ :: rest => skipComment false rest

/-- The float of a decimal: its digits, of which the last `places` are a fraction, times a power of
ten. Beyond the bounds that the number of digits gives, the float is zero or infinite anyway. -/
def decimal (digits : List Char) (places : Nat) (exponent : Int) : Float :=
  let n := digits.foldl (fun n c => 10 * n + (c.toNat - '0'.toNat)) 0
  let bound : Int := digits.length + 400
  let e := max (-bound) (min bound (exponent - places))
  Float.ofScientific n (e < 0) e.natAbs

/-- The number of a text of digits, with an optional fraction and exponent. -/
def quantity (text : List Char) (digits : List Char) (places : Nat) (exponent : Int)
    (isWhole : Bool) : Quantity :=
  let written := Quantity.written (String.ofList text) (decimal digits places exponent)
  if isWhole then
    match Integer.ofInt? (digits.foldl (fun n c => 10 * n + (c.toNat - '0'.toNat)) 0 : Nat) with
    | some n => if n.value < 0x8000000000000000 then .given (.integer n) else written
    | none => written
  else written

/-- The digits at the front of a text, and the rest. -/
def spanDigits (cs : List Char) : List Char × List Char :=
  (cs.takeWhile Char.isDigit, cs.dropWhile Char.isDigit)

/-- The number at the front of a text, and the rest. Behind a point there is at least one digit. -/
def readNumber (cs : List Char) : Option (Token × List Char) :=
  let (whole, afterWhole) := spanDigits cs
  let (fraction, afterFraction) :=
    match afterWhole with
    | '.' :: rest => spanDigits rest
    | rest => ([], rest)
  let hasPoint := afterWhole.head? = some '.'
  let digits := whole ++ fraction
  let consumed (rest : List Char) := cs.take (cs.length - rest.length)
  let exponent? :=
    match afterFraction with
    | c :: rest => if c = 'e' || c = 'E' then some rest else none
    | [] => none
  if hasPoint && fraction.isEmpty then none
  else
    match exponent? with
    | none =>
      some (.number (quantity (consumed afterFraction) digits fraction.length 0 (!hasPoint)),
        afterFraction)
    | some rest =>
      let (isDown, rest) :=
        match rest with
        | '+' :: more => (false, more)
        | '-' :: more => (true, more)
        | more => (false, more)
      let (power, after) := spanDigits rest
      if power.isEmpty then none
      else
        let size : Int := power.foldl (fun n c => 10 * n + (c.toNat - '0'.toNat)) 0
        let exponent := if isDown then -size else size
        some (.number (quantity (consumed after) digits fraction.length exponent false), after)

/-- The value of a hexadecimal digit. -/
def hex? (c : Char) : Option Nat :=
  if c.isDigit then some (c.toNat - '0'.toNat)
  else if 'a' ≤ c && c ≤ 'f' then some (c.toNat - 'a'.toNat + 10)
  else if 'A' ≤ c && c ≤ 'F' then some (c.toNat - 'A'.toNat + 10)
  else none

/-- The character with the code point of four hexadecimal digits, if there is one. -/
def codePoint? (a b c d : Char) : Option Char := do
  let n := (((← hex? a) * 16 + (← hex? b)) * 16 + (← hex? c)) * 16 + (← hex? d)
  if n.isValidChar then some (Char.ofNat n) else none

/-- The characters of a string up to its closing quote, and the rest of the text. -/
def readText : List Char → Option (List Char × List Char)
  | [] => none
  | '"' :: rest => some ([], rest)
  | '\\' :: 'u' :: a :: b :: c :: d :: rest => do
    let char ← codePoint? a b c d
    let (cs, last) ← readText rest
    return (char :: cs, last)
  | '\\' :: c :: rest => do
    let char ←
      match c with
      | '"' => some '"'
      | '\\' => some '\\'
      | '/' => some '/'
      | 'b' => some '\x08'
      | 'f' => some '\x0c'
      | 'n' => some '\n'
      | 'r' => some '\r'
      | 't' => some '\t'
      | _ => none
    let (cs, last) ← readText rest
    return (char :: cs, last)
  | c :: rest => do
    let (cs, last) ← readText rest
    return (c :: cs, last)

/-- The token at the front of a text that starts with neither a blank nor a comment, and the rest.
-/
def readOne : List Char → Option (Token × List Char)
  | [] => none
  | '"' :: rest => (readText rest).map fun (s, after) => (.text (String.ofList s), after)
  | '$' :: c :: rest =>
    if isNameStart c then
      let name := (c :: rest).takeWhile isNamePart
      some (.variable (String.ofList ('$' :: name)), rest.dropWhile isNamePart)
    else none
  | '.' :: '.' :: rest => some (.operator "..", rest)
  | '.' :: c :: rest =>
    if isNameStart c then
      some (.field (String.ofList (c :: rest.takeWhile isNamePart)), rest.dropWhile isNamePart)
    else some (.mark '.', c :: rest)
  | c :: rest =>
    if isNameStart c then
      some (.word (String.ofList (c :: rest.takeWhile isNamePart)), rest.dropWhile isNamePart)
    else if c.isDigit then readNumber (c :: rest)
    else if c = '-' then some (.operator "-", rest)
    else if isOperator c then
      some (.operator (String.ofList (c :: rest.takeWhile isOperator)), rest.dropWhile isOperator)
    else if isMark c then some (.mark c, rest)
    else none

/-- The tokens of a text, by at most `fuel` steps. -/
def readAll : Nat → List Char → Option (List Token)
  | 0, _ => none
  | _ + 1, [] => some []
  | fuel + 1, c :: rest =>
    if isSpace c then readAll fuel rest
    else if c = '#' then readAll fuel (skipComment false rest)
    else
      match readOne (c :: rest) with
      | none => none
      | some (token, after) => (readAll fuel after).map (token :: ·)

/-- The tokens of a text. -/
def ofText? (text : String) : Option (List Token) :=
  readAll (text.toList.length + 1) text.toList

end Token

end Filter
end SchemaTypes
