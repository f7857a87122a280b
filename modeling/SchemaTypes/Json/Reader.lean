import SchemaTypes.Json.Basic
import SchemaTypes.Json.SyntaxError

/-!
# Reading JSON text

The reader takes characters from the front of the text. Every reading function answers with what it
read and what is left of the text, or with a `Failure`: the fault and the rest of the text at which
it showed. The position of a failure is worked out once, from the length of that rest.

Lists and objects may be nested to a limited depth. In an object a repeated key keeps its first
place and takes its last value.
-/

namespace SchemaTypes
namespace Json

/-- A fault, what is left of the text from there, and how many bytes of that rest were taken. -/
structure Failure where
  fault : SyntaxFault
  rest : List Char
  taken : Nat

/-- A reading function answers with something, mostly a pair of what it read and the rest of the
text, or it fails. -/
abbrev Reading := Except Failure

/-- A failure that shows at the first byte of `rest`, or at the end of the text. -/
def failAt {α : Type} (fault : SyntaxFault) (rest : List Char) : Reading α :=
  .error ⟨fault, rest, if rest.isEmpty then 0 else 1⟩

/-- A failure that shows in front of `rest`. -/
def failBefore {α : Type} (fault : SyntaxFault) (rest : List Char) : Reading α :=
  .error ⟨fault, rest, 0⟩

/-- Blanks, tabs and line ends separate the parts of a text. -/
def isBlank (c : Char) : Bool :=
  c == ' ' || c == '\n' || c == '\t' || c == '\r'

/-- A text without the blanks at its front. -/
def skipBlanks (cs : List Char) : List Char :=
  cs.dropWhile isBlank

/-- The number of bytes of a text. -/
def byteCount (cs : List Char) : Nat :=
  cs.foldl (fun n c => n + c.utf8Size) 0

/-! ## Words and strings -/

/-- The rest of a word such as `null`, whose value is `v`. -/
def readWord (v : Json) : List Char → List Char → Reading (Json × List Char)
  | [], rest => .ok (v, rest)
  | _ :: _, [] => failAt .endInValue []
  | w :: word, c :: rest => if c = w then readWord v word rest else failAt .expectedWord (c :: rest)

/-- The value of a hexadecimal digit. -/
def hexValue? (c : Char) : Option Nat :=
  if '0' ≤ c ∧ c ≤ '9' then some (c.toNat - '0'.toNat)
  else if 'a' ≤ c ∧ c ≤ 'f' then some (c.toNat - 'a'.toNat + 10)
  else if 'A' ≤ c ∧ c ≤ 'F' then some (c.toNat - 'A'.toNat + 10)
  else none

/-- The number of four hexadecimal digits at the front of a text. -/
def readHex (cs : List Char) : Reading (Nat × List Char) :=
  let unit? : Option (Nat × List Char) :=
    match cs with
    | a :: b :: c :: d :: rest => do
      let high := (← hexValue? a) * 16 + (← hexValue? b)
      let low := (← hexValue? c) * 16 + (← hexValue? d)
      return (high * 256 + low, rest)
    | _ => none
  match unit? with
  | some unit => .ok unit
  | none => if byteCount cs < 4 then failAt .endInString [] else .error ⟨.invalidEscape, cs, 4⟩

/-- The second half of a surrogate pair, after the first half `high`. -/
def readLowSurrogate (high : Nat) : List Char → Reading (Char × List Char)
  | '\\' :: 'u' :: rest => do
    let (low, after) ← readHex rest
    if 0xDC00 ≤ low ∧ low ≤ 0xDFFF then
      return (Char.ofNat (0x10000 + (high - 0xD800) * 0x400 + (low - 0xDC00)), after)
    else
      failBefore .loneSurrogate after
  | [] => failAt .endInString []
  | ['\\'] => failAt .endInString []
  | '\\' :: rest => failAt .endInHexEscape rest
  | rest => failAt .endInHexEscape rest

/-- The character that an escape stands for, after its backslash. -/
def readEscape : List Char → Reading (Char × List Char)
  | [] => failAt .endInString []
  | '"' :: rest => .ok ('"', rest)
  | '\\' :: rest => .ok ('\\', rest)
  | '/' :: rest => .ok ('/', rest)
  | 'b' :: rest => .ok ('\x08', rest)
  | 'f' :: rest => .ok ('\x0c', rest)
  | 'n' :: rest => .ok ('\n', rest)
  | 'r' :: rest => .ok ('\r', rest)
  | 't' :: rest => .ok ('\t', rest)
  | 'u' :: rest => do
    let (unit, after) ← readHex rest
    if 0xDC00 ≤ unit ∧ unit ≤ 0xDFFF then failBefore .loneSurrogate after
    else if 0xD800 ≤ unit ∧ unit ≤ 0xDBFF then readLowSurrogate unit after
    else return (Char.ofNat unit, after)
  | rest => failAt .invalidEscape rest

/-- The characters of a string up to its closing quote, by at most `fuel` steps. -/
def readChars : Nat → List Char → Reading (List Char × List Char)
  | 0, cs => failAt .endInString cs
  | _ + 1, [] => failAt .endInString []
  | _ + 1, '"' :: rest => .ok ([], rest)
  | fuel + 1, '\\' :: rest => do
    let (c, after) ← readEscape rest
    let (cs, last) ← readChars fuel after
    return (c :: cs, last)
  | fuel + 1, c :: rest =>
    if c.toNat < 0x20 then
      failAt .controlCharacter (c :: rest)
    else do
      let (cs, last) ← readChars fuel rest
      return (c :: cs, last)

/-- A string, after its opening quote. -/
def readString (cs : List Char) : Reading (String × List Char) := do
  let (s, rest) ← readChars (cs.length + 1) cs
  return (String.ofList s, rest)

/-! ## Numbers

A number is read into a significand of at most 64 bits, whose further digits only count as powers of
ten, and a decimal exponent. The float is the significand times or divided by that power of ten, in
floating-point arithmetic. -/

/-- The value of a decimal digit. -/
def digitValue (c : Char) : Nat :=
  c.toNat - '0'.toNat

/-- The digits at the front of a text, and the rest. -/
def readDigits (cs : List Char) : List Char × List Char :=
  (cs.takeWhile Char.isDigit, cs.dropWhile Char.isDigit)

/-- A significand with as many of the digits appended as fit 64 bits, and the number of those that
were left out. -/
def appendDigits (significand : Nat) : List Char → Nat × Nat
  | [] => (significand, 0)
  | c :: rest =>
    let longer := significand * 10 + digitValue c
    if longer < 0x10000000000000000 then appendDigits longer rest
    else (significand, rest.length + 1)

/-- The power `10 ^ n` as the nearest float. -/
def powerOfTen (n : Nat) : Float :=
  Float.ofScientific 1 false n

/-- The float `x / 10 ^ n` of a significand `x`, by divisions by powers of ten that are floats.
After two divisions by the greatest of them nothing is left of a significand. -/
def divideByPower (x : Float) (n : Nat) : Float :=
  if n ≤ 308 then x / powerOfTen n
  else if n ≤ 616 then x / powerOfTen 308 / powerOfTen (n - 308)
  else 0

/-- The float `significand * 10 ^ exponent`, if it is finite. -/
def floatOf? (significand : Nat) (exponent : Int) : Option Float :=
  let x := (UInt64.ofNat significand).toFloat
  if exponent < 0 then
    some (divideByPower x exponent.natAbs)
  else if exponent ≤ 308 then
    let y := x * powerOfTen exponent.natAbs
    if y.isInf then none else some y
  else if x == 0 then some x
  else none

/-- A float with its sign. -/
def signed (negative : Bool) (x : Float) : Number :=
  .float (if negative then -x else x)

/-- The number of a significand and an exponent, when it is written as a float. -/
def finishFloat (negative : Bool) (significand : Nat) (exponent : Int) (rest : List Char) :
    Reading (Number × List Char) :=
  match floatOf? significand exponent with
  | some x => .ok (signed negative x, rest)
  | none => failBefore .numberOutOfRange rest

/-- The greatest number that an exponent may be; a greater one is zero or out of range. -/
def greatestExponent : Nat := 0x7fffffff

/-- A sum of exponents, within the bounds of a signed 32-bit word. -/
def clampExponent (e : Int) : Int :=
  max (-0x80000000) (min e 0x7fffffff)

/-- How many of the digits are needed to pass `greatestExponent`, and the number they make. -/
def readExponentDigits (value : Nat) : List Char → Option Nat × List Char
  | [] => (some value, [])
  | c :: rest =>
    if c.isDigit then
      let longer := value * 10 + digitValue c
      if greatestExponent < longer then (none, rest) else readExponentDigits longer rest
    else (some value, c :: rest)

/-- The exponent of a number, after its `e`. -/
def readExponent (negative : Bool) (significand : Nat) (exponent : Int) (cs : List Char) :
    Reading (Number × List Char) :=
  let (downward, digits) :=
    match cs with
    | '+' :: rest => (false, rest)
    | '-' :: rest => (true, rest)
    | rest => (false, rest)
  match digits with
  | [] => failAt .endInValue []
  | c :: _ =>
    if !c.isDigit then failAt .invalidNumber digits
    else
      match readExponentDigits 0 digits with
      | (some e, rest) =>
        let total := clampExponent (if downward then exponent - e else exponent + e)
        finishFloat negative significand total rest
      | (none, rest) =>
        if significand ≠ 0 ∧ !downward then failBefore .numberOutOfRange rest
        else .ok (signed negative 0, (readDigits rest).2)

/-- What follows the digits of a number: an exponent or nothing. -/
def readScale (negative : Bool) (significand : Nat) (exponent : Int) :
    List Char → Reading (Number × List Char)
  | 'e' :: rest => readExponent negative significand exponent rest
  | 'E' :: rest => readExponent negative significand exponent rest
  | rest => finishFloat negative significand exponent rest

/-- The fraction of a number, after its point. -/
def readFraction (negative : Bool) (significand : Nat) (exponent : Int) (cs : List Char) :
    Reading (Number × List Char) :=
  let (digits, rest) := readDigits cs
  if digits.isEmpty then
    failAt (if rest.isEmpty then .endInValue else .invalidNumber) rest
  else
    let (longer, left) := appendDigits significand digits
    readScale negative longer (exponent - (digits.length - left : Nat)) rest

/-- A whole number: exact if it fits, else a float. Minus zero is a float. -/
def wholeNumber (negative : Bool) (significand : Nat) : Number :=
  if negative then
    if h : 0 < significand ∧ significand ≤ 0x8000000000000000 then
      .integer ⟨-(significand : Int), by omega⟩
    else
      signed true (UInt64.ofNat significand).toFloat
  else if h : significand < 0x10000000000000000 then .integer ⟨significand, by omega⟩
  else .float (UInt64.ofNat significand).toFloat

/-- A number from its first digit on. -/
def readNumber (negative : Bool) (cs : List Char) : Reading (Number × List Char) :=
  let (digits, rest) := readDigits cs
  match digits with
  | [] => failAt (if rest.isEmpty then .endInValue else .invalidNumber) rest
  | '0' :: next :: more => failAt .invalidNumber (next :: more ++ rest)
  | _ =>
    let (significand, left) := appendDigits 0 digits
    match rest with
    | '.' :: after => readFraction negative significand left after
    | _ =>
      if left = 0 ∧ rest.head? ≠ some 'e' ∧ rest.head? ≠ some 'E' then
        .ok (wholeNumber negative significand, rest)
      else readScale negative significand left rest

/-! ## Values -/

mutual

/-- A value, after blanks, in which lists and objects are nested less than `depth` deep. -/
def readValue (depth : Nat) : Nat → List Char → Reading (Json × List Char)
  | 0, cs => failAt .endInValue cs
  | fuel + 1, cs =>
    match skipBlanks cs with
    | [] => failAt .endInValue []
    | 'n' :: rest => readWord .null ['u', 'l', 'l'] rest
    | 't' :: rest => readWord (.bool true) ['r', 'u', 'e'] rest
    | 'f' :: rest => readWord (.bool false) ['a', 'l', 's', 'e'] rest
    | '"' :: rest => do
      let (s, after) ← readString rest
      return (.string s, after)
    | '-' :: rest => do
      let (n, after) ← readNumber true rest
      return (.number n, after)
    | '[' :: rest =>
      match depth with
      | 0 | 1 => failAt .tooDeep ('[' :: rest)
      | inner + 1 => do
        let (elements, after) ← readElements inner fuel true rest
        return (.array elements, after)
    | '\x7b' :: rest =>
      match depth with
      | 0 | 1 => failAt .tooDeep ('\x7b' :: rest)
      | inner + 1 => do
        let (members, after) ← readMembers inner fuel [] true rest
        return (.object members, after)
    | c :: rest =>
      if c.isDigit then do
        let (n, after) ← readNumber false (c :: rest)
        return (.number n, after)
      else failAt .expectedValue (c :: rest)

/-- The elements of a list up to its closing bracket, the first of the list or a later one. -/
def readElements (depth : Nat) : Nat → Bool → List Char → Reading (List Json × List Char)
  | 0, _, cs => failAt .endInList cs
  | fuel + 1, first, cs =>
    match skipBlanks cs with
    | [] => failAt .endInList []
    | ']' :: rest => .ok ([], rest)
    | c :: rest =>
      if first then do
        let (v, after) ← readValue depth fuel (c :: rest)
        let (vs, last) ← readElements depth fuel false after
        return (v :: vs, last)
      else if c = ',' then
        match skipBlanks rest with
        | [] => failAt .endInValue []
        | ']' :: more => failAt .trailingComma (']' :: more)
        | next => do
          let (v, after) ← readValue depth fuel next
          let (vs, last) ← readElements depth fuel false after
          return (v :: vs, last)
      else failAt .expectedCommaOrBracket (c :: rest)

/-- The members of an object up to its closing brace, added to those read before. -/
def readMembers (depth : Nat) :
    Nat → List (String × Json) → Bool → List Char → Reading (List (String × Json) × List Char)
  | 0, _, _, cs => failAt .endInObject cs
  | fuel + 1, before, first, cs =>
    match skipBlanks cs with
    | [] => failAt .endInObject []
    | '\x7d' :: rest => .ok (before, rest)
    | c :: rest =>
      if first then
        if c = '"' then readMember depth fuel before rest else failAt .keyNotString (c :: rest)
      else if c = ',' then
        match skipBlanks rest with
        | [] => failAt .endInValue []
        | '"' :: more => readMember depth fuel before more
        | '\x7d' :: more => failAt .trailingComma ('\x7d' :: more)
        | next => failAt .keyNotString next
      else failAt .expectedCommaOrBrace (c :: rest)

/-- A member from inside the quotes of its key on, and the members after it. -/
def readMember (depth : Nat) :
    Nat → List (String × Json) → List Char → Reading (List (String × Json) × List Char)
  | 0, _, cs => failAt .endInObject cs
  | fuel + 1, before, cs => do
    let (key, afterKey) ← readString cs
    match skipBlanks afterKey with
    | [] => failAt .endInObject []
    | ':' :: rest => do
      let (v, after) ← readValue depth fuel rest
      readMembers depth fuel (setMember key v before) false after
    | next => failAt .expectedColon next

end

/-- A value and nothing after it but blanks. -/
def readText (depth : Nat) (cs : List Char) : Reading Json := do
  let (v, rest) ← readValue depth (3 * cs.length + 3) cs
  match skipBlanks rest with
  | [] => return v
  | next => failAt .trailingCharacters next

/-- The error of a failure in the given text. -/
def Failure.error (failure : Failure) (text : String) : SyntaxError :=
  let bytes := text.toUTF8.toList
  ⟨failure.fault, .after (bytes.take (bytes.length - byteCount failure.rest + failure.taken))⟩

/-- The value of a JSON text whose lists and objects are nested less than `depth` deep. -/
def readWithin (depth : Nat) (text : String) : Except SyntaxError Json :=
  match readText depth text.toList with
  | .ok v => .ok v
  | .error failure => .error (failure.error text)

/-- The greatest depth of lists and objects in a document is one below this. -/
def depthLimit : Nat := 128

/-- The value of a JSON text. -/
def read (text : String) : Except SyntaxError Json :=
  readWithin depthLimit text

end Json
end SchemaTypes
