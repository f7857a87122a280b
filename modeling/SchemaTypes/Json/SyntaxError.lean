/-!
# Errors of JSON text

What can be wrong with a JSON text, and where. A place in a text is a count of bytes; for people it
is shown as a line and the number of bytes of that line up to it.
-/

namespace SchemaTypes

/-- What is wrong with a JSON text. -/
inductive SyntaxFault where
  | endInValue
  | endInList
  | endInObject
  | endInString
  | expectedValue
  | expectedWord
  | expectedColon
  | expectedCommaOrBracket
  | expectedCommaOrBrace
  | keyNotString
  | trailingComma
  | trailingCharacters
  | invalidNumber
  | numberOutOfRange
  | invalidEscape
  | endInHexEscape
  | loneSurrogate
  | controlCharacter
  | tooDeep
  deriving DecidableEq

/-- The text of a fault. -/
def SyntaxFault.message : SyntaxFault → String
  | .endInValue => "EOF while parsing a value"
  | .endInList => "EOF while parsing a list"
  | .endInObject => "EOF while parsing an object"
  | .endInString => "EOF while parsing a string"
  | .expectedValue => "expected value"
  | .expectedWord => "expected ident"
  | .expectedColon => "expected `:`"
  | .expectedCommaOrBracket => "expected `,` or `]`"
  | .expectedCommaOrBrace => "expected `,` or `\x7d`"
  | .keyNotString => "key must be a string"
  | .trailingComma => "trailing comma"
  | .trailingCharacters => "trailing characters"
  | .invalidNumber => "invalid number"
  | .numberOutOfRange => "number out of range"
  | .invalidEscape => "invalid escape"
  | .endInHexEscape => "unexpected end of hex escape"
  | .loneSurrogate => "lone leading surrogate in hex escape"
  | .controlCharacter => "control character (\\u0000-\\u001F) found while parsing a string"
  | .tooDeep => "recursion limit exceeded"

/-- A line, counted from one, and a number of bytes of it. -/
structure Position where
  line : Nat
  column : Nat
  deriving DecidableEq

namespace Position

/-- The position after one more byte. -/
def advance (p : Position) (byte : UInt8) : Position :=
  if byte = 10 then ⟨p.line + 1, 0⟩ else ⟨p.line, p.column + 1⟩

/-- The position after the given bytes of a text. -/
def after (bytes : List UInt8) : Position :=
  bytes.foldl advance ⟨1, 0⟩

end Position

/-- A fault of a JSON text and the position up to which the text was read when it showed. -/
structure SyntaxError where
  fault : SyntaxFault
  position : Position
  deriving DecidableEq

/-- The text of an error. -/
def SyntaxError.message (e : SyntaxError) : String :=
  e.fault.message ++ " at line " ++ toString e.position.line ++
    " column " ++ toString e.position.column

end SchemaTypes
