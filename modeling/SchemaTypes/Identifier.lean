import SchemaTypes.Json.Printer
import SchemaTypes.Pointer

/-!
# Identifiers

Names of declarations are made from titles, keys and file names. A text is cut into words at
everything that is no ASCII letter or digit, the first letter of each word is raised, and the words
are put together. A text without a letter or a digit makes no name.
-/

namespace SchemaTypes
namespace Identifier

/-- The words of a text: its longest runs of ASCII letters and digits. -/
def words (cs : List Char) : List (List Char) :=
  (Text.split (!·.isAlphanum) cs).filter (!·.isEmpty)

/-- A word with its first letter raised. -/
def raise : List Char → List Char
  | [] => []
  | c :: rest => c.toUpper :: rest

/-- An underscore goes in front of a digit, because no identifier starts with a digit. -/
def guardDigit : List Char → List Char
  | [] => []
  | c :: rest => if c.isDigit then '_' :: c :: rest else c :: rest

/-- The name that a text makes; it may be empty. -/
def normalize (raw : String) : String :=
  String.ofList (guardDigit ((words raw.toList).flatMap raise))

/-- The name that a text makes, if it makes one. -/
def normalized? (raw : String) : Option String :=
  let name := normalize raw
  if name.isEmpty then none else some name

/-- The name of a place that only its pointer is known of: what its last step makes. -/
def ofPointer (p : Pointer) : String :=
  if p.isRoot then "Root" else (p.lastSegment?.bind normalized?).getD "Schema"

/-- A text without any `.json` at its end. -/
def trimJson (cs : List Char) : List Char :=
  let reversed := cs.reverse
  let rec trim : List Char → List Char
    | 'n' :: 'o' :: 's' :: 'j' :: '.' :: rest => trim rest
    | rest => rest
  (trim reversed).reverse

/-- The name of a schema outside the document: what the last of the pieces of its address between
slashes and hash signs makes that makes a name. -/
def ofExternal (reference : String) : String :=
  let pieces := Text.split (fun c => c == '/' || c == '#') reference.toList
  (pieces.reverse.findSome? fun piece => normalized? (String.ofList (trimJson piece))).getD "Schema"

/-- Whether a character may start a property key without quotes. -/
def isKeyStart (c : Char) : Bool :=
  c.isAlpha || c == '_' || c == '$'

/-- Whether a text is a property key without quotes. -/
def isBareKey : List Char → Bool
  | [] => false
  | c :: rest => isKeyStart c && rest.all fun d => isKeyStart d || d.isDigit

/-- A property key as it is written in an object type: in quotes unless it is an identifier. -/
def propertyKey (key : String) : String :=
  if isBareKey key.toList then key else Json.quote key

end Identifier
end SchemaTypes
