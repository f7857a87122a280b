import SchemaTypes.Declaration.Comment
import SchemaTypes.TypeExpr.Text

/-!
# Declarations

A named type is declared as an interface if it is nothing but a set of properties, and as an alias
otherwise.
-/

namespace SchemaTypes

/-- The two forms of a declaration. -/
inductive Declaration.Form where
  | alias
  | interface
  deriving DecidableEq

/-- A declaration: its name, and its text with the comment in front. -/
structure Declaration where
  name : String
  text : String
  deriving DecidableEq

namespace Declaration.Form

/-- Whether a text occurs in another. -/
def occursIn (part : List Char) : List Char → Bool
  | [] => part.isEmpty
  | c :: rest => part.isPrefixOf (c :: rest) || occursIn part rest

/-- Whether the types named rule out an interface. -/
def isScalarOrArray : TypeNames → Bool
  | .single name => ["string", "number", "boolean", "array"].contains name
  | .multiple _ => true

/-- The form in which the type of a schema is declared, given its text. -/
def choose (s : Schema) (type : String) : Declaration.Form :=
  if s.enum.isSome || s.const.isSome || s.type.any isScalarOrArray || s.hasCombinator ||
      occursIn TypeExpr.ampersand.toList type.toList || !s.isObjectType ||
      type.toList.head? ≠ some '\x7b' then
    .alias
  else .interface

end Declaration.Form

/-- The declaration of a schema under a name, given the text of its type. -/
def Declaration.ofSchema (name : String) (s : Schema) (type : String) : Declaration :=
  let comment := Comment.ofSchema s
  match Declaration.Form.choose s type with
  | .interface => ⟨name, comment ++ "interface " ++ name ++ " " ++ type⟩
  | .alias => ⟨name, comment ++ "type " ++ name ++ " = " ++ type ++ ";"⟩

end SchemaTypes
