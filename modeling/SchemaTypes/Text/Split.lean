/-!
# Pieces of a text

A text cut at every occurrence of a separator. There is one piece more than there are separators, so
an empty text has one empty piece.
-/

namespace SchemaTypes
namespace Text

/-- The pieces of a text between the characters that satisfy `isSeparator`. -/
def split (isSeparator : Char → Bool) : List Char → List (List Char)
  | [] => [[]]
  | c :: rest =>
    if isSeparator c then [] :: split isSeparator rest
    else
      match split isSeparator rest with
      | [] => [[c]]
      | piece :: pieces => (c :: piece) :: pieces

/-- The pieces of a text between the given separators. -/
def splitAt (separator : Char) (s : String) : List String :=
  (split (· == separator) s.toList).map String.ofList

end Text
end SchemaTypes
