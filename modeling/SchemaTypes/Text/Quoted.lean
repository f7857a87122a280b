import SchemaTypes.Text.Unshown

/-!
# Texts shown in quotes

The form in which a message shows a text: in quotes, on one line, and with every character that has
no visible form of its own written by its code point.
-/

namespace SchemaTypes
namespace Text

/-- A character by its code point, in lower-case hexadecimal digits. -/
def codePoint (c : Char) : List Char :=
  '\\' :: 'u' :: '\x7b' :: Nat.toDigits 16 c.toNat ++ ['\x7d']

/-- A character as it stands inside quotes. -/
def shownChar (c : Char) : List Char :=
  if c = '\x00' then ['\\', '0']
  else if c = '\t' then ['\\', 't']
  else if c = '\n' then ['\\', 'n']
  else if c = '\r' then ['\\', 'r']
  else if c = '"' then ['\\', '"']
  else if c = '\\' then ['\\', '\\']
  else if c.toNat < 0x20 then codePoint c
  else if c.toNat < 0x7f then [c]
  else if c.toNat = 0x7f then codePoint c
  else if isUnshown c then codePoint c
  else [c]

/-- A text in quotes. -/
def shown (s : String) : String :=
  String.ofList ('"' :: s.toList.flatMap shownChar ++ ['"'])

end Text
end SchemaTypes
