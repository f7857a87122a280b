/-!
# JSON values

A JSON value as a document holds it. An object is the list of its members in the order in which they
were written, because that order shows in everything generated from it; the reader keeps the keys of
one object distinct. A whole number is exact as long as it fits an unsigned or a signed 64-bit word,
and that bound is part of its type (`Integer`); every other number is a 64-bit float.
-/

namespace SchemaTypes

/-- A whole number that is kept exactly: one that fits an unsigned or a signed 64-bit word. -/
structure Integer where
  value : Int
  inRange : -0x8000000000000000 ≤ value ∧ value < 0x10000000000000000 := by decide
  deriving DecidableEq

/-- A number of a document. -/
inductive Number where
  | integer (n : Integer)
  | float (x : Float)
  deriving DecidableEq

/-- A JSON value. The members of an object stand in the order in which they were written. -/
inductive Json where
  | null
  | bool (b : Bool)
  | number (n : Number)
  | string (s : String)
  | array (elements : List Json)
  | object (members : List (String × Json))
  deriving Inhabited

namespace Integer

/-- The exact number `n`, if it fits. -/
def ofInt? (n : Int) : Option Integer :=
  if h : -0x8000000000000000 ≤ n ∧ n < 0x10000000000000000 then some ⟨n, h⟩ else none

instance : Inhabited Integer := ⟨⟨0, by decide⟩⟩

end Integer

namespace Json

/-- The value of the member `key` of an object. -/
def member? (key : String) : Json → Option Json
  | .object members => members.lookup key
  | _ => none

/-- The element at position `i` of a list. -/
def element? (i : Nat) : Json → Option Json
  | .array elements => elements[i]?
  | _ => none

mutual

/-- The number of values in a value, itself included. -/
def size : Json → Nat
  | .array elements => sizeElements elements + 1
  | .object members => sizeMembers members + 1
  | _ => 1

/-- The number of values in the elements of a list. -/
def sizeElements : List Json → Nat
  | [] => 0
  | v :: rest => size v + sizeElements rest

/-- The number of values in the members of an object. -/
def sizeMembers : List (String × Json) → Nat
  | [] => 0
  | (_, v) :: rest => size v + sizeMembers rest

end

/-- The members with `key` set to `v`: a key that is there already keeps its place. -/
def setMember (key : String) (v : Json) : List (String × Json) → List (String × Json)
  | [] => [(key, v)]
  | (k, w) :: rest => if k = key then (k, v) :: rest else (k, w) :: setMember key v rest

end Json

end SchemaTypes
