import SchemaTypes.Json.Basic
import SchemaTypes.Text.Split

/-!
# Pointers

A JSON pointer addresses a value inside a document by the keys and positions on the way to it. In
its text every step follows a slash; a slash or a tilde inside a key is written `~1` or `~0`.

A `Pointer` is the address of a place in the same document as a `$ref` writes it: `#` for the whole
document, else `#/` and steps. Two pointers are the same only if their texts are, and they are
ordered as texts are.
-/

namespace SchemaTypes

namespace Step

/-- A character of a key as it is written in a pointer. -/
def escapeChar (c : Char) : List Char :=
  if c = '~' then ['~', '0'] else if c = '/' then ['~', '1'] else [c]

/-- A key as it is written in a pointer. -/
def escape (key : String) : String :=
  String.ofList (key.toList.flatMap escapeChar)

/-- The characters of a key, from those of a pointer. A tilde before any other character than `0` or
`1` stands for itself. -/
def unescapeChars : List Char → List Char
  | '~' :: '1' :: rest => '/' :: unescapeChars rest
  | '~' :: '0' :: rest => '~' :: unescapeChars rest
  | c :: rest => c :: unescapeChars rest
  | [] => []

/-- A key, from the way it is written in a pointer. -/
def unescape (text : List Char) : String :=
  String.ofList (unescapeChars text)

/-- The keys and positions of a text in which each step follows a slash; what stands before the
first slash is left out. -/
def ofText (text : List Char) : List String :=
  ((Text.split (· == '/') text).drop 1).map unescape

/-- A position in a list, in decimal digits. -/
def digits? (cs : List Char) : Option Nat :=
  if cs.isEmpty ∨ !cs.all Char.isDigit then none
  else some (cs.foldl (fun n c => 10 * n + (c.toNat - '0'.toNat)) 0)

/-- A position in a list, where a plus sign and zeros may stand in front of the digits. -/
def index? (step : String) : Option Nat :=
  match step.toList with
  | '+' :: rest => digits? rest
  | cs => digits? cs

/-- A position in a list, written without a sign and without a zero in front. -/
def strictIndex? (step : String) : Option Nat :=
  match step.toList with
  | '0' :: _ :: _ => none
  | cs => digits? cs

end Step

namespace Json

/-- The value one step below a value: a member of an object or an element of a list. -/
def step? (v : Json) (step : String) : Option Json :=
  match v with
  | .object _ => v.member? step
  | .array _ => (Step.strictIndex? step).bind v.element?
  | _ => none

/-- The value at the end of the given steps. -/
def follow? (v : Json) : List String → Option Json
  | [] => some v
  | step :: rest => (v.step? step).bind (follow? · rest)

/-- The value at a pointer without `#`: the empty text is the value itself, any other text has to
start with a slash. -/
def pointed? (v : Json) (text : String) : Option Json :=
  match text.toList with
  | [] => some v
  | '/' :: rest => v.follow? (Step.ofText ('/' :: rest))
  | _ => none

end Json

/-- The address of a place in the same document. -/
structure Pointer where
  text : String
  isInternal : text = "#" ∨ "#/".toList.isPrefixOf text.toList
  deriving DecidableEq

namespace Pointer

/-- The whole document. -/
def root : Pointer :=
  ⟨"#", .inl rfl⟩

instance : Inhabited Pointer := ⟨root⟩

/-- The pointer that a `$ref` writes, if it stays inside the document. -/
def ofRef? (reference : String) : Option Pointer :=
  if h : reference = "#" ∨ "#/".toList.isPrefixOf reference.toList then some ⟨reference, h⟩
  else none

/-- Whether a pointer addresses the whole document. -/
def isRoot (p : Pointer) : Bool :=
  p.text == "#"

/-- The pointer in front of which `#` was taken away. -/
def path (p : Pointer) : List Char :=
  p.text.toList.drop 1

theorem isInternal_join {text : String}
    (h : text = "#" ∨ "#/".toList.isPrefixOf text.toList) (more : String) :
    text ++ "/" ++ more = "#" ∨ "#/".toList.isPrefixOf (text ++ "/" ++ more).toList := by
  refine .inr ?_
  rcases h with rfl | h
  · simp [String.toList_append]
  · rw [List.isPrefixOf_iff_prefix] at h ⊢
    rw [String.append_assoc, String.toList_append]
    exact h.trans (List.prefix_append _ _)

/-- The place one step further on. -/
def join (p : Pointer) (key : String) : Pointer :=
  ⟨p.text ++ "/" ++ Step.escape key, isInternal_join p.isInternal _⟩

/-- The place the given steps further on. -/
def descend (p : Pointer) (steps : List String) : Pointer :=
  steps.foldl join p

/-- The steps of a pointer. -/
def segments (p : Pointer) : List String :=
  Step.ofText p.path

/-- The last step of a pointer; the whole document has none. -/
def lastSegment? (p : Pointer) : Option String :=
  p.segments.getLast?

instance : LT Pointer := ⟨fun p q => p.text < q.text⟩

instance : DecidableLT Pointer := fun p q => inferInstanceAs (Decidable (p.text < q.text))

/-- Whether a pointer stands before another or is the same. -/
def ble (p q : Pointer) : Bool :=
  !decide (q < p)

end Pointer

end SchemaTypes
