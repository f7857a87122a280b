import SchemaTypes.Json.Printer

/-!
# Values of filters

The values that a filter takes and gives. They are those of JSON, except that a number keeps the way
in which it was written until something is computed with it. Whole numbers are computed with in
signed 64-bit words, which wrap around. Values are ordered: null, false, true, numbers, texts,
lists, objects.
-/

namespace SchemaTypes
namespace Filter

/-- A number: one of a document, one written in a filter with its nearest float, or a float that was
computed. -/
inductive Quantity where
  | given (n : Number)
  | written (text : String) (x : Float)
  | computed (x : Float)

/-- A value. The members of an object stand in the order in which they were put in. -/
inductive Value where
  | null
  | bool (b : Bool)
  | number (q : Quantity)
  | string (s : String)
  | array (elements : List Value)
  | object (members : List (String × Value))
  deriving Inhabited

/-- What can go wrong when a filter runs. -/
inductive Failure where
  | cannotIndex (v key : Value)
  | cannotIterate (v : Value)
  | cannotSlice (v : Value)
  | badOperands (left right : Value)
  | keyNotString (key : Value)
  | noLength (v : Value)
  | noKeys (v : Value)
  | raised (v : Value)
  | undefined (name : String)

namespace Quantity

/-- Computed floats from `1e-4` to below `1e16` are written positionally, and ties go up. -/
def floatFormat : FloatFormat := ⟨-4, 15, false, .up⟩

/-- The text of a number. -/
def text : Quantity → String
  | .given n => n.text
  | .written text _ => text
  | .computed x => if x.isFinite then floatFormat.text x else "null"

/-- The whole number that a number is, if it fits a signed 64-bit word and is not a float. -/
def toInt? : Quantity → Option Int
  | .given (.integer n) => if n.value < 0x8000000000000000 then some n.value else none
  | _ => none

/-- The nearest float. -/
def toFloat : Quantity → Float
  | .given (.integer n) => Float.ofInt n.value
  | .given (.float x) => x
  | .written _ x => x
  | .computed x => x

/-- A whole result, as a signed 64-bit word: the number in its range that differs from `n` by a
multiple of `2 ^ 64`. -/
def ofInt (n : Int) : Quantity :=
  .given (.integer ⟨n.bmod 0x10000000000000000, by
    have low := Int.le_bmod (x := n) (m := 0x10000000000000000) (by decide)
    have high := Int.bmod_lt (x := n) (m := 0x10000000000000000) (by decide)
    omega⟩)

/-- A result of two numbers, computed on whole numbers if both are, else on floats. -/
def combine (onInts : Int → Int → Int) (onFloats : Float → Float → Float) (p q : Quantity) :
    Quantity :=
  match p.toInt?, q.toInt? with
  | some m, some n => ofInt (onInts m n)
  | _, _ => .computed (onFloats p.toFloat q.toFloat)

/-- The number with its sign changed. -/
def negate (q : Quantity) : Quantity :=
  match q.toInt? with
  | some n => ofInt (-n)
  | none => .computed (-q.toFloat)

/-- The order of numbers. What is no number stands before all numbers, and before itself. -/
def compare (p q : Quantity) : Ordering :=
  match p.toInt?, q.toInt? with
  | some m, some n => Ord.compare m n
  | _, _ =>
    if p.toFloat.isNaN || p.toFloat < q.toFloat then .lt
    else if p.toFloat == q.toFloat then .eq
    else .gt

end Quantity

namespace Value

/-- The whole number `n`. -/
def ofNat (n : Nat) : Value :=
  .number (.ofInt n)

mutual

/-- The value of a JSON value. -/
def ofJson : Json → Value
  | .null => .null
  | .bool b => .bool b
  | .number n => .number (.given n)
  | .string s => .string s
  | .array vs => .array (ofElements vs)
  | .object ms => .object (ofMembers ms)

/-- The values of the elements of a list. -/
def ofElements : List Json → List Value
  | [] => []
  | v :: vs => ofJson v :: ofElements vs

/-- The values of the members of an object. -/
def ofMembers : List (String × Json) → List (String × Value)
  | [] => []
  | (k, v) :: rest => (k, ofJson v) :: ofMembers rest

end

/-- A character as it stands inside the quotes of the JSON text of a value. A backspace and a form
feed have no short form. -/
def escapeChar (c : Char) : List Char :=
  if c = '\x08' || c = '\x0c' then Json.escapeCode c else Json.escapeChar c

/-- A text in the JSON text of a value, with its quotes. -/
def quote (s : String) : String :=
  String.ofList ('"' :: s.toList.flatMap escapeChar ++ ['"'])

mutual

/-- The JSON text of a value. -/
def text : Value → String
  | .null => "null"
  | .bool b => if b then "true" else "false"
  | .number q => q.text
  | .string s => quote s
  | .array vs => "[" ++ elementsText vs ++ "]"
  | .object ms => "\x7b" ++ membersText ms ++ "\x7d"

/-- The texts of the elements of a list, separated by commas. -/
def elementsText : List Value → String
  | [] => ""
  | [v] => text v
  | v :: rest => text v ++ "," ++ elementsText rest

/-- The texts of the members of an object, separated by commas. -/
def membersText : List (String × Value) → String
  | [] => ""
  | [(k, v)] => quote k ++ ":" ++ text v
  | (k, v) :: rest => quote k ++ ":" ++ text v ++ "," ++ membersText rest

end

/-- Whether a value counts as true: all do but null and false. -/
def isTrue : Value → Bool
  | .null => false
  | .bool b => b
  | _ => true

/-! ## Order -/

/-- Members with one more at its place by key. -/
def insertByKey (key : String) (v : Value) : List (String × Value) → List (String × Value)
  | [] => [(key, v)]
  | (k, w) :: rest =>
    if key < k then (key, v) :: (k, w) :: rest else (k, w) :: insertByKey key v rest

mutual

/-- The value with the members of all its objects in the order of their keys. -/
def sorted : Value → Value
  | .array vs => .array (sortedElements vs)
  | .object ms => .object (sortedMembers ms)
  | v => v

/-- The elements of a list, each with its objects in order. -/
def sortedElements : List Value → List Value
  | [] => []
  | v :: vs => sorted v :: sortedElements vs

/-- The members of an object in the order of their keys. -/
def sortedMembers : List (String × Value) → List (String × Value)
  | [] => []
  | (k, v) :: rest => insertByKey k (sorted v) (sortedMembers rest)

end

/-- The place of a kind of value in the order. -/
def rank : Value → Nat
  | .null => 0
  | .bool false => 1
  | .bool true => 2
  | .number _ => 3
  | .string _ => 4
  | .array _ => 5
  | .object _ => 6

/-- The order of lists of keys. -/
def compareKeys : List String → List String → Ordering
  | [], [] => .eq
  | [], _ :: _ => .lt
  | _ :: _, [] => .gt
  | j :: js, k :: ks => (Ord.compare j k).then (compareKeys js ks)

mutual

/-- The order of values whose objects are in order. -/
def compareSorted : Value → Value → Ordering
  | .number p, .number q => p.compare q
  | .string s, .string t => Ord.compare s t
  | .array vs, .array ws => compareElements vs ws
  | .object ms, .object ns =>
    (compareKeys (ms.map (·.1)) (ns.map (·.1))).then (compareMembers ms ns)
  | v, w => Ord.compare v.rank w.rank

/-- The order of lists: by the first elements that differ, then by length. -/
def compareElements : List Value → List Value → Ordering
  | [], [] => .eq
  | [], _ :: _ => .lt
  | _ :: _, [] => .gt
  | v :: vs, w :: ws => (compareSorted v w).then (compareElements vs ws)

/-- The order of the values of objects with the same keys. -/
def compareMembers : List (String × Value) → List (String × Value) → Ordering
  | [], [] => .eq
  | [], _ :: _ => .lt
  | _ :: _, [] => .gt
  | (_, v) :: rest, (_, w) :: more => (compareSorted v w).then (compareMembers rest more)

end

/-- The order of values. Objects are compared by their keys and then by their values. -/
def compare (v w : Value) : Ordering :=
  compareSorted v.sorted w.sorted

/-! ## Members and elements -/

/-- The members with `key` set to `v`: a key that is there already keeps its place. -/
def setMember (key : String) (v : Value) : List (String × Value) → List (String × Value)
  | [] => [(key, v)]
  | (k, w) :: rest => if k = key then (k, v) :: rest else (k, w) :: setMember key v rest

/-- The members of the first object, with those of the second added or put in their place; where
both hold an object, the two are merged in turn. -/
def merge (left : List (String × Value)) : List (String × Value) → List (String × Value)
  | [] => left
  | (key, .object right) :: rest =>
    let merged :=
      match left.lookup key with
      | some (.object inner) => merge inner right
      | _ => right
    merge (setMember key (.object merged) left) rest
  | (key, v) :: rest => merge (setMember key v left) rest

/-- The value at a key of an object or at a position of a list, null if there is none. Positions
below zero count from the end. -/
def index (v key : Value) : Except Failure Value :=
  match v, key with
  | .object ms, .string k => .ok ((ms.lookup k).getD .null)
  | .array vs, .number q =>
    match q.toInt? with
    | some i =>
      let position := if i < 0 then i + vs.length else i
      .ok (if position < 0 then .null else vs[position.toNat]?.getD .null)
    | none => .error (.cannotIndex v key)
  | _, _ => .error (.cannotIndex v key)

/-- A bound of a slice as a position from zero to `length`; bounds below zero count from the end. -/
def bound (length : Nat) (i : Int) : Nat :=
  min (if i < 0 then i + length else i).toNat length

/-- The whole number of a bound of a slice, if there is a bound. -/
def bound? (v : Value) : Option Value → Except Failure (Option Int)
  | none => .ok none
  | some (.number q) =>
    match q.toInt? with
    | some i => .ok (some i)
    | none => .error (.cannotSlice v)
  | some _ => .error (.cannotSlice v)

/-- The elements of a list or the characters of a text between two bounds. -/
def slice (v : Value) (first? last? : Option Value) : Except Failure Value := do
  let first ← bound? v first?
  let last ← bound? v last?
  let cut {α : Type} (xs : List α) : List α :=
    (xs.take ((last.map (bound xs.length)).getD xs.length)).drop
      ((first.map (bound xs.length)).getD 0)
  match v with
  | .array vs => return .array (cut vs)
  | .string s => return .string (String.ofList (cut s.toList))
  | _ => throw (.cannotSlice v)

/-- The elements of a list or the values of an object. -/
def elements : Value → Except Failure (List Value)
  | .array vs => .ok vs
  | .object ms => .ok (ms.map (·.2))
  | v => .error (.cannotIterate v)

/-- The length of a value: the number of its characters, elements or members, or the size of a
number. -/
def length : Value → Except Failure Value
  | .null => .ok (.ofNat 0)
  | .number q =>
    match q.toInt? with
    | some n => .ok (.number (.ofInt n.natAbs))
    | none => .ok (.number (.computed q.toFloat.abs))
  | .string s => .ok (.ofNat s.length)
  | .array vs => .ok (.ofNat vs.length)
  | .object ms => .ok (.ofNat ms.length)
  | v => .error (.noLength v)

/-- The keys of an object in order, or the positions of a list. -/
def keys : Value → Except Failure Value
  | .object ms => .ok (.array ((sortedMembers ms).map fun (k, _) => .string k))
  | .array vs => .ok (.array ((List.range vs.length).map .ofNat))
  | v => .error (.noKeys v)

/-! ## Arithmetic -/

/-- The sum of numbers, or two texts, lists or objects put together. Null adds nothing. -/
def add (v w : Value) : Except Failure Value :=
  match v, w with
  | .null, w => .ok w
  | v, .null => .ok v
  | .number p, .number q => .ok (.number (p.combine (· + ·) (· + ·) q))
  | .string s, .string t => .ok (.string (s ++ t))
  | .array vs, .array ws => .ok (.array (vs ++ ws))
  | .object ms, .object ns => .ok (.object (ns.foldl (fun l (k, x) => setMember k x l) ms))
  | _, _ => .error (.badOperands v w)

/-- The difference of numbers, or a list without the elements of another. -/
def subtract (v w : Value) : Except Failure Value :=
  match v, w with
  | .number p, .number q => .ok (.number (p.combine (· - ·) (· - ·) q))
  | .array vs, .array ws => .ok (.array (vs.filter fun x => !ws.any fun y => x.compare y == .eq))
  | _, _ => .error (.badOperands v w)

/-- The text `s`, `n` times. It is put together from halves, so even a huge number of empty texts is
put together in a few steps. -/
def times (s : String) (n : Nat) : String :=
  if n = 0 then ""
  else
    let half := times s (n / 2)
    if n % 2 = 0 then half ++ half else half ++ half ++ s
termination_by n
decreasing_by omega

theorem toList_times (s : String) (n : Nat) :
    (times s n).toList = (List.replicate n s.toList).flatten := by
  fun_induction times s n with
  | case1 => simp
  | case2 n _ half heven ih =>
    have hn : n = n / 2 + n / 2 := by omega
    rw [String.toList_append, ih, ← List.flatten_append, List.replicate_append_replicate, ← hn]
  | case3 n _ half hodd ih =>
    have hn : n = n / 2 + n / 2 + 1 := by omega
    rw [String.toList_append, String.toList_append, ih, ← List.flatten_append,
      List.replicate_append_replicate, ← List.flatten_concat, ← List.replicate_succ', ← hn]

/-- The text `s` as often as `n` says, null if that is not even once. -/
def repeated (s : String) (n : Int) : Value :=
  if 0 < n then .string (times s n.toNat) else .null

/-- The product of numbers, a text repeated, or two objects merged. -/
def multiply (v w : Value) : Except Failure Value :=
  match v, w with
  | .number p, .number q => .ok (.number (p.combine (· * ·) (· * ·) q))
  | .string s, .number q | .number q, .string s =>
    match q.toInt? with
    | some n => .ok (repeated s n)
    | none => .error (.badOperands v w)
  | .object ms, .object ns => .ok (.object (merge ms ns))
  | _, _ => .error (.badOperands v w)

/-- A number with its sign changed. -/
def negate : Value → Except Failure Value
  | .number q => .ok (.number q.negate)
  | v => .error (.badOperands .null v)

end Value

end Filter
end SchemaTypes
