import SchemaTypes.Pointer

/-!
# Names of places

A name table gives places of a document names that differ from each other. The first place that asks
for a name gets it as it is, the next ones get `_1`, `_2` and so on behind it. A name that was given
once is never given to another place, not even after its entry was removed.
-/

namespace SchemaTypes

/-- The name of a place, and the name that was asked for. -/
structure NameEntry where
  name : String
  base : String
  deriving DecidableEq

/-- The names of places. The entries ascend by pointer; `given` holds every name that was ever
given, and `counters` says for a base which of its variants to try next. -/
structure NameTable where
  entries : List (Pointer × NameEntry) := []
  counters : List (String × Nat) := []
  given : List String := []

namespace NameTable

/-- The variants of a base name: the base itself, then with a number behind it. -/
def variant (base : String) (n : Nat) : String :=
  if n = 0 then base else base ++ "_" ++ toString n

/-- The number of the first variant from `n` on that was not given yet, among `steps` of them and
the one after. -/
def firstFree (given : List String) (base : String) : Nat → Nat → Nat
  | 0, n => n
  | steps + 1, n =>
    if given.contains (variant base n) then firstFree given base steps (n + 1) else n

/-- The counter of a base. -/
def counter (t : NameTable) (base : String) : Nat :=
  (t.counters.lookup base).getD 0

/-- The counters with that of one base set. -/
def setCounter (base : String) (n : Nat) : List (String × Nat) → List (String × Nat)
  | [] => [(base, n)]
  | (b, m) :: rest => if b = base then (b, n) :: rest else (b, m) :: setCounter base n rest

/-- The number of the variant of a base that is given next. Of one more variants than names were
given, one is free. -/
def nextVariant (t : NameTable) (base : String) : Nat :=
  firstFree t.given base t.given.length (t.counter base)

/-- The entries with one more at its place. -/
def insertEntry (p : Pointer) (e : NameEntry) :
    List (Pointer × NameEntry) → List (Pointer × NameEntry)
  | [] => [(p, e)]
  | (q, f) :: rest =>
    if p < q then (p, e) :: (q, f) :: rest
    else if p = q then (p, e) :: rest
    else (q, f) :: insertEntry p e rest

/-- The entry of a place. -/
def entry? (t : NameTable) (p : Pointer) : Option NameEntry :=
  t.entries.lookup p

/-- The name of a place. -/
def lookup? (t : NameTable) (p : Pointer) : Option String :=
  t.entry? p |>.map (·.name)

/-- The name that a place asked for. -/
def base? (t : NameTable) (p : Pointer) : Option String :=
  t.entry? p |>.map (·.base)

/-- Whether a place has a name. -/
def contains (t : NameTable) (p : Pointer) : Bool :=
  t.entry? p |>.isSome

/-- The name of a place, and the table in which it has that name. A place that has a name keeps it,
whatever it asks for. -/
def register (t : NameTable) (p : Pointer) (base : String) : String × NameTable :=
  match t.entry? p with
  | some e => (e.name, t)
  | none =>
    let n := t.nextVariant base
    let name := variant base n
    (name,
      { entries := insertEntry p ⟨name, base⟩ t.entries
        counters := setCounter base (n + 1) t.counters
        given := name :: t.given })

/-- The table without the entry of a place. -/
def remove (t : NameTable) (p : Pointer) : NameTable :=
  { t with entries := t.entries.filter (·.1 ≠ p) }

/-- The places that have names, in ascending order. -/
def pointers (t : NameTable) : List Pointer :=
  t.entries.map (·.1)

/-- The places with their names, in ascending order. -/
def names (t : NameTable) : List (Pointer × String) :=
  t.entries.map fun (p, e) => (p, e.name)

end NameTable

end SchemaTypes
