import SchemaTypes.Filter.Value

/-!
# Filters

A filter takes one value and gives any number of them. Filters are written in a small language of
paths, constructors and operators; here are their trees. A name that no filter has is kept in the
tree (`Filter.undefined`), so that it can be reported before the filter runs.
-/

namespace SchemaTypes

namespace Filter

/-- The arithmetic operators. -/
inductive Arithmetic where
  | add
  | subtract
  | multiply
  deriving DecidableEq

/-- The comparisons. -/
inductive Comparison where
  | equal
  | unequal
  | less
  | lessOrEqual
  | greater
  | greaterOrEqual
  deriving DecidableEq

/-- A step of a path: to a member or an element, to a part of a list, or to all elements. The values
between the brackets come from filters. -/
inductive PathStep (φ : Type) where
  | index (key : φ)
  | slice (first last : Option φ)
  | each

end Filter

/-- A filter. -/
inductive Filter where
  | identity
  | literal (v : Filter.Value)
  /-- The steps of a path, each with whether a failure of it gives nothing. -/
  | path (start : Filter) (steps : List (Filter.PathStep Filter × Bool))
  | list (elements : Option Filter)
  | object (entries : List (Filter × Filter))
  | pipe (first second : Filter)
  | both (first second : Filter)
  | orElse (first second : Filter)
  | and (first second : Filter)
  | or (first second : Filter)
  | compare (how : Filter.Comparison) (left right : Filter)
  | arithmetic (how : Filter.Arithmetic) (left right : Filter)
  | negate (f : Filter)
  | ifThenElse (condition thenDo elseDo : Filter)
  /-- A filter whose results end at the first failure. -/
  | quiet (f : Filter)
  | empty
  /-- Fails with the first output of another filter, and changes nothing if that has no results. -/
  | error (f : Filter)
  | not
  | length
  | keys
  | select (condition : Filter)
  | map (f : Filter)
  /-- A name without a meaning, and what it was applied to. -/
  | undefined (name : String) (arguments : List Filter)

namespace Filter

/-- The filter of a name applied to arguments. -/
def call (name : String) (arguments : List Filter) : Filter :=
  match name, arguments with
  | "null", [] => .literal .null
  | "true", [] => .literal (.bool true)
  | "false", [] => .literal (.bool false)
  | "empty", [] => .empty
  | "error", [] => .error .identity
  | "error", [f] => .error f
  | "not", [] => .not
  | "length", [] => .length
  | "keys", [] => .keys
  | "select", [f] => .select f
  | "map", [f] => .map f
  | _, _ => .undefined name arguments

mutual

/-- The first name without a meaning in a filter, from left to right, the arguments of a name before
the name, and what a condition leads to otherwise before the condition. -/
def firstUndefined : Filter → Option String
  | .path start steps => (firstUndefined start).or (firstUndefinedStep steps)
  | .list (some f) => firstUndefined f
  | .object entries => firstUndefinedEntry entries
  | .pipe f g | .both f g | .orElse f g | .and f g | .or f g =>
    (firstUndefined f).or (firstUndefined g)
  | .compare _ f g | .arithmetic _ f g => (firstUndefined f).or (firstUndefined g)
  | .negate f | .quiet f | .error f | .select f | .map f => firstUndefined f
  | .ifThenElse f g h => (firstUndefined h).or ((firstUndefined f).or (firstUndefined g))
  | .undefined name arguments => (firstUndefinedArgument arguments).or (some name)
  | .list none | .identity | .literal _ | .empty | .not | .length | .keys => none

/-- The first name without a meaning in the steps of a path. -/
def firstUndefinedStep : List (PathStep Filter × Bool) → Option String
  | [] => none
  | (.index key, _) :: rest => (firstUndefined key).or (firstUndefinedStep rest)
  | (.slice first last, _) :: rest =>
    ((firstUndefinedBound first).or (firstUndefinedBound last)).or (firstUndefinedStep rest)
  | (.each, _) :: rest => firstUndefinedStep rest

/-- The first name without a meaning in a bound of a slice. -/
def firstUndefinedBound : Option Filter → Option String
  | some f => firstUndefined f
  | none => none

/-- The first name without a meaning in the entries of an object. -/
def firstUndefinedEntry : List (Filter × Filter) → Option String
  | [] => none
  | (key, v) :: rest =>
    ((firstUndefined key).or (firstUndefined v)).or (firstUndefinedEntry rest)

/-- The first name without a meaning in arguments. -/
def firstUndefinedArgument : List Filter → Option String
  | [] => none
  | f :: rest => (firstUndefined f).or (firstUndefinedArgument rest)

end

end Filter

end SchemaTypes
