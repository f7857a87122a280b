import SchemaTypes.Filter.Eval
import SchemaTypes.Filter.Parser
import SchemaTypes.Json.Reader

/-!
# Selecting a value by a filter

A filter selects a value if it gives exactly one output. The outputs of a filter are handed over as
JSON text, and the selected value is read back from that text.
-/

namespace SchemaTypes

/-- Why a filter has no outputs, or selects no value. -/
inductive FilterError where
  /-- The text is no filter. -/
  | noFilter
  | undefined (name : String)
  | failed (failure : Filter.Failure)
  /-- A filter that gives another number of outputs than one. -/
  | notSingle (filter : String) (count : Nat)
  /-- An output that does not read as JSON. -/
  | unreadable (e : SyntaxError)

/-- The text of the error of a filter that gives too few or too many outputs. -/
def FilterError.countMessage (filter : String) (count : Nat) : String :=
  "jq filter `" ++ filter ++ "` produced " ++ toString count ++
    " values, expected exactly one schema"

namespace Filter

/-- The outputs of a filter for a value, in order, if none of its results is a failure. -/
def outputs (filter : String) (input : Json) : Except FilterError (List Value) :=
  match parse? filter with
  | none => .error .noFilter
  | some f =>
    match f.firstUndefined with
    | some name => .error (.undefined name)
    | none => ((f.eval (.ofJson input)).collect).mapError .failed

/-- The JSON texts of the outputs of a filter. -/
def run (filter : String) (input : Json) : Except FilterError (List String) := do
  return (← outputs filter input).map (·.text)

/-- The value that a filter selects. -/
def select? (filter : String) (input : Json) : Except FilterError Json := do
  match ← run filter input with
  | [text] => (Json.read text).mapError .unreadable
  | texts => throw (.notSingle filter texts.length)

end Filter

end SchemaTypes
