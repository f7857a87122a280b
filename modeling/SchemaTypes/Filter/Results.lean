import SchemaTypes.Filter.Value

/-!
# The results of a filter

For one value a filter gives outputs, one after the other, until it comes to an end or fails. A
failure is the last result, so nothing is lost by not looking behind it. Results are worked out only
as far as they are asked for: what stands behind a failure, and the side of an alternative that is
not taken, are never computed.
-/

namespace SchemaTypes
namespace Filter

/-- Outputs that are worked out one by one, until they come to an end or a failure ends them. -/
inductive Results (α : Type) where
  | done
  | failed (e : Failure)
  | output (a : α) (rest : Unit → Results α)

namespace Results

variable {α β γ : Type}

/-- A single output. -/
def one (a : α) : Results α :=
  .output a fun _ => .done

/-- A single output, or a failure. -/
def ofExcept : Except Failure α → Results α
  | .ok a => one a
  | .error e => .failed e

/-- The elements of a list as outputs. -/
def ofList : List α → Results α
  | [] => .done
  | a :: as => .output a fun _ => ofList as

/-- The results of `first`, and then those of `second`. -/
def append (first : Results α) (second : Unit → Results α) : Results α :=
  match first with
  | .done => second ()
  | .failed e => .failed e
  | .output a rest => .output a fun _ => append (rest ()) second

/-- Results with a function applied to each output. -/
def map (f : α → β) : Results α → Results β
  | .done => .done
  | .failed e => .failed e
  | .output a rest => .output (f a) fun _ => map f (rest ())

/-- Results with each output replaced by further results. -/
def bind (results : Results α) (f : α → Results β) : Results β :=
  match results with
  | .done => .done
  | .failed e => .failed e
  | .output a rest => (f a).append fun _ => bind (rest ()) f

/-- Every output of `left` combined with every output of `right`, the left one being the slower to
change. If `right` has no results, neither have both together, whatever `left` fails with. -/
def pairs (left : Results α) (right : Unit → Results β) (f : α → β → Except Failure γ) :
    Results γ :=
  match left with
  | .done => .done
  | .failed e =>
    match right () with
    | .done => .done
    | _ => .failed e
  | .output a rest =>
    ((right ()).bind fun b => ofExcept (f a b)).append fun _ => pairs (rest ()) right f

/-- The outputs that count as true, and the failure. -/
def whereTrue : Results Value → Results Value
  | .done => .done
  | .failed e => .failed e
  | .output v rest =>
    if v.isTrue then .output v fun _ => whereTrue (rest ()) else whereTrue (rest ())

/-- The outputs that count as true and the failure, or if there are none, the results of `other`. -/
def orElse (results : Results Value) (other : Unit → Results Value) : Results Value :=
  match results.whereTrue with
  | .done => other ()
  | kept => kept

/-- The outputs without the failure. -/
def quiet : Results α → Results α
  | .done | .failed _ => .done
  | .output a rest => .output a fun _ => quiet (rest ())

/-- What a filter comes to for a value if it fails with its first result of these, and with none of
them changes nothing. -/
def raise (v : Value) : Results Value → Results Value
  | .done => one v
  | .failed e => .failed e
  | .output w _ => .failed (.raised w)

/-- The outputs found so far, in reverse, with those of some results behind them. -/
def collectFrom (found : List α) : Results α → Except Failure (List α)
  | .done => .ok found.reverse
  | .failed e => .error e
  | .output a rest => collectFrom (a :: found) (rest ())

/-- All outputs, unless there is a failure. -/
def collect (results : Results α) : Except Failure (List α) :=
  collectFrom [] results

end Results

end Filter
end SchemaTypes
