import SchemaTypes.Filter.Basic
import SchemaTypes.Filter.Results

/-!
# Running a filter

The results of a filter for a value, by its form. Where two filters are combined, every output of
the left one is combined with every output of the right one.
-/

namespace SchemaTypes
namespace Filter

/-- Whether a comparison holds. -/
def Comparison.holds (how : Comparison) (order : Ordering) : Bool :=
  match how with
  | .equal => order == .eq
  | .unequal => order != .eq
  | .less => order == .lt
  | .lessOrEqual => order != .gt
  | .greater => order == .gt
  | .greaterOrEqual => order != .lt

/-- The result of an arithmetic operator. -/
def Arithmetic.apply : Arithmetic → Value → Value → Except Failure Value
  | .add => Value.add
  | .subtract => Value.subtract
  | .multiply => Value.multiply

/-- The elements of a list or the values of an object, one by one. -/
def Results.elements (v : Value) : Results Value :=
  match v.elements with
  | .ok vs => .ofList vs
  | .error e => .failed e

/-- The results of a step of a path whose brackets hold values. -/
def PathStep.apply (v : Value) : PathStep Value → Results Value
  | .index key => .ofExcept (v.index key)
  | .slice first last => .ofExcept (v.slice first last)
  | .each => .elements v

/-- The results of the steps of a path whose brackets hold values. -/
def follow (v : Value) : List (PathStep Value × Bool) → Results Value
  | [] => .one v
  | (step, isQuiet) :: rest =>
    let reached := step.apply v
    (if isQuiet then reached.quiet else reached).bind (follow · rest)

/-- An object with one member. -/
def singleton (key v : Value) : Except Failure Value :=
  match key with
  | .string k => .ok (.object [(k, v)])
  | key => .error (.keyNotString key)

mutual

/-- The results of a filter for a value. -/
def eval : Filter → Value → Results Value
  | .identity, v => .one v
  | .literal w, _ => .one w
  | .path start steps, v =>
    (eval start v).bind fun w => (evalSteps steps v).bind fun steps => follow w steps
  | .list none, _ => .one (.array [])
  | .list (some f), v => .ofExcept (.array <$> (eval f v).collect)
  | .object entries, v => evalEntries entries v
  | .pipe f g, v => (eval f v).bind (eval g)
  | .both f g, v => (eval f v).append fun _ => eval g v
  | .orElse f g, v => (eval f v).orElse fun _ => eval g v
  | .and f g, v =>
    (eval f v).bind fun w =>
      if w.isTrue then (eval g v).map fun x => .bool x.isTrue else .one (.bool false)
  | .or f g, v =>
    (eval f v).bind fun w =>
      if w.isTrue then .one (.bool true) else (eval g v).map fun x => .bool x.isTrue
  | .compare how f g, v =>
    (eval f v).pairs (fun _ => eval g v) fun w x => .ok (.bool (how.holds (w.compare x)))
  | .arithmetic how f g, v => (eval f v).pairs (fun _ => eval g v) how.apply
  | .negate f, v => (eval f v).bind fun w => .ofExcept w.negate
  | .ifThenElse f g h, v => (eval f v).bind fun w => if w.isTrue then eval g v else eval h v
  | .quiet f, v => (eval f v).quiet
  | .empty, _ => .done
  | .error f, v => (eval f v).raise v
  | .not, v => .one (.bool !v.isTrue)
  | .length, v => .ofExcept v.length
  | .keys, v => .ofExcept v.keys
  | .select f, v => (eval f v).bind fun w => if w.isTrue then .one v else .done
  | .map f, v => .ofExcept (.array <$> ((Results.elements v).bind (eval f)).collect)
  | .undefined name _, _ => .failed (.undefined name)

/-- The steps of a path with every choice of values for its brackets. -/
def evalSteps : List (PathStep Filter × Bool) → Value → Results (List (PathStep Value × Bool))
  | [], _ => .one []
  | (.each, isQuiet) :: rest, v => (evalSteps rest v).map ((.each, isQuiet) :: ·)
  | (.index key, isQuiet) :: rest, v =>
    (eval key v).pairs (fun _ => evalSteps rest v) fun k steps => .ok ((.index k, isQuiet) :: steps)
  | (.slice first last, isQuiet) :: rest, v =>
    let bounds := (evalBound first v).pairs (fun _ => evalBound last v) fun i j => .ok (i, j)
    bounds.pairs (fun _ => evalSteps rest v) fun (i, j) steps =>
      .ok ((.slice i j, isQuiet) :: steps)

/-- The values of a bound of a slice. -/
def evalBound : Option Filter → Value → Results (Option Value)
  | none, _ => .one none
  | some f, v => (eval f v).map some

/-- The objects with every choice of keys and values for the entries. -/
def evalEntries : List (Filter × Filter) → Value → Results Value
  | [], _ => .one (.object [])
  | [(key, f)], v => (eval key v).pairs (fun _ => eval f v) singleton
  | (key, f) :: rest, v =>
    ((eval key v).pairs (fun _ => eval f v) singleton).pairs (fun _ => evalEntries rest v) Value.add

end

end Filter
end SchemaTypes
