import SchemaTypes.Schema.Fault
import SchemaTypes.Proofs.Json.Part

/-!
# Locations in a JSON value

A location leads from a value to a part of it (`Json.part_of_at?`). Its text is put together step by
step (`JsonStep.renders_location`).
-/

namespace SchemaTypes

namespace JsonStep

/-- The rendering of a location: that of the whole value is a dot, a first step stands for itself,
and of all further ones a key follows a dot and a position stands in brackets. -/
inductive Renders : List JsonStep → String → Prop where
  | whole : Renders [] "."
  | key (k : String) : Renders [.key k] k
  | position (i : Nat) : Renders [.position i] ("[" ++ toString i ++ "]")
  | keyAfter {steps : List JsonStep} {text : String} (k : String) :
    steps ≠ [] → Renders steps text → Renders (steps ++ [.key k]) (text ++ ("." ++ k))
  | positionAfter {steps : List JsonStep} {text : String} (i : Nat) :
    steps ≠ [] → Renders steps text →
      Renders (steps ++ [.position i]) (text ++ ("[" ++ toString i ++ "]"))

/-- Steps behind a location are written behind its rendering. -/
theorem Renders.append {steps : List JsonStep} {text : String} (h : Renders steps text)
    (hne : steps ≠ []) (more : List JsonStep) :
    Renders (steps ++ more) (text ++ textAfter more) := by
  induction more generalizing steps text with
  | nil => rwa [List.append_nil, textAfter, String.append_empty]
  | cons step rest ih =>
    have hbehind : steps ++ [step] ≠ [] :=
      List.append_ne_nil_of_right_ne_nil _ (List.cons_ne_nil _ _)
    rw [List.append_cons]
    cases step with
    | key k =>
      have hrest := ih (.keyAfter k hne h) hbehind
      rwa [String.append_assoc] at hrest
    | position i =>
      have hrest := ih (.positionAfter i hne h) hbehind
      rwa [String.append_assoc] at hrest

/-- The text of a location is its rendering. -/
theorem renders_location (steps : List JsonStep) : Renders steps (location steps) := by
  cases steps with
  | nil => exact .whole
  | cons step rest =>
    cases step with
    | key k => exact (Renders.key k).append (List.cons_ne_nil _ _) rest
    | position i => exact (Renders.position i).append (List.cons_ne_nil _ _) rest

end JsonStep

namespace Json

/-- A key leads to the member under it. -/
@[simp] theorem at?_key (v : Json) (k : String) : v.at? [.key k] = v.member? k :=
  Option.bind_fun_some _

/-- A position leads to the element there. -/
@[simp] theorem at?_position (v : Json) (i : Nat) : v.at? [.position i] = v.element? i :=
  Option.bind_fun_some _

/-- A location is followed from what its first step leads to. -/
theorem at?_cons (v : Json) (step : JsonStep) (rest : List JsonStep) :
    v.at? (step :: rest) = (v.at? [step]).bind (·.at? rest) := by
  cases step with
  | key k => rw [at?_key, at?]
  | position i => rw [at?_position, at?]

/-- A location leads to a part. -/
theorem part_of_at? {v w : Json} {steps : List JsonStep} (h : v.at? steps = some w) :
    Part w v := by
  induction steps generalizing v with
  | nil =>
    cases h
    exact .self w
  | cons step rest ih =>
    rw [at?_cons] at h
    obtain ⟨u, hu, hw⟩ := Option.bind_eq_some_iff.1 h
    refine (ih hw).trans ?_
    cases step with
    | key k => exact part_of_member? ((at?_key v k).symm.trans hu)
    | position i => exact part_of_element? ((at?_position v i).symm.trans hu)

end Json
end SchemaTypes
