import SchemaTypes.Proofs.Module.Termination
import SchemaTypes.Proofs.Survey.Agreement
import SchemaTypes.Proofs.TypeExpr.Agreement

/-!
# What a schema leaves out

Reading a schema leaves out much of the value: unknown keywords, members that are null, and whatever
stands inside of either. Of that nothing comes into the names or the module, if all references
inside of the document lead to parts of the schema (`Module.generate_eq_of_root_eq`).
-/

namespace SchemaTypes
namespace Module

open Builder Document

variable {d d' : Document} {t : NameTable} {places : List (Pointer × String)}

/-- The declarations of places in the schema agree. -/
theorem agree_declare (hroot : d.root = d'.root) (hclosed : d.Closed)
    (h : ∀ place ∈ places, ∃ s, d.walk? place.1 = some s) :
    Agree (declare ⟨d, t⟩ places) (declare ⟨d', t⟩ places) := by
  induction places with
  | nil => exact .refl _
  | cons place rest ih =>
    obtain ⟨p, name⟩ := place
    obtain ⟨s, hs⟩ := h (p, name) (.head _)
    have hrest := ih fun place hplace => h place (.tail _ hplace)
    have hdeclared : Agree (declared ⟨d, t⟩ s p) (declared ⟨d', t⟩ s p) :=
      agree_build hroot hclosed (part_of_walk? hs) _ _
    rw [declare, declare, ← resolve?_congr hroot hs, resolve?_of_walk? hs]
    exact hdeclared.bind fun type => hrest.bind fun others => .refl _

/-- Two documents with one schema whose references inside of the document all lead to parts of it,
whatever else is in their values, have the same names, and the same module, or the same chain of
references that lead back is the reason why there is none. -/
theorem generate_eq_of_root_eq (hroot : d.root = d'.root) (hclosed : d.Closed) :
    (∀ rootName, Survey.names d rootName = Survey.names d' rootName) ∧
    ∀ options, (∃ m, generate d options = .ok m ∧ generate d' options = .ok m) ∨
      ∃ chain, generate d options = .error (.cycle chain) ∧
        generate d' options = .error (.cycle chain) := by
  refine ⟨Survey.names_congr hroot hclosed, fun options => ?_⟩
  have hnames := Survey.names_congr hroot hclosed options.rootName
  have hagree : Agree (generate d options) (generate d' options) := by
    rw [generate, generate, ← hnames]
    refine (agree_declare hroot hclosed fun place hplace => ?_).bind fun declared => .refl _
    exact Survey.exists_walk?_of_contains_names hclosed (NameTable.contains_of_mem_names hplace)
  have heq : generate d options = generate d' options :=
    hagree (ends_iff.1 (ends_generate d options)) (ends_iff.1 (ends_generate d' options))
  rw [← heq]
  exact (ends_generate d options).imp (fun ⟨m, hm⟩ => ⟨m, hm, hm⟩)
    fun ⟨chain, hchain⟩ => ⟨chain, hchain, hchain⟩

/-- A document with a property that refers to a definition. -/
def unnoted : Document where
  json := .object [
    ("properties", .object [("pet", .object [("$ref", .string "#/definitions/Pet")])]),
    ("definitions", .object [("Pet", .object [("title", .string "Cat")])])]
  root := {
    properties := some [("pet", { reference := some "#/definitions/Pet" })]
    definitions := some [("Pet", { title := some "Cat" })] }
  distinct := by simp [Json.KeysDistinct, Json.MembersDistinct]
  reads := rfl

/-- A document with the same schema, and with members that its schema leaves out. -/
def noted : Document where
  json := .object [("title", .null), ("x-origin", .object [("title", .string "Dog")]),
    ("properties", .object [
      ("pet", .object [("x-since", .bool true), ("$ref", .string "#/definitions/Pet")])]),
    ("definitions", .object [("Pet", .object [("title", .string "Cat")])])]
  root := unnoted.root
  distinct := by simp [Json.KeysDistinct, Json.MembersDistinct]
  reads := rfl

/-- The only reference of that schema leads to the definition. -/
theorem closed_unnoted : unnoted.Closed := by
  have hroot : unnoted.walk? .root = some unnoted.root := by
    rw [walk?, Pointer.segments_root, Schema.walk?]
  have hdefinition : unnoted.walk? (Pointer.root.slot (.definition "Pet")) =
      some { title := some "Cat" } := walk?_slot hroot ⟨_, rfl, .head _⟩
  have htarget : Pointer.ofRef? "#/definitions/Pet" =
      some (Pointer.root.slot (.definition "Pet")) := by decide
  have hchildren {slot : Slot} {c : Schema} (hc : unnoted.root.Holds slot c) :
      slot = .definition "Pet" ∧ c = { title := some "Cat" } ∨
        slot = .property "pet" ∧ c = { reference := some "#/definitions/Pet" } := by
    simpa [Schema.children, Schema.keyed, Schema.listed, unnoted] using Schema.mem_children_iff.2 hc
  intro s q hs hq
  cases hs with
  | self => cases hq
  | inside hc hpart =>
    rcases hchildren hc with ⟨-, rfl⟩ | ⟨-, rfl⟩
    · cases hpart with
      | self => cases hq
      | inside hc' _ => cases Schema.mem_children_iff.2 hc'
    · cases hpart with
      | self =>
        cases hq.symm.trans htarget
        exact ⟨_, hdefinition⟩
      | inside hc' _ => cases Schema.mem_children_iff.2 hc'

/-- Both documents have the same names, and the same module or the same chain. -/
theorem generate_noted : unnoted.root = noted.root ∧ unnoted.json ≠ noted.json ∧ unnoted.Closed ∧
    Survey.names unnoted none = Survey.names noted none ∧
    ((∃ m, generate unnoted {} = .ok m ∧ generate noted {} = .ok m) ∨
      ∃ chain, generate unnoted {} = .error (.cycle chain) ∧
        generate noted {} = .error (.cycle chain)) := by
  have hroot : unnoted.root = noted.root := rfl
  obtain ⟨hnames, hmodule⟩ := generate_eq_of_root_eq hroot closed_unnoted
  exact ⟨hroot, by simp [unnoted, noted], closed_unnoted, hnames none, hmodule {}⟩

end Module
end SchemaTypes
