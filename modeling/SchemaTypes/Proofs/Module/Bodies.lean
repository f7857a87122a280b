import SchemaTypes.Proofs.Module.Texts
import SchemaTypes.Proofs.TypeExpr.Lines

/-!
# The bodies of object types

The text of an object type that is built for a node tells everything that the node says of its
properties (`Module.readBody?_of_object`): it is read back into one line for each property, in the
order in which they are declared, with its key, whether it may be missing, and the text of its type,
and at last a line for all other properties, if there may be any. So two nodes are written as the
same body only if all of this is the same.
-/

namespace SchemaTypes
namespace Builder

open TypeExpr

variable {b : Builder} {part : Slot → Schema → Building TypeExpr} {s : Schema} {steps : Nat}
  {site : BuildSite} {type shape : TypeExpr} {lines lines' : List BodyLine}

/-- The types of the parts of what is built at a place. -/
def parts (b : Builder) (steps : Nat) (p : Pointer) : Slot → Schema → Building TypeExpr :=
  fun slot c => b.build steps c (.part (p.slot slot))

/-- What a line tells of a property: its key, that it may be missing if it is not required, and the
text of its type. -/
structure TellsProperty (part : Slot → Schema → Building TypeExpr) (s : Schema)
    (line : PropertyType String) (entry : String × Schema) : Prop where
  key : line.key = entry.1
  isOptional : line.isOptional = true ↔ entry.1 ∉ s.required
  type : ∃ t, part (.property entry.1) entry.2 = .ok t ∧ line.type = t.text

/-- What is told of all other properties: the text of their type, if there may be any. -/
inductive TellsOthers (part : Slot → Schema → Building TypeExpr) :
    Option (OtherProperties Schema) → List BodyLine → Prop where
  | none : TellsOthers part none []
  | forbidden : TellsOthers part (some (.allowed false)) []
  | allowed : TellsOthers part (some (.allowed true)) [.others "unknown"]
  | schema {c : Schema} {t : TypeExpr} : part .otherProperties c = .ok t →
    TellsOthers part (some (.schema c)) [.others t.text]

/-- The lines that tell of a node: one for each of its properties in their order, and then the one
for all others. -/
def Tells (part : Slot → Schema → Building TypeExpr) (s : Schema) (lines : List BodyLine) : Prop :=
  ∃ listed last, lines = listed.map .property ++ last ∧
    List.Forall₂ (TellsProperty part s) listed (s.properties.getD []) ∧
    TellsOthers part s.additionalProperties last

/-- There is one line only that tells of a property. -/
theorem TellsProperty.unique {line line' : PropertyType String} {entry : String × Schema}
    (h : TellsProperty part s line entry) (h' : TellsProperty part s line' entry) :
    line = line' := by
  obtain ⟨key, isOptional, type⟩ := line
  obtain ⟨key', isOptional', type'⟩ := line'
  obtain ⟨hkey, hoptional, t, ht, htype⟩ := h
  obtain ⟨hkey', hoptional', t', ht', htype'⟩ := h'
  cases ht.symm.trans ht'
  cases hkey.trans hkey'.symm
  cases htype.trans htype'.symm
  cases Bool.eq_iff_iff.2 (hoptional.trans hoptional'.symm)
  rfl

/-- There is one line at most that tells of all other properties. -/
theorem TellsOthers.unique {others : Option (OtherProperties Schema)} {last last' : List BodyLine}
    (h : TellsOthers part others last) (h' : TellsOthers part others last') : last = last' := by
  cases h with
  | none | forbidden | allowed => cases h'; rfl
  | schema ht =>
    cases h' with
    | schema ht' =>
      cases ht.symm.trans ht'
      rfl

/-- The lines that tell of a node are determined by it. -/
theorem Tells.unique (h : Tells part s lines) (h' : Tells part s lines') : lines = lines' := by
  obtain ⟨listed, last, rfl, hlisted, hlast⟩ := h
  obtain ⟨listed', last', rfl, hlisted', hlast'⟩ := h'
  have hunique : Relator.LeftUnique (TellsProperty part s) := fun _ _ _ => TellsProperty.unique
  cases hunique.forall₂ hlisted hlisted'
  cases hlast.unique hlast'
  rfl

/-! ## Object types -/

/-- The lines of the object type that is built for a node tell of it. -/
theorem tells_of_object (h : object part s = .ok shape) :
    ∃ listed others, shape = .object listed others ∧ Tells part s (bodyLines listed others) := by
  obtain ⟨listed, others, hlisted, hothers, rfl⟩ := object_eq_ok_iff.1 h
  refine ⟨listed, others, rfl, listed.map fun p => ⟨p.key, p.isOptional, p.type.text⟩,
    others.toList.map fun t => .others t.text, by rw [bodyLines, List.map_map]; rfl, ?_, ?_⟩
  · refine List.forall₂_map_left_iff.2 ((forall₂_properties hlisted).imp ?_)
    rintro p entry ⟨hkey, hoptional, htype⟩
    exact ⟨hkey, by simp [hoptional], p.type, htype, rfl⟩
  · cases hschema : s.additionalProperties with
    | none =>
      rw [hschema] at hothers
      cases hothers
      exact .none
    | some schema =>
      rw [hschema] at hothers
      cases schema with
      | allowed allowed =>
        cases allowed <;> cases hothers
        · exact .forbidden
        · exact .allowed
      | schema c =>
        obtain ⟨t, ht, hothers⟩ := Except.bind_eq_ok_iff.1 hothers
        cases hothers
        exact .schema ht

/-- What is built for a node with an object shape is its object type, or has this as its first part.
-/
theorem eq_or_of_build (hsite : b.Unnamed site) (href : s.reference = none)
    (hshape : (s.properties.isSome || s.additionalProperties.isSome) = true)
    (hobject : object (b.parts steps site.place) s = .ok shape)
    (h : b.build (steps + 1) s site = .ok type) :
    type = shape ∨ ∃ other, type = .shaped shape other := by
  rw [build_body steps hsite href] at h
  obtain ⟨combined, -, h⟩ := Except.bind_eq_ok_iff.1 h
  rw [if_pos hshape] at h
  obtain ⟨shape', hshape', h⟩ := Except.bind_eq_ok_iff.1 h
  cases hobject.symm.trans hshape'
  cases combined with
  | none =>
    cases h
    exact .inl rfl
  | some other =>
    cases h
    exact .inr ⟨other, rfl⟩

end Builder

namespace Module

open Builder TypeExpr

variable {d : Document} {options : ModuleOptions} {steps : Nat} {p : Pointer} {s : Schema}
  {shape : TypeExpr}

/-- The parts of an object type that is built are written as phrases, so its lines are read back.
-/
theorem exists_readBody?_eq (h : object ((builder d options).parts steps p) s = .ok shape) :
    ∃ lines, shape.text = objectBody (lines.map BodyLine.text) ∧
      readBody? shape.text = some lines ∧ Tells ((builder d options).parts steps p) s lines := by
  have hnamed : shape.WellNamed :=
    wellNamed_object (fun _ _ _ => wellNamed_build (namesPlaces_builder d options)) h
  obtain ⟨listed, others, rfl, htells⟩ := tells_of_object h
  cases hnamed with
  | object hlisted hothers =>
    exact ⟨_, text_object listed others,
      readBody?_object (fun p hp => (hlisted p hp).formed) (fun t ht => (hothers t ht).formed),
      htells⟩

/-- The text of an object type that is built for a node is read back to the lines that tell of it,
and it is what is built for the node, or the first part of this. Two nodes are written as the same
body if and only if they tell the same. -/
theorem readBody?_of_object (h : object ((builder d options).parts steps p) s = .ok shape) :
    ∃ lines, readBody? shape.text = some lines ∧
      Tells ((builder d options).parts steps p) s lines ∧
      (∀ site type, site.place = p → (builder d options).Unnamed site → s.reference = none →
        (s.properties.isSome || s.additionalProperties.isSome) = true →
        (builder d options).build (steps + 1) s site = .ok type →
          type = shape ∨ ∃ other, type = .shaped shape other) ∧
      ∀ d' options' steps' p' s' shape' lines',
        object ((builder d' options').parts steps' p') s' = .ok shape' →
        Tells ((builder d' options').parts steps' p') s' lines' →
          (shape.text = shape'.text ↔ lines = lines') := by
  obtain ⟨lines, htext, hread, htells⟩ := exists_readBody?_eq h
  refine ⟨lines, hread, htells, ?_, fun d' options' steps' p' s' shape' lines' h' htells' => ?_⟩
  · rintro site type rfl hsite href hshape hbuild
    exact eq_or_of_build hsite href hshape h hbuild
  · obtain ⟨lines'', htext', hread', htells''⟩ := exists_readBody?_eq h'
    cases htells'.unique htells''
    constructor
    · intro heq
      rw [heq, hread'] at hread
      exact (Option.some.inj hread).symm
    · rintro rfl
      rw [htext, htext']

/-- The object type of the example is read back. -/
theorem readBody?_boxedShape :
    object ((builder boxed {}).parts 2 .root) boxed.root = .ok boxedShape ∧
      readBody? boxedShape.text = some [.property ⟨"a \"b\n", true, "\"x | \x7b\" | true"⟩,
        .property ⟨"inner", false, "\x7b\n  [key: string]: string | null;\n\x7d"⟩] := by
  have hobject : object ((builder boxed {}).parts 2 .root) boxed.root = .ok boxedShape := by
    rw [builder_boxed]
    rfl
  obtain ⟨lines, hread, htells, -⟩ := readBody?_of_object hobject
  refine ⟨hobject, hread.trans (congrArg some (htells.unique ?_))⟩
  rw [builder_boxed]
  refine ⟨_, [], (List.append_nil _).symm, .cons ⟨rfl, by decide, _, rfl, ?_⟩
    (.cons ⟨rfl, by decide, _, rfl, ?_⟩ .nil), .none⟩
  · decide
  · decide

end Module
end SchemaTypes
