import SchemaTypes.Proofs.Module.Bodies
import SchemaTypes.Proofs.Module.Declarations

/-!
# The forms of declarations

Whether a type is declared as an interface is decided by a few facets of its schema and by the text
of its type. That comes to the same as a look at the schema alone, as far as the text has no
ampersand between blanks anywhere, be it in a string (`Module.interface_iff`): nothing but an object
type is written with a brace in front, and only a schema that says nothing else of its values is
turned into one. So what stands behind the name of an interface is a body, of which the brace in
front is closed by the one at the end (`Nesting.IsBody`).
-/

namespace SchemaTypes

/-! ## Bodies -/

namespace Nesting

variable {n n' : Nesting} {cs ds inner : List Char} {lines : List (List Char)} {operand : Bool}

/-- A text is one body: it opens a brace with its first character, outside of strings, and closes it
with its last. In between, this brace is the outermost one that is open. -/
structure IsBody (cs : List Char) : Prop where
  opens : cs.head? = some '\x7b'
  closes : cs.getLast? = some '\x7d'
  matched : run {} cs = some {}
  inside : ∀ front rest, cs = front ++ rest → front ≠ [] → rest ≠ [] →
    ∃ n, run {} front = some n ∧ n.opened.getLast? = some '\x7b'

/-- A text is read on where the text before it leads to. -/
theorem run_append : run n (cs ++ ds) = (run n cs).bind fun next => run next ds :=
  List.foldlM_append

/-- A text that is read on its own is read in the same way inside of other brackets. -/
theorem run_within (outer : List Char) (h : run n cs = some n') :
    run (n.within outer) cs = some (n'.within outer) := by
  induction cs generalizing n with
  | nil =>
    cases h
    rfl
  | cons c cs ih =>
    obtain ⟨next, hstep, hrest⟩ := Option.bind_eq_some_iff.1 h
    exact Option.bind_eq_some_iff.2 ⟨next.within outer, step_within outer hstep, ih hrest⟩

/-- A text with matched brackets makes a body if it is put into braces. -/
theorem isBody_of_run (h : run {} inner = some {}) : IsBody ('\x7b' :: (inner ++ ['\x7d'])) := by
  have hopen (cs : List Char) : run {} ('\x7b' :: cs) = run ⟨.plain, ['\x7b']⟩ cs := rfl
  refine ⟨rfl, by rw [← List.cons_append, List.getLast?_concat], ?_, ?_⟩
  · have hinner : run ⟨.plain, ['\x7b']⟩ inner = some ⟨.plain, ['\x7b']⟩ := run_within ['\x7b'] h
    rw [hopen, run_append, hinner]
    rfl
  · -- A front of the body is the brace and a front of what is inside, which is read on its own.
    intro front rest heq hfront hrest
    obtain ⟨c, front, rfl⟩ := List.exists_cons_of_ne_nil hfront
    obtain ⟨rest, last, rfl⟩ := (List.eq_nil_or_concat' rest).resolve_left hrest
    obtain ⟨rfl, heq⟩ := List.cons.inj heq
    have hsplit : inner ++ ['\x7d'] = (front ++ rest) ++ [last] := by simpa using heq
    obtain ⟨rfl, -⟩ := List.append_inj' hsplit rfl
    rw [run_append] at h
    obtain ⟨n, hn, -⟩ := Option.bind_eq_some_iff.1 h
    exact ⟨n.within ['\x7b'], run_within ['\x7b'] hn, List.getLast?_concat⟩

/-- A text that is read is read if it is indented. -/
theorem run_indent (h : Reads operand n cs n') :
    run n (cs.flatMap indentChar) = some n' := by
  induction h with
  | nil => rfl
  | @cons n next n' c rest hstep hpermits _ ih =>
    have hnext : run n (indentChar c) = some next := by
      rw [indentChar]
      split
      · next hline =>
        -- A line ends outside of strings, so the two blanks behind it are passed.
        subst hline
        obtain ⟨mode, opened⟩ := n
        obtain ⟨rfl, -⟩ := hpermits.line rfl
        cases hstep
        rfl
      · exact Option.bind_eq_some_iff.2 ⟨next, hstep, rfl⟩
    rw [List.flatMap_cons, run_append, hnext]
    exact ih

/-- The brackets in the lines of a body are matched. -/
theorem run_lines (h : ∀ line ∈ lines, Line line) :
    run {} (lines.flatMap fun line => ' ' :: ' ' :: line.flatMap indentChar ++ ['\n']) =
      some {} := by
  induction lines with
  | nil => rfl
  | cons line lines ih =>
    obtain ⟨hline, hlines⟩ := List.forall_mem_cons.1 h
    have hread : run {} (line.flatMap indentChar) = some {} := run_indent hline.phrase
    rw [List.flatMap_cons, run_append, run_append]
    show ((run {} (line.flatMap indentChar)).bind _).bind _ = _
    rw [hread]
    exact ih hlines

/-- The body of an object type is one body. -/
theorem isBody_objectBody {lines : List String} (h : ∀ line ∈ lines, Line line.toList) :
    IsBody (TypeExpr.objectBody lines).toList := by
  by_cases hnil : lines = []
  · subst hnil
    have hnone : run {} [] = some {} := rfl
    exact isBody_of_run hnone
  · have hlines : ∀ line ∈ lines.map String.toList, Line line := by simpa using h
    rw [toList_objectBody hnil, bodyRest, ← List.cons_append]
    exact isBody_of_run (run_lines hlines)

end Nesting

/-! ## The choice of a form -/

/-- A schema describes an object by its properties and says nothing else of its values. -/
structure Schema.IsShape (s : Schema) : Prop where
  reference : s.reference = none
  enum : s.enum = none
  const : s.const = none
  oneOf : s.oneOf = none
  anyOf : s.anyOf = none
  allOf : s.allOf = none
  type : s.type = some (.single "object")
  properties : (s.properties.isSome || s.additionalProperties.isSome) = true

namespace Declaration

variable {name text : String} {s : Schema}

/-- One text is found in another if and only if it is a part of it. -/
theorem Form.occursIn_iff {part cs : List Char} : Form.occursIn part cs = true ↔ part <:+: cs := by
  induction cs with
  | nil => rw [Form.occursIn, List.isEmpty_iff, List.infix_nil]
  | cons c rest ih =>
    rw [Form.occursIn, Bool.or_eq_true, List.isPrefixOf_iff_prefix, ih, List.infix_cons_iff]

/-- An interface is chosen if all tests are passed. -/
theorem Form.choose_eq_interface_iff : Form.choose s text = .interface ↔
    s.enum = none ∧ s.const = none ∧ s.type = some (.single "object") ∧
      s.oneOf = none ∧ s.anyOf = none ∧ s.allOf = none ∧
      ¬TypeExpr.ampersand.toList <:+: text.toList ∧ text.toList.head? = some '\x7b' := by
  have htype : (s.type.any isScalarOrArray = false ∧ s.isObjectType = true) ↔
      s.type = some (.single "object") := by
    constructor
    · rintro ⟨-, hobject⟩
      exact beq_iff_eq.1 hobject
    · intro hobject
      rw [Schema.isObjectType, hobject]
      exact ⟨by decide, beq_self_eq_true _⟩
  rw [← htype, ← Form.occursIn_iff, Form.choose, ite_eq_right_iff]
  simp only [reduceCtorEq, imp_false, Bool.not_eq_true, Bool.or_eq_false_iff,
    decide_eq_false_iff_not, not_not, Bool.not_eq_false', Schema.hasCombinator,
    Option.isSome_eq_false_iff, Option.isNone_iff_eq_none]
  tauto

-- An ampersand in a string rules out an interface, too.
example : Form.choose { type := some (.single "object"), properties := some [] }
    "\x7b\n  a: \"b & c\";\n\x7d" = .alias := by
  decide

/-- The text of a declaration shows in which form it is declared. -/
theorem text_ofSchema_iff (name : String) (s : Schema) (type : String) :
    ((ofSchema name s type).text = Comment.ofSchema s ++ "interface " ++ name ++ " " ++ type ↔
      Form.choose s type = .interface) ∧
    ((ofSchema name s type).text = Comment.ofSchema s ++ "type " ++ name ++ " = " ++ type ++ ";" ↔
      Form.choose s type ≠ .interface) := by
  have hne : Comment.ofSchema s ++ "interface " ++ name ++ " " ++ type ≠
      Comment.ofSchema s ++ "type " ++ name ++ " = " ++ type ++ ";" := by
    intro heq
    have hlist := congrArg String.toList heq
    simp only [String.toList_append, List.append_assoc, List.append_cancel_left_eq] at hlist
    cases hlist
  match hform : Form.choose s type with
  | .interface => simp [ofSchema, hform, hne]
  | .alias => simp [ofSchema, hform, hne.symm]

end Declaration

namespace Builder

variable {b : Builder} {part : Slot → Schema → Building TypeExpr} {s : Schema} {steps : Nat}
  {site : BuildSite} {type : TypeExpr}

/-- A schema that combines no others has no type of combinators. -/
theorem combinators_eq_none (hone : s.oneOf = none) (hany : s.anyOf = none)
    (hall : s.allOf = none) : combinators part s = .ok none := by
  rw [combinators, hone, hany, hall]
  rfl

/-- An object type is built for a schema that describes an object by its properties. -/
theorem exists_object_of_build (hs : s.IsShape) (hsite : b.Unnamed site)
    (h : b.build steps s site = .ok type) : ∃ listed others, type = .object listed others := by
  cases steps with
  | zero => cases h
  | succ steps =>
    rw [build_body steps hsite hs.reference] at h
    obtain ⟨combined, hcombined, h⟩ := Except.bind_eq_ok_iff.1 h
    cases (combinators_eq_none hs.oneOf hs.anyOf hs.allOf).symm.trans hcombined
    rw [if_pos hs.properties] at h
    obtain ⟨shape, hshape, h⟩ := Except.bind_eq_ok_iff.1 h
    cases h
    obtain ⟨listed, others, htype, -⟩ := tells_of_object hshape
    exact ⟨listed, others, htype⟩

/-- Of an object without a word about its properties nothing is known. -/
theorem eq_record_of_build (hsite : b.Unnamed site) (href : s.reference = none)
    (hone : s.oneOf = none) (hany : s.anyOf = none) (hall : s.allOf = none)
    (htype : s.type = some (.single "object"))
    (hshape : (s.properties.isSome || s.additionalProperties.isSome) = false)
    (h : b.build steps s site = .ok type) : type = .record := by
  have hobject : s.isObjectType = true := beq_iff_eq.2 htype
  cases steps with
  | zero => cases h
  | succ steps =>
    rw [build_body steps hsite href] at h
    obtain ⟨combined, hcombined, h⟩ := Except.bind_eq_ok_iff.1 h
    cases (combinators_eq_none hone hany hall).symm.trans hcombined
    simp only [hshape, Bool.false_eq_true, if_false, hobject, if_true] at h
    cases h
    rfl

/-- A place and what is found there are declared: the declaration has the name of the place, and its
type is built for the schema. -/
structure Declares (b : Builder) (declaration : Declaration) (p : Pointer) (s : Schema)
    (type : TypeExpr) : Prop where
  named : b.table.lookup? p = some declaration.name
  found : ∃ inSchema, b.document.resolve? p = some ⟨s, inSchema⟩
  built : b.declared s p = .ok type

/-- What is declared is built as the declaration of its place. -/
theorem Declares.toBuilt {declaration : Declaration} {p : Pointer}
    (h : Declares b declaration p s type) :
    b.Built (stepLimit b.document) s (.declaration p) := by
  obtain ⟨inSchema, hr⟩ := h.found
  exact .declaration (NameTable.mem_names_of_lookup? h.named) hr

end Builder

namespace Module

open Builder TypeExpr

variable {d : Document} {options : ModuleOptions} {m : Module} {declaration : Declaration}
  {steps : Nat} {s : Schema} {site : BuildSite} {type : TypeExpr} {p : Pointer}

/-- What is built for a reference is a name. -/
theorem exists_named_of_built (hbuilt : (builder d options).Built steps s site)
    (hsite : (builder d options).Unnamed site) {ref : String} (href : s.reference = some ref)
    (h : (builder d options).build steps s site = .ok type) : ∃ name, type = .named name := by
  obtain ⟨n, hreference⟩ := reference_of_build hsite href h
  cases hq : Pointer.ofRef? ref with
  | none => exact ⟨_, reference_of_external hreference hq⟩
  | some q =>
    cases hr : d.resolve? q with
    | none => exact ⟨_, reference_of_resolve?_none hreference hq hr⟩
    | some found =>
      obtain ⟨p, hs⟩ := surveyed_of_built hbuilt
      have htarget : d.IsTarget q :=
        ⟨p, s, hs, Schema.internalReference?_eq_some_iff.2 ⟨ref, href, hq⟩⟩
      obtain ⟨name, hname⟩ := complete_names d options.rootName q found htarget hr
      exact ⟨name, build_of_leadsTo hname hsite href hq h⟩

/-- Only the object type of a schema that says nothing else is written with a brace in front, if the
schema is that of an object and combines no others. -/
theorem isShape_of_build (hbuilt : (builder d options).Built steps s site)
    (hsite : (builder d options).Unnamed site)
    (hbuild : (builder d options).build steps s site = .ok type)
    (hform : Declaration.Form.choose s type.text = .interface) : s.IsShape := by
  obtain ⟨henum, hconst, htype, hone, hany, hall, -, hbrace⟩ :=
    Declaration.Form.choose_eq_interface_iff.1 hform
  have href : s.reference = none := by
    cases href : s.reference with
    | none => rfl
    | some ref =>
      -- A reference becomes a name, and no name has a brace in front.
      obtain ⟨name, rfl⟩ := exists_named_of_built hbuilt hsite href hbuild
      cases wellNamed_build (namesPlaces_builder d options) hbuild with
      | named hisName =>
        obtain ⟨c, hc, hstart⟩ := hisName.starts
        cases hc.symm.trans hbrace
        simp at hstart
  refine ⟨href, henum, hconst, hone, hany, hall, htype, ?_⟩
  rw [← Bool.not_eq_false]
  intro hshape
  cases eq_record_of_build hsite href hone hany hall htype hshape hbuild
  cases hbrace

/-- What is built for a schema that describes an object by its properties is written as a body. -/
theorem isBody_of_build (hs : s.IsShape) (hsite : (builder d options).Unnamed site)
    (hbuild : (builder d options).build steps s site = .ok type) :
    Nesting.IsBody type.text.toList := by
  obtain ⟨listed, others, rfl⟩ := exists_object_of_build hs hsite hbuild
  cases wellNamed_build (namesPlaces_builder d options) hbuild with
  | object hlisted hothers =>
    obtain ⟨lines, htext, hlines⟩ := Formed.exists_lines (fun p hp => (hlisted p hp).formed)
      fun t ht => (hothers t ht).formed
    rw [htext]
    exact Nesting.isBody_objectBody hlines

/-- Every declaration is that of a place. -/
theorem exists_declares (h : generate d options = .ok m) (hmem : declaration ∈ m.declarations) :
    ∃ p s type, Declares (builder d options) declaration p s type ∧
      declaration = .ofSchema declaration.name s type.text := by
  rw [generate_eq] at h
  obtain ⟨ds, hds, h⟩ := Except.bind_eq_ok_iff.1 h
  cases h
  obtain ⟨p, name, found, type, hplace, hr, htype, rfl⟩ := exists_type_of_mem_declare hds hmem
  have hname := name_ofSchema name found.schema type.text
  have hlookup := (Survey.consistent_names d options.rootName).lookup?_of_mem_names hplace
  exact ⟨p, found.schema, type, ⟨by rw [hname]; exact hlookup, ⟨found.inSchema, hr⟩, htype⟩,
    by rw [hname]⟩

/-- No declaration is that of two places. -/
theorem eq_of_declares {p' : Pointer} {s' : Schema} {type' : TypeExpr}
    (h : Declares (builder d options) declaration p s type)
    (h' : Declares (builder d options) declaration p' s' type') : s = s' ∧ type = type' := by
  cases (Survey.consistent_names d options.rootName).eq_of_lookup? h.named h'.named
  obtain ⟨inSchema, hr⟩ := h.found
  obtain ⟨inSchema', hr'⟩ := h'.found
  cases hr.symm.trans hr'
  cases h.built.symm.trans h'.built
  exact ⟨rfl, rfl⟩

/-- Every declaration of a module is that of a place, and it is an interface if and only if the
schema that is found there describes an object by its properties and says nothing else of its
values, and no ampersand stands between blanks anywhere in the text of its type. If it is an
interface, this text is one body. Otherwise it is an alias. -/
theorem interface_iff (h : generate d options = .ok m) (hmem : declaration ∈ m.declarations) :
    (∃ p s type, Declares (builder d options) declaration p s type) ∧
    ∀ p s type, Declares (builder d options) declaration p s type →
      (declaration.text =
          Comment.ofSchema s ++ "interface " ++ declaration.name ++ " " ++ type.text ↔
        s.IsShape ∧ ¬ampersand.toList <:+: type.text.toList) ∧
      (declaration.text =
          Comment.ofSchema s ++ "type " ++ declaration.name ++ " = " ++ type.text ++ ";" ↔
        ¬(s.IsShape ∧ ¬ampersand.toList <:+: type.text.toList)) ∧
      (s.IsShape → Nesting.IsBody type.text.toList) := by
  obtain ⟨p, s, type, hdeclares, heq⟩ := exists_declares h hmem
  refine ⟨⟨p, s, type, hdeclares⟩, fun p' s' type' hdeclares' => ?_⟩
  obtain ⟨rfl, rfl⟩ := eq_of_declares hdeclares hdeclares'
  have hsite : (builder d options).Unnamed (.declaration p) := unnamed_of_byName rfl
  have hbody (hs : s.IsShape) : Nesting.IsBody type.text.toList :=
    isBody_of_build hs hsite hdeclares.built
  have hform : Declaration.Form.choose s type.text = .interface ↔
      s.IsShape ∧ ¬ampersand.toList <:+: type.text.toList := by
    constructor
    · intro hform
      obtain ⟨-, -, -, -, -, -, hnone, -⟩ := Declaration.Form.choose_eq_interface_iff.1 hform
      exact ⟨isShape_of_build hdeclares.toBuilt hsite hdeclares.built hform, hnone⟩
    · rintro ⟨hs, hnone⟩
      exact Declaration.Form.choose_eq_interface_iff.2
        ⟨hs.enum, hs.const, hs.type, hs.oneOf, hs.anyOf, hs.allOf, hnone, (hbody hs).opens⟩
  obtain ⟨hinterface, halias⟩ := Declaration.text_ofSchema_iff declaration.name s type.text
  rw [← heq] at hinterface halias
  exact ⟨hinterface.trans hform, halias.trans (not_congr hform), hbody⟩

/-- A document of an object with one property, whose value is a closing brace. -/
def brace : Document where
  json := .object [("type", .string "object"),
    ("properties", .object [("x", .object [("enum", .array [.string "\x7d"])])])]
  root :=
    { type := some (.single "object")
      properties := some [("x", { enum := some [.string "\x7d"] })] }
  distinct := by simp [Json.KeysDistinct, Json.MembersDistinct, Json.ElementsDistinct]
  reads := by cbv

/-- Only the whole document is called by a name. -/
theorem builder_brace : builder brace { rootName := some "Brace" } =
    ⟨brace, [(.root, ⟨"Brace", "Brace"⟩)], [("Brace", 1)], ["Brace"]⟩ := by
  have hname : Visit.nameOf brace.root (Identifier.normalize "Brace") .document =
      some "Brace" := by
    decide
  have hroot : brace.root.children = [(.property "x", { enum := some [.string "\x7d"] })] := rfl
  refine congrArg (Builder.mk brace) (Survey.names_of_forall hname rfl fun slot c hc => ?_)
  rw [hroot] at hc
  cases List.mem_singleton.1 hc
  exact Survey.unnoted_of_children_eq_nil rfl rfl rfl _ _

/-- The object type of that document. -/
def braceType : TypeExpr :=
  .object [⟨"x", true, .union [.literal (.string "\x7d")]⟩] none

/-- That is what is declared. -/
theorem declared_brace :
    (builder brace { rootName := some "Brace" }).declared brace.root .root = .ok braceType := by
  rw [builder_brace]
  rfl

/-- That document is declared as an interface. -/
theorem interface_brace : ∃ m declaration, generate brace { rootName := some "Brace" } = .ok m ∧
    declaration ∈ m.declarations ∧
    declaration.text = "interface Brace \x7b\n  x?: \"\x7d\";\n\x7d" ∧
    Nesting.IsBody braceType.text.toList := by
  have hnames : (builder brace { rootName := some "Brace" }).table.names = [(.root, "Brace")] := by
    rw [builder_brace]
    rfl
  obtain ⟨m, hm, hdeclarations⟩ := exists_generate_of_names hnames declared_brace
  have hmem : Declaration.ofSchema "Brace" brace.root braceType.text ∈ m.declarations := by
    rw [hdeclarations]
    exact .head _
  have hdeclares : Declares (builder brace { rootName := some "Brace" })
      (.ofSchema "Brace" brace.root braceType.text) .root brace.root braceType := by
    refine ⟨?_, ⟨true, brace.resolve?_root⟩, declared_brace⟩
    rw [builder_brace]
    rfl
  have hshape : brace.root.IsShape := by constructor <;> rfl
  obtain ⟨-, hall⟩ := interface_iff hm hmem
  obtain ⟨hinterface, -, hbody⟩ := hall _ _ _ hdeclares
  exact ⟨m, _, hm, hmem, hinterface.2 ⟨hshape, by decide⟩, hbody hshape⟩

end Module
end SchemaTypes
