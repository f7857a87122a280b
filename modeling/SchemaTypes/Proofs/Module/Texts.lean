import SchemaTypes.Proofs.Document.Addresses
import SchemaTypes.Proofs.Module.References
import SchemaTypes.Proofs.Survey.Requests
import SchemaTypes.Proofs.Survey.Single
import SchemaTypes.Proofs.Survey.Traversal
import SchemaTypes.Proofs.TypeExpr.WellNamed

/-!
# The texts of built types

All places of a document are called by names, so what is built from it is written as a text of
operands. The brackets of the text are matched, and it is compound exactly if the type joins two
types or more at its outermost level, so parentheses stand where a suffix or an ampersand would take
in a part of the text only (`Module.group_of_build`). Every line of the text is indented by as many
levels as braces are open, whatever stands in its keys and literals (`Module.indented_of_build`).
-/

namespace SchemaTypes

namespace Module

open Builder Nesting TypeExpr

variable {d : Document} {options : ModuleOptions} {steps : Nat} {s : Schema} {site : BuildSite}
  {type : TypeExpr}

/-- All places of a document are called by names. -/
theorem namesPlaces_builder (d : Document) (options : ModuleOptions) :
    (builder d options).NamesPlaces := by
  intro p name hname
  obtain ⟨e, he, rfl⟩ := Option.map_eq_some_iff.1 hname
  obtain ⟨hrequests, n, hn⟩ := Survey.requests_of_entry?_names he
  rw [hn]
  exact NameTable.isName_variant hrequests.isName n

/-- What is built is written as a text of operands. -/
theorem formed_of_build (h : (builder d options).build steps s site = .ok type) : type.Formed :=
  (wellNamed_build (namesPlaces_builder d options) h).formed

/-! ## An example -/

/-- The schema of an object whose properties are texts or nothing. -/
def boxedInner : Schema :=
  { additionalProperties := some (.schema { type := some (.multiple ["string", "null"]) }) }

/-- A document of an object that is one of two types as well, with a key that has to be quoted, a
literal with a bar and a brace, and an object in a property. -/
def boxed : Document where
  json := .object [("title", .string "Box"), ("properties", .object [
      ("a \"b\n", .object [("enum", .array [.string "x | \x7b", .bool true])]),
      ("inner", .object [("additionalProperties",
        .object [("type", .array [.string "string", .string "null"])])])]),
    ("required", .array [.string "inner"]),
    ("oneOf", .array [.object [("type", .string "string")], .object [("type", .string "null")]])]
  root :=
    { title := some "Box"
      properties := some [("a \"b\n", { enum := some [.string "x | \x7b", .bool true] }),
        ("inner", boxedInner)]
      required := ["inner"]
      oneOf := some [{ type := some (.single "string") }, { type := some (.single "null") }] }
  distinct := by simp [Json.KeysDistinct, Json.MembersDistinct, Json.ElementsDistinct]
  reads := by cbv

/-- The names of that document. -/
def boxedTable : NameTable where
  entries := [(.root, ⟨"Box", "Box"⟩)]
  counters := [("Box", 1)]
  given := ["Box"]

/-- Only the whole document is called by a name. -/
theorem builder_boxed : builder boxed {} = ⟨boxed, boxedTable⟩ := by
  have hname : Visit.nameOf boxed.root "" .document = some "Box" := by
    have hbox : Identifier.normalized? "Box" = some "Box" := by decide
    simp [Visit.nameOf, boxed, hbox]
  have hroot : boxed.root.children =
      [(.property "a \"b\n", { enum := some [.string "x | \x7b", .bool true] }),
        (.property "inner", boxedInner), (.oneOf 0, { type := some (.single "string") }),
        (.oneOf 1, { type := some (.single "null") })] := rfl
  have hinner : boxedInner.children =
      [(.otherProperties, { type := some (.multiple ["string", "null"]) })] := rfl
  refine congrArg (Builder.mk boxed) (Survey.names_of_forall hname rfl fun slot c hc => ?_)
  rw [hroot] at hc
  simp only [List.mem_cons, List.not_mem_nil, or_false, Prod.mk.injEq] at hc
  rcases hc with ⟨rfl, rfl⟩ | ⟨rfl, rfl⟩ | ⟨rfl, rfl⟩ | ⟨rfl, rfl⟩
  · exact Survey.unnoted_of_children_eq_nil rfl rfl rfl _ _
  · rw [Visit.visits_eq, hinner, List.flatMap_singleton, List.forall_mem_cons]
    exact ⟨⟨rfl, rfl⟩, Survey.unnoted_of_children_eq_nil rfl rfl rfl _ _⟩
  · exact Survey.unnoted_of_children_eq_nil rfl rfl rfl _ _
  · exact Survey.unnoted_of_children_eq_nil rfl rfl rfl _ _

/-- The object type of that document. -/
def boxedShape : TypeExpr :=
  .object [⟨"a \"b\n", true, .union [.literal (.string "x | \x7b"), .literal (.bool true)]⟩,
    ⟨"inner", false, .object [] (some (.union [.basic .string, .basic .null]))⟩] none

/-- The type of that document. -/
def boxedType : TypeExpr :=
  .shaped boxedShape (.union [.basic .string, .basic .null])

/-- That is what is built for the document. -/
theorem build_boxed : (builder boxed {}).build (stepLimit boxed) boxed.root (.declaration .root) =
    .ok boxedType := by
  obtain ⟨n, hn⟩ : ∃ n, stepLimit boxed = n + 1 + 1 + 1 := ⟨_, rfl⟩
  rw [builder_boxed, hn]
  rfl

/-! ## Parentheses and lines -/

/-- The text of what is built has matching brackets outside of strings, and it is compound exactly
if the type joins two types or more at its outermost level. It is put into parentheses in exactly
these cases, and these are the cases in which without them the suffix of a list would belong to the
last operand only, and so would an ampersand. With the parentheses neither does. -/
theorem group_of_build (h : (builder d options).build steps s site = .ok type) :
    Nesting.run {} type.text.toList = some {} ∧
    isCompound type.text = type.isJoin ∧
    group type.text = (if type.isJoin then "(" ++ type.text ++ ")" else type.text) ∧
    (operands (type.text ++ "[]") = [type.text ++ "[]"] ↔ type.isJoin = false) ∧
    operands (group type.text ++ "[]") = [group type.text ++ "[]"] ∧
    ∀ steps' s' site' other, (builder d options).build steps' s' site' = .ok other →
      (operands (type.text ++ ampersand ++ group other.text) = [type.text, group other.text] ↔
        type.isJoin = false) ∧
      operands (group type.text ++ ampersand ++ group other.text) =
        [group type.text, group other.text] := by
  have hformed := formed_of_build h
  obtain ⟨ps, hps, hjoin⟩ := formed_of_build h
  have hsingle : ps.length = 1 ↔ type.isJoin = false := by
    have hpos := hps.length_pos
    rw [← Bool.not_eq_true, hjoin]
    omega
  have hgroup := Joined.one hformed.group
  refine ⟨hps.phrase.run, hformed.isCompound_eq, ?_, hps.operands_suffix_iff.trans hsingle,
    hgroup.operands_suffix_iff.2 rfl, fun steps' s' site' other hother => ?_⟩
  · rw [TypeExpr.group, hformed.isCompound_eq]
  · have hother := (formed_of_build hother).group
    exact ⟨(hps.operands_ampersand_iff hother).trans hsingle,
      (hgroup.operands_ampersand_iff hother).2 rfl⟩

/-- The type of that document is put into parentheses. -/
theorem group_boxedType :
    (builder boxed {}).build (stepLimit boxed) boxed.root (.declaration .root) = .ok boxedType ∧
      Nesting.run {} boxedType.text.toList = some {} ∧ isCompound boxedType.text = true ∧
      group boxedType.text = "(" ++ boxedType.text ++ ")" ∧
      operands (boxedType.text ++ "[]") ≠ [boxedType.text ++ "[]"] ∧
      operands (group boxedType.text ++ "[]") = [group boxedType.text ++ "[]"] := by
  have hjoin : boxedType.isJoin = true := rfl
  obtain ⟨hrun, hcompound, hgroup, hsuffix, hgrouped, -⟩ := group_of_build build_boxed
  rw [hjoin] at hcompound hgroup hsuffix
  exact ⟨build_boxed, hrun, hcompound, hgroup,
    fun heq => Bool.false_ne_true (hsuffix.1 heq).symm, hgrouped⟩

/-- Behind every line end in the text of what is built, which is never inside of a string, stand two
blanks for each brace that is open there, but none for one that the line closes, and then something
to be seen. Keys and literals do not change if they are indented. -/
theorem indented_of_build (h : (builder d options).build steps s site = .ok type) :
    (∀ front rest, type.text.toList = front ++ '\n' :: rest →
      ∃ n first tail, Nesting.run {} front = some n ∧ n.mode = .plain ∧ 0 < n.braces ∧
        first ≠ ' ' ∧ first ≠ '\n' ∧
        rest = List.replicate (2 * if first = '\x7d' then n.braces - 1 else n.braces) ' ' ++
          first :: tail) ∧
    (∀ key, indent (Identifier.propertyKey key) = Identifier.propertyKey key) ∧
    ∀ v : Json, indent v.compact = v.compact := by
  refine ⟨fun front rest htext => ?_, fun key => (Identifier.flat_propertyKey key).indent_eq,
    fun v => v.flat_compact.indent_eq⟩
  have hphrase := (formed_of_build h).phrase
  rw [htext] at hphrase
  obtain ⟨n, hrun, hpermits⟩ := Reads.exists_permits hphrase
  obtain ⟨hmode, hopened, first, tail, hblank, hfirst, hrest⟩ := hpermits.line rfl
  exact ⟨n, first, tail, hrun, hmode, List.count_pos_iff.2 hopened, hblank, hfirst, hrest⟩

/-- The lines of the type of that document are indented. -/
theorem indented_boxedType :
    (builder boxed {}).build (stepLimit boxed) boxed.root (.declaration .root) = .ok boxedType ∧
      boxedType.text = "\x7b\n  \"a \\\"b\\n\"?: \"x | \x7b\" | true;\n  inner: \x7b\n" ++
        "    [key: string]: string | null;\n  \x7d;\n\x7d & (string | null)" ∧
      ∀ front rest, boxedType.text.toList = front ++ '\n' :: rest →
        ∃ n first tail, Nesting.run {} front = some n ∧ n.mode = .plain ∧ 0 < n.braces ∧
          first ≠ ' ' ∧ first ≠ '\n' ∧
          rest = List.replicate (2 * if first = '\x7d' then n.braces - 1 else n.braces) ' ' ++
            first :: tail :=
  ⟨build_boxed, by decide, (indented_of_build build_boxed).1⟩

end Module
end SchemaTypes
