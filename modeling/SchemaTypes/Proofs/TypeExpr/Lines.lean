import SchemaTypes.Proofs.Json.Quoted
import SchemaTypes.Proofs.TypeExpr.Operands
import SchemaTypes.Proofs.TypeExpr.Phrases

/-!
# Reading object bodies

The text of an object type is read back into its lines (`TypeExpr.readBody?`). It is cut at the line
ends at which only the brace of the body is open, and each line is moved back by the two blanks it
was indented by. What stands in front of the first colon outside of quotes is the key of a property,
unless it is the bracket of the line for all other properties. If the lines are phrases, the body is
read to just these lines (`TypeExpr.readBody?_objectBody`), so no two lists of lines are written as
the same body.
-/

namespace SchemaTypes

/-! ## Lines of a text -/

/-- The pieces of a text between the line ends at which one bracket is open. -/
def Scan.linesFrom (s : Scan) : List Char → List (List Char)
  | [] => [[]]
  | c :: rest =>
    if c = '\n' ∧ s = ⟨.plain, 1⟩ then [] :: linesFrom s rest
    else (linesFrom (s.step c) rest).modifyHead (c :: ·)

namespace TypeExpr

/-- A text of several lines with two blanks less behind every line end. -/
def outdent : List Char → List Char
  | [] => []
  | '\n' :: ' ' :: ' ' :: rest => '\n' :: outdent rest
  | c :: rest => c :: outdent rest

/-- A line of an object body: a property with the text of its type, or the text of the type of all
other properties. -/
inductive BodyLine where
  | property (property : PropertyType String)
  | others (type : String)

/-- How a line is written. -/
def BodyLine.text : BodyLine → String
  | .property p => propertyLine p.key p.isOptional p.type
  | .others type => othersLine type

/-- The key at the front of a line, and what is behind it. -/
def readKey? : List Char → Option (String × List Char)
  | '"' :: rest => (Json.readString rest).toOption
  | cs => some (String.ofList (cs.takeWhile Identifier.isKeyChar),
      cs.dropWhile Identifier.isKeyChar)

/-- The text of a type, behind its colon and in front of the semicolon at the end of the line. -/
def readType? : List Char → Option String
  | ':' :: ' ' :: rest =>
    if rest.getLast? = some ';' then some (String.ofList rest.dropLast) else none
  | _ => none

/-- A line of an object body. -/
def readLine? (cs : List Char) : Option BodyLine :=
  if "[key: string]".toList.isPrefixOf cs then
    (readType? (cs.drop "[key: string]".length)).map .others
  else
    (readKey? cs).bind fun (key, behind) =>
      if behind.head? = some '?' then
        (readType? behind.tail).map fun type => .property ⟨key, true, type⟩
      else (readType? behind).map fun type => .property ⟨key, false, type⟩

/-- A line of an object body that is indented. -/
def readIndented? : List Char → Option BodyLine
  | ' ' :: ' ' :: rest => readLine? (outdent rest)
  | _ => none

/-- The lines of an object body. -/
def readBody? (text : String) : Option (List BodyLine) :=
  match Scan.linesFrom {} text.toList with
  | [['\x7b', '\x7d']] => some []
  | ['\x7b'] :: lines =>
    if lines.getLast? = some ['\x7d'] then lines.dropLast.mapM readIndented? else none
  | _ => none

open Nesting

variable {text : String} {cs : List Char}

/-! ## One line -/

/-- A character that ends no line stays where it is. -/
theorem outdent_cons {c : Char} (hc : c ≠ '\n') (cs : List Char) :
    outdent (c :: cs) = c :: outdent cs := by
  simp [outdent, hc]

/-- What was indented is moved back. -/
theorem outdent_flatMap_indentChar (cs : List Char) : outdent (cs.flatMap indentChar) = cs := by
  induction cs with
  | nil => rfl
  | cons c cs ih =>
    rw [List.flatMap_cons, indentChar]
    by_cases hc : c = '\n'
    · rw [if_pos hc, hc]
      exact congrArg _ ih
    · rw [if_neg hc, List.singleton_append, outdent_cons hc, ih]

/-- The text of a type is read back. -/
theorem readType?_eq (text : String) :
    readType? (':' :: ' ' :: (text.toList ++ [';'])) = some text := by
  rw [readType?, List.getLast?_concat, if_pos rfl, List.dropLast_concat, String.ofList_toList]

/-- A key is read back, if what is behind it is no part of it. -/
theorem readKey?_propertyKey (key : String) {c : Char} {rest : List Char}
    (hc : Identifier.isKeyChar c = false) :
    readKey? ((Identifier.propertyKey key).toList ++ c :: rest) = some (key, c :: rest) := by
  rw [Identifier.propertyKey]
  split
  · next hbare =>
    obtain ⟨first, tail, heq, hfirst, htail⟩ := Identifier.isBareKey_iff.1 hbare
    have hquote : first ≠ '"' := by
      rintro rfl
      cases hfirst
    have hchars : ∀ d ∈ key.toList, Identifier.isKeyChar d = true := by
      rw [heq]
      exact List.forall_mem_cons.2 ⟨by rw [Identifier.isKeyChar, hfirst, Bool.true_or], htail⟩
    have hread : readKey? (key.toList ++ c :: rest) =
        some (String.ofList ((key.toList ++ c :: rest).takeWhile Identifier.isKeyChar),
          (key.toList ++ c :: rest).dropWhile Identifier.isKeyChar) := by
      rw [heq, List.cons_append]
      simp [readKey?, hquote]
    rw [hread, List.takeWhile_append_of_pos hchars, List.dropWhile_append_of_pos hchars]
    simp [hc]
  · rw [toList_quote, List.cons_append, List.append_assoc, List.singleton_append, readKey?,
      Json.readsBack_escapeChar.readString_quote]
    rfl

/-- The line of a property is read back from its key and what is behind it. -/
theorem readLine?_propertyKey (key : String) {c : Char} {rest : List Char}
    (hc : Identifier.isKeyChar c = false) :
    readLine? ((Identifier.propertyKey key).toList ++ c :: rest) =
      if c = '?' then (readType? rest).map fun type => .property ⟨key, true, type⟩
      else (readType? (c :: rest)).map fun type => .property ⟨key, false, type⟩ := by
  have hnone : "[key: string]".toList.isPrefixOf
      ((Identifier.propertyKey key).toList ++ c :: rest) = false := by
    obtain ⟨first, tail, hkey, hfirst⟩ := exists_propertyKey_eq key
    have hbracket : '[' ≠ first := by
      rintro rfl
      rcases hfirst with hfirst | hfirst <;> cases hfirst
    rw [hkey]
    simp [List.isPrefixOf, hbracket]
  rw [readLine?, hnone, readKey?_propertyKey key hc]
  simp

/-- A line is read back. -/
theorem readLine?_text (line : BodyLine) : readLine? line.text.toList = some line := by
  cases line with
  | others type =>
    have hlist : (BodyLine.others type).text.toList =
        "[key: string]".toList ++ ':' :: ' ' :: (type.toList ++ [';']) := by
      simp [BodyLine.text, othersLine]
    have hprefix := List.isPrefixOf_iff_prefix.2 (List.prefix_append "[key: string]".toList
      (':' :: ' ' :: (type.toList ++ [';'])))
    rw [hlist, readLine?, if_pos hprefix, ← String.length_toList, List.drop_left, readType?_eq]
    rfl
  | property p =>
    obtain ⟨key, isOptional, type⟩ := p
    have hmarks : Identifier.isKeyChar '?' = false ∧ Identifier.isKeyChar ':' = false := by
      decide
    cases isOptional with
    | true =>
      have hlist : (BodyLine.property ⟨key, true, type⟩).text.toList =
          (Identifier.propertyKey key).toList ++ '?' :: ':' :: ' ' :: (type.toList ++ [';']) := by
        simp [BodyLine.text, propertyLine]
      rw [hlist, readLine?_propertyKey key hmarks.1, if_pos rfl, readType?_eq]
      rfl
    | false =>
      have hlist : (BodyLine.property ⟨key, false, type⟩).text.toList =
          (Identifier.propertyKey key).toList ++ ':' :: ' ' :: (type.toList ++ [';']) := by
        simp [BodyLine.text, propertyLine]
      rw [hlist, readLine?_propertyKey key hmarks.2, if_neg (by decide), readType?_eq]
      rfl

/-! ## All lines -/

/-- A character stays in its line, unless it ends it. -/
theorem linesFrom_cons {s : Scan} {c : Char} (h : c = '\n' → s ≠ ⟨.plain, 1⟩) (rest : List Char) :
    Scan.linesFrom s (c :: rest) = (Scan.linesFrom (s.step c) rest).modifyHead (c :: ·) := by
  rw [Scan.linesFrom, if_neg fun hend => h hend.1 hend.2]

/-- A blank outside of strings stays in its line. -/
theorem linesFrom_blank (depth : Nat) (rest : List Char) :
    Scan.linesFrom ⟨.plain, depth⟩ (' ' :: rest) =
      (Scan.linesFrom ⟨.plain, depth⟩ rest).modifyHead (' ' :: ·) :=
  linesFrom_cons (fun h => absurd h (by decide)) rest

/-- What is read of a phrase is not cut when it is indented in braces: its lines end where more
braces are open. -/
theorem linesFrom_flatMap_indentChar {operand : Bool} {n n' : Nesting} (h : Reads operand n cs n')
    (hend : n' = {}) (rest : List Char) :
    Scan.linesFrom (n.within ['\x7b']).scan (cs.flatMap indentChar ++ rest) =
      (Scan.linesFrom ⟨.plain, 1⟩ rest).modifyHead (cs.flatMap indentChar ++ ·) := by
  induction h with
  | nil =>
    subst hend
    rw [List.flatMap_nil, List.nil_append]
    exact (congrFun List.modifyHead_id _).symm
  | @cons n next n' c cs hstep hpermits _ ih =>
    have hscan : (n.within ['\x7b']).scan.step c = (next.within ['\x7b']).scan :=
      step_scan (step_within _ hstep)
    rw [List.flatMap_cons, List.append_assoc, indentChar]
    by_cases hc : c = '\n'
    · subst hc
      obtain ⟨hmode, hopened, -⟩ := hpermits.line rfl
      obtain ⟨mode, opened⟩ := n
      cases hmode
      cases hstep
      -- A second brace is open where the line ends, so the body is not cut there.
      have hdeep : (within ⟨.plain, opened⟩ ['\x7b']).scan ≠ ⟨.plain, 1⟩ := by
        intro heq
        have hlength := congrArg Scan.depth heq
        rw [scan, within, List.length_append] at hlength
        exact List.ne_nil_of_mem hopened (List.length_eq_zero_iff.1 (Nat.succ.inj hlength))
      have hplain : (within ⟨.plain, opened⟩ ['\x7b']).scan =
          ⟨.plain, (opened ++ ['\x7b']).length⟩ := rfl
      rw [if_pos rfl, List.cons_append, List.cons_append, List.cons_append, List.nil_append,
        linesFrom_cons fun _ => hdeep, hscan, hplain, linesFrom_blank, linesFrom_blank, ← hplain,
        ih hend]
      cases Scan.linesFrom ⟨.plain, 1⟩ rest <;> rfl
    · rw [if_neg hc, List.singleton_append, linesFrom_cons (fun h => absurd h hc), hscan, ih hend]
      cases Scan.linesFrom ⟨.plain, 1⟩ rest <;> rfl

/-- The lines of an object body. -/
theorem linesFrom_bodyRest {lines : List (List Char)} (h : ∀ line ∈ lines, Line line) :
    Scan.linesFrom ⟨.plain, 1⟩ (bodyRest lines) =
      lines.map (fun line => ' ' :: ' ' :: line.flatMap indentChar) ++ [['\x7d']] := by
  induction lines with
  | nil => rfl
  | cons line lines ih =>
    have hline : Scan.linesFrom ⟨.plain, 1⟩ (line.flatMap indentChar ++ '\n' :: bodyRest lines) =
        (Scan.linesFrom ⟨.plain, 1⟩ ('\n' :: bodyRest lines)).modifyHead
          (line.flatMap indentChar ++ ·) :=
      linesFrom_flatMap_indentChar (h line (.head _)).phrase rfl _
    have hend : Scan.linesFrom ⟨.plain, 1⟩ ('\n' :: bodyRest lines) =
        [] :: Scan.linesFrom ⟨.plain, 1⟩ (bodyRest lines) := by
      rw [Scan.linesFrom, if_pos ⟨rfl, rfl⟩]
    rw [bodyRest_cons, linesFrom_blank, linesFrom_blank, hline, hend,
      ih fun line hmem => h line (.tail _ hmem)]
    simp

/-- A line that is indented is read back. -/
theorem readIndented?_text (line : BodyLine) :
    readIndented? (' ' :: ' ' :: line.text.toList.flatMap indentChar) = some line := by
  rw [readIndented?, outdent_flatMap_indentChar, readLine?_text]

/-- Lines that are indented are read back. -/
theorem mapM_readIndented? (lines : List BodyLine) :
    (lines.map fun line => ' ' :: ' ' :: line.text.toList.flatMap indentChar).mapM readIndented? =
      some lines := by
  induction lines with
  | nil => rfl
  | cons line lines ih => simp [readIndented?_text, ih]

/-- An object body is read back, if its lines are phrases. -/
theorem readBody?_objectBody {lines : List BodyLine} (h : ∀ line ∈ lines, Line line.text.toList) :
    readBody? (objectBody (lines.map BodyLine.text)) = some lines := by
  by_cases hnil : lines = []
  · subst hnil
    rfl
  · have hbody : Scan.linesFrom {} (objectBody (lines.map BodyLine.text)).toList =
        ['\x7b'] :: ((lines.map fun line => ' ' :: ' ' :: line.text.toList.flatMap indentChar) ++
          [['\x7d']]) := by
      have hopen : ∀ cs, Scan.linesFrom {} ('\x7b' :: '\n' :: cs) =
          ['\x7b'] :: Scan.linesFrom ⟨.plain, 1⟩ cs := fun _ => rfl
      rw [toList_objectBody (by simpa using hnil), hopen, linesFrom_bodyRest (by simpa using h),
        List.map_map, List.map_map]
      rfl
    rw [readBody?, hbody]
    simp only [List.getLast?_concat, List.dropLast_concat, if_true]
    exact mapM_readIndented? lines

/-! ## Object types -/

/-- The lines of an object type: one for each property, and at last the one for all others. -/
def bodyLines (properties : List (PropertyType TypeExpr)) (others : Option TypeExpr) :
    List BodyLine :=
  properties.map (fun p => .property ⟨p.key, p.isOptional, p.type.text⟩) ++
    others.toList.map fun t => .others t.text

/-- An object type is written in its lines. -/
theorem text_object (properties : List (PropertyType TypeExpr)) (others : Option TypeExpr) :
    (TypeExpr.object properties others).text =
      objectBody ((bodyLines properties others).map BodyLine.text) := by
  have hlines : propertyLines properties = (properties.map fun p =>
      BodyLine.property ⟨p.key, p.isOptional, p.type.text⟩).map BodyLine.text := by
    rw [propertyLines_eq_map, List.map_map]
    rfl
  cases others with
  | none => rw [TypeExpr.text, hlines, bodyLines, Option.toList_none, List.map_nil, List.append_nil]
  | some t => rw [TypeExpr.text, hlines, bodyLines, List.map_append]; rfl

/-- An object type is read back, if the texts of its parts are phrases. -/
theorem readBody?_object {properties : List (PropertyType TypeExpr)} {others : Option TypeExpr}
    (h : ∀ p ∈ properties, Formed p.type) (hothers : ∀ t, others = some t → Formed t) :
    readBody? (TypeExpr.object properties others).text = some (bodyLines properties others) := by
  rw [text_object]
  refine readBody?_objectBody (List.forall_mem_append.2 ⟨?_, ?_⟩)
  · exact List.forall_mem_map.2 fun p hp =>
      line_propertyLine p.key p.isOptional (h p hp).phrase
  · exact List.forall_mem_map.2 fun t ht =>
      line_othersLine (hothers t (Option.mem_toList.1 ht)).phrase

end TypeExpr
end SchemaTypes
