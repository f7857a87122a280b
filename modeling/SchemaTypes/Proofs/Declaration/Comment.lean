import SchemaTypes.Declaration.Comment
import SchemaTypes.Proofs.Text.Split

/-!
# Comments end where they should

The text of a schema cannot end its comment: the mark that does so is broken up in the text
(`Comment.unended_breakMarks`), and it does not come about where lines are put behind one another,
because each of them starts with a blank and ends with a line end. So the only mark is the one in
the last line, and what stands in front of it are the lines of the text
(`Comment.isComment_ofSchema`).
-/

namespace SchemaTypes
namespace Comment

variable {c : Char} {cs ds front line : List Char} {ls : List (List Char)}

/-! ## The mark that ends a comment -/

/-- The mark that ends a comment does not occur in a text. -/
def Unended (cs : List Char) : Prop :=
  ¬['*', '/'] <:+: cs

/-- A text and what it is when every mark in it is broken up: the text holds none, or it has a first
one, with the rest of the text behind it. -/
inductive Breaks : List Char → List Char → Prop where
  | none {cs : List Char} : Unended cs → Breaks cs cs
  | mark {front cs ds : List Char} : Unended front → Breaks cs ds →
    Breaks (front ++ '*' :: '/' :: cs) (front ++ '*' :: '\\' :: '/' :: ds)

/-- There is no mark in the empty text. -/
theorem unended_nil : Unended [] := by
  simp [Unended]

/-- There is no mark in a text if there is none behind its first character and none starts with
it. -/
theorem unended_cons : Unended (c :: cs) ↔ ¬(c = '*' ∧ cs.head? = some '/') ∧ Unended cs := by
  have hfront : ['*', '/'] <+: c :: cs ↔ c = '*' ∧ cs.head? = some '/' := by
    cases cs <;> simp [List.cons_prefix_cons, eq_comm]
  rw [Unended, List.infix_cons_iff, hfront, not_or, Unended]

/-- Two texts without a mark hold none together, if none comes about where they meet. -/
theorem Unended.append (h : Unended cs) (h' : Unended ds)
    (hseam : ¬(cs.getLast? = some '*' ∧ ds.head? = some '/')) : Unended (cs ++ ds) := by
  induction cs with
  | nil => exact h'
  | cons c cs ih =>
    obtain ⟨hc, hcs⟩ := unended_cons.1 h
    rw [List.cons_append, unended_cons]
    cases cs with
    | nil => exact ⟨hseam.imp fun ⟨hc, hds⟩ => by simp_all, h'⟩
    | cons d cs => exact ⟨hc, ih hcs (by simpa using hseam)⟩

/-- A character that starts no mark stays as it is. -/
theorem breakMarks_cons (h : ¬(c = '*' ∧ cs.head? = some '/')) :
    breakMarks (c :: cs) = c :: breakMarks cs := by
  rw [breakMarks]
  rintro rest rfl rfl
  exact h ⟨rfl, rfl⟩

/-- A text without a mark stays as it is. -/
theorem breakMarks_of_unended (h : Unended cs) : breakMarks cs = cs := by
  induction cs with
  | nil => rfl
  | cons c cs ih =>
    obtain ⟨hc, hcs⟩ := unended_cons.1 h
    rw [breakMarks_cons hc, ih hcs]

/-- The first mark of a text is broken up, and then those behind it are. -/
theorem breakMarks_append (h : Unended front) (cs : List Char) :
    breakMarks (front ++ '*' :: '/' :: cs) = front ++ '*' :: '\\' :: '/' :: breakMarks cs := by
  induction front with
  | nil => rfl
  | cons c front ih =>
    obtain ⟨hc, hfront⟩ := unended_cons.1 h
    have hnext : ¬(c = '*' ∧ (front ++ '*' :: '/' :: cs).head? = some '/') := by
      cases front <;> simp_all
    rw [List.cons_append, breakMarks_cons hnext, ih hfront, List.cons_append]

/-- The marks of a text are broken up in one way. -/
theorem breaks_iff : Breaks cs ds ↔ ds = breakMarks cs := by
  constructor
  · intro h
    induction h with
    | none hcs => exact (breakMarks_of_unended hcs).symm
    | mark hfront _ ih => rw [breakMarks_append hfront, ← ih]
  · rintro rfl
    fun_induction breakMarks cs with
    | case1 rest ih => exact @Breaks.mark [] _ _ unended_nil ih
    | case2 c rest hmark ih =>
      have hc : ¬(c = '*' ∧ rest.head? = some '/') := by
        rintro ⟨rfl, hrest⟩
        obtain ⟨tail, rfl⟩ := List.head?_eq_some_iff.1 hrest
        exact hmark tail rfl rfl
      generalize hbroken : breakMarks rest = broken at ih
      cases ih with
      | none hrest => exact .none (unended_cons.2 ⟨hc, hrest⟩)
      | @mark front _ _ hfront hbehind =>
        refine @Breaks.mark (c :: front) _ _ (unended_cons.2 ⟨?_, hfront⟩) hbehind
        cases front <;> simp_all
    | case3 => exact .none unended_nil

/-- Where the marks are broken up, the first character stays the same. -/
theorem head?_breakMarks (cs : List Char) : (breakMarks cs).head? = cs.head? := by
  fun_cases breakMarks cs <;> rfl

/-- No mark is left, and none comes about, where all are broken up. -/
theorem unended_breakMarks (cs : List Char) : Unended (breakMarks cs) := by
  fun_induction breakMarks cs with
  | case1 rest ih => simp [unended_cons, ih]
  | case2 c rest hmark ih =>
    rw [unended_cons, head?_breakMarks]
    refine ⟨?_, ih⟩
    rintro ⟨rfl, hrest⟩
    obtain ⟨tail, rfl⟩ := List.head?_eq_some_iff.1 hrest
    exact hmark tail rfl rfl
  | case3 => exact unended_nil

/-! ## The lines of a text -/

/-- A text and its lines. A line ends at a line end, and a carriage return in front of this belongs
to it. The last line may have no line end, if there is anything in it. -/
inductive HasLines : List Char → List (List Char) → Prop where
  | nil : HasLines [] []
  | last {line : List Char} : line ≠ [] → '\n' ∉ line → HasLines line [line]
  | ended {line rest : List Char} {ls : List (List Char)} : '\n' ∉ line →
    line.getLast? ≠ some '\r' → HasLines rest ls → HasLines (line ++ '\n' :: rest) (line :: ls)
  | returned {line rest : List Char} {ls : List (List Char)} : '\n' ∉ line → HasLines rest ls →
    HasLines (line ++ '\r' :: '\n' :: rest) (line :: ls)

/-- A text without a line end is a line, if there is anything in it. -/
theorem lines_of_notMem (h : '\n' ∉ cs) : lines cs = if cs = [] then [] else [cs] := by
  have hsplit : Text.split (· == '\n') cs = [cs] :=
    Text.split_eq_singleton fun c hc => beq_false_of_ne (ne_of_mem_of_not_mem hc h)
  rw [lines, hsplit]
  cases cs <;> rfl

/-- The first line of a text, and those behind its end. -/
theorem lines_append (h : '\n' ∉ line) (rest : List Char) :
    lines (line ++ '\n' :: rest) = dropReturn line :: lines rest := by
  have hsplit : Text.split (· == '\n') (line ++ '\n' :: rest) =
      line :: Text.split (· == '\n') rest := by
    rw [Text.split_append_cons rfl,
      Text.split_eq_singleton fun c hc => beq_false_of_ne (ne_of_mem_of_not_mem hc h),
      List.singleton_append]
  have hne : Text.split (· == '\n') rest ≠ [] := Text.split_ne_nil rest
  obtain ⟨piece, pieces, hrest⟩ := List.exists_cons_of_ne_nil hne
  rw [lines, lines, hsplit, hrest, List.getLast?_cons_cons, List.dropLast_cons_cons, List.map_cons]
  cases (piece :: pieces).getLast? with
  | none => rfl
  | some last => cases last <;> rfl

/-- A text has one list of lines. -/
theorem hasLines_iff : HasLines cs ls ↔ ls = lines cs := by
  constructor
  · intro h
    induction h with
    | nil => rfl
    | last hne hline => rw [lines_of_notMem hline, if_neg hne]
    | ended hline hreturn _ ih => rw [lines_append hline, dropReturn, if_neg hreturn, ← ih]
    | @returned line rest ls hline _ ih =>
      have hsplit : line ++ '\r' :: '\n' :: rest = (line ++ ['\r']) ++ '\n' :: rest := by simp
      rw [hsplit, lines_append (by simpa using hline), dropReturn, List.getLast?_concat, if_pos rfl,
        List.dropLast_concat, ← ih]
  · rintro rfl
    -- By induction on the length, because a line is taken off as a whole.
    induction hlength : cs.length using Nat.strongRecOn generalizing cs with
    | _ n ih =>
    by_cases hmem : '\n' ∈ cs
    · obtain ⟨line, rest, rfl, hline⟩ := List.eq_append_cons_of_mem hmem
      have hrest : HasLines rest (lines rest) := ih rest.length (by simp_all; omega) rfl
      rw [lines_append hline, dropReturn]
      split
      · next hreturn =>
        obtain ⟨line, rfl⟩ := List.getLast?_eq_some_iff.1 hreturn
        rw [List.dropLast_concat, List.append_assoc, List.singleton_append]
        exact .returned (fun hmem => hline (List.mem_append_left _ hmem)) hrest
      · next hreturn => exact .ended hline hreturn hrest
    · rw [lines_of_notMem hmem]
      split
      · next hnil =>
        rw [hnil]
        exact .nil
      · next hne => exact .last hne hmem

/-- A line of a text is a part of it in which no line ends. -/
theorem HasLines.infix_of_mem (h : HasLines cs ls) (hline : line ∈ ls) :
    line <:+: cs ∧ '\n' ∉ line := by
  induction h with
  | nil => cases hline
  | last _ hlast =>
    rw [List.mem_singleton.1 hline]
    exact ⟨List.infix_refl _, hlast⟩
  | @ended first rest _ hfirst _ _ ih =>
    rcases List.mem_cons.1 hline with rfl | hline
    · exact ⟨(List.prefix_append _ _).isInfix, hfirst⟩
    · obtain ⟨hwithin, hmem⟩ := ih hline
      exact ⟨hwithin.trans ⟨first ++ ['\n'], [], by simp⟩, hmem⟩
  | @returned first rest _ hfirst _ ih =>
    rcases List.mem_cons.1 hline with rfl | hline
    · exact ⟨(List.prefix_append _ _).isInfix, hfirst⟩
    · obtain ⟨hwithin, hmem⟩ := ih hline
      exact ⟨hwithin.trans ⟨first ++ ['\r', '\n'], [], by simp⟩, hmem⟩

/-! ## Comments -/

/-- A text is a comment with the given lines between the one that opens it and the one that ends
it: each of them is marked as a line of a comment, and the comment is ended in its last line only.
-/
structure IsComment (cs : List Char) (between : List (List Char)) : Prop where
  eq : cs = "/**\n".toList ++ between.flatMap (· ++ ['\n']) ++ " */\n".toList
  marked : ∀ line ∈ between, '\n' ∉ line ∧ [' ', '*'] <+: line
  ended : ∀ front back, cs = front ++ '*' :: '/' :: back → back = ['\n']

/-- What a line of a comment says: what stands behind the blank and the star, and behind the blank
that follows these if the line is not empty. -/
def unmarked : List Char → List Char
  | ' ' :: '*' :: ' ' :: line => line
  | ' ' :: '*' :: line => line
  | line => line

/-- A line as it is marked in a comment. -/
def markedLine (line : List Char) : List Char :=
  if line = [] then [' ', '*'] else ' ' :: '*' :: ' ' :: line

/-- A line of a comment is a marked line with a line end. -/
theorem toList_commentLine (line : List Char) :
    (commentLine line).toList = markedLine line ++ ['\n'] := by
  cases line with
  | nil => rfl
  | cons c cs => simp [commentLine, markedLine]

/-- A marked line says what was marked. -/
theorem unmarked_markedLine (line : List Char) : unmarked (markedLine line) = line := by
  cases line <;> rfl

/-- A marked line is marked, and no mark that ends a comment comes about. -/
theorem Unended.markedLine (h : Unended line) :
    Unended (markedLine line ++ ['\n']) ∧ [' ', '*'] <+: Comment.markedLine line := by
  rw [Comment.markedLine]
  split
  · next hnil =>
    subst hnil
    exact ⟨by simp [unended_cons, unended_nil], List.prefix_refl _⟩
  · refine ⟨?_, ⟨' ' :: line, rfl⟩⟩
    have hend : Unended (line ++ ['\n']) :=
      h.append (by simp [unended_cons, unended_nil]) (by simp)
    simpa [unended_cons] using hend

/-- A text that is not empty makes a comment of its lines. -/
theorem toList_wrap {text : String} (h : text ≠ "") :
    (wrap text).toList = "/**\n".toList ++
      ((lines (breakMarks text.toList)).map markedLine).flatMap (· ++ ['\n']) ++
        " */\n".toList := by
  have hjoin (ls : List (List Char)) : (String.join (ls.map commentLine)).toList =
      (ls.map markedLine).flatMap (· ++ ['\n']) := by
    induction ls with
    | nil => rfl
    | cons line ls ih => simp [toList_commentLine, ih]
  rw [wrap, if_neg (by simpa using h), String.toList_append, String.toList_append, hjoin]

/-- No mark that ends a comment comes about where marked lines are put behind one another. -/
theorem unended_flatMap (h : ∀ line ∈ ls, Unended line) :
    Unended ((ls.map markedLine).flatMap (· ++ ['\n'])) := by
  induction ls with
  | nil => exact unended_nil
  | cons line ls ih =>
    obtain ⟨hline, hls⟩ := List.forall_mem_cons.1 h
    rw [List.map_cons, List.flatMap_cons]
    exact hline.markedLine.1.append (ih hls) (by simp)

/-- If a text without a mark is continued by a slash and a line end, the only mark that may come
about is the one that this slash ends. -/
theorem Unended.eq_of_append_eq {back : List Char} (h : Unended cs)
    (heq : cs ++ ['/', '\n'] = front ++ '*' :: '/' :: back) : back = ['\n'] := by
  rcases List.eq_nil_or_concat back with rfl | ⟨back, c, rfl⟩
  · have hlast := congrArg List.getLast? heq
    simp at hlast
  · have hlast : (cs ++ ['/']) ++ ['\n'] = (front ++ '*' :: '/' :: back) ++ [c] := by
      simpa using heq
    obtain ⟨hinit, hc⟩ := List.append_inj' hlast rfl
    cases hc
    clear heq hlast
    rcases List.eq_nil_or_concat back with rfl | ⟨back, c, rfl⟩
    · rfl
    · have hinner : cs ++ ['/'] = (front ++ '*' :: '/' :: back) ++ [c] := by simpa using hinit
      have hcs := (List.append_inj' hinner rfl).1
      exact absurd ⟨front, back, by simp [hcs]⟩ h

/-- Lines without a mark that ends a comment make a comment. -/
theorem isComment_of_unended (h : ∀ line ∈ ls, Unended line ∧ '\n' ∉ line) :
    IsComment ("/**\n".toList ++ (ls.map markedLine).flatMap (· ++ ['\n']) ++ " */\n".toList)
      (ls.map markedLine) where
  eq := rfl
  marked := by
    refine List.forall_mem_map.2 fun line hline => ⟨?_, (h line hline).1.markedLine.2⟩
    rw [markedLine]
    split <;> simp [(h line hline).2]
  ended := by
    have hopened : Unended "/**\n".toList := by simp [unended_cons, unended_nil]
    have hlast : Unended " *".toList := by simp [unended_cons, unended_nil]
    have hbody := unended_flatMap fun line hline => (h line hline).1
    have hinit := (hopened.append hbody (by simp)).append hlast (by simp)
    have hend : " */\n".toList = " *".toList ++ ['/', '\n'] := rfl
    intro front back heq
    rw [hend, ← List.append_assoc] at heq
    exact hinit.eq_of_append_eq heq

/-- The comment of a schema is empty if and only if its documentation is. Otherwise it is a comment
whose lines say the lines of the documentation, with every mark that ends a comment broken up. -/
theorem isComment_ofSchema (s : Schema) :
    (ofSchema s = "" ↔ text s = "") ∧
    (text s ≠ "" → ∃ between, IsComment (ofSchema s).toList between ∧
      ∀ ls, (∃ broken, Breaks (text s).toList broken ∧ HasLines broken ls) ↔
        ls = between.map unmarked) := by
  have hlines (line : List Char) (hline : line ∈ lines (breakMarks (text s).toList)) :
      Unended line ∧ '\n' ∉ line := by
    obtain ⟨hwithin, hend⟩ := (hasLines_iff.2 rfl).infix_of_mem hline
    exact ⟨fun hmark => unended_breakMarks _ (hmark.trans hwithin), hend⟩
  have hcomment (h : text s ≠ "") : IsComment (ofSchema s).toList
      ((lines (breakMarks (text s).toList)).map markedLine) := by
    rw [ofSchema, toList_wrap h]
    exact isComment_of_unended hlines
  refine ⟨⟨fun hempty => ?_, fun h => by rw [ofSchema, h]; rfl⟩, fun h => ⟨_, hcomment h, ?_⟩⟩
  · by_cases h : text s = ""
    · exact h
    · have heq := (hcomment h).eq
      rw [hempty] at heq
      cases heq
  · intro ls
    have hread : (unmarked ∘ markedLine) = id := funext unmarked_markedLine
    simp only [breaks_iff, hasLines_iff, exists_eq_left, List.map_map, hread, List.map_id]

/-- A schema whose documentation holds the mark that ends a comment, alone in a line, behind another
star, and cut in two by a line end. -/
def starred : Schema :=
  { title := some "*/", description := some "a **/\r\n *\n/ b", deprecated := true }

/-- The comment of that schema ends in its last line. -/
theorem isComment_starred :
    text starred ≠ "" ∧
      ofSchema starred =
        "/**\n * *\\/\n *\n * a **\\/\n *  *\n * / b\n * @deprecated\n */\n" ∧
      ∀ front back, (ofSchema starred).toList = front ++ '*' :: '/' :: back → back = ['\n'] := by
  have htext : text starred ≠ "" := by decide
  obtain ⟨between, hcomment, -⟩ := (isComment_ofSchema starred).2 htext
  exact ⟨htext, by decide, hcomment.ended⟩

end Comment
end SchemaTypes
