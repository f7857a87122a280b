import Mathlib
import SchemaTypes.TypeExpr.Text

/-!
# Brackets and lines of a text

A text is read from left to right with the brackets that are open outside of strings, and the
reading stops at a bracket that does not match (`Nesting.run`). The texts of types are phrases
(`Nesting.Phrase`): all brackets are matched, and behind every line end stand two blanks for each
brace that is open. Phrases can be put in a row and into brackets, and lines that are phrases can be
indented and put into braces (`Nesting.Phrase.body`).
-/

namespace SchemaTypes

/-- Where a reading of a text stands, and the brackets that are open there, the innermost first. -/
structure Nesting where
  mode : ScanMode := .plain
  opened : List Char := []
  deriving DecidableEq

namespace Nesting

open Scan

/-- The bracket that closes an opening one. -/
def closing (c : Char) : Char :=
  if c = '(' then ')' else if c = '[' then ']' else if c = '\x7b' then '\x7d' else '>'

/-- The brackets that are open behind a closing one, if it closes the innermost one. -/
def close? (c : Char) : List Char → Option (List Char)
  | [] => none
  | o :: rest => if closing o = c then some rest else none

/-- The reading after one more character. It stops at a closing bracket that does not match. -/
def step (n : Nesting) (c : Char) : Option Nesting :=
  match n.mode with
  | .escaped => some { n with mode := .quoted }
  | .quoted =>
    if c = '\\' then some { n with mode := .escaped }
    else if c = '"' then some { n with mode := .plain }
    else some n
  | .plain =>
    if c = '"' then some { n with mode := .quoted }
    else if isOpening c then some { n with opened := c :: n.opened }
    else if isClosing c then (close? c n.opened).map fun opened => { n with opened }
    else some n

/-- The reading after a text. -/
def run (n : Nesting) (cs : List Char) : Option Nesting :=
  cs.foldlM step n

/-- How many braces are open. -/
def braces (n : Nesting) : Nat :=
  n.opened.count '\x7b'

/-- How many levels a line is indented that starts with a character: one for each open brace, but
none for a brace that the line closes. -/
def level (n : Nesting) (c : Char) : Nat :=
  if c = '\x7d' then n.braces - 1 else n.braces

/-- The same reading inside of other brackets. -/
def within (n : Nesting) (outer : List Char) : Nesting :=
  { n with opened := n.opened ++ outer }

variable {n n' next : Nesting} {c : Char} {cs ds outer rest : List Char} {operand : Bool}

/-! ## Steps -/

/-- A bracket that is closed on its own is closed inside of others. -/
theorem close?_append (h : close? c cs = some rest) :
    close? c (cs ++ outer) = some (rest ++ outer) := by
  cases cs with
  | nil => cases h
  | cons o cs =>
    simp only [close?, List.cons_append] at h ⊢
    split_ifs at h ⊢
    cases h
    rfl

/-- What is read on its own is read in the same way inside of other brackets. -/
theorem step_within (outer : List Char) (h : n.step c = some next) :
    (n.within outer).step c = some (next.within outer) := by
  obtain ⟨mode, opened⟩ := n
  cases mode with
  | escaped =>
    cases h
    rfl
  | quoted =>
    simp only [step, within] at h ⊢
    split_ifs at h ⊢ <;> cases h <;> rfl
  | plain =>
    simp only [step, within] at h ⊢
    split_ifs at h ⊢
    · cases h
      rfl
    · cases h
      rfl
    · obtain ⟨rest, hrest, rfl⟩ := Option.map_eq_some_iff.1 h
      rw [close?_append hrest]
      rfl
    · cases h
      rfl

/-- A character that is no quote and no bracket is passed. -/
theorem step_of_plain (hc : (c = '"' || isOpening c || isClosing c) = false) :
    (⟨.plain, outer⟩ : Nesting).step c = some ⟨.plain, outer⟩ := by
  simp only [Bool.or_eq_false_iff, decide_eq_false_iff_not] at hc
  simp [step, hc]

/-- A bracket is opened. -/
theorem step_of_isOpening (hc : isOpening c = true) :
    (⟨.plain, outer⟩ : Nesting).step c = some ⟨.plain, c :: outer⟩ := by
  have hquote : c ≠ '"' := by
    rintro rfl
    cases hc
  simp [step, hc, hquote]

/-- There are four brackets. -/
theorem eq_or_of_isOpening (hc : isOpening c = true) :
    c = '(' ∨ c = '[' ∨ c = '\x7b' ∨ c = '<' := by
  simpa [isOpening, or_assoc] using hc

/-- The innermost bracket is closed. -/
theorem step_closing (hc : isOpening c = true) :
    (⟨.plain, c :: outer⟩ : Nesting).step (closing c) = some ⟨.plain, outer⟩ := by
  rcases eq_or_of_isOpening hc with rfl | rfl | rfl | rfl <;> rfl

/-! ## Readings -/

/-- What may stand in the text of a type: a line ends inside of braces only, and behind it stand two
blanks a level. Where one operand is read there is no bar and no ampersand outside of brackets. -/
structure Permits (operand : Bool) (n : Nesting) (c : Char) (rest : List Char) : Prop where
  line : c = '\n' → n.mode = .plain ∧ '\x7b' ∈ n.opened ∧
    ∃ first tail, first ≠ ' ' ∧ first ≠ '\n' ∧
      rest = List.replicate (2 * n.level first) ' ' ++ first :: tail
  single : operand = true → n.mode = .plain → n.opened = [] → c ≠ '|' ∧ c ≠ '&'

/-- From one reading to another, a text is read of which everything is permitted. -/
inductive Reads (operand : Bool) : Nesting → List Char → Nesting → Prop where
  | nil {n : Nesting} : Reads operand n [] n
  | cons {n next n' : Nesting} {c : Char} {rest : List Char} :
    n.step c = some next → Permits operand n c rest → Reads operand next rest n' →
      Reads operand n (c :: rest) n'

/-- What is permitted does not depend on what stands behind the next line. -/
theorem Permits.append (more : List Char) (h : Permits operand n c rest) :
    Permits operand n c (rest ++ more) where
  line hc := by
    obtain ⟨hmode, hopened, first, tail, hblank, hline, rfl⟩ := h.line hc
    exact ⟨hmode, hopened, first, tail ++ more, hblank, hline, by rw [List.append_assoc]; rfl⟩
  single := h.single

/-- Inside of brackets, everything is permitted that ends no line. -/
theorem permits_of_opened (hopened : n.opened ≠ []) (hc : c ≠ '\n') :
    Permits operand n c rest where
  line h := absurd h hc
  single _ _ h := absurd h hopened

/-- Inside of strings, everything is permitted that ends no line. -/
theorem permits_of_mode (hmode : n.mode ≠ .plain) (hc : c ≠ '\n') : Permits operand n c rest where
  line h := absurd h hc
  single _ h := absurd h hmode

/-- What is permitted stays so inside of brackets, unless it ends a line and these are braces. -/
theorem Permits.within (h : Permits operand n c rest) (hc : c = '\n' → '\x7b' ∉ outer)
    (houter : outer ≠ []) : Permits true (n.within outer) c rest where
  line hline := by
    obtain ⟨hmode, hopened, first, tail, hblank, hfirst, hrest⟩ := h.line hline
    refine ⟨hmode, List.mem_append_left _ hopened, first, tail, hblank, hfirst, ?_⟩
    have hbraces : (n.within outer).braces = n.braces := by
      rw [braces, Nesting.within, List.count_append, List.count_eq_zero_of_not_mem (hc hline)]
      rfl
    rw [hrest, level, level, hbraces]
  single _ _ hnone := absurd (List.append_eq_nil_iff.1 hnone).2 houter

namespace Reads

/-- Reading on one after the other. -/
theorem append (h : Reads operand n cs next) (h' : Reads operand next ds n') :
    Reads operand n (cs ++ ds) n' := by
  induction h with
  | nil => exact h'
  | cons hstep hpermits _ ih => exact .cons hstep (hpermits.append ds) (ih h')

/-- What is read where one operand is may be read elsewhere. -/
theorem mono (h : Reads operand n cs n') : Reads false n cs n' := by
  induction h with
  | nil => exact .nil
  | cons hstep hpermits _ ih =>
    exact .cons hstep ⟨hpermits.line, fun h => absurd h Bool.false_ne_true⟩ ih

/-- What is read on its own is read inside of brackets, unless it has several lines and these are
braces. -/
theorem within (h : Reads operand n cs n') (outer : List Char)
    (hline : '\n' ∈ cs → '\x7b' ∉ outer) (houter : outer ≠ []) :
    Reads true (n.within outer) cs (n'.within outer) := by
  induction h with
  | nil => exact .nil
  | cons hstep hpermits _ ih =>
    exact .cons (step_within outer hstep) (hpermits.within (fun hc => hline (hc ▸ .head _)) houter)
      (ih fun hmem => hline (.tail _ hmem))

/-- What is read is where the text leads to. -/
theorem run (h : Reads operand n cs n') : n.run cs = some n' := by
  induction h with
  | nil => rfl
  | cons hstep _ _ ih =>
    rw [Nesting.run, List.foldlM_cons, hstep]
    exact ih

/-- Each character that is read is permitted where the text before it leads to. -/
theorem exists_permits (h : Reads operand n (cs ++ c :: rest) n') :
    ∃ m, n.run cs = some m ∧ Permits operand m c rest := by
  induction cs generalizing n with
  | nil =>
    cases h with
    | cons _ hpermits _ => exact ⟨n, rfl, hpermits⟩
  | cons d cs ih =>
    cases h with
    | cons hstep _ hrest =>
      obtain ⟨m, hrun, hpermits⟩ := ih hrest
      refine ⟨m, ?_, hpermits⟩
      rw [Nesting.run, List.foldlM_cons, hstep]
      exact hrun

end Reads

/-! ## Phrases -/

/-- A piece of the text of a type: its brackets are matched, and its lines are indented. -/
def Phrase (operand : Bool) (cs : List Char) : Prop :=
  Reads operand {} cs {}

namespace Phrase

/-- The empty phrase. -/
theorem nil : Phrase operand [] :=
  Reads.nil

/-- Two phrases in a row are a phrase. -/
theorem append (h : Phrase operand cs) (h' : Phrase operand ds) : Phrase operand (cs ++ ds) :=
  Reads.append h h'

/-- An operand is a phrase. -/
theorem mono (h : Phrase operand cs) : Phrase false cs :=
  Reads.mono h

/-- A phrase in brackets is an operand. If these are braces, it must be a single line. -/
theorem enclose (h : Phrase operand cs) (hc : isOpening c = true) (hline : '\n' ∈ cs → c ≠ '\x7b') :
    Phrase true (c :: cs ++ [closing c]) := by
  obtain ⟨hopen, hclose, hsingle⟩ : c ≠ '\n' ∧ closing c ≠ '\n' ∧ c ≠ '|' ∧ c ≠ '&' := by
    rcases eq_or_of_isOpening hc with rfl | rfl | rfl | rfl <;> decide
  have hinner : Reads true ⟨.plain, [c]⟩ cs ⟨.plain, [c]⟩ :=
    Reads.within h [c] (fun hmem => by simpa using (hline hmem).symm) (by simp)
  have hlast : Reads true ⟨.plain, [c]⟩ [closing c] {} :=
    .cons (step_closing hc) (permits_of_opened (by simp) hclose) .nil
  exact .cons (step_of_isOpening hc) ⟨fun h => absurd h hopen, fun _ _ _ => hsingle⟩
    (hinner.append hlast)

end Phrase

/-! ## Words and strings -/

/-- Whether a character says nothing about strings, brackets and lines. -/
def isWordChar (c : Char) : Bool :=
  !(c = '"' || isOpening c || isClosing c || c = '\n')

/-- Characters that say nothing make a phrase, and an operand if they join nothing. -/
theorem Phrase.of_forall (h : ∀ c ∈ cs, isWordChar c = true)
    (hsingle : operand = true → ∀ c ∈ cs, c ≠ '|' ∧ c ≠ '&') : Phrase operand cs := by
  induction cs with
  | nil => exact nil
  | cons c cs ih =>
    have hc := h c (.head _)
    simp only [isWordChar, Bool.not_eq_true', Bool.or_eq_false_iff, decide_eq_false_iff_not] at hc
    exact .cons (step_of_plain (by simp [hc]))
      ⟨fun hline => absurd hline hc.2, fun hop _ _ => hsingle hop c (.head _)⟩
      (ih (fun d hd => h d (.tail _ hd)) fun hop d hd => hsingle hop d (.tail _ hd))

/-- The characters that say something, or join something. -/
def marks : List Char :=
  ['"', '(', ')', '[', ']', '\x7b', '\x7d', '<', '>', '\n', '|', '&']

/-- Characters of a kind to which no mark belongs make an operand. -/
theorem Phrase.of_test {test : Char → Bool} (h : ∀ c ∈ cs, test c = true)
    (htest : ∀ c ∈ marks, test c = false) : Phrase operand cs := by
  have hne {c d : Char} (hc : c ∈ cs) (hd : d ∈ marks) : c ≠ d := by
    rintro rfl
    exact Bool.false_ne_true ((htest c hd).symm.trans (h c hc))
  have hmarks {c : Char} (hc : c ∈ cs) : c ∉ marks := fun hmark => hne hc hmark rfl
  simp only [marks, List.mem_cons, not_or, List.not_mem_nil, not_false_eq_true, and_true] at hmarks
  exact of_forall (fun c hc => by simp [isWordChar, isOpening, isClosing, hmarks hc])
    fun _ c hc => (hmarks hc).2.2.2.2.2.2.2.2.2.2

/-- Whether a character inside of a string says nothing about its end. -/
def isStringChar (c : Char) : Bool :=
  !(c = '"' || c = '\\' || c = '\n')

/-- A character inside of quotes is itself, or a backslash with something behind it. -/
theorem escapeChar_eq_or (c : Char) :
    (Json.escapeChar c = [c] ∧ isStringChar c = true) ∨
      ∃ d ds, Json.escapeChar c = '\\' :: d :: ds ∧ d ≠ '\n' ∧
        ∀ e ∈ ds, isStringChar e = true := by
  have hdigit : ∀ n < 16, isStringChar (Json.hexDigit n) = true := by decide
  rw [Json.escapeChar]
  split_ifs with hquote hslash _ _ hline _ _ hcode
  iterate 7 exact .inr ⟨_, _, rfl, by decide, by simp⟩
  · refine .inr ⟨_, _, rfl, by decide, ?_⟩
    simp only [List.forall_mem_cons]
    exact ⟨rfl, rfl, hdigit _ (by omega), hdigit _ (by omega), by simp⟩
  · exact .inl ⟨rfl, by simp [isStringChar, hquote, hslash, hline]⟩

/-- Characters that say nothing leave a string open. -/
theorem reads_of_isStringChar (h : ∀ c ∈ cs, isStringChar c = true) :
    Reads operand ⟨.quoted, outer⟩ cs ⟨.quoted, outer⟩ := by
  induction cs with
  | nil => exact .nil
  | cons c cs ih =>
    have hc := h c (.head _)
    simp only [isStringChar, Bool.not_eq_true', Bool.or_eq_false_iff, decide_eq_false_iff_not] at hc
    exact .cons (by simp [step, hc]) (permits_of_mode (by simp) hc.2)
      (ih fun d hd => h d (.tail _ hd))

/-- A character inside of quotes leaves the string open. -/
theorem reads_escapeChar (c : Char) :
    Reads operand ⟨.quoted, outer⟩ (Json.escapeChar c) ⟨.quoted, outer⟩ := by
  rcases escapeChar_eq_or c with ⟨heq, hc⟩ | ⟨d, ds, heq, hd, hds⟩
  · rw [heq]
    exact reads_of_isStringChar (by simpa using hc)
  · rw [heq]
    exact .cons rfl (permits_of_mode (by simp) (by decide))
      (.cons rfl (permits_of_mode (by simp) hd) (reads_of_isStringChar hds))

/-- The characters inside of quotes leave the string open. -/
theorem reads_flatMap_escapeChar (cs : List Char) :
    Reads operand ⟨.quoted, outer⟩ (cs.flatMap Json.escapeChar) ⟨.quoted, outer⟩ := by
  induction cs with
  | nil => exact .nil
  | cons c cs ih => exact (reads_escapeChar c).append ih

/-- A string is put into quotes character by character. -/
theorem toList_quote (s : String) :
    (Json.quote s).toList = '"' :: (s.toList.flatMap Json.escapeChar ++ ['"']) :=
  String.toList_ofList

/-- A string is an operand. -/
theorem Phrase.quote (s : String) : Phrase true (Json.quote s).toList := by
  have hlast : Reads true ⟨.quoted, []⟩ ['"'] {} :=
    .cons rfl (permits_of_mode (by simp) (by decide)) .nil
  rw [toList_quote]
  exact .cons rfl ⟨fun h => absurd h (by decide), fun _ _ _ => by decide⟩
    ((reads_flatMap_escapeChar _).append hlast)

/-- A string is a single line. -/
theorem newline_notMem_quote (s : String) : '\n' ∉ (Json.quote s).toList := by
  have hline (c : Char) : '\n' ∉ Json.escapeChar c := by
    rcases escapeChar_eq_or c with ⟨heq, hc⟩ | ⟨d, ds, heq, hd, hds⟩
    · rw [heq, List.mem_singleton]
      rintro rfl
      cases hc
    · rw [heq]
      simp only [List.mem_cons, not_or]
      exact ⟨by decide, hd.symm, fun hmem => Bool.false_ne_true (hds _ hmem)⟩
  simp [toList_quote, hline]

/-! ## Lines -/

/-- A character of a text that is indented. -/
def indentChar (c : Char) : List Char :=
  if c = '\n' then ['\n', ' ', ' '] else [c]

/-- A text is indented character by character. -/
theorem toList_indent (text : String) :
    (TypeExpr.indent text).toList = text.toList.flatMap indentChar :=
  String.toList_ofList

/-- A text of a single line stays the same if it is indented. -/
theorem flatMap_indentChar_of_notMem (h : '\n' ∉ cs) : cs.flatMap indentChar = cs := by
  induction cs with
  | nil => rfl
  | cons c cs ih =>
    obtain ⟨hc, hcs⟩ := not_or.1 (mt List.mem_cons.2 h)
    rw [List.flatMap_cons, ih hcs, indentChar, if_neg (Ne.symm hc)]
    rfl

/-- Inside of another brace lines are indented by one level more. -/
theorem level_within (h : '\x7b' ∈ n.opened) (c : Char) :
    (n.within ['\x7b']).level c = n.level c + 1 := by
  have hbraces : (n.within ['\x7b']).braces = n.braces + 1 := by
    rw [braces, Nesting.within, List.count_append]
    rfl
  have hpos : 0 < n.braces := List.count_pos_iff.2 h
  rw [level, level, hbraces]
  split <;> omega

/-- A line end that is permitted is permitted in braces with two blanks more behind it. -/
theorem Permits.indent (h : Permits operand n '\n' rest) :
    Permits true (n.within ['\x7b']) '\n' (' ' :: ' ' :: rest.flatMap indentChar) where
  line _ := by
    obtain ⟨hmode, hopened, first, tail, hblank, hfirst, rfl⟩ := h.line rfl
    have hblanks : '\n' ∉ List.replicate (2 * n.level first) ' ' :=
      fun hmem => absurd (List.eq_of_mem_replicate hmem) (by decide)
    refine ⟨hmode, List.mem_append_left _ hopened, first, tail.flatMap indentChar, hblank, hfirst,
      ?_⟩
    rw [level_within hopened, List.flatMap_append, flatMap_indentChar_of_notMem hblanks,
      List.flatMap_cons, indentChar, if_neg hfirst, Nat.mul_succ, List.replicate_succ,
      List.replicate_succ]
    rfl
  single _ _ _ := by decide

/-- A blank is passed inside of brackets. -/
theorem Reads.blank (houter : outer ≠ []) (h : Reads operand ⟨.plain, outer⟩ cs n') :
    Reads operand ⟨.plain, outer⟩ (' ' :: cs) n' :=
  .cons (step_of_plain rfl) (permits_of_opened houter (by decide)) h

/-- What is read on its own is read in braces if it is indented. -/
theorem Reads.indent (h : Reads operand n cs n') :
    Reads true (n.within ['\x7b']) (cs.flatMap indentChar) (n'.within ['\x7b']) := by
  induction h with
  | nil => exact .nil
  | @cons n next n' c rest hstep hpermits _ ih =>
    have hstep' := step_within ['\x7b'] hstep
    have hopened : (n.within ['\x7b']).opened ≠ [] := by simp [Nesting.within]
    rw [List.flatMap_cons, indentChar]
    by_cases hc : c = '\n'
    · subst hc
      -- A line ends outside of strings, so the two blanks behind it are passed.
      have hmode := (hpermits.line rfl).1
      obtain ⟨mode, opened⟩ := n
      cases hmode
      cases hstep
      exact .cons hstep' hpermits.indent ((ih.blank hopened).blank hopened)
    · rw [if_neg hc]
      exact .cons hstep' (permits_of_opened hopened hc) ih

/-- A line of an object body: it is a phrase, and it starts with something to be seen that closes no
brace. -/
structure Line (cs : List Char) : Prop where
  phrase : Phrase false cs
  starts : ∃ first tail, cs = first :: tail ∧ first ≠ ' ' ∧ first ≠ '\n' ∧ first ≠ '\x7d'

/-- The rest of an object body from the start of a line on. -/
def bodyRest (lines : List (List Char)) : List Char :=
  lines.flatMap (fun line => ' ' :: ' ' :: line.flatMap indentChar ++ ['\n']) ++ ['\x7d']

/-- The first line, and the rest behind its end. -/
theorem bodyRest_cons (line : List Char) (lines : List (List Char)) :
    bodyRest (line :: lines) =
      ' ' :: ' ' :: (line.flatMap indentChar ++ '\n' :: bodyRest lines) := by
  simp [bodyRest]

/-- A line of an object body may end behind the brace that opens it and behind each line. -/
theorem permits_bodyRest {lines : List (List Char)} (h : ∀ line ∈ lines, Line line) :
    Permits true ⟨.plain, ['\x7b']⟩ '\n' (bodyRest lines) where
  line _ := by
    refine ⟨rfl, .head _, ?_⟩
    cases lines with
    | nil => exact ⟨'\x7d', [], by decide, by decide, rfl⟩
    | cons line lines =>
      obtain ⟨first, tail, rfl, hblank, hline, hbrace⟩ := (h _ (.head _)).starts
      refine ⟨first, tail.flatMap indentChar ++ '\n' :: bodyRest lines, hblank, hline, ?_⟩
      rw [level, if_neg hbrace, bodyRest_cons, List.flatMap_cons, indentChar, if_neg hline]
      rfl
  single _ _ _ := by decide

/-- The lines of an object body are read to its closing brace. -/
theorem reads_bodyRest {lines : List (List Char)} (h : ∀ line ∈ lines, Line line) :
    Reads true ⟨.plain, ['\x7b']⟩ (bodyRest lines) {} := by
  induction lines with
  | nil => exact .cons rfl (permits_of_opened (by simp) (by decide)) .nil
  | cons line lines ih =>
    have hlines := (List.forall_mem_cons.1 h).2
    have hline : Reads true ⟨.plain, ['\x7b']⟩ (line.flatMap indentChar) ⟨.plain, ['\x7b']⟩ :=
      Reads.indent (h line (.head _)).phrase
    have hrest : Reads true ⟨.plain, ['\x7b']⟩ ('\n' :: bodyRest lines) {} :=
      .cons rfl (permits_bodyRest hlines) (ih hlines)
    rw [bodyRest_cons]
    exact ((hline.append hrest).blank (by simp)).blank (by simp)

/-- An object body is written line by line. -/
theorem toList_objectBody {lines : List String} (h : lines ≠ []) :
    (TypeExpr.objectBody lines).toList =
      '\x7b' :: '\n' :: bodyRest (lines.map String.toList) := by
  have hjoin (lines : List String) :
      (String.join (lines.map fun line => "  " ++ TypeExpr.indent line ++ "\n")).toList ++
        ['\x7d'] = bodyRest (lines.map String.toList) := by
    induction lines with
    | nil => simp [bodyRest]
    | cons line lines ih =>
      rw [List.map_cons, List.map_cons, bodyRest_cons, ← ih]
      simp [toList_indent]
  rw [TypeExpr.objectBody, if_neg (by simpa using h), ← hjoin]
  simp

/-- An object body is an operand. -/
theorem Phrase.body {lines : List String} (h : ∀ line ∈ lines, Line line.toList) :
    Phrase true (TypeExpr.objectBody lines).toList := by
  by_cases hnil : lines = []
  · subst hnil
    exact (nil : Phrase true []).enclose (c := '\x7b') rfl fun h => absurd h List.not_mem_nil
  · have hlines : ∀ line ∈ lines.map String.toList, Line line := by simpa using h
    rw [toList_objectBody hnil]
    exact .cons rfl ⟨fun h => absurd h (by decide), fun _ _ _ => by decide⟩
      (.cons rfl (permits_bodyRest hlines) (reads_bodyRest hlines))

end Nesting
end SchemaTypes
