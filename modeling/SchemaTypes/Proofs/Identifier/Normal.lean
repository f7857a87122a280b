import SchemaTypes.Files.Naming
import SchemaTypes.Proofs.Identifier.Names
import SchemaTypes.Survey

/-!
# Names are normal

The name that a text makes holds the letters and digits of the text in their order, and of these
only the first one of each run is raised (`Identifier.IsNormalFor`). A name that a text made makes
itself (`Identifier.normalize_normalize`): nothing in it but an underscore in front ends a word, and
the guard of a digit puts that back. So it does not matter that the survey of a document normalizes
a name once more that the name of its file has made (`Identifier.isNormalFor_normalize`).
-/

namespace SchemaTypes
namespace Identifier

variable {raw : String} {cs : List Char} {c : Char} {inWord : Bool}

/-! ## Letters and digits -/

/-- The letters and digits of a text, the first one of each run raised; `inWord` says whether one
stands in front of the text. -/
def lettersFrom (inWord : Bool) : List Char → List Char
  | [] => []
  | c :: rest =>
    if c.isAlphanum then (if inWord then c else c.toUpper) :: lettersFrom true rest
    else lettersFrom false rest

/-- A letter or a digit that is raised is one. -/
theorem isAlphanum_toUpper (h : c.isAlphanum = true) : c.toUpper.isAlphanum = true := by
  rw [Char.isAlphanum, Char.isAlpha]
  rcases isUpper_or_isDigit_toUpper h with hupper | hdigit
  · rw [hupper, Bool.true_or, Bool.true_or]
  · rw [hdigit, Bool.or_true]

/-- Letters and digits are letters and digits. -/
theorem isAlphanum_of_mem_lettersFrom (h : c ∈ lettersFrom inWord cs) : c.isAlphanum = true := by
  induction cs generalizing inWord with
  | nil => cases h
  | cons d rest ih =>
    rw [lettersFrom] at h
    split at h
    · next hd =>
      rcases List.mem_cons.1 h with rfl | h
      · split
        · exact hd
        · exact isAlphanum_toUpper hd
      · exact ih h
    · exact ih h

/-- There are as many letters and digits as in the text. -/
theorem length_lettersFrom (inWord : Bool) (cs : List Char) :
    (lettersFrom inWord cs).length = (cs.filter Char.isAlphanum).length := by
  induction cs generalizing inWord with
  | nil => rfl
  | cons c rest ih =>
    rw [lettersFrom]
    split
    · next hc => rw [List.filter_cons_of_pos hc, List.length_cons, List.length_cons, ih]
    · next hc => rw [List.filter_cons_of_neg hc, ih]

/-- Each letter and digit stands behind those in front of it, and is raised if none of them is
right in front. -/
theorem getElem?_lettersFrom (inWord : Bool) (before : List Char) (hc : c.isAlphanum = true)
    (after : List Char) :
    (lettersFrom inWord (before ++ c :: after))[(before.filter Char.isAlphanum).length]? =
      some (if before.getLast?.elim inWord Char.isAlphanum then c else c.toUpper) := by
  induction before generalizing inWord with
  | nil =>
    rw [List.nil_append, lettersFrom, if_pos hc]
    rfl
  | cons d rest ih =>
    have hlast : (d :: rest).getLast?.elim inWord Char.isAlphanum =
        rest.getLast?.elim d.isAlphanum Char.isAlphanum := by
      rw [List.getLast?_cons]
      cases rest.getLast? <;> rfl
    rw [List.cons_append, lettersFrom, hlast]
    cases hd : d.isAlphanum with
    | true =>
      rw [if_pos rfl, List.filter_cons_of_pos hd, List.length_cons, List.getElem?_cons_succ, ih]
    | false => rw [if_neg Bool.false_ne_true, List.filter_cons_of_neg (by simp [hd]), ih]

/-- Letters and digits behind one are themselves. -/
theorem lettersFrom_true_of_forall (h : ∀ c ∈ cs, c.isAlphanum = true) :
    lettersFrom true cs = cs := by
  induction cs with
  | nil => rfl
  | cons c rest ih =>
    obtain ⟨hc, hrest⟩ := List.forall_mem_cons.1 h
    rw [lettersFrom, if_pos hc, if_pos rfl, ih hrest]

/-- The words of a text are its runs of letters and digits: the first piece of the text goes on with
the run that is in front, and each other piece starts a run. -/
theorem exists_split_eq (cs : List Char) :
    ∃ piece pieces, Text.split (!·.isAlphanum) cs = piece :: pieces ∧
      lettersFrom true cs = piece ++ pieces.flatMap raise ∧
        lettersFrom false cs = raise piece ++ pieces.flatMap raise := by
  induction cs with
  | nil => exact ⟨[], [], rfl, rfl, rfl⟩
  | cons c rest ih =>
    obtain ⟨piece, pieces, hsplit, hinside, houtside⟩ := ih
    rw [lettersFrom, lettersFrom]
    cases hc : c.isAlphanum with
    | true =>
      have hletter : (!c.isAlphanum) = false := by rw [hc, Bool.not_true]
      obtain ⟨piece', pieces', hrest, hcons⟩ :=
        @Text.split_cons_of_eq_false (!·.isAlphanum) c hletter rest
      rw [hsplit] at hrest
      cases hrest
      exact ⟨c :: piece, pieces, hcons, by simp [hinside], by simp [hinside, raise]⟩
    | false =>
      refine ⟨[], piece :: pieces, ?_, ?_, ?_⟩
      · rw [Text.split, if_pos (by simp [hc]), hsplit]
      · simpa using houtside
      · simpa [raise] using houtside

/-- Words that are put together are the letters and digits of the text. -/
theorem flatMap_raise_words (cs : List Char) : (words cs).flatMap raise = lettersFrom false cs := by
  have hfilter (pieces : List (List Char)) :
      (pieces.filter (!·.isEmpty)).flatMap raise = pieces.flatMap raise := by
    induction pieces with
    | nil => rfl
    | cons piece rest ih => cases piece <;> simp [raise, ih]
  obtain ⟨piece, pieces, hsplit, -, hletters⟩ := exists_split_eq cs
  rw [words, hfilter, hsplit, List.flatMap_cons, hletters]

/-- A name consists of the letters and digits of the text, and of a guard for a digit. -/
theorem toList_normalize (raw : String) :
    (normalize raw).toList = guardDigit (lettersFrom false raw.toList) := by
  rw [normalize, String.toList_ofList, flatMap_raise_words]

/-- The guard of a digit is neither a letter nor a digit. -/
theorem lettersFrom_guardDigit (cs : List Char) :
    lettersFrom false (guardDigit cs) = lettersFrom false cs := by
  cases cs with
  | nil => rfl
  | cons c rest =>
    rw [guardDigit]
    split
    · rw [lettersFrom, if_neg (by decide)]
    · rfl

/-- What is left of a name without the guard of a digit are its letters and digits. -/
theorem filter_guardDigit (h : ∀ c ∈ cs, c.isAlphanum = true) :
    (guardDigit cs).filter Char.isAlphanum = cs := by
  have hall := List.filter_eq_self.2 h
  cases cs with
  | nil => rfl
  | cons c rest =>
    rw [guardDigit]
    split
    · rw [List.filter_cons_of_neg (by decide), hall]
    · exact hall

/-- The letters and digits of a name are those of the text, the first one of each run raised. -/
theorem filter_normalize (raw : String) :
    (normalize raw).toList.filter Char.isAlphanum = lettersFrom false raw.toList := by
  rw [toList_normalize, filter_guardDigit fun c hc => isAlphanum_of_mem_lettersFrom hc]

/-! ## What is normal -/

/-- Only a text without a letter or a digit makes no name. -/
theorem normalize_eq_empty_iff :
    normalize raw = "" ↔ ∀ c ∈ raw.toList, c.isAlphanum = false := by
  have hletters : lettersFrom false raw.toList = [] ↔ ∀ c ∈ raw.toList, c.isAlphanum = false := by
    rw [← List.length_eq_zero_iff, length_lettersFrom, List.length_eq_zero_iff,
      List.filter_eq_nil_iff]
    simp
  have hguard (cs : List Char) : guardDigit cs = [] ↔ cs = [] := by
    cases cs with
    | nil => simp [guardDigit]
    | cons c rest =>
      rw [guardDigit]
      split <;> simp
  rw [← hletters, ← hguard, ← toList_normalize, String.toList_eq_nil_iff]

/-- A name starts with a capital, or with an underscore in front of a digit, and all that follows
are letters and digits. -/
inductive IsGuarded : List Char → Prop where
  | capital {c : Char} {rest : List Char} (hc : c.isUpper = true)
    (hrest : ∀ d ∈ rest, d.isAlphanum = true) : IsGuarded (c :: rest)
  | digit {c : Char} {rest : List Char} (hc : c.isDigit = true)
    (hrest : ∀ d ∈ rest, d.isAlphanum = true) : IsGuarded ('_' :: c :: rest)

/-- The first letter or digit of a text is raised, so it is a capital or a digit. -/
theorem lettersFrom_eq_nil_or (cs : List Char) :
    lettersFrom false cs = [] ∨ ∃ c rest, lettersFrom false cs = c :: rest ∧
      (c.isUpper = true ∨ c.isDigit = true) ∧ ∀ d ∈ rest, d.isAlphanum = true := by
  have hwords (word : List Char) (hword : word ∈ words cs) := exists_of_mem_words hword
  have hor := flatMap_raise_eq_or hwords
  rwa [flatMap_raise_words] at hor

/-- A name starts with a capital or with the guard of a digit. -/
theorem isGuarded_normalize (h : normalize raw ≠ "") : IsGuarded (normalize raw).toList := by
  rw [toList_normalize]
  rcases lettersFrom_eq_nil_or raw.toList with hnil | ⟨c, rest, hcons, hc, hrest⟩
  · refine absurd (String.toList_injective ?_) h
    rw [toList_normalize, hnil]
    rfl
  · rw [hcons, guardDigit]
    split
    · next hdigit => exact .digit hdigit hrest
    · next hdigit => exact .capital (hc.resolve_right hdigit) hrest

/-- The letters and digits of a text, of which the first ones of runs are raised, are normal. -/
theorem lettersFrom_lettersFrom (cs : List Char) :
    lettersFrom false (lettersFrom false cs) = lettersFrom false cs := by
  rcases lettersFrom_eq_nil_or cs with hnil | ⟨c, rest, hcons, hc, hrest⟩
  · rw [hnil]
    rfl
  · have halphanum : c.isAlphanum = true := by
      have hmem : c ∈ lettersFrom false cs := by
        rw [hcons]
        exact .head rest
      exact isAlphanum_of_mem_lettersFrom hmem
    have hraised : c.toUpper = c := by
      refine Char.toUpper_eq_of_not_isLower fun hlower => ?_
      simp only [Char.isUpper, Char.isDigit, Char.isLower, Bool.and_eq_true, decide_eq_true_eq,
        UInt32.le_iff_toNat_le, ge_iff_le] at hc hlower
      rcases hc with hc | hc
      · exact absurd (hlower.1.trans hc.2) (by decide)
      · exact absurd (hlower.1.trans hc.2) (by decide)
    rw [hcons, lettersFrom, if_pos halphanum, if_neg Bool.false_ne_true, hraised,
      lettersFrom_true_of_forall hrest]

/-- A name makes itself. -/
theorem normalize_normalize (raw : String) : normalize (normalize raw) = normalize raw := by
  refine String.toList_injective ?_
  rw [toList_normalize, toList_normalize, lettersFrom_guardDigit, lettersFrom_lettersFrom]

/-- A text makes this name, which may be empty: its letters and digits are those of the text in
order, and only the first one of each run is raised. -/
structure IsNormalFor (raw name : String) : Prop where
  eq_empty_iff : name = "" ↔ ∀ c ∈ raw.toList, c.isAlphanum = false
  guarded : name ≠ "" → IsGuarded name.toList
  /-- There are as many letters and digits in the name as in the text. -/
  length_letters : (name.toList.filter Char.isAlphanum).length =
    (raw.toList.filter Char.isAlphanum).length
  /-- A letter or a digit of the text has the same place among those of the name. It is raised if it
  does not stand right behind another one. -/
  letter : ∀ before c after, raw.toList = before ++ c :: after → c.isAlphanum = true →
    (name.toList.filter Char.isAlphanum)[(before.filter Char.isAlphanum).length]? =
      some (if before.getLast?.any Char.isAlphanum then c else c.toUpper)

/-- A name that a file makes is normal. -/
theorem normalize_of_documentName? {p : FilePath} {name : String}
    (h : p.documentName? = some name) : normalize name = name := by
  obtain ⟨file, -, hfile⟩ := Option.bind_eq_some_iff.1 h
  simp only [normalized?] at hfile
  split at hfile
  · cases hfile
  · rw [← Option.some.inj hfile, normalize_normalize]

/-- What a text makes is a name, or empty if there is neither a letter nor a digit, with the letters
and digits of the text in order. It makes itself, so a survey starts with the name that the file
of the document made, although it normalizes that again. -/
theorem isNormalFor_normalize (raw : String) :
    IsNormalFor raw (normalize raw) ∧ normalize (normalize raw) = normalize raw ∧
      ∀ (d : Document) (p : FilePath), Survey.ofSchema d p.documentName? =
        Survey.visitAll {} d.root .root (p.documentName?.getD "") .document := by
  refine ⟨⟨normalize_eq_empty_iff, isGuarded_normalize, ?_, ?_⟩, normalize_normalize raw, ?_⟩
  · rw [filter_normalize, length_lettersFrom]
  · intro before c after hraw hc
    rw [filter_normalize, hraw, getElem?_lettersFrom false before hc after]
    cases before.getLast? <;> rfl
  · intro d p
    have hname : p.documentName?.map normalize = p.documentName? := by
      cases h : p.documentName? with
      | none => rfl
      | some name => rw [Option.map_some, normalize_of_documentName? h]
    exact congrArg (fun name? => Survey.visitAll {} d.root .root (name?.getD "") .document) hname

example : normalize "2fa-settings of userID" = "_2faSettingsOfUserID" := by cbv

end Identifier
end SchemaTypes
