import Mathlib.Data.List.Infix
import SchemaTypes.Proofs.Files.Glob

/-!
# How patterns are read

Text without wildcards is read as it is, so a pattern leads on from where its first parts lead, as
long as these hold none (`Glob.exists_of_mem_paths`). The pattern for the documents below a
directory looks up the directory and then names at any depth (`Glob.parse_documents`).
-/

namespace SchemaTypes

open FilePath

variable {fs : FileSystem} {path : FilePath} {cs : List Char} {css : List (List Char)}

namespace Glob

variable {ts : List Token} {name : String}

/-! ## Tokens -/

/-- Whether a character is special in a pattern. -/
def isSpecial (c : Char) : Bool :=
  c == '*' || c == '?' || c == '['

/-- A character that is not special is read as it is. -/
theorem tokens_cons {c : Char} (hc : isSpecial c = false) (position : Nat) (afterSlash : Bool)
    (rest : List Char) : tokens position afterSlash (c :: rest) =
      (tokens (position + 1) (c == '/') rest).map (.char c :: ·) := by
  simp only [isSpecial, Bool.or_eq_false_iff, beq_eq_false_iff_ne] at hc
  obtain ⟨⟨hstar, hone⟩, hbracket⟩ := hc
  rw [tokens]
  · rfl
  all_goals grind

/-- Text without special characters is read as it is. -/
theorem tokens_of_plain (h : ∀ c ∈ cs, isSpecial c = false) (position : Nat) (afterSlash : Bool) :
    tokens position afterSlash cs = .ok (cs.map .char) := by
  induction cs generalizing position afterSlash with
  | nil => rw [tokens]; rfl
  | cons c rest ih =>
    obtain ⟨hc, hrest⟩ := List.forall_mem_cons.1 h
    rw [tokens_cons hc, ih hrest]
    rfl

/-- Characters are the text that they are. -/
theorem literal?_map_char (cs : List Char) :
    literal? (cs.map .char) = some (String.ofList cs) := by
  induction cs with
  | nil => rfl
  | cons c rest ih => rw [List.map_cons, literal?, ih]; simp

/-- Tokens without a wildcard are the text that they were read from. -/
theorem toList_of_literal? {position : Nat} {afterSlash : Bool}
    (h : tokens position afterSlash cs = .ok ts) (hliteral : literal? ts = some name) :
    name.toList = cs := by
  fun_induction tokens position afterSlash cs generalizing ts name
  case case1 =>
    cases h
    cases hliteral
    simp
  case case2 | case6 | case8 | case10 | case12 =>
    obtain ⟨_, -, h⟩ := Except.bind_eq_ok_iff.1 h
    cases h
    cases hliteral
  case case3 | case4 | case7 | case9 | case11 => cases h
  case case5 =>
    cases h
    cases hliteral
  case case13 ih =>
    obtain ⟨behind, hbehind, h⟩ := Except.bind_eq_ok_iff.1 h
    cases h
    obtain ⟨rest, hrest, rfl⟩ := Option.map_eq_some_iff.1 hliteral
    rw [String.toList_ofList, ih hbehind hrest]

/-! ## Parts and steps -/

variable {glob : Glob} {pattern text : String} {parts : List (List Token)}

/-- The parts of a pattern between its slashes, without the slash in front. -/
def partsIn (pattern : String) : List (List Char) :=
  partsOf (if pattern.toList.head? == some '/' then pattern.toList.drop 1 else pattern.toList)

/-- A pattern that is read is one that starts at the root or at the working directory, with the
steps of its parts. -/
theorem exists_of_parse (h : parse pattern = .ok glob) :
    ∃ parts, (partsIn pattern).mapM (tokens 0 true) = .ok parts ∧
      glob.start = (if (FilePath.mk pattern).isAbsolute then ⟨"/"⟩ else .here) ∧
      glob.steps = stepsOf false parts := by
  obtain ⟨_, -, h⟩ := Except.bind_eq_ok_iff.1 h
  obtain ⟨parts, hparts, h⟩ := Except.bind_eq_ok_iff.1 h
  cases h
  exact ⟨parts, hparts, rfl, rfl⟩

/-- The parts of a pattern are chunks of it. -/
theorem mem_split_of_mem_partsOf {text : List Char} (h : cs ∈ partsOf text) :
    cs ∈ Text.split (· == '/') text := by
  simp only [partsOf] at h
  split at h
  · exact List.mem_of_mem_dropLast h
  · exact h

/-- No part of a pattern holds a slash. -/
theorem slash_notMem_of_mem_partsIn (h : cs ∈ partsIn pattern) : '/' ∉ cs := by
  intro hslash
  simpa using Text.isSeparator_of_mem_split (mem_split_of_mem_partsOf h) hslash

/-- A step that looks up an entry looks up a part of the pattern. -/
theorem exists_of_entry_mem_stepsOf {deep : Bool} (h : .entry name ∈ stepsOf deep parts) :
    ∃ ts ∈ parts, literal? ts = some name := by
  fun_induction stepsOf deep parts
  case case1 => cases List.mem_singleton.1 h
  case case2 => cases h
  case case3 rest ih =>
    obtain ⟨ts, hts, hliteral⟩ := ih h
    exact ⟨ts, .tail _ hts, hliteral⟩
  case case4 deep ts rest _ step ih =>
    rcases List.mem_cons.1 h with h | h
    · refine ⟨ts, .head _, ?_⟩
      have hstep : step = .entry name := h.symm
      unfold step at hstep
      split at hstep
      · cases hstep
      · split at hstep
        · next hliteral =>
          cases hstep
          exact hliteral
        · cases hstep
    · obtain ⟨ts, hts, hliteral⟩ := ih h
      exact ⟨ts, .tail _ hts, hliteral⟩

/-- The steps of a pattern look up texts without a slash. -/
theorem isSound_of_parse (h : parse pattern = .ok glob) : ∀ step ∈ glob.steps, step.IsSound := by
  obtain ⟨parts, hparts, -, hsteps⟩ := exists_of_parse h
  intro step hstep
  rw [hsteps] at hstep
  cases step with
  | entry name =>
    obtain ⟨ts, hts, hliteral⟩ := exists_of_entry_mem_stepsOf hstep
    obtain ⟨cs, hcs, htokens⟩ := Except.exists_of_mem_mapM hparts hts
    rw [Step.IsSound, toList_of_literal? htokens hliteral]
    exact slash_notMem_of_mem_partsIn hcs
  | wildcard _ | anywhere _ | directories => trivial

/-- Parts without wildcards are entries to look up. -/
theorem stepsOf_map_char_append (css : List (List Char)) (parts : List (List Token)) :
    stepsOf false (css.map (·.map .char) ++ parts) =
      css.map (fun cs => .entry (String.ofList cs)) ++ stepsOf false parts := by
  induction css with
  | nil => rfl
  | cons cs rest ih =>
    rw [List.map_cons, List.cons_append, stepsOf, ih, literal?_map_char]
    · rfl
    · intro hdepth
      cases cs with
      | nil => cases hdepth
      | cons c more => cases (List.cons.inj hdepth).1

/-- A pattern with a part has a step. -/
theorem stepsOf_ne_nil {deep : Bool} (h : deep = true ∨ parts ≠ []) : stepsOf deep parts ≠ [] := by
  fun_induction stepsOf deep parts
  case case1 => exact List.cons_ne_nil _ _
  case case2 => simp_all
  case case3 ih => exact ih (.inl rfl)
  case case4 => exact List.cons_ne_nil _ _

/-- Parts without special characters are read as they are, if what is behind them can be read. -/
theorem mapM_tokens_append {rest : List (List Char)} {others : List (List Token)}
    (hplain : ∀ cs ∈ css, ∀ c ∈ cs, isSpecial c = false)
    (h : rest.mapM (tokens 0 true) = .ok others) :
    (css ++ rest).mapM (tokens 0 true) = .ok (css.map (·.map .char) ++ others) := by
  induction css with
  | nil => exact h
  | cons cs more ih =>
    obtain ⟨hcs, hmore⟩ := List.forall_mem_cons.1 hplain
    rw [List.cons_append, List.mapM_cons, tokens_of_plain hcs, ih hmore]
    rfl

/-- Parts without special characters are read as they are. -/
theorem exists_of_mapM_tokens {rest : List (List Char)}
    (hplain : ∀ cs ∈ css, ∀ c ∈ cs, isSpecial c = false)
    (h : (css ++ rest).mapM (tokens 0 true) = .ok parts) :
    ∃ others, parts = css.map (·.map .char) ++ others ∧ rest.mapM (tokens 0 true) = .ok others := by
  induction css generalizing parts with
  | nil => exact ⟨parts, rfl, h⟩
  | cons cs more ih =>
    obtain ⟨hcs, hmore⟩ := List.forall_mem_cons.1 hplain
    obtain ⟨first, behind, hfirst, hbehind, rfl⟩ := Except.mapM_cons_eq_ok_iff.1 h
    cases (tokens_of_plain hcs 0 true).symm.trans hfirst
    obtain ⟨others, rfl, hothers⟩ := ih hmore hbehind
    exact ⟨others, rfl, hothers⟩

/-- A pattern leads on from where its first parts lead, if these are without wildcards. -/
theorem exists_of_mem_paths (h : parse pattern = .ok glob) {rest : List (List Char)}
    (hparts : partsIn pattern = css ++ rest)
    (hplain : ∀ cs ∈ css, ∀ c ∈ cs, isSpecial c = false) (hpath : path ∈ glob.paths fs) :
    ∃ others, rest.mapM (tokens 0 true) = .ok others ∧
      (∀ step ∈ stepsOf false others, step.IsSound) ∧
      ∃ mid ∈ followAll fs glob.start (css.map fun cs => .entry (String.ofList cs)),
        path ∈ followAll fs mid (stepsOf false others) := by
  have hsound := isSound_of_parse h
  obtain ⟨parts, hmapM, -, hsteps⟩ := exists_of_parse h
  rw [hparts] at hmapM
  obtain ⟨others, rfl, hothers⟩ := exists_of_mapM_tokens hplain hmapM
  rw [stepsOf_map_char_append] at hsteps
  rw [hsteps] at hsound
  obtain ⟨mid, hmid, hpath⟩ := mem_followAll_append.1 (hsteps ▸ (List.mem_filter.1 hpath).1)
  exact ⟨others, hothers, fun step hstep => hsound step (List.mem_append_right _ hstep), mid, hmid,
    hpath⟩

/-! ## Chunks and parts -/

/-- Chunks without an empty one at the end stand for what they stand for. -/
theorem innerParts_partsOf (text : List Char) :
    innerParts (partsOf text) = innerParts (Text.split (· == '/') text) := by
  simp only [partsOf]
  split
  · next hlast =>
    obtain ⟨init, hinit⟩ := List.getLast?_eq_some_iff.1 hlast
    rw [hinit, List.dropLast_concat, innerParts_append]
    exact (List.append_nil _).symm
  · rfl

/-- The parts of a pattern stand for what its chunks stand for. -/
theorem innerParts_partsIn (pattern : String) :
    innerParts (partsIn pattern) = innerParts (FilePath.mk pattern).chunks := by
  rw [partsIn, innerParts_partsOf]
  split
  · next h =>
    obtain ⟨rest, hrest⟩ := List.head?_eq_some_iff.1 (beq_iff_eq.1 h)
    have hsplit : Text.split (· == '/') ('/' :: rest) = [] :: Text.split (· == '/') rest :=
      split_append_slash [] rest
    rw [chunks, hrest, hsplit]
    rfl
  · rfl

/-- The parts of a text are its chunks from the first on. -/
theorem partsOf_prefix (text : List Char) : partsOf text <+: Text.split (· == '/') text := by
  simp only [partsOf]
  split
  · exact List.dropLast_prefix _
  · exact List.prefix_refl _

/-- A chunk that is not empty is a part. -/
theorem mem_partsOf {text : List Char} (h : cs ∈ Text.split (· == '/') text) (hne : cs ≠ []) :
    cs ∈ partsOf text := by
  simp only [partsOf]
  split
  · next hlast =>
    obtain ⟨init, hinit⟩ := List.getLast?_eq_some_iff.1 hlast
    rw [hinit] at h ⊢
    rw [List.dropLast_concat]
    exact (List.mem_append.1 h).resolve_right fun h => hne (List.mem_singleton.1 h)
  · exact h

/-- A character of a pattern that is no slash is in one of its parts. -/
theorem exists_mem_partsIn {c : Char} (hc : c ∈ pattern.toList) (hslash : c ≠ '/') :
    ∃ cs ∈ partsIn pattern, c ∈ cs := by
  have hmem : c ∈ if pattern.toList.head? == some '/' then pattern.toList.drop 1
      else pattern.toList := by
    split
    · next h =>
      obtain ⟨rest, hrest⟩ := List.head?_eq_some_iff.1 (beq_iff_eq.1 h)
      rw [hrest] at hc ⊢
      exact (List.mem_cons.1 hc).resolve_left hslash
    · exact hc
  have hc : (· == '/') c = false := beq_eq_false_iff_ne.2 hslash
  obtain ⟨cs, hcs, hc⟩ := (@Text.exists_mem_split_iff (· == '/') _ c).2 ⟨hmem, hc⟩
  exact ⟨cs, mem_partsOf hcs (List.ne_nil_of_mem hc), hc⟩

/-! ## The documents below a directory -/

/-- The tokens of the names that end as those of documents do. -/
def documentTokens : List Token :=
  .many :: ".json".toList.map .char

/-- The chunks of a text that are looked up as entries, if something stands behind a slash at its
end. The empty one in front of a first slash is none of them. -/
def entriesOf (text : String) : List (List Char) :=
  if (FilePath.mk (text ++ "/")).isAbsolute then (chunks ⟨text⟩).tail else chunks ⟨text⟩

/-- The pattern for the documents below the directory that a text leads to. -/
def documents (text : String) : Glob where
  start := if (FilePath.mk (text ++ "/")).isAbsolute then ⟨"/"⟩ else .here
  steps := (entriesOf text).map (fun cs => .entry (String.ofList cs)) ++ [.anywhere documentTokens]
  onlyDirectories := false

/-- Text without special characters in front of the ending of the pattern can be read. -/
theorem exists_tokens_append (hcs : ∀ c ∈ cs, isSpecial c = false) (position : Nat)
    (afterSlash : Bool) :
    ∃ ts, tokens position afterSlash (cs ++ "/**/*.json".toList) = .ok ts := by
  induction cs generalizing position afterSlash with
  | nil =>
    have hrest : tokens (position + 1) true "**/*.json".toList =
        .ok (.anyDepth :: documentTokens) := by
      cbv
    exact ⟨_, (tokens_cons (by decide) _ _ _).trans (congrArg _ hrest)⟩
  | cons c rest ih =>
    obtain ⟨hc, hrest⟩ := List.forall_mem_cons.1 hcs
    obtain ⟨ts, hts⟩ := ih hrest (position + 1) (c == '/')
    exact ⟨_, (tokens_cons hc _ _ _).trans (congrArg _ hts)⟩

/-- The pattern for the documents below a directory starts where the directory does. -/
theorem isAbsolute_documents (text : String) :
    (FilePath.mk (text ++ "/**/*.json")).isAbsolute = (FilePath.mk (text ++ "/")).isAbsolute := by
  simp only [isAbsolute, String.toList_append]
  cases text.toList <;> rfl

/-- The pattern for the documents below a directory has the chunks of the directory and two more. -/
theorem chunks_documents (text : String) : chunks ⟨text ++ "/**/*.json"⟩ =
    chunks ⟨text⟩ ++ [['*', '*'], ['*', '.', 'j', 's', 'o', 'n']] := by
  have htext : (text ++ "/**/*.json").toList = text.toList ++ '/' :: "**/*.json".toList := by
    simp
  rw [chunks, htext, split_append_slash]
  rfl

/-- The parts of the pattern for the documents below a directory. -/
theorem partsIn_documents (text : String) : partsIn (text ++ "/**/*.json") =
    entriesOf text ++ [['*', '*'], ['*', '.', 'j', 's', 'o', 'n']] := by
  have hchunks : Text.split (· == '/') (text ++ "/**/*.json").toList = _ := chunks_documents text
  have hlast {cs : List Char} {css : List (List Char)}
      (h : Text.split (· == '/') cs = css ++ [['*', '*'], ['*', '.', 'j', 's', 'o', 'n']]) :
      partsOf cs = css ++ [['*', '*'], ['*', '.', 'j', 's', 'o', 'n']] := by
    rw [partsOf, h]
    exact if_neg (by simp)
  have hhead : ((text ++ "/**/*.json").toList.head? == some '/') = _ := isAbsolute_documents text
  rw [partsIn, entriesOf, hhead]
  split
  · next habsolute =>
    rw [← hhead] at habsolute
    obtain ⟨rest, hrest⟩ := List.head?_eq_some_iff.1 (beq_iff_eq.1 habsolute)
    have hsplit : Text.split (· == '/') ('/' :: rest) = [] :: Text.split (· == '/') rest :=
      split_append_slash [] rest
    obtain ⟨first, more, hmore⟩ := List.exists_cons_of_ne_nil (chunks_ne_nil ⟨text⟩)
    rw [hrest, hsplit, hmore, List.cons_append] at hchunks
    rw [hrest, hmore]
    exact hlast (List.cons.inj hchunks).2
  · exact hlast hchunks

/-- What is looked up as an entry is a chunk of the text. -/
theorem mem_chunks_of_mem_entriesOf (h : cs ∈ entriesOf text) : cs ∈ chunks ⟨text⟩ := by
  unfold entriesOf at h
  split at h
  · exact List.mem_of_mem_tail h
  · exact h

/-- Text without special characters in front of the ending of the pattern is read as the directory
below which documents are looked for. -/
theorem parse_documents (h : ∀ c ∈ text.toList, isSpecial c = false) :
    parse (text ++ "/**/*.json") = .ok (documents text) := by
  obtain ⟨ts, hts⟩ := exists_tokens_append h 0 true
  rw [← String.toList_append] at hts
  have hplain (cs : List Char) (hcs : cs ∈ entriesOf text) : ∀ c ∈ cs, isSpecial c = false :=
    fun c hc => h c (Text.mem_of_mem_split (mem_chunks_of_mem_entriesOf hcs) hc)
  have hending : [['*', '*'], ['*', '.', 'j', 's', 'o', 'n']].mapM (tokens 0 true) =
      .ok [[.anyDepth], documentTokens] := by
    cbv
  have hparts := mapM_tokens_append hplain hending
  rw [← partsIn_documents] at hparts
  have hsteps : stepsOf false ((entriesOf text).map (·.map .char) ++
      [[.anyDepth], documentTokens]) = (documents text).steps := stepsOf_map_char_append _ _
  have hend : ((text ++ "/**/*.json").toList.getLast? == some '/') = false := by
    simp [String.toList_append]
  have hhead : ((text ++ "/**/*.json").toList.head? == some '/') = _ := isAbsolute_documents text
  refine Except.bind_eq_ok_iff.2 ⟨ts, hts, Except.bind_eq_ok_iff.2 ⟨_, hparts, ?_⟩⟩
  rw [hsteps, hend, hhead]
  rfl

end Glob
end SchemaTypes
