import SchemaTypes.Files.Source
import SchemaTypes.Proofs.Files.Pattern
import SchemaTypes.Proofs.Files.Ways

/-!
# What inputs find

What a pattern finds lies below the directory that the pattern names, unless it is written with a
dot in front (`Source.exists_found_eq`). A directory stands for such a pattern, and what is found
below a directory is written without a dot in front
(`Source.here_notMem_of_mem_paths_nested`).
-/

namespace SchemaTypes

open FilePath

variable {fs : FileSystem} {pattern input : String} {path directory : FilePath}
  {css : List (List Char)} {cs : List Char}

namespace Source

open Glob

variable {glob : Glob}

/-! ## The directory that an input names -/

/-- The parts of the directory that an input names: those in front of the first one that holds a
wildcard. -/
def top (input : String) : List PathPart :=
  (FilePath.mk input).parts.takeWhile fun part => !isPattern part.text

/-- Whether a chunk holds no character that is special in patterns. -/
def isPlain (cs : List Char) : Bool :=
  !isPattern (String.ofList cs)

/-- The directory in front of a pattern is the one that the pattern names. -/
theorem parts_base (pattern : String) : (base ⟨pattern⟩).parts = top pattern :=
  parts_foldl_join_of_prefix (List.takeWhile_prefix _)

/-- A text that is no pattern holds no special character. -/
theorem isSpecial_of_isPattern {text : String} (h : isPattern text = false) {c : Char}
    (hc : c ∈ text.toList) : isSpecial c = false := by
  have hchar := List.any_eq_false.1 h c hc
  simp only [Bool.or_eq_true, not_or] at hchar
  simp [isSpecial, hchar]

/-- A chunk without special characters is read as it is. -/
theorem isSpecial_of_isPlain (h : isPlain cs = true) : ∀ c ∈ cs, isSpecial c = false :=
  fun _ hc =>
    isSpecial_of_isPattern (by simpa [isPlain] using h) (by rwa [String.toList_ofList])

/-- The first parts that hold no special character are those of the first chunks that hold none. -/
theorem takeWhile_innerParts (hcss : ∀ cs ∈ css, '/' ∉ cs) :
    (innerParts css).takeWhile (fun part => !isPattern part.text) =
      innerParts (css.takeWhile isPlain) := by
  induction css with
  | nil => rfl
  | cons cs rest ih =>
    obtain ⟨hcs, hrest⟩ := List.forall_mem_cons.1 hcss
    cases hpart : innerPart? cs with
    | none =>
      have hplain : isPlain cs = true := by
        unfold innerPart? Piece.ofChars at hpart
        split at hpart
        · rfl
        · rfl
        · cases hpart
        · cases hpart
      rw [List.takeWhile_cons_of_pos hplain, innerParts, innerParts,
        List.filterMap_cons_none hpart, List.filterMap_cons_none hpart]
      exact ih hrest
    | some part =>
      have htext : part.text = String.ofList cs := by
        rw [← (isStep_of_innerPart? hcs hpart).2, String.ofList_toList]
      rw [innerParts, List.filterMap_cons_some hpart, List.takeWhile_cons, List.takeWhile_cons,
        htext]
      cases hplain : isPlain cs with
      | false =>
        have hspecial : (!isPattern (String.ofList cs)) = false := hplain
        rw [hspecial]
        rfl
      | true =>
        have hspecial : (!isPattern (String.ofList cs)) = true := hplain
        rw [hspecial, if_pos rfl, if_pos rfl, innerParts, List.filterMap_cons_some hpart]
        exact congrArg (part :: ·) (ih hrest)

/-- The parts of a pattern in front of the first one with a special character. -/
def front (pattern : String) : List (List Char) :=
  (partsIn pattern).takeWhile isPlain

/-- A pattern that starts at the root names what its first parts stand for, below the root. -/
theorem top_of_isAbsolute (h : (FilePath.mk pattern).isAbsolute = true) :
    top pattern = .root :: innerParts (front pattern) := by
  rw [top, parts_eq, frontParts_of_isAbsolute h, ← innerParts_partsIn, List.singleton_append,
    List.takeWhile_cons_of_pos (by decide),
    takeWhile_innerParts fun cs hcs => slash_notMem_of_mem_partsIn hcs]
  rfl

/-- A pattern that starts with no dot has nothing but what all its chunks stand for. -/
theorem frontParts_eq_nil (h : (FilePath.mk pattern).isAbsolute = false)
    (hhere : (top pattern).head? ≠ some .here) : frontParts (FilePath.mk pattern).chunks = [] := by
  refine (frontParts_eq_or h).resolve_right fun hfront => hhere ?_
  rw [top, parts_eq, hfront, List.singleton_append, List.takeWhile_cons_of_pos (by decide)]
  rfl

/-- A pattern that starts with no dot and not at the root names what its first parts stand for. -/
theorem top_of_isAbsolute_eq_false (h : (FilePath.mk pattern).isAbsolute = false)
    (hhere : (top pattern).head? ≠ some .here) : top pattern = innerParts (front pattern) := by
  rw [top, parts_eq, frontParts_eq_nil h hhere, ← innerParts_partsIn, List.nil_append,
    takeWhile_innerParts fun cs hcs => slash_notMem_of_mem_partsIn hcs]
  rfl

/-- From the working directory, the first parts of a pattern that starts with no dot lead to what
they stand for, if there are any. -/
theorem parts_of_mem_followAll_front (h : (FilePath.mk pattern).isAbsolute = false)
    (hhere : (top pattern).head? ≠ some .here) (hfront : front pattern ≠ [])
    (hpath : path ∈ followAll fs .here
      ((front pattern).map fun cs => .entry (String.ofList cs))) :
    Away path ∧ path.parts = top pattern := by
  have hslash (cs : List Char) (hcs : cs ∈ front pattern) : '/' ∉ cs :=
    slash_notMem_of_mem_partsIn (List.takeWhile_prefix _ |>.subset hcs)
  have hchunks := frontParts_eq_nil h hhere
  have hparts : partsIn pattern = partsOf pattern.toList :=
    congrArg partsOf (if_neg (by simpa [isAbsolute] using h))
  rw [top_of_isAbsolute_eq_false h hhere]
  -- The first of them is the first chunk of the pattern, which is not empty and no dot.
  obtain ⟨cs, more, hcons⟩ := List.exists_cons_of_ne_nil hfront
  obtain ⟨behind, hbehind⟩ := List.takeWhile_prefix isPlain (l := partsIn pattern)
  obtain ⟨last, hlast⟩ := partsOf_prefix pattern.toList
  change front pattern ++ behind = _ at hbehind
  have hfirst : (FilePath.mk pattern).chunks = cs :: (more ++ (behind ++ last)) := by
    rw [chunks, ← hlast, ← hparts, ← hbehind, hcons]
    simp
  rw [hfirst] at hchunks
  rw [hcons] at hpath hslash ⊢
  refine parts_of_mem_followAll_here ?_ ?_ hslash hpath
  · rintro rfl
    cases hrest : more ++ (behind ++ last) with
    | nil =>
      have hnil : partsOf pattern.toList = [] := by
        have hsplit : Text.split (· == '/') pattern.toList = [[]] := by
          rw [← hrest]
          exact hfirst
        simp [partsOf, hsplit]
      rw [hparts, hnil] at hbehind
      rw [(List.append_eq_nil_iff.1 hbehind).1] at hcons
      cases hcons
    | cons next others =>
      rw [hrest] at hchunks
      cases hchunks
  · rintro rfl
    cases hchunks

/-- What a pattern that starts with no dot finds lies below the directory that the pattern names. -/
theorem exists_parts_of_mem_paths (h : parse pattern = .ok glob)
    (hspecial : isPattern pattern = true) (hhere : (top pattern).head? ≠ some .here)
    (hpath : path ∈ glob.paths fs) :
    ∃ more, path.parts = top pattern ++ more ∧ (more = [] → EndsVoid path) := by
  have hsplit : partsIn pattern = front pattern ++ (partsIn pattern).dropWhile isPlain :=
    List.takeWhile_append_dropWhile.symm
  have hplain (cs : List Char) (hcs : cs ∈ front pattern) : ∀ c ∈ cs, isSpecial c = false :=
    isSpecial_of_isPlain (List.mem_takeWhile_imp hcs)
  obtain ⟨others, hothers, hsound, mid, hmid, hpath⟩ := exists_of_mem_paths h hsplit hplain hpath
  have hne : stepsOf false others ≠ [] := by
    refine stepsOf_ne_nil (.inr fun hnil => ?_)
    have hlength := Except.length_of_mapM hothers
    rw [hnil, eq_comm, List.length_nil, List.length_eq_zero_iff, List.dropWhile_eq_nil_iff]
      at hlength
    obtain ⟨c, hc, hchar⟩ := List.any_eq_true.1 hspecial
    have hslash : c ≠ '/' := by
      rintro rfl
      cases hchar
    obtain ⟨cs, hcs, hmem⟩ := exists_mem_partsIn hc hslash
    have hspecial : isPattern (String.ofList cs) = true := by
      rw [isPattern, String.toList_ofList]
      exact List.any_eq_true.2 ⟨c, hmem, hchar⟩
    have hplain := hlength cs hcs
    rw [isPlain, hspecial] at hplain
    cases hplain
  obtain ⟨_, -, hstart, -⟩ := exists_of_parse h
  cases habsolute : (FilePath.mk pattern).isAbsolute with
  | true =>
    rw [hstart, habsolute, if_pos rfl] at hmid
    have hroot : Away ⟨"/"⟩ := ⟨by decide, by decide⟩
    have hmid := parts_of_mem_followAll_entries hroot
      (fun cs hcs => slash_notMem_of_mem_partsIn (List.takeWhile_prefix _ |>.subset hcs)) hmid
    obtain ⟨more, hmore, hvoid⟩ :=
      below_of_mem_followAll (hroot.append hmid) hne hsound hpath
    exact ⟨more, by rw [hmore, hmid, top_of_isAbsolute habsolute]; rfl, hvoid⟩
  | false =>
    rw [hstart, habsolute, if_neg Bool.false_ne_true] at hmid
    by_cases hfront : front pattern = []
    · refine ⟨path.parts, ?_, fun hnil => ?_⟩
      · rw [top_of_isAbsolute_eq_false habsolute hhere, hfront]
        rfl
      · rw [parts_eq] at hnil
        exact endsVoid_of_innerParts (List.append_eq_nil_iff.1 hnil).2
    · obtain ⟨haway, hmid⟩ := parts_of_mem_followAll_front habsolute hhere hfront hmid
      obtain ⟨more, hmore, hvoid⟩ := below_of_mem_followAll haway hne hsound hpath
      exact ⟨more, by rw [hmore, hmid], hvoid⟩

/-! ## What is found -/

/-- A path that ends with a name does not end with nothing. -/
theorem not_endsVoid_of_endsNamed (h : EndsNamed path) : ¬ EndsVoid path := by
  rintro ⟨init', last, hlast, hvoid⟩
  obtain ⟨init, name, hname⟩ := h
  obtain ⟨-, heq⟩ := List.append_inj' (hname.symm.trans hlast) rfl
  rw [← (List.cons.inj heq).1, innerPart?_name] at hvoid
  cases hvoid

/-- The path of an entry ends with its name. -/
theorem endsNamed_child (place : FilePath) (name : EntryName) : EndsNamed (place.child name) := by
  rw [child]
  split
  · exact endsNamed_name name
  · exact endsNamed_join place name

/-- What lies below a directory ends with a name. -/
theorem endsNamed_of_mem_descendants {found : Found} (h : found ∈ fs.descendants path) :
    EndsNamed found.path := by
  obtain ⟨above, -, hpath⟩ :=
    exists_of_mem_descendants_path (P := fun _ => True) (fun _ _ _ => trivial) trivial h
  rw [hpath]
  exact endsNamed_child above _

/-- A source that ends with a name and was found by a pattern that starts with no dot is told where
it lies below the directory that the pattern names. -/
theorem exists_found_eq (h : parse pattern = .ok glob) (hspecial : isPattern pattern = true)
    (hhere : (top pattern).head? ≠ some .here) (hpath : path ∈ glob.paths fs)
    (hnamed : EndsNamed path) (hdirectory : directory.parts = top pattern) :
    ∃ way, found directory path = ⟨path, way⟩ ∧ path.parts = top pattern ++ way.parts ∧
      way.parts ≠ [] ∧ way.isAbsolute = false := by
  obtain ⟨more, hparts, hvoid⟩ := exists_parts_of_mem_paths h hspecial hhere hpath
  have hne : more ≠ [] := fun hnil => not_endsVoid_of_endsNamed hnamed (hvoid hnil)
  obtain ⟨way, hway, rfl⟩ := exists_relativeTo? (hdirectory ▸ hparts)
  refine ⟨way, ?_, hparts, hne, ?_⟩
  · have htext : way.text ≠ "" := fun hempty => hne (parts_of_empty hempty)
    simp only [found, hway, if_neg htext]
  -- Only the first part of a path is the root.
  · cases habsolute : way.isAbsolute with
    | false => rfl
    | true =>
      have hroot := isAbsolute_iff.1 habsolute
      cases htop : top pattern with
      | nil =>
        rw [htop, List.nil_append] at hparts
        obtain ⟨_, -, hstart, -⟩ := exists_of_parse h
        cases hpattern : (FilePath.mk pattern).isAbsolute with
        | true =>
          rw [top_of_isAbsolute hpattern] at htop
          cases htop
        | false =>
          rw [hpattern, if_neg Bool.false_ne_true] at hstart
          have hhere : glob.start.isAbsolute = false := by
            rw [hstart]
            decide
          have hrelative : path.isAbsolute = false :=
            isAbsolute_of_mem_followAll hhere (isSound_of_parse h) (List.mem_filter.1 hpath).1
          rw [← hparts] at hroot
          cases hrelative.symm.trans (isAbsolute_iff.2 hroot)
      | cons part rest =>
        rw [htop] at hparts
        have hstep := isStep_of_parts_eq_cons hparts .root
          (List.mem_append_right _ (List.mem_of_mem_head? hroot))
        cases hstep

/-! ## Directories -/

/-- The text of a directory without the slashes at its end. -/
def trimmed (input : String) : List Char :=
  input.toList.rdropWhile (· == '/')

/-- Behind slashes there are only empty chunks. -/
theorem split_append_replicate (cs : List Char) (n : Nat) :
    Text.split (· == '/') (cs ++ List.replicate n '/') =
      Text.split (· == '/') cs ++ List.replicate n [] := by
  induction n generalizing cs with
  | zero => rw [List.replicate_zero, List.replicate_zero, List.append_nil, List.append_nil]
  | succ n ih =>
    have hempty : Text.split (· == '/') (List.replicate n '/') = [] :: List.replicate n [] := ih []
    rw [List.replicate_succ, split_append_slash, hempty, List.replicate_succ]

/-- A text is what is left without the slashes at its end, and these slashes. -/
theorem exists_eq_trimmed_append (input : String) :
    ∃ n, input.toList = trimmed input ++ List.replicate n '/' := by
  have hslashes : ∀ c ∈ input.toList.rtakeWhile (· == '/'), c = '/' :=
    fun c hc => beq_iff_eq.1 (List.mem_rtakeWhile_imp (p := (· == '/')) hc)
  have hall := congrArg List.reverse
    (List.takeWhile_append_dropWhile (p := (· == '/')) (l := input.toList.reverse))
  rw [List.reverse_append, List.reverse_reverse] at hall
  exact ⟨_, hall.symm.trans (congrArg (_ ++ ·) (List.eq_replicate_of_mem hslashes))⟩

/-- The chunks of the pattern for the documents below a directory. -/
theorem chunks_nested (input : String) :
    (FilePath.mk (nested input)).chunks =
      Text.split (· == '/') (trimmed input) ++ [['*', '*'], ['*', '.', 'j', 's', 'o', 'n']] := by
  refine (chunks_documents (String.ofList (trimmed input))).trans ?_
  rw [chunks, String.toList_ofList]

/-- The pattern for the documents below a directory has the parts of the directory and two more. -/
theorem parts_nested (h : input ≠ "") :
    (FilePath.mk (nested input)).parts =
      (FilePath.mk input).parts ++ [.name "**", .name "*.json"] := by
  obtain ⟨n, hn⟩ := exists_eq_trimmed_append input
  have hchunks : (FilePath.mk input).chunks =
      Text.split (· == '/') (trimmed input) ++ List.replicate n [] := by
    rw [chunks, hn, split_append_replicate]
  have hvoid : innerParts (List.replicate n []) = [] :=
    List.filterMap_eq_nil_iff.2 fun cs hcs => by rw [List.eq_of_mem_replicate hcs]; rfl
  -- The front is what it was, whether there is something in front of the slashes or nothing.
  have hfront : frontParts (FilePath.mk (nested input)).chunks =
      frontParts (FilePath.mk input).chunks := by
    rw [chunks_nested, hchunks]
    cases n with
    | zero =>
      have htext : String.ofList (trimmed input) = input := by
        rw [List.replicate_zero, List.append_nil] at hn
        rw [← hn, String.ofList_toList]
      have hbehind := frontParts_chunks_append (p := ⟨String.ofList (trimmed input)⟩)
        (by rwa [htext]) [['*', '*'], ['*', '.', 'j', 's', 'o', 'n']]
      rw [chunks, String.toList_ofList] at hbehind
      rw [hbehind, List.replicate_zero, List.append_nil]
    | succ n =>
      exact frontParts_append (Text.split_ne_nil _) (List.cons_ne_nil _ _)
        (by rw [List.replicate_succ]; exact List.cons_ne_nil _ _)
  rw [parts_eq, hfront, chunks_nested, innerParts_append, parts_eq ⟨input⟩]
  conv_rhs => rw [hchunks, innerParts_append, hvoid, List.append_nil, ← hchunks]
  rw [List.append_assoc]
  rfl

/-- The parts of a text without special characters hold none. -/
theorem isPattern_text (h : isPattern input = false) {part : PathPart}
    (hpart : part ∈ (FilePath.mk input).parts) : isPattern part.text = false := by
  rw [parts_eq] at hpart
  rcases List.mem_append.1 hpart with hpart | hpart
  · rcases frontParts_eq (FilePath.mk input).chunks with hfront | hfront | hfront
    all_goals
      rw [hfront] at hpart
      simp at hpart
    all_goals
      rw [hpart]
      decide
  · obtain ⟨cs, hcs, hinner⟩ := List.mem_filterMap.1 hpart
    have htext := (isStep_of_innerPart? (slash_notMem_of_mem_chunks hcs) hinner).2
    rw [isPattern, List.any_eq_false] at h ⊢
    rw [htext]
    exact fun c hc => h c (Text.mem_of_mem_split hcs hc)

/-- A directory is named by the pattern for the documents below it. -/
theorem top_nested (hempty : input ≠ "") (h : isPattern input = false) :
    top (nested input) = (FilePath.mk input).parts := by
  rw [top, parts_nested hempty,
    List.takeWhile_append_of_pos fun part hpart => by rw [isPattern_text h hpart]; rfl,
    List.takeWhile_cons_of_neg (by decide), List.append_nil]

/-- A directory is named by itself. -/
theorem top_of_isPattern_eq_false (h : isPattern input = false) :
    top input = (FilePath.mk input).parts :=
  List.takeWhile_eq_self_iff.2 fun part hpart => by rw [isPattern_text h hpart]; rfl

/-- The parts of the pattern for the documents below a directory: chunks of the directory and two
more. -/
theorem exists_partsIn_nested (input : String) :
    ∃ css : List (List Char),
      partsIn (nested input) = css ++ [['*', '*'], ['*', '.', 'j', 's', 'o', 'n']] ∧
        ∀ cs ∈ css, cs ∈ Text.split (· == '/') (trimmed input) := by
  refine ⟨_, partsIn_documents (String.ofList (trimmed input)), fun cs hcs => ?_⟩
  have hmem := mem_chunks_of_mem_entriesOf hcs
  rwa [chunks, String.toList_ofList] at hmem

/-- The pattern for the documents below a directory leads from a place that the chunks of the
directory lead to. -/
theorem exists_of_mem_paths_nested (h : isPattern input = false)
    (hglob : parse (nested input) = .ok glob) (hpath : path ∈ glob.paths fs) :
    ∃ css : List (List Char), (∀ cs ∈ css, '/' ∉ cs) ∧
      ∃ mid ∈ followAll fs glob.start (css.map fun cs => .entry (String.ofList cs)),
        ∃ found ∈ fs.descendants mid, found.path = path := by
  obtain ⟨css, hparts, hcss⟩ := exists_partsIn_nested input
  have hplain (cs : List Char) (hcs : cs ∈ css) : ∀ c ∈ cs, isSpecial c = false := by
    intro c hc
    obtain ⟨n, hn⟩ := exists_eq_trimmed_append input
    exact isSpecial_of_isPattern h
      (hn ▸ List.mem_append_left _ (Text.mem_of_mem_split (hcss cs hcs) hc))
  obtain ⟨others, hothers, -, mid, hmid, hpath⟩ := exists_of_mem_paths hglob hparts hplain hpath
  have hdepth : tokens 0 true ['*', '*'] = .ok [.anyDepth] := by cbv
  have hending : tokens 0 true ['*', '.', 'j', 's', 'o', 'n'] =
      .ok [.many, .char '.', .char 'j', .char 's', .char 'o', .char 'n'] := by cbv
  rw [List.mapM_cons, List.mapM_cons, hdepth, hending] at hothers
  cases hothers
  refine ⟨css, fun cs hcs hslash => ?_, mid, hmid, ?_⟩
  · simpa using Text.isSeparator_of_mem_split (hcss cs hcs) hslash
  · obtain ⟨next, hnext, hpath⟩ := List.mem_flatMap.1 hpath
    obtain ⟨found, hfound, rfl⟩ := List.mem_map.1 hnext
    exact ⟨found, (List.mem_filter.1 hfound).1, (List.mem_singleton.1 hpath).symm⟩

/-- What lies below a directory ends with a name. -/
theorem endsNamed_of_mem_paths_nested (h : isPattern input = false)
    (hglob : parse (nested input) = .ok glob) (hpath : path ∈ glob.paths fs) : EndsNamed path := by
  obtain ⟨_, -, _, -, found, hfound, rfl⟩ := exists_of_mem_paths_nested h hglob hpath
  exact endsNamed_of_mem_descendants hfound

/-- A path that has no dot in front of anything. -/
def Dotless (p : FilePath) : Prop :=
  p.same .here = true ∨ .here ∉ p.parts

/-- Chunks that are not in front stand for no dot. -/
theorem here_notMem_innerParts (hcss : ∀ cs ∈ css, '/' ∉ cs) : .here ∉ innerParts css := by
  intro hhere
  cases isStep_of_mem_innerParts hcss hhere

/-- A text without a slash has no dot in front of anything. -/
theorem dotless_mk (hcs : '/' ∉ cs) : Dotless ⟨String.ofList cs⟩ := by
  have hslash : '/' ∉ (String.ofList cs).toList := by rwa [String.toList_ofList]
  have hchunks : (FilePath.mk (String.ofList cs)).chunks = [cs] := by
    rw [chunks_mk hslash, String.toList_ofList]
  by_cases hdot : cs = ['.']
  · subst hdot
    exact .inl (by decide)
  · have hfront : frontParts [cs] = [] := by
      unfold frontParts
      split <;> simp_all
    refine .inr ?_
    rw [parts_eq, hchunks, hfront, List.nil_append]
    exact here_notMem_innerParts (List.forall_mem_singleton.2 hcs)

/-- Entries that are looked up from a place put no dot in front of anything. -/
theorem dotless_of_mem_followAll {place : FilePath} (hplace : Dotless place)
    (hcss : ∀ cs ∈ css, '/' ∉ cs)
    (h : path ∈ followAll fs place (css.map fun cs => .entry (String.ofList cs))) :
    Dotless path := by
  induction css generalizing place with
  | nil => rwa [List.mem_singleton.1 h]
  | cons cs rest ih =>
    obtain ⟨hcs, hrest⟩ := List.forall_mem_cons.1 hcss
    obtain ⟨next, hnext, h⟩ := List.mem_flatMap.1 h
    refine ih ?_ hrest h
    have hslash : '/' ∉ (String.ofList cs).toList := by rwa [String.toList_ofList]
    rw [eq_of_mem_follow_entry hnext]
    split
    · exact dotless_mk hcs
    · next hsame =>
      by_cases hempty : place.text = ""
      · rw [join_of_empty hempty]
        exact dotless_mk hcs
      · refine .inr ?_
        rw [parts_join hempty (isAbsolute_mk hslash), List.mem_append, not_or]
        exact ⟨hplace.resolve_left hsame,
          here_notMem_innerParts fun _ hmem => slash_notMem_of_mem_chunks hmem⟩

/-- In front of an entry is no dot. -/
theorem here_notMem_child {place : FilePath} (h : Dotless place) (name : EntryName) :
    .here ∉ (place.child name).parts := by
  have halone : .here ∉ (FilePath.mk name.text).parts := by
    rw [parts_name]
    simp
  rw [child]
  split
  · exact halone
  · next hsame =>
    by_cases hempty : place.text = ""
    · rwa [join_of_empty hempty]
    · rw [parts_join_name hempty, List.mem_append, not_or]
      exact ⟨h.resolve_left hsame, by simp⟩

/-- What is found below a directory is written without a dot in front. -/
theorem here_notMem_of_mem_paths_nested (h : isPattern input = false)
    (hglob : parse (nested input) = .ok glob) (hpath : path ∈ glob.paths fs) :
    .here ∉ path.parts := by
  obtain ⟨css, hcss, mid, hmid, found, hfound, rfl⟩ := exists_of_mem_paths_nested h hglob hpath
  obtain ⟨_, -, hstart, -⟩ := exists_of_parse hglob
  have hdotless : Dotless glob.start := by
    rw [hstart]
    split
    · exact .inr (by decide)
    · exact .inl (by decide)
  obtain ⟨above, habove, heq⟩ :=
    exists_of_mem_descendants_path (P := Dotless)
      (fun _ name h => .inr (here_notMem_child h name))
      (dotless_of_mem_followAll hdotless hcss hmid) hfound
  rw [heq]
  exact here_notMem_child habove _

/-- A source whose path is not written with a dot in front does not lie below a directory that is,
and so only its name counts. -/
theorem found_of_here (h : directory.parts.head? = some .here) (hpath : .here ∉ path.parts)
    (hnamed : EndsNamed path) :
    ∃ name, path.fileName? = some name ∧ found directory path = ⟨path, ⟨name⟩⟩ := by
  obtain ⟨init, name, hname⟩ := hnamed.exists_parts_eq
  have hfile : path.fileName? = some name.text := by
    rw [fileName?, hname, List.getLast?_concat]
  refine ⟨name.text, hfile, ?_⟩
  have hnone : path.relativeTo? directory = none := by
    refine Option.eq_none_iff_forall_ne_some.2 fun way hway => hpath ?_
    rw [parts_relativeTo? hway]
    exact List.mem_append_left _ (List.mem_of_mem_head? h)
  simp [found, hnone, hfile]

end Source
end SchemaTypes
