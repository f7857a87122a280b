import SchemaTypes.Files.Tree
import SchemaTypes.Proofs.Text.Split

/-!
# The parts of paths

What stands between two slashes of a path is a chunk of it, and a chunk is one part or none, except
in front (`FilePath.parts_eq`). A path below a directory has the parts of both, but a dot in front
is none any more (`FilePath.parts_join`), so what counts of a path are its moves, all parts but that
dot (`FilePath.moves_join`).
-/

namespace SchemaTypes

/-- A part that may stand anywhere in a path: the name of an entry, or the step up. -/
inductive PathPart.IsStep : PathPart → Prop where
  | parent : IsStep .parent
  | name (name : EntryName) : IsStep (.name name.text)

namespace FilePath

variable {p base : FilePath} {cs : List Char} {css css' css'' : List (List Char)}
  {part : PathPart} {name : String}

/-! ## Chunks -/

/-- What stands between the slashes of a path. -/
def chunks (p : FilePath) : List (List Char) :=
  Text.split (· == '/') p.text.toList

/-- The part that a chunk stands for that is not in front. -/
def innerPart? (cs : List Char) : Option PathPart :=
  (Piece.ofChars false cs).part?

/-- The parts that chunks stand for that are not in front. -/
def innerParts (css : List (List Char)) : List PathPart :=
  css.filterMap innerPart?

/-- The part that only the front of a path stands for: the root in front of a first slash, or a
dot. -/
def frontParts : List (List Char) → List PathPart
  | [] :: _ :: _ => [.root]
  | ['.'] :: _ => [.here]
  | _ => []

/-- A slash ends a chunk. -/
theorem split_append_slash (before after : List Char) :
    Text.split (· == '/') (before ++ '/' :: after) =
      Text.split (· == '/') before ++ Text.split (· == '/') after :=
  Text.split_append_cons rfl before after

/-- A path has a chunk. -/
theorem chunks_ne_nil (p : FilePath) : p.chunks ≠ [] :=
  Text.split_ne_nil _

/-- Chunks behind others stand for what they stand for alone. -/
theorem innerParts_append (css css' : List (List Char)) :
    innerParts (css ++ css') = innerParts css ++ innerParts css' :=
  List.filterMap_append

/-- In front, only a dot stands for something else than elsewhere. -/
theorem ofChars_of_ne_dot (h : cs ≠ ['.']) : Piece.ofChars true cs = Piece.ofChars false cs := by
  unfold Piece.ofChars
  split
  · rfl
  · exact absurd rfl h
  · rfl
  · rfl

/-- A first chunk that is not empty and no dot is like all others. -/
theorem frontParts_of_ne_dot (hnil : cs ≠ []) (hdot : cs ≠ ['.']) :
    frontParts (cs :: css) = [] := by
  unfold frontParts
  split
  · next heq => exact absurd (List.cons.inj heq).1 hnil
  · next heq => exact absurd (List.cons.inj heq).1 hdot
  · rfl

/-- The pieces of a path stand for what the front and the chunks stand for. -/
theorem filterMap_piecesOf (css : List (List Char)) :
    (piecesOf css).filterMap (·.part?) = frontParts css ++ innerParts css := by
  have hrest (css : List (List Char)) :
      (css.map (Piece.ofChars false)).filterMap (·.part?) = innerParts css := by
    rw [List.filterMap_map]
    rfl
  have hfirst (first : List Char) (rest : List (List Char)) :
      (Piece.ofChars true first :: rest.map (.ofChars false)).filterMap (·.part?) =
        (Piece.ofChars true first).part?.toList ++ innerParts rest := by
    rw [List.filterMap_cons, hrest]
    split <;> simp [*]
  have hsecond (first : List Char) (rest : List (List Char)) :
      innerParts (first :: rest) = (innerPart? first).toList ++ innerParts rest := by
    rw [innerParts, List.filterMap_cons]
    split <;> simp [*, innerParts]
  match css with
  | [] => rfl
  | [[]] => rfl
  | [] :: next :: rest => exact congrArg (PathPart.root :: ·) (hrest (next :: rest))
  | (c :: more) :: rest =>
    by_cases hdot : c :: more = ['.']
    · rw [hdot]
      exact hfirst ['.'] rest
    · rw [hsecond, frontParts_of_ne_dot (List.cons_ne_nil c more) hdot]
      exact (hfirst (c :: more) rest).trans (by rw [ofChars_of_ne_dot hdot]; rfl)

/-- The parts of a path are what its front stands for and what its chunks stand for. -/
theorem parts_eq (p : FilePath) : p.parts = frontParts p.chunks ++ innerParts p.chunks :=
  filterMap_piecesOf p.chunks

/-- Whatever stands behind the first chunk, the front stands for the same. -/
theorem frontParts_append (h : css ≠ []) (h' : css' ≠ []) (h'' : css'' ≠ []) :
    frontParts (css ++ css') = frontParts (css ++ css'') := by
  obtain ⟨first, rest, rfl⟩ := List.exists_cons_of_ne_nil h
  by_cases hnil : first = []
  · subst hnil
    obtain ⟨next, more, hcons⟩ := List.exists_cons_of_ne_nil
      (List.append_ne_nil_of_right_ne_nil rest h')
    obtain ⟨next', more', hcons'⟩ := List.exists_cons_of_ne_nil
      (List.append_ne_nil_of_right_ne_nil rest h'')
    rw [List.cons_append, List.cons_append, hcons, hcons']
    rfl
  · by_cases hdot : first = ['.']
    · rw [hdot]
      rfl
    · rw [List.cons_append, List.cons_append, frontParts_of_ne_dot hnil hdot,
        frontParts_of_ne_dot hnil hdot]

/-- A path with a text has the front that it has with more behind it. -/
theorem frontParts_chunks_append (h : p.text ≠ "") (css' : List (List Char)) :
    frontParts (p.chunks ++ css') = frontParts p.chunks := by
  obtain ⟨first, rest, hchunks⟩ := List.exists_cons_of_ne_nil p.chunks_ne_nil
  rw [hchunks]
  cases rest with
  | cons next more =>
    have hbehind : (next :: more) ++ css' ≠ [] := List.cons_ne_nil _ _
    exact frontParts_append (List.cons_ne_nil first []) hbehind (List.cons_ne_nil next more)
  | nil =>
    by_cases hnil : first = []
    · rw [hnil] at hchunks
      exact absurd (String.toList_injective (Text.eq_nil_of_split_eq hchunks)) h
    · by_cases hdot : first = ['.']
      · rw [hdot]
        rfl
      · exact (frontParts_of_ne_dot hnil hdot).trans (frontParts_of_ne_dot hnil hdot).symm

/-! ## Joined paths -/

/-- The chunks of a path below a directory are those of the directory, but for an empty one that a
slash at the end cuts off, and those of the path. -/
theorem exists_chunks_join (hbase : base.text ≠ "") (hp : p.isAbsolute = false) :
    ∃ css, css ≠ [] ∧ (base.chunks = css ∨ base.chunks = css ++ [[]]) ∧
      (base.join p).chunks = css ++ p.chunks := by
  rw [join, if_neg (by simp [hp])]
  split
  · next hlast =>
    exact absurd (String.toList_injective (List.getLast?_eq_none_iff.1 hlast)) hbase
  · next hlast =>
    obtain ⟨before, hbefore⟩ := List.getLast?_eq_some_iff.1 hlast
    refine ⟨Text.split (· == '/') before, Text.split_ne_nil before, .inr ?_, ?_⟩
    · rw [chunks, hbefore, split_append_slash]
      rfl
    · rw [chunks, String.toList_append, hbefore, List.append_assoc, List.singleton_append,
        split_append_slash, chunks]
  · refine ⟨base.chunks, base.chunks_ne_nil, .inl rfl, ?_⟩
    rw [chunks, String.toList_append, String.toList_append, List.append_assoc]
    exact split_append_slash _ _

/-- A path below a directory has the parts of both, except that a dot in front is none any more. -/
theorem parts_join (hbase : base.text ≠ "") (hp : p.isAbsolute = false) :
    (base.join p).parts = base.parts ++ innerParts p.chunks := by
  obtain ⟨css, hne, hdirectory, hjoined⟩ := exists_chunks_join hbase hp
  rw [parts_eq, parts_eq base, hjoined, innerParts_append, ← List.append_assoc]
  refine congrArg (· ++ innerParts p.chunks) ?_
  rcases hdirectory with hdirectory | hdirectory
  · rw [← hdirectory, frontParts_chunks_append hbase]
  · rw [hdirectory, frontParts_append hne p.chunks_ne_nil (List.cons_ne_nil [] []),
      innerParts_append]
    exact congrArg (_ ++ ·) (List.append_nil _).symm

/-- The empty path has no parts. -/
theorem parts_of_empty (h : p.text = "") : p.parts = [] := by
  obtain ⟨text⟩ := p
  subst h
  rfl

/-- Nothing stands in front of what lies below the empty path. -/
theorem join_of_empty (h : base.text = "") (p : FilePath) : base.join p = p := by
  obtain ⟨text⟩ := base
  subst h
  rw [join]
  split
  · rfl
  · exact congrArg FilePath.mk String.empty_append

/-! ## Steps and names -/

/-- The name of an entry stands for itself. -/
theorem innerPart?_name (name : EntryName) :
    innerPart? name.text.toList = some (.name name.text) := by
  obtain ⟨text, hempty, hhere, hparent, -⟩ := name
  have hpart : innerPart? text.toList = some (.name (String.ofList text.toList)) := by
    unfold innerPart? Piece.ofChars
    split
    · next h => exact absurd (String.toList_injective h) hempty
    · next h => exact absurd (String.toList_injective (h.trans (by simp))) hhere
    · next h => exact absurd (String.toList_injective (h.trans (by simp))) hparent
    · rfl
  rw [String.ofList_toList] at hpart
  exact hpart

/-- A chunk that stands for a part is how that part is written. -/
theorem isStep_of_innerPart? (hcs : '/' ∉ cs) (h : innerPart? cs = some part) :
    part.IsStep ∧ part.text.toList = cs := by
  unfold innerPart? Piece.ofChars at h
  split at h
  · cases h
  · cases h
  · cases h
    exact ⟨.parent, by simp [PathPart.text]⟩
  · next hempty hhere hparent =>
    cases h
    have hne {text : String} (htext : cs ≠ text.toList) : String.ofList cs ≠ text := by
      rintro rfl
      exact htext String.toList_ofList.symm
    refine ⟨.name ⟨String.ofList cs, hne hempty, hne ?_, hne ?_, ?_⟩, String.toList_ofList⟩
    · simpa using hhere
    · simpa using hparent
    · rwa [String.toList_ofList]

/-- A chunk of a path holds no slash. -/
theorem slash_notMem_of_mem_chunks (h : cs ∈ p.chunks) : '/' ∉ cs := by
  intro hslash
  simpa using Text.isSeparator_of_mem_split h hslash

/-- The parts that chunks stand for that are not in front are steps. -/
theorem isStep_of_mem_innerParts (hcss : ∀ cs ∈ css, '/' ∉ cs) (h : part ∈ innerParts css) :
    part.IsStep := by
  obtain ⟨cs, hmem, hpart⟩ := List.mem_filterMap.1 h
  exact (isStep_of_innerPart? (hcss cs hmem) hpart).1

/-- A text without a slash is its only chunk. -/
theorem chunks_mk (h : '/' ∉ name.toList) : chunks ⟨name⟩ = [name.toList] := by
  refine Text.split_eq_singleton fun c hc => ?_
  simp only [beq_eq_false_iff_ne]
  rintro rfl
  exact h hc

/-- A path whose text holds no slash does not start at the root. -/
theorem isAbsolute_mk (h : '/' ∉ name.toList) : isAbsolute ⟨name⟩ = false := by
  simp only [isAbsolute, beq_eq_false_iff_ne]
  exact fun hhead => h (List.mem_of_mem_head? hhead)

/-- A step is written without a slash. -/
theorem slash_notMem_text (h : part.IsStep) : '/' ∉ part.text.toList := by
  cases h with
  | parent => simp [PathPart.text]
  | name name => exact name.isStep.2.2.2

/-- A step stands for itself. -/
theorem innerPart?_text (h : part.IsStep) : innerPart? part.text.toList = some part := by
  cases h with
  | parent => simp [PathPart.text, innerPart?, Piece.ofChars]
  | name name => exact innerPart?_name name

/-- A step is a path of one part. -/
theorem parts_text (h : part.IsStep) : parts ⟨part.text⟩ = [part] := by
  have hpart := innerPart?_text h
  have hnil : part.text.toList ≠ [] := fun hnil => by rw [hnil] at hpart; cases hpart
  have hdot : part.text.toList ≠ ['.'] := fun hdot => by rw [hdot] at hpart; cases hpart
  rw [parts_eq, chunks_mk (slash_notMem_text h), frontParts_of_ne_dot hnil hdot, innerParts,
    List.filterMap_cons_some hpart]
  rfl

/-- The name of an entry is a path of one part. -/
theorem parts_name (name : EntryName) : parts ⟨name.text⟩ = [.name name.text] :=
  parts_text (show PathPart.IsStep (.name name.text) from .name name)

/-- A step from a directory is one part more. -/
theorem parts_join_text (hbase : base.text ≠ "") (h : part.IsStep) :
    (base.join ⟨part.text⟩).parts = base.parts ++ [part] := by
  have hslash := slash_notMem_text h
  rw [parts_join hbase (isAbsolute_mk hslash), chunks_mk hslash, innerParts,
    List.filterMap_cons_some (innerPart?_text h)]
  rfl

/-- The path of an entry has one part more than that of its directory. -/
theorem parts_join_name (hbase : base.text ≠ "") (name : EntryName) :
    (base.join ⟨name.text⟩).parts = base.parts ++ [.name name.text] := by
  have hstep : PathPart.IsStep (.name name.text) := .name name
  have hparts := parts_join_text hbase hstep
  exact hparts

/-- A path whose last chunk is a name. -/
def EndsNamed (p : FilePath) : Prop :=
  ∃ init, ∃ name : EntryName, p.chunks = init ++ [name.text.toList]

/-- A name ends with itself. -/
theorem endsNamed_name (name : EntryName) : EndsNamed ⟨name.text⟩ :=
  ⟨[], name, chunks_mk name.isStep.2.2.2⟩

/-- A name below a directory is what the path ends with. -/
theorem endsNamed_join (base : FilePath) (name : EntryName) :
    EndsNamed (base.join ⟨name.text⟩) := by
  by_cases hempty : base.text = ""
  · rw [join_of_empty hempty]
    exact endsNamed_name name
  · have hname : (FilePath.mk name.text).isAbsolute = false := isAbsolute_mk name.isStep.2.2.2
    obtain ⟨css, -, -, hchunks⟩ := exists_chunks_join hempty hname
    exact ⟨css, name, by rw [hchunks, chunks_mk name.isStep.2.2.2]⟩

/-- A path that ends with a name has it as its last part. -/
theorem EndsNamed.exists_parts_eq (h : p.EndsNamed) :
    ∃ init, ∃ name : EntryName, p.parts = init ++ [.name name.text] := by
  obtain ⟨init, name, hname⟩ := h
  refine ⟨frontParts p.chunks ++ innerParts init, name, ?_⟩
  rw [parts_eq, hname, innerParts_append, ← List.append_assoc]
  exact congrArg (_ ++ ·) (List.filterMap_cons_some (innerPart?_name name))

/-! ## The first part -/

/-- In front stands the root, a dot or nothing else than elsewhere. -/
theorem frontParts_eq (css : List (List Char)) :
    frontParts css = [] ∨ frontParts css = [.root] ∨ frontParts css = [.here] := by
  unfold frontParts
  split
  · exact .inr (.inl rfl)
  · exact .inr (.inr rfl)
  · exact .inl rfl

/-- The parts that the chunks of a path stand for that are not in front are steps. -/
theorem isStep_of_mem_innerParts_chunks (h : part ∈ innerParts p.chunks) : part.IsStep :=
  isStep_of_mem_innerParts (fun _ hcs => slash_notMem_of_mem_chunks hcs) h

/-- All parts of a path but the first are steps. -/
theorem isStep_of_parts_eq_cons {rest : List PathPart} (h : p.parts = part :: rest) :
    ∀ other ∈ rest, other.IsStep := by
  intro other hother
  refine isStep_of_mem_innerParts_chunks (p := p) ?_
  rw [parts_eq] at h
  rcases frontParts_eq p.chunks with hfront | hfront | hfront
  · rw [hfront, List.nil_append] at h
    exact h ▸ .tail _ hother
  · rw [hfront, List.singleton_append] at h
    exact (List.cons.inj h).2 ▸ hother
  · rw [hfront, List.singleton_append] at h
    exact (List.cons.inj h).2 ▸ hother

/-- The first part of a path is a path of its own. -/
theorem parts_text_of_parts_eq_cons {rest : List PathPart} (h : p.parts = part :: rest) :
    parts ⟨part.text⟩ = [part] := by
  rw [parts_eq] at h
  rcases frontParts_eq p.chunks with hfront | hfront | hfront
  · rw [hfront, List.nil_append] at h
    exact parts_text (isStep_of_mem_innerParts_chunks (p := p) (h ▸ .head _))
  · rw [hfront, List.singleton_append] at h
    rw [← (List.cons.inj h).1]
    rfl
  · rw [hfront, List.singleton_append] at h
    rw [← (List.cons.inj h).1]
    rfl

/-- Only the names of entries are parts of paths. -/
theorem exists_entryName (h : .name name ∈ p.parts) : ∃ entry : EntryName, entry.text = name := by
  rw [parts_eq] at h
  rcases List.mem_append.1 h with h | h
  · rcases frontParts_eq p.chunks with hfront | hfront | hfront
    all_goals
      rw [hfront] at h
      simp at h
  · cases isStep_of_mem_innerParts_chunks (p := p) h
    exact ⟨_, rfl⟩

/-! ## Moves -/

/-- The parts of a path that lead anywhere: all but a dot in front. -/
def moves (p : FilePath) : List PathPart :=
  p.parts.filter (· ≠ .here)

/-- Only a path that starts at the root has it in front. -/
theorem frontParts_eq_or (h : p.isAbsolute = false) :
    frontParts p.chunks = [] ∨ frontParts p.chunks = [.here] := by
  have hfirst (next : List Char) (rest : List (List Char)) : p.chunks ≠ [] :: next :: rest := by
    intro hchunks
    have htext : p.chunks = Text.split (· == '/') p.text.toList := rfl
    cases hcs : p.text.toList with
    | nil =>
      rw [htext, hcs] at hchunks
      cases hchunks
    | cons c cs =>
      have hc : (· == '/') c = false := by
        simpa [isAbsolute, hcs] using h
      obtain ⟨piece, pieces, -, hsplit⟩ := @Text.split_cons_of_eq_false (· == '/') c hc cs
      rw [htext, hcs, hsplit] at hchunks
      cases hchunks
  unfold frontParts
  split
  · next heq => exact absurd heq (hfirst _ _)
  · exact .inr rfl
  · exact .inl rfl

/-- A path that starts at the root has it in front. -/
theorem frontParts_of_isAbsolute (h : p.isAbsolute = true) : frontParts p.chunks = [.root] := by
  obtain ⟨rest, hrest⟩ := List.head?_eq_some_iff.1 (beq_iff_eq.1 h)
  have hne : Text.split (· == '/') rest ≠ [] := Text.split_ne_nil rest
  obtain ⟨next, more, hmore⟩ := List.exists_cons_of_ne_nil hne
  have hchunks : p.chunks = [] :: next :: more := by
    rw [chunks, hrest, ← hmore]
    exact split_append_slash [] rest
  rw [hchunks]
  rfl

/-- Only a path that starts at the root has it as its first part. -/
theorem isAbsolute_iff : p.isAbsolute = true ↔ p.parts.head? = some .root := by
  rw [parts_eq]
  constructor
  · intro h
    rw [frontParts_of_isAbsolute h]
    rfl
  · intro h
    cases habsolute : p.isAbsolute with
    | true => rfl
    | false =>
      rcases frontParts_eq_or habsolute with hfront | hfront
      · rw [hfront, List.nil_append] at h
        cases isStep_of_mem_innerParts_chunks (p := p) (List.mem_of_mem_head? h)
      · rw [hfront] at h
        cases h

/-- The parts that chunks stand for that are not in front all lead somewhere. -/
theorem filter_innerParts_chunks (p : FilePath) :
    (innerParts p.chunks).filter (· ≠ .here) = innerParts p.chunks := by
  refine List.filter_eq_self.2 fun part hpart => ?_
  have hstep := isStep_of_mem_innerParts (fun cs hcs => slash_notMem_of_mem_chunks hcs) hpart
  cases hstep <;> simp

/-- The moves of a path that does not start at the root are what its chunks stand for. -/
theorem moves_eq_innerParts (h : p.isAbsolute = false) : p.moves = innerParts p.chunks := by
  rw [moves, parts_eq, List.filter_append, filter_innerParts_chunks]
  rcases frontParts_eq_or h with hfront | hfront <;> rw [hfront] <;> rfl

/-- The moves of a path that starts at the root are the root and what its chunks stand for. -/
theorem moves_of_isAbsolute (h : p.isAbsolute = true) : p.moves = .root :: innerParts p.chunks := by
  rw [moves, parts_eq, List.filter_append, filter_innerParts_chunks, frontParts_of_isAbsolute h]
  rfl

/-- A path below a directory has the moves of both. -/
theorem moves_join (h : p.isAbsolute = false) (base : FilePath) :
    (base.join p).moves = base.moves ++ p.moves := by
  by_cases hbase : base.text = ""
  · rw [join_of_empty hbase, moves, moves, parts_of_empty hbase]
    rfl
  · rw [moves, parts_join hbase h, List.filter_append, filter_innerParts_chunks,
      moves_eq_innerParts h]
    rfl

end FilePath
end SchemaTypes
