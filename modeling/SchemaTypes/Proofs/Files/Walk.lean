import SchemaTypes.Proofs.Except
import SchemaTypes.Proofs.Files.Parts

/-!
# Where paths lead to

What a path means depends on the path alone: the directories that it goes through
(`FileSystem.trail`) and the place at its end (`FileSystem.place`). A walk fails at the first of
these directories that is none, or at the end if there is nothing (`FileSystem.locate_eq`). So paths
with the same moves lead to the same place, if both lead anywhere, and a path that leads to a file
ends with a name (`FileSystem.endsNamed_of_isFile`).
-/

namespace SchemaTypes

/-- What there is at a place. -/
inductive Status where
  | missing
  | file (content : ByteArray)
  | directory

instance : (status : Status) → Decidable (status = .directory)
  | .directory => .isTrue rfl
  | .missing | .file _ => .isFalse nofun

/-- Whether there is a directory. -/
def Status.isDirectory : Status → Bool
  | .directory => true
  | _ => false

namespace Node

variable {node : Node} {way way' : List EntryName} {name : EntryName}

/-- What there is at the end of a way down. -/
def status (node : Node) (way : List EntryName) : Status :=
  match node.at? way with
  | none => .missing
  | some (.file content) => .file content
  | some (.directory _) => .directory

/-- A way down goes on from the node at the end of its first part. -/
theorem at?_append (node : Node) (way way' : List EntryName) :
    node.at? (way ++ way') = (node.at? way).bind (at? · way') := by
  induction way generalizing node with
  | nil => rfl
  | cons name rest ih =>
    rw [List.cons_append, at?, at?]
    cases node.entry? name with
    | none => rfl
    | some next => exact ih next

/-- There is nothing at the end of a way if and only if no node is there. -/
theorem status_eq_missing_iff : node.status way = .missing ↔ node.at? way = none := by
  unfold status
  split <;> simp [*]

/-- There is a directory at the end of a way if and only if the node there is one. -/
theorem status_eq_directory_iff :
    node.status way = .directory ↔ ∃ entries, node.at? way = some (.directory entries) := by
  unfold status
  split <;> simp [*]

/-- There is a file at the end of a way if and only if the node there is one. -/
theorem status_eq_file_iff {content : ByteArray} :
    node.status way = .file content ↔ node.at? way = some (.file content) := by
  unfold status
  split <;> simp [*]

/-- What is on the way to anything is a directory. -/
theorem status_eq_directory_of_append (h : node.status (way ++ way') ≠ .missing)
    (hne : way' ≠ []) : node.status way = .directory := by
  obtain ⟨name, rest, rfl⟩ := List.exists_cons_of_ne_nil hne
  rw [Ne, status_eq_missing_iff, at?_append] at h
  obtain ⟨found, hfound⟩ := Option.ne_none_iff_exists'.1 h
  obtain ⟨mid, hmid, hrest⟩ := Option.bind_eq_some_iff.1 hfound
  cases mid with
  | file content => cases hrest
  | directory entries => exact status_eq_directory_iff.2 ⟨entries, hmid⟩

/-- What lies on the way to anything that is there is that itself or a directory. -/
theorem eq_or_directory_of_isPrefix (h : way <+: way') (hexists : node.status way' ≠ .missing) :
    way = way' ∨ node.status way = .directory := by
  obtain ⟨behind, rfl⟩ := h
  by_cases hnil : behind = []
  · exact .inl (by rw [hnil, List.append_nil])
  · exact .inr (status_eq_directory_of_append hexists hnil)

/-- Above a directory is a directory. -/
theorem status_dropLast (h : node.status way = .directory) :
    node.status way.dropLast = .directory := by
  rcases List.eq_nil_or_concat way with rfl | ⟨front, name, rfl⟩
  · exact h
  · rw [List.concat_eq_append] at h ⊢
    rw [List.dropLast_concat]
    exact status_eq_directory_of_append (by rw [h]; nofun) (List.cons_ne_nil name [])

end Node

namespace FileSystem

open FilePath

variable {fs : FileSystem} {p q : FilePath} {root : Node} {way : List EntryName}
  {cs : List Char} {css : List (List Char)}

/-- Where a part leads from a place. -/
def lead (place : List EntryName) : PathPart → List EntryName
  | .root => []
  | .here => place
  | .parent => place.dropLast
  | .name s => place ++ (EntryName.ofText? s).toList

/-- Where a chunk leads from a place. -/
def leadBy (place : List EntryName) (cs : List Char) : List EntryName :=
  (innerPart? cs).elim place (lead place)

/-- The places that chunks are followed from, each of which has to be a directory. -/
def trailFrom (place : List EntryName) : List (List Char) → List (List EntryName)
  | [] => []
  | cs :: rest => place :: trailFrom (leadBy place cs) rest

/-- How a walk ends that goes through some places to another one. -/
def ending (root : Node) (trail : List (List EntryName)) (place : List EntryName) :
    Except FileFault (List EntryName) :=
  match trail.find? fun way => !(root.status way).isDirectory with
  | some way =>
    match root.status way with
    | .missing => .error .notFound
    | _ => .error .notDirectory
  | none =>
    match root.status place with
    | .missing => .error .notFound
    | _ => .ok place

/-- The name of an entry leads to it. -/
theorem leadBy_name (place : List EntryName) (name : EntryName) :
    leadBy place name.text.toList = place ++ [name] := by
  have hname : EntryName.ofText? name.text = some name := dif_pos name.isStep
  rw [leadBy, innerPart?_name]
  exact congrArg (place ++ ·.toList) hname

/-- From a directory, a walk goes on to where the chunk leads, if there is anything. -/
theorem walk_cons {place : List EntryName} (hplace : root.status place = .directory)
    (hcs : '/' ∉ cs) (rest : List String) :
    walk root place (String.ofList cs :: rest) =
      match root.status (leadBy place cs) with
      | .missing => .error .notFound
      | _ => walk root (leadBy place cs) rest := by
  obtain ⟨entries, hentries⟩ := Node.status_eq_directory_iff.1 hplace
  rw [walk, hentries]
  cases hpart : innerPart? cs with
  | none =>
    have hvoid : String.ofList cs = "" ∨ String.ofList cs = "." := by
      unfold innerPart? Piece.ofChars at hpart
      split at hpart <;> simp at hpart ⊢
    have hlead : leadBy place cs = place := by rw [leadBy, hpart]; rfl
    simp only [hvoid, if_true, hlead, hplace]
  | some part =>
    obtain ⟨hstep, htext⟩ := isStep_of_innerPart? hcs hpart
    have hlead : leadBy place cs = lead place part := by rw [leadBy, hpart]; rfl
    rw [hlead, ← htext, String.ofList_toList]
    cases hstep with
    | parent =>
      have habove := Node.status_dropLast hplace
      simp [PathPart.text, lead, habove]
    | name name =>
      obtain ⟨hempty, hhere, hparent, -⟩ := name.isStep
      have hname : EntryName.ofText? name.text = some name := dif_pos name.isStep
      have hnext : root.at? (place ++ [name]) = entries.lookup name := by
        rw [Node.at?_append, hentries]
        exact Option.bind_fun_some (entries.lookup name)
      simp only [PathPart.text, lead, hempty, hhere, hparent, hname, or_self, if_false,
        Option.toList_some, Node.status, hnext]
      cases entries.lookup name with
      | none => rfl
      | some next => cases next <;> rfl

/-- A walk along chunks ends as it must after the places on the way. -/
theorem walk_eq (hne : css ≠ []) (hcss : ∀ cs ∈ css, '/' ∉ cs) (place : List EntryName) :
    walk root place (css.map String.ofList) =
      ending root (trailFrom place css) (css.foldl leadBy place) := by
  induction css generalizing place with
  | nil => exact absurd rfl hne
  | cons cs rest ih =>
    rw [List.map_cons, trailFrom, List.foldl_cons]
    obtain ⟨hcs, hrest⟩ := List.forall_mem_cons.1 hcss
    cases hplace : root.status place with
    | missing =>
      rw [walk, Node.status_eq_missing_iff.1 hplace]
      simp [ending, hplace, Status.isDirectory]
    | file content =>
      rw [walk, Node.status_eq_file_iff.1 hplace]
      simp [ending, hplace, Status.isDirectory]
    | directory =>
      have hskip (trail : List (List EntryName)) (place' : List EntryName) :
          ending root (place :: trail) place' = ending root trail place' := by
        simp [ending, hplace, Status.isDirectory]
      rw [walk_cons hplace hcs, hskip]
      cases rest with
      | nil => rfl
      | cons next more =>
        rw [ih (List.cons_ne_nil _ _) hrest]
        cases hnext : root.status (leadBy place cs) with
        | missing => simp [ending, trailFrom, hnext, Status.isDirectory]
        | file content => rfl
        | directory => rfl

/-! ## Paths -/

/-- The place where the walk of a path starts. -/
def origin (fs : FileSystem) (p : FilePath) : List EntryName :=
  if p.isAbsolute then [] else fs.workingDirectory

/-- The place that a path means, whether there is anything or not. -/
def place (fs : FileSystem) (p : FilePath) : List EntryName :=
  p.chunks.foldl leadBy (fs.origin p)

/-- The places that a path goes through. -/
def trail (fs : FileSystem) (p : FilePath) : List (List EntryName) :=
  trailFrom (fs.origin p) p.chunks

/-- Where a path starts depends on nothing but the directory that the program works in. -/
theorem origin_congr {fs' : FileSystem} (h : fs'.workingDirectory = fs.workingDirectory)
    (p : FilePath) : fs'.origin p = fs.origin p := by
  rw [origin, origin, h]

/-- What a path means depends on nothing else. -/
theorem place_congr {fs' : FileSystem} (h : fs'.workingDirectory = fs.workingDirectory)
    (p : FilePath) : fs'.place p = fs.place p := by
  rw [place, place, origin_congr h]

/-- What a path goes through depends on nothing else. -/
theorem trail_congr {fs' : FileSystem} (h : fs'.workingDirectory = fs.workingDirectory)
    (p : FilePath) : fs'.trail p = fs.trail p := by
  rw [trail, trail, origin_congr h]

/-- A path that is not empty leads to the place that it means, if there is anything, and it goes
through directories only. -/
theorem locate_eq (h : p.text ≠ "") (fs : FileSystem) :
    fs.locate p = ending fs.root (fs.trail p) (fs.place p) := by
  rw [locate, if_neg h]
  exact walk_eq p.chunks_ne_nil (fun cs hcs => slash_notMem_of_mem_chunks hcs) _

/-- A walk only ends at the place that is meant, at which there is something. -/
theorem eq_of_ending_eq_ok {trail : List (List EntryName)} {place : List EntryName}
    (h : ending root trail place = .ok way) :
    way = place ∧ root.status place ≠ .missing ∧
      ∀ mid ∈ trail, root.status mid = .directory := by
  unfold ending at h
  split at h
  · split at h <;> cases h
  · next hnone =>
    have hall (mid : List EntryName) (hmid : mid ∈ trail) : root.status mid = .directory := by
      have hdirectory := List.find?_eq_none.1 hnone mid hmid
      cases hstatus : root.status mid <;> simp [hstatus, Status.isDirectory] at hdirectory ⊢
    split at h
    · cases h
    · next hmissing =>
      cases h
      exact ⟨rfl, hmissing, hall⟩

/-- Chunks lead to where the parts that they stand for lead. -/
theorem foldl_leadBy (css : List (List Char)) (place : List EntryName) :
    css.foldl leadBy place = (innerParts css).foldl lead place := by
  induction css generalizing place with
  | nil => rfl
  | cons cs rest ih =>
    rw [List.foldl_cons, ih, innerParts, innerParts, List.filterMap_cons, leadBy]
    cases innerPart? cs <;> rfl

/-- The place that a path means is that to which its moves lead. -/
theorem place_eq (fs : FileSystem) (p : FilePath) :
    fs.place p = p.moves.foldl lead fs.workingDirectory := by
  rw [place, foldl_leadBy, origin]
  cases h : p.isAbsolute with
  | true =>
    rw [moves_of_isAbsolute h]
    rfl
  | false =>
    rw [moves_eq_innerParts h]
    rfl

/-- A path that leads anywhere leads to the place that it means. -/
theorem eq_place_of_locate (h : fs.locate p = .ok way) : way = fs.place p := by
  by_cases hempty : p.text = ""
  · rw [locate, if_pos hempty] at h
    cases h
  · rw [locate_eq hempty] at h
    exact (eq_of_ending_eq_ok h).1

/-- Paths with the same moves lead to the same place, if they lead anywhere. -/
theorem locate_eq_of_moves_eq {way' : List EntryName} (h : fs.locate p = .ok way)
    (h' : fs.locate q = .ok way') (hmoves : p.moves = q.moves) : fs.locate p = fs.locate q := by
  rw [h, h', eq_place_of_locate h, eq_place_of_locate h', place_eq, place_eq, hmoves]

/-- The places that a path goes through are those of its first chunks, and the place that these
lead to. -/
theorem trailFrom_concat (css : List (List Char)) (cs : List Char) (place : List EntryName) :
    trailFrom place (css ++ [cs]) = trailFrom place css ++ [css.foldl leadBy place] := by
  induction css generalizing place with
  | nil => rfl
  | cons first rest ih => exact congrArg (place :: ·) (ih (leadBy place first))

/-- There is a node at a path if and only if the path leads to it. -/
theorem node_eq_ok_iff {found : Node} :
    fs.node p = .ok found ↔ ∃ way, fs.locate p = .ok way ∧ fs.root.at? way = some found := by
  rw [node, Except.bind_eq_ok_iff]
  refine exists_congr fun way => and_congr_right fun _ => ?_
  cases fs.root.at? way with
  | none => exact ⟨nofun, nofun⟩
  | some other =>
    constructor
    · intro h
      cases h
      rfl
    · intro h
      cases h
      rfl

/-- There is a file at a path if and only if a node is there that is one. -/
theorem isFile_iff : fs.isFile p = true ↔ ∃ content, fs.node p = .ok (.file content) := by
  unfold isFile
  split
  · next content h => exact ⟨fun _ => ⟨content, h⟩, fun _ => rfl⟩
  · next hother => exact ⟨nofun, fun ⟨content, h⟩ => (hother content h).elim⟩

/-- A path to a file ends with a name. -/
theorem endsNamed_of_isFile (h : fs.isFile p = true) : p.EndsNamed := by
  obtain ⟨content, hnode⟩ := isFile_iff.1 h
  obtain ⟨way, hlocate, hat⟩ := node_eq_ok_iff.1 hnode
  have hempty : p.text ≠ "" := by
    intro hempty
    rw [locate, if_pos hempty] at hlocate
    cases hlocate
  rw [locate_eq hempty] at hlocate
  obtain ⟨rfl, -, hall⟩ := eq_of_ending_eq_ok hlocate
  rcases List.eq_nil_or_concat p.chunks with hnil | ⟨init, last, hchunks⟩
  · exact absurd hnil p.chunks_ne_nil
  rw [List.concat_eq_append] at hchunks
  have hfile : fs.root.status (fs.place p) = .file content := Node.status_eq_file_iff.2 hat
  rw [place, hchunks, List.foldl_append, List.foldl_cons, List.foldl_nil] at hfile
  -- The last chunk is followed from a directory.
  have hmid : fs.root.status (init.foldl leadBy (fs.origin p)) = .directory := by
    refine hall _ ?_
    rw [trail, hchunks, trailFrom_concat]
    exact List.mem_append_right _ (.head _)
  have hlast : '/' ∉ last :=
    slash_notMem_of_mem_chunks (p := p) (hchunks ▸ List.mem_append_right _ (.head _))
  rw [leadBy] at hfile
  cases hpart : innerPart? last with
  | none =>
    rw [hpart] at hfile
    cases hmid.symm.trans hfile
  | some part =>
    rw [hpart] at hfile
    obtain ⟨hstep, htext⟩ := isStep_of_innerPart? hlast hpart
    cases hstep with
    | parent => cases (Node.status_dropLast hmid).symm.trans hfile
    | name name => exact ⟨init, name, by rw [hchunks, ← htext]; rfl⟩

end FileSystem
end SchemaTypes
