import SchemaTypes.Proofs.Files.Ancestors
import SchemaTypes.Proofs.Files.Settled

/-!
# Directories that are made

A directory is made with those that it lies in. If its path is settled and goes through no file, all
that it goes through is a directory afterwards and nothing else has changed
(`FileSystem.makeNested_of_not_hasFile`); if it goes through a file, nothing changes at all
(`FileSystem.makeNested_of_hasFile`).
-/

namespace SchemaTypes
namespace FileSystem

open FilePath

variable {fs : FileSystem} {p : FilePath} {ps after : List Piece} {piece : Piece}

/-- The places that chunks lead through and to. -/
def reach (place : List EntryName) (css : List (List Char)) : List (List EntryName) :=
  trailFrom place css ++ [css.foldl leadBy place]

/-- The path of the first pieces means the place to which they lead, and it goes through the places
before. -/
theorem place_ofPieces (fs : FileSystem) (h : p.pieces = (ps ++ [piece]) ++ after)
    (hvoid : piece.isVoid = false) :
    (ofPieces (ps ++ [piece])).text ≠ "" ∧
    fs.origin (ofPieces (ps ++ [piece])) = fs.origin p ∧
    fs.place (ofPieces (ps ++ [piece])) =
      ((ps ++ [piece]).map (·.chars)).foldl leadBy (fs.origin p) ∧
    ∀ way, way ∈ fs.trail (ofPieces (ps ++ [piece])) ↔
      way ∈ reach (fs.origin p) (ps.map (·.chars)) := by
  have hfitting := fitting_concat h hvoid
  have horigin : fs.origin (ofPieces (ps ++ [piece])) = fs.origin p := by
    rw [origin, origin, isAbsolute_ofPieces h hvoid]
  refine ⟨fun hempty => ?_, horigin, ?_⟩
  · have hparts := hfitting.parts_ofPieces
    rw [parts_of_empty hempty, eq_comm, List.filterMap_eq_nil_iff] at hparts
    have hnone := hparts piece (List.mem_append_right _ (.head _))
    rw [Piece.isVoid, hnone] at hvoid
    cases hvoid
  · by_cases hroot : ps ++ [piece] = [⟨[], some .root⟩]
    -- The root is written with an empty chunk on each side of its slash.
    · have hps : ps = [] := by simpa using congrArg List.length hroot
      rw [hroot] at horigin ⊢
      subst hps
      rw [← horigin]
      have htrail : fs.trail ⟨"/"⟩ = [fs.origin ⟨"/"⟩, fs.origin ⟨"/"⟩] := rfl
      refine ⟨rfl, fun way => ?_⟩
      show way ∈ fs.trail ⟨"/"⟩ ↔ way ∈ [fs.origin ⟨"/"⟩]
      rw [htrail]
      simp
    · have hchunks := hfitting.chunks_ofPieces (by simp) hroot
      constructor
      · rw [place, hchunks, horigin]
      · intro way
        rw [trail, hchunks, horigin, List.map_append, List.map_singleton, trailFrom_concat]
        rfl

/-! ## One directory -/

variable {way : List EntryName}

/-- Through a file no directory is made. -/
theorem makeDirectory_of_hasFile (hwd : fs.root.status fs.workingDirectory = .directory)
    (h : fs.Settled p) (hempty : p.text ≠ "") (hfile : HasFile fs.root (fs.trail p)) :
    fs.makeDirectory p = .error .notDirectory := by
  have hvacancy : fs.vacancy? p = none := by
    obtain ⟨way, hway, content, hcontent⟩ := hfile
    exact vacancy?_eq_none hway (by simp [hcontent])
  rw [makeDirectory, locate_of_hasFile hwd h hempty hfile, hvacancy]

/-- No directory is made where there is something. -/
theorem makeDirectory_of_exists (h : fs.Settled p) (hempty : p.text ≠ "")
    (hfile : ¬ HasFile fs.root (fs.trail p)) (hexists : fs.root.status (fs.place p) ≠ .missing) :
    fs.makeDirectory p = .error .exists := by
  rw [makeDirectory, locate_of_not_hasFile h hempty hfile]
  cases hstatus : fs.root.status (fs.place p) with
  | missing => exact absurd hstatus hexists
  | file _ | directory => rfl

/-- No directory is made in a directory that is missing. -/
theorem makeDirectory_of_missing (h : fs.Settled p) (hempty : p.text ≠ "")
    (hfile : ¬ HasFile fs.root (fs.trail p)) (hway : way ∈ fs.trail p)
    (hmissing : fs.root.status way ≠ .directory) : fs.makeDirectory p = .error .notFound := by
  have hplace : fs.root.status (fs.place p) = .missing := by
    by_contra hexists
    have hprefix := (directory_or_prefix_of_mem_trail h hway).resolve_left hmissing
    have heq := (Node.eq_or_directory_of_isPrefix hprefix hexists).resolve_right hmissing
    subst heq
    cases hstatus : fs.root.status (fs.place p) with
    | missing => exact hexists hstatus
    | directory => exact hmissing hstatus
    | file content => exact hfile ⟨_, hway, content, hstatus⟩
  rw [makeDirectory, locate_of_not_hasFile h hempty hfile, hplace,
    vacancy?_eq_none hway hmissing]

/-- The last chunk leads from the last place that a path goes through. -/
theorem mem_trail_of_chunks {css : List (List Char)} {cs : List Char}
    (hchunks : p.chunks = css ++ [cs]) : css.foldl leadBy (fs.origin p) ∈ fs.trail p := by
  rw [trail, hchunks, trailFrom_concat]
  exact List.mem_append_right _ (.head _)

/-- A path that ends with a name means the place of an entry. -/
theorem place_of_chunks {css : List (List Char)} {name : EntryName}
    (hchunks : p.chunks = css ++ [name.text.toList]) :
    fs.place p = css.foldl leadBy (fs.origin p) ++ [name] := by
  rw [place, hchunks, List.foldl_append]
  exact leadBy_name _ name

/-- A path that goes through directories only, to where nothing is, ends with a name. -/
theorem endsNamed_of_missing (hall : ∀ way ∈ fs.trail p, fs.root.status way = .directory)
    (hmissing : fs.root.status (fs.place p) = .missing) : p.EndsNamed := by
  obtain ⟨css, last, hchunks⟩ :=
    (List.eq_nil_or_concat p.chunks).resolve_left p.chunks_ne_nil
  rw [List.concat_eq_append] at hchunks
  have hdirectory := hall _ (mem_trail_of_chunks hchunks)
  have hlast : '/' ∉ last :=
    slash_notMem_of_mem_chunks (p := p) (hchunks ▸ List.mem_append_right _ (.head _))
  have hplace : fs.place p = leadBy (css.foldl leadBy (fs.origin p)) last := by
    rw [place, hchunks, List.foldl_append]
    rfl
  rcases leadBy_cases hlast (css.foldl leadBy (fs.origin p)) with hlead | ⟨-, hlead⟩ |
    ⟨name, rfl, -⟩
  · rw [hplace, hlead, hdirectory] at hmissing
    cases hmissing
  · rw [hplace, hlead, Node.status_dropLast hdirectory] at hmissing
    cases hmissing
  · exact ⟨css, name, hchunks⟩

/-- What a new node changes at the place of a path that goes through directories only. -/
theorem status_put_place {node : Node} (hnode : node.entries = []) (hnamed : p.EndsNamed)
    (hall : ∀ way ∈ fs.trail p, fs.root.status way = .directory)
    (hplace : fs.root.status (fs.place p) ≠ .directory) (way : List EntryName) :
    (fs.put (fs.place p) node).root.status way =
      if way = fs.place p then node.status [] else fs.root.status way := by
  obtain ⟨css, name, hchunks⟩ := hnamed
  rw [place_of_chunks hchunks] at hplace ⊢
  exact Node.status_put (hall _ (mem_trail_of_chunks hchunks)) hplace hnode way

/-- There is a file among some places and others if there is one among either. -/
theorem hasFile_append {root : Node} {ways ways' : List (List EntryName)} :
    HasFile root (ways ++ ways') ↔ HasFile root ways ∨ HasFile root ways' := by
  simp only [HasFile, List.mem_append, or_and_right, exists_or]

/-- Whether there is a file among some places does not depend on their order. -/
theorem hasFile_congr {root : Node} {ways ways' : List (List EntryName)}
    (h : ∀ way, way ∈ ways ↔ way ∈ ways') : HasFile root ways ↔ HasFile root ways' :=
  exists_congr fun way => and_congr_left' (h way)

/-- There is no file among directories. -/
theorem not_hasFile_of_forall {root : Node} {ways : List (List EntryName)}
    (hall : ∀ way ∈ ways, root.status way = .directory) : ¬ HasFile root ways := by
  rintro ⟨way, hway, content, hcontent⟩
  cases (hall way hway).symm.trans hcontent

/-- Directories that stay keep chunks settled. -/
theorem SettledFrom.mono {root root' : Node} {place : List EntryName} {css : List (List Char)}
    (h : SettledFrom root place css)
    (hkept : ∀ way, root.status way = .directory → root'.status way = .directory) :
    SettledFrom root' place css :=
  fun before after heq => hkept _ (h before after heq)

/-- Directories have been made at some places, and nothing else has changed. -/
structure Opened (fs made : FileSystem) (ways : List (List EntryName)) : Prop where
  workingDirectory : made.workingDirectory = fs.workingDirectory
  status : ∀ way, made.root.status way = if way ∈ ways then .directory else fs.root.status way

namespace Opened

variable {made made' : FileSystem} {ways ways' : List (List EntryName)}

/-- Where directories are, none has to be made. -/
theorem of_forall_mem (h : ∀ way ∈ ways, fs.root.status way = .directory) : Opened fs fs ways where
  workingDirectory := rfl
  status way := by
    split
    · next hmem => exact h way hmem
    · rfl

/-- In which order the places are listed says nothing. -/
theorem congr (h : Opened fs made ways) (hways : ∀ way, way ∈ ways' ↔ way ∈ ways) :
    Opened fs made ways' where
  workingDirectory := h.workingDirectory
  status way := by simp only [h.status, hways]

/-- One directory more may be made. -/
theorem concat (h : Opened fs made ways) (h' : Opened made made' [way]) :
    Opened fs made' (ways ++ [way]) where
  workingDirectory := h'.workingDirectory.trans h.workingDirectory
  status other := by
    rw [h'.status, h.status]
    by_cases hother : other = way
    · simp [hother]
    · simp [hother]

/-- What was a directory still is. -/
theorem directory (h : Opened fs made ways) (hway : fs.root.status way = .directory) :
    made.root.status way = .directory := by
  rw [h.status, hway, ite_self]

/-- All that a path goes through is a directory. -/
theorem forall_mem_trail (h : Opened fs made (fs.trail p)) :
    ∀ way ∈ made.trail p, made.root.status way = .directory := by
  intro way hway
  rw [trail_congr h.workingDirectory] at hway
  rw [h.status, if_pos hway]

/-- A settled path remains settled. -/
theorem settled (h : Opened fs made ways) (hp : fs.Settled p) : made.Settled p := by
  rw [Settled, origin_congr h.workingDirectory]
  exact hp.mono fun _ => h.directory

end Opened

/-- Behind directories a directory is made, or is there, unless there is a file. -/
theorem makeDirectory_of_forall (h : fs.Settled p) (hempty : p.text ≠ "")
    (hall : ∀ way ∈ fs.trail p, fs.root.status way = .directory)
    (hplace : ∀ content, fs.root.status (fs.place p) ≠ .file content) :
    ∃ made, (fs.makeDirectory p = .ok made ∨
        fs.makeDirectory p = .error .exists ∧ fs.isDirectory p = true ∧ made = fs) ∧
      Opened fs made [fs.place p] := by
  have hfile := not_hasFile_of_forall hall
  cases hstatus : fs.root.status (fs.place p) with
  | file content => exact absurd hstatus (hplace content)
  | missing =>
    have hnamed := endsNamed_of_missing hall hstatus
    obtain ⟨css, name, hchunks⟩ := id hnamed
    refine ⟨fs.put (fs.place p) (.directory []), .inl ?_, rfl, fun way => ?_⟩
    · rw [makeDirectory, locate_of_not_hasFile h hempty hfile, hstatus,
        vacancy?_of_forall hchunks hall]
    · rw [status_put_place rfl hnamed hall (by simp [hstatus])]
      simp only [List.mem_singleton]
      rfl
  | directory =>
    refine ⟨fs, .inr ⟨?_, ?_, rfl⟩, .of_forall_mem fun way hway => ?_⟩
    · exact makeDirectory_of_exists h hempty hfile (by simp [hstatus])
    · obtain ⟨entries, hentries⟩ := Node.status_eq_directory_iff.1 hstatus
      rw [isDirectory, node_of_not_hasFile h hempty hfile, hentries]
    · rw [List.mem_singleton.1 hway, hstatus]

/-! ## Nested directories -/

/-- A place more is reached by a chunk more. -/
theorem reach_concat (place : List EntryName) (css : List (List Char)) (cs : List Char) :
    reach place (css ++ [cs]) = reach place css ++ [leadBy (css.foldl leadBy place) cs] := by
  rw [reach, reach, trailFrom_concat, List.foldl_append]
  rfl

/-- The first pieces of a settled path are a settled path. -/
theorem settled_ofPieces (h : p.pieces = (ps ++ [piece]) ++ after) (hvoid : piece.isVoid = false)
    (hsettled : SettledFrom fs.root (fs.origin p) ((ps ++ [piece]).map (·.chars))) :
    fs.Settled (ofPieces (ps ++ [piece])) := by
  by_cases hroot : ps ++ [piece] = [⟨[], some .root⟩]
  · rw [hroot]
    exact settled_of_notMem (by decide)
  · have hchunks := (fitting_concat h hvoid).chunks_ofPieces (by simp) hroot
    rw [Settled, hchunks, (place_ofPieces fs h hvoid).2.1]
    exact hsettled

/-- A void piece leads nowhere. -/
theorem leadBy_of_isVoid (h : piece ∈ p.pieces) (hvoid : piece.isVoid = true)
    (place : List EntryName) : leadBy place piece.chars = place := by
  have hnone : piece.part? = none := Option.isNone_iff_eq_none.1 hvoid
  have hinner : innerPart? piece.chars = none := by
    obtain ⟨first, rest, heq, hfirst, hrest⟩ := p.exists_pieces_eq
    rw [heq] at h
    rcases List.mem_cons.1 h with rfl | h
    · rcases hfirst with rfl | hfirst
      · cases hnone
      · rw [hfirst] at hnone
        unfold Piece.ofChars at hnone
        split at hnone
        · next hnil =>
          rw [hnil]
          rfl
        · cases hnone
        · cases hnone
        · cases hnone
    · rw [hrest piece h] at hnone
      exact hnone
  rw [leadBy, hinner]
  rfl

/-- A directory that is made or there needs no others. -/
theorem makeNested_cons {made : FileSystem}
    (h : fs.makeDirectory p = .ok made ∨
      fs.makeDirectory p = .error .exists ∧ fs.isDirectory p = true ∧ made = fs)
    (above : List FilePath) : fs.makeNested (p :: above) = (.ok (), made) := by
  rw [makeNested]
  rcases h with h | ⟨h, hdirectory, rfl⟩
  · rw [h]
  · simp [h, hdirectory]

/-- A directory is made, or there, when those above it have been made. -/
theorem makeNested_cons_of_notFound {above : List FilePath} {fs' made : FileSystem}
    (h : fs.makeDirectory p = .error .notFound) (habove : fs.makeNested above = (.ok (), fs'))
    (h' : fs'.makeDirectory p = .ok made ∨
      fs'.makeDirectory p = .error .exists ∧ fs'.isDirectory p = true ∧ made = fs') :
    fs.makeNested (p :: above) = (.ok (), made) := by
  rw [makeNested, h, habove]
  rcases h' with h' | ⟨h', hdirectory, rfl⟩
  · simp [h']
  · simp [h', hdirectory]

/-- A void piece adds no place to those that the pieces before lead through and to. -/
theorem mem_reach_of_isVoid (fs : FileSystem) (h : p.pieces = ps ++ (piece :: after))
    (hvoid : piece.isVoid = true) (way : List EntryName) :
    way ∈ reach (fs.origin p) ((ps ++ [piece]).map (·.chars)) ↔
      way ∈ reach (fs.origin p) (ps.map (·.chars)) := by
  have hlead := leadBy_of_isVoid (p := p) (h ▸ List.mem_append_right _ (.head _)) hvoid
  rw [List.map_append, List.map_singleton, reach_concat, hlead, List.mem_append,
    List.mem_singleton, or_iff_left_iff_imp]
  rintro rfl
  exact List.mem_append_right _ (.head _)

/-- A piece adds the place to which it leads. -/
theorem mem_reach_concat (fs : FileSystem) (h : p.pieces = (ps ++ [piece]) ++ after)
    (hvoid : piece.isVoid = false) (way : List EntryName) :
    way ∈ reach (fs.origin p) ((ps ++ [piece]).map (·.chars)) ↔
      way ∈ fs.trail (ofPieces (ps ++ [piece])) ++ [fs.place (ofPieces (ps ++ [piece]))] := by
  obtain ⟨-, -, hplace, htrail⟩ := place_ofPieces fs h hvoid
  rw [List.mem_append, htrail, hplace, List.map_append, List.map_singleton, reach_concat,
    List.foldl_append, List.mem_append]
  rfl

/-- When all that a path goes through has been made, or is there, the directory at its place is
made, too. -/
theorem exists_makeNested_cons (h : fs.Settled p) (hempty : p.text ≠ "")
    (hfile : ¬ HasFile fs.root (fs.trail p ++ [fs.place p])) {above : List FilePath}
    {opened : FileSystem} (habove : fs.makeNested above = (.ok (), opened))
    (hopened : Opened fs opened (fs.trail p)) :
    ∃ made, fs.makeNested (p :: above) = (.ok (), made) ∧
      Opened fs made (fs.trail p ++ [fs.place p]) := by
  obtain ⟨htrail, hplace⟩ := not_or.1 (mt hasFile_append.2 hfile)
  have hnoFile (content : ByteArray) : fs.root.status (fs.place p) ≠ .file content :=
    fun hcontent => hplace ⟨_, .head _, content, hcontent⟩
  by_cases hall : ∀ way ∈ fs.trail p, fs.root.status way = .directory
  · obtain ⟨made, hmake, hmade⟩ := makeDirectory_of_forall h hempty hall hnoFile
    exact ⟨made, makeNested_cons hmake above, (Opened.of_forall_mem hall).concat hmade⟩
  -- A directory is missing: those above are made first, and then this one.
  · push Not at hall
    obtain ⟨way, hway, hmissing⟩ := hall
    have hplace' := place_congr hopened.workingDirectory p
    have hnoFile' (content : ByteArray) :
        opened.root.status (opened.place p) ≠ .file content := by
      rw [hplace', hopened.status]
      split
      · nofun
      · exact hnoFile content
    obtain ⟨made, hmake, hmade⟩ := makeDirectory_of_forall (hopened.settled h) hempty
      hopened.forall_mem_trail hnoFile'
    refine ⟨made, makeNested_cons_of_notFound ?_ habove hmake, ?_⟩
    · exact makeDirectory_of_missing h hempty htrail hway hmissing
    · rw [hplace'] at hmade
      exact hopened.concat hmade

/-- All directories that the first pieces of a path lead through and to are made, if there is no
file among them. -/
theorem makeNested_of_not_hasFile (hwd : fs.root.status fs.workingDirectory = .directory)
    (hpieces : p.pieces = ps ++ after)
    (hsettled : SettledFrom fs.root (fs.origin p) (ps.map (·.chars)))
    (hfile : ¬ HasFile fs.root (reach (fs.origin p) (ps.map (·.chars)))) :
    ∃ made, fs.makeNested (ancestorsOf ps.reverse) = (.ok (), made) ∧
      Opened fs made (reach (fs.origin p) (ps.map (·.chars))) := by
  induction ps using List.reverseRecOn generalizing after with
  | nil =>
    refine ⟨fs, rfl, .of_forall_mem fun way hway => ?_⟩
    rw [List.mem_singleton.1 hway]
    exact status_origin hwd p
  | append_singleton init piece ih =>
    have hinit : p.pieces = init ++ (piece :: after) := by
      rw [hpieces, List.append_assoc, List.singleton_append]
    have hfront : SettledFrom fs.root (fs.origin p) (init.map (·.chars)) := by
      rw [List.map_append] at hsettled
      exact hsettled.of_append
    rw [ancestorsOf_concat]
    cases hvoid : piece.isVoid with
    | true =>
      have hreach := mem_reach_of_isVoid fs hinit hvoid
      obtain ⟨made, hmake, hmade⟩ := ih hinit hfront (mt (hasFile_congr hreach).2 hfile)
      exact ⟨made, hmake, hmade.congr hreach⟩
    | false =>
      rw [if_neg Bool.false_ne_true]
      obtain ⟨hempty, -, -, htrail⟩ := place_ofPieces fs hpieces hvoid
      have hreach := mem_reach_concat fs hpieces hvoid
      have hnoFile := mt (hasFile_congr hreach).2 hfile
      obtain ⟨opened, habove, hopened⟩ := ih hinit hfront fun hinside =>
        hnoFile (hasFile_append.2 (.inl ((hasFile_congr htrail).2 hinside)))
      obtain ⟨made, hmake, hmade⟩ := exists_makeNested_cons
        (settled_ofPieces hpieces hvoid hsettled) hempty hnoFile habove (hopened.congr htrail)
      exact ⟨made, hmake, hmade.congr hreach⟩

/-- No directory is made where there is no directory for another reason than that those above it
are missing. -/
theorem makeNested_cons_of_error {fault : FileFault} (h : fs.makeDirectory p = .error fault)
    (hfault : fault ≠ .notFound) (hdirectory : fs.isDirectory p = false) (above : List FilePath) :
    fs.makeNested (p :: above) = (.error fault, fs) := by
  rw [makeNested, h]
  cases fault with
  | notFound => exact absurd rfl hfault
  | «exists» | notDirectory | isDirectory | notText => simp [hdirectory]

/-- Through a file no directory is made. -/
theorem makeNested_cons_of_hasFile (hwd : fs.root.status fs.workingDirectory = .directory)
    (h : fs.Settled p) (hempty : p.text ≠ "") (hfile : HasFile fs.root (fs.trail p))
    (above : List FilePath) : fs.makeNested (p :: above) = (.error .notDirectory, fs) := by
  refine makeNested_cons_of_error (makeDirectory_of_hasFile hwd h hempty hfile) nofun ?_ above
  rw [isDirectory, node, locate_of_hasFile hwd h hempty hfile]
  rfl

/-- In place of a file no directory is made. -/
theorem makeNested_cons_of_file (h : fs.Settled p) (hempty : p.text ≠ "")
    (hfile : ¬ HasFile fs.root (fs.trail p)) {content : ByteArray}
    (hcontent : fs.root.status (fs.place p) = .file content) (above : List FilePath) :
    fs.makeNested (p :: above) = (.error .exists, fs) := by
  refine makeNested_cons_of_error (makeDirectory_of_exists h hempty hfile ?_) nofun ?_ above
  · rw [hcontent]
    nofun
  · rw [isDirectory, node_of_not_hasFile h hempty hfile, Node.status_eq_file_iff.1 hcontent]

/-- Two trees have files at the same of some places. -/
def SameFiles (root root' : Node) (ways : List (List EntryName)) : Prop :=
  ∀ way ∈ ways, (∃ content, root.status way = .file content) ↔
    ∃ content, root'.status way = .file content

/-- Trees with files at the same places have one among these places or none. -/
theorem SameFiles.hasFile_iff {root root' : Node} {ways : List (List EntryName)}
    (h : SameFiles root root' ways) : HasFile root ways ↔ HasFile root' ways :=
  exists_congr fun way => and_congr_right fun hway => h way hway

/-- Neither through a file nor in place of one is a directory made, for the same reason in all trees
in which the path meets the same files. -/
theorem exists_fault_makeNested_cons {fs' : FileSystem}
    (hwd : fs.root.status fs.workingDirectory = .directory)
    (hwd' : fs'.root.status fs'.workingDirectory = .directory)
    (hsame : fs'.workingDirectory = fs.workingDirectory)
    (h : fs.Settled p) (h' : fs'.Settled p) (hempty : p.text ≠ "")
    (hfiles : SameFiles fs.root fs'.root (fs.trail p ++ [fs.place p]))
    (hfile : HasFile fs.root (fs.trail p ++ [fs.place p])) (above : List FilePath) :
    ∃ fault, fs.makeNested (p :: above) = (.error fault, fs) ∧
      fs'.makeNested (p :: above) = (.error fault, fs') := by
  obtain ⟨hinside, hend⟩ := List.forall_mem_append.1 hfiles
  have hinside : HasFile fs.root (fs.trail p) ↔ HasFile fs'.root (fs'.trail p) := by
    rw [trail_congr hsame]
    exact SameFiles.hasFile_iff hinside
  by_cases htrail : HasFile fs.root (fs.trail p)
  · exact ⟨.notDirectory, makeNested_cons_of_hasFile hwd h hempty htrail above,
      makeNested_cons_of_hasFile hwd' h' hempty (hinside.1 htrail) above⟩
  · obtain ⟨way, hway, content, hcontent⟩ := (hasFile_append.1 hfile).resolve_left htrail
    obtain ⟨content', hcontent'⟩ := (hend way hway).1 ⟨content, hcontent⟩
    rw [List.mem_singleton.1 hway] at hcontent hcontent'
    rw [← place_congr hsame] at hcontent'
    exact ⟨.exists, makeNested_cons_of_file h hempty htrail hcontent above,
      makeNested_cons_of_file h' hempty (mt hinside.2 htrail) hcontent' above⟩

/-- If there is a file among the places that the first pieces of a path lead through and to, no
directory is made, for the same reason in all trees that have files at the same of these places. -/
theorem makeNested_of_hasFile {fs' : FileSystem}
    (hwd : fs.root.status fs.workingDirectory = .directory)
    (hwd' : fs'.root.status fs'.workingDirectory = .directory)
    (hsame : fs'.workingDirectory = fs.workingDirectory)
    (hpieces : p.pieces = ps ++ after)
    (hsettled : SettledFrom fs.root (fs.origin p) (ps.map (·.chars)))
    (hsettled' : SettledFrom fs'.root (fs.origin p) (ps.map (·.chars)))
    (hfiles : SameFiles fs.root fs'.root (reach (fs.origin p) (ps.map (·.chars))))
    (hfile : HasFile fs.root (reach (fs.origin p) (ps.map (·.chars)))) :
    ∃ fault, fs.makeNested (ancestorsOf ps.reverse) = (.error fault, fs) ∧
      fs'.makeNested (ancestorsOf ps.reverse) = (.error fault, fs') := by
  induction ps using List.reverseRecOn generalizing after with
  | nil =>
    obtain ⟨way, hway, content, hcontent⟩ := hfile
    rw [List.mem_singleton.1 hway] at hcontent
    cases (status_origin hwd p).symm.trans hcontent
  | append_singleton init piece ih =>
    rw [ancestorsOf_concat]
    cases hvoid : piece.isVoid with
    | true =>
      have hinit : p.pieces = init ++ (piece :: after) := by
        rw [hpieces, List.append_assoc, List.singleton_append]
      have hreach := mem_reach_of_isVoid fs hinit hvoid
      rw [List.map_append] at hsettled hsettled'
      exact ih hinit hsettled.of_append hsettled'.of_append
        (fun way hway => hfiles way ((hreach way).2 hway)) ((hasFile_congr hreach).1 hfile)
    | false =>
      rw [if_neg Bool.false_ne_true]
      obtain ⟨hempty, -⟩ := place_ofPieces fs hpieces hvoid
      have hreach := mem_reach_concat fs hpieces hvoid
      rw [← origin_congr hsame] at hsettled'
      exact exists_fault_makeNested_cons hwd hwd' hsame
        (settled_ofPieces hpieces hvoid hsettled) (settled_ofPieces hpieces hvoid hsettled') hempty
        (fun way hway => hfiles way ((hreach way).2 hway)) ((hasFile_congr hreach).1 hfile) _

end FileSystem
end SchemaTypes
