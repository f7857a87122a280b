import SchemaTypes.Proofs.Files.Made

/-!
# Files that are written

Writing a file changes what there is at its place and at the places of the directories that it lies
in, and nothing else (`FileSystem.Written`). So a settled path whose place lies apart from that of
the file leads to what it led to before: it goes through a file or not as before
(`FileSystem.Written.sameFiles`), and what is read there is the same (`FileSystem.Written.read_eq`).
-/

namespace SchemaTypes
namespace FileSystem

open FilePath

variable {fs fs' fs'' : FileSystem} {p directory : FilePath} {way : List EntryName}
  {files files' : List (List EntryName × ByteArray)}

/-! ## What has changed -/

/-- Files have been written: they are at their places with their contents, and nothing has changed
but there and on the way there. What was a directory or a file has remained one. -/
structure Written (fs fs' : FileSystem) (files : List (List EntryName × ByteArray)) : Prop where
  workingDirectory : fs'.workingDirectory = fs.workingDirectory
  file : ∀ file ∈ files, fs'.root.status file.1 = .file file.2
  other : ∀ way, (∀ file ∈ files, ¬ way <+: file.1) → fs'.root.status way = fs.root.status way
  directory : ∀ way, fs.root.status way = .directory → fs'.root.status way = .directory
  isFile : ∀ way content, fs.root.status way = .file content →
    ∃ content', fs'.root.status way = .file content'

namespace Written

/-- If there is the same at all places, no file has been written. -/
theorem of_forall (hwd : fs'.workingDirectory = fs.workingDirectory)
    (h : ∀ way, fs'.root.status way = fs.root.status way) : Written fs fs' [] where
  workingDirectory := hwd
  file _ hfile := by cases hfile
  other way _ := h way
  directory way hway := (h way).trans hway
  isFile way content hway := ⟨content, (h way).trans hway⟩

/-- No file has been written yet. -/
theorem refl (fs : FileSystem) : Written fs fs [] :=
  of_forall rfl fun _ => rfl

/-- Files that are written after others, and not on the way to them, leave those as they are. -/
theorem trans (h : Written fs fs' files) (h' : Written fs' fs'' files')
    (hapart : ∀ file ∈ files, ∀ file' ∈ files', ¬ file.1 <+: file'.1) :
    Written fs fs'' (files ++ files') where
  workingDirectory := h'.workingDirectory.trans h.workingDirectory
  file file hfile := by
    rcases List.mem_append.1 hfile with hfile | hfile
    · exact (h'.other file.1 (hapart file hfile)).trans (h.file file hfile)
    · exact h'.file file hfile
  other way hway := by
    obtain ⟨hfiles, hfiles'⟩ := List.forall_mem_append.1 hway
    exact (h'.other way hfiles').trans (h.other way hfiles)
  directory way hway := h'.directory way (h.directory way hway)
  isFile way content hway := by
    obtain ⟨content', hway'⟩ := h.isFile way content hway
    exact h'.isFile way content' hway'

/-- In which order the files are listed says nothing. -/
theorem of_perm (h : Written fs fs' files) (hperm : files.Perm files') : Written fs fs' files' where
  workingDirectory := h.workingDirectory
  file file hfile := h.file file (hperm.mem_iff.2 hfile)
  other way hway := h.other way fun file hfile => hway file (hperm.mem_iff.1 hfile)
  directory := h.directory
  isFile := h.isFile

/-- A file that has been written lies in directories. -/
theorem status_of_prefix (h : Written fs fs' files) {file : List EntryName × ByteArray}
    (hfile : file ∈ files) (hway : way <+: file.1) (hne : way ≠ file.1) :
    fs'.root.status way = .directory :=
  (Node.eq_or_directory_of_isPrefix hway (by simp [h.file file hfile])).resolve_left hne

/-- The files are those that have been written and, at all other places, those that were there. -/
theorem status_eq_file_iff (h : Written fs fs' files) (way : List EntryName)
    (content : ByteArray) :
    fs'.root.status way = .file content ↔
      (way, content) ∈ files ∨
        (∀ file ∈ files, way ≠ file.1) ∧ fs.root.status way = .file content := by
  by_cases hway : ∃ file ∈ files, way <+: file.1
  · obtain ⟨file, hfile, hprefix⟩ := hway
    by_cases heq : way = file.1
    · subst heq
      rw [h.file file hfile]
      constructor
      · rintro ⟨⟩
        exact .inl hfile
      · rintro (hmem | ⟨hne, -⟩)
        · exact (h.file file hfile).symm.trans (h.file _ hmem)
        · exact absurd rfl (hne file hfile)
    · have hdirectory := h.status_of_prefix hfile hprefix heq
      constructor
      · intro hcontent
        cases hdirectory.symm.trans hcontent
      · rintro (hmem | ⟨-, hcontent⟩)
        · exact h.file _ hmem
        · obtain ⟨content', hcontent'⟩ := h.isFile way content hcontent
          cases hdirectory.symm.trans hcontent'
  · push Not at hway
    rw [h.other way hway]
    constructor
    · intro hcontent
      exact .inr ⟨fun file hfile heq => hway file hfile (heq ▸ List.prefix_rfl), hcontent⟩
    · rintro (hmem | ⟨-, hcontent⟩)
      · exact absurd List.prefix_rfl (hway _ hmem)
      · exact hcontent

/-- A program goes on working in a directory. -/
theorem status_workingDirectory (h : Written fs fs' files)
    (hwd : fs.root.status fs.workingDirectory = .directory) :
    fs'.root.status fs'.workingDirectory = .directory := by
  rw [h.workingDirectory]
  exact h.directory _ hwd

/-- A settled path remains settled. -/
theorem settled (h : Written fs fs' files) (hp : fs.Settled p) : fs'.Settled p := by
  rw [Settled, origin_congr h.workingDirectory]
  exact hp.mono h.directory

/-- A settled path goes through the same files as before, if its place lies behind none that has
been written. -/
theorem sameFiles (h : Written fs fs' files) (hp : fs.Settled p)
    (hapart : ∀ file ∈ files, ¬ file.1 <+: fs.place p) :
    SameFiles fs.root fs'.root (fs.trail p) := by
  intro way hway
  constructor
  · rintro ⟨content, hcontent⟩
    exact h.isFile way content hcontent
  · rintro ⟨content, hcontent⟩
    rcases directory_or_prefix_of_mem_trail hp hway with hdirectory | hprefix
    · cases (h.directory way hdirectory).symm.trans hcontent
    · rcases (h.status_eq_file_iff way content).1 hcontent with hfile | ⟨-, hfile⟩
      · exact absurd hprefix (hapart _ hfile)
      · exact ⟨content, hfile⟩

/-- What is read at a settled path is the same as before, if its place lies apart from the files
that have been written. -/
theorem read_eq (h : Written fs fs' files) (hwd : fs.root.status fs.workingDirectory = .directory)
    (hp : fs.Settled p)
    (hapart : ∀ file ∈ files, ¬ file.1 <+: fs.place p ∧ ¬ fs.place p <+: file.1) :
    fs'.read p = fs.read p := by
  by_cases hempty : p.text = ""
  · have hread (fs : FileSystem) : fs.read p = .error .notFound := by
      rw [read, node, locate, if_pos hempty]
      rfl
    rw [hread, hread]
  · have hiff := (h.sameFiles hp fun file hfile => (hapart file hfile).1).hasFile_iff
    have htrail := trail_congr h.workingDirectory p
    by_cases hfile : HasFile fs.root (fs.trail p)
    · have hread {fs : FileSystem} (hlocate : fs.locate p = .error .notDirectory) :
          fs.read p = .error .notDirectory := by
        rw [read, node, hlocate]
        rfl
      rw [hread (locate_of_hasFile hwd hp hempty hfile),
        hread (locate_of_hasFile (h.status_workingDirectory hwd) (h.settled hp) hempty
          (by rw [htrail]; exact hiff.1 hfile))]
    · rw [read_of_not_hasFile hp hempty hfile,
        read_of_not_hasFile (h.settled hp) hempty (by rw [htrail]; exact mt hiff.2 hfile),
        place_congr h.workingDirectory,
        h.other _ fun file hmem => (hapart file hmem).2]

end Written

/-! ## Paths that end with a name -/

/-- A path that ends with a name is not empty. -/
theorem ne_of_endsNamed (h : p.EndsNamed) : p.text ≠ "" := by
  intro hempty
  obtain ⟨init, name, hparts⟩ := h.exists_parts_eq
  rw [parts_of_empty hempty] at hparts
  simp at hparts

/-- What a path that ends with a name goes through is what leads to its parent. -/
theorem trail_of_pieces {ps : List Piece} {last : Piece} (h : p.pieces = ps ++ [last]) :
    fs.trail p = reach (fs.origin p) (ps.map (·.chars)) := by
  rw [trail, ← map_chars_pieces, h, List.map_append, List.map_singleton, trailFrom_concat]
  rfl

/-- What a settled path that ends with a name goes through is a directory that is there or lies
above its place. -/
theorem directory_or_above_of_mem_trail (h : fs.Settled p) (hnamed : p.EndsNamed)
    (hway : way ∈ fs.trail p) :
    fs.root.status way = .directory ∨ way <+: fs.place p ∧ way ≠ fs.place p := by
  obtain ⟨css, name, hchunks⟩ := hnamed
  have hslash := slash_notMem_chunks p
  rw [Settled, hchunks] at h
  rw [hchunks] at hslash
  rw [trail, hchunks, trailFrom_concat] at hway
  have hfront : fs.root.status way = .directory ∨ way <+: css.foldl leadBy (fs.origin p) := by
    rcases List.mem_append.1 hway with hway | hway
    · exact directory_or_prefix_of_mem_trailFrom h.of_append
        (fun cs hcs => hslash cs (List.mem_append_left _ hcs)) hway
    · exact .inr (List.mem_singleton.1 hway ▸ List.prefix_rfl)
  refine hfront.imp id fun habove => ?_
  rw [place_of_chunks hchunks]
  refine ⟨habove.trans (List.prefix_append _ _), fun heq => ?_⟩
  have hlength := habove.length_le
  rw [heq, List.length_append, List.length_singleton] at hlength
  omega

/-! ## Writing -/

/-- Behind directories a file is written where no directory is. -/
theorem write_of_forall (h : fs.Settled p) (hnamed : p.EndsNamed)
    (hall : ∀ way ∈ fs.trail p, fs.root.status way = .directory)
    (hplace : fs.root.status (fs.place p) ≠ .directory) (content : ByteArray) :
    fs.write p content = .ok (fs.put (fs.place p) (.file content)) := by
  have hlocate := locate_of_not_hasFile h (ne_of_endsNamed hnamed) (not_hasFile_of_forall hall)
  obtain ⟨css, name, hchunks⟩ := hnamed
  rw [write, hlocate, vacancy?_of_forall hchunks hall]
  cases hstatus : fs.root.status (fs.place p) with
  | missing => rfl
  | directory => exact absurd hstatus hplace
  | file old => simp only [Node.status_eq_file_iff.1 hstatus]

/-- No file is written in place of a directory. -/
theorem write_of_directory (h : fs.Settled p) (hnamed : p.EndsNamed)
    (hall : ∀ way ∈ fs.trail p, fs.root.status way = .directory)
    (hplace : fs.root.status (fs.place p) = .directory) (content : ByteArray) :
    fs.write p content = .error .isDirectory := by
  rw [write, locate_of_not_hasFile h (ne_of_endsNamed hnamed) (not_hasFile_of_forall hall), hplace]
  obtain ⟨entries, hentries⟩ := Node.status_eq_directory_iff.1 hplace
  simp only [hentries]

namespace Opened

variable {made : FileSystem}

/-- There is what there was at the place of the path. -/
theorem status_place (h : Opened fs made (fs.trail p)) (hp : fs.Settled p) (hnamed : p.EndsNamed) :
    made.root.status (made.place p) = fs.root.status (fs.place p) := by
  rw [place_congr h.workingDirectory, h.status]
  split
  · next hmem =>
    exact ((directory_or_above_of_mem_trail hp hnamed hmem).resolve_right fun h => h.2 rfl).symm
  · rfl

/-- Nothing has changed, if there is anything at the place of the path. -/
theorem written (h : Opened fs made (fs.trail p)) (hp : fs.Settled p)
    (hplace : fs.root.status (fs.place p) = .directory) : Written fs made [] := by
  refine .of_forall h.workingDirectory fun way => ?_
  rw [h.status]
  split
  · next hmem =>
    rcases directory_or_prefix_of_mem_trail hp hmem with hdirectory | hprefix
    · exact hdirectory.symm
    · rcases Node.eq_or_directory_of_isPrefix hprefix (by rw [hplace]; simp) with rfl | hdirectory
      · exact hplace.symm
      · exact hdirectory.symm
  · rfl

/-- A file that is put at the place of the path is all that has been written. -/
theorem written_put (h : Opened fs made (fs.trail p)) (hp : fs.Settled p) (hnamed : p.EndsNamed)
    (hfile : ¬ HasFile fs.root (fs.trail p))
    (hplace : fs.root.status (fs.place p) ≠ .directory) (content : ByteArray) :
    Written fs (made.put (made.place p) (.file content)) [(fs.place p, content)] := by
  have hput := status_put_place (show (Node.file content).entries = [] from rfl) hnamed
    h.forall_mem_trail (by rwa [h.status_place hp hnamed])
  rw [place_congr h.workingDirectory] at hput ⊢
  constructor
  · exact h.workingDirectory
  · intro file hmem
    rw [List.mem_singleton.1 hmem, hput, if_pos rfl]
    rfl
  · intro way hway
    have hprefix := hway _ (.head _)
    have hne : way ≠ fs.place p := fun heq => hprefix (heq ▸ List.prefix_rfl)
    rw [hput, if_neg hne, h.status]
    split
    · next hmem =>
      exact ((directory_or_prefix_of_mem_trail hp hmem).resolve_right hprefix).symm
    · rfl
  · intro way hway
    have hne : way ≠ fs.place p := fun heq => hplace (heq ▸ hway)
    rw [hput, if_neg hne, h.status, hway, ite_self]
  · intro way old hway
    by_cases heq : way = fs.place p
    · exact ⟨content, by rw [hput, if_pos heq]; rfl⟩
    · refine ⟨old, ?_⟩
      rw [hput, if_neg heq, h.status, if_neg fun hmem => hfile ⟨way, hmem, old, hway⟩, hway]

end Opened

/-- The directory that a path lies in is made, if the path goes through no file. -/
theorem makeNested_parent_of_not_hasFile
    (hwd : fs.root.status fs.workingDirectory = .directory) (h : fs.Settled p)
    (hnamed : p.EndsNamed) (hparent : p.parent? = some directory)
    (hfile : ¬ HasFile fs.root (fs.trail p)) :
    ∃ made, fs.makeNested directory.ancestors = (.ok (), made) ∧
      Opened fs made (fs.trail p) := by
  obtain ⟨other, ps, last, hother, hpieces, hancestors⟩ := hnamed.exists_parent?
  cases hparent.symm.trans hother
  rw [Settled, ← map_chars_pieces, hpieces, List.map_append] at h
  rw [trail_of_pieces hpieces] at hfile
  rw [hancestors, trail_of_pieces hpieces]
  exact makeNested_of_not_hasFile hwd hpieces h.of_append hfile

/-- If a path goes through a file, the directory that it lies in is not made, for the same reason
in all trees in which it goes through the same files. -/
theorem makeNested_parent_of_hasFile
    (hwd : fs.root.status fs.workingDirectory = .directory)
    (hwd' : fs'.root.status fs'.workingDirectory = .directory)
    (hsame : fs'.workingDirectory = fs.workingDirectory)
    (h : fs.Settled p) (h' : fs'.Settled p)
    (hnamed : p.EndsNamed) (hparent : p.parent? = some directory)
    (hfiles : SameFiles fs.root fs'.root (fs.trail p)) (hfile : HasFile fs.root (fs.trail p)) :
    ∃ fault, fs.makeNested directory.ancestors = (.error fault, fs) ∧
      fs'.makeNested directory.ancestors = (.error fault, fs') := by
  obtain ⟨other, ps, last, hother, hpieces, hancestors⟩ := hnamed.exists_parent?
  cases hparent.symm.trans hother
  rw [Settled, ← map_chars_pieces, hpieces, List.map_append] at h h'
  rw [origin_congr hsame] at h'
  rw [trail_of_pieces hpieces] at hfiles hfile
  rw [hancestors]
  exact makeNested_of_hasFile hwd hwd' hsame hpieces h.of_append h'.of_append hfiles hfile

end FileSystem
end SchemaTypes
