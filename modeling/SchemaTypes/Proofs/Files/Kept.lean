import SchemaTypes.Proofs.Files.Written

/-!
# Files that are kept

Whatever directories are made and whatever file is written, directories remain and so do all other
files (`FileSystem.Keeps`), along whichever paths this is done and whether it succeeds or not. A
file that was written is read back from its path (`FileSystem.Holds.read_eq`) as long as nothing is
written to its place (`FileSystem.Holds.of_keeps`).
-/

namespace SchemaTypes
namespace FileSystem

open FilePath

variable {fs fs' fs'' : FileSystem} {p : FilePath} {way : List EntryName} {content : ByteArray}
  {ways ways' : List (List EntryName)}

/-- Directories remain, and so do files but for those at some places. -/
structure Keeps (fs fs' : FileSystem) (ways : List (List EntryName)) : Prop where
  workingDirectory : fs'.workingDirectory = fs.workingDirectory
  directory : ∀ way, fs.root.status way = .directory → fs'.root.status way = .directory
  file : ∀ way content, way ∉ ways → fs.root.status way = .file content →
    fs'.root.status way = .file content

namespace Keeps

/-- What does not change is kept. -/
theorem refl (fs : FileSystem) (ways : List (List EntryName)) : Keeps fs fs ways :=
  ⟨rfl, fun _ => id, fun _ _ _ => id⟩

/-- What is kept twice is kept. -/
theorem trans (h : Keeps fs fs' ways) (h' : Keeps fs' fs'' ways') :
    Keeps fs fs'' (ways ++ ways') where
  workingDirectory := h'.workingDirectory.trans h.workingDirectory
  directory way hway := h'.directory way (h.directory way hway)
  file way content hnot hway := by
    rw [List.mem_append, not_or] at hnot
    exact h'.file way content hnot.2 (h.file way content hnot.1 hway)

/-- Where nothing was, there was no file that could be lost. -/
theorem of_missing (h : Keeps fs fs' [way]) (hmissing : fs.root.status way = .missing) :
    Keeps fs fs' [] where
  workingDirectory := h.workingDirectory
  directory := h.directory
  file other content _ hother := by
    refine h.file other content (fun hmem => ?_) hother
    rw [List.mem_singleton.1 hmem, hmissing] at hother
    cases hother

end Keeps

/-! ## New entries -/

/-- A place for a new entry is that of a path with a name at its end, behind directories only. -/
theorem of_vacancy? (h : fs.vacancy? p = some way) :
    p.EndsNamed ∧ (∀ mid ∈ fs.trail p, fs.root.status mid = .directory) ∧ way = fs.place p := by
  have hall : ∀ mid ∈ fs.trail p, fs.root.status mid = .directory := by
    intro mid hmid
    by_contra hstatus
    rw [vacancy?_eq_none hmid hstatus] at h
    cases h
  obtain ⟨css, last, hchunks⟩ :=
    (List.eq_nil_or_concat p.chunks).resolve_left p.chunks_ne_nil
  rw [List.concat_eq_append] at hchunks
  have hnamed : p.EndsNamed := by
    rw [vacancy?_eq hchunks] at h
    obtain ⟨name, hname, -⟩ := Option.bind_eq_some_iff.1 h
    unfold EntryName.ofText? at hname
    split at hname
    · next hstep => exact ⟨css, ⟨_, hstep⟩, by rw [hchunks, String.toList_ofList]⟩
    · cases hname
  obtain ⟨css, name, hchunks⟩ := id hnamed
  rw [vacancy?_of_forall hchunks hall] at h
  exact ⟨hnamed, hall, (Option.some.inj h).symm⟩

/-- A path that goes through directories only leads to its place, if there is anything. -/
theorem locate_of_forall (hempty : p.text ≠ "")
    (hall : ∀ mid ∈ fs.trail p, fs.root.status mid = .directory) :
    fs.locate p =
      match fs.root.status (fs.place p) with
      | .missing => .error .notFound
      | _ => .ok (fs.place p) := by
  have hnone : (fs.trail p).find? (fun mid => !(fs.root.status mid).isDirectory) = none := by
    refine List.find?_eq_none.2 fun mid hmid => ?_
    simp [hall mid hmid, Status.isDirectory]
  rw [locate_eq hempty]
  unfold ending
  cases fs.root.status (fs.place p) <;> simp only [hnone]

/-- If it leads nowhere, nothing is there. -/
theorem status_place_of_locate_eq_error {fault : FileFault} (hempty : p.text ≠ "")
    (hall : ∀ mid ∈ fs.trail p, fs.root.status mid = .directory)
    (h : fs.locate p = .error fault) : fs.root.status (fs.place p) = .missing := by
  rw [locate_of_forall hempty hall] at h
  cases hstatus : fs.root.status (fs.place p) with
  | missing => rfl
  | file _ | directory =>
    rw [hstatus] at h
    cases h

/-- A new entry in a directory costs no more than the file in its place. -/
theorem keeps_put {node : Node} (hnode : node.entries = []) (hnamed : p.EndsNamed)
    (hall : ∀ mid ∈ fs.trail p, fs.root.status mid = .directory)
    (hplace : fs.root.status (fs.place p) ≠ .directory) :
    Keeps fs (fs.put (fs.place p) node) [fs.place p] where
  workingDirectory := rfl
  directory way hway := by
    have hne : way ≠ fs.place p := fun heq => hplace (heq ▸ hway)
    rw [status_put_place hnode hnamed hall hplace, if_neg hne, hway]
  file way content hnot hway := by
    rw [List.mem_singleton] at hnot
    rw [status_put_place hnode hnamed hall hplace, if_neg hnot, hway]

/-! ## Directories -/

/-- A directory that is made costs nothing. -/
theorem keeps_of_makeDirectory {made : FileSystem} (h : fs.makeDirectory p = .ok made) :
    Keeps fs made [] := by
  unfold makeDirectory at h
  split at h
  · cases h
  · next hlocate hvacancy =>
    cases h
    obtain ⟨hnamed, hall, rfl⟩ := of_vacancy? hvacancy
    have hmissing := status_place_of_locate_eq_error (ne_of_endsNamed hnamed) hall hlocate
    exact (keeps_put rfl hnamed hall (by simp [hmissing])).of_missing hmissing
  · cases h

/-- Neither do directories in each other, whether all can be made or not. -/
theorem keeps_makeNested (ps : List FilePath) (fs : FileSystem) :
    Keeps fs (fs.makeNested ps).2 [] := by
  induction ps generalizing fs with
  | nil => exact .refl fs []
  | cons p above ih =>
    unfold makeNested
    split
    · next hmake => exact keeps_of_makeDirectory hmake
    · have habove := ih fs
      split
      · next hnested => rwa [hnested] at habove
      · next hnested =>
        rw [hnested] at habove
        split
        · next hmake => exact habove.trans (keeps_of_makeDirectory hmake)
        · exact habove
    · exact .refl fs []

/-! ## Files -/

/-- There is a file at a path, with the given content. -/
structure Holds (fs : FileSystem) (p : FilePath) (content : ByteArray) : Prop where
  endsNamed : p.EndsNamed
  trail : ∀ way ∈ fs.trail p, fs.root.status way = .directory
  place : fs.root.status (fs.place p) = .file content

/-- A file stays as it is unless something is done to its place. -/
theorem Holds.of_keeps (h : Holds fs p content) (hkeeps : Keeps fs fs' ways)
    (hnot : fs.place p ∉ ways) : Holds fs' p content where
  endsNamed := h.endsNamed
  trail way hway := by
    rw [trail_congr hkeeps.workingDirectory] at hway
    exact hkeeps.directory way (h.trail way hway)
  place := by
    rw [place_congr hkeeps.workingDirectory]
    exact hkeeps.file _ content hnot h.place

/-- A text in a file is what is read there. -/
theorem Holds.read_eq {text : String} (h : Holds fs p text.toUTF8) : fs.read p = .ok text := by
  have hlocate : fs.locate p = .ok (fs.place p) := by
    rw [locate_of_forall (ne_of_endsNamed h.endsNamed) h.trail, h.place]
  have hnode := node_eq_ok_iff.2 ⟨_, hlocate, Node.status_eq_file_iff.1 h.place⟩
  have htext : String.fromUTF8? text.toUTF8 = some text := dif_pos text.isValidUTF8
  rw [read, hnode]
  simp only [bind, Except.bind, htext]
  rfl

/-- A file that is written is there afterwards, and nothing else has been lost. -/
theorem holds_of_write {after : FileSystem} (hnamed : p.EndsNamed)
    (h : fs.write p content = .ok after) :
    Holds after p content ∧ Keeps fs after [fs.place p] := by
  have hput (hall : ∀ way ∈ fs.trail p, fs.root.status way = .directory)
      (hplace : fs.root.status (fs.place p) ≠ .directory) :
      Holds (fs.put (fs.place p) (.file content)) p content ∧
        Keeps fs (fs.put (fs.place p) (.file content)) [fs.place p] := by
    have hkeeps : Keeps fs (fs.put (fs.place p) (.file content)) [fs.place p] :=
      keeps_put rfl hnamed hall hplace
    refine ⟨⟨hnamed, fun way hway => ?_, ?_⟩, hkeeps⟩
    · rw [trail_congr hkeeps.workingDirectory] at hway
      exact hkeeps.directory way (hall way hway)
    · rw [place_congr hkeeps.workingDirectory, status_put_place rfl hnamed hall hplace, if_pos rfl]
      rfl
  unfold write at h
  split at h
  · next way _ hlocate =>
    rw [locate_eq (ne_of_endsNamed hnamed)] at hlocate
    obtain ⟨rfl, -, hall⟩ := eq_of_ending_eq_ok hlocate
    split at h
    · cases h
    · next hother =>
      cases h
      refine hput hall fun hdirectory => ?_
      obtain ⟨entries, hentries⟩ := Node.status_eq_directory_iff.1 hdirectory
      exact hother entries hentries
  · next hlocate hvacancy =>
    cases h
    obtain ⟨-, hall, rfl⟩ := of_vacancy? hvacancy
    have hmissing := status_place_of_locate_eq_error (ne_of_endsNamed hnamed) hall hlocate
    exact hput hall (by simp [hmissing])
  · cases h

end FileSystem
end SchemaTypes
