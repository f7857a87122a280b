import SchemaTypes.Proofs.Except
import SchemaTypes.Proofs.Files.Below
import SchemaTypes.Proofs.Files.Walk

/-!
# Modules mirror their sources

What an input finds lies below the directory that it names, and the way from there is where the
module of the document goes (`Source.mirrored_of_ofInput`). This holds unless the directory is
written with a dot in front: what is found is written without it, so the way is lost and only the
name of the file is left (`Source.flattened_of_ofInput`).
-/

namespace SchemaTypes

open FilePath

variable {fs : FileSystem} {pattern input : String} {path directory : FilePath}

namespace Source

open Glob

/-! ## Modules -/

/-- A file whose name has the ending of documents. -/
def IsDocument (p : FilePath) : Prop :=
  ∃ front, p.fileName? = some (front ++ ".json")

/-- The sources of an input that lie below the directory with the given parts and whose modules go
where they lie below it, each to a file of its own. -/
structure Mirrored (fs : FileSystem) (top : List PathPart) (sources : List Source) : Prop where
  /-- A source is told where it lies below the directory. -/
  parts_path : ∀ source ∈ sources, source.path.parts = top ++ source.relative.parts
  parts_relative : ∀ source ∈ sources, source.relative.parts ≠ []
  isAbsolute_relative : ∀ source ∈ sources, source.relative.isAbsolute = false
  /-- Modules of different documents go to different files. -/
  moduleFile_ne : ∀ source ∈ sources, ∀ other ∈ sources,
    IsDocument source.path → IsDocument other.path →
      ∀ way, fs.locate source.path = .ok way → ∀ way', fs.locate other.path = .ok way' →
        way ≠ way' → ∀ directory : FilePath,
          (directory.moduleFile source.relative).same (directory.moduleFile other.relative) = false

/-- Sources that are told where they lie below one directory have modules in different files. -/
theorem mirrored_of_forall {top : List PathPart} {sources : List Source}
    (h : ∀ source ∈ sources, source.path.parts = top ++ source.relative.parts ∧
      source.relative.parts ≠ [] ∧ source.relative.isAbsolute = false) :
    Mirrored fs top sources where
  parts_path source hsource := (h source hsource).1
  parts_relative source hsource := (h source hsource).2.1
  isAbsolute_relative source hsource := (h source hsource).2.2
  moduleFile_ne := by
    have hname (source : Source) (hsource : source ∈ sources) (hjson : IsDocument source.path) :
        ∃ init, ∃ name : EntryName, source.relative.parts = init ++ [.name name.text] ∧
          ∃ front, name.text = front ++ ".json" := by
      obtain ⟨hparts, hne, -⟩ := h source hsource
      obtain ⟨front, hfront⟩ := hjson
      rw [fileName?, hparts, List.getLast?_append_of_ne_nil _ hne] at hfront
      split at hfront
      · next s hlast =>
        obtain ⟨init, hinit⟩ := List.getLast?_eq_some_iff.1 hlast
        obtain ⟨name, rfl⟩ : ∃ entry : EntryName, entry.text = s := by
          refine exists_entryName (p := source.relative) ?_
          rw [hinit]
          exact List.mem_append_right _ (.head _)
        exact ⟨init, name, hinit, front, Option.some.inj hfront⟩
      · cases hfront
    intro source hsource other hother hjson hjson' way hway way' hway' hne directory
    rw [same, decide_eq_false_iff_not]
    intro heq
    obtain ⟨init, name, hparts, hending⟩ := hname source hsource hjson
    obtain ⟨init', name', hparts', hending'⟩ := hname other hother hjson'
    have hmoves := moves_eq_of_parts_moduleFile hparts hparts' (h source hsource).2.2
      (h other hother).2.2 hending hending' heq
    have hpaths : source.path.moves = other.path.moves := by
      rw [moves, moves, (h source hsource).1, (h other hother).1, List.filter_append,
        List.filter_append]
      exact congrArg (_ ++ ·) hmoves
    have hlocate := FileSystem.locate_eq_of_moves_eq hway hway' hpaths
    rw [hway, hway'] at hlocate
    exact hne (Except.ok.inj hlocate)

/-! ## Inputs -/

variable {inputs : List String} {sources : List Source} {source : Source}

/-- The sources that a pattern names are the files that it finds. -/
theorem exists_of_ofPattern (h : ofPattern fs pattern = .ok sources) :
    ∃ glob, parse pattern = .ok glob ∧
      sources = ((glob.paths fs).filter fs.isFile).map (found (base ⟨pattern⟩)) := by
  obtain ⟨glob, hglob, h⟩ := Except.bind_eq_ok_iff.1 h
  refine ⟨glob, Except.mapError_eq_ok_iff.1 hglob, ?_⟩
  simp only at h
  split at h
  · cases h
  · cases h
    rfl

/-- The sources in a directory are what the pattern for the documents below it finds. -/
theorem ofDirectory_eq_ok_iff : ofDirectory fs input = .ok sources ↔
    ∃ glob, parse (nested input) = .ok glob ∧ sources = (glob.paths fs).map (found ⟨input⟩) := by
  rw [ofDirectory, Except.bind_eq_ok_iff]
  refine exists_congr fun glob => and_congr Except.mapError_eq_ok_iff ?_
  constructor
  · intro h
    cases h
    rfl
  · rintro rfl
    rfl

/-- The empty path is no directory. -/
theorem ne_of_isDirectory (h : fs.isDirectory ⟨input⟩ = true) : input ≠ "" := by
  rintro rfl
  cases h

/-- What an input finds lies below the directory that the input names, if that is not written with
a dot in front. -/
theorem mirrored_of_ofInput (h : ofInput fs input = .ok sources)
    (hmany : isPattern input = true ∨ fs.isDirectory ⟨input⟩ = true)
    (hhere : (top input).head? ≠ some .here) : Mirrored fs (top input) sources := by
  refine mirrored_of_forall fun source hsource => ?_
  unfold ofInput at h
  split at h
  · next hspecial =>
    obtain ⟨glob, hglob, rfl⟩ := exists_of_ofPattern h
    obtain ⟨path, hpath, rfl⟩ := List.mem_map.1 hsource
    obtain ⟨hpath, hfile⟩ := List.mem_filter.1 hpath
    obtain ⟨way, heq, hway⟩ := exists_found_eq hglob hspecial hhere hpath
      (FileSystem.endsNamed_of_isFile hfile) (parts_base input)
    rwa [heq]
  · next hspecial =>
    have hplain := Bool.eq_false_iff.2 hspecial
    have hdirectory := hmany.resolve_left hspecial
    rw [if_pos hdirectory] at h
    obtain ⟨glob, hglob, rfl⟩ := ofDirectory_eq_ok_iff.1 h
    obtain ⟨path, hpath, rfl⟩ := List.mem_map.1 hsource
    have hnested : isPattern (nested input) = true := by
      simp [isPattern, nested]
    have hparts := top_nested (ne_of_isDirectory hdirectory) hplain
    have htop := hparts.trans (top_of_isPattern_eq_false hplain).symm
    rw [← htop] at hhere
    obtain ⟨way, heq, hway⟩ := exists_found_eq hglob hnested hhere hpath
      (endsNamed_of_mem_paths_nested hplain hglob hpath) hparts.symm
    rw [heq, ← htop]
    exact hway

/-- The source at a path has that path. -/
@[simp] theorem path_found (directory path : FilePath) : (found directory path).path = path := by
  unfold found
  split <;> rfl

/-- If the directory that an input names is written with a dot in front, only the name counts of
what is found below it. -/
theorem flattened_of_ofInput (h : ofInput fs input = .ok sources)
    (hmany : isPattern input = true ∨ fs.isDirectory ⟨input⟩ = true)
    (hhere : (top input).head? = some .here) (hsource : source ∈ sources)
    (hpath : isPattern input = false ∨ .here ∉ source.path.parts) :
    ∃ name, source.path.fileName? = some name ∧ source.relative = ⟨name⟩ := by
  unfold ofInput at h
  split at h
  · next hspecial =>
    obtain ⟨glob, hglob, rfl⟩ := exists_of_ofPattern h
    obtain ⟨path, hfile, rfl⟩ := List.mem_map.1 hsource
    rw [path_found] at hpath ⊢
    rw [← parts_base] at hhere
    obtain ⟨name, hname, heq⟩ := found_of_here hhere (hpath.resolve_left (by simp [hspecial]))
      (FileSystem.endsNamed_of_isFile (List.mem_filter.1 hfile).2)
    exact ⟨name, hname, by rw [heq]⟩
  · next hspecial =>
    have hplain := Bool.eq_false_iff.2 hspecial
    rw [if_pos (hmany.resolve_left hspecial)] at h
    obtain ⟨glob, hglob, rfl⟩ := ofDirectory_eq_ok_iff.1 h
    obtain ⟨path, hmem, rfl⟩ := List.mem_map.1 hsource
    rw [path_found]
    rw [top_of_isPattern_eq_false hplain] at hhere
    obtain ⟨name, hname, heq⟩ := found_of_here hhere
      (here_notMem_of_mem_paths_nested hplain hglob hmem)
      (endsNamed_of_mem_paths_nested hplain hglob hmem)
    exact ⟨name, hname, by rw [heq]⟩

/-- Of sources with one path the first is kept. -/
theorem mem_distinctFrom {first : Source} {rest : List Source}
    (h : source ∈ distinctFrom first rest) : source ∈ first :: rest := by
  induction rest generalizing first with
  | nil => exact h
  | cons next rest ih =>
    rw [distinctFrom] at h
    split at h
    · rcases List.mem_cons.1 (ih h) with rfl | h
      · exact .head _
      · exact .tail _ (.tail _ h)
    · rcases List.mem_cons.1 h with rfl | h
      · exact .head _
      · exact .tail _ (ih h)

/-- Of sources with one path one is kept. -/
theorem exists_mem_distinctFrom {first : Source} {rest : List Source}
    (h : source ∈ first :: rest) :
    ∃ kept ∈ distinctFrom first rest, kept.path.same source.path = true := by
  simp only [same, decide_eq_true_iff]
  induction rest generalizing first source with
  | nil =>
    rw [List.mem_singleton.1 h]
    exact ⟨first, .head _, rfl⟩
  | cons next rest ih =>
    rw [distinctFrom]
    split
    · next hsame =>
      rcases List.mem_cons.1 h with rfl | h
      · exact ih (.head _)
      · rcases List.mem_cons.1 h with rfl | h
        · obtain ⟨kept, hkept, heq⟩ := ih (List.mem_cons_self : first ∈ first :: rest)
          exact ⟨kept, hkept, heq.trans (of_decide_eq_true hsame)⟩
        · exact ih (.tail _ h)
    · rcases List.mem_cons.1 h with rfl | h
      · exact ⟨_, .head _, rfl⟩
      · obtain ⟨kept, hkept, heq⟩ := ih h
        exact ⟨kept, .tail _ hkept, heq⟩

/-- The sources of several inputs are sources of these, one for each path. -/
theorem exists_of_ofInputs (h : ofInputs fs inputs = .ok sources) :
    ∃ found, inputs.mapM (ofInput fs) = .ok found ∧
      (∀ source ∈ sources, source ∈ found.flatten) ∧
        ∀ source ∈ found.flatten, ∃ kept ∈ sources, kept.path.same source.path = true := by
  obtain ⟨found, hfound, h⟩ := Except.bind_eq_ok_iff.1 h
  cases h
  refine ⟨found, hfound, ?_⟩
  have hmem (source : Source) :
      source ∈ found.flatten.mergeSort (fun a b => !b.lt a) ↔ source ∈ found.flatten :=
    List.mem_mergeSort
  generalize found.flatten.mergeSort (fun a b => !b.lt a) = sorted at hmem
  cases sorted with
  | nil => exact ⟨nofun, fun source hsource => by cases (hmem source).2 hsource⟩
  | cons first rest =>
    exact ⟨fun source hsource => (hmem source).1 (mem_distinctFrom hsource),
      fun source hsource => exists_mem_distinctFrom ((hmem source).2 hsource)⟩

/-- What each input that is a pattern or a directory contributes to the sources mirrors what lies
below the directory that the input names, unless that is written with a dot in front: then only the
names of the files are left. -/
theorem mirrored_or_flattened (h : ofInputs fs inputs = .ok sources) :
    (∀ source ∈ sources, ∃ input ∈ inputs, ∃ found,
      ofInput fs input = .ok found ∧ source ∈ found) ∧
    ∀ input ∈ inputs, isPattern input = true ∨ fs.isDirectory ⟨input⟩ = true →
      ∃ found, ofInput fs input = .ok found ∧
        (∀ source ∈ found, ∃ kept ∈ sources, kept.path.same source.path = true) ∧
        ((top input).head? ≠ some .here → Mirrored fs (top input) found) ∧
        ((top input).head? = some .here → ∀ source ∈ found,
          isPattern input = false ∨ .here ∉ source.path.parts →
            ∃ name, source.path.fileName? = some name ∧ source.relative = ⟨name⟩) := by
  obtain ⟨lists, hlists, hsources, hkept⟩ := exists_of_ofInputs h
  refine ⟨fun source hsource => ?_, fun input hinput hmany => ?_⟩
  · obtain ⟨found, hfound, hmem⟩ := List.mem_flatten.1 (hsources source hsource)
    obtain ⟨input, hinput, hof⟩ := Except.exists_of_mem_mapM hlists hfound
    exact ⟨input, hinput, found, hof, hmem⟩
  · obtain ⟨found, hfound, hof⟩ := Except.exists_of_mem_of_mapM hlists hinput
    exact ⟨found, hof,
      fun source hsource => hkept source (List.mem_flatten.2 ⟨found, hfound, hsource⟩),
      mirrored_of_ofInput hof hmany,
      fun hhere source hsource => flattened_of_ofInput hof hmany hhere hsource⟩

/-- The directory `in` with two documents of one name, one of them in a directory of its own. -/
def namesakes : FileSystem where
  root := .directory [
    (⟨"in", by decide⟩, .directory [
      (⟨"a", by decide⟩, .directory [(⟨"x.json", by decide⟩, .file "{}".toUTF8)]),
      (⟨"x.json", by decide⟩, .file "{}".toUTF8)])]
  workingDirectory := []

/-- The source of a document below the directory `in`. -/
def namesake (relative : String) : Source :=
  ⟨⟨"in/" ++ relative⟩, ⟨relative⟩⟩

/-- The documents below the directory `in` are told where they lie below it. -/
theorem ofInput_namesakes :
    ofInput namesakes "in" = .ok [namesake "a/x.json", namesake "x.json"] := by
  show ofDirectory namesakes "in" = _
  refine ofDirectory_eq_ok_iff.2
    ⟨⟨.here, [.entry "in", .anywhere ([.many] ++ ".json".toList.map .char)], false⟩, by cbv, ?_⟩
  rfl

/-- They are the sources of this input. -/
theorem ofInputs_namesakes :
    ofInputs namesakes ["in"] = .ok [namesake "a/x.json", namesake "x.json"] := by
  have hsorted : [namesake "a/x.json", namesake "x.json"].Pairwise
      fun a b => (!b.lt a) = true := by decide
  have hfound : ["in"].mapM (ofInput namesakes) =
      .ok [[namesake "a/x.json", namesake "x.json"]] := by
    rw [List.mapM_cons, ofInput_namesakes]
    rfl
  rw [ofInputs, hfound]
  exact congrArg (Except.ok ∘ distinct) (List.mergeSort_of_pairwise hsorted)

/-- The modules of the documents below the directory `in` go to different files. -/
theorem mirrored_namesakes :
    ofInputs namesakes ["in"] = .ok [namesake "a/x.json", namesake "x.json"] ∧
      Mirrored namesakes (top "in") [namesake "a/x.json", namesake "x.json"] := by
  obtain ⟨found, hfound, -, hmirrored, -⟩ :=
    (mirrored_or_flattened ofInputs_namesakes).2 "in" (.head _) (.inr (by decide))
  cases hfound.symm.trans ofInput_namesakes
  exact ⟨ofInputs_namesakes, hmirrored (by decide)⟩

-- Below the working directory, all that is left of where they lie is their name.
example : ofInput namesakes "." =
    .ok [⟨⟨"in/a/x.json"⟩, ⟨"x.json"⟩⟩, ⟨⟨"in/x.json"⟩, ⟨"x.json"⟩⟩] := by
  show ofDirectory namesakes "." = _
  refine ofDirectory_eq_ok_iff.2
    ⟨⟨.here, [.entry ".", .anywhere ([.many] ++ ".json".toList.map .char)], false⟩, by cbv, ?_⟩
  rfl

end Source
end SchemaTypes
