import SchemaTypes.Conversion
import SchemaTypes.Proofs.Files.Written

/-!
# Conversions apart from each other

Sources are converted one after the other in one file system. If the files of their modules lie
apart from each other and from all sources, and no path goes through a directory that is not there
yet only to leave it again (`Source.Separate`), then no conversion sees another: in whatever order
they are done, each ends as it would alone, and all that has changed are the files of the modules
that were made (`Source.convertAll_eq_map_and_written`). Without the condition on the ways this
fails (`Source.convertAll_crossing`).
-/

namespace SchemaTypes
namespace Source

open FileSystem FilePath

variable {fs fs' : FileSystem} {options : ConversionOptions} {directory : FilePath}
  {source : Source} {sources : List Source} {text : String}
  {files : List (List EntryName × ByteArray)}

/-! ## One module -/

/-- The place of the file that the module of a source goes to. -/
def modulePlace (fs : FileSystem) (directory : FilePath) (source : Source) : List EntryName :=
  fs.place (directory.moduleFile source.relative)

/-- A module is written when the directory for its file has been made. -/
theorem exists_write_eq (directory : FilePath) (source : Source) :
    ∃ parent, (directory.moduleFile source.relative).parent? = some parent ∧
      ∀ (fs : FileSystem) (text : String), write fs directory source text =
        match fs.makeNested parent.ancestors with
        | (.error fault, made) => (.error (.directoryNotMade parent fault), made)
        | (.ok (), made) =>
          match made.write (directory.moduleFile source.relative) text.toUTF8 with
          | .ok written => (.ok (directory.moduleFile source.relative), written)
          | .error fault =>
            (.error (.notWritten (directory.moduleFile source.relative) fault), made) := by
  have hnamed := endsNamed_moduleFile directory source.relative
  unfold write
  generalize directory.moduleFile source.relative = target at hnamed ⊢
  obtain ⟨parent, -, -, hparent, -⟩ := hnamed.exists_parent?
  refine ⟨parent, hparent, fun fs text => ?_⟩
  simp only [hparent]
  rcases fs.makeNested parent.ancestors with ⟨_ | _, made⟩
  · rfl
  · rfl

/-- Through a file no module is written, and all trees in which its path goes through the same files
say the same. -/
theorem write_of_hasFile (hwritten : Written fs fs' files)
    (hwd : fs.root.status fs.workingDirectory = .directory)
    (h : fs.Settled (directory.moduleFile source.relative))
    (hapart : ∀ file ∈ files, ¬ file.1 <+: modulePlace fs directory source)
    (hfile : HasFile fs.root (fs.trail (directory.moduleFile source.relative))) (text : String) :
    ∃ fault, write fs directory source text = (.error fault, fs) ∧
      write fs' directory source text = (.error fault, fs') := by
  obtain ⟨parent, hparent, hwrite⟩ := exists_write_eq directory source
  obtain ⟨fault, hmake, hmake'⟩ := makeNested_parent_of_hasFile hwd
    (hwritten.status_workingDirectory hwd) hwritten.workingDirectory h (hwritten.settled h)
    (endsNamed_moduleFile _ _) hparent (hwritten.sameFiles h hapart) hfile
  exact ⟨.directoryNotMade parent fault, by rw [hwrite, hmake], by rw [hwrite, hmake']⟩

/-- If the path of a module goes through no file, the directory for it is made, and whether it is
written depends on its file alone. -/
theorem exists_write_eq_of_not_hasFile (hwd : fs.root.status fs.workingDirectory = .directory)
    (h : fs.Settled (directory.moduleFile source.relative))
    (hfile : ¬ HasFile fs.root (fs.trail (directory.moduleFile source.relative))) :
    ∃ made, Opened fs made (fs.trail (directory.moduleFile source.relative)) ∧
      ∀ text, write fs directory source text =
        match made.write (directory.moduleFile source.relative) text.toUTF8 with
        | .ok written => (.ok (directory.moduleFile source.relative), written)
        | .error fault =>
          (.error (.notWritten (directory.moduleFile source.relative) fault), made) := by
  obtain ⟨parent, hparent, hwrite⟩ := exists_write_eq directory source
  obtain ⟨made, hmake, hopened⟩ :=
    makeNested_parent_of_not_hasFile hwd h (endsNamed_moduleFile _ _) hparent hfile
  exact ⟨made, hopened, fun text => by rw [hwrite, hmake]⟩

/-- In place of a directory no module is written. -/
theorem write_of_directory (hwd : fs.root.status fs.workingDirectory = .directory)
    (h : fs.Settled (directory.moduleFile source.relative))
    (hfile : ¬ HasFile fs.root (fs.trail (directory.moduleFile source.relative)))
    (hplace : fs.root.status (modulePlace fs directory source) = .directory) (text : String) :
    ∃ made, write fs directory source text =
        (.error (.notWritten (directory.moduleFile source.relative) .isDirectory), made) ∧
      Written fs made [] := by
  have hnamed := endsNamed_moduleFile directory source.relative
  obtain ⟨made, hopened, hwrite⟩ := exists_write_eq_of_not_hasFile hwd h hfile
  refine ⟨made, ?_, hopened.written h hplace⟩
  rw [hwrite, FileSystem.write_of_directory (hopened.settled h) hnamed hopened.forall_mem_trail
    ((hopened.status_place h hnamed).trans hplace)]

/-- Elsewhere a module is written. -/
theorem write_of_ne_directory (hwd : fs.root.status fs.workingDirectory = .directory)
    (h : fs.Settled (directory.moduleFile source.relative))
    (hfile : ¬ HasFile fs.root (fs.trail (directory.moduleFile source.relative)))
    (hplace : fs.root.status (modulePlace fs directory source) ≠ .directory) (text : String) :
    ∃ after, write fs directory source text =
        (.ok (directory.moduleFile source.relative), after) ∧
      Written fs after [(modulePlace fs directory source, text.toUTF8)] := by
  have hnamed := endsNamed_moduleFile directory source.relative
  obtain ⟨made, hopened, hwrite⟩ := exists_write_eq_of_not_hasFile hwd h hfile
  refine ⟨_, ?_, hopened.written_put h hnamed hfile hplace text.toUTF8⟩
  rw [hwrite, write_of_forall (hopened.settled h) hnamed hopened.forall_mem_trail
    (by rwa [hopened.status_place h hnamed])]

/-- Whether a module is written does not depend on files that have been written apart from it, and
it is all that has been written. -/
theorem write_congr (hwritten : Written fs fs' files)
    (hwd : fs.root.status fs.workingDirectory = .directory)
    (h : fs.Settled (directory.moduleFile source.relative))
    (hapart : ∀ file ∈ files, ¬ file.1 <+: modulePlace fs directory source ∧
      ¬ modulePlace fs directory source <+: file.1) (text : String) :
    (∃ fault after, write fs' directory source text = (.error fault, after) ∧
      (write fs directory source text).1 = .error fault ∧ Written fs' after []) ∨
    (∃ after, write fs' directory source text =
        (.ok (directory.moduleFile source.relative), after) ∧
      (write fs directory source text).1 = .ok (directory.moduleFile source.relative) ∧
      Written fs' after [(modulePlace fs directory source, text.toUTF8)]) := by
  have hwd' := hwritten.status_workingDirectory hwd
  have h' := hwritten.settled h
  have hbehind := fun file hfile => (hapart file hfile).1
  have hplace : modulePlace fs' directory source = modulePlace fs directory source :=
    place_congr hwritten.workingDirectory _
  have hsame : fs'.root.status (modulePlace fs' directory source) =
      fs.root.status (modulePlace fs directory source) := by
    rw [hplace]
    exact hwritten.other _ fun file hfile => (hapart file hfile).2
  by_cases hfile : HasFile fs.root (fs.trail (directory.moduleFile source.relative))
  · obtain ⟨fault, hwrite, hwrite'⟩ := write_of_hasFile hwritten hwd h hbehind hfile text
    exact .inl ⟨fault, fs', hwrite', by rw [hwrite], .refl fs'⟩
  · have hfile' : ¬ HasFile fs'.root (fs'.trail (directory.moduleFile source.relative)) := by
      rw [trail_congr hwritten.workingDirectory]
      exact mt (hwritten.sameFiles h hbehind).hasFile_iff.2 hfile
    by_cases hdirectory : fs.root.status (modulePlace fs directory source) = .directory
    · obtain ⟨_, hwrite, -⟩ := write_of_directory hwd h hfile hdirectory text
      obtain ⟨after, hwrite', hafter⟩ :=
        write_of_directory hwd' h' hfile' (hsame.trans hdirectory) text
      exact .inl ⟨_, after, hwrite', by rw [hwrite], hafter⟩
    · obtain ⟨_, hwrite, -⟩ := write_of_ne_directory hwd h hfile hdirectory text
      obtain ⟨after, hwrite', hafter⟩ :=
        write_of_ne_directory hwd' h' hfile' (by rwa [hsame]) text
      rw [hplace] at hafter
      exact .inr ⟨after, hwrite', by rw [hwrite], hafter⟩

/-! ## One source -/

/-- What the conversion of a source alone writes: the file of its module, if it is made and there is
a directory for it. -/
def output (options : ConversionOptions) (fs : FileSystem) (source : Source) :
    List (List EntryName × ByteArray) :=
  match options.directory, (convert options fs source).1 with
  | some directory, .ok converted =>
    [(modulePlace fs directory source, converted.rendered.toUTF8)]
  | _, _ => []

/-- A module depends on nothing of the file system but what is read. -/
theorem build_congr (h : fs'.read source.path = fs.read source.path)
    (options : ConversionOptions) : build options fs' source = build options fs source := by
  rw [build, build, load, load, h]

/-- If there is a directory for modules, a module that is made is written there. -/
theorem convert_of_build {converted : ConvertedModule} (h : options.directory = some directory)
    (hbuild : build options fs source = .ok converted) :
    convert options fs source =
      match write fs directory source converted.rendered with
      | (.ok target, after) => (.ok { converted with target := some target }, after)
      | (.error fault, after) => (.error fault, after) := by
  rcases hwrite : write fs directory source converted.rendered with ⟨_ | _, after⟩
  · simp only [convert, hbuild, h, hwrite]
  · simp only [convert, hbuild, h, hwrite]

/-- What is written lies at the place of the module. -/
theorem eq_modulePlace_of_mem_output (h : options.directory = some directory)
    {file : List EntryName × ByteArray} (hfile : file ∈ output options fs source) :
    file.1 = modulePlace fs directory source := by
  rw [output, h] at hfile
  split at hfile
  · next heq _ =>
    cases heq
    rw [List.mem_singleton.1 hfile]
  · cases hfile

/-- A conversion does not depend on files that have been written apart from it, and what it writes
is what it writes alone. -/
theorem convert_congr (h : options.directory = some directory) (hwritten : Written fs fs' files)
    (hwd : fs.root.status fs.workingDirectory = .directory)
    (hpath : fs.Settled source.path) (htarget : fs.Settled (directory.moduleFile source.relative))
    (hapart : ∀ file ∈ files,
      (¬ file.1 <+: fs.place source.path ∧ ¬ fs.place source.path <+: file.1) ∧
      ¬ file.1 <+: modulePlace fs directory source ∧
        ¬ modulePlace fs directory source <+: file.1) :
    (convert options fs' source).1 = (convert options fs source).1 ∧
      Written fs' (convert options fs' source).2 (output options fs source) := by
  have hbuild := build_congr
    (hwritten.read_eq hwd hpath fun file hfile => (hapart file hfile).1) options
  cases hdone : build options fs source with
  | error fault =>
    rw [output, convert, convert, hbuild, hdone, h]
    exact ⟨rfl, .refl fs'⟩
  | ok converted =>
    have hwrite := write_congr hwritten hwd htarget (fun file hfile => (hapart file hfile).2)
      converted.rendered
    rw [output, convert_of_build h hdone, convert_of_build h (hbuild.trans hdone), h]
    generalize write fs directory source converted.rendered = alone at hwrite ⊢
    obtain ⟨result, state⟩ := alone
    rcases hwrite with ⟨fault, after, hwrite, rfl, hafter⟩ | ⟨after, hwrite, rfl, hafter⟩
    · rw [hwrite]
      exact ⟨rfl, hafter⟩
    · rw [hwrite]
      exact ⟨rfl, hafter⟩

/-! ## All sources -/

/-- Neither of two places is the other or lies in it. -/
def Apart (way way' : List EntryName) : Prop :=
  ¬ way <+: way' ∧ ¬ way' <+: way

instance (way way' : List EntryName) : Decidable (Apart way way') :=
  inferInstanceAs (Decidable (_ ∧ _))

/-- Paths of sources and modules that do not get in each other's way. -/
structure Separate (fs : FileSystem) (directory : FilePath) (sources : List Source) : Prop where
  workingDirectory : fs.root.status fs.workingDirectory = .directory
  settled : ∀ source ∈ sources,
    fs.Settled source.path ∧ fs.Settled (directory.moduleFile source.relative)
  modules : sources.Pairwise fun source other =>
    Apart (modulePlace fs directory source) (modulePlace fs directory other)
  inputs : ∀ source ∈ sources, ∀ other ∈ sources,
    Apart (modulePlace fs directory source) (fs.place other.path)

/-- In another order paths get in each other's way as little. -/
theorem Separate.of_perm {order : List Source} (h : Separate fs directory sources)
    (hperm : order.Perm sources) : Separate fs directory order where
  workingDirectory := h.workingDirectory
  settled source hmem := h.settled source (hperm.mem_iff.1 hmem)
  modules := (hperm.pairwise_iff fun hapart => And.symm hapart).2 h.modules
  inputs source hmem other hmem' :=
    h.inputs source (hperm.mem_iff.1 hmem) other (hperm.mem_iff.1 hmem')

/-- When the modules of some sources have been written, the others are converted as if they were
alone. -/
theorem convertAll_of_written (h : options.directory = some directory) {done rest : List Source}
    (hseparate : Separate fs directory (done ++ rest))
    (hwritten : Written fs fs' (done.flatMap (output options fs))) :
    (convertAll options fs' rest).1 =
        rest.map (fun source => ⟨source.path, (convert options fs source).1⟩) ∧
      Written fs (convertAll options fs' rest).2
        ((done ++ rest).flatMap (output options fs)) := by
  induction rest generalizing done fs' with
  | nil => exact ⟨rfl, by rwa [List.append_nil]⟩
  | cons source rest ih =>
    have hmem : source ∈ done ++ source :: rest := List.mem_append_right _ (.head _)
    have hbefore (file : List EntryName × ByteArray)
        (hfile : file ∈ done.flatMap (output options fs)) :
        ∃ other ∈ done, file.1 = modulePlace fs directory other := by
      obtain ⟨other, hother, hfile⟩ := List.mem_flatMap.1 hfile
      exact ⟨other, hother, eq_modulePlace_of_mem_output h hfile⟩
    have hmodules := (List.pairwise_append.1 hseparate.modules).2.2
    obtain ⟨hpath, htarget⟩ := hseparate.settled source hmem
    obtain ⟨hresult, hafter⟩ := convert_congr h hwritten hseparate.workingDirectory hpath htarget
      fun file hfile => by
        obtain ⟨other, hother, heq⟩ := hbefore file hfile
        rw [heq]
        exact ⟨hseparate.inputs other (List.mem_append_left _ hother) source hmem,
          hmodules other hother source (.head _)⟩
    have hstep : Written fs (convert options fs' source).2
        ((done ++ [source]).flatMap (output options fs)) := by
      rw [List.flatMap_append, List.flatMap_singleton]
      refine hwritten.trans hafter fun file hfile other hother => ?_
      obtain ⟨before, hbefore, heq⟩ := hbefore file hfile
      rw [heq, eq_modulePlace_of_mem_output h hother]
      exact (hmodules before hbefore source (.head _)).1
    rw [List.append_cons] at hseparate ⊢
    obtain ⟨hresults, hwritten'⟩ := ih hseparate hstep
    rw [convertAll]
    refine ⟨?_, hwritten'⟩
    rw [List.map_cons, ← hresult, ← hresults]

/-- Without a directory for modules nothing is written. -/
theorem convertAll_of_none (h : options.directory = none) (fs : FileSystem)
    (sources : List Source) :
    convertAll options fs sources =
      (sources.map fun source => ⟨source.path, (convert options fs source).1⟩, fs) := by
  induction sources with
  | nil => rfl
  | cons source rest ih =>
    have hconvert : convert options fs source = ((convert options fs source).1, fs) := by
      rw [convert, h]
      cases build options fs source with
      | error _ | ok _ => rfl
    rw [convertAll, hconvert]
    simp only [ih]
    rfl

/-- In whatever order sources are converted, each ends as it does alone, and the files of the
modules that were made are all that has been written; a source whose module is not made leaves
everything as it is. -/
theorem convertAll_eq_map_and_written
    (hseparate : ∀ directory, options.directory = some directory → Separate fs directory sources)
    {order : List Source} (hperm : order.Perm sources) :
    (convertAll options fs order).1 =
        order.map (fun source => ⟨source.path, (convert options fs source).1⟩) ∧
      Written fs (convertAll options fs order).2 (sources.flatMap (output options fs)) ∧
      ∀ (source : Source) (state : FileSystem) (fault : ConversionFault),
        build options state source = .error fault →
          convert options state source = (.error fault, state) := by
  have hfailed (source : Source) (state : FileSystem) (fault : ConversionFault)
      (hbuild : build options state source = .error fault) :
      convert options state source = (.error fault, state) := by
    rw [convert, hbuild]
  cases hdirectory : options.directory with
  | none =>
    have houtput (source : Source) : output options fs source = [] := by rw [output, hdirectory]
    rw [convertAll_of_none hdirectory, List.flatMap_eq_nil_iff.2 fun source _ => houtput source]
    exact ⟨rfl, .refl fs, hfailed⟩
  | some directory =>
    have horder : Separate fs directory ([] ++ order) :=
      (hseparate directory hdirectory).of_perm hperm
    obtain ⟨hresults, hwritten⟩ := convertAll_of_written hdirectory horder (Written.refl fs)
    exact ⟨hresults, hwritten.of_perm (hperm.flatMap_right _), hfailed⟩

/-- Modules are written below the directory `out`. -/
def intoOut : ConversionOptions where
  directory := some ⟨"out"⟩

/-- A directory to work in, with a document, a file that is none and an empty directory. -/
def workshop : FileSystem where
  root := .directory [
    (⟨"work", by decide⟩, .directory [
      (⟨"d", by decide⟩, .directory []),
      (⟨"f.json", by decide⟩, .file "{}".toUTF8),
      (⟨"g.json", by decide⟩, .file "no".toUTF8)])]
  workingDirectory := [⟨"work", by decide⟩]

/-- The document, on a way through the empty directory, the file that is none, and one that is
missing. -/
def tasks : List Source :=
  [⟨⟨"d/../f.json"⟩, ⟨"f.json"⟩⟩, ⟨⟨"/work/g.json"⟩, ⟨"g.json"⟩⟩, ⟨⟨"h.json"⟩, ⟨"h.json"⟩⟩]

/-- No path of theirs gets in the way of another. -/
theorem separate_workshop : Separate workshop ⟨"out"⟩ tasks where
  workingDirectory := by decide
  settled := by decide
  modules := by decide
  inputs := by decide

/-- In the other order each is converted as it is alone. -/
theorem convertAll_workshop :
    (∀ directory, intoOut.directory = some directory → Separate workshop directory tasks) ∧
      tasks.reverse.Perm tasks ∧
      (convertAll intoOut workshop tasks.reverse).1 =
        tasks.reverse.map (fun source => ⟨source.path, (convert intoOut workshop source).1⟩) ∧
      Written workshop (convertAll intoOut workshop tasks.reverse).2
        (tasks.flatMap (output intoOut workshop)) := by
  have hseparate : ∀ directory, intoOut.directory = some directory →
      Separate workshop directory tasks := by
    rintro _ ⟨⟩
    exact separate_workshop
  have hperm := List.reverse_perm tasks
  obtain ⟨hresults, hwritten, -⟩ := convertAll_eq_map_and_written hseparate hperm
  exact ⟨hseparate, hperm, hresults, hwritten⟩

/-- Two documents and an empty directory that is called as the file of the module of one of them. -/
def crossing : FileSystem where
  root := .directory [
    (⟨"f", by decide⟩, .file "{}".toUTF8),
    (⟨"f.d.ts", by decide⟩, .directory []),
    (⟨"z.json", by decide⟩, .file "{}".toUTF8)]
  workingDirectory := []

/-- The one document. -/
def straight : Source :=
  ⟨⟨"f"⟩, ⟨"f"⟩⟩

/-- The other document, on a way through the directory. -/
def crooked : Source :=
  ⟨⟨"f.d.ts/../z.json"⟩, ⟨"f.d.ts/../z.json"⟩⟩

/-- Where a path goes counts, too: once the file of the one module is written, the way to the other
module, which was free, goes through a file, although their places lie apart. -/
theorem convertAll_crossing :
    Apart (modulePlace crossing ⟨"out"⟩ straight) (modulePlace crossing ⟨"out"⟩ crooked) ∧
      (∀ source ∈ [straight, crooked], ∀ other ∈ [straight, crooked],
        Apart (modulePlace crossing ⟨"out"⟩ source) (crossing.place other.path)) ∧
      (∃ alone, (convert intoOut crossing crooked).1 = .ok alone) ∧
      ∃ converted, (convertAll intoOut crossing [straight, crooked]).1 =
        [⟨straight.path, .ok converted⟩,
          ⟨crooked.path, .error (.directoryNotMade ⟨"out/f.d.ts/.."⟩ .notDirectory)⟩] := by
  obtain ⟨first, hfirst⟩ : ∃ first, build intoOut crossing straight = .ok first :=
    Except.isOk_iff_exists.1 (by cbv)
  obtain ⟨second, hsecond⟩ : ∃ second, build intoOut crossing crooked = .ok second := by
    refine Except.isOk_iff_exists.1 ?_
    have hread : crossing.read crooked.path = crossing.read ⟨"z.json"⟩ := rfl
    rw [build, load, hread]
    cbv
  have hwrite : write crossing ⟨"out"⟩ straight first.rendered =
      (.ok ⟨"out/f.d.ts"⟩, (write crossing ⟨"out"⟩ straight first.rendered).2) := rfl
  have halone : write crossing ⟨"out"⟩ crooked second.rendered =
      (.ok ⟨"out/f.d.ts/../z.d.ts"⟩, (write crossing ⟨"out"⟩ crooked second.rendered).2) := rfl
  generalize hafter : (write crossing ⟨"out"⟩ straight first.rendered).2 = after at hwrite
  have hread : after.read crooked.path = crossing.read crooked.path := by
    rw [← hafter]
    rfl
  have hfault : (write after ⟨"out"⟩ crooked second.rendered) =
      (.error (.directoryNotMade ⟨"out/f.d.ts/.."⟩ .notDirectory), after) := by
    rw [← hafter]
    rfl
  have hbuild : build intoOut after crooked = .ok second :=
    (build_congr hread intoOut).trans hsecond
  refine ⟨by decide, by decide, ⟨{ second with target := some ⟨"out/f.d.ts/../z.d.ts"⟩ }, ?_⟩,
    { first with target := some ⟨"out/f.d.ts"⟩ }, ?_⟩
  · rw [convert_of_build rfl hsecond, halone]
  · rw [convertAll, convert_of_build rfl hfirst, hwrite]
    simp only [convertAll]
    rw [convert_of_build rfl hbuild, hfault]

-- Not even a missing directory that two paths share is harmless: whether it is there decides what
-- is found to be in the way of a module.
example (text : String) :
    let taken : FileSystem := ⟨.directory [(⟨"out", by decide⟩, .directory [
      (⟨"g", by decide⟩, .file "{}".toUTF8)])], []⟩
    let blocked : Source := ⟨⟨"k.json"⟩, ⟨"x/../g/h/k.json"⟩⟩
    (write taken ⟨"out"⟩ blocked text).1 =
        .error (.directoryNotMade ⟨"out/x/../g/h"⟩ .exists) ∧
      (write (write taken ⟨"out"⟩ ⟨⟨"f.json"⟩, ⟨"x/../f.json"⟩⟩ text).2 ⟨"out"⟩ blocked text).1 =
        .error (.directoryNotMade ⟨"out/x/../g/h"⟩ .notDirectory) :=
  ⟨rfl, rfl⟩

end Source
end SchemaTypes
