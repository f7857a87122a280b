import SchemaTypes.Proofs.Conversion.Isolated
import SchemaTypes.Proofs.Files.Kept
import SchemaTypes.Proofs.Files.Targets

/-!
# Modules that are kept

A conversion writes to no file but that of its module, whatever comes of it. So a module that was
written is still in its file when all sources have been converted, if no other goes to the same
place (`Source.kept_convertAll`), and documents to which different ways lead have modules at
different places unless a way steps up (`Source.own_moduleFile_and_kept`). A way that does may lead
back to the place of another module (`Source.not_kept_converging`).
-/

namespace SchemaTypes
namespace Source

open FileSystem FilePath

variable {fs : FileSystem} {options : ConversionOptions} {directory : FilePath}
  {sources : List Source}

/-- The places of modules remain. -/
theorem modulePlace_of_keeps {fs' : FileSystem} {ways : List (List EntryName)}
    (h : Keeps fs fs' ways) (directory : FilePath) :
    modulePlace fs' directory = modulePlace fs directory :=
  funext fun _ => place_congr h.workingDirectory _

/-- Writing a module costs no more than the file at its place, and a module that is written is
there afterwards. -/
theorem keeps_write (fs : FileSystem) (directory : FilePath) (source : Source) (text : String) :
    Keeps fs (write fs directory source text).2 [modulePlace fs directory source] ∧
      ∀ target, (write fs directory source text).1 = .ok target →
        target = directory.moduleFile source.relative ∧
          Holds (write fs directory source text).2 target text.toUTF8 := by
  obtain ⟨parent, -, hwrite⟩ := exists_write_eq directory source
  have hnested := keeps_makeNested parent.ancestors fs
  rw [hwrite]
  generalize fs.makeNested parent.ancestors = nested at hnested ⊢
  obtain ⟨_ | _, made⟩ := nested
  · exact ⟨hnested.trans (.refl made _), nofun⟩
  · dsimp only at hnested ⊢
    cases hfile : made.write (directory.moduleFile source.relative) text.toUTF8 with
    | error fault => exact ⟨hnested.trans (.refl made _), nofun⟩
    | ok after =>
      obtain ⟨hholds, hkeeps⟩ := holds_of_write (endsNamed_moduleFile _ _) hfile
      rw [place_congr hnested.workingDirectory] at hkeeps
      refine ⟨hnested.trans hkeeps, fun target htarget => ?_⟩
      cases htarget
      exact ⟨rfl, hholds⟩

/-- The conversion of a source costs no more than the file at the place of its module, and a module
that is made is there afterwards. -/
theorem keeps_convert (h : options.directory = some directory) (fs : FileSystem)
    (source : Source) :
    Keeps fs (convert options fs source).2 [modulePlace fs directory source] ∧
      ∀ converted, (convert options fs source).1 = .ok converted →
        converted.target = some (directory.moduleFile source.relative) ∧
          Holds (convert options fs source).2 (directory.moduleFile source.relative)
            converted.rendered.toUTF8 := by
  cases hbuild : build options fs source with
  | error fault =>
    have hconvert : convert options fs source = (.error fault, fs) := by rw [convert, hbuild]
    rw [hconvert]
    refine ⟨.refl fs _, fun converted hconverted => ?_⟩
    cases hconverted
  | ok built =>
    have hwrite := keeps_write fs directory source built.rendered
    rw [convert_of_build h hbuild]
    generalize write fs directory source built.rendered = written at hwrite ⊢
    obtain ⟨fault | target, after⟩ := written
    · refine ⟨hwrite.1, fun converted hconverted => ?_⟩
      cases hconverted
    · obtain ⟨rfl, hholds⟩ := hwrite.2 target rfl
      refine ⟨hwrite.1, fun converted hconverted => ?_⟩
      cases hconverted
      exact ⟨rfl, hholds⟩

/-- The first source is converted, and then the others are. -/
theorem convertAll_cons (options : ConversionOptions) (fs : FileSystem) (source : Source)
    (rest : List Source) :
    convertAll options fs (source :: rest) =
      (⟨source.path, (convert options fs source).1⟩ ::
        (convertAll options (convert options fs source).2 rest).1,
      (convertAll options (convert options fs source).2 rest).2) :=
  rfl

/-- The conversion of all sources costs no more than the files at the places of their modules. -/
theorem keeps_convertAll (h : options.directory = some directory) (sources : List Source)
    (fs : FileSystem) :
    Keeps fs (convertAll options fs sources).2 (sources.map (modulePlace fs directory)) := by
  induction sources generalizing fs with
  | nil => exact .refl fs []
  | cons source rest ih =>
    have hfirst := (keeps_convert h fs source).1
    have hrest := ih (convert options fs source).2
    rw [modulePlace_of_keeps hfirst] at hrest
    rw [convertAll_cons]
    exact hfirst.trans hrest

/-- The module of a source, if it was made, is what is read from the file that it goes to. -/
structure Kept (fs : FileSystem) (directory : FilePath) (source : Source)
    (result : SourceResult ConvertedModule) : Prop where
  file : result.file = source.path
  target : ∀ converted, result.result = .ok converted →
    converted.target = some (directory.moduleFile source.relative)
  read : ∀ converted, result.result = .ok converted →
    fs.read (directory.moduleFile source.relative) = .ok converted.rendered

/-- When all sources have been converted, every module that was made is still there, if no other
goes to its place. -/
theorem kept_convertAll (h : options.directory = some directory)
    (hne : sources.Pairwise fun source other =>
      modulePlace fs directory source ≠ modulePlace fs directory other) :
    List.Forall₂ (Kept (convertAll options fs sources).2 directory) sources
      (convertAll options fs sources).1 := by
  induction sources generalizing fs with
  | nil => exact .nil
  | cons source rest ih =>
    obtain ⟨hfirst, hholds⟩ := keeps_convert h fs source
    have hplaces := modulePlace_of_keeps hfirst directory
    rw [List.pairwise_cons] at hne
    rw [convertAll_cons]
    refine .cons ⟨rfl, fun converted hconverted => (hholds converted hconverted).1, ?_⟩
      (ih (by rw [hplaces]; exact hne.2))
    -- The modules of the others leave the file as it is.
    intro converted hconverted
    refine ((hholds converted hconverted).2.of_keeps (keeps_convertAll h rest _) ?_).read_eq
    intro hmem
    obtain ⟨other, hother, heq⟩ := List.mem_map.1 hmem
    rw [hplaces] at heq
    exact hne.1 other hother ((congrFun hplaces source).symm.trans heq.symm)

/-- Modules of documents to which different ways lead that never step up do not overwrite each
other. -/
theorem kept_convertAll_of_ways (h : options.directory = some directory)
    (hways : ∀ source ∈ sources,
      source.relative.IsDocumentWay ∧ .parent ∉ source.relative.parts)
    (hne : sources.Pairwise fun source other => source.relative.same other.relative = false) :
    List.Forall₂ (Kept (convertAll options fs sources).2 directory) sources
      (convertAll options fs sources).1 := by
  refine kept_convertAll h (hne.imp_of_mem fun hsource hother hdifferent => ?_)
  obtain ⟨hway, hup⟩ := hways _ hsource
  obtain ⟨hway', hup'⟩ := hways _ hother
  exact hway.place_moduleFile_ne hway' hup hup' hdifferent directory fs

/-- The module of a document goes to the file below the directory to which the directories on the
way to the document lead, and which has its name with the other ending; and two modules go to the
same path only if the ways to their documents are the same. Unless a way steps up, modules of
different documents have different places in every tree, and when such documents have been
converted, in whatever order, every module that was made is what is read from its file. -/
theorem own_moduleFile_and_kept (h : options.directory = some directory) :
    (∀ p : FilePath, p.IsDocumentWay → ∃ directories front,
      p.parts = directories ++ [.name (front ++ ".json")] ∧
        (directory.moduleFile p).parts =
          directory.parts ++ (directories ++ [.name (front ++ ".d.ts")])) ∧
    (∀ p q : FilePath, p.IsDocumentWay → q.IsDocumentWay →
      ((directory.moduleFile p).same (directory.moduleFile q) = true ↔ p.same q = true)) ∧
    (∀ p q : FilePath, p.IsDocumentWay → q.IsDocumentWay → .parent ∉ p.parts → .parent ∉ q.parts →
      p.same q = false → ∀ fs : FileSystem,
        fs.place (directory.moduleFile p) ≠ fs.place (directory.moduleFile q)) ∧
    ∀ (fs : FileSystem) (sources : List Source),
      (∀ source ∈ sources, source.relative.IsDocumentWay ∧ .parent ∉ source.relative.parts) →
      (sources.Pairwise fun source other => source.relative.same other.relative = false) →
        List.Forall₂ (Kept (convertAll options fs sources).2 directory) sources
          (convertAll options fs sources).1 := by
  refine ⟨?_, ?_, ?_, ?_⟩
  · intro p hp
    exact hp.exists_parts_moduleFile_eq directory
  · intro p q hp hq
    exact hp.same_moduleFile_iff hq directory
  · intro p q hp hq hup hup' hne fs
    exact hp.place_moduleFile_ne hq hup hup' hne directory fs
  · intro fs sources hways hne
    exact kept_convertAll_of_ways h hways hne

/-- Two documents of one name, and an empty directory beside one of them. -/
def detour : FileSystem where
  root := .directory [
    (⟨"p", by decide⟩, .directory [
      (⟨"a1", by decide⟩, .directory []),
      (⟨"y.json", by decide⟩, .file "{}".toUTF8)]),
    (⟨"q", by decide⟩, .directory [
      (⟨"y.json", by decide⟩, .file "\x7b\"type\": \"null\"\x7d".toUTF8)])]
  workingDirectory := []

/-- The documents, told where they lie below the working directory. -/
def abreast : List Source :=
  [⟨⟨"p/y.json"⟩, ⟨"p/y.json"⟩⟩, ⟨⟨"q/y.json"⟩, ⟨"q/y.json"⟩⟩]

/-- The documents, told how they are reached from `p`, through the empty directory, and from `q`. -/
def converging : List Source :=
  [⟨⟨"p/a1/../y.json"⟩, ⟨"a1/../y.json"⟩⟩, ⟨⟨"q/y.json"⟩, ⟨"y.json"⟩⟩]

/-- The text of the module of the first document. -/
def unknownText : String :=
  "type Y = unknown;\n\nexport type { Y };\n"

/-- The text of the module of the second one. -/
def nullText : String :=
  "type Y = null;\n\nexport type { Y };\n"

/-- When the module of the first document has been written, that of the second one is. -/
theorem convertAll_pair {source other : Source} {target target' : FilePath}
    {after last : FileSystem} (hread : fs.read source.path = .ok "{}")
    (hname : source.path.documentName? = some "Y")
    (hwrite : write fs ⟨"out"⟩ source unknownText = (.ok target, after))
    (hread' : after.read other.path = .ok "\x7b\"type\": \"null\"\x7d")
    (hname' : other.path.documentName? = some "Y")
    (hwrite' : write after ⟨"out"⟩ other nullText = (.ok target', last)) :
    convertAll intoOut fs [source, other] =
      ([⟨source.path, .ok ⟨unknownText, some target, 1⟩⟩,
        ⟨other.path, .ok ⟨nullText, some target', 1⟩⟩], last) := by
  have hbuild : build intoOut fs source = .ok ⟨unknownText, none, 1⟩ := by
    rw [build, load, hread, moduleOptions, hname]
    cbv
  have hbuild' : build intoOut after other = .ok ⟨nullText, none, 1⟩ := by
    rw [build, load, hread', moduleOptions, hname']
    cbv
  rw [convertAll_cons, convert_of_build rfl hbuild, hwrite, convertAll_cons,
    convert_of_build rfl hbuild', hwrite']
  rfl

/-- The modules of the two documents are both made when their places are apart. -/
theorem convertAll_abreast : (convertAll intoOut detour abreast).1 =
    [⟨⟨"p/y.json"⟩, .ok ⟨unknownText, some ⟨"out/p/y.d.ts"⟩, 1⟩⟩,
      ⟨⟨"q/y.json"⟩, .ok ⟨nullText, some ⟨"out/q/y.d.ts"⟩, 1⟩⟩] := by
  obtain ⟨after, hafter⟩ : ∃ after, after =
    (write detour ⟨"out"⟩ ⟨⟨"p/y.json"⟩, ⟨"p/y.json"⟩⟩ unknownText).2 := ⟨_, rfl⟩
  have hwrite : write detour ⟨"out"⟩ ⟨⟨"p/y.json"⟩, ⟨"p/y.json"⟩⟩ unknownText =
      (.ok ⟨"out/p/y.d.ts"⟩, after) := by
    rw [hafter]
    rfl
  have hread : after.read ⟨"q/y.json"⟩ = .ok "\x7b\"type\": \"null\"\x7d" := by
    rw [hafter]
    rfl
  have hwrite' : write after ⟨"out"⟩ ⟨⟨"q/y.json"⟩, ⟨"q/y.json"⟩⟩ nullText =
      (.ok ⟨"out/q/y.d.ts"⟩, (write after ⟨"out"⟩ ⟨⟨"q/y.json"⟩, ⟨"q/y.json"⟩⟩ nullText).2) := by
    rw [hafter]
    rfl
  exact congrArg Prod.fst (convertAll_pair rfl rfl hwrite hread rfl hwrite')

/-- The way to a document whose name has the ending twice. -/
def doubled : FilePath :=
  ⟨"a//b.json.json"⟩

/-- The way, back up again, to a document whose name is the ending alone. -/
def unnamed : FilePath :=
  ⟨"a/../.json"⟩

/-- Modules of documents with odd names go to different files, and the modules of the two documents,
which are told apart by their directories, are both in their files at the end. -/
theorem kept_abreast :
    doubled.IsDocumentWay ∧ unnamed.IsDocumentWay ∧
    (∃ directories front, doubled.parts = directories ++ [.name (front ++ ".json")] ∧
      (moduleFile ⟨"out"⟩ doubled).parts =
        parts ⟨"out"⟩ ++ (directories ++ [.name (front ++ ".d.ts")])) ∧
    ((moduleFile ⟨"out"⟩ doubled).same (moduleFile ⟨"out"⟩ unnamed) = true ↔
      doubled.same unnamed = true) ∧
    (∀ source ∈ abreast, source.relative.IsDocumentWay ∧ .parent ∉ source.relative.parts) ∧
    (abreast.Pairwise fun source other => source.relative.same other.relative = false) ∧
    (∀ fs : FileSystem, fs.place (moduleFile ⟨"out"⟩ ⟨"p/y.json"⟩) ≠
      fs.place (moduleFile ⟨"out"⟩ ⟨"q/y.json"⟩)) ∧
    (convertAll intoOut detour abreast).1 =
      [⟨⟨"p/y.json"⟩, .ok ⟨unknownText, some ⟨"out/p/y.d.ts"⟩, 1⟩⟩,
        ⟨⟨"q/y.json"⟩, .ok ⟨nullText, some ⟨"out/q/y.d.ts"⟩, 1⟩⟩] ∧
    List.Forall₂ (Kept (convertAll intoOut detour abreast).2 ⟨"out"⟩) abreast
      (convertAll intoOut detour abreast).1 := by
  have hdoubled : doubled.IsDocumentWay := ⟨by decide, by decide, "b.json", by decide⟩
  have hunnamed : unnamed.IsDocumentWay := ⟨by decide, by decide, "", by decide⟩
  have hp : IsDocumentWay ⟨"p/y.json"⟩ := ⟨by decide, by decide, "y", by decide⟩
  have hq : IsDocumentWay ⟨"q/y.json"⟩ := ⟨by decide, by decide, "y", by decide⟩
  have hways : ∀ source ∈ abreast,
      source.relative.IsDocumentWay ∧ .parent ∉ source.relative.parts := by
    simp only [abreast, List.forall_mem_cons]
    exact ⟨⟨hp, by decide⟩, ⟨hq, by decide⟩, nofun⟩
  have hne : abreast.Pairwise fun source other =>
      source.relative.same other.relative = false := by decide
  obtain ⟨hparts, hsame, hplace, hkept⟩ :=
    own_moduleFile_and_kept (rfl : intoOut.directory = some ⟨"out"⟩)
  exact ⟨hdoubled, hunnamed, hparts doubled hdoubled, hsame doubled unnamed hdoubled hunnamed,
    hways, hne, hplace _ _ hp hq (by decide) (by decide) (by decide), convertAll_abreast,
    hkept detour abreast hways hne⟩

/-- The documents are found along these ways. -/
theorem ofInputs_detour : ofInputs detour ["p/a*/../y.json", "q/y.json"] = .ok converging := by
  have hpattern : ofInput detour "p/a*/../y.json" =
      .ok [⟨⟨"p/a1/../y.json"⟩, ⟨"a1/../y.json"⟩⟩] := by
    have hglob : Glob.parse "p/a*/../y.json" = .ok ⟨.here,
        [.entry "p", .wildcard [.char 'a', .many], .entry "..", .entry "y.json"], false⟩ := by cbv
    show ofPattern detour "p/a*/../y.json" = _
    rw [ofPattern, hglob]
    rfl
  have hfile : ofInput detour "q/y.json" = .ok [⟨⟨"q/y.json"⟩, ⟨"y.json"⟩⟩] := rfl
  have hfound : ["p/a*/../y.json", "q/y.json"].mapM (ofInput detour) =
      .ok [[⟨⟨"p/a1/../y.json"⟩, ⟨"a1/../y.json"⟩⟩], [⟨⟨"q/y.json"⟩, ⟨"y.json"⟩⟩]] := by
    simp only [List.mapM_cons, List.mapM_nil, hpattern, hfile]
    rfl
  have hsorted : converging.Pairwise fun a b => (!b.lt a) = true := by decide
  rw [ofInputs, hfound]
  exact congrArg (Except.ok ∘ distinct) (List.mergeSort_of_pairwise hsorted)

/-- A way that steps up again may lead to where another way never left: both modules are made, and
the first one is lost. -/
theorem not_kept_converging :
    ofInputs detour ["p/a*/../y.json", "q/y.json"] = .ok converging ∧
    (∀ source ∈ converging, source.relative.IsDocumentWay) ∧
    (converging.Pairwise fun source other => source.relative.same other.relative = false) ∧
    (convertAll intoOut detour converging).1 =
      [⟨⟨"p/a1/../y.json"⟩, .ok ⟨unknownText, some ⟨"out/a1/../y.d.ts"⟩, 1⟩⟩,
        ⟨⟨"q/y.json"⟩, .ok ⟨nullText, some ⟨"out/y.d.ts"⟩, 1⟩⟩] ∧
    (convertAll intoOut detour converging).2.read ⟨"out/a1/../y.d.ts"⟩ = .ok nullText ∧
    ¬List.Forall₂ (Kept (convertAll intoOut detour converging).2 ⟨"out"⟩) converging
      (convertAll intoOut detour converging).1 := by
  have hways : ∀ source ∈ converging, source.relative.IsDocumentWay := by
    simp only [converging, List.forall_mem_cons]
    exact ⟨⟨by decide, by decide, "y", by decide⟩, ⟨by decide, by decide, "y", by decide⟩, nofun⟩
  obtain ⟨after, hafter⟩ : ∃ after, after =
    (write detour ⟨"out"⟩ ⟨⟨"p/a1/../y.json"⟩, ⟨"a1/../y.json"⟩⟩ unknownText).2 := ⟨_, rfl⟩
  have hwrite : write detour ⟨"out"⟩ ⟨⟨"p/a1/../y.json"⟩, ⟨"a1/../y.json"⟩⟩ unknownText =
      (.ok ⟨"out/a1/../y.d.ts"⟩, after) := by
    rw [hafter]
    rfl
  have hread : after.read ⟨"q/y.json"⟩ = .ok "\x7b\"type\": \"null\"\x7d" := by
    rw [hafter]
    rfl
  obtain ⟨last, hlast⟩ : ∃ last, last =
    (write after ⟨"out"⟩ ⟨⟨"q/y.json"⟩, ⟨"y.json"⟩⟩ nullText).2 := ⟨_, rfl⟩
  have hwrite' : write after ⟨"out"⟩ ⟨⟨"q/y.json"⟩, ⟨"y.json"⟩⟩ nullText =
      (.ok ⟨"out/y.d.ts"⟩, last) := by
    rw [hlast, hafter]
    rfl
  have hover : last.read ⟨"out/a1/../y.d.ts"⟩ = .ok nullText := by
    rw [hlast, hafter]
    rfl
  have hall : convertAll intoOut detour converging = _ :=
    convertAll_pair rfl rfl hwrite hread rfl hwrite'
  rw [hall]
  refine ⟨ofInputs_detour, hways, by decide, rfl, hover, ?_⟩
  intro hkept
  obtain ⟨hfirst, -⟩ := List.forall₂_cons.1 hkept
  have htext := hover.symm.trans (hfirst.read _ rfl)
  simp [unknownText, nullText] at htext

end Source
end SchemaTypes
