import SchemaTypes.Proofs.Files.Mirror

/-!
# The files of modules

The module of a document goes below its directory where the document lies below the input: through
the same directories, to a file whose name differs in nothing but the ending
(`FilePath.IsDocumentWay.exists_parts_moduleFile_eq`). So documents to which different ways lead
have modules in different files (`FilePath.IsDocumentWay.same_moduleFile_iff`), and these have
different places in every tree unless a way steps up (`FilePath.IsDocumentWay.place_moduleFile_ne`).
-/

namespace SchemaTypes
namespace FilePath

variable {p q directory : FilePath} {part : PathPart}

/-- The way to a document from a directory, written without a dot in front. -/
structure IsDocumentWay (p : FilePath) : Prop where
  isAbsolute : p.isAbsolute = false
  head?_parts : p.parts.head? ≠ some .here
  isDocument : Source.IsDocument p

/-- Of a path without a root or a dot in front all parts are those of its chunks. -/
theorem innerParts_chunks (h : p.isAbsolute = false) (hhere : p.parts.head? ≠ some .here) :
    innerParts p.chunks = p.parts := by
  have hparts := p.parts_eq
  rcases frontParts_eq_or h with hfront | hfront
  · rw [hparts, hfront, List.nil_append]
  · rw [hparts, hfront] at hhere
    exact absurd rfl hhere

/-- A path without a root or a dot in front keeps its parts below a directory. -/
theorem parts_join_of_head? (h : p.isAbsolute = false) (hhere : p.parts.head? ≠ some .here)
    (directory : FilePath) : (directory.join p).parts = directory.parts ++ p.parts := by
  by_cases hempty : directory.text = ""
  · rw [join_of_empty hempty, parts_of_empty hempty, List.nil_append]
  · rw [parts_join hempty h, innerParts_chunks h hhere]

/-- The name of the file of a module has the other ending. -/
theorem text_moduleName {name : EntryName} {front : String} (h : name.text = front ++ ".json") :
    (moduleName name).text = front ++ ".d.ts" := by
  rw [← stem_append front, ← h]
  rfl

namespace IsDocumentWay

/-- The last part of the way to a document is a name with the ending. -/
theorem exists_parts_eq (h : p.IsDocumentWay) : ∃ directories, ∃ name : EntryName, ∃ front,
    p.parts = directories ++ [.name name.text] ∧ name.text = front ++ ".json" := by
  obtain ⟨front, hfront⟩ := h.isDocument
  rw [fileName?] at hfront
  split at hfront
  · next s hlast =>
    cases hfront
    obtain ⟨directories, hdirectories⟩ := List.getLast?_eq_some_iff.1 hlast
    obtain ⟨name, hname⟩ := exists_entryName (List.mem_of_getLast? hlast)
    exact ⟨directories, name, front, by rw [hdirectories, hname], hname⟩
  · cases hfront

/-- The parts of the way to a document are steps. -/
theorem isStep (h : p.IsDocumentWay) (hpart : part ∈ p.parts) : part.IsStep := by
  rw [← innerParts_chunks h.isAbsolute h.head?_parts] at hpart
  exact isStep_of_mem_innerParts_chunks hpart

/-- The file of a module lies below the directory where the document's file lies, but for the ending
of its name. -/
theorem parts_moduleFile (h : p.IsDocumentWay) {directories : List PathPart} {name : EntryName}
    {front : String} (hparts : p.parts = directories ++ [.name name.text])
    (hname : name.text = front ++ ".json") (directory : FilePath) :
    (directory.moduleFile p).parts =
      directory.parts ++ (directories ++ [.name (front ++ ".d.ts")]) := by
  rw [FilePath.parts_moduleFile hparts h.isAbsolute,
    parts_join_of_head? h.isAbsolute h.head?_parts, hparts, ← List.append_assoc,
    List.dropLast_concat, text_moduleName hname, List.append_assoc]

/-- The paths of two modules have the same parts if and only if the ways to their documents do. -/
theorem parts_moduleFile_eq_iff (hp : p.IsDocumentWay) (hq : q.IsDocumentWay)
    (directory : FilePath) :
    (directory.moduleFile p).parts = (directory.moduleFile q).parts ↔ p.parts = q.parts := by
  obtain ⟨directories, name, front, hparts, hname⟩ := hp.exists_parts_eq
  obtain ⟨directories', name', front', hparts', hname'⟩ := hq.exists_parts_eq
  -- Either way both have the same directories, and the same name in front of the ending.
  have hends (ending : String) :
      directories ++ [.name (front ++ ending)] = directories' ++ [.name (front' ++ ending)] ↔
        directories = directories' ∧ front = front' := by
    constructor
    · intro heq
      obtain ⟨hinit, hlast⟩ := List.append_inj' heq rfl
      exact ⟨hinit, by simpa using hlast⟩
    · rintro ⟨rfl, rfl⟩
      rfl
  rw [hp.parts_moduleFile hparts hname, hq.parts_moduleFile hparts' hname', hparts, hparts',
    hname, hname', List.append_cancel_left_eq, hends, hends]

/-- The module of a document goes to the file below the directory to which the directories on the
way to the document lead, and which has its name with the other ending. -/
theorem exists_parts_moduleFile_eq (h : p.IsDocumentWay) (directory : FilePath) :
    ∃ directories front, p.parts = directories ++ [.name (front ++ ".json")] ∧
      (directory.moduleFile p).parts =
        directory.parts ++ (directories ++ [.name (front ++ ".d.ts")]) := by
  obtain ⟨directories, name, front, hparts, hname⟩ := h.exists_parts_eq
  refine ⟨directories, front, ?_, h.parts_moduleFile hparts hname directory⟩
  rw [hparts, hname]

/-- Two modules go to one path if and only if the ways to their documents are one path. -/
theorem same_moduleFile_iff (hp : p.IsDocumentWay) (hq : q.IsDocumentWay) (directory : FilePath) :
    (directory.moduleFile p).same (directory.moduleFile q) = true ↔ p.same q = true := by
  rw [same, same, decide_eq_true_iff, decide_eq_true_iff]
  exact hp.parts_moduleFile_eq_iff hq directory

end IsDocumentWay

example : moduleFile ⟨"out"⟩ ⟨"a/b.schema.json"⟩ = ⟨"out/a/b.schema.d.ts"⟩ := by decide

/-! ## Places -/

/-- Names lead down to the entries that they name. -/
theorem foldl_lead_names (names : List EntryName) (place : List EntryName) :
    (names.map fun name => PathPart.name name.text).foldl FileSystem.lead place =
      place ++ names := by
  induction names generalizing place with
  | nil => exact (List.append_nil place).symm
  | cons name rest ih =>
    have hname : EntryName.ofText? name.text = some name := dif_pos name.isStep
    rw [List.map_cons, List.foldl_cons, ih, FileSystem.lead, hname, List.append_assoc]
    rfl

/-- Steps that never lead up are names. -/
theorem exists_eq_map_name {parts : List PathPart} (h : ∀ part ∈ parts, part.IsStep)
    (hup : .parent ∉ parts) :
    ∃ names : List EntryName, parts = names.map fun name => .name name.text := by
  induction parts with
  | nil => exact ⟨[], rfl⟩
  | cons part rest ih =>
    obtain ⟨hpart, hrest⟩ := List.forall_mem_cons.1 h
    obtain ⟨names, rfl⟩ := ih hrest fun hmem => hup (.tail _ hmem)
    cases hpart with
    | parent => exact absurd (List.mem_cons_self) hup
    | name name => exact ⟨name :: names, rfl⟩

/-- Names behind the parts of a directory lead down from its place. -/
theorem place_of_parts_eq {names : List EntryName}
    (h : p.parts = directory.parts ++ names.map fun name => .name name.text) (fs : FileSystem) :
    fs.place p = fs.place directory ++ names := by
  have hnames : (names.map fun name => PathPart.name name.text).filter (· ≠ .here) =
      names.map fun name => .name name.text := by
    refine List.filter_eq_self.2 fun part hpart => ?_
    obtain ⟨name, -, rfl⟩ := List.mem_map.1 hpart
    rfl
  rw [FileSystem.place_eq, FileSystem.place_eq, moves, h, List.filter_append, hnames,
    List.foldl_append, foldl_lead_names]
  rfl

/-- The module of a document to which no step up leads has its place below that of the
directory. -/
theorem IsDocumentWay.exists_place_moduleFile (h : p.IsDocumentWay) (hup : .parent ∉ p.parts)
    (directory : FilePath) : ∃ names : List EntryName,
      (directory.moduleFile p).parts =
        directory.parts ++ names.map (fun name => .name name.text) ∧
      ∀ fs : FileSystem, fs.place (directory.moduleFile p) = fs.place directory ++ names := by
  obtain ⟨directories, name, front, hparts, hname⟩ := h.exists_parts_eq
  have hsteps : ∀ part ∈ directories, part.IsStep :=
    fun part hpart => h.isStep (hparts ▸ List.mem_append_left _ hpart)
  obtain ⟨names, hnames⟩ := exists_eq_map_name hsteps
    fun hmem => hup (hparts ▸ List.mem_append_left _ hmem)
  have hfile : (directory.moduleFile p).parts = directory.parts ++
      (names ++ [moduleName name]).map fun name => .name name.text := by
    rw [h.parts_moduleFile hparts hname, List.map_append, ← hnames,
      ← text_moduleName hname]
    rfl
  exact ⟨_, hfile, place_of_parts_eq hfile⟩

/-- Unless a way steps up, the modules of different documents have different places in every tree.
A step up may lead back to where another way never left. -/
theorem IsDocumentWay.place_moduleFile_ne (hp : p.IsDocumentWay) (hq : q.IsDocumentWay)
    (hup : .parent ∉ p.parts) (hup' : .parent ∉ q.parts) (hne : p.same q = false)
    (directory : FilePath) (fs : FileSystem) :
    fs.place (directory.moduleFile p) ≠ fs.place (directory.moduleFile q) := by
  obtain ⟨names, hparts, hplace⟩ := hp.exists_place_moduleFile hup directory
  obtain ⟨names', hparts', hplace'⟩ := hq.exists_place_moduleFile hup' directory
  intro heq
  rw [hplace, hplace', List.append_cancel_left_eq] at heq
  have hsame : p.parts = q.parts := by
    rw [← hp.parts_moduleFile_eq_iff hq directory, hparts, hparts', heq]
  rw [same, decide_eq_false_iff_not] at hne
  exact hne hsame

end FilePath
end SchemaTypes
