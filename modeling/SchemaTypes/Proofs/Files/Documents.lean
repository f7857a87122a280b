import SchemaTypes.Proofs.Files.Listing
import SchemaTypes.Proofs.Files.Settled

/-!
# The documents below a directory

A directory stands for the pattern for the documents below it without the slashes at its end. With
them the pattern finds the same paths, if it finds anything (`Glob.paths_documents_of_slashes`). But
what is no file is left out only if the input is the pattern: a directory whose name has the ending
of documents is a source of the directory in which it lies (`Source.ofInputs_documents`).
-/

namespace SchemaTypes

open FilePath

variable {fs : FileSystem} {place next path : FilePath} {cs : List Char}
  {css : List (List Char)} {text : String}

namespace Glob

variable {ts : List Token} {steps : List Step}

/-! ## Slashes at the end -/

/-- Slashes at the end of a text do not change where it starts. -/
theorem isAbsolute_append_replicate (text : String) (n : Nat) :
    (FilePath.mk (text ++ String.ofList (List.replicate n '/') ++ "/")).isAbsolute =
      (FilePath.mk (text ++ "/")).isAbsolute := by
  simp only [isAbsolute, String.toList_append, String.toList_ofList]
  cases text.toList with
  | nil => cases n <;> rfl
  | cons c rest => rfl

/-- Slashes at the end of a text are empty chunks to look up. -/
theorem entriesOf_append_replicate (text : String) (n : Nat) :
    entriesOf (text ++ String.ofList (List.replicate n '/')) =
      entriesOf text ++ List.replicate n [] := by
  have hchunks : chunks ⟨text ++ String.ofList (List.replicate n '/')⟩ =
      chunks ⟨text⟩ ++ List.replicate n [] := by
    rw [chunks, String.toList_append, String.toList_ofList]
    exact Source.split_append_replicate _ n
  rw [entriesOf, entriesOf, isAbsolute_append_replicate, hchunks]
  split
  · exact List.tail_append_of_ne_nil (chunks_ne_nil _)
  · rfl

/-- A path with a slash at its end has the parts of the path. -/
theorem parts_join_empty (h : place.text ≠ "") : (place.join ⟨""⟩).parts = place.parts :=
  (parts_join h rfl).trans (List.append_nil _)

/-- A path that leads somewhere with a slash at its end leads there without it. -/
theorem locate_of_join_empty {way : List EntryName} (h : fs.locate (place.join ⟨""⟩) = .ok way) :
    fs.locate place = .ok way := by
  have htext : place.text ≠ "" := by
    intro hempty
    rw [join_of_empty hempty] at h
    cases h
  have hjoin : (place.join ⟨""⟩).text ≠ "" := by
    intro hempty
    rw [FileSystem.locate, if_pos hempty] at h
    cases h
  have horigin : fs.origin (place.join ⟨""⟩) = fs.origin place := by
    have habsolute : (place.join ⟨""⟩).isAbsolute = place.isAbsolute := by
      rw [Bool.eq_iff_iff, isAbsolute_iff, isAbsolute_iff, parts_join_empty htext]
    rw [FileSystem.origin, FileSystem.origin, habsolute]
  obtain ⟨css, hne, hchunks, hjoined⟩ :
      ∃ css, css ≠ [] ∧ (place.chunks = css ∨ place.chunks = css ++ [[]]) ∧
        (place.join ⟨""⟩).chunks = css ++ [[]] := exists_chunks_join htext rfl
  rw [FileSystem.locate_eq hjoin, FileSystem.trail, FileSystem.place, horigin, hjoined] at h
  rw [FileSystem.locate_eq htext, FileSystem.trail, FileSystem.place]
  rcases hchunks with hchunks | hchunks
  · -- With the slash, the place without it is on the way, so it is a directory.
    obtain ⟨rfl, -, hall⟩ := FileSystem.eq_of_ending_eq_ok h
    rw [FileSystem.trailFrom_concat] at hall
    have hslash : ∀ cs ∈ css, '/' ∉ cs := hchunks ▸ fun _ hcs => slash_notMem_of_mem_chunks hcs
    rw [hchunks, ← FileSystem.walk_eq hne hslash, FileSystem.walk_of_forall hslash hall,
      List.foldl_append]
    rfl
  · rwa [hchunks]

/-- What is behind a slash at the end of a path is behind the path. -/
theorem join_join_empty (h : place.text ≠ "") {p : FilePath} (hp : p.isAbsolute = false) :
    (place.join ⟨""⟩).join p = place.join p := by
  have hend {base q : FilePath} (hbase : base.text.toList.getLast? = some '/')
      (hq : q.isAbsolute = false) : base.join q = ⟨base.text ++ q.text⟩ := by
    rw [join, if_neg (by simp [hq]), hbase]
    rfl
  by_cases hlast : place.text.toList.getLast? = some '/'
  · rw [hend hlast rfl, String.append_empty]
  · have hslash {q : FilePath} (hq : q.isAbsolute = false) :
        place.join q = ⟨place.text ++ "/" ++ q.text⟩ := by
      rw [join, if_neg (by simp [hq])]
      split
      · next hnone => exact absurd (String.toList_injective (List.getLast?_eq_none_iff.1 hnone)) h
      · next hsome => exact absurd hsome hlast
      · rfl
    rw [hslash rfl, hslash hp, String.append_empty]
    exact hend (by simp) hp

/-- Entries have the same paths with a slash at the end of the path of their directory. -/
theorem child_join_empty (h : place.text ≠ "") (name : EntryName) :
    (place.join ⟨""⟩).child name = place.child name := by
  rw [child, child, same, same, parts_join_empty h,
    join_join_empty h (isAbsolute_mk name.isStep.2.2.2)]

/-- What lies below a node depends on its path only through the paths of its entries. -/
theorem descendants_congr {place' : FilePath} (h : ∀ name, place'.child name = place.child name)
    (node : Node) : node.descendants place' = node.descendants place := by
  cases node with
  | file content => rfl
  | directory entries =>
    simp only [Node.descendants]
    induction entries with
    | nil => rfl
    | cons entry rest ih => rw [Node.descendantsOf, Node.descendantsOf, h, ih]

/-- What lies below a directory has the same paths with a slash at the end of the directory's. -/
theorem descendants_join_empty (h : fs.contains (place.join ⟨""⟩) = true) :
    fs.descendants (place.join ⟨""⟩) = fs.descendants place := by
  obtain ⟨found, hnode⟩ := Except.isOk_iff_exists.1 h
  obtain ⟨way, hlocate, hat⟩ := FileSystem.node_eq_ok_iff.1 hnode
  have htext : place.text ≠ "" := by
    intro hempty
    rw [join_of_empty hempty] at hlocate
    cases hlocate
  have hnode' : fs.node place = .ok found :=
    FileSystem.node_eq_ok_iff.2 ⟨way, locate_of_join_empty hlocate, hat⟩
  rw [FileSystem.descendants, FileSystem.descendants, hnode, hnode']
  exact descendants_congr (child_join_empty htext) found

/-! ## Where the pattern leads -/

/-- An entry that is looked up leads to one place or to none. -/
theorem follow_entry_eq {name : String} (h : next ∈ Glob.follow fs place (.entry name)) :
    Glob.follow fs place (.entry name) = [next] := by
  simp only [Glob.follow, List.mem_ite_nil_right, List.mem_singleton] at h ⊢
  rw [if_pos h.1, h.2]

/-- An empty entry that is looked up leads back to the place, with a slash at its end. -/
theorem of_mem_follow_empty (h : next ∈ Glob.follow fs place (.entry "")) :
    next = place.join ⟨""⟩ ∧ fs.contains next = true := by
  have hnext := eq_of_mem_follow_entry h
  have hcontains : fs.contains next = true := by
    simp only [Glob.follow, List.mem_ite_nil_right, ← hnext] at h
    simpa using h.1
  refine ⟨?_, hcontains⟩
  cases hhere : place.same .here with
  | false => rwa [hhere] at hnext
  | true =>
    rw [hhere] at hnext
    subst hnext
    cases hcontains

/-- Entries that are looked up lead to one place or to none. -/
theorem followAll_entries_eq (h : next ∈ followAll fs place
    (css.map fun cs => .entry (String.ofList cs))) :
    followAll fs place (css.map fun cs => .entry (String.ofList cs)) = [next] := by
  induction css generalizing place with
  | nil => rw [List.mem_singleton.1 h]; rfl
  | cons cs rest ih =>
    obtain ⟨mid, hmid, h⟩ := List.mem_flatMap.1 h
    rw [List.map_cons, followAll, follow_entry_eq hmid, List.flatMap_singleton]
    exact ih h

/-- Where slashes are looked up in front of names at any depth and these are found, they are found
without the slashes. -/
theorem followAll_slashes {n : Nat}
    (h : path ∈ followAll fs place (List.replicate n (.entry "") ++ [.anywhere ts])) :
    followAll fs place (List.replicate n (.entry "") ++ [.anywhere ts]) =
      followAll fs place [.anywhere ts] := by
  induction n generalizing place with
  | zero => rfl
  | succ n ih =>
    rw [List.replicate_succ, List.cons_append] at h ⊢
    obtain ⟨next, hnext, h⟩ := List.mem_flatMap.1 h
    obtain ⟨rfl, hcontains⟩ := of_mem_follow_empty hnext
    rw [followAll, follow_entry_eq hnext, List.flatMap_singleton, ih h]
    simp only [followAll, Glob.follow, descendants_join_empty hcontains]

/-- A pattern that does not end with a slash finds all to which its steps lead. -/
theorem paths_documents (text : String) (fs : FileSystem) : (documents text).paths fs =
    followAll fs (documents text).start (documents text).steps :=
  List.filter_eq_self.2 fun _ _ => rfl

/-- The pattern for the documents below a directory finds the same paths whether there are slashes
at the end of the directory or not, if it finds anything. -/
theorem paths_documents_of_slashes {directory : String} {n : Nat}
    (hdirectory : directory = text ++ String.ofList (List.replicate n '/'))
    (h : path ∈ (documents directory).paths fs) :
    (documents directory).paths fs = (documents text).paths fs := by
  have hstart : (documents directory).start = (documents text).start := by
    rw [documents, hdirectory, isAbsolute_append_replicate, documents]
  have hsteps : (documents directory).steps =
      (entriesOf text).map (fun cs => .entry (String.ofList cs)) ++
        (List.replicate n (.entry "") ++ [.anywhere documentTokens]) := by
    rw [documents, hdirectory, entriesOf_append_replicate, List.map_append, List.map_replicate,
      List.append_assoc]
  rw [paths_documents, hstart, hsteps] at h
  obtain ⟨mid, hmid, h⟩ := mem_followAll_append.1 h
  rw [paths_documents, paths_documents, hstart, hsteps, documents, followAll_append,
    followAll_append, ← documents, followAll_entries_eq hmid, List.flatMap_singleton,
    List.flatMap_singleton]
  exact followAll_slashes h

/-! ## What the pattern finds -/

/-- Names behind a path with more than a dot are so many parts more. -/
theorem parts_foldl_child_of_away (h : Away place) (names : List EntryName) :
    (names.foldl child place).parts =
      place.parts ++ names.map fun name => .name name.text := by
  induction names generalizing place with
  | nil => exact (List.append_nil _).symm
  | cons first rest ih =>
    have hfirst := parts_child h first
    rw [List.foldl_cons, ih (h.append hfirst), hfirst, List.append_assoc]
    rfl

/-- Names behind a path are so many parts more, but the path alone is no part if it is a dot. -/
theorem parts_foldl_child (h : place.text ≠ "") {names : List EntryName} (hne : names ≠ []) :
    (names.foldl child place).parts =
      (if place.same .here then [] else place.parts) ++ names.map fun name => .name name.text := by
  obtain ⟨first, rest, rfl⟩ := List.exists_cons_of_ne_nil hne
  have hfirst : (place.child first).parts =
      (if place.same .here then [] else place.parts) ++ [.name first.text] := by
    rw [child]
    split
    · exact parts_name first
    · exact parts_join_name h first
  have haway : Away (place.child first) := by
    rw [Away, hfirst]
    cases (if place.same .here then [] else place.parts) <;> simp
  rw [List.foldl_cons, parts_foldl_child_of_away haway, hfirst, List.append_assoc]
  rfl

/-- What lies below a place has names behind the path of the place. -/
theorem exists_foldl_child_of_mem_descendants {found : Found} (h : found ∈ fs.descendants place) :
    ∃ names : List EntryName, names ≠ [] ∧ found.path = names.foldl child place := by
  have hchild (p : FilePath) (name : EntryName)
      (hp : ∃ names : List EntryName, p = names.foldl child place) :
      ∃ names : List EntryName, p.child name = names.foldl child place := by
    obtain ⟨names, rfl⟩ := hp
    exact ⟨names ++ [name], (List.foldl_concat child place name names).symm⟩
  obtain ⟨above, ⟨names, rfl⟩, hpath⟩ := exists_of_mem_descendants_path hchild ⟨[], rfl⟩ h
  exact ⟨names ++ [found.name], by simp, hpath.trans (List.foldl_concat child place _ names).symm⟩

/-- No two paths with the same parts are found by the pattern for the documents below a
directory. -/
theorem eq_of_mem_paths_documents {path' : FilePath} (h : path ∈ (documents text).paths fs)
    (h' : path' ∈ (documents text).paths fs) (hparts : path.parts = path'.parts) :
    path = path' := by
  rw [paths_documents, documents, mem_followAll_append] at h h'
  obtain ⟨mid, hmid, h⟩ := h
  obtain ⟨mid', hmid', h'⟩ := h'
  -- All that is found lies below one place.
  rw [followAll_entries_eq hmid, List.mem_singleton] at hmid'
  subst hmid'
  obtain ⟨_, hnext, h⟩ := List.mem_flatMap.1 h
  obtain ⟨_, hnext', h'⟩ := List.mem_flatMap.1 h'
  cases List.mem_singleton.1 h
  cases List.mem_singleton.1 h'
  obtain ⟨found, hfound, rfl⟩ := List.mem_map.1 hnext
  obtain ⟨found', hfound', rfl⟩ := List.mem_map.1 hnext'
  have htext : mid'.text ≠ "" := by
    intro hempty
    obtain ⟨text⟩ := mid'
    subst hempty
    cases hfound
  obtain ⟨names, hne, hnames⟩ :=
    exists_foldl_child_of_mem_descendants (List.mem_of_mem_filter hfound)
  obtain ⟨names', hne', hnames'⟩ :=
    exists_foldl_child_of_mem_descendants (List.mem_of_mem_filter hfound')
  rw [hnames, hnames', parts_foldl_child htext hne, parts_foldl_child htext hne'] at hparts
  have hinjective : Function.Injective fun name : EntryName => PathPart.name name.text := by
    rintro ⟨text, hstep⟩ ⟨text', hstep'⟩ heq
    cases heq
    rfl
  rw [hnames, hnames', List.map_injective_iff.2 hinjective (List.append_cancel_left hparts)]

end Glob

namespace Source

open Glob

variable {directory input : String} {glob : Glob} {named : List Source}

/-- Sources that ascend by their paths are determined by which they are. -/
theorem eq_of_pairwise {sources sources' : List Source}
    (h : sources.Pairwise fun a b => a.path < b.path)
    (h' : sources'.Pairwise fun a b => a.path < b.path)
    (hmem : ∀ source, source ∈ sources ↔ source ∈ sources') : sources = sources' := by
  have : Std.Irrefl fun a b : Source => a.path < b.path :=
    ⟨fun a => lt_irrefl a.path.parts⟩
  have : Std.Antisymm fun a b : Source => a.path < b.path :=
    ⟨fun a b hab hba => (lt_asymm (a := a.path.parts) (b := b.path.parts) hab hba).elim⟩
  exact h.eq_of_mem_iff h' hmem

/-- The sources of one input, of which no two have paths with the same parts, are those that it
names, in the order of their paths. -/
theorem exists_ofInputs_singleton (h : ofInput fs input = .ok named)
    (hparts : ∀ a ∈ named, ∀ b ∈ named, a.path.parts = b.path.parts → a = b) :
    ∃ sources, ofInputs fs [input] = .ok sources ∧
      (sources.Pairwise fun a b => a.path < b.path) ∧
      ∀ source, source ∈ sources ↔ source ∈ named := by
  have hmap : [input].mapM (ofInput fs) = .ok [named] := by
    rw [List.mapM_cons, h]
    rfl
  have hof : ofInputs fs [input] = .ok _ := Except.bind_eq_ok_iff.2 ⟨_, hmap, rfl⟩
  have hlists := lists_namedBy hof
  have hmem (source : Source) (hsource : NamedBy fs [input] source) : source ∈ named := by
    obtain ⟨_, hinput, found, hfound, hmem⟩ := hsource
    cases List.mem_singleton.1 hinput
    cases h.symm.trans hfound
    exact hmem
  refine ⟨_, hof, hlists.ascending, fun source => ⟨fun hsource => ?_, fun hsource => ?_⟩⟩
  · exact hmem source (hlists.named source hsource)
  · obtain ⟨kept, hkept, hsame, -⟩ := hlists.least source ⟨input, .head _, named, h, hsource⟩
    rwa [← hparts kept (hmem kept (hlists.named kept hkept)) source hsource
      (of_decide_eq_true hsame)]

/-- What is found from a directory depends only on the parts of the directory's path. -/
theorem found_congr {base base' : FilePath} (h : base.parts = base'.parts) (path : FilePath) :
    found base path = found base' path := by
  rw [found, found, relativeTo?, relativeTo?, h]

/-- The directory in front of the pattern for the documents below a directory is that directory. -/
theorem parts_base_documents (hne : directory ≠ "") (hplain : isPattern directory = false) :
    (base ⟨directory ++ "/**/*.json"⟩).parts = (FilePath.mk directory).parts := by
  have hparts : (FilePath.mk (directory ++ "/**/*.json")).parts =
      (FilePath.mk directory).parts ++ [.name "**", .name "*.json"] := by
    rw [parts_eq, parts_eq, chunks_documents, frontParts_chunks_append hne, innerParts_append,
      List.append_assoc]
    rfl
  rw [parts_base, top, hparts,
    List.takeWhile_append_of_pos fun part hpart => by rw [isPattern_text hplain hpart]; rfl,
    List.takeWhile_cons_of_neg (by decide), List.append_nil]

/-- The sources in a directory are what the pattern for the documents below it finds, if it finds
anything. -/
theorem ofInput_directory (hdirectory : fs.isDirectory ⟨directory⟩ = true)
    (hplain : isPattern directory = false) (hpath : path ∈ (documents directory).paths fs) :
    ofInput fs directory = .ok (((documents directory).paths fs).map (found ⟨directory⟩)) := by
  obtain ⟨n, hn⟩ := exists_eq_trimmed_append directory
  have hspecial (c : Char) (hc : c ∈ (String.ofList (trimmed directory)).toList) :
      isSpecial c = false := by
    rw [String.toList_ofList] at hc
    exact isSpecial_of_isPattern hplain (hn ▸ List.mem_append_left _ hc)
  have htext : directory =
      String.ofList (trimmed directory) ++ String.ofList (List.replicate n '/') := by
    rw [← String.ofList_append, ← hn, String.ofList_toList]
  rw [ofInput, if_neg (by simp [hplain]), if_pos hdirectory, ofDirectory_eq_ok_iff]
  exact ⟨_, parse_documents hspecial,
    congrArg (List.map _) (paths_documents_of_slashes htext hpath)⟩

/-- The sources that the pattern for the documents below a directory names are the files that it
finds. -/
theorem ofInput_documents (hne : directory ≠ "") (hplain : isPattern directory = false)
    (hpath : path ∈ (documents directory).paths fs) (hfile : fs.isFile path = true) :
    ofInput fs (directory ++ "/**/*.json") =
      .ok ((((documents directory).paths fs).filter fs.isFile).map (found ⟨directory⟩)) := by
  have hparse := parse_documents fun c hc => isSpecial_of_isPattern hplain hc
  have hspecial : isPattern (directory ++ "/**/*.json") = true := by
    simp [isPattern]
  have hfound : found (base ⟨directory ++ "/**/*.json"⟩) = found ⟨directory⟩ :=
    funext (found_congr (parts_base_documents hne hplain))
  have hsome : ((((documents directory).paths fs).filter fs.isFile).map
      (found ⟨directory⟩)).isEmpty = false := by
    rw [List.isEmpty_eq_false_iff]
    exact List.ne_nil_of_mem (List.mem_map_of_mem (List.mem_filter.2 ⟨hpath, hfile⟩))
  rw [ofInput, if_pos hspecial, ofPattern, hparse, hfound]
  show (if _ then _ else _ : Except InputFault (List Source)) = _
  rw [hsome]
  rfl

/-- No two sources that are found by the pattern have paths with the same parts. -/
theorem eq_of_mem_map_found {base : FilePath} {paths : List FilePath} {source other : Source}
    (hpaths : paths ⊆ (documents directory).paths fs) (h : source ∈ paths.map (found base))
    (h' : other ∈ paths.map (found base)) (hparts : source.path.parts = other.path.parts) :
    source = other := by
  obtain ⟨p, hp, rfl⟩ := List.mem_map.1 h
  obtain ⟨q, hq, rfl⟩ := List.mem_map.1 h'
  rw [path_found, path_found] at hparts
  rw [eq_of_mem_paths_documents (hpaths hp) (hpaths hq) hparts]

/-- A directory and the pattern for the documents below it name the same sources, if the pattern
matches a file, except that the directory names everything whose name has the ending of documents
and the pattern only what is a file. So they name the same if and only if all that the pattern
matches are files. -/
theorem ofInputs_documents (hdirectory : fs.isDirectory ⟨directory⟩ = true)
    (hplain : isPattern directory = false)
    (hglob : Glob.parse (directory ++ "/**/*.json") = .ok glob)
    (hpath : path ∈ glob.paths fs) (hfile : fs.isFile path = true) :
    ∃ sources sources', ofInputs fs [directory] = .ok sources ∧
      ofInputs fs [directory ++ "/**/*.json"] = .ok sources' ∧
      (∀ source ∈ sources', fs.isFile source.path = true) ∧
      sources' = sources.filter (fun source => fs.isFile source.path) ∧
      (sources = sources' ↔ ∀ other ∈ glob.paths fs, fs.isFile other = true) := by
  cases (parse_documents fun c hc => isSpecial_of_isPattern hplain hc).symm.trans hglob
  have hne := ne_of_isDirectory hdirectory
  obtain ⟨sources, hsources, hascending, hmem⟩ := exists_ofInputs_singleton
    (ofInput_directory hdirectory hplain hpath)
    fun _ h _ h' => eq_of_mem_map_found (List.Subset.refl _) h h'
  obtain ⟨sources', hsources', hascending', hmem'⟩ := exists_ofInputs_singleton
    (ofInput_documents hne hplain hpath hfile)
    fun _ h _ h' => eq_of_mem_map_found (fun _ hp => List.mem_of_mem_filter hp) h h'
  have hfilter : sources' = sources.filter fun source => fs.isFile source.path := by
    refine eq_of_pairwise hascending' (hascending.filter _) fun source => ?_
    rw [hmem', List.mem_filter, hmem]
    simp only [List.mem_map, List.mem_filter]
    constructor
    · rintro ⟨p, ⟨hp, hpfile⟩, rfl⟩
      exact ⟨⟨p, hp, rfl⟩, by rwa [path_found]⟩
    · rintro ⟨⟨p, hp, rfl⟩, hpfile⟩
      exact ⟨p, ⟨hp, by rwa [path_found] at hpfile⟩, rfl⟩
  refine ⟨sources, sources', hsources, hsources', ?_, hfilter, ?_⟩
  · intro source hsource
    rw [hfilter] at hsource
    exact (List.mem_filter.1 hsource).2
  · rw [hfilter, eq_comm, List.filter_eq_self]
    constructor
    · intro h other hother
      simpa using h (found ⟨directory⟩ other) ((hmem _).2 (List.mem_map_of_mem hother))
    · intro h source hsource
      obtain ⟨other, hother, rfl⟩ := List.mem_map.1 ((hmem source).1 hsource)
      simpa using h other hother

/-- The directory `docs` with a document and a directory whose name has the ending of documents. -/
def misnamed : FileSystem where
  root := .directory [
    (⟨"docs", by decide⟩, .directory [
      (⟨"a.json", by decide⟩, .file "{}".toUTF8),
      (⟨"b.json", by decide⟩, .directory [])])]
  workingDirectory := []

/-- The directory in the directory `docs` is a source, if that directory is the input, and none, if
the input is the pattern. -/
theorem ofInputs_misnamed : ∃ sources sources', ofInputs misnamed ["docs"] = .ok sources ∧
    ofInputs misnamed ["docs/**/*.json"] = .ok sources' ∧
    (∀ source ∈ sources', misnamed.isFile source.path = true) ∧ sources ≠ sources' := by
  have hglob : Glob.parse ("docs" ++ "/**/*.json") = .ok (documents "docs") :=
    parse_documents (by simp [isSpecial])
  have hpaths : (documents "docs").paths misnamed = [⟨"docs/a.json"⟩, ⟨"docs/b.json"⟩] := rfl
  have hpath : ⟨"docs/a.json"⟩ ∈ (documents "docs").paths misnamed := by
    rw [hpaths]
    exact .head _
  have hpath' : ⟨"docs/b.json"⟩ ∈ (documents "docs").paths misnamed := by
    rw [hpaths]
    exact .tail _ (.head _)
  have hdirectory : misnamed.isDirectory ⟨"docs"⟩ = true := by decide
  obtain ⟨sources, sources', h, h', hfiles, -, hsame⟩ :=
    ofInputs_documents hdirectory (by decide) hglob hpath (by decide)
  exact ⟨sources, sources', h, h', hfiles, fun heq => absurd (hsame.1 heq _ hpath') (by decide)⟩

end Source
end SchemaTypes
