import SchemaTypes.Proofs.Files.Put

/-!
# Settled paths

A path may go through directories that have nothing to do with its place: those that a step up
leaves. A path is settled if these are there (`FileSystem.Settled`), and a path without a step up
always is. Then all that it goes through is a directory that is there or lies on the way to its
place (`FileSystem.directory_or_prefix_of_mem_trail`), so a walk fails at a file, if there is one on
the way, and else only if there is nothing at its place (`FileSystem.locate_of_hasFile`,
`FileSystem.locate_of_not_hasFile`).
-/

namespace SchemaTypes
namespace FileSystem

open FilePath

variable {fs : FileSystem} {p : FilePath} {root : Node} {place way : List EntryName}
  {cs : List Char} {css css' : List (List Char)}

/-! ## Steps along chunks -/

/-- A chunk leads nowhere, up, or to an entry. -/
theorem leadBy_cases (hcs : '/' ∉ cs) (place : List EntryName) :
    leadBy place cs = place ∨ cs = ['.', '.'] ∧ leadBy place cs = place.dropLast ∨
      ∃ name : EntryName, cs = name.text.toList ∧ leadBy place cs = place ++ [name] := by
  cases hpart : innerPart? cs with
  | none => exact .inl (by rw [leadBy, hpart]; rfl)
  | some part =>
    obtain ⟨hstep, htext⟩ := isStep_of_innerPart? hcs hpart
    cases hstep with
    | parent =>
      refine .inr (.inl ⟨?_, by rw [leadBy, hpart]; rfl⟩)
      rw [← htext]
      simp [PathPart.text]
    | name name =>
      refine .inr (.inr ⟨name, htext.symm, ?_⟩)
      rw [← htext]
      exact leadBy_name place name

/-- Every step up along chunks leaves a directory that is there. -/
def SettledFrom (root : Node) (place : List EntryName) (css : List (List Char)) : Prop :=
  ∀ before after, css = before ++ ['.', '.'] :: after →
    root.status (before.foldl leadBy place) = .directory

/-- Chunks are settled if those behind the first are from where that leads, and the first may be a
step up only from a directory that is there. -/
theorem settledFrom_cons_iff : SettledFrom root place (cs :: css) ↔
    (cs = ['.', '.'] → root.status place = .directory) ∧
      SettledFrom root (leadBy place cs) css := by
  constructor
  · intro h
    exact ⟨fun hcs => h [] css (by rw [hcs]; rfl),
      fun before after heq => h (cs :: before) after (congrArg (cs :: ·) heq)⟩
  · rintro ⟨hfirst, hrest⟩ before after heq
    cases before with
    | nil =>
      rw [List.nil_append] at heq
      exact hfirst (List.cons.inj heq).1
    | cons first more =>
      obtain ⟨rfl, rfl⟩ := List.cons.inj heq
      exact hrest more after rfl

instance : (root : Node) → (place : List EntryName) → (css : List (List Char)) →
    Decidable (SettledFrom root place css)
  | _, _, [] => .isTrue fun before after heq => by simp at heq
  | root, place, cs :: rest =>
    have : Decidable (SettledFrom root (leadBy place cs) rest) :=
      instDecidableSettledFrom root (leadBy place cs) rest
    decidable_of_iff _ settledFrom_cons_iff.symm

/-- The first of settled chunks are settled. -/
theorem SettledFrom.of_append (h : SettledFrom root place (css ++ css')) :
    SettledFrom root place css :=
  fun before after heq => h before (after ++ css') (by rw [heq]; simp)

/-- From what is no directory, settled chunks only go on. -/
theorem prefix_foldl_leadBy (h : SettledFrom root place css) (hcss : ∀ cs ∈ css, '/' ∉ cs)
    (hplace : root.status place ≠ .directory) : place <+: css.foldl leadBy place := by
  induction css generalizing place with
  | nil => exact List.prefix_refl _
  | cons cs rest ih =>
    obtain ⟨hcs, hrest⟩ := List.forall_mem_cons.1 hcss
    obtain ⟨hfirst, htail⟩ := settledFrom_cons_iff.1 h
    rw [List.foldl_cons]
    rcases leadBy_cases hcs place with hlead | ⟨rfl, -⟩ | ⟨name, -, hlead⟩
    · rw [hlead] at htail ⊢
      exact ih htail hrest hplace
    · exact absurd (hfirst rfl) hplace
    · rw [hlead] at htail ⊢
      have hnext : root.status (place ++ [name]) ≠ .directory := by
        intro hdirectory
        refine hplace (Node.status_eq_directory_of_append ?_ (List.cons_ne_nil name []))
        rw [hdirectory]
        nofun
      exact (List.prefix_append place [name]).trans (ih htail hrest hnext)

/-- All that settled chunks go through is a directory that is there or on the way to their place. -/
theorem directory_or_prefix_of_mem_trailFrom (h : SettledFrom root place css)
    (hcss : ∀ cs ∈ css, '/' ∉ cs) (hway : way ∈ trailFrom place css) :
    root.status way = .directory ∨ way <+: css.foldl leadBy place := by
  induction css generalizing place with
  | nil => cases hway
  | cons cs rest ih =>
    obtain ⟨hcs, hrest⟩ := List.forall_mem_cons.1 hcss
    rcases List.mem_cons.1 hway with rfl | hway
    · by_cases hplace : root.status way = .directory
      · exact .inl hplace
      · exact .inr (prefix_foldl_leadBy h hcss hplace)
    · exact ih (settledFrom_cons_iff.1 h).2 hrest hway

/-- The first place that is no directory is that of an entry of one. -/
theorem exists_directory_of_find? (hplace : root.status place = .directory)
    (hcss : ∀ cs ∈ css, '/' ∉ cs)
    (h : (trailFrom place css ++ [css.foldl leadBy place]).find?
      (fun way => !(root.status way).isDirectory) = some way) :
    ∃ above name, way = above ++ [name] ∧ root.status above = .directory := by
  induction css generalizing place with
  | nil => simp [trailFrom, hplace, Status.isDirectory] at h
  | cons cs rest ih =>
    obtain ⟨hcs, hrest⟩ := List.forall_mem_cons.1 hcss
    rw [trailFrom, List.cons_append,
      List.find?_cons_of_neg (by simp [hplace, Status.isDirectory]), List.foldl_cons] at h
    by_cases hnext : root.status (leadBy place cs) = .directory
    · exact ih hnext hrest h
    -- The step leads to an entry, for all others lead from a directory to one.
    · have hfirst : (root.status (leadBy place cs)).isDirectory = false := by
        cases hstatus : root.status (leadBy place cs) with
        | directory => exact absurd hstatus hnext
        | missing | file _ => rfl
      have hway : way = leadBy place cs := by
        cases rest with
        | nil =>
          rw [trailFrom, List.nil_append, List.foldl_nil,
            List.find?_cons_of_pos (by simp [hfirst])] at h
          exact (Option.some.inj h).symm
        | cons next more =>
          rw [trailFrom, List.cons_append, List.find?_cons_of_pos (by simp [hfirst])] at h
          exact (Option.some.inj h).symm
      subst hway
      rcases leadBy_cases hcs place with hlead | ⟨-, hlead⟩ | ⟨name, -, hlead⟩
      · exact absurd (by rw [hlead]; exact hplace) hnext
      · exact absurd (by rw [hlead]; exact Node.status_dropLast hplace) hnext
      · exact ⟨place, name, hlead, hplace⟩

/-! ## Where settled chunks end -/

/-- There is a file at one of some places. -/
def HasFile (root : Node) (ways : List (List EntryName)) : Prop :=
  ∃ way ∈ ways, ∃ content, root.status way = .file content

/-- Settled chunks that go through a file fail there. -/
theorem ending_of_hasFile (hplace : root.status place = .directory)
    (h : SettledFrom root place css) (hcss : ∀ cs ∈ css, '/' ∉ cs)
    (hfile : HasFile root (trailFrom place css)) :
    ending root (trailFrom place css) (css.foldl leadBy place) = .error .notDirectory := by
  obtain ⟨file, hmem, content, hcontent⟩ := hfile
  cases hfind : (trailFrom place css).find? fun way => !(root.status way).isDirectory with
  | none =>
    have hnone := List.find?_eq_none.1 hfind file hmem
    simp [hcontent, Status.isDirectory] at hnone
  | some way =>
    unfold ending
    rw [hfind]
    cases hway : root.status way with
    | file _ => simp [hway]
    | directory => simp [hway]
    | missing =>
      exfalso
      -- Both lie on the way to the place, so one of them lies on the way to the other.
      have hprefix := (directory_or_prefix_of_mem_trailFrom h hcss
        (List.mem_of_find?_eq_some hfind)).resolve_left (by simp [hway])
      have hprefix' := (directory_or_prefix_of_mem_trailFrom h hcss hmem).resolve_left
        (by simp [hcontent])
      obtain ⟨above, name, rfl, habove⟩ :=
        exists_directory_of_find? hplace hcss (by rw [List.find?_append, hfind]; rfl)
      rcases List.prefix_or_prefix_of_prefix hprefix hprefix' with hbelow | hbelow
      · rcases Node.eq_or_directory_of_isPrefix hbelow (by rw [hcontent]; simp) with rfl | hstatus
        · cases hway.symm.trans hcontent
        · cases hway.symm.trans hstatus
      · rcases List.prefix_concat_iff.1 hbelow with rfl | hbelow
        · cases hway.symm.trans hcontent
        · rcases Node.eq_or_directory_of_isPrefix hbelow (by rw [habove]; simp) with rfl | hstatus
          · cases habove.symm.trans hcontent
          · cases hstatus.symm.trans hcontent

/-- Settled chunks that go through no file lead to their place, if there is anything. -/
theorem ending_of_not_hasFile (h : SettledFrom root place css) (hcss : ∀ cs ∈ css, '/' ∉ cs)
    (hfile : ¬ HasFile root (trailFrom place css)) :
    ending root (trailFrom place css) (css.foldl leadBy place) =
      match root.status (css.foldl leadBy place) with
      | .missing => .error .notFound
      | _ => .ok (css.foldl leadBy place) := by
  unfold ending
  cases hfind : (trailFrom place css).find? fun way => !(root.status way).isDirectory with
  | none => rfl
  | some way =>
    have hmem := List.mem_of_find?_eq_some hfind
    have hway : root.status way = .missing := by
      cases hway : root.status way with
      | missing => rfl
      | file content => exact absurd ⟨way, hmem, content, hway⟩ hfile
      | directory => simpa [hway, Status.isDirectory] using List.find?_some hfind
    have hprefix := (directory_or_prefix_of_mem_trailFrom h hcss hmem).resolve_left
      (by simp [hway])
    have hplace : root.status (css.foldl leadBy place) = .missing := by
      by_contra hexists
      rcases Node.eq_or_directory_of_isPrefix hprefix hexists with heq | hstatus
      · exact hexists (heq ▸ hway)
      · cases hway.symm.trans hstatus
    simp [hway, hplace]

/-! ## Paths -/

/-- Every step up in a path leaves a directory that is there. -/
def Settled (fs : FileSystem) (p : FilePath) : Prop :=
  SettledFrom fs.root (fs.origin p) p.chunks

instance (fs : FileSystem) (p : FilePath) : Decidable (fs.Settled p) :=
  inferInstanceAs (Decidable (SettledFrom _ _ _))

/-- A path without a step up is settled. -/
theorem settled_of_notMem (h : .parent ∉ p.parts) : fs.Settled p := by
  intro before after hchunks
  refine absurd ?_ h
  rw [parts_eq, hchunks, innerParts_append]
  exact List.mem_append_right _ (List.mem_append_right _ (.head _))

/-- A walk starts at a directory, if a program works in one. -/
theorem status_origin (h : fs.root.status fs.workingDirectory = .directory) (p : FilePath) :
    fs.root.status (fs.origin p) = .directory := by
  unfold origin
  split
  · rcases Node.eq_or_directory_of_isPrefix (List.nil_prefix) (by rw [h]; simp) with heq | hroot
    · rwa [heq]
    · exact hroot
  · exact h

/-- The chunks of a path hold no slash. -/
theorem slash_notMem_chunks (p : FilePath) : ∀ cs ∈ p.chunks, '/' ∉ cs :=
  fun _ hcs => slash_notMem_of_mem_chunks hcs

/-- What a settled path goes through is a directory that is there or on the way to its place. -/
theorem directory_or_prefix_of_mem_trail (h : fs.Settled p) (hway : way ∈ fs.trail p) :
    fs.root.status way = .directory ∨ way <+: fs.place p :=
  directory_or_prefix_of_mem_trailFrom h (slash_notMem_chunks p) hway

/-- A settled path that goes through a file leads nowhere. -/
theorem locate_of_hasFile (hwd : fs.root.status fs.workingDirectory = .directory)
    (h : fs.Settled p) (hempty : p.text ≠ "") (hfile : HasFile fs.root (fs.trail p)) :
    fs.locate p = .error .notDirectory := by
  rw [locate_eq hempty]
  exact ending_of_hasFile (status_origin hwd p) h (slash_notMem_chunks p) hfile

/-- A settled path that goes through no file leads to its place, if there is anything. -/
theorem locate_of_not_hasFile (h : fs.Settled p) (hempty : p.text ≠ "")
    (hfile : ¬ HasFile fs.root (fs.trail p)) :
    fs.locate p =
      match fs.root.status (fs.place p) with
      | .missing => .error .notFound
      | _ => .ok (fs.place p) := by
  rw [locate_eq hempty]
  exact ending_of_not_hasFile h (slash_notMem_chunks p) hfile

/-- What a settled path leads to, if it goes through no file. -/
theorem node_of_not_hasFile (h : fs.Settled p) (hempty : p.text ≠ "")
    (hfile : ¬ HasFile fs.root (fs.trail p)) :
    fs.node p =
      match fs.root.at? (fs.place p) with
      | none => .error .notFound
      | some node => .ok node := by
  rw [node, locate_of_not_hasFile h hempty hfile]
  cases hat : fs.root.at? (fs.place p) with
  | none =>
    rw [Node.status_eq_missing_iff.2 hat]
    rfl
  | some node =>
    cases node with
    | file content =>
      rw [Node.status_eq_file_iff.2 hat]
      simp only [bind, Except.bind, hat]
      rfl
    | directory entries =>
      rw [Node.status_eq_directory_iff.2 ⟨entries, hat⟩]
      simp only [bind, Except.bind, hat]
      rfl

/-- Reading a settled path gives what is in the file at its place. -/
theorem read_of_not_hasFile (h : fs.Settled p) (hempty : p.text ≠ "")
    (hfile : ¬ HasFile fs.root (fs.trail p)) :
    fs.read p =
      match fs.root.status (fs.place p) with
      | .missing => .error .notFound
      | .directory => .error .isDirectory
      | .file content => (String.fromUTF8? content).elim (.error .notText) .ok := by
  rw [read, node_of_not_hasFile h hempty hfile, Node.status]
  cases fs.root.at? (fs.place p) with
  | none => rfl
  | some node =>
    cases node with
    | directory entries => rfl
    | file content =>
      simp only [bind, Except.bind]
      cases String.fromUTF8? content <;> rfl

/-! ## New entries -/

/-- The walk to where a new entry goes. -/
theorem vacancy?_eq (hchunks : p.chunks = css ++ [cs]) :
    fs.vacancy? p =
      (EntryName.ofText? (String.ofList cs)).bind fun name =>
        (walk fs.root (fs.origin p) (css.map String.ofList)).toOption.bind fun directory =>
          match fs.root.at? directory with
          | some (.directory _) => some (directory ++ [name])
          | _ => none := by
  have hsteps : (fs.start p).2 = css.map String.ofList ++ [String.ofList cs] := by
    show p.chunks.map String.ofList = _
    rw [hchunks, List.map_append]
    rfl
  rw [vacancy?]
  show (do
    let name ← EntryName.ofText? (← (fs.start p).2.getLast?)
    let directory ← (walk fs.root (fs.origin p) (fs.start p).2.dropLast).toOption
    match fs.root.at? directory with
    | some (.directory _) => some (directory ++ [name])
    | _ => none) = _
  rw [hsteps, List.getLast?_concat, List.dropLast_concat]
  rfl

/-- A walk through directories only ends where it leads. -/
theorem walk_of_forall (hcss : ∀ cs ∈ css, '/' ∉ cs)
    (hall : ∀ way ∈ trailFrom place css ++ [css.foldl leadBy place],
      root.status way = .directory) :
    walk root place (css.map String.ofList) = .ok (css.foldl leadBy place) := by
  obtain ⟨htrail, hend⟩ := List.forall_mem_append.1 hall
  cases css with
  | nil => rfl
  | cons cs rest =>
    rw [walk_eq (List.cons_ne_nil cs rest) hcss, ending, List.find?_eq_none.2 fun way hway => by
      simp [htrail way hway, Status.isDirectory]]
    show (match root.status ((cs :: rest).foldl leadBy place) with
      | .missing => .error .notFound
      | _ => .ok ((cs :: rest).foldl leadBy place) : Except FileFault (List EntryName)) = _
    rw [hend _ (.head _)]

/-- A path that goes through directories only and ends with a name has a place for an entry. -/
theorem vacancy?_of_forall {name : EntryName} (hchunks : p.chunks = css ++ [name.text.toList])
    (hall : ∀ way ∈ fs.trail p, fs.root.status way = .directory) :
    fs.vacancy? p = some (fs.place p) := by
  have hslash := slash_notMem_chunks p
  rw [hchunks] at hslash
  rw [trail, hchunks, trailFrom_concat] at hall
  have hname : EntryName.ofText? (String.ofList name.text.toList) = some name := by
    rw [String.ofList_toList]
    exact dif_pos name.isStep
  obtain ⟨entries, hentries⟩ :=
    Node.status_eq_directory_iff.1 (hall _ (List.mem_append_right _ (.head _)))
  rw [vacancy?_eq hchunks, hname,
    walk_of_forall (fun cs hcs => hslash cs (List.mem_append_left _ hcs)) hall, place, hchunks,
    List.foldl_append]
  show (match fs.root.at? (css.foldl leadBy (fs.origin p)) with
    | some (.directory _) => some (css.foldl leadBy (fs.origin p) ++ [name])
    | _ => none) = some (leadBy _ _)
  rw [hentries, leadBy_name]

/-- A path that goes through something else has none. -/
theorem vacancy?_eq_none (hway : way ∈ fs.trail p) (h : fs.root.status way ≠ .directory) :
    fs.vacancy? p = none := by
  obtain ⟨init, last, hchunks⟩ :=
    (List.eq_nil_or_concat p.chunks).resolve_left p.chunks_ne_nil
  rw [List.concat_eq_append] at hchunks
  have hslash := slash_notMem_chunks p
  rw [hchunks] at hslash
  rw [trail, hchunks, trailFrom_concat] at hway
  rw [vacancy?_eq hchunks, Option.bind_eq_none_iff]
  intro name _
  rw [Option.bind_eq_none_iff]
  intro directory hwalk
  split
  · next entries hentries =>
    exfalso
    have hdirectory := Node.status_eq_directory_iff.2 ⟨entries, hentries⟩
    cases init with
    | nil =>
      cases hwalk
      rw [List.mem_singleton.1 hway] at h
      exact h hdirectory
    | cons first more =>
      rw [walk_eq (List.cons_ne_nil _ _) fun cs hcs => hslash cs (List.mem_append_left _ hcs)]
        at hwalk
      cases hending : ending fs.root (trailFrom (fs.origin p) (first :: more))
        ((first :: more).foldl leadBy (fs.origin p)) with
      | error fault =>
        rw [hending] at hwalk
        cases hwalk
      | ok place =>
        rw [hending] at hwalk
        cases hwalk
        obtain ⟨rfl, -, htrail⟩ := eq_of_ending_eq_ok hending
        rcases List.mem_append.1 hway with hway | hway
        · exact h (htrail way hway)
        · rw [List.mem_singleton.1 hway] at h
          exact h hdirectory
  · rfl

end FileSystem
end SchemaTypes
