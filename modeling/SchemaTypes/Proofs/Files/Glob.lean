import SchemaTypes.Files.Glob
import SchemaTypes.Proofs.Files.Walk

/-!
# Where patterns lead

Every step of a pattern goes on below the place that it starts from (`Glob.below_of_mem_follow`), so
what a pattern finds lies below the place to which its first steps lead.
-/

namespace SchemaTypes

open FilePath

variable {fs : FileSystem} {place next path : FilePath} {cs : List Char} {css : List (List Char)}

namespace Glob

variable {ts : List Token} {step : Step} {steps : List Step} {name : String}

/-! ## Steps -/

/-- A path that ends behind a slash, or with a dot behind one: it does not lead to a file. -/
def EndsVoid (p : FilePath) : Prop :=
  ∃ init last, p.chunks = init ++ [last] ∧ innerPart? last = none

/-- A path goes on below a place: it has the parts of the place and some more, or none and nothing
behind the place but slashes and dots. -/
def Below (place next : FilePath) : Prop :=
  ∃ more, next.parts = place.parts ++ more ∧ (more = [] → EndsVoid next)

/-- A path that is written with more than a dot. -/
def Away (p : FilePath) : Prop :=
  p.parts ≠ [] ∧ p.parts ≠ [.here]

/-- A path with a part has a text. -/
theorem Away.text_ne (h : Away place) : place.text ≠ "" :=
  fun hempty => h.1 (parts_of_empty hempty)

/-- A path with more than a dot is not the working directory. -/
theorem Away.same_here (h : Away place) : place.same .here = false := by
  rw [same, decide_eq_false_iff_not]
  exact h.2

/-- Whatever is put behind more than a dot, it is more than a dot. -/
theorem Away.append (h : Away place) {more : List PathPart}
    (hparts : next.parts = place.parts ++ more) : Away next := by
  obtain ⟨hnil, hhere⟩ := h
  obtain ⟨first, rest, hplace⟩ := List.exists_cons_of_ne_nil hnil
  refine ⟨by rw [hparts, hplace]; exact List.cons_ne_nil _ _, fun heq => ?_⟩
  rw [hparts, hplace] at heq
  obtain ⟨rfl, hrest⟩ := List.cons.inj heq
  rw [(List.append_eq_nil_iff.1 hrest).1] at hplace
  exact hhere hplace

/-- What is below a place below a place is below that. -/
theorem Below.trans {other : FilePath} (h : Below place next) (h' : Below next other) :
    Below place other := by
  obtain ⟨more, hparts, -⟩ := h
  obtain ⟨more', hparts', hvoid'⟩ := h'
  refine ⟨more ++ more', by rw [hparts', hparts, List.append_assoc], fun hnil => ?_⟩
  exact hvoid' (List.append_eq_nil_iff.1 hnil).2

/-- Chunks that stand for nothing end with one that does. -/
theorem endsVoid_of_innerParts (h : innerParts path.chunks = []) : EndsVoid path := by
  obtain ⟨init, last, hlast⟩ :=
    (List.eq_nil_or_concat path.chunks).resolve_left path.chunks_ne_nil
  rw [List.concat_eq_append] at hlast
  exact ⟨init, last, hlast,
    List.filterMap_eq_nil_iff.1 h last (hlast ▸ List.mem_append_right _ (.head _))⟩

/-- A path joined to a place is below it. -/
theorem below_join (hplace : Away place) {p : FilePath} (hp : p.isAbsolute = false) :
    Below place (place.join p) := by
  refine ⟨innerParts p.chunks, parts_join hplace.text_ne hp, fun hnil => ?_⟩
  obtain ⟨css, -, -, hchunks⟩ := exists_chunks_join hplace.text_ne hp
  obtain ⟨init, last, hlast, hvoid⟩ := endsVoid_of_innerParts hnil
  exact ⟨css ++ init, last, by rw [hchunks, hlast, List.append_assoc], hvoid⟩

/-- The path of an entry has one part more than that of its directory. -/
theorem parts_child (h : Away place) (name : EntryName) :
    (place.child name).parts = place.parts ++ [.name name.text] := by
  rw [child, h.same_here, if_neg Bool.false_ne_true]
  exact parts_join_name h.text_ne name

mutual

/-- What lies below a node is an entry of the place, or of one that lies below it. -/
theorem exists_of_mem_descendants {P : FilePath → Prop} {found : Found} (node : Node)
    {place : FilePath} (hP : ∀ place name, P place → P (place.child name)) (hplace : P place)
    (h : found ∈ node.descendants place) :
    ∃ above, P above ∧ found.path = above.child found.name := by
  cases node with
  | file content => cases h
  | directory entries => exact exists_of_mem_descendantsOf entries hP hplace h

/-- What entries are and what lies below them are entries of the place, or of one that lies below
it. -/
theorem exists_of_mem_descendantsOf {P : FilePath → Prop} {found : Found}
    (entries : List (EntryName × Node)) {place : FilePath}
    (hP : ∀ place name, P place → P (place.child name)) (hplace : P place)
    (h : found ∈ Node.descendantsOf place entries) :
    ∃ above, P above ∧ found.path = above.child found.name := by
  cases entries with
  | nil => cases h
  | cons entry rest =>
    obtain ⟨name, node⟩ := entry
    rw [Node.descendantsOf] at h
    rcases List.mem_cons.1 h with rfl | h
    · exact ⟨place, hplace, rfl⟩
    · rcases List.mem_append.1 h with h | h
      · exact exists_of_mem_descendants node hP (hP place name hplace) h
      · exact exists_of_mem_descendantsOf rest hP hplace h

end

/-- What lies below a place is an entry of the place, or of one that lies below it. -/
theorem exists_of_mem_descendants_path {P : FilePath → Prop} {found : Found}
    (hP : ∀ place name, P place → P (place.child name)) (hplace : P place)
    (h : found ∈ fs.descendants place) :
    ∃ above, P above ∧ found.path = above.child found.name := by
  unfold FileSystem.descendants at h
  split at h
  · exact exists_of_mem_descendants _ hP hplace h
  · cases h

/-- What lies below a place has more parts. -/
theorem below_of_mem_descendants {found : Found} (hplace : Away place)
    (h : found ∈ fs.descendants place) : Below place found.path := by
  have hchild (q : FilePath) (name : EntryName)
      (hq : ∃ more, q.parts = place.parts ++ more) :
      ∃ more, (q.child name).parts = place.parts ++ more := by
    obtain ⟨more, hmore⟩ := hq
    exact ⟨_, (parts_child (hplace.append hmore) name).trans (by rw [hmore, List.append_assoc])⟩
  obtain ⟨above, ⟨more, hmore⟩, hpath⟩ :=
    exists_of_mem_descendants_path hchild ⟨[], (List.append_nil _).symm⟩ h
  refine ⟨more ++ [.name found.name.text], ?_, fun hnil => by simp at hnil⟩
  rw [hpath, parts_child (hplace.append hmore), hmore, List.append_assoc]

/-- A step of a pattern that looks up an entry looks up a text without a slash. -/
def Step.IsSound : Step → Prop
  | .entry name => '/' ∉ name.toList
  | _ => True

/-- An entry that is looked up is what it is called, below the place where it is looked up. -/
theorem eq_of_mem_follow_entry (h : next ∈ Glob.follow fs place (.entry name)) :
    next = if place.same .here then ⟨name⟩ else place.join ⟨name⟩ := by
  simp only [Glob.follow, List.mem_ite_nil_right, List.mem_singleton] at h
  exact h.2

/-- A wildcard matches entries, and the place itself and the one above it under their names. -/
theorem exists_of_mem_follow_wildcard (h : next ∈ Glob.follow fs place (.wildcard ts)) :
    (∃ name ∈ [".", ".."], next = place.join ⟨name⟩) ∨
      ∃ name : EntryName, next = place.child name := by
  simp only [Glob.follow, List.mem_ite_nil_right, List.mem_append, List.mem_map] at h
  rcases h.2 with ⟨name, hname, rfl⟩ | ⟨name, -, rfl⟩
  · exact .inl ⟨name, (List.mem_filter.1 hname.2).1, rfl⟩
  · exact .inr ⟨name, rfl⟩

/-- A step of a pattern goes on below the place that it starts from. -/
theorem below_of_mem_follow (hplace : Away place) (hstep : step.IsSound)
    (h : next ∈ Glob.follow fs place step) : Below place next := by
  cases step with
  | entry name =>
    rw [eq_of_mem_follow_entry h, hplace.same_here, if_neg Bool.false_ne_true]
    exact below_join hplace (isAbsolute_mk hstep)
  | wildcard tokens =>
    rcases exists_of_mem_follow_wildcard h with ⟨name, hname, rfl⟩ | ⟨name, rfl⟩
    · refine below_join hplace (isAbsolute_mk ?_)
      simp only [List.mem_cons, List.not_mem_nil, or_false] at hname
      rcases hname with rfl | rfl <;> simp
    · exact ⟨_, parts_child hplace name, nofun⟩
  | anywhere tokens =>
    obtain ⟨found, hfound, rfl⟩ := List.mem_map.1 h
    exact below_of_mem_descendants hplace (List.mem_filter.1 hfound).1
  | directories =>
    obtain ⟨found, hfound, rfl⟩ := List.mem_map.1 h
    exact below_of_mem_descendants hplace (List.mem_filter.1 hfound).1

/-- Steps of a pattern go on below the place that the first one starts from. -/
theorem below_of_mem_followAll (hplace : Away place) (hne : steps ≠ [])
    (hsteps : ∀ step ∈ steps, step.IsSound) (h : path ∈ followAll fs place steps) :
    Below place path := by
  induction steps generalizing place with
  | nil => exact absurd rfl hne
  | cons step rest ih =>
    obtain ⟨hstep, hrest⟩ := List.forall_mem_cons.1 hsteps
    obtain ⟨mid, hmid, h⟩ := List.mem_flatMap.1 h
    have hbelow := below_of_mem_follow hplace hstep hmid
    cases rest with
    | nil => rwa [List.mem_singleton.1 h]
    | cons next more =>
      obtain ⟨more, hparts, -⟩ := id hbelow
      exact hbelow.trans (ih (hplace.append hparts) (List.cons_ne_nil _ _) hrest h)

/-- The paths of some steps start from those of the steps before. -/
theorem followAll_append (steps steps' : List Step) : followAll fs place (steps ++ steps') =
    (followAll fs place steps).flatMap fun mid => followAll fs mid steps' := by
  induction steps generalizing place with
  | nil => simp [followAll]
  | cons step rest ih => simp only [List.cons_append, followAll, ih, List.flatMap_assoc]

/-- What steps find is found from a place to which those in front lead. -/
theorem mem_followAll_append {steps' : List Step} :
    path ∈ followAll fs place (steps ++ steps') ↔
      ∃ mid ∈ followAll fs place steps, path ∈ followAll fs mid steps' := by
  rw [followAll_append, List.mem_flatMap]

/-- The steps that look up texts go on with what these texts stand for. -/
theorem parts_of_mem_followAll_entries (hplace : Away place) (hcss : ∀ cs ∈ css, '/' ∉ cs)
    (h : path ∈ followAll fs place (css.map fun cs => .entry (String.ofList cs))) :
    path.parts = place.parts ++ innerParts css := by
  induction css generalizing place with
  | nil =>
    rw [List.mem_singleton.1 h]
    exact (List.append_nil _).symm
  | cons cs rest ih =>
    obtain ⟨hcs, hrest⟩ := List.forall_mem_cons.1 hcss
    obtain ⟨mid, hmid, h⟩ := List.mem_flatMap.1 h
    have hslash : '/' ∉ (String.ofList cs).toList := by rwa [String.toList_ofList]
    have hparts : mid.parts = place.parts ++ innerParts [cs] := by
      rw [eq_of_mem_follow_entry hmid, hplace.same_here, if_neg Bool.false_ne_true,
        parts_join hplace.text_ne (isAbsolute_mk hslash), chunks_mk hslash, String.toList_ofList]
    rw [ih (hplace.append hparts) hrest h, hparts, List.append_assoc, ← innerParts_append]
    rfl

/-- From the working directory, texts lead to what they stand for, if the first one is not empty
and no dot. -/
theorem parts_of_mem_followAll_here (hnil : cs ≠ []) (hdot : cs ≠ ['.'])
    (hcss : ∀ other ∈ cs :: css, '/' ∉ other)
    (h : path ∈ followAll fs .here ((cs :: css).map fun cs => .entry (String.ofList cs))) :
    Away path ∧ path.parts = innerParts (cs :: css) := by
  obtain ⟨hcs, hrest⟩ := List.forall_mem_cons.1 hcss
  obtain ⟨mid, hmid, h⟩ := List.mem_flatMap.1 h
  have hslash : '/' ∉ (String.ofList cs).toList := by rwa [String.toList_ofList]
  have hmid : mid.parts = innerParts [cs] := by
    rw [eq_of_mem_follow_entry hmid, if_pos (by decide), parts_eq, chunks_mk hslash,
      String.toList_ofList, frontParts_of_ne_dot hnil hdot, List.nil_append]
  have haway : Away mid := by
    have hpart : ∃ part, innerPart? cs = some part := by
      unfold innerPart? Piece.ofChars
      split <;> simp_all
    obtain ⟨part, hpart⟩ := hpart
    rw [innerParts, List.filterMap_cons_some hpart] at hmid
    refine ⟨by rw [hmid]; exact List.cons_ne_nil _ _, fun hhere => ?_⟩
    have hstep := (isStep_of_innerPart? hcs hpart).1
    rw [(List.cons.inj (hmid.symm.trans hhere)).1] at hstep
    cases hstep
  have hparts := parts_of_mem_followAll_entries haway hrest h
  refine ⟨haway.append hparts, ?_⟩
  rw [hparts, hmid, ← innerParts_append]
  rfl

/-! ## Paths that do not start at the root -/

/-- A path that does not start at the root, below a directory that does not, does not either. -/
theorem isAbsolute_join {base p : FilePath} (hbase : base.isAbsolute = false)
    (hp : p.isAbsolute = false) : (base.join p).isAbsolute = false := by
  by_cases hempty : base.text = ""
  · rwa [join_of_empty hempty]
  · have hhead (behind : String) :
        (base.text ++ behind).toList.head? = base.text.toList.head? := by
      obtain ⟨c, rest, hcons⟩ := List.exists_cons_of_ne_nil
        fun hnil => hempty (String.toList_injective hnil)
      rw [String.toList_append, hcons]
      rfl
    rw [join, if_neg (by simp [hp])]
    split
    · exact (congrArg (· == some '/') (hhead p.text)).trans hbase
    · exact (congrArg (· == some '/') (hhead p.text)).trans hbase
    · rw [String.append_assoc]
      exact (congrArg (· == some '/') (hhead _)).trans hbase

/-- An entry of a directory that is not below the root is not. -/
theorem isAbsolute_child (hplace : place.isAbsolute = false) (name : EntryName) :
    (place.child name).isAbsolute = false := by
  have hname := isAbsolute_mk name.isStep.2.2.2
  rw [child]
  split
  · exact hname
  · exact isAbsolute_join hplace hname

/-- A pattern that does not start at the root leads to no path that does. -/
theorem isAbsolute_of_mem_follow (hplace : place.isAbsolute = false) (hstep : step.IsSound)
    (h : next ∈ Glob.follow fs place step) : next.isAbsolute = false := by
  have hbelow {found : Found} (hfound : found ∈ fs.descendants place) :
      found.path.isAbsolute = false := by
    obtain ⟨above, habove, hpath⟩ :=
      exists_of_mem_descendants_path (P := fun q => q.isAbsolute = false)
        (fun _ name hq => isAbsolute_child hq name) hplace hfound
    rw [hpath]
    exact isAbsolute_child habove _
  cases step with
  | entry name =>
    rw [eq_of_mem_follow_entry h]
    split
    · exact isAbsolute_mk hstep
    · exact isAbsolute_join hplace (isAbsolute_mk hstep)
  | wildcard ts =>
    rcases exists_of_mem_follow_wildcard h with ⟨name, hname, rfl⟩ | ⟨name, rfl⟩
    · refine isAbsolute_join hplace (isAbsolute_mk ?_)
      simp only [List.mem_cons, List.not_mem_nil, or_false] at hname
      rcases hname with rfl | rfl <;> simp
    · exact isAbsolute_child hplace name
  | anywhere ts =>
    obtain ⟨found, hfound, rfl⟩ := List.mem_map.1 h
    exact hbelow (List.mem_filter.1 hfound).1
  | directories =>
    obtain ⟨found, hfound, rfl⟩ := List.mem_map.1 h
    exact hbelow (List.mem_filter.1 hfound).1

/-- No steps lead from a place that is not below the root to one that is. -/
theorem isAbsolute_of_mem_followAll (hplace : place.isAbsolute = false)
    (hsteps : ∀ step ∈ steps, step.IsSound) (h : path ∈ followAll fs place steps) :
    path.isAbsolute = false := by
  induction steps generalizing place with
  | nil => rwa [List.mem_singleton.1 h]
  | cons step rest ih =>
    obtain ⟨hstep, hrest⟩ := List.forall_mem_cons.1 hsteps
    obtain ⟨mid, hmid, h⟩ := List.mem_flatMap.1 h
    exact ih (isAbsolute_of_mem_follow hplace hstep hmid) hrest h

end Glob
end SchemaTypes
