import Mathlib
import SchemaTypes.Proofs.Files.Mirror

/-!
# Listing sources

The sources that several inputs name ascend by their paths, and of those that have one path the one
is listed that lies least far below its input (`Source.Lists`). There is only one such list, up to
how its paths are written (`Source.Lists.unique`), so the order of the inputs does not matter, and
neither does how often one of them is given (`Source.lists_ofInputs`).
-/

namespace SchemaTypes

/-! ## The order of paths -/

/-- Parts are ordered by their kinds, and those of one kind by their texts. -/
def PathPart.ranked : (· < · : PathPart → PathPart → Prop) ↪r
    (· < · : ℕ ×ₗ String → ℕ ×ₗ String → Prop) where
  toFun part := toLex (part.rank, part.text)
  inj' a b h := by
    cases a <;> cases b <;> simp_all [PathPart.rank, PathPart.text]
  map_rel_iff' {a b} := by
    show toLex (a.rank, a.text) < toLex (b.rank, b.text) ↔ a.lt b = true
    cases a <;> cases b <;>
      simp [PathPart.rank, PathPart.text, PathPart.lt, Prod.Lex.toLex_lt_toLex]

instance : IsStrictTotalOrder PathPart (· < ·) :=
  PathPart.ranked.isStrictTotalOrder

instance : LinearOrder PathPart :=
  linearOrderOfSTO (· < ·)

namespace Source

variable {fs : FileSystem} {inputs : List String} {sources sources' : List Source}
  {a b source kept first : Source} {rest : List Source} {Named : Source → Prop}

/-- What the order of sources depends on: the parts of the path, and then the parts of the way to
it. -/
def key (source : Source) : List PathPart ×ₗ List PathPart :=
  toLex (source.path.parts, source.relative.parts)

/-- Sources are ordered by their keys. -/
theorem lt_iff : a.lt b = true ↔ a.key < b.key := by
  rw [key, key, Prod.Lex.toLex_lt_toLex, lt, Bool.or_eq_true, Bool.and_eq_true, decide_eq_true_iff,
    decide_eq_true_iff, FilePath.same, decide_eq_true_iff]
  rfl

/-- Sources that were sorted ascend. -/
theorem pairwise_mergeSort (l : List Source) :
    (l.mergeSort fun a b => !b.lt a).Pairwise fun a b => a.key ≤ b.key := by
  have hle (a b : Source) : (!b.lt a) = true ↔ a.key ≤ b.key := by
    rw [Bool.not_eq_true', ← Bool.not_eq_true, lt_iff, not_lt]
  have htrans (a b c : Source) (hab : (!b.lt a) = true) (hbc : (!c.lt b) = true) :
      (!c.lt a) = true :=
    (hle a c).2 (((hle a b).1 hab).trans ((hle b c).1 hbc))
  have htotal (a b : Source) : (!b.lt a || !a.lt b) = true := by
    rw [Bool.or_eq_true, hle, hle]
    exact le_total _ _
  exact (List.pairwise_mergeSort htrans htotal l).imp fun h => (hle _ _).1 h

/-- The order of keys is at first the order of paths. -/
theorem parts_le_of_key_le (h : a.key ≤ b.key) : a.path.parts ≤ b.path.parts := by
  rw [key, key, Prod.Lex.toLex_le_toLex] at h
  exact h.elim le_of_lt fun heq => heq.1.le

/-- Of sources with one path the one with the least key lies least far below its input. -/
theorem key_le_iff (h : a.path.parts = b.path.parts) :
    a.key ≤ b.key ↔ a.relative.parts ≤ b.relative.parts := by
  rw [key, key, h, Prod.Lex.toLex_le_toLex]
  simp

/-! ## One source for each path -/

/-- Sources of which one is kept for each path ascend by their paths, if they were sorted. -/
theorem pairwise_distinctFrom (h : (first :: rest).Pairwise fun a b => a.key ≤ b.key) :
    (distinctFrom first rest).Pairwise fun a b => a.path < b.path := by
  induction rest generalizing first with
  | nil => exact List.pairwise_singleton _ _
  | cons next rest ih =>
    obtain ⟨hfirst, hnext⟩ := List.pairwise_cons.1 h
    rw [distinctFrom]
    split
    · exact ih (List.pairwise_cons.2
        ⟨fun other hother => hfirst other (.tail _ hother), (List.pairwise_cons.1 hnext).2⟩)
    · next hsame =>
      refine List.pairwise_cons.2 ⟨fun other hother => ?_, ih hnext⟩
      have hle : next.path.parts ≤ other.path.parts := by
        rcases List.mem_cons.1 (mem_distinctFrom hother) with rfl | hother
        · exact le_refl _
        · exact parts_le_of_key_le ((List.pairwise_cons.1 hnext).1 other hother)
      have hne : first.path.parts ≠ next.path.parts := fun heq => hsame (decide_eq_true heq)
      have hlt : first.path.parts < next.path.parts :=
        lt_of_le_of_ne (parts_le_of_key_le (hfirst next (.head _))) hne
      exact hlt.trans_le hle

/-- Of sources with one path the first in order is kept, if they were sorted. -/
theorem exists_le_of_mem (h : (first :: rest).Pairwise fun a b => a.key ≤ b.key)
    (hmem : source ∈ first :: rest) : ∃ kept ∈ distinctFrom first rest,
      kept.path.parts = source.path.parts ∧ kept.key ≤ source.key := by
  induction rest generalizing first source with
  | nil =>
    rw [List.mem_singleton.1 hmem]
    exact ⟨first, .head _, rfl, le_refl _⟩
  | cons next rest ih =>
    obtain ⟨hfirst, hnext⟩ := List.pairwise_cons.1 h
    rw [distinctFrom]
    split
    · next hsame =>
      have hrest := List.pairwise_cons.2
        ⟨fun other hother => hfirst other (.tail _ hother), (List.pairwise_cons.1 hnext).2⟩
      rcases List.mem_cons.1 hmem with rfl | hmem
      · exact ih hrest (.head _)
      · rcases List.mem_cons.1 hmem with rfl | hmem
        · -- The source is left out, so the one in front of it is kept, or an even earlier one.
          obtain ⟨kept, hkept, hpath, hle⟩ := ih hrest (.head _)
          exact ⟨kept, hkept, hpath.trans (of_decide_eq_true hsame),
            hle.trans (hfirst _ (.head _))⟩
        · exact ih hrest (.tail _ hmem)
    · rcases List.mem_cons.1 hmem with rfl | hmem
      · exact ⟨_, .head _, rfl, le_refl _⟩
      · obtain ⟨kept, hkept, hkey⟩ := ih hnext hmem
        exact ⟨kept, .tail _ hkept, hkey⟩

/-! ## Lists of sources -/

/-- The sources that are named are listed: they ascend by their paths, and of those that have one
path the one is listed that lies least far below its input. -/
structure Lists (Named : Source → Prop) (sources : List Source) : Prop where
  ascending : sources.Pairwise fun a b => a.path < b.path
  named : ∀ source ∈ sources, Named source
  least : ∀ other, Named other → ∃ source ∈ sources,
    source.path.same other.path = true ∧ ¬other.relative < source.relative

namespace Lists

/-- No path is listed twice. -/
theorem eq_of_parts_eq (h : Lists Named sources) (ha : a ∈ sources) (hb : b ∈ sources)
    (heq : a.path.parts = b.path.parts) : a = b := by
  have hne (a b : Source) (hlt : a.path < b.path) : a.path.parts ≠ b.path.parts :=
    ne_of_lt (a := a.path.parts) hlt
  have hnodup : (sources.map fun source => source.path.parts).Nodup :=
    List.pairwise_map.2 (h.ascending.imp fun {a b} => hne a b)
  exact List.inj_on_of_nodup_map hnodup ha hb heq

/-- For each path that is named, the least key is listed. -/
theorem exists_le (h : Lists Named sources) (ha : Named a) : ∃ source ∈ sources,
    source.path.parts = a.path.parts ∧ source.key ≤ a.key := by
  obtain ⟨source, hsource, hsame, hnot⟩ := h.least a ha
  have hpath : source.path.parts = a.path.parts := of_decide_eq_true hsame
  have hle : source.relative.parts ≤ a.relative.parts := not_lt.1 hnot
  exact ⟨source, hsource, hpath, (key_le_iff hpath).2 hle⟩

/-- Which keys are listed depends only on which sources are named. -/
theorem mem_map_key_iff (h : Lists Named sources) {k : List PathPart ×ₗ List PathPart} :
    k ∈ sources.map key ↔ ∃ a, Named a ∧ a.key = k ∧
      ∀ b, Named b → a.path.parts = b.path.parts → a.key ≤ b.key := by
  rw [List.mem_map]
  constructor
  · rintro ⟨a, ha, rfl⟩
    refine ⟨a, h.named a ha, rfl, ?_⟩
    intro b hb hpath
    obtain ⟨source, hsource, hsame, hle⟩ := h.exists_le hb
    rwa [h.eq_of_parts_eq ha hsource (hpath.trans hsame.symm)]
  · rintro ⟨a, ha, rfl, hleast⟩
    obtain ⟨source, hsource, hsame, hle⟩ := h.exists_le ha
    exact ⟨source, hsource, hle.antisymm (hleast source (h.named source hsource) hsame.symm)⟩

/-- The sources that are named are listed in one way, up to how paths are written. -/
theorem unique (h : Lists Named sources) (h' : Lists Named sources') :
    List.Forall₂ (fun a b => a.path.same b.path = true ∧ a.relative.same b.relative = true)
      sources sources' := by
  have hsorted {l : List Source} (hl : Lists Named l) : (l.map key).Pairwise (· < ·) :=
    List.pairwise_map.2 (hl.ascending.imp fun hlt => Prod.Lex.toLex_lt_toLex.2 (.inl hlt))
  have hkeys : sources.map key = sources'.map key :=
    (hsorted h).eq_of_mem_iff (hsorted h') fun k => by rw [h.mem_map_key_iff, h'.mem_map_key_iff]
  have hall := List.forall₂_map_left_iff.1 (List.forall₂_map_right_iff.1
    (List.forall₂_eq_eq_eq.symm ▸ hkeys : List.Forall₂ Eq (sources.map key) (sources'.map key)))
  refine hall.imp fun a b heq => ?_
  obtain ⟨hpath, hrelative⟩ := Prod.mk.inj (toLex_inj.1 heq)
  exact ⟨decide_eq_true hpath, decide_eq_true hrelative⟩

end Lists

/-- A source is one that an input on a list names. -/
def NamedBy (fs : FileSystem) (inputs : List String) (source : Source) : Prop :=
  ∃ input ∈ inputs, ∃ found, ofInput fs input = .ok found ∧ source ∈ found

/-- The sources that the inputs name are listed. -/
theorem lists_namedBy (h : ofInputs fs inputs = .ok sources) :
    Lists (NamedBy fs inputs) sources := by
  obtain ⟨lists, hlists, h⟩ := Except.bind_eq_ok_iff.1 h
  cases h
  have hnamed (source : Source) : source ∈ lists.flatten.mergeSort (fun a b => !b.lt a) ↔
      NamedBy fs inputs source := by
    rw [List.mem_mergeSort, List.mem_flatten]
    constructor
    · rintro ⟨found, hfound, hsource⟩
      obtain ⟨input, hinput, hof⟩ := Except.exists_of_mem_mapM hlists hfound
      exact ⟨input, hinput, found, hof, hsource⟩
    · rintro ⟨input, hinput, found, hof, hsource⟩
      obtain ⟨found', hfound', hof'⟩ := Except.exists_of_mem_of_mapM hlists hinput
      cases hof.symm.trans hof'
      exact ⟨found, hfound', hsource⟩
  have hsorted := pairwise_mergeSort lists.flatten
  generalize lists.flatten.mergeSort (fun a b => !b.lt a) = sorted at hnamed hsorted
  cases sorted with
  | nil => exact ⟨.nil, nofun, fun other hother => by cases (hnamed other).2 hother⟩
  | cons first rest =>
    refine ⟨pairwise_distinctFrom hsorted,
      fun source hsource => (hnamed source).1 (mem_distinctFrom hsource), ?_⟩
    intro other hother
    obtain ⟨kept, hkept, hpath, hle⟩ := exists_le_of_mem hsorted ((hnamed other).2 hother)
    exact ⟨kept, hkept, decide_eq_true hpath, not_lt.2 ((key_le_iff hpath).1 hle)⟩

/-- The sources of several inputs ascend by their paths, so no path occurs twice. Each of them is
named by an input, and of all that are named and have one path it is the one that lies least far
below its input. Other inputs name the same sources if they are the same but for their order and for
how often each is given. -/
theorem lists_ofInputs (h : ofInputs fs inputs = .ok sources) :
    (sources.Pairwise fun a b => a.path < b.path ∧ a.path.same b.path = false) ∧
    (∀ source ∈ sources, ∃ input ∈ inputs, ∃ found,
      ofInput fs input = .ok found ∧ source ∈ found) ∧
    (∀ input ∈ inputs, ∃ found, ofInput fs input = .ok found ∧
      ∀ other ∈ found, ∃ source ∈ sources,
        source.path.same other.path = true ∧ ¬other.relative < source.relative) ∧
    ∀ inputs', (∀ input, input ∈ inputs' ↔ input ∈ inputs) →
      ∃ sources', ofInputs fs inputs' = .ok sources' ∧
        List.Forall₂ (fun a b => a.path.same b.path = true ∧ a.relative.same b.relative = true)
          sources sources' := by
  have hlists := lists_namedBy h
  have hof : ∀ input ∈ inputs, ∃ found, ofInput fs input = .ok found := by
    intro input hinput
    obtain ⟨lists, hmap, -⟩ := Except.bind_eq_ok_iff.1 h
    obtain ⟨found, -, hfound⟩ := Except.exists_of_mem_of_mapM hmap hinput
    exact ⟨found, hfound⟩
  refine ⟨?_, hlists.named, ?_, ?_⟩
  · refine hlists.ascending.imp fun {a b} hlt => ⟨hlt, decide_eq_false ?_⟩
    exact ne_of_lt (a := a.path.parts) hlt
  · intro input hinput
    obtain ⟨found, hfound⟩ := hof input hinput
    refine ⟨found, hfound, ?_⟩
    intro other hother
    exact hlists.least other ⟨input, hinput, found, hfound, hother⟩
  · intro inputs' hsame
    obtain ⟨lists, hmap⟩ := Except.exists_mapM_eq_ok fun input hinput =>
      hof input ((hsame input).1 hinput)
    have h' : ofInputs fs inputs' =
        .ok (distinct (lists.flatten.mergeSort fun a b => !b.lt a)) :=
      Except.bind_eq_ok_iff.2 ⟨lists, hmap, rfl⟩
    have hnamed : NamedBy fs inputs' = NamedBy fs inputs := by
      funext source
      simp only [NamedBy, hsame]
    exact ⟨_, h', hlists.unique (hnamed ▸ lists_namedBy h')⟩

/-- The document in the directory `a`, told where it lies below that directory. -/
def nearby : Source := ⟨⟨"in/a/x.json"⟩, ⟨"x.json"⟩⟩

/-- A pattern and a directory name one document, and it is listed as the directory names it less
far below: the pattern's way to it is longer. -/
theorem ofInputs_overlapping : ofInputs namesakes ["in/*/x.json", "in/a", "in/x.json"] =
    .ok [namesake "a/x.json", namesake "x.json"] := by
  have hpattern : ofInput namesakes "in/*/x.json" = .ok [namesake "a/x.json"] := by
    have hglob : Glob.parse "in/*/x.json" =
        .ok ⟨.here, [.entry "in", .wildcard [.many], .entry "x.json"], false⟩ := by cbv
    show ofPattern namesakes "in/*/x.json" = _
    rw [ofPattern, hglob]
    rfl
  have hdirectory : ofInput namesakes "in/a" = .ok [nearby] := by
    show ofDirectory namesakes "in/a" = _
    refine ofDirectory_eq_ok_iff.2 ⟨⟨.here, [.entry "in", .entry "a",
      .anywhere ([.many] ++ ".json".toList.map .char)], false⟩, by cbv, ?_⟩
    rfl
  have hfile : ofInput namesakes "in/x.json" = .ok [namesake "x.json"] := rfl
  have hfound : ["in/*/x.json", "in/a", "in/x.json"].mapM (ofInput namesakes) =
      .ok [[namesake "a/x.json"], [nearby], [namesake "x.json"]] := by
    simp only [List.mapM_cons, List.mapM_nil, hpattern, hdirectory, hfile]
    rfl
  have hsorted : [namesake "a/x.json", nearby, namesake "x.json"].Pairwise
      fun a b => (!b.lt a) = true := by decide
  rw [ofInputs, hfound]
  exact congrArg (Except.ok ∘ distinct) (List.mergeSort_of_pairwise hsorted)

/-- The same documents are listed when the inputs are given in another order and one of them
twice. -/
theorem lists_namesakes :
    ∃ sources', ofInputs namesakes ["in/x.json", "in/a", "in/*/x.json", "in/a"] = .ok sources' ∧
      List.Forall₂ (fun a b => a.path.same b.path = true ∧ a.relative.same b.relative = true)
        [namesake "a/x.json", namesake "x.json"] sources' := by
  obtain ⟨-, -, -, hsame⟩ := lists_ofInputs ofInputs_overlapping
  exact hsame ["in/x.json", "in/a", "in/*/x.json", "in/a"] fun input => by simp; tauto

end Source
end SchemaTypes
