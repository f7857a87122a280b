import Mathlib.Data.List.DropRight
import SchemaTypes.Files.Naming
import SchemaTypes.Proofs.Files.Parts

/-!
# Ways between paths

A path is cut between its pieces. What is left is a path of its own (`FilePath.Fitting`), so the way
from a directory to a path below it has the parts behind those of the directory
(`FilePath.parts_relativeTo?`), and the parent of a path has all parts but the last
(`FilePath.parts_parent?`). From this it follows where the module of a document goes
(`FilePath.parts_moduleFile`), and that documents to which different moves lead have modules in
different files (`FilePath.moves_eq_of_parts_moduleFile`).
-/

namespace SchemaTypes
namespace FilePath

variable {p base directory : FilePath} {cs : List Char} {css : List (List Char)} {name : String}

/-! ## Pieces -/

variable {ps before after : List Piece} {piece : Piece} {parts more : List PathPart}

/-- Pieces that are a path of their own: those of the path that is put together of them. -/
structure Fitting (ps : List Piece) : Prop where
  noSlash : ∀ piece ∈ ps, '/' ∉ piece.chars
  fits : ps = [⟨[], some .root⟩] ∨ piecesOf (ps.map (·.chars)) = ps

/-- Pieces that are a path of their own are the chunks of that path, except for the root alone. -/
theorem Fitting.chunks_ofPieces (h : Fitting ps) (hnil : ps ≠ [])
    (hroot : ps ≠ [⟨[], some .root⟩]) : (ofPieces ps).chunks = ps.map (·.chars) := by
  unfold ofPieces
  split
  · exact absurd rfl hroot
  · rw [chunks, String.toList_ofList]
    refine Text.split_intercalate rfl (by simpa using hnil) fun cs hcs c hc => ?_
    obtain ⟨piece, hpiece, rfl⟩ := List.mem_map.1 hcs
    simp only [beq_eq_false_iff_ne]
    rintro rfl
    exact h.noSlash piece hpiece hc

/-- Pieces that are a path of their own are those of that path, but for the empty one that stands
alone or behind the root alone. -/
theorem Fitting.apply_pieces_ofPieces {α : Type} (h : Fitting ps) (f : List Piece → α)
    (hempty : f (pieces ⟨""⟩) = f []) (hroot : f (pieces ⟨"/"⟩) = f [⟨[], some .root⟩]) :
    f (ofPieces ps).pieces = f ps := by
  rcases h.fits with rfl | hfits
  · exact hroot
  · by_cases hnil : ps = []
    · subst hnil
      exact hempty
    · have hne : ps ≠ [⟨[], some .root⟩] := by
        rintro rfl
        simp [piecesOf, Piece.ofChars] at hfits
      show f (piecesOf (ofPieces ps).chunks) = _
      rw [h.chunks_ofPieces hnil hne, hfits]

/-- Pieces that are a path of their own stand for the parts of that path. -/
theorem Fitting.parts_ofPieces (h : Fitting ps) : (ofPieces ps).parts = ps.filterMap (·.part?) :=
  h.apply_pieces_ofPieces (List.filterMap Piece.part?) rfl rfl

/-- A first chunk that is not empty is a piece of its own. -/
theorem piecesOf_of_ne_nil (h : cs ≠ []) :
    piecesOf (cs :: css) = .ofChars true cs :: css.map (.ofChars false) := by
  cases cs with
  | nil => exact absurd rfl h
  | cons c more => rfl

/-- The pieces of a path keep its chunks. -/
theorem map_chars_pieces (p : FilePath) : p.pieces.map (·.chars) = p.chunks := by
  show (piecesOf p.chunks).map (·.chars) = _
  have hrest (css : List (List Char)) :
      (css.map (Piece.ofChars false)).map (·.chars) = css := by
    rw [List.map_map]
    exact List.map_id css
  generalize p.chunks = css
  unfold piecesOf
  split
  · rfl
  · next next rest => exact congrArg ([] :: ·) (hrest (next :: rest))
  · next first rest _ => exact congrArg (first :: ·) (hrest rest)

/-- The pieces of a path are one in front and others that are not. -/
theorem exists_pieces_eq (p : FilePath) : ∃ first rest, p.pieces = first :: rest ∧
    (first = ⟨[], some .root⟩ ∨ first = .ofChars true first.chars) ∧
      ∀ piece ∈ rest, piece = .ofChars false piece.chars := by
  have hrest (css : List (List Char)) :
      ∀ piece ∈ css.map (Piece.ofChars false), piece = .ofChars false piece.chars := by
    intro piece hpiece
    obtain ⟨cs, -, rfl⟩ := List.mem_map.1 hpiece
    rfl
  show ∃ first rest, piecesOf p.chunks = first :: rest ∧ _
  have hne := p.chunks_ne_nil
  unfold piecesOf
  split
  · next hnil => exact absurd hnil hne
  · exact ⟨_, _, rfl, .inl rfl, hrest _⟩
  · exact ⟨_, _, rfl, .inr rfl, hrest _⟩

/-- Pieces of which one in front stands for a part are a path of their own. -/
theorem fitting_cons (hslash : ∀ other ∈ piece :: ps, '/' ∉ other.chars)
    (hfirst : piece = ⟨[], some .root⟩ ∨ piece = .ofChars true piece.chars)
    (hvoid : piece.isVoid = false) (hrest : ∀ other ∈ ps, other = .ofChars false other.chars) :
    Fitting (piece :: ps) where
  noSlash := hslash
  fits := by
    have hps : (ps.map (·.chars)).map (Piece.ofChars false) = ps := by
      rw [List.map_map]
      exact (List.map_congr_left fun other hmem => (hrest other hmem).symm).trans (List.map_id ps)
    rcases hfirst with rfl | hfirst
    · cases ps with
      | nil => exact .inl rfl
      | cons next rest => exact .inr (congrArg (List.cons (⟨[], some .root⟩ : Piece)) hps)
    · refine .inr ?_
      have hne : piece.chars ≠ [] := by
        intro hnil
        rw [hfirst, hnil] at hvoid
        cases hvoid
      rw [List.map_cons, piecesOf_of_ne_nil hne, hps, ← hfirst]

/-- Void pieces at the end stand for nothing. -/
theorem filterMap_dropWhile_isVoid (ps : List Piece) :
    (ps.dropWhile Piece.isVoid).filterMap (·.part?) = ps.filterMap (·.part?) := by
  induction ps with
  | nil => rfl
  | cons piece rest ih =>
    cases hvoid : piece.isVoid with
    | false => rw [List.dropWhile_cons_of_neg (by simp [hvoid])]
    | true =>
      rw [List.dropWhile_cons_of_pos hvoid, ih,
        List.filterMap_cons_none (Option.isNone_iff_eq_none.1 hvoid)]

/-- Pieces stand for the same without the void ones at the end. -/
theorem filterMap_rdropWhile_isVoid (ps : List Piece) :
    (ps.rdropWhile Piece.isVoid).filterMap (·.part?) = ps.filterMap (·.part?) := by
  rw [List.rdropWhile, List.filterMap_reverse, filterMap_dropWhile_isVoid, ← List.filterMap_reverse,
    List.reverse_reverse]

/-- Pieces in a row of a path, of which the first one stands for a part, are a path of their own
without the void ones at the end. -/
theorem fitting_rdropWhile (h : p.pieces = before ++ (ps ++ after))
    (hhead : ∀ piece ∈ ps.head?, piece.isVoid = false) : Fitting (ps.rdropWhile Piece.isVoid) := by
  obtain ⟨voids, hvoids⟩ := List.rdropWhile_prefix Piece.isVoid (l := ps)
  generalize ps.rdropWhile Piece.isVoid = kept at hvoids
  subst hvoids
  cases kept with
  | nil => exact ⟨nofun, .inr rfl⟩
  | cons piece rest =>
    have hvoid : piece.isVoid = false := hhead piece rfl
    obtain ⟨first, others, hpieces, hfirst, hothers⟩ := p.exists_pieces_eq
    have hslash (other : Piece) (hother : other ∈ piece :: rest) : '/' ∉ other.chars := by
      refine slash_notMem_of_mem_chunks (p := p) ?_
      rw [← map_chars_pieces, h]
      refine List.mem_map_of_mem (List.mem_append_right _ (List.mem_append_left _ ?_))
      exact List.mem_append_left _ hother
    cases before with
    | nil =>
      rw [h] at hpieces
      cases hpieces
      exact fitting_cons hslash hfirst hvoid fun other hother =>
        hothers other (List.mem_append_left _ (List.mem_append_left _ hother))
    | cons _ _ =>
      rw [h] at hpieces
      cases hpieces
      have hinner (other : Piece) (hother : other ∈ piece :: rest) :
          other = .ofChars false other.chars :=
        hothers other (List.mem_append_right _
          (List.mem_append_left _ (List.mem_append_left _ hother)))
      refine fitting_cons hslash (.inr ?_) hvoid fun other hother => hinner other (.tail _ hother)
      rw [ofChars_of_ne_dot ?_]
      · exact hinner piece (.head _)
      · intro hdot
        have hpiece := hinner piece (.head _)
        rw [hdot] at hpiece
        rw [hpiece] at hvoid
        cases hvoid

/-- Only the empty path has a void piece in front. -/
theorem eq_nil_of_isVoid (h : p.pieces = piece :: ps) (hvoid : piece.isVoid = true) : ps = [] := by
  change piecesOf p.chunks = piece :: ps at h
  unfold piecesOf at h
  split at h
  · cases h
  · cases h
    cases hvoid
  · next first rest hroot _ =>
    cases h
    have hfirst : first = [] := by
      unfold Piece.isVoid Piece.ofChars at hvoid
      split at hvoid
      · rfl
      · cases hvoid
      · cases hvoid
      · cases hvoid
    cases rest with
    | nil => rfl
    | cons next more => exact (hroot next more hfirst rfl).elim

/-! ## Ways and parents -/

/-- The pieces behind some parts are those behind pieces that stand for these parts. -/
theorem exists_of_dropParts? {parts : List PathPart} (h : dropParts? parts ps = some after) :
    ∃ before, ps = before ++ after ∧ before.filterMap (·.part?) = parts := by
  induction ps generalizing parts with
  | nil =>
    cases parts with
    | nil =>
      cases h
      exact ⟨[], rfl, rfl⟩
    | cons part parts => cases h
  | cons piece rest ih =>
    cases parts with
    | nil =>
      cases h
      exact ⟨[], rfl, rfl⟩
    | cons part parts =>
      rw [dropParts?] at h
      split at h
      · next hnone =>
        obtain ⟨before, rfl, hbefore⟩ := ih h
        exact ⟨piece :: before, rfl, by rw [List.filterMap_cons_none hnone, hbefore]⟩
      · next other hsome =>
        split at h
        · next heq =>
          obtain ⟨before, rfl, hbefore⟩ := ih h
          exact ⟨piece :: before, rfl, by rw [List.filterMap_cons_some hsome, hbefore, heq]⟩
        · cases h

/-- A path has the parts of a directory that it lies below, and those of the way from there. -/
theorem parts_relativeTo? {way : FilePath} (h : p.relativeTo? base = some way) :
    p.parts = base.parts ++ way.parts := by
  obtain ⟨rest, hrest, rfl⟩ := Option.map_eq_some_iff.1 h
  obtain ⟨before, hpieces, hbefore⟩ := exists_of_dropParts? hrest
  have hfitting : Fitting ((rest.dropWhile Piece.isVoid).rdropWhile Piece.isVoid) := by
    have hsuffix := List.takeWhile_append_dropWhile (p := Piece.isVoid) (l := rest)
    rw [← hsuffix, ← List.append_assoc] at hpieces
    rw [← List.append_nil (rest.dropWhile Piece.isVoid)] at hpieces
    refine fitting_rdropWhile hpieces fun piece hpiece => ?_
    have hhead := List.head?_dropWhile_not Piece.isVoid rest
    rwa [hpiece] at hhead
  have hway := hfitting.parts_ofPieces
  rw [filterMap_rdropWhile_isVoid, filterMap_dropWhile_isVoid] at hway
  change p.pieces.filterMap (·.part?) = _ ++ parts (ofPieces _)
  rw [hpieces, List.filterMap_append, hbefore]
  exact congrArg (base.parts ++ ·) hway.symm

/-- There is a way to a path from every directory that has its first parts. -/
theorem exists_relativeTo? (h : p.parts = base.parts ++ more) :
    ∃ way, p.relativeTo? base = some way ∧ way.parts = more := by
  have hdrop (ps : List Piece) (parts : List PathPart)
      (hps : ps.filterMap (·.part?) = parts ++ more) : ∃ rest, dropParts? parts ps = some rest := by
    induction ps generalizing parts with
    | nil =>
      rw [(List.append_eq_nil_iff.1 hps.symm).1]
      exact ⟨[], rfl⟩
    | cons piece rest ih =>
      cases parts with
      | nil => exact ⟨_, rfl⟩
      | cons part parts =>
        rw [dropParts?]
        cases hpart : piece.part? with
        | none =>
          rw [List.filterMap_cons_none hpart] at hps
          exact ih (part :: parts) hps
        | some other =>
          rw [List.filterMap_cons_some hpart] at hps
          obtain ⟨rfl, hrest⟩ := List.cons.inj hps
          obtain ⟨behind, hbehind⟩ := ih parts hrest
          exact ⟨behind, (if_pos rfl).trans hbehind⟩
  obtain ⟨rest, hrest⟩ := hdrop p.pieces base.parts h
  have hway : p.relativeTo? base = some _ := congrArg (Option.map _) hrest
  exact ⟨_, hway, List.append_cancel_left ((parts_relativeTo? hway).symm.trans h)⟩

/-- The parts of a path from the end, void pieces at the end aside. -/
theorem reverse_parts_eq (p : FilePath) :
    p.parts.reverse = (p.pieces.reverse.dropWhile Piece.isVoid).filterMap (·.part?) := by
  rw [filterMap_dropWhile_isVoid, List.filterMap_reverse]
  rfl

/-- The parent of a path has all of its parts but the last. -/
theorem parts_parent? (h : p.parent? = some directory) : directory.parts = p.parts.dropLast := by
  unfold parent? at h
  split at h
  · cases h
  · cases h
  · next last before _ hpieces =>
    cases h
    have hrow : p.pieces = [] ++ (before.reverse ++
        (last :: (p.pieces.reverse.takeWhile Piece.isVoid).reverse)) := by
      have hall := List.takeWhile_append_dropWhile (p := Piece.isVoid) (l := p.pieces.reverse)
      rw [hpieces] at hall
      have hreverse := congrArg List.reverse hall
      simpa using hreverse.symm
    have hfitting : Fitting (before.reverse.rdropWhile Piece.isVoid) := by
      refine fitting_rdropWhile hrow fun piece hpiece => ?_
      obtain ⟨others, hothers⟩ := List.head?_eq_some_iff.1 hpiece
      rw [hothers] at hrow
      cases hvoid : piece.isVoid with
      | false => rfl
      | true => simpa using eq_nil_of_isVoid hrow hvoid
    obtain ⟨part, hpart⟩ : ∃ part, last.part? = some part := by
      have hhead := List.head?_dropWhile_not Piece.isVoid p.pieces.reverse
      rw [hpieces] at hhead
      exact Option.isSome_iff_exists.1 (Option.isNone_eq_false_iff.1 hhead)
    have hparts := p.reverse_parts_eq
    rw [hpieces, List.filterMap_cons_some hpart, List.reverse_eq_cons_iff] at hparts
    have hdirectory := hfitting.parts_ofPieces
    rw [filterMap_rdropWhile_isVoid, List.filterMap_reverse, List.rdropWhile,
      List.reverse_reverse] at hdirectory
    rw [hparts, List.dropLast_concat]
    exact hdirectory

/-- A path whose last part is a name has a parent. -/
theorem exists_parent?_of_fileName? (h : p.fileName? = some name) :
    ∃ directory, p.parent? = some directory := by
  have hparts := p.reverse_parts_eq
  rw [fileName?] at h
  split at h
  · next s hlast =>
    obtain ⟨init, hinit⟩ := List.getLast?_eq_some_iff.1 hlast
    rw [hinit, List.reverse_append] at hparts
    unfold parent?
    split
    · next hnil =>
      rw [hnil] at hparts
      cases hparts
    · next hroot =>
      rw [hroot] at hparts
      cases hparts
    · exact ⟨_, rfl⟩
  · cases h

/-- With another name at its end, a path has the same parts but for the last. -/
theorem parts_withFileName (h : p.fileName? = some name) (other : EntryName) :
    (p.withFileName other.text).parts = p.parts.dropLast ++ [.name other.text] := by
  obtain ⟨directory, hdirectory⟩ := exists_parent?_of_fileName? h
  rw [withFileName, h, hdirectory, ← parts_parent? hdirectory]
  by_cases hempty : directory.text = ""
  · rw [parts_of_empty hempty, List.nil_append, ← parts_name other]
    exact congrArg parts (join_of_empty hempty _)
  · exact parts_join_name hempty other

/-! ## Paths that are put together -/

/-- Steps from a directory are so many parts more. -/
theorem parts_foldl_join (hbase : base.text ≠ "") (h : ∀ part ∈ parts, part.IsStep) :
    (parts.foldl (fun directory part => directory.join ⟨part.text⟩) base).parts =
      base.parts ++ parts := by
  induction parts generalizing base with
  | nil => exact (List.append_nil _).symm
  | cons part rest ih =>
    obtain ⟨hpart, hrest⟩ := List.forall_mem_cons.1 h
    have hparts := parts_join_text hbase hpart
    have htext : (base.join ⟨part.text⟩).text ≠ "" := by
      intro hempty
      rw [parts_of_empty hempty] at hparts
      simp at hparts
    rw [List.foldl_cons, ih htext hrest, hparts, List.append_assoc]
    rfl

/-- The first parts of a path are those of the path that is put together of them. -/
theorem parts_foldl_join_of_prefix (h : parts <+: p.parts) :
    (parts.foldl (fun directory part => directory.join ⟨part.text⟩) (FilePath.mk "")).parts =
      parts := by
  obtain ⟨behind, hbehind⟩ := h
  cases parts with
  | nil => rfl
  | cons part rest =>
    have hpart := parts_text_of_parts_eq_cons hbehind.symm
    have hrest := isStep_of_parts_eq_cons hbehind.symm
    have htext : (FilePath.mk part.text).text ≠ "" := by
      intro hempty
      rw [parts_of_empty hempty] at hpart
      cases hpart
    rw [List.foldl_cons, join_of_empty rfl,
      parts_foldl_join htext fun other hother => hrest other (List.mem_append_left _ hother), hpart]
    rfl

/-! ## The file of a module -/

/-- A name without its ending has only characters of the name. -/
theorem mem_of_mem_stem {c : Char} (h : c ∈ (stem name).toList) : c ∈ name.toList := by
  unfold stem at h
  split at h
  · next rest hreverse =>
    rw [String.toList_ofList, List.mem_reverse] at h
    rw [← List.mem_reverse, hreverse]
    simp [h]
  · exact h

/-- A name with the ending is what is in front of it, and the ending. -/
theorem stem_append (front : String) : stem (front ++ ".json") = front := by
  have hreverse : (front ++ ".json").toList.reverse =
      'n' :: 'o' :: 's' :: 'j' :: '.' :: front.toList.reverse := by
    simp [String.toList_append]
  unfold stem
  rw [hreverse]
  simp

/-- The name of the file of a module. -/
def moduleName (name : EntryName) : EntryName where
  text := stem name.text ++ ".d.ts"
  isStep := by
    have hlength : 5 ≤ (stem name.text ++ ".d.ts").toList.length := by
      simp [String.toList_append]
    refine ⟨?_, ?_, ?_, fun hslash => ?_⟩
    · intro heq
      rw [heq] at hlength
      simp at hlength
    · intro heq
      rw [heq] at hlength
      simp at hlength
    · intro heq
      rw [heq] at hlength
      simp at hlength
    · rw [String.toList_append] at hslash
      rcases List.mem_append.1 hslash with hslash | hslash
      · exact name.isStep.2.2.2 (mem_of_mem_stem hslash)
      · simp at hslash

/-- The file of a module has a name, whatever it is the module of. -/
theorem endsNamed_moduleFile (directory relative : FilePath) :
    (directory.moduleFile relative).EndsNamed := by
  obtain ⟨name, hname⟩ : ∃ name : EntryName,
      name.text = stem (relative.fileName?.getD "") ++ ".d.ts" := by
    cases hfile : relative.fileName? with
    | none => exact ⟨⟨".d.ts", by decide⟩, rfl⟩
    | some s =>
      rw [fileName?] at hfile
      split at hfile
      · next hlast =>
        cases hfile
        obtain ⟨entry, rfl⟩ := exists_entryName (List.mem_of_getLast? hlast)
        exact ⟨moduleName entry, rfl⟩
      · cases hfile
  rw [moduleFile, ← hname, withFileName]
  split
  · exact endsNamed_join _ name
  · exact endsNamed_join _ name

/-- The name at the end of a path is that of the path below a directory, too. -/
theorem parts_join_concat {way : FilePath} {init : List PathPart} {name : EntryName}
    (h : way.parts = init ++ [.name name.text]) (hway : way.isAbsolute = false)
    (directory : FilePath) :
    ∃ front, (directory.join way).parts = front ++ [.name name.text] := by
  by_cases hempty : directory.text = ""
  · exact ⟨init, by rw [join_of_empty hempty, h]⟩
  · rw [parts_join hempty hway, ← moves_eq_innerParts hway, moves, h, List.filter_append,
      ← List.append_assoc]
    exact ⟨_, rfl⟩

/-- The file of a module has the parts of the document's file below the directory, but for the
last. -/
theorem parts_moduleFile {way : FilePath} {init : List PathPart} {name : EntryName}
    (h : way.parts = init ++ [.name name.text]) (hway : way.isAbsolute = false)
    (directory : FilePath) :
    (directory.moduleFile way).parts =
      (directory.join way).parts.dropLast ++ [.name (moduleName name).text] := by
  have hname {p : FilePath} {front : List PathPart} (hp : p.parts = front ++ [.name name.text]) :
      p.fileName? = some name.text := by
    rw [fileName?, hp, List.getLast?_concat]
  obtain ⟨front, hfront⟩ := parts_join_concat h hway directory
  rw [moduleFile, hname h]
  exact parts_withFileName (hname hfront) (moduleName name)

/-- Modules of documents whose names have the ending go to the same file only if the moves to the
documents are the same. -/
theorem moves_eq_of_parts_moduleFile {way way' : FilePath} {init init' : List PathPart}
    {name name' : EntryName} (h : way.parts = init ++ [.name name.text])
    (h' : way'.parts = init' ++ [.name name'.text]) (hway : way.isAbsolute = false)
    (hway' : way'.isAbsolute = false) (hjson : ∃ front, name.text = front ++ ".json")
    (hjson' : ∃ front, name'.text = front ++ ".json") {directory : FilePath}
    (heq : (directory.moduleFile way).parts = (directory.moduleFile way').parts) :
    way.moves = way'.moves := by
  rw [parts_moduleFile h hway, parts_moduleFile h' hway'] at heq
  obtain ⟨hinit, hlast⟩ := List.append_inj' heq rfl
  obtain ⟨front, hfront⟩ := parts_join_concat h hway directory
  obtain ⟨front', hfront'⟩ := parts_join_concat h' hway' directory
  have hnames : name.text = name'.text := by
    obtain ⟨s, hs⟩ := hjson
    obtain ⟨s', hs'⟩ := hjson'
    have htext : stem name.text ++ ".d.ts" = stem name'.text ++ ".d.ts" := by
      simpa [moduleName] using hlast
    rw [hs, hs', stem_append, stem_append, String.append_left_inj] at htext
    rw [hs, hs', htext]
  have hjoined : (directory.join way).moves = (directory.join way').moves := by
    rw [hfront, hfront', List.dropLast_concat, List.dropLast_concat] at hinit
    rw [moves, moves, hfront, hfront', hinit, hnames]
  rw [moves_join hway, moves_join hway'] at hjoined
  exact List.append_cancel_left hjoined

end FilePath
end SchemaTypes
