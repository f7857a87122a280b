import SchemaTypes.Proofs.Files.Ways

/-!
# Ancestors of paths

The directories that a path lies in have paths that are cut off at its pieces
(`FilePath.ancestorsOf`). Each of these is a path of its own (`FilePath.fitting_concat`), and before
the name that a path ends with they are those of its parent (`FilePath.exists_parent?_of_pieces`).
-/

namespace SchemaTypes
namespace FilePath

variable {p : FilePath} {ps after : List Piece} {piece : Piece}

/-! ## Ancestors -/

/-- Void pieces at the end have no ancestors of their own. -/
theorem ancestorsOf_dropWhile (ps : List Piece) :
    ancestorsOf (ps.dropWhile Piece.isVoid) = ancestorsOf ps := by
  induction ps with
  | nil => rfl
  | cons piece rest ih =>
    cases hvoid : piece.isVoid with
    | true => rw [List.dropWhile_cons_of_pos hvoid, ih, ancestorsOf, if_pos hvoid]
    | false => rw [List.dropWhile_cons_of_neg (by simp [hvoid])]

/-- The path of pieces from the first one on is an ancestor, if the last one stands for a part. -/
theorem ancestorsOf_concat (ps : List Piece) (piece : Piece) :
    ancestorsOf (ps ++ [piece]).reverse =
      if piece.isVoid then ancestorsOf ps.reverse
      else ofPieces (ps ++ [piece]) :: ancestorsOf ps.reverse := by
  rw [List.reverse_append, List.reverse_singleton, List.singleton_append, ancestorsOf,
    List.reverse_cons, List.reverse_reverse]

/-- The ancestors of a path that pieces are put together to are theirs. -/
theorem Fitting.ancestors_ofPieces (h : Fitting ps) :
    (ofPieces ps).ancestors = ancestorsOf ps.reverse :=
  h.apply_pieces_ofPieces (fun ps => ancestorsOf ps.reverse) rfl rfl

/-- Pieces from the first one to one that stands for a part are a path of their own. -/
theorem fitting_concat (h : p.pieces = (ps ++ [piece]) ++ after) (hvoid : piece.isVoid = false) :
    Fitting (ps ++ [piece]) := by
  have hkept : (ps ++ [piece]).rdropWhile Piece.isVoid = ps ++ [piece] :=
    List.rdropWhile_concat_neg _ _ _ (by simp [hvoid])
  rw [← hkept]
  refine fitting_rdropWhile (h.trans (List.nil_append _).symm) fun first hfirst => ?_
  obtain ⟨others, hothers⟩ := List.head?_eq_some_iff.1 hfirst
  rw [hothers] at h
  cases hvoid' : first.isVoid with
  | false => rfl
  | true =>
    have hnil := eq_nil_of_isVoid h hvoid'
    rw [(List.append_eq_nil_iff.1 hnil).1] at hothers
    obtain ⟨-, hpiece⟩ | ⟨-, hpiece⟩ := List.append_eq_singleton_iff.1 hothers
    · cases hpiece
      cases hvoid.symm.trans hvoid'
    · cases hpiece

/-- The last piece of a path that ends with a name stands for the name. -/
theorem EndsNamed.exists_pieces_eq (h : p.EndsNamed) :
    ∃ ps last, ∃ name : EntryName, p.pieces = ps ++ [last] ∧ last.chars = name.text.toList ∧
      last.part? = some (.name name.text) := by
  obtain ⟨init, name, hname⟩ := h
  obtain ⟨ps, lasts, hpieces, -, hlasts⟩ :=
    List.map_eq_append_iff.1 ((map_chars_pieces p).trans hname)
  obtain ⟨last, rfl, hlast⟩ := List.map_eq_singleton_iff.1 hlasts
  refine ⟨ps, last, name, hpieces, hlast, ?_⟩
  have hinner := innerPart?_name name
  have hdot : name.text.toList ≠ ['.'] := fun hdot => by
    rw [hdot] at hinner
    cases hinner
  obtain ⟨first, rest, heq, hfirst, hrest⟩ := p.exists_pieces_eq
  rw [hpieces] at heq
  cases ps with
  | nil =>
    cases heq
    rcases hfirst with rfl | hfirst
    · exact absurd (String.toList_injective hlast.symm) name.isStep.1
    · rw [hfirst, hlast, ofChars_of_ne_dot hdot]
      exact hinner
  | cons other more =>
    cases heq
    rw [hrest last (List.mem_append_right _ (.head _)), hlast]
    exact hinner

/-- Before the name that a path ends with are the pieces of its parent. -/
theorem exists_parent?_of_pieces {last : Piece} {name : String} (h : p.pieces = ps ++ [last])
    (hlast : last.part? = some (.name name)) :
    ∃ directory, p.parent? = some directory ∧ directory.ancestors = ancestorsOf ps.reverse := by
  have hvoid : last.isVoid = false := by rw [Piece.isVoid, hlast]; rfl
  have hreverse : p.pieces.reverse.dropWhile Piece.isVoid = last :: ps.reverse := by
    rw [h, List.reverse_append, List.reverse_singleton, List.singleton_append,
      List.dropWhile_cons_of_neg (by simp [hvoid])]
  have hparent : p.parent? = some (ofPieces (ps.rdropWhile Piece.isVoid)) := by
    rw [parent?, hreverse]
    split
    · next heq => cases heq
    · next heq =>
      rw [(List.cons.inj heq).1] at hlast
      cases hlast
    · next heq =>
      obtain ⟨-, rfl⟩ := List.cons.inj heq
      rfl
  refine ⟨_, hparent, ?_⟩
  have hfitting : Fitting (ps.rdropWhile Piece.isVoid) := by
    refine fitting_rdropWhile (h.trans (List.nil_append _).symm) fun first hfirst => ?_
    obtain ⟨others, rfl⟩ := List.head?_eq_some_iff.1 hfirst
    cases hvoid' : first.isVoid with
    | false => rfl
    | true => simpa using eq_nil_of_isVoid h hvoid'
  rw [hfitting.ancestors_ofPieces, List.rdropWhile, List.reverse_reverse, ancestorsOf_dropWhile]

/-- A path that ends with a name has a parent, whose pieces are those before the name. -/
theorem EndsNamed.exists_parent? (h : p.EndsNamed) :
    ∃ directory ps last, p.parent? = some directory ∧ p.pieces = ps ++ [last] ∧
      directory.ancestors = ancestorsOf ps.reverse := by
  obtain ⟨ps, last, name, hpieces, -, hlast⟩ := h.exists_pieces_eq
  obtain ⟨directory, hparent, hancestors⟩ := exists_parent?_of_pieces hpieces hlast
  exact ⟨directory, ps, last, hparent, hpieces, hancestors⟩

/-! ## Paths of the first pieces -/

/-- The path of the first pieces starts where the path does. -/
theorem isAbsolute_ofPieces (h : p.pieces = (ps ++ [piece]) ++ after)
    (hvoid : piece.isVoid = false) : (ofPieces (ps ++ [piece])).isAbsolute = p.isAbsolute := by
  obtain ⟨part, hpart⟩ := Option.isSome_iff_exists.1 (Option.isNone_eq_false_iff.1 hvoid)
  have hne : (ps ++ [piece]).filterMap (·.part?) ≠ [] := by
    rw [List.filterMap_append, List.filterMap_cons_some hpart]
    exact List.append_ne_nil_of_right_ne_nil _ (List.cons_ne_nil _ _)
  have hhead : (ofPieces (ps ++ [piece])).parts.head? = p.parts.head? := by
    have hparts : p.parts = (ps ++ [piece]).filterMap (·.part?) ++ after.filterMap (·.part?) := by
      rw [parts, h, List.filterMap_append]
    obtain ⟨first, rest, hfirst⟩ := List.exists_cons_of_ne_nil hne
    rw [(fitting_concat h hvoid).parts_ofPieces, hparts, hfirst]
    rfl
  exact Bool.eq_iff_iff.2 (isAbsolute_iff.trans (hhead ▸ isAbsolute_iff.symm))

end FilePath
end SchemaTypes
