import SchemaTypes.Proofs.TypeExpr.Nesting

/-!
# Operands of a text

The operands of a text are what stands between the bars and ampersands at its outermost level
(`operands`). A text that is put together of operands with a join between any two (`Joined`) has
just these. It is compound if and only if there are two or more, so it is what has to be put into
parentheses where a suffix or a join shall bind to all of it.
-/

namespace SchemaTypes

namespace Scan

/-- Whether a join stands at the front of a text: a bar or an ampersand between blanks, outside of
strings and brackets. -/
def joinsAt (s : Scan) (cs : List Char) : Bool :=
  s = {} && ([' ', '|', ' '].isPrefixOf cs || [' ', '&', ' '].isPrefixOf cs)

/-- The pieces of a text between its joins, when the scan has come to the text and `skip` characters
of a join are still to come. -/
def operandsFrom (s : Scan) : Nat → List Char → List (List Char)
  | _, [] => [[]]
  | skip + 1, _ :: rest => operandsFrom s skip rest
  | 0, c :: rest =>
    if s.joinsAt (c :: rest) then [] :: operandsFrom s 2 rest
    else (operandsFrom (s.step c) 0 rest).modifyHead (c :: ·)

/-- A join is a bar or an ampersand between blanks. -/
theorem joinsAt_iff {s : Scan} {cs : List Char} : s.joinsAt cs = true ↔
    s = {} ∧ ∃ c rest, (c = '|' ∨ c = '&') ∧ cs = ' ' :: c :: ' ' :: rest := by
  simp only [joinsAt, Bool.and_eq_true, Bool.or_eq_true, decide_eq_true_eq,
    List.isPrefixOf_iff_prefix, List.IsPrefix]
  constructor
  · rintro ⟨hs, ⟨rest, rfl⟩ | ⟨rest, rfl⟩⟩
    · exact ⟨hs, '|', rest, .inl rfl, rfl⟩
    · exact ⟨hs, '&', rest, .inr rfl, rfl⟩
  · rintro ⟨hs, c, rest, rfl | rfl, rfl⟩
    · exact ⟨hs, .inl ⟨rest, rfl⟩⟩
    · exact ⟨hs, .inr ⟨rest, rfl⟩⟩

end Scan

/-- The operands that a text joins at its outermost level. -/
def operands (text : String) : List String :=
  (Scan.operandsFrom {} 0 text.toList).map String.ofList

namespace Nesting

variable {n n' : Nesting} {c : Char} {cs ds rest : List Char} {ps qs : List (List Char)}
  {operand : Bool} {text : String}

/-! ## Scans -/

/-- What a scan knows of a reading: where it stands, and how many brackets are open. -/
def scan (n : Nesting) : Scan :=
  ⟨n.mode, n.opened.length⟩

/-- A scan goes along with a reading. -/
theorem step_scan (h : n.step c = some n') : n.scan.step c = n'.scan := by
  obtain ⟨mode, opened⟩ := n
  cases mode with
  | escaped =>
    cases h
    rfl
  | quoted =>
    simp only [step, scan, Scan.step] at h ⊢
    split_ifs at h ⊢ <;> cases h <;> rfl
  | plain =>
    simp only [step, scan, Scan.step] at h ⊢
    split_ifs at h ⊢
    · cases h
      rfl
    · cases h
      rfl
    · cases opened with
      | nil => cases h
      | cons o opened =>
        simp only [close?] at h
        split_ifs at h <;> cases h
        rfl
    · cases h
      rfl

/-- Outside of strings and brackets, an operand does not go on with a bar or an ampersand. -/
theorem Reads.ne_of_scan (h : Reads true n (c :: cs) n') (hmode : n.scan.mode = .plain)
    (hdepth : n.scan.depth = 0) : c ≠ '|' ∧ c ≠ '&' := by
  cases h with
  | cons _ hpermits _ => exact hpermits.single rfl hmode (List.length_eq_zero_iff.1 hdepth)

/-! ## Compound texts -/

/-- There is no join in what is read of an operand. -/
theorem Reads.hasJoin_eq_false (h : Reads true n cs n') (before : Char) :
    Scan.hasJoin n.scan before cs = false := by
  induction h generalizing before with
  | nil => rfl
  | @cons n next n' c rest hstep hpermits hrest ih =>
    have hnone : (n.scan.mode = .plain && n.scan.depth = 0 && (c = '|' || c = '&')) = false := by
      by_contra hjoin
      simp only [Bool.not_eq_false, Bool.and_eq_true, Bool.or_eq_true, decide_eq_true_eq] at hjoin
      obtain ⟨⟨hmode, hdepth⟩, hc⟩ := hjoin
      obtain ⟨hbar, hampersand⟩ := (Reads.cons hstep hpermits hrest).ne_of_scan hmode hdepth
      exact hc.elim hbar hampersand
    rw [Scan.hasJoin, hnone, step_scan hstep, ih]
    rfl

/-- There is a join where a bar or an ampersand stands between blanks behind a phrase. -/
theorem Reads.hasJoin_append (h : Reads operand n cs n') (hend : n' = {}) (hc : c = '|' ∨ c = '&')
    (before : Char) : Scan.hasJoin n.scan before (cs ++ ' ' :: c :: ' ' :: rest) = true := by
  induction h generalizing before with
  | nil =>
    subst hend
    rcases hc with rfl | rfl <;>
      simp [Scan.hasJoin, Scan.step, scan, Scan.isOpening, Scan.isClosing]
  | cons hstep _ _ ih =>
    rw [List.cons_append, Scan.hasJoin, step_scan hstep, ih hend, Bool.or_true]

/-! ## Joined operands -/

/-- A text is put together of operands, with a join between any two. -/
inductive Joined : List (List Char) → List Char → Prop where
  | one {cs : List Char} : Phrase true cs → Joined [cs] cs
  | join {cs ds : List Char} {ps : List (List Char)} {c : Char} :
    Phrase true cs → c = '|' ∨ c = '&' → Joined ps ds →
      Joined (cs :: ps) (cs ++ ' ' :: c :: ' ' :: ds)

namespace Joined

/-- There is an operand. -/
theorem length_pos (h : Joined ps cs) : 0 < ps.length := by
  cases h <;> exact Nat.succ_pos _

/-- A join stands between two texts. -/
theorem append (h : Joined ps cs) (hc : c = '|' ∨ c = '&') (h' : Joined qs ds) :
    Joined (ps ++ qs) (cs ++ ' ' :: c :: ' ' :: ds) := by
  induction h with
  | one hcs => exact .join hcs hc h'
  | join hcs hc _ ih =>
    rw [List.append_assoc]
    exact .join hcs hc ih

/-- A single operand is the whole text. -/
theorem operand_of_length (h : Joined ps cs) (hps : ps.length = 1) : Phrase true cs := by
  cases h with
  | one hcs => exact hcs
  | join _ _ hds => exact absurd (Nat.succ.inj hps) hds.length_pos.ne'

/-- A text of operands is a phrase. -/
theorem phrase (h : Joined ps cs) : Phrase false cs := by
  induction h with
  | one hcs => exact hcs.mono
  | @join cs ds _ c hcs hc _ ih =>
    have hjoin : Phrase false [' ', c, ' '] := by
      refine .of_forall ?_ fun h => absurd h Bool.false_ne_true
      rcases hc with rfl | rfl <;> simp [isWordChar, Scan.isOpening, Scan.isClosing]
    exact hcs.mono.append (hjoin.append ih)

/-- A text of operands is compound if there are two or more. -/
theorem isCompound_iff (h : Joined ps text.toList) :
    isCompound text = true ↔ 1 < ps.length := by
  rw [isCompound]
  generalize text.toList = cs at h
  cases h with
  | one hcs =>
    have hnone : Scan.hasJoin {} '\x00' cs = false := Reads.hasJoin_eq_false hcs '\x00'
    simp [hnone]
  | @join cs ds _ c hcs hc hds =>
    have hjoin : Scan.hasJoin {} '\x00' (cs ++ ' ' :: c :: ' ' :: ds) = true :=
      Reads.hasJoin_append hcs rfl hc '\x00'
    simp [hjoin, hds.length_pos]

/-- Texts of operands with a join between any two. -/
theorem exists_intercalate {texts : List (List Char)} (hc : c = '|' ∨ c = '&') (hne : texts ≠ [])
    (h : ∀ cs ∈ texts, ∃ ps, Joined ps cs) :
    ∃ ps, Joined ps ([' ', c, ' '].intercalate texts) ∧ texts.length ≤ ps.length := by
  induction texts with
  | nil => exact absurd rfl hne
  | cons cs texts ih =>
    obtain ⟨⟨ps, hps⟩, htexts⟩ := List.forall_mem_cons.1 h
    cases texts with
    | nil =>
      rw [List.intercalate_singleton]
      exact ⟨ps, hps, hps.length_pos⟩
    | cons ds texts =>
      obtain ⟨qs, hqs, hlength⟩ := ih (List.cons_ne_nil ds texts) htexts
      have hpos := hps.length_pos
      rw [List.intercalate_cons_cons, List.append_assoc]
      refine ⟨ps ++ qs, hps.append hc hqs, ?_⟩
      rw [List.length_append, List.length_cons]
      omega

end Joined

/-! ## What a text joins -/

/-- An operand is not cut, if no bar and no ampersand follows it immediately. -/
theorem Reads.operandsFrom_append (h : Reads true n cs n') (hend : n' = {})
    (hrest : rest.head? ≠ some '|' ∧ rest.head? ≠ some '&') :
    Scan.operandsFrom n.scan 0 (cs ++ rest) =
      (Scan.operandsFrom {} 0 rest).modifyHead (cs ++ ·) := by
  induction h with
  | @nil n =>
    subst hend
    rw [List.nil_append]
    exact (congrFun List.modifyHead_id _).symm
  | @cons n next n' c cs hstep _ hcs ih =>
    have hnone : n.scan.joinsAt (c :: (cs ++ rest)) = false := by
      rw [Bool.eq_false_iff]
      intro hjoin
      obtain ⟨hscan, d, more, hd, htext⟩ := Scan.joinsAt_iff.1 hjoin
      obtain ⟨rfl, hbehind⟩ := List.cons.inj htext
      have hnext : next.scan = {} := by
        rw [← step_scan hstep, hscan]
        rfl
      cases cs with
      | nil =>
        rw [List.nil_append] at hbehind
        rw [hbehind] at hrest
        exact hd.elim (fun h => hrest.1 (congrArg some h)) fun h => hrest.2 (congrArg some h)
      | cons e cs =>
        obtain ⟨rfl, -⟩ := List.cons.inj hbehind
        obtain ⟨hbar, hampersand⟩ := hcs.ne_of_scan (by rw [hnext]) (by rw [hnext])
        exact hd.elim hbar hampersand
    rw [List.cons_append, Scan.operandsFrom, hnone, step_scan hstep, ih hend]
    cases Scan.operandsFrom {} 0 rest <;> rfl

/-- Nor is it cut in front of the next operand, or at the end of a text. -/
theorem Phrase.operandsFrom_append (h : Phrase true cs)
    (hrest : rest.head? ≠ some '|' ∧ rest.head? ≠ some '&') :
    Scan.operandsFrom {} 0 (cs ++ rest) = (Scan.operandsFrom {} 0 rest).modifyHead (cs ++ ·) :=
  Reads.operandsFrom_append h rfl hrest

/-- A text that is put together of operands is cut into these. -/
theorem Joined.operandsFrom_eq (h : Joined ps cs) : Scan.operandsFrom {} 0 cs = ps := by
  induction h with
  | @one cs hcs =>
    calc Scan.operandsFrom {} 0 cs
      _ = Scan.operandsFrom {} 0 (cs ++ []) := by rw [List.append_nil]
      _ = (Scan.operandsFrom {} 0 []).modifyHead (cs ++ ·) := hcs.operandsFrom_append (by simp)
      _ = [cs] := by simp [Scan.operandsFrom]
  | @join cs ds ps c hcs hc _ ih =>
    have hjoin : ({} : Scan).joinsAt (' ' :: c :: ' ' :: ds) = true :=
      Scan.joinsAt_iff.2 ⟨rfl, c, ds, hc, rfl⟩
    rw [hcs.operandsFrom_append (by simp), Scan.operandsFrom, hjoin, if_pos rfl, Scan.operandsFrom,
      Scan.operandsFrom, ih]
    simp

namespace Joined

/-- The operands of a text that is put together of them. -/
theorem operands_eq (h : Joined ps text.toList) : operands text = ps.map String.ofList :=
  congrArg _ h.operandsFrom_eq

/-- A text is the only operand of itself if it is put together of no more. -/
theorem operands_eq_singleton_iff (h : Joined ps text.toList) :
    operands text = [text] ↔ ps.length = 1 := by
  constructor
  · intro heq
    have hlength := congrArg List.length (h.operands_eq.symm.trans heq)
    rwa [List.length_map] at hlength
  · intro hlength
    rw [(Joined.one (h.operand_of_length hlength)).operands_eq, List.map_singleton,
      String.ofList_toList]

/-- The suffix of a list belongs to the last operand. -/
theorem exists_suffix (h : Joined ps cs) :
    ∃ qs, Joined qs (cs ++ ['[', ']']) ∧ qs.length = ps.length := by
  have hsuffix : Phrase true ['[', ']'] :=
    (Phrase.nil : Phrase true []).enclose (c := '[') rfl fun h => absurd h List.not_mem_nil
  induction h with
  | one hcs => exact ⟨_, .one (hcs.append hsuffix), rfl⟩
  | @join cs ds ps c hcs hc _ ih =>
    obtain ⟨qs, hqs, hlength⟩ := ih
    rw [List.append_assoc]
    exact ⟨cs :: qs, .join hcs hc hqs, by rw [List.length_cons, List.length_cons, hlength]⟩

/-- With the suffix of a list a text is a single operand only if it is one without. -/
theorem operands_suffix_iff (h : Joined ps text.toList) :
    operands (text ++ "[]") = [text ++ "[]"] ↔ ps.length = 1 := by
  obtain ⟨qs, hqs, hlength⟩ := h.exists_suffix
  have hlist : (text ++ "[]").toList = text.toList ++ ['[', ']'] := String.toList_append
  rw [← hlist] at hqs
  rw [hqs.operands_eq_singleton_iff, hlength]

/-- With an ampersand behind it a text is one of two operands only if it is a single one. -/
theorem operands_ampersand_iff {other : String} (h : Joined ps text.toList)
    (hother : Phrase true other.toList) :
    operands (text ++ TypeExpr.ampersand ++ other) = [text, other] ↔ ps.length = 1 := by
  have hlist : (text ++ TypeExpr.ampersand ++ other).toList =
      text.toList ++ ' ' :: '&' :: ' ' :: other.toList := by
    rw [String.toList_append, String.toList_append, List.append_assoc]
    rfl
  have hjoined := h.append (.inr rfl) (.one hother)
  rw [← hlist] at hjoined
  calc operands (text ++ TypeExpr.ampersand ++ other) = [text, other]
    _ ↔ operands text ++ [other] = [text] ++ [other] := by
      rw [hjoined.operands_eq, List.map_append, ← h.operands_eq, List.map_singleton,
        String.ofList_toList]
      rfl
    _ ↔ operands text = [text] := List.append_left_inj _
    _ ↔ ps.length = 1 := h.operands_eq_singleton_iff

end Joined

end Nesting
end SchemaTypes
