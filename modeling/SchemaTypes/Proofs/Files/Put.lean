import Mathlib
import SchemaTypes.Proofs.Files.Walk

/-!
# Changes of a tree

A new entry of a directory changes what there is at its own place and nowhere else
(`Node.status_put`).
-/

namespace SchemaTypes
namespace Node

variable {root new : Node} {way : List EntryName} {name : EntryName}

/-- The entry that was set is found under its name, and all others are what they were. -/
theorem lookup_setEntry (name other : EntryName) (node : Node)
    (entries : List (EntryName × Node)) :
    (setEntry name node entries).lookup other =
      if other = name then some node else entries.lookup other := by
  have hbeq {first : EntryName} (h : ¬other = first) : (other == first) = false :=
    beq_eq_false_iff_ne.2 h
  induction entries with
  | nil =>
    rw [setEntry, List.lookup_cons]
    by_cases h : other = name
    · simp [h]
    · simp [h, hbeq h]
  | cons entry rest ih =>
    obtain ⟨first, old⟩ := entry
    rw [setEntry]
    split
    · next heq =>
      subst heq
      rw [List.lookup_cons, List.lookup_cons]
      by_cases h : other = first
      · simp [h]
      · simp [h, hbeq h]
    · next hne =>
      rw [List.lookup_cons, List.lookup_cons, ih]
      by_cases h : other = first
      · simp [h, hne]
      · simp [hbeq h]

/-- What there is below an entry. -/
theorem status_directory_cons (entries : List (EntryName × Node)) (name : EntryName)
    (way : List EntryName) :
    (Node.directory entries).status (name :: way) =
      ((entries.lookup name).map (·.status way)).getD .missing := by
  rw [status, at?, entry?]
  cases hlookup : entries.lookup name with
  | none => simp [Node.entries, hlookup]
  | some node => simp [Node.entries, hlookup, status]

/-- A node without entries has nothing below it. -/
theorem status_cons_of_entries (h : new.entries = []) (name : EntryName) (way : List EntryName) :
    new.status (name :: way) = .missing := by
  rw [status, at?, entry?, h]
  rfl

/-- There is nothing below what is no directory. -/
theorem status_append_of_ne_directory (h : root.status way ≠ .directory) {way' : List EntryName}
    (hne : way' ≠ []) : root.status (way ++ way') = .missing := by
  cases hstatus : root.status (way ++ way') with
  | missing => rfl
  | file _ | directory =>
    exact absurd (status_eq_directory_of_append (by simp [hstatus]) hne) h

/-- A new entry without entries changes what there is at its place, if there was no directory, and
nothing else. -/
theorem status_put (hdirectory : root.status way = .directory)
    (hold : root.status (way ++ [name]) ≠ .directory) (hnew : new.entries = [])
    (other : List EntryName) :
    (put new root (way ++ [name])).status other =
      if other = way ++ [name] then new.status [] else root.status other := by
  induction way generalizing root other with
  | nil =>
    obtain ⟨entries, hentries⟩ := status_eq_directory_iff.1 hdirectory
    cases hentries
    show (Node.directory (setEntry name new entries)).status other = _
    cases other with
    | nil => rfl
    | cons first rest =>
      rw [status_directory_cons, status_directory_cons, lookup_setEntry]
      by_cases hname : first = name
      · subst hname
        cases rest with
        | nil => simp
        | cons next more =>
          have hbelow := status_append_of_ne_directory hold (List.cons_ne_nil next more)
          change (Node.directory entries).status (first :: next :: more) = _ at hbelow
          rw [status_directory_cons] at hbelow
          rw [hbelow]
          simp [status_cons_of_entries hnew]
      · simp [hname]
  | cons first rest ih =>
    have htop : root.status [] = .directory :=
      (eq_or_directory_of_isPrefix List.nil_prefix (by simp [hdirectory])).resolve_left
        (List.cons_ne_nil first rest).symm
    obtain ⟨entries, hentries⟩ := status_eq_directory_iff.1 htop
    cases hentries
    rw [status_directory_cons] at hdirectory
    rw [List.cons_append, status_directory_cons] at hold
    obtain ⟨child, hchild⟩ : ∃ child, entries.lookup first = some child := by
      cases hlookup : entries.lookup first with
      | none =>
        rw [hlookup] at hdirectory
        cases hdirectory
      | some child => exact ⟨child, rfl⟩
    rw [hchild] at hdirectory hold
    rw [List.cons_append, put, hchild]
    cases other with
    | nil => rfl
    | cons next more =>
      rw [status_directory_cons, status_directory_cons, lookup_setEntry]
      by_cases hname : next = first
      · subst hname
        have hput := ih hdirectory hold more
        simp [hchild, hput]
      · simp [hname]

end Node
end SchemaTypes
