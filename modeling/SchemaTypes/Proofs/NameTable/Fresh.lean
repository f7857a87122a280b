import Mathlib.Data.Finset.Card
import SchemaTypes.NameTable
import SchemaTypes.Proofs.Pointer.Segments

/-!
# Names that were not given

The variants of a name differ from each other (`NameTable.variant_injective`), so one more of them
than names were given cannot all have been given: the search for a free one finds it
(`NameTable.variant_nextVariant_notMem`).
-/

namespace SchemaTypes
namespace NameTable

variable {given : List String} {base : String}

/-- The variants of a name differ from each other. -/
theorem variant_injective (base : String) : Function.Injective (variant base) := by
  intro m n h
  have hne (k : Nat) (hk : k ≠ 0) : variant base k ≠ variant base 0 := by
    intro heq
    have hlength := congrArg String.length heq
    have hone : "_".length = 1 := by decide
    simp only [variant, hk, if_false, if_true, String.length_append, hone] at hlength
    omega
  by_cases hm : m = 0
  · subst hm
    by_contra hn
    exact hne n (Ne.symm hn) h.symm
  by_cases hn : n = 0
  · subst hn
    exact absurd h (hne m hm)
  have htext : toString m = toString n := by
    have := congrArg String.toList h
    simp only [variant, hm, hn, if_false, String.toList_append, List.append_cancel_left_eq] at this
    exact String.toList_injective this
  have hindex := congrArg Step.index? htext
  rw [Step.index?_toString, Step.index?_toString] at hindex
  exact Option.some.inj hindex

/-- The search stops at a variant that was not given, or has passed only given ones. -/
theorem firstFree_spec (given : List String) (base : String) (steps n : Nat) :
    variant base (firstFree given base steps n) ∉ given ∨
      ∀ i ≤ steps, variant base (n + i) ∈ given := by
  induction steps generalizing n with
  | zero =>
    by_cases h : variant base n ∈ given
    · exact .inr fun i hi => by rwa [Nat.le_zero.1 hi]
    · exact .inl h
  | succ steps ih =>
    rw [firstFree]
    split
    · next hmem =>
      rw [List.contains_iff_mem] at hmem
      refine (ih (n + 1)).imp_right fun h i hi => ?_
      cases i with
      | zero => exact hmem
      | succ i => rw [← Nat.add_assoc, Nat.add_right_comm]; exact h i (by omega)
    · next hnot => exact .inl (by simpa using hnot)

/-- Of one more variants than names were given, one was not. -/
theorem exists_variant_notMem (given : List String) (base : String) (n : Nat) :
    ∃ i ≤ given.length, variant base (n + i) ∉ given := by
  by_contra hall
  push Not at hall
  have hsub : (Finset.range (given.length + 1)).image (fun i => variant base (n + i)) ⊆
      given.toFinset := by
    intro text htext
    obtain ⟨i, hi, rfl⟩ := Finset.mem_image.1 htext
    exact List.mem_toFinset.2 (hall i (Nat.le_of_lt_succ (Finset.mem_range.1 hi)))
  have hcard := Finset.card_le_card hsub
  rw [Finset.card_image_of_injective _ fun i j h => Nat.add_left_cancel (variant_injective base h),
    Finset.card_range] at hcard
  have := List.toFinset_card_le given
  omega

/-- The name that is given next was not given before. -/
theorem variant_nextVariant_notMem (t : NameTable) (base : String) :
    variant base (t.nextVariant base) ∉ t.given := by
  refine (firstFree_spec t.given base t.given.length (t.counter base)).resolve_right fun hall => ?_
  obtain ⟨i, hi, hnot⟩ := exists_variant_notMem t.given base (t.counter base)
  exact hnot (hall i hi)

end NameTable
end SchemaTypes
