import Mathlib.Algebra.BigOperators.Group.Finset.Basic
import Mathlib.Data.List.Nodup

/-!
# Differences of sorted lists

`List.diff` takes each element of the second list away from the first one once. On sorted lists the
first elements decide how it goes on (`diff_cons_cons`), and its length counts what is in excess
(`length_diff`).
-/

namespace Difference

variable {α : Type*}

section Sorted

variable [LinearOrder α] {a b : α} {as bs : List α}

/-- What is less than the first element of a sorted list is not in it. -/
theorem notMem_of_lt (hsorted : (b :: bs).Pairwise (· ≤ ·)) (hlt : a < b) : a ∉ b :: bs := by
  intro hmem
  rcases List.mem_cons.1 hmem with rfl | hlater
  · exact lt_irrefl _ hlt
  · exact absurd ((List.pairwise_cons.1 hsorted).1 a hlater) (not_le.2 hlt)

/-- The difference of sorted lists, by their first elements. -/
theorem diff_cons_cons [BEq α] [LawfulBEq α] (has : (a :: as).Pairwise (· ≤ ·))
    (hbs : (b :: bs).Pairwise (· ≤ ·)) :
    (a :: as).diff (b :: bs) =
      if a < b then a :: as.diff (b :: bs)
      else if a = b then as.diff bs
      else (a :: as).diff bs := by
  split
  · next hlt => exact List.cons_diff_of_not_mem (notMem_of_lt hbs hlt) as
  · next hle =>
      split
      · next heq => rw [heq, List.diff_cons, List.erase_cons_head]
      · next hne =>
          have hgt : b < a := lt_of_le_of_ne (not_lt.1 hle) (Ne.symm hne)
          rw [List.diff_cons, List.erase_of_not_mem (notMem_of_lt has hgt)]

end Sorted

/-- The difference has as many elements as the first list has in excess of the second one. -/
theorem length_diff [DecidableEq α] [BEq α] [LawfulBEq α] (as bs : List α) :
    (as.diff bs).length = ∑ a ∈ as.toFinset, (as.count a - bs.count a) := by
  have hsum : (as.diff bs).length = ∑ a ∈ (as.diff bs).toFinset, (as.diff bs).count a := by
    rw [← List.sum_toFinset_count_eq_length]
    refine Finset.sum_congr rfl fun a _ => ?_
    congr
    exact lawful_beq_subsingleton _ _
  rw [hsum]
  refine (Finset.sum_subset ?_ fun a _ hnot => ?_).trans
    (Finset.sum_congr rfl fun a _ => List.count_diff a as bs)
  · intro a ha
    exact List.mem_toFinset.2 (List.diff_subset as bs (List.mem_toFinset.1 ha))
  · exact List.count_eq_zero.2 fun hmem => hnot (List.mem_toFinset.2 hmem)

end Difference
