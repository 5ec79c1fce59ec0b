import Mathlib.Algebra.Order.BigOperators.Group.List
import Mathlib.Data.Nat.Find
import Mathlib.Order.Interval.Set.Basic

/-!
# The cells of a list of weights

The prefix sums of a list of weights that are not negative cut the interval from zero to their sum
into one half-open cell a weight.

* `acc l i`: the sum of the first `i` weights; `cell l i`: from there to the next sum.
* `mem_cell_iff`: the cell of `x` is found by the first sum above `x`.
* **`exists_mem_cell`**, **`cell_unique`**: each `x` below the sum is in one cell.
-/

namespace MongoTests.Lib

variable {α : Type*} [AddCommMonoid α] {l : List α} {a x : α} {i j : ℕ}

/-- The sum of the first `i` weights. -/
def acc (l : List α) (i : ℕ) : α := (l.take i).sum

@[simp] theorem acc_zero : acc l 0 = 0 := rfl

@[simp] theorem acc_length : acc l l.length = l.sum := by rw [acc, List.take_length]

theorem acc_succ (h : l[i]? = some a) : acc l (i + 1) = acc l i + a := by
  obtain ⟨hi, rfl⟩ := List.getElem?_eq_some_iff.mp h
  exact List.sum_take_succ l i hi

variable [LinearOrder α]

/-- The values that fall to the `i`-th weight. -/
def cell (l : List α) (i : ℕ) : Set α := Set.Ico (acc l i) (acc l (i + 1))

/-- A weight of zero has no values. -/
theorem cell_eq_empty (h : l[i]? = some 0) : cell l i = ∅ := by
  rw [cell, acc_succ h, add_zero, Set.Ico_self]

section Ordered

variable [IsOrderedAddMonoid α]

theorem acc_mono (hl : ∀ a ∈ l, 0 ≤ a) : Monotone (acc l) := by
  refine monotone_nat_of_le_succ fun i => ?_
  obtain hi | hi := lt_or_ge i l.length
  · rw [acc_succ (List.getElem?_eq_getElem hi)]
    exact le_add_of_nonneg_right (hl _ (List.getElem_mem hi))
  · rw [acc, acc, List.take_of_length_le hi, List.take_of_length_le (Nat.le_succ_of_le hi)]

/-- No two cells meet. -/
theorem cell_unique (hl : ∀ a ∈ l, 0 ≤ a) (hi : x ∈ cell l i) (hj : x ∈ cell l j) : i = j := by
  by_contra hne
  obtain h | h := lt_or_gt_of_ne hne
  · exact absurd (hi.2.trans_le (acc_mono hl (Nat.succ_le_of_lt h))) (not_lt.mpr hj.1)
  · exact absurd (hj.2.trans_le (acc_mono hl (Nat.succ_le_of_lt h))) (not_lt.mpr hi.1)

/-- The cell of a value ends at the first sum above it. -/
theorem mem_cell_iff (hl : ∀ a ∈ l, 0 ≤ a) (h0 : 0 ≤ x) :
    x ∈ cell l i ↔ x < acc l (i + 1) ∧ ∀ j < i, acc l (j + 1) ≤ x := by
  constructor
  · rintro ⟨hle, hlt⟩
    exact ⟨hlt, fun j hj => (acc_mono hl (Nat.succ_le_of_lt hj)).trans hle⟩
  · rintro ⟨hlt, hbefore⟩
    refine ⟨?_, hlt⟩
    cases i with
    | zero => exact h0
    | succ i => exact hbefore i i.lt_succ_self

/-- The cells cover what is below the sum. -/
theorem exists_mem_cell (hl : ∀ a ∈ l, 0 ≤ a) (h0 : 0 ≤ x) (h1 : x < l.sum) :
    ∃ i < l.length, x ∈ cell l i := by
  have hex : ∃ i, x < acc l (i + 1) :=
    ⟨l.length, h1.trans_le (acc_length.symm.le.trans (acc_mono hl l.length.le_succ))⟩
  have hmem : x ∈ cell l (Nat.find hex) := (mem_cell_iff hl h0).mpr
    ⟨Nat.find_spec hex, fun j hj => not_lt.mp (Nat.find_min hex hj)⟩
  refine ⟨Nat.find hex, ?_, hmem⟩
  by_contra hi
  refine absurd (hmem.1.trans_lt h1) (not_lt.mpr ?_)
  rw [← acc_length]
  exact acc_mono hl (not_lt.mp hi)

end Ordered

section Cancel

variable [IsOrderedCancelAddMonoid α]

/-- A positive weight has a value. -/
theorem acc_mem_cell (h : l[i]? = some a) (ha : 0 < a) : acc l i ∈ cell l i := by
  refine ⟨le_rfl, ?_⟩
  rw [acc_succ h]
  exact lt_add_of_pos_right _ ha

theorem acc_lt_sum (hl : ∀ a ∈ l, 0 ≤ a) (h : l[i]? = some a) (ha : 0 < a) : acc l i < l.sum := by
  obtain ⟨hi, -⟩ := List.getElem?_eq_some_iff.mp h
  calc acc l i < acc l (i + 1) := (acc_mem_cell h ha).2
    _ ≤ acc l l.length := acc_mono hl hi
    _ = l.sum := acc_length

end Cancel

end MongoTests.Lib
