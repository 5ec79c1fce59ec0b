import Mathlib.Data.List.TakeWhile

/-!
# Splitting from the right

* `rsplit`: a list is split at the last occurrences of a separator, at most so many times.
* `rsplit_concat`, `rsplit_of_notMem`: one split, and none.
* `length_rsplit`: the number of the parts.
-/

namespace MongoTests.Lib

variable {α : Type*} [DecidableEq α]

/-- `s.rsplit(c, n)` -/
def rsplit (c : α) : ℕ → List α → List (List α)
  | 0, s => [s]
  | n + 1, s =>
    if c ∈ s then rsplit c n (s.reverse.dropWhile (· ≠ c)).tail.reverse ++ [(s.reverse.takeWhile (· ≠ c)).reverse]
    else [s]

variable {c : α} {s t : List α}

theorem rsplit_concat (n : ℕ) (ht : c ∉ t) (s : List α) :
    rsplit c (n + 1) (s ++ c :: t) = rsplit c n s ++ [t] := by
  have hne : ∀ a ∈ t.reverse, decide (a ≠ c) = true := by
    intro a ha
    rw [decide_eq_true_eq]
    rintro rfl
    exact ht (List.mem_reverse.mp ha)
  have hc : decide (c ≠ c) = false := by simp
  have hreverse : (s ++ c :: t).reverse = t.reverse ++ c :: s.reverse := by simp
  rw [rsplit, if_pos (by simp), hreverse, List.dropWhile_append_of_pos hne,
    List.takeWhile_append_of_pos hne, List.dropWhile_cons, List.takeWhile_cons, hc]
  simp

theorem rsplit_of_notMem (n : ℕ) (h : c ∉ s) : rsplit c n s = [s] := by
  cases n with
  | zero => rfl
  | succ n => exact if_neg h

omit [DecidableEq α] in
theorem exists_concat_of_mem (h : c ∈ s) : ∃ t u, s = t ++ c :: u ∧ c ∉ u := by
  obtain ⟨u, t, hs, hu⟩ := List.eq_append_cons_of_mem (List.mem_reverse.mpr h)
  refine ⟨t.reverse, u.reverse, ?_, fun hc => hu (List.mem_reverse.mp hc)⟩
  rw [← List.reverse_reverse s, hs]
  simp

theorem length_rsplit (n : ℕ) (s : List α) : (rsplit c n s).length = min (s.count c) n + 1 := by
  induction n generalizing s with
  | zero => simp [rsplit]
  | succ n ih =>
    by_cases h : c ∈ s
    · obtain ⟨t, u, rfl, hu⟩ := exists_concat_of_mem h
      rw [rsplit_concat n hu, List.length_append, ih, List.count_append, List.count_cons_self,
        List.count_eq_zero.mpr hu, List.length_singleton]
      omega
    · rw [rsplit_of_notMem (n + 1) h, List.count_eq_zero.mpr h, List.length_singleton]
      omega

end MongoTests.Lib
