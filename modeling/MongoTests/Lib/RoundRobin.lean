import Mathlib.Data.Int.CardIntervalMod
import Mathlib.Data.List.Nodup

/-!
# Dealing out in turn

The element at position `k` goes to the list number `k % n`.

* `share`: what one of `n` lists gets; `share_sublist`.
* `deal`; `getElem?_deal`: dealing adds its share to each list.
* `exists_share`: every element is in one share, once.
* `length_share_le`: the sizes of two shares differ by at most one.
-/

namespace MongoTests.Lib

variable {α : Type*} {n j j' i : ℕ} {xs : List α} {lists : List (List α)}

/-- The elements for list `j`; `i` is the position of the first element. -/
def share (n j : ℕ) : ℕ → List α → List α
  | _, [] => []
  | i, x :: xs => if i % n = j then x :: share n j (i + 1) xs else share n j (i + 1) xs

/-- Append each element to a list, from position `i` on. -/
def deal (n : ℕ) (lists : List (List α)) : ℕ → List α → List (List α)
  | _, [] => lists
  | i, x :: xs => deal n (lists.modify (i % n) (· ++ [x])) (i + 1) xs

theorem share_sublist : (share n j i xs).Sublist xs := by
  induction xs generalizing i with
  | nil => exact .slnil
  | cons x xs ih =>
    rw [share]
    split_ifs
    · exact ih.cons_cons x
    · exact ih.cons x

theorem length_deal : (deal n lists i xs).length = lists.length := by
  induction xs generalizing i lists with
  | nil => rfl
  | cons x xs ih => rw [deal, ih, List.length_modify]

theorem getElem?_deal (j : ℕ) :
    (deal n lists i xs)[j]? = lists[j]?.map (· ++ share n j i xs) := by
  induction xs generalizing i lists with
  | nil => simp [deal, share]
  | cons x xs ih =>
    rw [deal, ih, List.getElem?_modify, share]
    by_cases hj : i % n = j
    · cases lists[j]? with
      | none => simp [hj]
      | some l => simp [hj]
    · cases lists[j]? with
      | none => simp [hj]
      | some l => simp [hj]

theorem exists_share {x : α} [DecidableEq α] (hn : 0 < n) (hx : x ∈ xs) (hnodup : xs.Nodup) :
    ∃ j < n, (share n j i xs).count x = 1 ∧ ∀ j', j' ≠ j → x ∉ share n j' i xs := by
  induction xs generalizing i with
  | nil => exact absurd hx List.not_mem_nil
  | cons a xs ih =>
    obtain ⟨ha, hnodup⟩ := List.nodup_cons.mp hnodup
    rcases List.mem_cons.mp hx with rfl | hx
    · have hnew : ∀ j, x ∉ share n j (i + 1) xs := fun j hmem => ha (share_sublist.subset hmem)
      refine ⟨i % n, Nat.mod_lt i hn, ?_, fun j' hj' => ?_⟩
      · rw [share, if_pos rfl, List.count_cons_self, List.count_eq_zero.mpr (hnew _)]
      · rw [share, if_neg hj'.symm]
        exact hnew j'
    · obtain ⟨j, hj, hcount, hother⟩ := ih (i := i + 1) hx hnodup
      have hne : a ≠ x := fun heq => ha (heq ▸ hx)
      refine ⟨j, hj, ?_, fun j' hj' => ?_⟩
      · rw [share]
        split_ifs
        · rwa [List.count_cons_of_ne hne]
        · exact hcount
      · rw [share]
        split_ifs
        · rw [List.mem_cons, not_or]
          exact ⟨hne.symm, hother j' hj'⟩
        · exact hother j' hj'

theorem share_concat (x : α) :
    share n j i (xs ++ [x]) = share n j i xs ++ if (i + xs.length) % n = j then [x] else [] := by
  induction xs generalizing i with
  | nil => simp [share]
  | cons a xs ih =>
    rw [List.cons_append, share, ih, share, List.length_cons, Nat.add_right_comm, Nat.add_assoc]
    split_ifs <;> rfl

theorem length_share : (share n j 0 xs).length = Nat.count (fun k => k % n = j) xs.length := by
  induction xs using List.reverseRecOn with
  | nil => rfl
  | append_singleton xs x ih =>
    rw [share_concat, List.length_append, ih, List.length_append, List.length_singleton,
      Nat.count_succ, Nat.zero_add]
    split_ifs <;> rfl

/-- **Fair shares.** -/
theorem length_share_le (hj : j < n) (hj' : j' < n) :
    (share n j 0 xs).length ≤ (share n j' 0 xs).length + 1 := by
  have hcount : ∀ v < n, (share n v 0 xs).length =
      xs.length / n + if v < xs.length % n then 1 else 0 := by
    intro v hv
    have hcard := Nat.count_modEq_card xs.length (Nat.zero_lt_of_lt hv) v
    simp only [Nat.ModEq, Nat.mod_eq_of_lt hv] at hcard
    rw [length_share]
    exact hcard
  rw [hcount j hj, hcount j' hj']
  split_ifs <;> omega

end MongoTests.Lib
