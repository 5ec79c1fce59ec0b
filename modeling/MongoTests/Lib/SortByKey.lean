import Mathlib.Data.List.Sort

/-!
# Sorting by a key

`List.mergeSort` where items are compared by a key in a linear order.

* `pairwise_mergeSort_key`, `pairwise_lt_mergeSort_key`: the result is in order, strictly so if the items
  have different keys.
* `eq_of_pairwise_lt_key`: lists in strict order are equal if they have the same items.
* `getLast?_mergeSort_key`: the last item of the result is the last one with the greatest key.
-/

namespace MongoTests.Lib

variable {α β : Type*} [LinearOrder β] {key : α → β} {l l' : List α}

theorem decide_key_le_trans (a b c : α) (hab : decide (key a ≤ key b)) (hbc : decide (key b ≤ key c)) :
    decide (key a ≤ key c) := by
  rw [decide_eq_true_eq] at hab hbc ⊢
  exact hab.trans hbc

theorem decide_key_le_total (a b : α) : decide (key a ≤ key b) || decide (key b ≤ key a) := by
  rw [Bool.or_eq_true, decide_eq_true_eq, decide_eq_true_eq]
  exact le_total _ _

theorem pairwise_mergeSort_key (key : α → β) (l : List α) :
    (l.mergeSort fun a b => key a ≤ key b).Pairwise fun a b => key a ≤ key b :=
  (List.pairwise_mergeSort decide_key_le_trans decide_key_le_total l).imp of_decide_eq_true

theorem pairwise_lt_mergeSort_key (hl : l.Nodup) (hkey : ∀ a ∈ l, ∀ b ∈ l, key a = key b → a = b) :
    (l.mergeSort fun a b => key a ≤ key b).Pairwise fun a b => key a < key b := by
  have hnodup : (l.mergeSort fun a b => key a ≤ key b).Nodup := (List.mergeSort_perm _ _).nodup_iff.mpr hl
  refine ((pairwise_mergeSort_key key l).and hnodup).imp_of_mem fun {a b} ha hb h => ?_
  exact lt_of_le_of_ne h.1 fun heq =>
    h.2 (hkey a (List.mem_mergeSort.mp ha) b (List.mem_mergeSort.mp hb) heq)

theorem nodup_of_pairwise_lt_key (h : l.Pairwise fun a b => key a < key b) : l.Nodup := by
  refine h.imp ?_
  rintro a _ hlt rfl
  exact lt_irrefl _ hlt

theorem eq_of_pairwise_lt_key (h : l.Pairwise fun a b => key a < key b)
    (h' : l'.Pairwise fun a b => key a < key b) (hmem : ∀ a, a ∈ l ↔ a ∈ l') : l = l' := by
  have hperm : l.Perm l' :=
    (List.perm_ext_iff_of_nodup (nodup_of_pairwise_lt_key h) (nodup_of_pairwise_lt_key h')).mpr hmem
  exact List.Perm.eq_of_pairwise (fun a b _ _ hab hba => absurd hba hab.asymm) h h' hperm

theorem filter_mergeSort_key (b : β) :
    (l.mergeSort fun a b => key a ≤ key b).filter (key · = b) = l.filter (key · = b) := by
  have hsorted : (l.filter (key · = b)).Pairwise fun a b => decide (key a ≤ key b) := by
    refine List.pairwise_of_forall_mem_list fun x hx y hy => ?_
    have hx := of_decide_eq_true (List.mem_filter.mp hx).2
    have hy := of_decide_eq_true (List.mem_filter.mp hy).2
    rw [hx, hy]
    exact decide_eq_true le_rfl
  have hsub : (l.filter (key · = b)).Sublist (l.mergeSort fun a b => key a ≤ key b) :=
    List.sublist_mergeSort decide_key_le_trans decide_key_le_total hsorted List.filter_sublist
  have hfilter : (l.filter (key · = b)).Sublist ((l.mergeSort fun a b => key a ≤ key b).filter (key · = b)) := by
    simpa only [List.filter_filter, Bool.and_self] using hsub.filter (key · = b)
  have hlength := ((List.mergeSort_perm l fun a b => key a ≤ key b).filter (key · = b)).length_eq
  exact (hfilter.eq_of_length hlength.symm).symm

/-- Among the items with the greatest key the sort keeps the order. -/
theorem getLast?_mergeSort_key (key : α → β) {a : α} (h : (l.mergeSort fun a b => key a ≤ key b).getLast? = some a) :
    (∀ b ∈ l, key b ≤ key a) ∧ ∀ b ∈ l, key b = key a → b ≠ a → [b, a].Sublist l := by
  obtain ⟨s, hs⟩ := List.getLast?_eq_some_iff.mp h
  have hsorted := pairwise_mergeSort_key key l
  constructor
  · intro b hb
    rw [hs, List.pairwise_append] at hsorted
    obtain hmem | hmem := List.mem_append.mp (hs ▸ List.mem_mergeSort.mpr hb)
    · exact hsorted.2.2 b hmem a List.mem_cons_self
    · rw [List.mem_singleton.mp hmem]
  · intro b hb hkey hne
    have hfilter : l.filter (key · = key a) = s.filter (key · = key a) ++ [a] := by
      rw [← filter_mergeSort_key, hs, List.filter_append]
      simp
    have hmem : b ∈ l.filter (key · = key a) := List.mem_filter.mpr ⟨hb, decide_eq_true hkey⟩
    rw [hfilter, List.mem_append, List.mem_singleton] at hmem
    have hpair : [b, a].Sublist (s.filter (key · = key a) ++ [a]) :=
      (List.singleton_sublist.mpr (hmem.resolve_right hne)).append_right [a]
    rw [← hfilter] at hpair
    exact hpair.trans List.filter_sublist

end MongoTests.Lib
