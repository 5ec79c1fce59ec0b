import MongoTests.Lib.Cycles
import Mathlib.Data.List.Dedup
import Mathlib.Data.List.Infix
import Mathlib.Data.List.Sort
import Mathlib.Order.Extension.Linear

/-!
# Common supersequences

Lists that are all parts of one list without duplicates.

* `Consecutive`: elements of which one comes right after the other in one of the lists;
* `Supersequence`; `Supersequence.eq_filter`: each list is what the supersequence has of its elements;
* `Supersequence.acyclic`: no elements follow each other in a cycle;
* **`exists_supersequence`**: without such a cycle there is a supersequence.
-/

namespace MongoTests.Lib

variable {α : Type*} {lists : List (List α)} {history l : List α}

variable (lists) in
/-- `b` comes right after `a` in one of the lists. -/
def Consecutive (a b : α) : Prop := ∃ l ∈ lists, [a, b] <:+: l

variable (lists history) in
/-- The lists are parts of `history`. -/
structure Supersequence : Prop where
  nodup : history.Nodup
  sublist : ∀ l ∈ lists, l.Sublist history

theorem pairwise_consecutive (h : l ∈ lists) :
    l.Pairwise (Relation.TransGen (Consecutive lists)) := by
  have hchain : List.IsChain (Consecutive lists) l :=
    List.isChain_iff_forall_rel_of_append_cons_cons.mpr fun {a b l₁ l₂} heq =>
      ⟨l, h, l₁, l₂, by rw [heq, List.append_assoc]; rfl⟩
  exact (hchain.imp fun _ _ => .single).pairwise

namespace Supersequence

theorem nodup_of_mem (h : Supersequence lists history) (l : List α) (hl : l ∈ lists) : l.Nodup :=
  h.nodup.sublist (h.sublist l hl)

theorem acyclic (h : Supersequence lists history) : Cycles.Acyclic (Consecutive lists) := by
  classical
  have hpos : history.Pairwise fun a b => history.idxOf a < history.idxOf b := by
    refine List.pairwise_iff_getElem.mpr fun i j hi hj hij => ?_
    rwa [h.nodup.idxOf_getElem i hi, h.nodup.idxOf_getElem j hj]
  have hedge : ∀ a b, Consecutive lists a b → history.idxOf a < history.idxOf b := by
    rintro a b ⟨l, hl, hpart⟩
    have hpair := hpos.sublist (hpart.sublist.trans (h.sublist l hl))
    exact List.rel_of_pairwise_cons hpair List.mem_cons_self
  intro a hcycle
  have hlt : Relation.TransGen (· < ·) (history.idxOf a) (history.idxOf a) :=
    hcycle.lift history.idxOf hedge
  rw [Relation.transGen_eq_self] at hlt
  exact lt_irrefl _ hlt

/-- Each list has its elements in the order of the supersequence. -/
theorem eq_filter [DecidableEq α] (h : Supersequence lists history) (hl : l ∈ lists) :
    history.filter (· ∈ l) = l := by
  have hsub : l.Sublist (history.filter (· ∈ l)) := by
    have hfilter := (h.sublist l hl).filter (· ∈ l)
    rwa [List.filter_eq_self.mpr fun a ha => decide_eq_true ha] at hfilter
  refine (hsub.eq_of_length_le ?_).symm
  refine (List.subperm_of_subset (h.nodup.filter _) fun a ha => ?_).length_le
  exact of_decide_eq_true (List.mem_filter.mp ha).2

end Supersequence

/-- **A common supersequence**: the elements can be sorted by a linear order that extends the one of
the lists. -/
theorem exists_supersequence (h : Cycles.Acyclic (Consecutive lists)) :
    ∃ history, Supersequence lists history ∧ ∀ a ∈ history, a ∈ lists.flatten := by
  classical
  have : IsPartialOrder α (Relation.ReflTransGen (Consecutive lists)) :=
    { refl := fun _ => .refl
      trans := fun _ _ _ => .trans
      antisymm := fun a b hab hba => by
        rcases Relation.reflTransGen_iff_eq_or_transGen.mp hab with heq | hab
        · exact heq.symm
        · exact absurd (hab.trans_left hba) (h a) }
  obtain ⟨le, hlinear, hle⟩ := extend_partialOrder (Relation.ReflTransGen (Consecutive lists))
  refine ⟨lists.flatten.dedup.insertionSort le, ⟨?_, fun l hl => ?_⟩, fun a ha => ?_⟩
  · exact (List.perm_insertionSort le _).nodup_iff.mpr (List.nodup_dedup _)
  · have hpairwise := pairwise_consecutive hl
    have hnodup : l.Nodup := hpairwise.imp fun hab => by
      rintro rfl
      exact h _ hab
    refine List.sublist_insertionSort' (hpairwise.imp fun hab => hle _ _ hab.to_reflTransGen) ?_
    exact List.subperm_of_subset hnodup fun a ha =>
      List.mem_dedup.mpr (List.mem_flatten.mpr ⟨l, hl, ha⟩)
  · rwa [List.mem_insertionSort, List.mem_dedup] at ha

end MongoTests.Lib
