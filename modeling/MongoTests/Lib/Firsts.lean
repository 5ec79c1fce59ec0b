import Mathlib.Data.List.Nodup

/-!
# First occurrences

A loop that appends each element of a list that it has not appended before.

* `firstsFrom acc l`: the loop, started on `acc`; `firsts l` starts on the empty list.
* `mem_firsts`, `nodup_firsts`, `firsts_filter`.
-/

namespace MongoTests.Lib

variable {α : Type*} [DecidableEq α]

/-- Append the elements of `l` that are not there yet. -/
def firstsFrom (acc l : List α) : List α :=
  l.foldl (fun acc a => if a ∈ acc then acc else acc ++ [a]) acc

/-- The first occurrences of the elements of `l`, in order. -/
def firsts (l : List α) : List α := firstsFrom [] l

@[simp] theorem firstsFrom_nil (acc : List α) : firstsFrom acc [] = acc := rfl

theorem firstsFrom_cons (acc : List α) (a : α) (l : List α) :
    firstsFrom acc (a :: l) = firstsFrom (if a ∈ acc then acc else acc ++ [a]) l := rfl

@[simp] theorem mem_firstsFrom {acc l : List α} {a : α} :
    a ∈ firstsFrom acc l ↔ a ∈ acc ∨ a ∈ l := by
  induction l generalizing acc with
  | nil => simp
  | cons b l ih =>
    rw [firstsFrom_cons, ih]
    by_cases hb : b ∈ acc
    · rw [if_pos hb, List.mem_cons]
      refine ⟨Or.imp_right Or.inr, ?_⟩
      rintro (h | rfl | h)
      · exact .inl h
      · exact .inl hb
      · exact .inr h
    · rw [if_neg hb, List.mem_append, List.mem_singleton, List.mem_cons, or_assoc]

theorem nodup_firstsFrom {acc l : List α} (h : acc.Nodup) : (firstsFrom acc l).Nodup := by
  induction l generalizing acc with
  | nil => exact h
  | cons b l ih =>
    rw [firstsFrom_cons]
    refine ih ?_
    split_ifs with hb
    · exact h
    · rw [← List.concat_eq_append]
      exact h.concat hb

theorem mem_firsts {l : List α} {a : α} : a ∈ firsts l ↔ a ∈ l := by
  simp [firsts]

theorem nodup_firsts (l : List α) : (firsts l).Nodup := nodup_firstsFrom List.nodup_nil

theorem firstsFrom_filter (p : α → Bool) (acc l : List α) :
    firstsFrom (acc.filter p) (l.filter p) = (firstsFrom acc l).filter p := by
  induction l generalizing acc with
  | nil => rfl
  | cons b l ih =>
    rw [firstsFrom_cons, ← ih]
    by_cases hb : p b = true
    · have hm : b ∈ acc.filter p ↔ b ∈ acc := by
        rw [List.mem_filter, and_iff_left hb]
      rw [List.filter_cons_of_pos hb, firstsFrom_cons]
      simp only [hm]
      split_ifs
      · rfl
      · rw [List.filter_append, List.filter_cons_of_pos hb, List.filter_nil]
    · rw [List.filter_cons_of_neg hb]
      split_ifs
      · rfl
      · rw [List.filter_append, List.filter_cons_of_neg hb, List.filter_nil, List.append_nil]

/-- Filtering and taking first occurrences commute. -/
theorem firsts_filter (p : α → Bool) (l : List α) : firsts (l.filter p) = (firsts l).filter p :=
  firstsFrom_filter p [] l

end MongoTests.Lib
