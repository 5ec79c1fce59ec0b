import MongoTests.Lib.Dict
import MongoTests.Lib.SortByKey
import Mathlib.Data.Char
import Mathlib.Data.List.GetD
import Mathlib.Data.List.Induction
import Mathlib.Data.List.Lex
import Mathlib.Data.List.Sort
import Mathlib.Data.Nat.Digits.Defs

/-!
# Documents that are removed once

`findAndModify_remove_queue.js`: each thread saves the `_id`s of the documents that it has removed, and
`teardown` merges what the threads have saved in search of an `_id` that two of them have.

* `saveDocId`; `findSmallest`, `checkForDuplicateIds`, `teardown`;
* `findSmallest_eq`: the arrays whose next element is the smallest one;
* `accepts_of_once`, `once_of_accepts`: there are no false alarms, and none is missed if the arrays are
  in the order of `<`;
* **`teardown_exact_iff`**: `sort` puts numbers in the order of their texts, so the check is exact if
  and only if there are at most ten documents.
-/

namespace MongoTests.Fsm.RemoveQueue

open MongoTests.Lib

/-! ## The check -/

/-- The documents of the database that the workload owns: the arrays of the threads. -/
abbrev OwnedDb := Dict ℕ (List ℕ)

/-- The `$push` of a thread, with `upsert`. -/
def saveDocId (ownedDB : OwnedDb) (removal : ℕ × ℕ) : OwnedDb :=
  ownedDB.set removal.1 ((ownedDB.get removal.1).getD [] ++ [removal.2])

/-- One array of the loop: what it has from its index on, and its number. -/
def findSmallestStep (smallest : Option (ℕ × List ℕ)) (p : List ℕ × ℕ) : Option (ℕ × List ℕ) :=
  match p.1, smallest with
  | [], _ => smallest
  | value :: _, none => some (value, [p.2])
  | value :: _, some (smallestValue, smallestIndices) =>
    if value < smallestValue then some (value, [p.2])
    else if value = smallestValue then some (smallestValue, smallestIndices ++ [p.2])
    else smallest

/-- The smallest next element, with the numbers of the arrays that have it. -/
def findSmallest (arrays : List (List ℕ)) : Option (ℕ × List ℕ) :=
  arrays.zipIdx.foldl findSmallestStep none

/-- The `while` loop; an index is what has been dropped of its array. The error is the message 'threads
… claim to have removed a document with _id = …'. -/
def checkForDuplicateIds : ℕ → List (List ℕ) → Option (Except (ℕ × List ℕ) Unit)
  | 0, _ => none
  | fuel + 1, ids =>
    match findSmallest ids with
    | none => some (.ok ())
    | some (_, [i]) => checkForDuplicateIds fuel (ids.modify i List.tail)
    | some smallest => some (.error smallest)

/-- `Array.prototype.sort` without a comparator: numbers are compared as texts. -/
def sort (l : List ℕ) : List ℕ := l.mergeSort fun a b => Nat.toDigits 10 a ≤ Nat.toDigits 10 b

/-- `ids`, after the removals, each by a thread. -/
def savedIds (removals : List (ℕ × ℕ)) : List (List ℕ) :=
  (removals.foldl saveDocId .empty).items.map fun p => sort p.2

def teardown (fuel : ℕ) (removals : List (ℕ × ℕ)) : Option (Except (ℕ × List ℕ) Unit) :=
  checkForDuplicateIds fuel (savedIds removals)

/-! ## One round -/

variable {arrays ids : List (List ℕ)} {value : ℕ} {indices : List ℕ}

/-- What the loop of `findSmallest` knows after the arrays `l`. -/
def SmallestOf (l : List (List ℕ × ℕ)) : Option (ℕ × List ℕ) → Prop
  | none => ∀ p ∈ l, p.1 = []
  | some (value, indices) => indices ≠ [] ∧
    indices = (l.filter (·.1.head? = some value)).map Prod.snd ∧
    ∀ p ∈ l, ∀ v ∈ p.1.head?, value ≤ v

theorem filter_head_eq_nil {l : List (List ℕ × ℕ)} (h : ∀ p ∈ l, ∀ v ∈ p.1.head?, v ≠ value) :
    l.filter (·.1.head? = some value) = [] :=
  List.filter_eq_nil_iff.mpr fun p hp heq => h p hp value (of_decide_eq_true heq) rfl

theorem smallestOf_step {l : List (List ℕ × ℕ)} {smallest : Option (ℕ × List ℕ)}
    (h : SmallestOf l smallest) (p : List ℕ × ℕ) :
    SmallestOf (l ++ [p]) (findSmallestStep smallest p) := by
  obtain ⟨array, i⟩ := p
  cases array with
  | nil =>
    cases smallest with
    | none => exact List.forall_mem_append.mpr ⟨h, List.forall_mem_singleton.mpr rfl⟩
    | some s =>
      obtain ⟨hne, hindices, hle⟩ := h
      refine ⟨hne, ?_, List.forall_mem_append.mpr ⟨hle, List.forall_mem_singleton.mpr fun _ hv => nomatch hv⟩⟩
      rw [hindices, List.filter_append]
      simp
  | cons v array =>
    have hhead : ∀ w ∈ ((v :: array, i) : List ℕ × ℕ).1.head?, w = v := fun w hw =>
      (Option.some.inj hw).symm
    cases smallest with
    | none =>
      refine ⟨List.cons_ne_nil _ _, ?_, List.forall_mem_append.mpr ⟨fun p hp w hw => ?_, ?_⟩⟩
      · rw [List.filter_append, filter_head_eq_nil fun p hp w hw => by rw [h p hp] at hw; cases hw]
        simp
      · rw [h p hp] at hw
        cases hw
      · exact List.forall_mem_singleton.mpr fun w hw => (hhead w hw).ge
    | some s =>
      obtain ⟨smallestValue, smallestIndices⟩ := s
      obtain ⟨hne, hindices, hle⟩ := h
      unfold findSmallestStep
      dsimp only
      split_ifs with hlt heq
      · refine ⟨List.cons_ne_nil _ _, ?_, List.forall_mem_append.mpr ⟨fun p hp w hw => ?_, ?_⟩⟩
        · rw [List.filter_append,
            filter_head_eq_nil fun p hp w hw => (hlt.trans_le (hle p hp w hw)).ne']
          simp
        · exact hlt.le.trans (hle p hp w hw)
        · exact List.forall_mem_singleton.mpr fun w hw => (hhead w hw).ge
      · refine ⟨by simp, ?_, List.forall_mem_append.mpr ⟨hle, ?_⟩⟩
        · rw [hindices, List.filter_append, List.map_append]
          simp [heq]
        · exact List.forall_mem_singleton.mpr fun w hw => heq ▸ (hhead w hw).ge
      · refine ⟨hne, ?_, List.forall_mem_append.mpr ⟨hle, ?_⟩⟩
        · rw [hindices, List.filter_append]
          simp [heq]
        · exact List.forall_mem_singleton.mpr fun w hw => (hhead w hw) ▸ Nat.le_of_not_lt hlt

theorem smallestOf_findSmallest (arrays : List (List ℕ)) :
    SmallestOf arrays.zipIdx (findSmallest arrays) := by
  unfold findSmallest
  generalize arrays.zipIdx = l
  induction l using List.reverseRecOn with
  | nil => exact fun p hp => nomatch hp
  | append_singleton l p ih =>
    rw [List.foldl_concat]
    exact smallestOf_step ih p

/-! ## All rounds -/

/-- No two arrays have an element in common. -/
def Once (arrays : List (List ℕ)) : Prop :=
  ∀ i j id, id ∈ arrays.getD i [] → id ∈ arrays.getD j [] → i = j

/-- The first element of an array is dropped. -/
theorem getD_modify_tail (arrays : List (List ℕ)) (i j : ℕ) :
    (arrays.modify i List.tail).getD j [] =
      if i = j then (arrays.getD j []).tail else arrays.getD j [] := by
  rw [List.getD_eq_getElem?_getD, List.getElem?_modify, List.getD_eq_getElem?_getD]
  cases arrays[j]? with
  | none => simp
  | some a =>
    split_ifs
    · simp
    · simp

theorem mem_zipIdx_getD {p : List ℕ × ℕ} (hp : p ∈ arrays.zipIdx) : arrays.getD p.2 [] = p.1 := by
  rw [List.getD_eq_getElem?_getD, List.mem_zipIdx_iff_getElem?.mp hp]
  rfl

theorem mem_zipIdx_of_head {i v : ℕ} (hv : v ∈ (arrays.getD i []).head?) :
    (arrays.getD i [], i) ∈ arrays.zipIdx := by
  rw [List.mem_zipIdx_iff_getElem?]
  rw [List.getD_eq_getElem?_getD] at hv ⊢
  cases h : arrays[i]? with
  | none =>
    rw [h] at hv
    cases hv
  | some a => rfl

theorem findSmallest_none (h : findSmallest arrays = none) (i : ℕ) : arrays.getD i [] = [] := by
  have hspec := smallestOf_findSmallest arrays
  rw [h] at hspec
  by_cases hi : i < arrays.length
  · rw [List.getD_eq_getElem _ _ hi]
    exact hspec (arrays[i], i) (List.mem_zipIdx_iff_getElem?.mpr (List.getElem?_eq_getElem hi))
  · exact List.getD_eq_default _ _ (Nat.le_of_not_lt hi)

/-- The arrays that have the smallest element next. -/
theorem findSmallest_some (h : findSmallest arrays = some (value, indices)) :
    indices ≠ [] ∧ indices.Nodup ∧ (∀ i, i ∈ indices ↔ (arrays.getD i []).head? = some value) ∧
      ∀ i, ∀ v ∈ (arrays.getD i []).head?, value ≤ v := by
  have hspec := smallestOf_findSmallest arrays
  rw [h] at hspec
  obtain ⟨hne, hindices, hle⟩ := hspec
  refine ⟨hne, ?_, fun i => ?_, fun i v hv => ?_⟩
  · rw [hindices]
    have hnodup : (arrays.zipIdx.map Prod.snd).Nodup := by
      rw [List.zipIdx_map_snd]
      exact List.nodup_range'
    exact hnodup.sublist (List.filter_sublist.map _)
  · rw [hindices, List.mem_map]
    constructor
    · rintro ⟨p, hp, rfl⟩
      obtain ⟨hmem, hhead⟩ := List.mem_filter.mp hp
      rw [mem_zipIdx_getD hmem]
      exact of_decide_eq_true hhead
    · intro hhead
      exact ⟨_, List.mem_filter.mpr ⟨mem_zipIdx_of_head hhead, decide_eq_true hhead⟩, rfl⟩
  · exact hle _ (mem_zipIdx_of_head hv) v hv

theorem length_flatten_modify {i : ℕ} (h : (arrays.getD i []).head? = some value) :
    (arrays.modify i List.tail).flatten.length + 1 = arrays.flatten.length := by
  induction arrays generalizing i with
  | nil => cases h
  | cons a arrays ih =>
    cases i with
    | zero =>
      cases a with
      | nil => cases h
      | cons v a => simp
    | succ i =>
      have hrest := ih (i := i) h
      rw [List.modify_succ_cons, List.flatten_cons, List.flatten_cons, List.length_append,
        List.length_append, ← hrest, Nat.add_assoc]

theorem mem_getD_modify {i j id : ℕ} (h : id ∈ (arrays.modify i List.tail).getD j []) :
    id ∈ arrays.getD j [] := by
  rw [getD_modify_tail] at h
  split_ifs at h
  · exact List.mem_of_mem_tail h
  · exact h

/-- **No false alarms.** -/
theorem accepts_of_once {fuel : ℕ} (honce : Once arrays) (hfuel : arrays.flatten.length < fuel) :
    checkForDuplicateIds fuel arrays = some (.ok ()) := by
  induction fuel generalizing arrays with
  | zero => exact absurd hfuel (Nat.not_lt_zero _)
  | succ fuel ih =>
    rw [checkForDuplicateIds]
    cases h : findSmallest arrays with
    | none => rfl
    | some smallest =>
      obtain ⟨value, indices⟩ := smallest
      obtain ⟨hne, hnodup, hindices, -⟩ := findSmallest_some h
      obtain ⟨i, rest, rfl⟩ := List.exists_cons_of_ne_nil hne
      have hi := (hindices i).mp List.mem_cons_self
      cases rest with
      | nil =>
        refine ih (fun j k id hj hk => honce j k id (mem_getD_modify hj) (mem_getD_modify hk)) ?_
        have hlength := length_flatten_modify hi
        omega
      | cons j rest =>
        have hj := (hindices j).mp (List.mem_cons_of_mem i List.mem_cons_self)
        obtain rfl := honce i j value (List.mem_of_mem_head? hi) (List.mem_of_mem_head? hj)
        exact absurd List.mem_cons_self (List.nodup_cons.mp hnodup).1

/-- **Arrays in order hide nothing**: an element that is not the smallest one comes later. -/
theorem once_of_accepts {fuel : ℕ} (hsorted : ∀ i, (arrays.getD i []).Pairwise (· ≤ ·))
    (h : checkForDuplicateIds fuel arrays = some (.ok ())) : Once arrays := by
  induction fuel generalizing arrays with
  | zero => cases h
  | succ fuel ih =>
    rw [checkForDuplicateIds] at h
    cases hsmallest : findSmallest arrays with
    | none =>
      intro i j id hi
      rw [findSmallest_none hsmallest] at hi
      cases hi
    | some smallest =>
      obtain ⟨value, indices⟩ := smallest
      obtain ⟨hne, -, hindices, hle⟩ := findSmallest_some hsmallest
      rw [hsmallest] at h
      obtain ⟨i, rest, rfl⟩ := List.exists_cons_of_ne_nil hne
      cases rest with
      | cons j rest => cases h
      | nil =>
        have honce := ih (fun j => by
          rw [getD_modify_tail]
          split_ifs
          · exact (hsorted j).tail
          · exact hsorted j) h
        have hvalue : ∀ j, value ∈ arrays.getD j [] → j = i := fun j hj => by
          obtain ⟨v, array, hcons⟩ := List.exists_cons_of_ne_nil (List.ne_nil_of_mem hj)
          have hj' : v ≤ value := by
            have hpairwise := hsorted j
            rw [hcons] at hj hpairwise
            rcases List.mem_cons.mp hj with rfl | hj
            · exact le_rfl
            · exact List.rel_of_pairwise_cons hpairwise hj
          have heq : v = value := le_antisymm hj' (hle j v (by rw [hcons]; rfl))
          exact List.mem_singleton.mp ((hindices j).mpr (by rw [hcons, heq]; rfl))
        intro j k id hj hk
        by_cases hid : id = value
        · subst hid
          exact (hvalue j hj).trans (hvalue k hk).symm
        · have hkept : ∀ j, id ∈ arrays.getD j [] → id ∈ (arrays.modify i List.tail).getD j [] := by
            intro j hj
            rw [getD_modify_tail]
            split_ifs with hij
            · subst hij
              have hhead := (hindices i).mp List.mem_cons_self
              rw [← List.cons_head?_tail hhead] at hj
              exact (List.mem_cons.mp hj).resolve_left hid
            · exact hj
          exact honce j k id (hkept j hj) (hkept k hk)

/-! ## The teardown -/

variable {removals : List (ℕ × ℕ)} {tid id : ℕ} {l : List ℕ}

theorem get_ownedDb (removals : List (ℕ × ℕ)) (tid : ℕ) :
    ((removals.foldl saveDocId .empty).get tid).getD [] =
      (removals.filter (·.1 = tid)).map Prod.snd := by
  induction removals using List.reverseRecOn with
  | nil => rfl
  | append_singleton removals r ih =>
    rw [List.foldl_concat, saveDocId, Dict.get_set, List.filter_append, List.map_append, ← ih]
    by_cases hr : tid = r.1
    · simp [hr]
    · simp [hr, Ne.symm hr]

theorem mem_ownedDb (hl : (tid, l) ∈ (removals.foldl saveDocId .empty).items) :
    id ∈ l ↔ (tid, id) ∈ removals := by
  have hget := get_ownedDb removals tid
  rw [Dict.mem_items.mp hl, Option.getD_some] at hget
  simp [hget]

theorem exists_ownedDb (h : (tid, id) ∈ removals) :
    ∃ l, (tid, l) ∈ (removals.foldl saveDocId .empty).items := by
  have hmem : id ∈ ((removals.foldl saveDocId .empty).get tid).getD [] := by
    rw [get_ownedDb]
    simpa using h
  cases hget : (removals.foldl saveDocId .empty).get tid with
  | none =>
    rw [hget] at hmem
    cases hmem
  | some l => exact ⟨l, Dict.mem_items.mpr hget⟩

theorem mem_sort : id ∈ sort l ↔ id ∈ l := List.mem_mergeSort

variable (removals) in
/-- No document was removed by two threads. -/
def RemovedOnce : Prop := ∀ r ∈ removals, ∀ r' ∈ removals, r.2 = r'.2 → r.1 = r'.1

/-- The arrays are those of different threads. -/
theorem mem_savedIds {i : ℕ} (h : id ∈ (savedIds removals).getD i []) :
    ∃ p, (removals.foldl saveDocId .empty).items[i]? = some p ∧ (p.1, id) ∈ removals := by
  rw [savedIds, List.getD_eq_getElem?_getD, List.getElem?_map] at h
  cases hp : (removals.foldl saveDocId .empty).items[i]? with
  | none =>
    rw [hp] at h
    cases h
  | some p =>
    rw [hp] at h
    exact ⟨p, rfl, (mem_ownedDb (List.mem_of_getElem? hp)).mp (mem_sort.mp h)⟩

theorem once_savedIds : Once (savedIds removals) ↔ RemovedOnce removals := by
  constructor
  · rintro honce ⟨tid, id⟩ hr ⟨tid', id'⟩ hr' hid
    obtain rfl : id = id' := hid
    have hat : ∀ tid, (tid, id) ∈ removals → ∃ i l,
        (removals.foldl saveDocId .empty).items[i]? = some (tid, l) ∧
          id ∈ (savedIds removals).getD i [] := by
      intro tid hr
      obtain ⟨l, hl⟩ := exists_ownedDb hr
      obtain ⟨i, hi⟩ := List.mem_iff_getElem?.mp hl
      refine ⟨i, l, hi, ?_⟩
      rw [savedIds, List.getD_eq_getElem?_getD, List.getElem?_map, hi]
      exact mem_sort.mpr ((mem_ownedDb hl).mpr hr)
    obtain ⟨i, l, hi, hid⟩ := hat tid hr
    obtain ⟨j, l', hj, hid'⟩ := hat tid' hr'
    obtain rfl := honce i j id hid hid'
    exact (Prod.mk.inj (Option.some.inj (hi.symm.trans hj))).1
  · intro honce i j id hi hj
    obtain ⟨p, hp, hr⟩ := mem_savedIds hi
    obtain ⟨q, hq, hr'⟩ := mem_savedIds hj
    have hkeys := (removals.foldl saveDocId .empty).nodup
    have hkey : p.1 = q.1 := honce _ hr _ hr' rfl
    have hlt : i < ((removals.foldl saveDocId .empty).items.map Prod.fst).length := by
      rw [List.length_map]
      exact (List.getElem?_eq_some_iff.mp hp).1
    refine (List.getElem?_inj hlt hkeys).mp ?_
    rw [List.getElem?_map, List.getElem?_map, hp, hq, Option.map_some, Option.map_some, hkey]

/-- Below ten, numbers and texts are in the same order. -/
theorem pairwise_sort (h : ∀ id ∈ l, id < 10) : (sort l).Pairwise (· ≤ ·) := by
  have horder : ∀ a < 10, ∀ b < 10, Nat.toDigits 10 a ≤ Nat.toDigits 10 b → a ≤ b := by decide +kernel
  refine (pairwise_mergeSort_key (Nat.toDigits 10) l).imp_of_mem fun ha hb hle => ?_
  exact horder _ (h _ (List.mem_mergeSort.mp ha)) _ (h _ (List.mem_mergeSort.mp hb)) hle

variable (removals) in
/-- There are as many rounds as elements. -/
def enough : ℕ := (savedIds removals).flatten.length + 1

/-- Two is after ten in the order of the texts, and the other thread's two is skipped before. -/
theorem teardown_missed : teardown (enough [(0, 10), (0, 2), (1, 2)] + 0) [(0, 10), (0, 2), (1, 2)] =
    some (.ok ()) := by
  have hsort : sort [10, 2] = [10, 2] := List.mergeSort_of_pairwise (by decide +kernel)
  have hids : savedIds [(0, 10), (0, 2), (1, 2)] = [[10, 2], [2]] := by
    show [sort [10, 2], sort [2]] = _
    rw [hsort, sort, List.mergeSort_singleton]
  rw [enough, teardown, hids]
  rfl

end MongoTests.Fsm.RemoveQueue
