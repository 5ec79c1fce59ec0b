import MongoTests.Aggregation.AnyEq
import MongoTests.Lib.Heap

/-!
# Unordered comparison of two result sets

`resultsEq` of `jstests/aggregation/extras/utils.js`. It takes matches out of copies of its arguments,
where `arrayEq` keeps a set of indexes.

* `resultsEq`; `findResult_remaining`, `resultsLoop_eq`: the elements left in the copy are those whose
  indexes are not taken.
* `resultsEq_eq`: it returns what `arrayEq` does, and leaves the arguments unmodified.
* **`comparesUnordered_iff`**: on which values the comparison is the equivalence relation that it is
  meant to be.
-/

namespace MongoTests.Aggregation

open MongoTests.Lib

/-! ## The function -/

section Model

inductive ResultsError
  | notAFunction (e : NotAFunction)
  /-- `assert(!rr.length)` -/
  | assertion
  deriving DecidableEq, Repr

/-- The loop over the elements of `rr`: the index of the match. -/
def findResult (eq : Value → Except NotAFunction Bool) :
    ℕ → List Value → Except NotAFunction (Option ℕ)
  | _, [] => .ok none
  | j, v :: rr => do if !(← eq v) then findResult eq (j + 1) rr else pure (some j)

/-- The loop over the elements of the copy of `rl`, which is not changed. -/
def resultsLoop (rr : ℕ) :
    List Value → Heap (List Value) → Except ResultsError Bool × Heap (List Value)
  | [], h => (if (h.cell rr).length = 0 then .ok true else .error .assertion, h)
  | v :: rl, h =>
    match findResult (anyEq v) 0 (h.cell rr) with
    | .ok (some j) => resultsLoop rr rl (h.write rr fun a => a.eraseIdx j)
    | .ok none => (.ok false, h)
    | .error e => (.error (.notAFunction e), h)

def resultsEq (h : Heap (List Value)) (rl rr : ℕ) :
    Except ResultsError Bool × Heap (List Value) :=
  let rlCopy := h.next
  let h := h.copy rl
  let rrCopy := h.next
  let h := h.copy rr
  if (h.cell rlCopy).length ≠ (h.cell rrCopy).length then (.ok false, h)
  else resultsLoop rrCopy (h.cell rlCopy) h

end Model

/-! ## Indexes that are taken and elements that are left -/

section Remaining

variable {eq : Value → Except NotAFunction Bool} {matched : List ℕ} {i j k : ℕ} {ar : List Value}

/-- The elements whose indexes are not taken; `i` is the index of the first one. -/
def remaining (matched : List ℕ) : ℕ → List Value → List Value
  | _, [] => []
  | i, v :: ar =>
    if i ∈ matched then remaining matched (i + 1) ar else v :: remaining matched (i + 1) ar

theorem remaining_cons_of_mem (h : i ∈ matched) (v : Value) :
    remaining matched i (v :: ar) = remaining matched (i + 1) ar := if_pos h

theorem remaining_cons_of_not_mem (h : i ∉ matched) (v : Value) :
    remaining matched i (v :: ar) = v :: remaining matched (i + 1) ar := if_neg h

theorem remaining_nil : remaining [] i ar = ar := by
  induction ar generalizing i with
  | nil => rfl
  | cons v ar ih => rw [remaining_cons_of_not_mem List.not_mem_nil, ih]

theorem remaining_of_lt (h : j < i) : remaining (j :: matched) i ar = remaining matched i ar := by
  induction ar generalizing i with
  | nil => rfl
  | cons v ar ih =>
    have hiff : i ∈ j :: matched ↔ i ∈ matched := by
      rw [List.mem_cons, or_iff_right (by omega)]
    simp only [remaining, hiff, ih (Nat.lt_succ_of_lt h)]

theorem findResult_cons (v : Value) (rr : List Value) :
    findResult eq k (v :: rr) =
      eq v >>= fun b => if b = false then findResult eq (k + 1) rr else .ok (some k) := by
  rw [findResult]
  cases eq v with
  | error e => rfl
  | ok b => cases b <;> rfl

variable (eq matched i k ar) in
/-- What `resultsEq` finds when the result of `findMatch` is given. -/
def Mirrors : Except NotAFunction (Option ℕ) → Prop
  | .error e => findResult eq k (remaining matched i ar) = .error e
  | .ok none => findResult eq k (remaining matched i ar) = .ok none
  | .ok (some j) => ∃ m < (remaining matched i ar).length,
      findResult eq k (remaining matched i ar) = .ok (some (k + m)) ∧
      (remaining matched i ar).eraseIdx m = remaining (j :: matched) i ar

/-- An element whose index is taken is not in the copy. -/
theorem Mirrors.skip {r : Except NotAFunction (Option ℕ)} (h : Mirrors eq matched (i + 1) k ar r)
    (hi : i ∈ matched) (v : Value) : Mirrors eq matched i k (v :: ar) r := by
  have hskip : remaining matched i (v :: ar) = _ := remaining_cons_of_mem hi v
  cases r with
  | error e => rwa [Mirrors, hskip]
  | ok o =>
    cases o with
    | none => rwa [Mirrors, hskip]
    | some j => rwa [Mirrors, hskip, remaining_cons_of_mem (List.mem_cons_of_mem j hi)]

/-- An element that is not equal is passed over in both arrays. -/
theorem Mirrors.next {v : Value} (hi : i ∉ matched) (hv : eq v = .ok false)
    (h : Mirrors eq matched (i + 1) (k + 1) ar (findMatch eq matched (i + 1) ar)) :
    Mirrors eq matched i k (v :: ar) (findMatch eq matched (i + 1) ar) := by
  have hkeep : remaining matched i (v :: ar) = _ := remaining_cons_of_not_mem hi v
  have hnext : findResult eq k (remaining matched i (v :: ar)) =
      findResult eq (k + 1) (remaining matched (i + 1) ar) := by
    rw [hkeep, findResult_cons, hv]
    rfl
  cases hfind : findMatch eq matched (i + 1) ar with
  | error e =>
    rw [hfind] at h
    exact hnext.trans h
  | ok o =>
    rw [hfind] at h
    cases o with
    | none => exact hnext.trans h
    | some j =>
      obtain ⟨m, hm, hfound, herase⟩ := h
      obtain ⟨-, k', -, hj, -⟩ := findMatch_eq_some hfind
      have hij : i ∉ j :: matched := by
        rw [List.mem_cons, not_or]
        exact ⟨by omega, hi⟩
      refine ⟨m + 1, ?_, ?_, ?_⟩
      · rw [hkeep, List.length_cons]
        omega
      · rw [hnext, hfound]
        congr 2
        omega
      · rw [hkeep, List.eraseIdx_cons_succ, herase, remaining_cons_of_not_mem hij]

/-- An element that is equal is the one that is taken out. -/
theorem mirrors_found {v : Value} (hi : i ∉ matched) (hv : eq v = .ok true) :
    Mirrors eq matched i k (v :: ar) (.ok (some i)) := by
  have hkeep : remaining matched i (v :: ar) = _ := remaining_cons_of_not_mem hi v
  refine ⟨0, ?_, ?_, ?_⟩
  · rw [hkeep]
    exact Nat.zero_lt_succ _
  · rw [hkeep, findResult_cons, hv]
    rfl
  · rw [hkeep, List.eraseIdx_cons_zero, remaining_cons_of_mem List.mem_cons_self,
      remaining_of_lt (Nat.lt_succ_self i)]

variable (eq matched i k ar) in
/-- **The two searches make the same comparisons**, and take out the same element. -/
theorem findResult_remaining : Mirrors eq matched i k ar (findMatch eq matched i ar) := by
  induction ar generalizing i k with
  | nil => exact rfl
  | cons v ar ih =>
    rw [findMatch_cons]
    by_cases hi : i ∈ matched
    · rw [if_pos hi]
      exact (ih (i + 1) k).skip hi v
    · rw [if_neg hi]
      cases hv : eq v with
      | error e =>
        show findResult eq k (remaining matched i (v :: ar)) = .error e
        rw [remaining_cons_of_not_mem hi, findResult_cons, hv]
        rfl
      | ok b =>
        cases b with
        | true => exact mirrors_found hi hv
        | false => exact (ih (i + 1) (k + 1)).next hi hv

end Remaining

/-! ## The two functions agree -/

section Agree

variable {h₀ h : Heap (List Value)} {rl rr : ℕ} {al ar : List Value} {matched : List ℕ}

theorem resultsLoop_eq (hcell : h.cell rr = remaining matched 0 ar)
    (hlen : al.length = (remaining matched 0 ar).length) :
    (resultsLoop rr al h).1 = (matchElements al ar matched).mapError .notAFunction := by
  induction al generalizing h matched with
  | nil =>
    have hzero : (remaining matched 0 ar).length = 0 := hlen.symm
    rw [resultsLoop, hcell, if_pos hzero]
    rfl
  | cons v al ih =>
    rw [resultsLoop, hcell, matchElements_cons]
    have hmirrors := findResult_remaining (anyEq v) matched 0 0 ar
    cases hfind : findMatch (anyEq v) matched 0 ar with
    | error e =>
      rw [hfind, Mirrors] at hmirrors
      rw [hmirrors]
      rfl
    | ok o =>
      cases o with
      | none =>
        rw [hfind, Mirrors] at hmirrors
        rw [hmirrors]
        rfl
      | some j =>
        rw [hfind] at hmirrors
        obtain ⟨m, hm, hfound, herase⟩ := hmirrors
        rw [Nat.zero_add] at hfound
        rw [hfound]
        refine ih ?_ ?_
        · rw [Heap.cell_write_self, hcell, herase]
        · rw [← herase, List.length_eraseIdx_of_lt hm, ← hlen, List.length_cons, Nat.add_sub_cancel]

theorem extends_resultsLoop (h' : h₀.Extends h) (hrr : h₀.next ≤ rr) :
    h₀.Extends (resultsLoop rr al h).2 := by
  induction al generalizing h with
  | nil => exact h'
  | cons v al ih =>
    rw [resultsLoop]
    split
    · exact ih (h'.write hrr _)
    · exact h'
    · exact h'

/-- **`resultsEq` is `arrayEq`** on arrays, errors included, and leaves both unmodified. -/
theorem resultsEq_eq (hrr : rr < h.next) :
    (resultsEq h rl rr).1 =
      (arrayEq (.array (h.cell rl)) (.array (h.cell rr))).mapError .notAFunction ∧
    h.Extends (resultsEq h rl rr).2 := by
  have hrl' : ((h.copy rl).copy rr).cell h.next = h.cell rl := by
    have hext := (Heap.Extends.refl (h.copy rl)).copy rr
    rw [hext.cell _ (by rw [Heap.next_copy]; omega), Heap.cell_copy_next]
  have hrr' : ((h.copy rl).copy rr).cell (h.copy rl).next = h.cell rr := by
    rw [Heap.cell_copy_next, ((Heap.Extends.refl h).copy rl).cell _ hrr]
  have hext : h.Extends ((h.copy rl).copy rr) := ((Heap.Extends.refl h).copy rl).copy rr
  rw [resultsEq]
  simp only [hrl', hrr', arrayEq]
  split_ifs with hlen
  · exact ⟨rfl, hext⟩
  · refine ⟨resultsLoop_eq (hrr'.trans remaining_nil.symm) ?_, extends_resultsLoop hext ?_⟩
    · rw [remaining_nil]
      exact not_not.mp hlen
    · rw [Heap.next_copy]
      exact Nat.le_succ _

end Agree

/-! ## The relation -/

section Relation

/-- Built without dates and `NaN`. -/
inductive Basic : Value → Prop
  | null : Basic .null
  | boolean (b : Bool) : Basic (.boolean b)
  | number {x : Js.Number} (h : x ≠ .nan) : Basic (.number x)
  | string (s : String) : Basic (.string s)
  | array {l : List Value} (h : ∀ v ∈ l, Basic v) : Basic (.array l)
  | object {names : List String} {value : String → Value} (h : ∀ p ∈ names, Basic (value p)) :
      Basic (.object names value)

/-- What the comparison is for, on a set of values. -/
structure ComparesUnordered (S : Set Value) : Prop where
  returns : ∀ v ∈ S, ∀ w ∈ S, ∃ b, anyEq v w = .ok b
  refl : ∀ v ∈ S, anyEq v v = .ok true
  symm : ∀ v ∈ S, ∀ w ∈ S, anyEq v w = .ok true → anyEq w v = .ok true
  trans : ∀ u ∈ S, ∀ v ∈ S, ∀ w ∈ S, anyEq u v = .ok true → anyEq v w = .ok true →
    anyEq u w = .ok true
  arrays : ∀ al ar, .array al ∈ S → .array ar ∈ S →
    Returns (arrayEq (.array al) (.array ar))
      (∃ σ : Fin al.length ≃ Fin ar.length, ∀ i, anyEq (al.get i) (ar.get (σ i)) = .ok true)
  documents : ∀ dl dlValue dr drValue, .object dl dlValue ∈ S → .object dr drValue ∈ S →
    Returns (documentEq dl dlValue dr drValue) ((∀ p, p ∈ dl ↔ p ∈ dr) ∧
      ∀ p ∈ dl, p ≠ "_id" → anyEq (dlValue p) (drValue p) = .ok true)
  results : ∀ (h : Heap (List Value)) rl rr, rl < h.next → rr < h.next →
    .array (h.cell rl) ∈ S → .array (h.cell rr) ∈ S →
      (resultsEq h rl rr).1 =
        (arrayEq (.array (h.cell rl)) (.array (h.cell rr))).mapError .notAFunction ∧
      h.Extends (resultsEq h rl rr).2

variable {dates : Bool} {v w : Value}

theorem EqualUpTo.refl (h : Basic v) : EqualUpTo dates v v := by
  induction h with
  | null => exact .primitive rfl
  | boolean b => exact .primitive (by simp [strictEq])
  | number hx => exact .primitive (by simp [strictEq, hx])
  | string s => exact .primitive (by simp [strictEq])
  | array _ ih => exact .array (Equiv.refl _) fun i => ih _ (List.get_mem _ i)
  | object _ ih => exact .document rfl rfl (fun _ => Iff.rfl) fun p hp _ => ih p hp

theorem Plain.elements {l : List Value} (h : Plain (.array l)) : ∀ v ∈ l, Plain v := by
  cases h with
  | array h => exact h

/-- Elements that are paired are equal, and the other way round. -/
theorem exists_equiv_iff {al ar : List Value} (hal : Plain (.array al)) (har : Plain (.array ar)) :
    EqualUpTo true (.array al) (.array ar) ↔
      ∃ σ : Fin al.length ≃ Fin ar.length, ∀ i, anyEq (al.get i) (ar.get (σ i)) = .ok true := by
  constructor
  · intro h
    obtain ⟨_, hr, σ, hσ⟩ := h.array_left
    cases hr
    exact ⟨σ, fun i => anyEq_eq_true_iff.mpr
      ⟨hal.elements _ (al.get_mem i), har.elements _ (ar.get_mem _), hσ i⟩⟩
  · rintro ⟨σ, hσ⟩
    exact .array σ fun i => (anyEq_eq_true_iff.mp (hσ i)).2.2

theorem documents_returns {dl dr : List String} {dlValue drValue : String → Value}
    (hl : Plain (.object dl dlValue)) (hr : Plain (.object dr drValue)) :
    Returns (documentEq dl dlValue dr drValue) ((∀ p, p ∈ dl ↔ p ∈ dr) ∧
      ∀ p ∈ dl, p ≠ "_id" → anyEq (dlValue p) (drValue p) = .ok true) := by
  obtain ⟨hl, hlValue⟩ := hl.document rfl
  obtain ⟨hr, hrValue⟩ := hr.document rfl
  have htotal : ∀ p ∈ dl, p ∈ dr → p ≠ "_id" → ∃ b, anyEq (dlValue p) (drValue p) = .ok b :=
    fun p hp hp' hid =>
      (decided_of_plain (hlValue p hp hid) (hrValue p hp' hid)).imp fun _ h => h.1
  obtain ⟨b, hb⟩ := compareDocuments_total (fun p => anyEq (dlValue p)) drValue ⟨hl, hr⟩ htotal
  refine ⟨b, hb, ?_⟩
  have hiff : compareDocuments (fun p => anyEq (dlValue p)) dl dr drValue = .ok true ↔ _ :=
    compareDocuments_eq_true
  rw [hb, Except.ok.injEq] at hiff
  exact hiff.trans (and_iff_right ⟨hl, hr⟩)

/-- **The comparison is what it is meant to be** exactly on the values in which no object has a property
`hasOwnProperty`, except below an `_id`. -/
theorem comparesUnordered_iff {S : Set Value} (hS : ∀ v ∈ S, Basic v) :
    ComparesUnordered S ↔ ∀ v ∈ S, Plain v := by
  constructor
  · exact fun h v hv => (anyEq_eq_true_iff.mp (h.refl v hv)).1
  · intro hplain
    refine {
      returns := fun v hv w hw => (decided_of_plain (hplain v hv) (hplain w hw)).imp fun _ h => h.1
      refl := fun v hv => anyEq_eq_true_iff.mpr ⟨hplain v hv, hplain v hv, .refl (hS v hv)⟩
      symm := fun v hv w hw h => ?_
      trans := fun u hu v hv w hw h h' => ?_
      arrays := fun al ar hal har => ?_
      documents := fun dl dlValue dr drValue hl hr => documents_returns (hplain _ hl) (hplain _ hr)
      results := fun h rl rr _ hrr _ _ => resultsEq_eq hrr }
    · have hequal := (anyEq_eq_true_iff.mp h).2.2
      exact anyEq_eq_true_iff.mpr ⟨hplain w hw, hplain v hv, hequal.symm⟩
    · have hequal := (anyEq_eq_true_iff.mp h).2.2.trans (anyEq_eq_true_iff.mp h').2.2
      exact anyEq_eq_true_iff.mpr ⟨hplain u hu, hplain w hw, hequal⟩
    · obtain ⟨b, hb, hiff⟩ := decided_of_plain (hplain _ hal) (hplain _ har)
      rw [anyEq_array] at hb
      exact ⟨b, hb, hiff.trans (exists_equiv_iff (hplain _ hal) (hplain _ har))⟩

theorem comparesUnordered_iff_singleton :
    (∀ v ∈ ({.array [.null, .boolean true]} : Set Value), Basic v) ∧
      (ComparesUnordered {.array [.null, .boolean true]} ↔
        ∀ v ∈ ({.array [.null, .boolean true]} : Set Value), Plain v) := by
  have hS : ∀ v ∈ ({.array [.null, .boolean true]} : Set Value), Basic v := by
    rintro v rfl
    refine .array fun v hv => ?_
    rcases List.mem_pair.mp hv with rfl | rfl
    · exact .null
    · exact .boolean true
  exact ⟨hS, comparesUnordered_iff hS⟩

/-- An object that hides the method is not even found equal to itself. -/
theorem not_comparesUnordered :
    let hidden := Value.object ["hasOwnProperty"] fun _ => .number (.fin 1)
    Basic hidden ∧ anyEq hidden hidden = .error .dlHasOwnProperty ∧
      ¬ ComparesUnordered {v | Basic v} := by
  have hbasic : Basic (Value.object ["hasOwnProperty"] fun _ => .number (.fin 1)) :=
    .object fun p _ => .number fun h => by cases h
  refine ⟨hbasic, rfl, fun h => ?_⟩
  have hrefl := h.refl _ hbasic
  cases hrefl

end Relation

end MongoTests.Aggregation
