import Mathlib.Algebra.BigOperators.Fin
import Mathlib.Algebra.BigOperators.Group.Finset.Piecewise

/-!
# Guarded runs of a step function

A system is a step function `σ → α → Option σ`: the label `α` names who moves and what the
environment answers, and `none` says that the move is not possible in that state.

* `Reach step ok init s`: a run from an initial state, all of whose steps satisfy `ok`, ends in
  `s`; `Free` is the guard that allows every step.
* `Reach.inv`, `Reach.inv_of`: the invariant rules.
* `Reach.exists_stuck`: a run along which a measure goes down comes to an end.
* `run`, `Reach.of_run`, `Reach.exists_of_run`: runs that can be evaluated, for concrete schedules.
* `sum_threads_update`: counting over the local states of many threads when one of them moves.
-/

namespace MongoTests.Lib

variable {σ α : Type*}

/-- The states at the end of a run from `init` whose steps all satisfy `ok`. -/
inductive Reach (step : σ → α → Option σ) (ok : σ → α → Prop) (init : σ → Prop) : σ → Prop
  | start {s : σ} : init s → Reach step ok init s
  | next {s s' : σ} {a : α} : Reach step ok init s → ok s a → step s a = some s' →
      Reach step ok init s'

/-- Every step is allowed. -/
def Free (_ : σ) (_ : α) : Prop := True

instance (s : σ) (a : α) : Decidable (Free s a) := inferInstanceAs (Decidable True)

variable {step : σ → α → Option σ} {ok ok' : σ → α → Prop} {init : σ → Prop}

/-- **The invariant rule.** -/
theorem Reach.inv {I : σ → Prop} (h0 : ∀ s, init s → I s)
    (hs : ∀ s a s', I s → ok s a → step s a = some s' → I s') {s : σ}
    (h : Reach step ok init s) : I s := by
  induction h with
  | start hi => exact h0 _ hi
  | next _ hok hstep ih => exact hs _ _ _ ih hok hstep

/-- An invariant may use one that is already known of the reachable states. -/
theorem Reach.inv_of {I J : σ → Prop} (hJ : ∀ s, Reach step ok init s → J s)
    (h0 : ∀ s, init s → I s)
    (hs : ∀ s a s', J s → J s' → I s → ok s a → step s a = some s' → I s') {s : σ}
    (h : Reach step ok init s) : I s := by
  induction h with
  | start hi => exact h0 _ hi
  | next hr hok hstep ih => exact hs _ _ _ (hJ _ hr) (hJ _ (.next hr hok hstep)) ih hok hstep

theorem Reach.mono (h' : ∀ s a, ok s a → ok' s a) {s : σ} (h : Reach step ok init s) :
    Reach step ok' init s := by
  induction h with
  | start hi => exact .start hi
  | next _ hok hstep ih => exact .next ih (h' _ _ hok) hstep

/-- Where every step lowers a measure, a run can be continued until no step is possible. -/
theorem Reach.exists_stuck {m : σ → ℕ}
    (hm : ∀ s, Reach step Free init s → ∀ a s', step s a = some s' → m s' < m s) {s : σ}
    (h : Reach step Free init s) : ∃ s', Reach step Free init s' ∧ ∀ a, step s' a = none := by
  induction hk : m s using Nat.strong_induction_on generalizing s with
  | h k ih =>
    by_cases hstuck : ∀ a, step s a = none
    · exact ⟨s, h, hstuck⟩
    · obtain ⟨a, ha⟩ := not_forall.mp hstuck
      obtain ⟨s', hs'⟩ := Option.ne_none_iff_exists'.mp ha
      exact ih (m s') (hk ▸ hm s h a s' hs') (.next h trivial hs') rfl

variable (step ok) in
/-- Run a list of labels, checking the guard before every step. -/
def run [∀ s a, Decidable (ok s a)] : σ → List α → Option σ
  | s, [] => some s
  | s, a :: as => if ok s a then (step s a).bind (run · as) else none

/-- A run that evaluates to a state reaches it. -/
theorem Reach.of_run [∀ s a, Decidable (ok s a)] {s s' : σ} (h : Reach step ok init s)
    (as : List α) (hr : run step ok s as = some s') : Reach step ok init s' := by
  induction as generalizing s with
  | nil =>
    cases hr
    exact h
  | cons a as ih =>
    rw [run] at hr
    split_ifs at hr with hok
    obtain ⟨t, hst, hrun⟩ := Option.bind_eq_some_iff.mp hr
    exact ih (.next h hok hst) hrun

/-- A concrete schedule shows that a state with a decidable property is reached. -/
theorem Reach.exists_of_run [∀ s a, Decidable (ok s a)] {P : σ → Prop} [DecidablePred P] {s : σ}
    (h : Reach step ok init s) (as : List α)
    (hr : (run step ok s as).any (fun s' => decide (P s')) = true) :
    ∃ s', Reach step ok init s' ∧ P s' := by
  obtain ⟨s', hs', hp⟩ := (Option.any_eq_true _ _).mp hr
  exact ⟨s', .of_run h as hs', of_decide_eq_true hp⟩

section Threads

variable {ι P M : Type*} [Fintype ι] [DecidableEq ι] [AddCommMonoid M]

/-- When thread `i` moves from `p i` to `b`, a sum over all threads changes by thread `i` only. -/
theorem sum_threads_update (p : ι → P) (g : P → M) (i : ι) (b : P) :
    (∑ j, g (Function.update p i b j)) + g (p i) = (∑ j, g (p j)) + g b := by
  have h : ∀ j, g (Function.update p i b j) = Function.update (fun j => g (p j)) i (g b) j :=
    fun j => Function.apply_update (fun _ => g) p i b j
  simp only [h]
  rw [Finset.sum_update_of_mem (Finset.mem_univ i),
    ← Finset.add_sum_erase Finset.univ (fun j => g (p j)) (Finset.mem_univ i),
    Finset.sdiff_singleton_eq_erase, add_comm (g b), add_comm (g (p i)), add_right_comm]

end Threads

end MongoTests.Lib
