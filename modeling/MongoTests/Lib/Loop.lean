import Mathlib.Data.Nat.Notation
import Mathlib.Order.Basic

/-!
# Loops

A loop repeats a round that goes on in a new state or leaves the loop with a result.

* `loop`: the rounds, as far as the fuel goes.
* `loop_inv`: the round that leaves the loop starts in a state that satisfies the invariant.
* `exists_loop_eq`: a measure that every round lowers bounds the fuel.
* `loop_eq_of_states`: a loop whose states are known.
-/

namespace MongoTests.Lib

variable {σ ρ : Type*}

def loop (round : σ → σ × Option ρ) : ℕ → σ → Option (σ × ρ)
  | 0, _ => none
  | fuel + 1, s =>
    match round s with
    | (s', some exit) => some (s', exit)
    | (s', none) => loop round fuel s'

variable {round : σ → σ × Option ρ} {I : σ → Prop} {s s' : σ} {exit : ρ} {fuel : ℕ}

theorem loop_succ_exit (h : round s = (s', some exit)) :
    loop round (fuel + 1) s = some (s', exit) := by
  rw [loop, h]

theorem loop_succ_next (h : round s = (s', none)) :
    loop round (fuel + 1) s = loop round fuel s' := by
  rw [loop, h]

/-- The invariant rule. -/
theorem loop_inv (hI : ∀ s s', I s → round s = (s', none) → I s') (hs : I s)
    (h : loop round fuel s = some (s', exit)) : ∃ t, I t ∧ round t = (s', some exit) := by
  induction fuel generalizing s with
  | zero => cases h
  | succ fuel ih =>
    obtain ⟨⟨t, o⟩, hround⟩ : ∃ x, round s = x := ⟨_, rfl⟩
    cases o with
    | none =>
      rw [loop_succ_next hround] at h
      exact ih (hI s t hs hround) h
    | some e =>
      rw [loop_succ_exit hround] at h
      cases h
      exact ⟨s, hs, hround⟩

/-- The termination rule. -/
theorem exists_loop_eq {cost : σ → ℕ} (hI : ∀ s s', I s → round s = (s', none) → I s')
    (hcost : ∀ s s', I s → round s = (s', none) → cost s' < cost s) (hs : I s) :
    ∃ s' exit, ∀ fuel, cost s < fuel → loop round fuel s = some (s', exit) := by
  induction hn : cost s using Nat.strongRecOn generalizing s with
  | ind n ih =>
    obtain ⟨⟨t, o⟩, hround⟩ : ∃ x, round s = x := ⟨_, rfl⟩
    cases o with
    | none =>
      have hlt := hcost s t hs hround
      obtain ⟨s', exit, hloop⟩ := ih (cost t) (hn ▸ hlt) (hI s t hs hround) rfl
      refine ⟨s', exit, fun fuel hfuel => ?_⟩
      obtain ⟨fuel, rfl⟩ := Nat.exists_eq_add_one_of_ne_zero (Nat.ne_zero_of_lt hfuel)
      rw [loop_succ_next hround]
      exact hloop fuel (by omega)
    | some e =>
      refine ⟨t, e, fun fuel hfuel => ?_⟩
      obtain ⟨fuel, rfl⟩ := Nat.exists_eq_add_one_of_ne_zero (Nat.ne_zero_of_lt hfuel)
      exact loop_succ_exit hround

theorem loop_eq_of_states_from {t : ℕ → σ} {n k : ℕ}
    (hnext : ∀ k < n, round (t k) = (t (k + 1), none)) (hexit : round (t n) = (s', some exit))
    (hk : k ≤ n) (hfuel : n < k + fuel) : loop round fuel (t k) = some (s', exit) := by
  induction fuel generalizing k with
  | zero => omega
  | succ fuel ih =>
    rcases Nat.lt_or_eq_of_le hk with hlt | rfl
    · rw [loop_succ_next (hnext k hlt)]
      exact ih hlt (by omega)
    · exact loop_succ_exit hexit

/-- A loop that goes through the states `t 0`, …, `t n`. -/
theorem loop_eq_of_states {t : ℕ → σ} {n : ℕ} (hnext : ∀ k < n, round (t k) = (t (k + 1), none))
    (hexit : round (t n) = (s', some exit)) (hfuel : n < fuel) :
    loop round fuel (t 0) = some (s', exit) :=
  loop_eq_of_states_from hnext hexit (Nat.zero_le n) (by omega)

end MongoTests.Lib
