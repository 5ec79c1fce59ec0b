import Mathlib.Data.Nat.Notation
import Mathlib.Logic.Basic

/-!
# Related computations

Two computations that raise the same errors and give related results: one level of a design refines
another, errors included.

* `Related`, with `Related.bind`, `Related.map` and `Related.foldlM`: sequences and loops;
* `related_eq_iff`: related by equality; `Related.map_eq`: what related runs have in common.
-/

namespace MongoTests.Lib

universe u v

variable {ε : Type*} {α α' γ : Type u} {β β' : Type v} {ι : Type*}

/-- The same error, or results in the relation. -/
def Related (R : α → β → Prop) : Except ε α → Except ε β → Prop
  | .ok a, .ok b => R a b
  | .error e, .error e' => e = e'
  | _, _ => False

variable {R R₁ : α → β → Prop} {R' : α' → β' → Prop} {x : Except ε α} {y : Except ε β}

theorem Related.ok {a : α} {b : β} (h : R a b) : Related (ε := ε) R (.ok a) (.ok b) := h

theorem Related.error (e : ε) : Related R (.error e) (.error e) := rfl

theorem Related.mono (h : Related R x y) (hR : ∀ a b, R a b → R₁ a b) : Related R₁ x y := by
  cases x <;> cases y
  · exact h
  · exact h
  · exact h
  · exact hR _ _ h

theorem related_eq_iff {x y : Except ε α} : Related Eq x y ↔ x = y := by
  cases x <;> cases y <;> simp [Related]

/-- The same computation on both sides. -/
theorem Related.refl (x : Except ε α) : Related Eq x x := related_eq_iff.mpr rfl

theorem Related.bind {f : α → Except ε α'} {g : β → Except ε β'} (h : Related R x y)
    (hfg : ∀ a b, R a b → Related R' (f a) (g b)) : Related R' (x >>= f) (y >>= g) := by
  cases x <;> cases y
  · exact h
  · exact h.elim
  · exact h.elim
  · exact hfg _ _ h

theorem Related.map {f : α → α'} {g : β → β'} (h : Related R x y)
    (hfg : ∀ a b, R a b → R' (f a) (g b)) : Related R' (f <$> x) (g <$> y) := by
  cases x <;> cases y
  · exact h
  · exact h.elim
  · exact h.elim
  · exact hfg _ _ h

theorem Related.map_eq {f : α → γ} {g : α' → γ} {x : Except ε α} {y : Except ε α'}
    (h : Related (fun a b => f a = g b) x y) : f <$> x = g <$> y := by
  cases x <;> cases y
  · exact congrArg Except.error h
  · exact h.elim
  · exact h.elim
  · exact congrArg Except.ok h

/-- A loop on both sides, over the same list. -/
theorem Related.foldlM {f : α → ι → Except ε α} {g : β → ι → Except ε β} {l : List ι}
    (h : ∀ a b, ∀ i ∈ l, R a b → Related R (f a i) (g b i)) {a : α} {b : β} (hab : R a b) :
    Related R (l.foldlM f a) (l.foldlM g b) := by
  induction l generalizing a b with
  | nil => exact hab
  | cons i l ih =>
    refine (h a b i List.mem_cons_self hab).bind fun a' b' hab' => ?_
    exact ih (fun a b j hj => h a b j (List.mem_cons_of_mem i hj)) hab'

end MongoTests.Lib
