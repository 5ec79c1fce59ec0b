import Mathlib.Logic.Function.Basic

/-!
# Locks

Threads with a place each, some of them critical: a thread is at a critical place only while it holds
the lock.

* `Guarded`: the invariant; `alone`: at most one thread is at a critical place.
* `move`, `acquire`, `release`: the steps that keep it.
-/

namespace MongoTests.Lib

variable {ι P : Type*} {critical : P → Prop} {lock : Option ι} {place : ι → P} {i j : ι} {p : P}

/-- A thread at a critical place holds the lock. -/
def Guarded (critical : P → Prop) (lock : Option ι) (place : ι → P) : Prop :=
  ∀ i, critical (place i) → lock = some i

namespace Guarded

theorem alone (h : Guarded critical lock place) (hi : critical (place i)) (hj : j ≠ i) :
    ¬ critical (place j) := by
  intro hcritical
  have hlock := h i hi
  rw [h j hcritical] at hlock
  exact hj (Option.some.inj hlock)

theorem not_critical (h : Guarded critical none place) (i : ι) : ¬ critical (place i) := by
  intro hcritical
  cases h i hcritical

variable [DecidableEq ι]

theorem move (h : Guarded critical lock place) (hp : critical p → lock = some i) :
    Guarded critical lock (Function.update place i p) :=
  (Function.forall_update_iff place fun j p => critical p → lock = some j).mpr
    ⟨hp, fun j _ => h j⟩

theorem acquire (h : Guarded critical none place) :
    Guarded critical (some i) (Function.update place i p) :=
  (Function.forall_update_iff place fun j p => critical p → some i = some j).mpr
    ⟨fun _ => rfl, fun j _ hj => absurd hj (h.not_critical j)⟩

theorem release (h : Guarded critical lock place) (hi : critical (place i)) (hp : ¬ critical p) :
    Guarded critical none (Function.update place i p) :=
  (Function.forall_update_iff place fun j p => critical p → none = some j).mpr
    ⟨fun hcritical => absurd hcritical hp, fun _ hj hcritical => absurd hcritical (h.alone hi hj)⟩

end Guarded

end MongoTests.Lib
