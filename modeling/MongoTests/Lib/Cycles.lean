import Mathlib.Data.List.Chain
import Mathlib.Data.Set.Insert
import Mathlib.Logic.Relation

/-!
# Cycles of a directed graph

A graph is its edge relation. A depth-first search finishes a node when all nodes that it leads to
are finished; an edge back to the path that the search is on closes a cycle.

* `Acyclic`, `IsCycle`; `IsCycle.not_acyclic`.
* `isCycle_of_back_edge`: the part of the path from the node that the edge leads back to.
* `Finished`: a set of nodes that no edge leaves and that has no cycle; `Finished.insert`,
  `Finished.acyclic_of_forall`.
-/

namespace MongoTests.Lib.Cycles

variable {α : Type*} {edge : α → α → Prop}

variable (edge) in
def Acyclic : Prop := ∀ a, ¬ Relation.TransGen edge a a

variable (edge) in
/-- Consecutive nodes, and the last and the first one, are joined by edges. -/
def IsCycle : List α → Prop
  | [] => False
  | a :: l => List.IsChain edge (a :: (l ++ [a]))

/-- The ends of a walk of at least one edge. -/
theorem transGen_of_isChain {a b : α} {l : List α} (h : List.IsChain edge (a :: (l ++ [b]))) :
    Relation.TransGen edge a b := by
  induction l generalizing a with
  | nil => exact .single (List.isChain_cons_cons.mp h).1
  | cons c l ih =>
    obtain ⟨hac, hl⟩ := List.isChain_cons_cons.mp h
    exact .head hac (ih hl)

theorem IsCycle.not_acyclic {l : List α} (h : IsCycle edge l) : ¬ Acyclic edge := by
  cases l with
  | nil => exact h.elim
  | cons a l => exact fun hacyclic => hacyclic a (transGen_of_isChain h)

theorem isCycle_of_back_edge {pre post : List α} {a b : α}
    (h : List.IsChain edge (pre ++ b :: post)) (ha : a ∈ (b :: post).getLast?) (hab : edge a b) :
    IsCycle edge (b :: post) := by
  have hpath : List.IsChain edge (b :: post) := h.right_of_append
  rw [IsCycle, ← List.cons_append]
  refine hpath.append (List.isChain_singleton b) fun x hx y hy => ?_
  obtain rfl : x = a := Option.some.inj (hx.symm.trans ha)
  cases hy
  exact hab

variable (edge) in
/-- No edge leaves the set, and none of its nodes is on a cycle. -/
structure Finished (done : Set α) : Prop where
  closed : ∀ a ∈ done, ∀ b, edge a b → b ∈ done
  acyclic : ∀ a ∈ done, ¬ Relation.TransGen edge a a

namespace Finished

variable {done : Set α}

theorem empty : Finished edge ∅ := ⟨fun _ h => h.elim, fun _ h => h.elim⟩

theorem mem_of_transGen (h : Finished edge done) {a b : α} (ha : a ∈ done)
    (hab : Relation.TransGen edge a b) : b ∈ done := by
  induction hab with
  | single hab => exact h.closed _ ha _ hab
  | tail _ hbc ih => exact h.closed _ ih _ hbc

/-- **A node that only leads to finished nodes** can be finished. -/
theorem insert (h : Finished edge done) {a : α} (ha : a ∉ done) (hout : ∀ b, edge a b → b ∈ done) :
    Finished edge (insert a done) := by
  refine ⟨fun c hc b hb => ?_, fun c hc hcycle => ?_⟩
  · rcases hc with rfl | hc
    · exact .inr (hout b hb)
    · exact .inr (h.closed c hc b hb)
  · rcases hc with rfl | hc
    · obtain ⟨b, hab, hba⟩ := Relation.TransGen.head'_iff.mp hcycle
      rcases Relation.reflTransGen_iff_eq_or_transGen.mp hba with rfl | hba
      · exact ha (hout _ hab)
      · exact ha (h.mem_of_transGen (hout b hab) hba)
    · exact h.acyclic c hc hcycle

/-- A graph is acyclic when all nodes with an edge are finished. -/
theorem acyclic_of_forall (h : Finished edge done) (hall : ∀ a b, edge a b → a ∈ done) :
    Acyclic edge := by
  intro a hcycle
  obtain ⟨b, hab, -⟩ := Relation.TransGen.head'_iff.mp hcycle
  exact h.acyclic a (hall a b hab) hcycle

end Finished

end MongoTests.Lib.Cycles
