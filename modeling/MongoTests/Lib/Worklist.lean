import Mathlib.Algebra.BigOperators.Group.Finset.Basic
import Mathlib.Data.List.Nodup
import Mathlib.Data.Set.Finite.Basic
import Mathlib.Logic.Relation

/-!
# Searching a graph with a worklist

The edges of a graph are items: an item leads to a node, or nowhere, and a node has a list of items.
A search takes the first pending item. When it leads to a node that was not visited, the node is
visited and its items go to the end of the worklist.

* `Worklist.Step`: one round; `Worklist.Reached`: the nodes that the start items lead to.
* `reached_of_closed`: the nodes of a graph that is listed.
* `Inv`: what every state of a search satisfies, with `Inv.init`, `Inv.step`.
* `Inv.mem_visited_iff`: a search that is done has visited the nodes that can be reached.
* `Search`: a search up to its end, and the order of the nodes; `Search.unique`.
* `cost_lt`: a measure, where the reached nodes are finitely many.
-/

namespace MongoTests.Lib

/-- A graph whose edges are the items `ι`. -/
structure Worklist (α ι : Type*) where
  target : ι → Option α
  out : α → List ι

namespace Worklist

variable {α ι : Type*}

structure State (α ι : Type*) where
  pending : List ι
  visited : List α

variable {G : Worklist α ι} {start : List ι} {s s' : State α ι}

variable (G) in
inductive Step : State α ι → State α ι → Prop
  | skip {i : ι} {a : α} {rest : List ι} {visited : List α} (hi : G.target i = some a)
      (ha : a ∈ visited) : Step ⟨i :: rest, visited⟩ ⟨rest, visited⟩
  | visit {i : ι} {a : α} {rest : List ι} {visited : List α} (hi : G.target i = some a)
      (ha : a ∉ visited) : Step ⟨i :: rest, visited⟩ ⟨rest ++ G.out a, visited ++ [a]⟩

variable (G start) in
/-- The nodes to which a path of items leads. -/
inductive Reached : α → Prop
  | start {i : ι} {a : α} : i ∈ start → G.target i = some a → Reached a
  | next {a b : α} {i : ι} : Reached a → i ∈ G.out a → G.target i = some b → Reached b

variable (G start) in
/-- The items on these paths. -/
def Item (i : ι) : Prop := i ∈ start ∨ ∃ a, Reached G start a ∧ i ∈ G.out a

theorem Item.reached {i : ι} (h : Item G start i) {a : α} (ha : G.target i = some a) :
    Reached G start a := by
  obtain hi | ⟨b, hb, hi⟩ := h
  · exact .start hi ha
  · exact .next hb hi ha

/-- A list of nodes that the items of the start and of its nodes do not leave. -/
theorem reached_of_closed {nodes : List α}
    (h : ∀ i ∈ start ++ nodes.flatMap G.out, ∀ a, G.target i = some a → a ∈ nodes) :
    (∀ a, Reached G start a → a ∈ nodes) ∧ ∀ i, Item G start i → i ∈ start ++ nodes.flatMap G.out := by
  have hreached : ∀ a, Reached G start a → a ∈ nodes := by
    intro a ha
    induction ha with
    | start hi ha => exact h _ (List.mem_append_left _ hi) _ ha
    | next _ hi hb ih =>
      exact h _ (List.mem_append_right _ (List.mem_flatMap.mpr ⟨_, ih, hi⟩)) _ hb
  refine ⟨hreached, ?_⟩
  rintro i (hi | ⟨a, ha, hi⟩)
  · exact List.mem_append_left _ hi
  · exact List.mem_append_right _ (List.mem_flatMap.mpr ⟨a, hreached a ha, hi⟩)

variable (G) in
/-- The item is pending, or the search has followed it. -/
def Handled (s : State α ι) (i : ι) : Prop :=
  i ∈ s.pending ∨ ∃ a ∈ s.visited, G.target i = some a

variable (G start) in
structure Inv (s : State α ι) : Prop where
  nodup : s.visited.Nodup
  reached : ∀ a ∈ s.visited, Reached G start a
  pending : ∀ i ∈ s.pending, Item G start i
  start : ∀ i ∈ start, Handled G s i
  closed : ∀ a ∈ s.visited, ∀ i ∈ G.out a, Handled G s i

theorem Inv.init : Inv G start ⟨start, []⟩ where
  nodup := List.nodup_nil
  reached _ ha := absurd ha List.not_mem_nil
  pending _ hi := .inl hi
  start _ hi := .inl hi
  closed _ ha := absurd ha List.not_mem_nil

theorem Handled.skip {i j : ι} {a : α} {rest : List ι} {visited : List α}
    (hi : G.target i = some a) (ha : a ∈ visited) (h : Handled G ⟨i :: rest, visited⟩ j) :
    Handled G ⟨rest, visited⟩ j := by
  obtain hj | hj := h
  · obtain rfl | hj := List.mem_cons.mp hj
    · exact .inr ⟨a, ha, hi⟩
    · exact .inl hj
  · exact .inr hj

theorem Handled.visit {i j : ι} {a : α} {rest new : List ι} {visited : List α}
    (hi : G.target i = some a) (h : Handled G ⟨i :: rest, visited⟩ j) :
    Handled G ⟨rest ++ new, visited ++ [a]⟩ j := by
  obtain hj | ⟨b, hb, hj⟩ := h
  · obtain rfl | hj := List.mem_cons.mp hj
    · exact .inr ⟨a, List.mem_append_right _ (List.mem_singleton.mpr rfl), hi⟩
    · exact .inl (List.mem_append_left _ hj)
  · exact .inr ⟨b, List.mem_append_left _ hb, hj⟩

theorem Inv.step (h : Inv G start s) (hstep : Step G s s') : Inv G start s' := by
  cases hstep with
  | skip hi ha =>
    exact ⟨h.nodup, h.reached, fun j hj => h.pending j (List.mem_cons_of_mem _ hj),
      fun j hj => (h.start j hj).skip hi ha, fun b hb j hj => (h.closed b hb j hj).skip hi ha⟩
  | @visit i a rest visited hi ha =>
    have hreached : Reached G start a := (h.pending i List.mem_cons_self).reached hi
    refine ⟨?_, ?_, ?_, fun j hj => (h.start j hj).visit hi, ?_⟩
    · rw [← List.concat_eq_append]
      exact h.nodup.concat ha
    · intro b hb
      obtain hb | hb := List.mem_append.mp hb
      · exact h.reached b hb
      · rw [List.mem_singleton.mp hb]
        exact hreached
    · intro j hj
      obtain hj | hj := List.mem_append.mp hj
      · exact h.pending j (List.mem_cons_of_mem _ hj)
      · exact .inr ⟨a, hreached, hj⟩
    · intro b hb j hj
      obtain hb | hb := List.mem_append.mp hb
      · exact (h.closed b hb j hj).visit hi
      · rw [List.mem_singleton.mp hb] at hj
        exact .inl (List.mem_append_right _ hj)

/-- **A search that is done has visited exactly the nodes that can be reached.** -/
theorem Inv.mem_visited_iff (h : Inv G start s) (hdone : s.pending = []) {a : α} :
    a ∈ s.visited ↔ Reached G start a := by
  have hhandled : ∀ i b, Handled G s i → G.target i = some b → b ∈ s.visited := by
    rintro i b (hi | ⟨c, hc, hi⟩) hb
    · rw [hdone] at hi
      exact absurd hi List.not_mem_nil
    · rw [hi] at hb
      cases hb
      exact hc
  refine ⟨h.reached a, fun ha => ?_⟩
  induction ha with
  | start hi ha => exact hhandled _ _ (h.start _ hi) ha
  | next _ hi hb ih => exact hhandled _ _ (h.closed _ ih _ hi) hb

/-! ## The order -/

/-- A round has one outcome. -/
theorem Step.functional {t t' : State α ι} (h : Step G s t) (h' : Step G s t') : t = t' := by
  cases h with
  | skip hi ha =>
    cases h' with
    | skip => rfl
    | visit hi' ha' =>
      rw [hi] at hi'
      cases hi'
      exact absurd ha ha'
  | visit hi ha =>
    cases h' with
    | skip hi' ha' =>
      rw [hi] at hi'
      cases hi'
      exact absurd ha' ha
    | visit hi' _ =>
      rw [hi] at hi'
      cases hi'
      rfl

variable (G start) in
/-- The nodes that a search visits, in this order. -/
def Search (nodes : List α) : Prop := Relation.ReflTransGen (Step G) ⟨start, []⟩ ⟨[], nodes⟩

theorem Search.unique {nodes nodes' : List α} (h : Search G start nodes)
    (h' : Search G start nodes') : nodes = nodes' := by
  -- No step leaves a state without pending items.
  have hdone : ∀ {nodes : List α} {t : State α ι}, Relation.ReflTransGen (Step G) ⟨[], nodes⟩ t →
      t = ⟨[], nodes⟩ := by
    intro nodes t ht
    obtain heq | ⟨_, hstep, -⟩ := ht.cases_head
    · exact heq.symm
    · cases hstep
  obtain ht | ht := Relation.ReflTransGen.total_of_right_unique
    (fun _ _ _ hs hs' => hs.functional hs') h h'
  · cases hdone ht
    rfl
  · cases hdone ht
    rfl

variable (G start) in
/-- The items that were followed come first among those of the start and of the visited nodes. -/
def Followed (s : State α ι) (followed : List ι) : Prop :=
  followed ++ s.pending = start ++ s.visited.flatMap G.out

/-- The worklist is a queue. -/
theorem Followed.step {i : ι} {rest followed : List ι} {visited : List α}
    (h : Followed G start ⟨i :: rest, visited⟩ followed) (hstep : Step G ⟨i :: rest, visited⟩ s') :
    Followed G start s' (followed ++ [i]) := by
  rw [Followed] at h ⊢
  cases hstep with
  | skip => rw [← h, List.append_assoc, List.singleton_append]
  | visit =>
    dsimp only at h ⊢
    rw [List.flatMap_append, List.flatMap_singleton, ← List.append_assoc start, ← h]
    simp only [List.append_assoc, List.cons_append, List.nil_append]

/-! ## Termination -/

section Cost

variable [DecidableEq α]

variable (G) in
/-- The items that are pending, and those of the nodes that are not visited. -/
def cost (nodes : Finset α) (s : State α ι) : ℕ :=
  s.pending.length + ∑ a ∈ nodes \ s.visited.toFinset, (G.out a).length

theorem cost_lt {nodes : Finset α} (hnodes : ∀ a, Reached G start a → a ∈ nodes)
    (h : Inv G start s) (hstep : Step G s s') : cost G nodes s' < cost G nodes s := by
  cases hstep with
  | skip hi ha =>
    rw [cost, cost]
    exact Nat.add_lt_add_right (Nat.lt_succ_self _) _
  | @visit i a rest visited hi ha =>
    have hmem : a ∈ nodes \ visited.toFinset := by
      rw [Finset.mem_sdiff, List.mem_toFinset]
      exact ⟨hnodes a ((h.pending i List.mem_cons_self).reached hi), ha⟩
    have hsdiff : nodes \ (visited ++ [a]).toFinset = (nodes \ visited.toFinset).erase a := by
      ext b
      simp only [Finset.mem_sdiff, List.mem_toFinset, List.mem_append, List.mem_singleton,
        Finset.mem_erase]
      tauto
    have hsum := Finset.add_sum_erase _ (fun b => (G.out b).length) hmem
    simp only [cost, hsdiff, List.length_append, List.length_cons]
    omega

end Cost

end Worklist

end MongoTests.Lib
