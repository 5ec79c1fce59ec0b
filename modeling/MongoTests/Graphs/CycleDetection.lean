import MongoTests.Lib.Cycles

/-!
# Cycle detection in the shell

`Graph` of `jstests/libs/cycle_detection.js`. Its sets tell nodes apart by `=`; the `Map` of the shell
and `friendlyEqual` take nodes for the same that are related by `≈`, which is any equivalence.

* `ShellMap`; `Graph`, `addEdge`; `doDepthFirstSearch`, `findCycle`.
* `Continues`: what a search that finds no cycle does to the states of the nodes.
* `searchNeighbors_spec`, `doDepthFirstSearch_spec`: one call of the search.
* **`findCycle_correct`**: `findCycle` returns, with an empty array if and only if the graph is acyclic,
  and with a closed walk otherwise.
-/

namespace MongoTests.Graphs

open MongoTests.Lib

/-! ## The graph -/

section Model

variable {α : Type*} [DecidableEq α] [s : Setoid α] [DecidableRel fun a b : α => a ≈ b]

/-- The shell's `Map`. -/
abbrev ShellMap (α : Type*) [s : Setoid α] (β : Type*) := Quotient s → Option β

def ShellMap.get {β : Type*} (m : ShellMap α β) (a : α) : Option β := m ⟦a⟧

def ShellMap.put {β : Type*} (m : ShellMap α β) (a : α) (b : β) : ShellMap α β :=
  Function.update m ⟦a⟧ (some b)

/-- `Set.add`; the elements in the order of insertion. -/
def setAdd (l : List α) (a : α) : List α := if a ∈ l then l else l ++ [a]

structure Graph (α : Type*) [Setoid α] where
  nodes : List α
  adjList : ShellMap α (List α)

namespace Graph

def empty : Graph α := ⟨[], fun _ => none⟩

def addEdge (g : Graph α) (fromNode toNode : α) : Graph α where
  nodes := setAdd (setAdd g.nodes fromNode) toNode
  adjList := g.adjList.put fromNode (setAdd ((g.adjList.get fromNode).getD []) toNode)

/-- A graph after a sequence of calls of `addEdge`. -/
def ofEdges (edges : List (α × α)) : Graph α :=
  edges.foldl (fun g e => g.addEdge e.1 e.2) empty

end Graph

/-! ## The search -/

inductive NodeState
  | kNotYetVisited
  | kVisitingInProgress
  | kAlreadyVisited
  deriving DecidableEq, Repr

/-- 'Found node … unexpectedly in state …' -/
structure UnexpectedState (α : Type*) where
  node : α
  state : Option NodeState

/-- The nodes of a cycle, if one was found, with the states that are left; or the error. A search
that is out of fuel has no result. -/
abbrev SearchResult (α : Type*) [Setoid α] :=
  Option (Except (UnexpectedState α) (List α × ShellMap α NodeState))

/-- The edge to the node that was searched is part of the cycle, unless the loop is closed. -/
def closeLoop (node : α) (result : List α) : List α :=
  match result.head?, result.getLast? with
  | some first, some last => if first ≈ last then result else node :: result
  | _, _ => result

/-- The loop over the neighbors of `node`. -/
def searchNeighbors (search : ShellMap α NodeState → α → SearchResult α) (node : α) :
    ShellMap α NodeState → List α → SearchResult α
  | state, [] => some (.ok ([], state.put node .kAlreadyVisited))
  | state, otherNode :: neighbors =>
    match state.get otherNode with
    | some .kAlreadyVisited => searchNeighbors search node state neighbors
    | some .kVisitingInProgress => some (.ok ([node, otherNode], state))
    | _ =>
      match search state otherNode with
      | some (.ok (result, state')) =>
        if 1 < result.length then some (.ok (closeLoop node result, state'))
        else searchNeighbors search node state' neighbors
      | r => r

def doDepthFirstSearch (g : Graph α) : ℕ → ShellMap α NodeState → α → SearchResult α
  | 0, _, _ => none
  | fuel + 1, state, node =>
    if state.get node = some .kNotYetVisited then
      searchNeighbors (doDepthFirstSearch g fuel) node (state.put node .kVisitingInProgress)
        ((g.adjList.get node).getD [])
    else some (.error ⟨node, state.get node⟩)

/-- The loop over the nodes. -/
def searchNodes (g : Graph α) (fuel : ℕ) : ShellMap α NodeState → List α → SearchResult α
  | state, [] => some (.ok ([], state))
  | state, node :: nodes =>
    if state.get node = some .kAlreadyVisited then searchNodes g fuel state nodes
    else
      match doDepthFirstSearch g fuel state node with
      | some (.ok (result, state')) =>
        if 0 < result.length then some (.ok (result, state')) else searchNodes g fuel state' nodes
      | r => r

/-- The states before the search. -/
def initialStates (nodes : List α) : ShellMap α NodeState :=
  nodes.foldl (fun state node => state.put node .kNotYetVisited) fun _ => none

def findCycle (g : Graph α) (fuel : ℕ) : Option (Except (UnexpectedState α) (List α)) :=
  (searchNodes g fuel (initialStates g.nodes) g.nodes).map (·.map Prod.fst)

end Model

/-! ## What a search finds -/

section States

variable {α : Type*} [s : Setoid α]

namespace Graph

/-- The edges, between nodes up to `≈`. -/
def Edge (g : Graph α) (q q' : Quotient s) : Prop := ∃ b ∈ (g.adjList q).getD [], ⟦b⟧ = q'

/-- The edges join nodes of the graph. -/
structure WellFormed (g : Graph α) : Prop where
  sources : ∀ q q', g.Edge q q' → ∃ a ∈ g.nodes, ⟦a⟧ = q
  targets : ∀ q, ∀ b ∈ (g.adjList q).getD [], b ∈ g.nodes

/-- Consecutive nodes are joined by edges, and the first and the last one are `a` and `b`. -/
structure Walk (g : Graph α) (a b : α) (result : List α) : Prop where
  ends : ∃ mid, result = a :: (mid ++ [b])
  chain : List.IsChain (fun a b => g.Edge ⟦a⟧ ⟦b⟧) result

end Graph

variable {g : Graph α} {state state' state'' : ShellMap α NodeState} {node : α} {result : List α}

variable (g) in
/-- The states of the nodes between two calls. -/
structure Sound (state : ShellMap α NodeState) : Prop where
  known : ∀ a ∈ g.nodes, state ⟦a⟧ ≠ none
  finished : Cycles.Finished g.Edge {q | state q = some .kAlreadyVisited}

/-- A search that finds no cycle finishes nodes and leaves those in progress as they are. -/
structure Continues (state state' : ShellMap α NodeState) : Prop where
  done : ∀ q, state q = some .kAlreadyVisited → state' q = some .kAlreadyVisited
  inProgress : ∀ q, state' q = some .kVisitingInProgress ↔ state q = some .kVisitingInProgress
  fresh : ∀ q, state' q = some .kNotYetVisited → state q = some .kNotYetVisited
  known : ∀ q, state q ≠ none → state' q ≠ none

namespace Continues

theorem refl (state : ShellMap α NodeState) : Continues state state :=
  ⟨fun _ h => h, fun _ => Iff.rfl, fun _ h => h, fun _ h => h⟩

theorem trans (h : Continues state state') (h' : Continues state' state'') :
    Continues state state'' where
  done q hq := h'.done q (h.done q hq)
  inProgress q := (h'.inProgress q).trans (h.inProgress q)
  fresh q hq := h.fresh q (h'.fresh q hq)
  known q hq := h'.known q (h.known q hq)

end Continues

variable (g) in
/-- The number of nodes that have not been visited. -/
def unvisited (state : ShellMap α NodeState) : ℕ :=
  (g.nodes.filter fun a => state ⟦a⟧ = some .kNotYetVisited).length

theorem Continues.unvisited_le (h : Continues state state') :
    unvisited g state' ≤ unvisited g state :=
  (List.monotone_filter_right _ fun a ha => by
    simpa using h.fresh _ (by simpa using ha)).length_le

variable (g) in
/-- A closed walk, or the part of one that comes after an ancestor of `node`. -/
def Found (state : ShellMap α NodeState) (node : α) (result : List α) : Prop :=
  ∃ a b, g.Walk a b result ∧ (a ≈ b ∨ a = node ∧ state ⟦b⟧ = some .kVisitingInProgress)

theorem Found.ne_nil (h : Found g state node result) : 1 < result.length := by
  obtain ⟨a, b, ⟨⟨mid, rfl⟩, -⟩, -⟩ := h
  simp

end States

section Steps

variable {α : Type*} [s : Setoid α] [DecidableRel fun a b : α => a ≈ b] {g : Graph α}
  {state state' : ShellMap α NodeState} {node : α} {result : List α}

@[simp] theorem put_self {β : Type*} (m : ShellMap α β) (a : α) (b : β) : m.put a b ⟦a⟧ = some b :=
  Function.update_self _ _ _

theorem put_of_ne {β : Type*} {m : ShellMap α β} {q : Quotient s} {a : α} {b : β} (h : q ≠ ⟦a⟧) :
    m.put a b q = m q := Function.update_of_ne h _ _

/-- The node itself is finished at the end. -/
theorem Continues.finish (h : Continues (state.put node .kVisitingInProgress) state')
    (hnode : state ⟦node⟧ = some .kNotYetVisited) :
    Continues state (state'.put node .kAlreadyVisited) where
  done q hq := by
    have hne : q ≠ ⟦node⟧ := by
      rintro rfl
      rw [hnode] at hq
      cases hq
    have hput := h.done q
    rw [put_of_ne hne] at hput ⊢
    exact hput hq
  inProgress q := by
    have hput := h.inProgress q
    by_cases hq : q = ⟦node⟧
    · subst hq
      simp [hnode]
    · rwa [put_of_ne hq] at hput ⊢
  fresh q hq := by
    have hput := h.fresh q
    by_cases hne : q = ⟦node⟧
    · subst hne
      exact hnode
    · rw [put_of_ne hne] at hput hq
      exact hput hq
  known q hq := by
    have hput := h.known q
    by_cases hne : q = ⟦node⟧
    · subst hne
      simp
    · rw [put_of_ne hne] at hput ⊢
      exact hput hq

theorem Continues.visiting (h : Continues (state.put node .kVisitingInProgress) state') :
    state' ⟦node⟧ = some .kVisitingInProgress :=
  (h.inProgress _).mpr (put_self _ _ _)

theorem Continues.progress {q : Quotient s}
    (h : Continues (state.put node .kVisitingInProgress) state')
    (hq : state' q = some .kVisitingInProgress) :
    q = ⟦node⟧ ∨ state q = some .kVisitingInProgress := by
  have hput := (h.inProgress q).mp hq
  by_cases hne : q = ⟦node⟧
  · exact .inl hne
  · rw [put_of_ne hne] at hput
    exact .inr hput

theorem unvisited_put_lt (hmem : node ∈ g.nodes) (hnode : state ⟦node⟧ = some .kNotYetVisited) :
    unvisited g (state.put node .kVisitingInProgress) < unvisited g state := by
  have hfilter : (g.nodes.filter fun a => (state.put node .kVisitingInProgress) ⟦a⟧ =
      some .kNotYetVisited) = (g.nodes.filter fun a => state ⟦a⟧ = some .kNotYetVisited).filter
        fun a => (state.put node .kVisitingInProgress) ⟦a⟧ = some .kNotYetVisited := by
    rw [List.filter_filter]
    refine List.filter_congr fun a _ => ?_
    by_cases ha : (⟦a⟧ : Quotient s) = ⟦node⟧
    · simp [ha]
    · simp [put_of_ne ha]
  rw [unvisited, hfilter, unvisited, List.length_filter_lt_length_iff_exists]
  refine ⟨node, List.mem_filter.mpr ⟨hmem, by simpa using hnode⟩, ?_⟩
  simp

theorem closeLoop_of_ends {a b : α} {mid : List α} :
    closeLoop node (a :: (mid ++ [b])) =
      if a ≈ b then a :: (mid ++ [b]) else node :: a :: (mid ++ [b]) := by
  have hlast : (a :: (mid ++ [b])).getLast? = some b := by
    rw [← List.cons_append, List.getLast?_concat]
  rw [closeLoop, hlast]
  rfl

/-- The search of a neighbor has found a cycle. -/
theorem Found.closeLoop {otherNode : α} (h : Found g state' otherNode result)
    (hedge : g.Edge ⟦node⟧ ⟦otherNode⟧)
    (hcur : Continues (state.put node .kVisitingInProgress) state') :
    Found g state node (closeLoop node result) := by
  obtain ⟨a, b, hwalk, hab⟩ := h
  obtain ⟨mid, rfl⟩ := hwalk.ends
  rw [closeLoop_of_ends]
  split_ifs with hclosed
  · exact ⟨a, b, hwalk, .inl hclosed⟩
  · obtain ⟨rfl, hb⟩ := hab.resolve_left hclosed
    refine ⟨node, b, ⟨⟨a :: mid, rfl⟩, List.isChain_cons_cons.mpr ⟨hedge, hwalk.chain⟩⟩, ?_⟩
    rcases hcur.progress hb with hb | hb
    · exact .inl (Quotient.exact hb.symm)
    · exact .inr ⟨rfl, hb⟩

variable (g) in
/-- One call of `doDepthFirstSearch` on a node that has not been visited. -/
def SearchSpec (state : ShellMap α NodeState) (node : α) (r : SearchResult α) : Prop :=
  ∃ result state', r = some (.ok (result, state')) ∧
    ((result = [] ∧ Continues state state' ∧ Sound g state' ∧
        state' ⟦node⟧ = some .kAlreadyVisited) ∨ Found g state node result)

/-- All neighbors are finished. -/
theorem sound_finish {cur : ShellMap α NodeState}
    (hcur : Continues (state.put node .kVisitingInProgress) cur) (hs : Sound g cur)
    (hdone : ∀ b ∈ (g.adjList ⟦node⟧).getD [], cur ⟦b⟧ = some .kAlreadyVisited) :
    Sound g (cur.put node .kAlreadyVisited) := by
  refine ⟨fun a ha => ?_, ?_⟩
  · by_cases hne : (⟦a⟧ : Quotient s) = ⟦node⟧
    · simp [hne]
    · rw [put_of_ne hne]
      exact hs.known a ha
  · have hinsert := hs.finished.insert (a := ⟦node⟧)
      (by simp [hcur.visiting]) fun q ⟨b, hb, hq⟩ => hq ▸ hdone b hb
    refine (congrArg _ (Set.ext fun q => ?_)).mp hinsert
    by_cases hne : q = ⟦node⟧
    · simp [hne]
    · simp [put_of_ne hne, hne]

/-- The loop over the neighbors, when the ones before are finished. -/
theorem searchNeighbors_spec {search : ShellMap α NodeState → α → SearchResult α}
    {neighbors : List α} {cur : ShellMap α NodeState}
    (hsearch : ∀ cur, Continues (state.put node .kVisitingInProgress) cur → Sound g cur →
      ∀ b ∈ (g.adjList ⟦node⟧).getD [], cur ⟦b⟧ = some .kNotYetVisited →
        SearchSpec g cur b (search cur b))
    (hg : g.WellFormed) (hnode : state ⟦node⟧ = some .kNotYetVisited)
    (hcur : Continues (state.put node .kVisitingInProgress) cur) (hs : Sound g cur)
    (hneighbors : ∀ b ∈ neighbors, b ∈ (g.adjList ⟦node⟧).getD [])
    (hdone : ∀ b ∈ (g.adjList ⟦node⟧).getD [],
      b ∈ neighbors ∨ cur ⟦b⟧ = some .kAlreadyVisited) :
    SearchSpec g state node (searchNeighbors search node cur neighbors) := by
  induction neighbors generalizing cur with
  | nil =>
    have hdone' := fun b hb => (hdone b hb).resolve_left List.not_mem_nil
    refine ⟨_, _, rfl, .inl ⟨rfl, hcur.finish hnode, sound_finish hcur hs hdone', put_self _ _ _⟩⟩
  | cons otherNode neighbors ih =>
    have hmem := hneighbors otherNode List.mem_cons_self
    have hedge : g.Edge ⟦node⟧ ⟦otherNode⟧ := ⟨otherNode, hmem, rfl⟩
    have hrest : ∀ b ∈ neighbors, b ∈ (g.adjList ⟦node⟧).getD [] := fun b hb =>
      hneighbors b (List.mem_cons_of_mem _ hb)
    -- what is known of the neighbors when `otherNode` is finished
    have hnext : ∀ {cur' : ShellMap α NodeState}, Continues cur cur' →
        cur' ⟦otherNode⟧ = some .kAlreadyVisited → ∀ b ∈ (g.adjList ⟦node⟧).getD [],
          b ∈ neighbors ∨ cur' ⟦b⟧ = some .kAlreadyVisited := by
      intro cur' hcont hvisited b hb
      rcases hdone b hb with hb | hb
      · rcases List.mem_cons.mp hb with rfl | hb
        · exact .inr hvisited
        · exact .inl hb
      · exact .inr (hcont.done _ hb)
    rw [searchNeighbors]
    cases hother : cur.get otherNode with
    | none => exact absurd hother (hs.known _ (hg.targets _ _ hmem))
    | some otherNodeState =>
      cases otherNodeState with
      | kAlreadyVisited => exact ih hcur hs hrest (hnext (.refl _) hother)
      | kVisitingInProgress =>
        refine ⟨_, _, rfl, .inr ⟨node, otherNode, ⟨⟨[], rfl⟩, ?_⟩, ?_⟩⟩
        · exact List.isChain_cons_cons.mpr ⟨hedge, List.isChain_singleton _⟩
        · rcases hcur.progress hother with hq | hq
          · exact .inl (Quotient.exact hq.symm)
          · exact .inr ⟨rfl, hq⟩
      | kNotYetVisited =>
        obtain ⟨result, state', hr, ⟨rfl, hcont, hs', hvisited⟩ | hfound⟩ :=
          hsearch cur hcur hs otherNode hmem hother
        · simp only [hr, List.length_nil, Nat.not_lt_zero, if_false]
          exact ih (hcur.trans hcont) hs' hrest (hnext hcont hvisited)
        · simp only [hr, if_pos hfound.ne_nil]
          exact ⟨_, _, rfl, .inr (hfound.closeLoop hedge hcur)⟩

theorem Sound.visit (h : Sound g state) (hnode : state ⟦node⟧ = some .kNotYetVisited) :
    Sound g (state.put node .kVisitingInProgress) := by
  refine ⟨fun a ha => ?_, ?_⟩
  · by_cases hne : (⟦a⟧ : Quotient s) = ⟦node⟧
    · simp [hne]
    · rw [put_of_ne hne]
      exact h.known a ha
  · refine (congrArg _ (Set.ext fun q => ?_)).mp h.finished
    by_cases hne : q = ⟦node⟧
    · simp [hne, hnode]
    · simp [put_of_ne hne]

/-- **One call**, by induction on the fuel, which bounds the nodes that are still to be visited. -/
theorem doDepthFirstSearch_spec (hg : g.WellFormed) {fuel : ℕ} (hmem : node ∈ g.nodes)
    (hfuel : unvisited g state < fuel) (hs : Sound g state)
    (hnode : state ⟦node⟧ = some .kNotYetVisited) :
    SearchSpec g state node (doDepthFirstSearch g fuel state node) := by
  induction fuel generalizing state node with
  | zero => exact absurd hfuel (Nat.not_lt_zero _)
  | succ fuel ih =>
    rw [doDepthFirstSearch, if_pos (show state.get node = _ from hnode)]
    refine searchNeighbors_spec (fun cur hcur hs' b hb hfresh => ?_) hg hnode (.refl _)
      (hs.visit hnode) (fun b hb => hb) fun b hb => .inl hb
    refine ih (hg.targets _ b hb) ?_ hs' hfresh
    have hlt := unvisited_put_lt hmem hnode
    have hle := hcur.unvisited_le (g := g)
    omega

theorem searchNodes_spec (hg : g.WellFormed) {fuel : ℕ} {nodes : List α}
    (hfuel : unvisited g state < fuel) (hs : Sound g state)
    (hidle : ∀ q, state q ≠ some .kVisitingInProgress) (hnodes : ∀ a ∈ nodes, a ∈ g.nodes) :
    ∃ result state', searchNodes g fuel state nodes = some (.ok (result, state')) ∧
      ((result = [] ∧ Continues state state' ∧ Sound g state' ∧
          ∀ a ∈ nodes, state' ⟦a⟧ = some .kAlreadyVisited) ∨
        ∃ a b, g.Walk a b result ∧ a ≈ b) := by
  induction nodes generalizing state with
  | nil => exact ⟨_, _, rfl, .inl ⟨rfl, .refl _, hs, fun a ha => absurd ha List.not_mem_nil⟩⟩
  | cons node nodes ih =>
    have hmem := hnodes node List.mem_cons_self
    have hrest : ∀ a ∈ nodes, a ∈ g.nodes := fun a ha => hnodes a (List.mem_cons_of_mem _ ha)
    -- the rest of the nodes, when `node` is finished
    have hgo : ∀ {cur : ShellMap α NodeState}, Continues state cur → Sound g cur →
        cur ⟦node⟧ = some .kAlreadyVisited →
        ∃ result state', searchNodes g fuel cur nodes = some (.ok (result, state')) ∧
          ((result = [] ∧ Continues state state' ∧ Sound g state' ∧
              ∀ a ∈ node :: nodes, state' ⟦a⟧ = some .kAlreadyVisited) ∨
            ∃ a b, g.Walk a b result ∧ a ≈ b) := by
      intro cur hcur hs' hdone
      obtain ⟨result, state', hr, ⟨hnil, hcont, hs'', hall⟩ | hwalk⟩ :=
        ih (hcur.unvisited_le.trans_lt hfuel) hs' (fun q hq => hidle q ((hcur.inProgress q).mp hq))
          hrest
      · exact ⟨result, state', hr, .inl ⟨hnil, hcur.trans hcont, hs'',
          List.forall_mem_cons.mpr ⟨hcont.done _ hdone, hall⟩⟩⟩
      · exact ⟨result, state', hr, .inr hwalk⟩
    rw [searchNodes]
    split_ifs with hdone
    · exact hgo (.refl _) hs hdone
    · have hfresh : state ⟦node⟧ = some .kNotYetVisited := by
        have hknown := hs.known node hmem
        have hprogress := hidle ⟦node⟧
        have hnot : state ⟦node⟧ ≠ some .kAlreadyVisited := hdone
        cases hq : state ⟦node⟧ with
        | none => exact absurd hq hknown
        | some nodeState => cases nodeState <;> simp_all
      obtain ⟨result, state', hr, ⟨rfl, hcont, hs', hvisited⟩ | hfound⟩ :=
        doDepthFirstSearch_spec hg hmem hfuel hs hfresh
      · simp only [hr, List.length_nil, Nat.not_lt_zero, if_false]
        exact hgo hcont hs' hvisited
      · simp only [hr, if_pos (Nat.zero_lt_of_lt hfound.ne_nil)]
        obtain ⟨a, b, hwalk, hab | ⟨-, hb⟩⟩ := hfound
        · exact ⟨_, _, rfl, .inr ⟨a, b, hwalk, hab⟩⟩
        · exact absurd hb (hidle _)

end Steps

/-! ## The graph of a sequence of edges -/

section OfEdges

variable {α : Type*} [DecidableEq α] [s : Setoid α] [DecidableRel fun a b : α => a ≈ b]

omit s [DecidableRel fun a b : α => a ≈ b] in
theorem mem_setAdd {l : List α} {a b : α} : b ∈ setAdd l a ↔ b ∈ l ∨ b = a := by
  unfold setAdd
  split_ifs with ha
  · exact ⟨.inl, fun h => h.elim id fun h => h ▸ ha⟩
  · simp

namespace Graph

variable {g : Graph α} {edges : List (α × α)}

theorem mem_addEdge_nodes {a b c : α} : c ∈ (g.addEdge a b).nodes ↔ c ∈ g.nodes ∨ c = a ∨ c = b := by
  simp only [addEdge, mem_setAdd, or_assoc]

theorem mem_addEdge_adjList {a b c : α} {q : Quotient s} :
    c ∈ ((g.addEdge a b).adjList q).getD [] ↔
      c ∈ (g.adjList q).getD [] ∨ q = ⟦a⟧ ∧ c = b := by
  by_cases hq : q = ⟦a⟧
  · subst hq
    simp [addEdge, ShellMap.put, ShellMap.get, mem_setAdd]
  · simp [addEdge, ShellMap.put, hq]

theorem mem_nodes_ofEdges {c : α} :
    c ∈ (ofEdges edges).nodes ↔ ∃ e ∈ edges, c = e.1 ∨ c = e.2 := by
  induction edges using List.reverseRecOn with
  | nil => simp [ofEdges, empty]
  | append_singleton edges e ih =>
    rw [ofEdges, List.foldl_append, List.foldl_cons, List.foldl_nil, mem_addEdge_nodes]
    change c ∈ (ofEdges edges).nodes ∨ _ ↔ _
    simp only [ih, List.mem_append, List.mem_singleton, or_and_right, exists_or, exists_eq_left]

theorem mem_adjList_ofEdges {c : α} {q : Quotient s} :
    c ∈ ((ofEdges edges).adjList q).getD [] ↔ ∃ e ∈ edges, q = ⟦e.1⟧ ∧ c = e.2 := by
  induction edges using List.reverseRecOn with
  | nil => simp [ofEdges, empty]
  | append_singleton edges e ih =>
    rw [ofEdges, List.foldl_append, List.foldl_cons, List.foldl_nil, mem_addEdge_adjList]
    change c ∈ ((ofEdges edges).adjList q).getD [] ∨ _ ↔ _
    simp only [ih, List.mem_append, List.mem_singleton, or_and_right, exists_or, exists_eq_left]

variable (edges) in
theorem ofEdges_edge {q q' : Quotient s} :
    (ofEdges edges).Edge q q' ↔ ∃ e ∈ edges, ⟦e.1⟧ = q ∧ ⟦e.2⟧ = q' := by
  simp only [Edge, mem_adjList_ofEdges]
  constructor
  · rintro ⟨-, ⟨e, he, hq, rfl⟩, hq'⟩
    exact ⟨e, he, hq.symm, hq'⟩
  · rintro ⟨e, he, hq, hq'⟩
    exact ⟨e.2, ⟨e, he, hq.symm, rfl⟩, hq'⟩

variable (edges) in
theorem wellFormed_ofEdges : (ofEdges edges).WellFormed where
  sources q q' h := by
    obtain ⟨e, he, hq, -⟩ := (ofEdges_edge edges).mp h
    exact ⟨e.1, mem_nodes_ofEdges.mpr ⟨e, he, .inl rfl⟩, hq⟩
  targets q b hb := by
    obtain ⟨e, he, -, rfl⟩ := mem_adjList_ofEdges.mp hb
    exact mem_nodes_ofEdges.mpr ⟨e, he, .inr rfl⟩

end Graph

/-- An edge that was added, between nodes up to `≈`. -/
def EdgeOf (edges : List (α × α)) (a b : α) : Prop := ∃ e ∈ edges, e.1 ≈ a ∧ e.2 ≈ b

section InitialStates

omit [DecidableEq α]

variable {nodes : List α}

theorem initialStates_concat (node : α) :
    initialStates (nodes ++ [node]) = (initialStates nodes).put node .kNotYetVisited := by
  rw [initialStates, List.foldl_append]
  rfl

theorem initialStates_of_mem {a : α} (ha : a ∈ nodes) :
    initialStates nodes ⟦a⟧ = some .kNotYetVisited := by
  induction nodes using List.reverseRecOn with
  | nil => exact absurd ha List.not_mem_nil
  | append_singleton nodes node ih =>
    rw [initialStates_concat]
    by_cases hne : (⟦a⟧ : Quotient s) = ⟦node⟧
    · rw [hne, put_self]
    · rw [put_of_ne hne]
      refine ih ((List.mem_append.mp ha).resolve_right fun h => hne ?_)
      rw [List.mem_singleton.mp h]

theorem initialStates_fresh {q : Quotient s} {nodeState : NodeState}
    (h : initialStates nodes q = some nodeState) : nodeState = .kNotYetVisited := by
  induction nodes using List.reverseRecOn with
  | nil => cases h
  | append_singleton nodes node ih =>
    rw [initialStates_concat] at h
    by_cases hne : q = ⟦node⟧
    · rw [hne, put_self] at h
      exact (Option.some.inj h).symm
    · rw [put_of_ne hne] at h
      exact ih h

theorem sound_initialStates {g : Graph α} : Sound g (initialStates g.nodes) := by
  refine ⟨fun a ha => by simp [initialStates_of_mem ha], ?_⟩
  refine (congrArg _ (Set.ext fun q => ?_)).mp Cycles.Finished.empty
  refine iff_of_false id fun hq => ?_
  cases initialStates_fresh hq

end InitialStates

omit [DecidableEq α] [DecidableRel fun a b : α => a ≈ b] in
/-- Walks between nodes and between their classes. -/
theorem acyclic_edge_iff {edge : Quotient s → Quotient s → Prop} {edge' : α → α → Prop}
    (hedge : ∀ a b, edge ⟦a⟧ ⟦b⟧ ↔ edge' a b) : Cycles.Acyclic edge ↔ Cycles.Acyclic edge' := by
  have hlift : ∀ {a : α} {q : Quotient s}, Relation.TransGen edge ⟦a⟧ q → ∀ b, ⟦b⟧ = q →
      Relation.TransGen edge' a b := by
    intro a q hq
    induction hq with
    | single hq =>
      rintro b rfl
      exact .single ((hedge a b).mp hq)
    | @tail q' q'' _ hq ih =>
      rintro b rfl
      obtain ⟨c, rfl⟩ := Quotient.exists_rep q'
      exact .tail (ih c rfl) ((hedge c b).mp hq)
  constructor
  · exact fun h a hcycle => h ⟦a⟧ (hcycle.lift (Quotient.mk s) fun a b => (hedge a b).mpr)
  · intro h q hcycle
    obtain ⟨a, rfl⟩ := Quotient.exists_rep q
    exact h a (hlift hcycle a rfl)

/-- **Cycle detection.** For every sequence of calls of `addEdge`, `findCycle` returns: the empty array
if and only if the graph is acyclic, and otherwise at least two nodes along edges, of which the first
and the last one are the same. -/
theorem findCycle_correct (edges : List (α × α)) (extra : ℕ) :
    ∃ result,
      findCycle (Graph.ofEdges edges) ((Graph.ofEdges edges).nodes.length + 1 + extra) =
        some (.ok result) ∧
      (result = [] ↔ Cycles.Acyclic (EdgeOf edges)) ∧
      (result ≠ [] → ∃ a mid b, result = a :: (mid ++ [b]) ∧ a ≈ b ∧
        List.IsChain (EdgeOf edges) result) := by
  have hedge : ∀ a b, (Graph.ofEdges edges).Edge ⟦a⟧ ⟦b⟧ ↔ EdgeOf edges a b := fun a b => by
    simp only [Graph.ofEdges_edge, Quotient.eq, EdgeOf]
  have hfuel : unvisited (Graph.ofEdges edges) (initialStates (Graph.ofEdges edges).nodes) <
      (Graph.ofEdges edges).nodes.length + 1 + extra := by
    have hle := List.length_filter_le (fun a => decide (initialStates (Graph.ofEdges edges).nodes ⟦a⟧ =
      some NodeState.kNotYetVisited)) (Graph.ofEdges edges).nodes
    rw [unvisited]
    omega
  have hidle : ∀ q, initialStates (Graph.ofEdges edges).nodes q ≠ some .kVisitingInProgress :=
    fun q hq => by cases initialStates_fresh hq
  obtain ⟨result, state', hr, hresult⟩ := searchNodes_spec (Graph.wellFormed_ofEdges edges) hfuel
    sound_initialStates hidle fun a ha => ha
  refine ⟨result, by rw [findCycle, hr]; rfl, ?_⟩
  rcases hresult with ⟨rfl, -, hs, hall⟩ | ⟨a, b, ⟨⟨mid, rfl⟩, hchain⟩, hab⟩
  · refine ⟨iff_of_true rfl ?_, fun h => absurd rfl h⟩
    rw [← acyclic_edge_iff hedge]
    refine hs.finished.acyclic_of_forall fun q q' hq => ?_
    obtain ⟨a, ha, rfl⟩ := (Graph.wellFormed_ofEdges edges).sources q q' hq
    exact hall a ha
  · have hchain' : List.IsChain (EdgeOf edges) (a :: (mid ++ [b])) :=
      hchain.imp fun a b => (hedge a b).mp
    refine ⟨iff_of_false (List.cons_ne_nil _ _) fun hacyclic => ?_,
      fun _ => ⟨a, mid, b, rfl, hab, hchain'⟩⟩
    rw [← acyclic_edge_iff hedge] at hacyclic
    have hwalk : Relation.TransGen (Graph.ofEdges edges).Edge ⟦a⟧ ⟦b⟧ :=
      (Cycles.transGen_of_isChain hchain').lift (Quotient.mk s) fun a b => (hedge a b).mpr
    rw [Quotient.sound hab] at hwalk
    exact hacyclic _ hwalk

end OfEdges

end MongoTests.Graphs
