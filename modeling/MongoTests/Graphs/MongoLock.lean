import MongoTests.Lib.Checked
import MongoTests.Lib.Cycles
import MongoTests.Lib.Decimal
import MongoTests.Lib.Dict

/-!
# The lock graph of the gdb extensions

`Graph` of `buildscripts/gdb/mongo_lock.py`, with its nodes: threads, locks, and idle transactions.

* `Node`, `key`, `str`; `Graph`, `addNode`, `addEdge`, `removeNodesWithoutEdge`; `toGraph`.
* `depthFirstSearch`, `detectCycle`.
* `WellFormed`: what every sequence of operations keeps; `edge_run`: the edges are those added.
* `depthFirstSearch_spec`: one call of the search, with the path that it shares with its callers.
* **`detectCycle_correct`**: a cycle is detected if and only if there is one, and no node is missing.
* **`not_highlighted`**: the picture of a graph with a cycle shows no node of it in red.
-/

namespace MongoTests.Graphs.MongoLock

open MongoTests.Lib

/-! ## The nodes -/

section Model

inductive Node
  | nonExecutingThread (lockerId : ℕ)
  | thread (threadId lwpid : ℕ) (name : String)
  | lock (addr : ℕ) (resource : String)
  deriving DecidableEq, Repr

/-- The format `{:012x}`. -/
def hex (n : ℕ) : String := String.ofList (zfill 12 (Nat.toDigits 16 n))

def dec (n : ℕ) : String := String.ofList (Nat.toDigits 10 n)

namespace Node

/-- What `print` shows. -/
def str : Node → String
  | nonExecutingThread lockerId => "Idle Transaction (LockerId " ++ dec lockerId ++ ")"
  | thread threadId lwpid name =>
    name ++ " (Thread 0x" ++ hex threadId ++ " (LWP " ++ dec lwpid ++ "))"
  | lock addr resource => "Lock 0x" ++ hex addr ++ " (" ++ resource ++ ")"

def key : Node → String
  | nonExecutingThread lockerId => "LockerId " ++ dec lockerId
  | thread threadId _ _ => "Thread 0x" ++ hex threadId
  | lock addr _ => "Lock 0x" ++ hex addr

end Node

/-! ## The graph -/

structure Entry where
  node : Node
  nextNodes : List String
  deriving DecidableEq, Repr

structure Graph where
  nodes : Dict String Entry

namespace Graph

def empty : Graph := ⟨Dict.empty⟩

def findNode (g : Graph) (node : Node) : Option Entry := g.nodes.get node.key

def addNode (g : Graph) (node : Node) : Graph :=
  if (g.findNode node).isNone then ⟨g.nodes.set node.key ⟨node, []⟩⟩ else g

/-- The first entry with an edge to `toNode`. -/
def findFromNode (g : Graph) (toNode : Entry) : Option Entry :=
  (g.nodes.items.find? fun p => toNode.node.key ∈ p.2.nextNodes).map Prod.snd

def removeNodesWithoutEdge (g : Graph) : Graph :=
  ⟨g.nodes.filter fun p => p.2.nextNodes ≠ [] ∨ (g.findFromNode p.2).isSome⟩

/-- `addNode` does nothing for a node that is found. -/
def addEdge (g : Graph) (fromNode toNode : Node) : Graph :=
  let g := g.addNode fromNode
  let fNode := (g.findNode fromNode).getD ⟨fromNode, []⟩
  let g := g.addNode toNode
  if toNode.key ∈ fNode.nextNodes then g
  else ⟨g.nodes.set fromNode.key { fNode with nextNodes := fNode.nextNodes ++ [toNode.key] }⟩

/-- The name of a node for the DOT language. -/
def getNodeEscaped (g : Graph) (nodeKey : String) : Except String String :=
  match g.nodes.get nodeKey with
  | some e =>
    .ok (String.ofList (e.node.str.toList.flatMap fun c => if c = '"' then ['\\', '"'] else [c]))
  | none => .error nodeKey

def color (nodes : Option (List String)) (nodeKey : String) : String :=
  if nodeKey ∈ nodes.getD [] then "color = red" else ""

def edgeLine (g : Graph) (nodeKey nextNodeKey : String) : Except String String := do
  let node ← g.getNodeEscaped nodeKey
  let nextNode ← g.getNodeEscaped nextNodeKey
  pure ("    \"" ++ node ++ "\" -> \"" ++ nextNode ++ "\";")

def nodeLine (g : Graph) (nodes : Option (List String)) (nodeKey : String) :
    Except String String := do
  let node ← g.getNodeEscaped nodeKey
  pure ("    \"" ++ node ++ "\" [label=\"" ++ node ++ "\" " ++ color nodes nodeKey ++ "]")

def legend : List String :=
  ["# Legend:",
   "#    Thread 1 -> Lock C (MODE_IX) indicates Thread 1 is waiting on Lock C and" ++
     " Lock C is currently held in MODE_IX",
   "#    Lock C (MODE_IX) -> Thread 2 indicates Lock C is held by Thread 2 in" ++
     " MODE_IX"]

/-- The graph in the DOT language; the error is that of a node that is missing. -/
def toGraph (g : Graph) (nodes : Option (List String)) (message : Option String) :
    Except String String := do
  let edgeLines ← g.nodes.items.mapM fun p => p.2.nextNodes.mapM (g.edgeLine p.1)
  let nodeLines ← g.nodes.keys.mapM (g.nodeLine nodes)
  pure ("\n".intercalate (legend ++ message.toList ++
    ["digraph \"mongod+lock-status\" \x7b", "    rankdir=LR;"] ++ edgeLines.flatten ++ nodeLines ++
    ["\x7d"]))

/-! ## The search -/

/-- The cycle, if one was found, with the nodes visited and the path; or the key that is missing. A
search that is out of fuel has no result. -/
abbrev SearchResult := Option (Except String (Option (List String) × List String × List String))

/-- The loop over the next nodes. -/
def searchNext (search : String → List String → List String → SearchResult) :
    List String → List String → List String → SearchResult
  | [], nodesVisited, nodesInCycle => some (.ok (none, nodesVisited, nodesInCycle.dropLast))
  | node :: nextNodes, nodesVisited, nodesInCycle =>
    if node ∈ nodesInCycle then
      some (.ok (some (nodesInCycle.drop (nodesInCycle.idxOf node)), nodesVisited, nodesInCycle))
    else if node ∈ nodesVisited then searchNext search nextNodes nodesVisited nodesInCycle
    else
      match search node nodesVisited nodesInCycle with
      | some (.ok (some (dfsNode :: dfsNodes), nodesVisited, nodesInCycle)) =>
        some (.ok (some (dfsNode :: dfsNodes), nodesVisited, nodesInCycle))
      | some (.ok (_, nodesVisited, nodesInCycle)) =>
        searchNext search nextNodes nodesVisited nodesInCycle
      | r => r

def depthFirstSearch (g : Graph) : ℕ → String → List String → List String → SearchResult
  | 0, _, _, _ => none
  | fuel + 1, nodeKey, nodesVisited, nodesInCycle =>
    match g.nodes.get nodeKey with
    | some e =>
      searchNext (depthFirstSearch g fuel) e.nextNodes (nodeKey :: nodesVisited)
        (nodesInCycle ++ [nodeKey])
    | none => some (.error nodeKey)

/-- The loop over the nodes: the path of a cycle. -/
def searchNodes (g : Graph) (fuel : ℕ) :
    List String → List String → Option (Except String (Option (List String)))
  | [], _ => some (.ok none)
  | node :: nodes, nodesVisited =>
    if node ∈ nodesVisited then searchNodes g fuel nodes nodesVisited
    else
      match depthFirstSearch g fuel node nodesVisited [] with
      | some (.ok (some (pathNode :: cyclePath), _, _)) => some (.ok (some (pathNode :: cyclePath)))
      | some (.ok (_, nodesVisited, _)) => searchNodes g fuel nodes nodesVisited
      | some (.error nodeKey) => some (.error nodeKey)
      | none => none

def nodeName (g : Graph) (nodeKey : String) : Except String String :=
  match g.nodes.get nodeKey with
  | some e => .ok e.node.str
  | none => .error nodeKey

def detectCycle (g : Graph) (fuel : ℕ) : Option (Except String (Option (List String))) :=
  (searchNodes g fuel g.nodes.keys []).map fun r => do
    match ← r with
    | some cyclePath => some <$> cyclePath.mapM g.nodeName
    | none => pure none

end Graph

/-! ## Sequences of operations -/

inductive Operation
  | addNode (node : Node)
  | addEdge (fromNode toNode : Node)
  | removeNodesWithoutEdge
  deriving DecidableEq, Repr

def Graph.apply (g : Graph) : Operation → Graph
  | .addNode node => g.addNode node
  | .addEdge fromNode toNode => g.addEdge fromNode toNode
  | .removeNodesWithoutEdge => g.removeNodesWithoutEdge

def run (operations : List Operation) : Graph := operations.foldl Graph.apply Graph.empty

end Model

/-! ## What the operations keep -/

namespace Graph

variable {g : Graph} {node fromNode toNode : Node} {k k' : String} {e : Entry}

variable (g) in
/-- An edge between two keys. -/
def Edge (k k' : String) : Prop := ∃ e, g.nodes.get k = some e ∧ k' ∈ e.nextNodes

variable (g) in
/-- An entry is under the key of its node, and edges lead to keys. -/
structure WellFormed : Prop where
  key : ∀ k e, g.nodes.get k = some e → e.node.key = k
  targets : ∀ k k', g.Edge k k' → k' ∈ g.nodes.keys

theorem Edge.mem_keys (h : g.Edge k k') : k ∈ g.nodes.keys := by
  obtain ⟨e, he, -⟩ := h
  exact Dict.mem_keys.mpr ⟨e, he⟩

theorem get_addNode :
    (g.addNode node).nodes.get k =
      (g.nodes.get k).or (if k = node.key then some ⟨node, []⟩ else none) := by
  unfold addNode findNode
  cases hget : g.nodes.get node.key with
  | none =>
    rw [if_pos Option.isNone_none, Dict.get_set]
    split_ifs with hk
    · rw [hk, hget, Option.none_or]
    · rw [Option.or_none]
  | some e =>
    rw [if_neg (by simp)]
    split_ifs with hk
    · rw [hk, hget, Option.some_or]
    · rw [Option.or_none]

theorem mem_keys_addNode (h : k ∈ g.nodes.keys) : k ∈ (g.addNode node).nodes.keys := by
  obtain ⟨e, he⟩ := Dict.mem_keys.mp h
  exact Dict.mem_keys.mpr ⟨e, by rw [get_addNode, he, Option.some_or]⟩

theorem key_mem_addNode (g : Graph) (node : Node) : node.key ∈ (g.addNode node).nodes.keys := by
  rw [Dict.mem_keys, get_addNode, if_pos rfl]
  cases g.nodes.get node.key with
  | none => exact ⟨_, rfl⟩
  | some e => exact ⟨e, rfl⟩

theorem edge_addNode (g : Graph) (node : Node) : (g.addNode node).Edge k k' ↔ g.Edge k k' := by
  unfold Edge
  rw [get_addNode]
  cases g.nodes.get k with
  | none =>
    rw [Option.none_or]
    split_ifs
    · simp
    · rfl
  | some e => rw [Option.some_or]

theorem WellFormed.addNode (h : g.WellFormed) (node : Node) : (g.addNode node).WellFormed where
  key k e he := by
    rw [get_addNode] at he
    rcases Option.or_eq_some_iff.mp he with he | ⟨-, he⟩
    · exact h.key k e he
    · split_ifs at he with hk
      cases he
      exact hk.symm
  targets k k' hk := mem_keys_addNode (h.targets k k' ((edge_addNode g node).mp hk))

/-- The graph with the two nodes of an edge. -/
theorem get_addEdge (g : Graph) (fromNode toNode : Node) :
    ∃ f, ((g.addNode fromNode).addNode toNode).nodes.get fromNode.key = some f ∧
      ∀ k, (g.addEdge fromNode toNode).nodes.get k =
        if k = fromNode.key then
          some { f with nextNodes :=
            if toNode.key ∈ f.nextNodes then f.nextNodes else f.nextNodes ++ [toNode.key] }
        else ((g.addNode fromNode).addNode toNode).nodes.get k := by
  obtain ⟨f, hf⟩ := Dict.mem_keys.mp (key_mem_addNode g fromNode)
  have hf' : ((g.addNode fromNode).addNode toNode).nodes.get fromNode.key = some f := by
    rw [get_addNode, hf, Option.some_or]
  refine ⟨f, hf', fun k => ?_⟩
  have hfind : ((g.addNode fromNode).findNode fromNode).getD ⟨fromNode, []⟩ = f := by
    rw [findNode, hf, Option.getD_some]
  rw [addEdge, hfind]
  split_ifs with hmem hk hk
  · rw [hk, hf']
  · rfl
  · rw [Dict.get_set, if_pos hk]
  · rw [Dict.get_set, if_neg hk]

theorem edge_addEdge :
    (g.addEdge fromNode toNode).Edge k k' ↔
      g.Edge k k' ∨ k = fromNode.key ∧ k' = toNode.key := by
  obtain ⟨f, hf, hget⟩ := get_addEdge g fromNode toNode
  rw [← edge_addNode g fromNode, ← edge_addNode (g.addNode fromNode) toNode]
  unfold Edge
  rw [hget]
  by_cases hk : k = fromNode.key
  · subst hk
    simp only [if_true, hf, Option.some.injEq, exists_eq_left', true_and]
    split_ifs with hmem
    · exact ⟨.inl, fun h => h.elim id fun h => h ▸ hmem⟩
    · rw [List.mem_append, List.mem_singleton]
  · simp [hk]

theorem mem_keys_addEdge :
    k ∈ (g.addEdge fromNode toNode).nodes.keys ↔
      k ∈ ((g.addNode fromNode).addNode toNode).nodes.keys := by
  obtain ⟨f, hf, hget⟩ := get_addEdge g fromNode toNode
  rw [Dict.mem_keys, Dict.mem_keys, hget]
  by_cases hk : k = fromNode.key
  · simp [hk, hf]
  · simp [hk]

theorem WellFormed.addEdge (h : g.WellFormed) (fromNode toNode : Node) :
    (g.addEdge fromNode toNode).WellFormed where
  key k e he := by
    have hnodes := ((h.addNode fromNode).addNode toNode).key
    obtain ⟨f, hf, hget⟩ := get_addEdge g fromNode toNode
    rw [hget] at he
    by_cases hk : k = fromNode.key
    · rw [if_pos hk] at he
      cases he
      exact (hnodes _ f hf).trans hk.symm
    · rw [if_neg hk] at he
      exact hnodes k e he
  targets k k' hk := by
    rw [mem_keys_addEdge]
    rcases edge_addEdge.mp hk with hk | ⟨-, rfl⟩
    · exact mem_keys_addNode (mem_keys_addNode (h.targets k k' hk))
    · exact key_mem_addNode (g.addNode fromNode) toNode

/-- The nodes of an edge stay, and so does the edge. -/
theorem get_removeNodesWithoutEdge (hk : g.nodes.get k = some e)
    (hedge : e.nextNodes ≠ [] ∨ ∃ k, g.Edge k e.node.key) :
    g.removeNodesWithoutEdge.nodes.get k = some e := by
  rw [removeNodesWithoutEdge, Dict.get_filter, hk, Option.filter_some, if_pos]
  refine decide_eq_true (hedge.imp_right ?_)
  rintro ⟨k', e', he', hmem⟩
  rw [findFromNode, Option.isSome_map, List.find?_isSome]
  exact ⟨(k', e'), Dict.mem_items.mpr he', by simpa using hmem⟩

theorem get_of_removeNodesWithoutEdge (h : g.removeNodesWithoutEdge.nodes.get k = some e) :
    g.nodes.get k = some e := by
  rw [removeNodesWithoutEdge, Dict.get_filter, Option.filter_eq_some_iff] at h
  exact h.1

theorem edge_removeNodesWithoutEdge : g.removeNodesWithoutEdge.Edge k k' ↔ g.Edge k k' := by
  constructor
  · rintro ⟨e, he, hmem⟩
    exact ⟨e, get_of_removeNodesWithoutEdge he, hmem⟩
  · rintro ⟨e, he, hmem⟩
    exact ⟨e, get_removeNodesWithoutEdge he (.inl (List.ne_nil_of_mem hmem)), hmem⟩

theorem WellFormed.removeNodesWithoutEdge (h : g.WellFormed) :
    g.removeNodesWithoutEdge.WellFormed where
  key k e he := h.key k e (get_of_removeNodesWithoutEdge he)
  targets k k' hk := by
    rw [edge_removeNodesWithoutEdge] at hk
    obtain ⟨e, he⟩ := Dict.mem_keys.mp (h.targets k k' hk)
    refine Dict.mem_keys.mpr ⟨e, get_removeNodesWithoutEdge he (.inr ⟨k, ?_⟩)⟩
    rwa [h.key k' e he]

theorem WellFormed.apply (h : g.WellFormed) (operation : Operation) :
    (g.apply operation).WellFormed := by
  cases operation with
  | addNode node => exact h.addNode node
  | addEdge fromNode toNode => exact h.addEdge fromNode toNode
  | removeNodesWithoutEdge => exact h.removeNodesWithoutEdge

theorem edge_apply {operation : Operation} :
    (g.apply operation).Edge k k' ↔ g.Edge k k' ∨
      ∃ a b, operation = .addEdge a b ∧ a.key = k ∧ b.key = k' := by
  cases operation with
  | addNode node => simp [Graph.apply, edge_addNode]
  | addEdge fromNode toNode => simp [Graph.apply, edge_addEdge, eq_comm]
  | removeNodesWithoutEdge => simp [Graph.apply, edge_removeNodesWithoutEdge]

end Graph

theorem run_concat (operations : List Operation) (operation : Operation) :
    run (operations ++ [operation]) = (run operations).apply operation := by
  rw [run, List.foldl_append]
  rfl

theorem wellFormed_run (operations : List Operation) : (run operations).WellFormed := by
  induction operations using List.reverseRecOn with
  | nil =>
    refine ⟨fun k e he => ?_, fun k k' hk => ?_⟩
    · cases he
    · obtain ⟨e, he, -⟩ := hk
      cases he
  | append_singleton operations operation ih =>
    rw [run_concat]
    exact ih.apply operation

/-- **No edge is lost**: those of the graph are the edges that were added. -/
theorem edge_run {operations : List Operation} {k k' : String} :
    (run operations).Edge k k' ↔
      ∃ a b, .addEdge a b ∈ operations ∧ a.key = k ∧ b.key = k' := by
  induction operations using List.reverseRecOn with
  | nil =>
    refine iff_of_false ?_ (by simp)
    rintro ⟨e, he, -⟩
    cases he
  | append_singleton operations operation ih =>
    simp only [run_concat, Graph.edge_apply, ih, List.mem_append, List.mem_singleton,
      or_and_right, exists_or, eq_comm]

/-! ## What a search finds -/

namespace Graph

variable {g : Graph} {node : String} {nodesVisited nodesVisited' nodesInCycle : List String}

variable (g) in
/-- The state of a search: `nodesInCycle` is the path that it is on, and the other nodes that have
been visited are finished. -/
structure Searching (nodesVisited nodesInCycle : List String) : Prop where
  visited : ∀ k ∈ nodesInCycle, k ∈ nodesVisited
  nodup : nodesInCycle.Nodup
  path : List.IsChain g.Edge nodesInCycle
  finished : Cycles.Finished g.Edge {k | k ∈ nodesVisited ∧ k ∉ nodesInCycle}

variable (g) in
/-- One call of `depthFirstSearch`: either the node is finished, and the path is that of the caller; or
there is a cycle. -/
def SearchSpec (nodesVisited nodesInCycle : List String) (node : String) (r : SearchResult) : Prop :=
  (∃ nodesVisited', r = some (.ok (none, nodesVisited', nodesInCycle)) ∧
    nodesVisited ⊆ nodesVisited' ∧ node ∈ nodesVisited' ∧ g.Searching nodesVisited' nodesInCycle) ∨
  ∃ dfsNode dfsNodes nodesVisited' nodesInCycle',
    r = some (.ok (some (dfsNode :: dfsNodes), nodesVisited', nodesInCycle')) ∧
    Cycles.IsCycle g.Edge (dfsNode :: dfsNodes) ∧ (dfsNode :: dfsNodes).Nodup

namespace Searching

/-- The search enters a node. -/
theorem push (h : g.Searching nodesVisited nodesInCycle) (hnode : node ∉ nodesVisited)
    (hedge : ∀ a ∈ nodesInCycle.getLast?, g.Edge a node) :
    g.Searching (node :: nodesVisited) (nodesInCycle ++ [node]) where
  visited k hk := by
    rcases List.mem_append.mp hk with hk | hk
    · exact List.mem_cons_of_mem _ (h.visited k hk)
    · exact List.mem_singleton.mp hk ▸ List.mem_cons_self
  nodup := h.nodup.append (List.nodup_singleton _)
    (List.disjoint_singleton.mpr fun hmem => hnode (h.visited _ hmem))
  path := h.path.append (List.isChain_singleton _) fun a ha b hb => by
    cases hb
    exact hedge a ha
  finished := by
    refine (congrArg _ (Set.ext fun k => ?_)).mp h.finished
    simp only [Set.mem_ofPred_eq, List.mem_append, List.mem_singleton, not_or]
    constructor
    · rintro ⟨hk, hpath⟩
      exact ⟨List.mem_cons_of_mem _ hk, hpath, fun heq => hnode (heq ▸ hk)⟩
    · rintro ⟨hk, hpath, hne⟩
      exact ⟨(List.mem_cons.mp hk).resolve_left hne, hpath⟩

/-- The search leaves a node that only leads to finished nodes. -/
theorem pop (h : g.Searching nodesVisited (nodesInCycle ++ [node]))
    (hout : ∀ k, g.Edge node k → k ∈ nodesVisited ∧ k ∉ nodesInCycle ++ [node]) :
    g.Searching nodesVisited nodesInCycle where
  visited k hk := h.visited k (List.mem_append_left _ hk)
  nodup := h.nodup.of_append_left
  path := h.path.left_of_append
  finished := by
    have hnode : node ∉ nodesInCycle :=
      fun hmem => List.disjoint_of_nodup_append h.nodup hmem (List.mem_singleton_self node)
    have hinsert := h.finished.insert (a := node)
      (fun hmem => hmem.2 (List.mem_append_right _ (List.mem_singleton_self _))) hout
    refine (congrArg _ (Set.ext fun k => ?_)).mp hinsert
    simp only [Set.mem_insert_iff, Set.mem_ofPred_eq, List.mem_append, List.mem_singleton, not_or]
    constructor
    · rintro (rfl | ⟨hk, hpath, -⟩)
      · exact ⟨h.visited _ (by simp), hnode⟩
      · exact ⟨hk, hpath⟩
    · rintro ⟨hk, hpath⟩
      by_cases hne : k = node
      · exact .inl hne
      · exact .inr ⟨hk, hpath, hne⟩

/-- An edge from the end of the path back to the path. -/
theorem back_edge {k : String} (h : g.Searching nodesVisited (nodesInCycle ++ [node]))
    (hedge : g.Edge node k) (hk : k ∈ nodesInCycle ++ [node]) :
    ∃ dfsNodes, (nodesInCycle ++ [node]).drop ((nodesInCycle ++ [node]).idxOf k) = k :: dfsNodes ∧
      Cycles.IsCycle g.Edge (k :: dfsNodes) ∧ (k :: dfsNodes).Nodup := by
  set path := nodesInCycle ++ [node] with hpath
  have hlt : path.idxOf k < path.length := List.idxOf_lt_length_of_mem hk
  have hdrop : path.drop (path.idxOf k) = k :: path.drop (path.idxOf k + 1) := by
    rw [List.drop_eq_getElem_cons hlt, List.getElem_idxOf]
  have hsplit : path = path.take (path.idxOf k) ++ k :: path.drop (path.idxOf k + 1) := by
    rw [← hdrop, List.take_append_drop]
  refine ⟨_, hdrop, ?_, ?_⟩
  · refine Cycles.isCycle_of_back_edge (hsplit ▸ h.path) (a := node) ?_ hedge
    have hlast : path.getLast? = some node := List.getLast?_concat
    rwa [hsplit, List.getLast?_append_of_ne_nil _ (List.cons_ne_nil _ _)] at hlast
  · exact hdrop ▸ h.nodup.sublist (List.drop_sublist _ _)

end Searching

/-- The loop over the next nodes, when the ones before are finished. -/
theorem searchNext_spec {search : String → List String → List String → SearchResult}
    {nextNodes cur : List String}
    (hsearch : ∀ k cur, g.Edge node k → k ∉ cur → nodesVisited ⊆ cur →
      g.Searching cur (nodesInCycle ++ [node]) →
      g.SearchSpec cur (nodesInCycle ++ [node]) k (search k cur (nodesInCycle ++ [node])))
    (hsub : nodesVisited ⊆ cur) (hs : g.Searching cur (nodesInCycle ++ [node]))
    (hnext : ∀ k ∈ nextNodes, g.Edge node k)
    (hdone : ∀ k, g.Edge node k → k ∈ nextNodes ∨ k ∈ cur ∧ k ∉ nodesInCycle ++ [node]) :
    g.SearchSpec nodesVisited nodesInCycle node
      (searchNext search nextNodes cur (nodesInCycle ++ [node])) := by
  induction nextNodes generalizing cur with
  | nil =>
    refine .inl ⟨cur, ?_, hsub, hs.visited _ (by simp), ?_⟩
    · rw [searchNext, List.dropLast_concat]
    · exact hs.pop fun k hk => (hdone k hk).resolve_left List.not_mem_nil
  | cons k nextNodes ih =>
    have hedge := hnext k List.mem_cons_self
    have hrest : ∀ k ∈ nextNodes, g.Edge node k := fun k hk => hnext k (List.mem_cons_of_mem _ hk)
    -- the rest of the loop, when `k` is finished
    have hgo : ∀ {cur' : List String}, cur ⊆ cur' → g.Searching cur' (nodesInCycle ++ [node]) →
        k ∈ cur' → k ∉ nodesInCycle ++ [node] → g.SearchSpec nodesVisited nodesInCycle node
          (searchNext search nextNodes cur' (nodesInCycle ++ [node])) := by
      intro cur' hsub' hs' hk hpath
      refine ih (List.Subset.trans hsub hsub') hs' hrest fun k' hk' => ?_
      rcases hdone k' hk' with hmem | ⟨hmem, hpath'⟩
      · rcases List.mem_cons.mp hmem with rfl | hmem
        · exact .inr ⟨hk, hpath⟩
        · exact .inl hmem
      · exact .inr ⟨hsub' hmem, hpath'⟩
    rw [searchNext]
    split_ifs with hpath hvisited
    · obtain ⟨dfsNodes, hdrop, hcycle, hnodup⟩ := hs.back_edge hedge hpath
      exact .inr ⟨k, dfsNodes, _, _, by rw [hdrop], hcycle, hnodup⟩
    · exact hgo (List.Subset.refl _) hs hvisited hpath
    · obtain ⟨cur', hr, hsub', hk, hs'⟩ | ⟨dfsNode, dfsNodes, _, _, hr, hcycle⟩ :=
        hsearch k cur hedge hvisited hsub hs
      · rw [hr]
        exact hgo hsub' hs' hk hpath
      · rw [hr]
        exact .inr ⟨dfsNode, dfsNodes, _, _, rfl, hcycle⟩

variable (g) in
/-- The number of nodes that have not been visited. -/
def unvisited (nodesVisited : List String) : ℕ :=
  (g.nodes.keys.filter fun k => k ∉ nodesVisited).length

theorem unvisited_cons_lt (hmem : node ∈ g.nodes.keys) (hnode : node ∉ nodesVisited)
    (hsub : node :: nodesVisited ⊆ nodesVisited') :
    g.unvisited nodesVisited' < g.unvisited nodesVisited := by
  have hfilter : g.nodes.keys.filter (fun k => k ∉ nodesVisited') =
      (g.nodes.keys.filter fun k => k ∉ nodesVisited).filter fun k => k ∉ nodesVisited' := by
    rw [List.filter_filter]
    refine List.filter_congr fun k _ => ?_
    by_cases hk : k ∈ nodesVisited
    · simp [hk, hsub (List.mem_cons_of_mem _ hk)]
    · simp [hk]
  rw [unvisited, hfilter, unvisited, List.length_filter_lt_length_iff_exists]
  refine ⟨node, List.mem_filter.mpr ⟨hmem, by simpa using hnode⟩, ?_⟩
  simpa using hsub List.mem_cons_self

/-- **One call**, by induction on the fuel, which bounds the nodes that are still to be visited. -/
theorem depthFirstSearch_spec (hg : g.WellFormed) {fuel : ℕ} (hmem : node ∈ g.nodes.keys)
    (hfuel : g.unvisited nodesVisited < fuel) (hs : g.Searching nodesVisited nodesInCycle)
    (hnode : node ∉ nodesVisited) (hedge : ∀ a ∈ nodesInCycle.getLast?, g.Edge a node) :
    g.SearchSpec nodesVisited nodesInCycle node
      (depthFirstSearch g fuel node nodesVisited nodesInCycle) := by
  induction fuel generalizing node nodesVisited nodesInCycle with
  | zero => exact absurd hfuel (Nat.not_lt_zero _)
  | succ fuel ih =>
    obtain ⟨e, he⟩ := Dict.mem_keys.mp hmem
    have hnext : ∀ k, k ∈ e.nextNodes ↔ g.Edge node k := fun k =>
      ⟨fun hk => ⟨e, he, hk⟩, fun ⟨e', he', hk⟩ => Option.some.inj (he'.symm.trans he) ▸ hk⟩
    rw [depthFirstSearch, he]
    have hspec : g.SearchSpec (node :: nodesVisited) nodesInCycle node
        (searchNext (depthFirstSearch g fuel) e.nextNodes (node :: nodesVisited)
          (nodesInCycle ++ [node])) := by
      refine searchNext_spec (fun k cur hk hfresh hsub hs' => ?_) (List.Subset.refl _)
        (hs.push hnode hedge) (fun k hk => (hnext k).mp hk) fun k hk => .inl ((hnext k).mpr hk)
      refine ih (hg.targets node k hk) ?_ hs' hfresh fun a ha => ?_
      · have hlt := unvisited_cons_lt hmem hnode hsub
        omega
      · rw [List.getLast?_concat] at ha
        exact Option.some.inj ha ▸ hk
    refine hspec.imp_left ?_
    rintro ⟨nodesVisited', hr, hsub, hvisited⟩
    exact ⟨nodesVisited', hr, fun k hk => hsub (List.mem_cons_of_mem _ hk), hvisited⟩

theorem searchNodes_spec (hg : g.WellFormed) {fuel : ℕ} {nodes : List String}
    (hfuel : g.unvisited nodesVisited < fuel) (hs : g.Searching nodesVisited [])
    (hnodes : ∀ k ∈ nodes, k ∈ g.nodes.keys) :
    (∃ nodesVisited', searchNodes g fuel nodes nodesVisited = some (.ok none) ∧
      nodesVisited ⊆ nodesVisited' ∧ nodes ⊆ nodesVisited' ∧ g.Searching nodesVisited' []) ∨
    ∃ pathNode cyclePath,
      searchNodes g fuel nodes nodesVisited = some (.ok (some (pathNode :: cyclePath))) ∧
      Cycles.IsCycle g.Edge (pathNode :: cyclePath) ∧ (pathNode :: cyclePath).Nodup := by
  induction nodes generalizing nodesVisited with
  | nil => exact .inl ⟨_, rfl, List.Subset.refl _, List.nil_subset _, hs⟩
  | cons node nodes ih =>
    have hrest : ∀ k ∈ nodes, k ∈ g.nodes.keys := fun k hk => hnodes k (List.mem_cons_of_mem _ hk)
    rw [searchNodes]
    split_ifs with hvisited
    · refine (ih hfuel hs hrest).imp_left ?_
      rintro ⟨nodesVisited', hr, hsub, hall, hs'⟩
      exact ⟨nodesVisited', hr, hsub, List.cons_subset.mpr ⟨hsub hvisited, hall⟩, hs'⟩
    · have hmem := hnodes node List.mem_cons_self
      obtain ⟨cur, hr, hsub, hnode, hs'⟩ | ⟨dfsNode, dfsNodes, _, _, hr, hcycle⟩ :=
        depthFirstSearch_spec hg hmem hfuel hs hvisited (by simp)
      · rw [hr]
        have hlt := unvisited_cons_lt hmem hvisited (List.cons_subset.mpr ⟨hnode, hsub⟩)
        refine (ih (hlt.trans hfuel) hs' hrest).imp_left ?_
        rintro ⟨nodesVisited', hr', hsub', hall, hs''⟩
        exact ⟨nodesVisited', hr', List.Subset.trans hsub hsub',
          List.cons_subset.mpr ⟨hsub' hnode, hall⟩, hs''⟩
      · rw [hr]
        exact .inr ⟨dfsNode, dfsNodes, rfl, hcycle⟩

/-! ## Detection -/

variable (g) in
/-- `node` is the node of an entry. -/
def Stores (node : Node) : Prop := ∃ nextNodes, g.findNode node = some ⟨node, nextNodes⟩

variable (g) in
/-- The nodes of a cycle of the graph. -/
structure CycleOf (cyclePath : List Node) : Prop where
  stores : ∀ node ∈ cyclePath, g.Stores node
  nodup : (cyclePath.map Node.key).Nodup
  cycle : Cycles.IsCycle g.Edge (cyclePath.map Node.key)

theorem WellFormed.exists_node (h : g.WellFormed) {k : String} (hk : k ∈ g.nodes.keys) :
    ∃ node, g.Stores node ∧ node.key = k ∧ g.nodeName k = .ok node.str := by
  obtain ⟨e, he⟩ := Dict.mem_keys.mp hk
  have hkey := h.key k e he
  refine ⟨e.node, ⟨e.nextNodes, ?_⟩, hkey, ?_⟩
  · rw [findNode, hkey, he]
  · rw [nodeName, he]

/-- The names of the nodes of a path. -/
theorem WellFormed.exists_names (h : g.WellFormed) {cyclePath : List String}
    (hkeys : ∀ k ∈ cyclePath, k ∈ g.nodes.keys) :
    ∃ nodes : List Node, nodes.map Node.key = cyclePath ∧ (∀ node ∈ nodes, g.Stores node) ∧
      cyclePath.mapM g.nodeName = .ok (nodes.map Node.str) := by
  induction cyclePath with
  | nil => exact ⟨[], rfl, fun _ hmem => absurd hmem List.not_mem_nil, rfl⟩
  | cons k cyclePath ih =>
    obtain ⟨node, hstores, hkey, hname⟩ := h.exists_node (hkeys k List.mem_cons_self)
    obtain ⟨nodes, hmap, hall, hnames⟩ := ih fun k hk => hkeys k (List.mem_cons_of_mem _ hk)
    refine ⟨node :: nodes, ?_, List.forall_mem_cons.mpr ⟨hstores, hall⟩, ?_⟩
    · rw [List.map_cons, hkey, hmap]
    · rw [List.mapM_cons, hname, hnames]
      rfl

theorem mem_keys_of_isCycle {cyclePath : List String} (h : Cycles.IsCycle g.Edge cyclePath) :
    ∀ k ∈ cyclePath, k ∈ g.nodes.keys := by
  cases cyclePath with
  | nil => exact h.elim
  | cons a l =>
    intro k hk
    -- a node of the cycle has an edge to the next one
    obtain ⟨pre, post, hsplit⟩ := List.append_of_mem hk
    have hchain : List.IsChain g.Edge ((a :: l) ++ [a]) := h
    rw [hsplit, List.append_assoc] at hchain
    have hnext := hchain.right_of_append
    cases post with
    | nil => exact (List.isChain_cons_cons.mp hnext).1.mem_keys
    | cons b post => exact (List.isChain_cons_cons.mp hnext).1.mem_keys

theorem WellFormed.toGraph_ok (h : g.WellFormed) (nodes : Option (List String))
    (message : Option String) : ∃ text, g.toGraph nodes message = .ok text := by
  have hname : ∀ k ∈ g.nodes.keys, ∃ name, g.getNodeEscaped k = .ok name := by
    intro k hk
    obtain ⟨e, he⟩ := Dict.mem_keys.mp hk
    exact ⟨_, by rw [getNodeEscaped, he]⟩
  have hedges : ∃ edgeLines, (g.nodes.items.mapM fun p => p.2.nextNodes.mapM (g.edgeLine p.1)) =
      .ok edgeLines := by
    refine exists_mapM_eq_ok fun p hp => exists_mapM_eq_ok fun k' hk' => ?_
    obtain ⟨name, hname'⟩ := hname p.1 (List.mem_map_of_mem hp)
    obtain ⟨nextName, hnext⟩ := hname k' (h.targets p.1 k' ⟨p.2, Dict.mem_items.mp hp, hk'⟩)
    exact ⟨_, by rw [edgeLine, hname', hnext]; rfl⟩
  have hnodes : ∃ nodeLines, g.nodes.keys.mapM (g.nodeLine nodes) = .ok nodeLines := by
    refine exists_mapM_eq_ok fun k hk => ?_
    obtain ⟨name, hname'⟩ := hname k hk
    exact ⟨_, by rw [nodeLine, hname']; rfl⟩
  obtain ⟨edgeLines, hedges⟩ := hedges
  obtain ⟨nodeLines, hnodes⟩ := hnodes
  exact ⟨_, by rw [toGraph, hedges, hnodes]; rfl⟩

theorem WellFormed.detectCycle_spec (h : g.WellFormed) (extra : ℕ) :
    (g.detectCycle (g.nodes.keys.length + 1 + extra) = some (.ok none) ∧ Cycles.Acyclic g.Edge) ∨
    ∃ cyclePath, g.CycleOf cyclePath ∧
      g.detectCycle (g.nodes.keys.length + 1 + extra) = some (.ok (some (cyclePath.map Node.str))) := by
  have hfuel : g.unvisited [] < g.nodes.keys.length + 1 + extra := by
    have hle := List.length_filter_le (fun k => decide (k ∉ ([] : List String))) g.nodes.keys
    rw [unvisited]
    omega
  have hs : g.Searching [] [] :=
    ⟨fun k hk => absurd hk List.not_mem_nil, List.nodup_nil, List.isChain_nil, by
      simpa using Cycles.Finished.empty⟩
  obtain ⟨nodesVisited, hr, -, hall, hs'⟩ | ⟨pathNode, cyclePath, hr, hcycle, hnodup⟩ :=
    searchNodes_spec h hfuel hs fun k hk => hk
  · refine .inl ⟨by rw [detectCycle, hr]; rfl, hs'.finished.acyclic_of_forall fun a b hab => ?_⟩
    exact ⟨hall hab.mem_keys, List.not_mem_nil⟩
  · obtain ⟨nodes, hmap, hstores, hnames⟩ := h.exists_names (mem_keys_of_isCycle hcycle)
    refine .inr ⟨nodes, ⟨hstores, hmap ▸ hnodup, hmap ▸ hcycle⟩, ?_⟩
    rw [detectCycle, hr]
    change some (some <$> (pathNode :: cyclePath).mapM g.nodeName) = _
    rw [hnames]
    rfl

end Graph

/-- **Deadlock detection.** After every sequence of operations edges lead to nodes of the graph, the
graph can be printed, and a cycle is detected if and only if there is one; its names are those of the
nodes of a cycle. -/
theorem detectCycle_correct (operations : List Operation) (extra : ℕ) :
    let g := run operations
    (∀ k k', g.Edge k k' → k' ∈ g.nodes.keys) ∧
    (∀ nodes message, ∃ text, g.toGraph nodes message = .ok text) ∧
    ∃ result, g.detectCycle (g.nodes.keys.length + 1 + extra) = some (.ok result) ∧
      (result = none ↔ Cycles.Acyclic g.Edge) ∧
      ∀ names ∈ result, ∃ cyclePath, g.CycleOf cyclePath ∧ names = cyclePath.map Node.str := by
  have hg := wellFormed_run operations
  refine ⟨hg.targets, hg.toGraph_ok, ?_⟩
  obtain ⟨hr, hacyclic⟩ | ⟨cyclePath, hcycle, hr⟩ := hg.detectCycle_spec extra
  · exact ⟨none, hr, iff_of_true rfl hacyclic, fun names hnames => by cases hnames⟩
  · refine ⟨_, hr, iff_of_false (Option.some_ne_none _) hcycle.cycle.not_acyclic, ?_⟩
    rintro names hnames
    cases hnames
    exact ⟨cyclePath, hcycle, rfl⟩

/-! ## The picture -/

section Picture

variable {g : Graph}

/-- The picture for the names of a cycle shows its nodes in red, and no other ones. -/
def Graph.Highlighted (g : Graph) (names : List String) : Prop :=
  ∃ cyclePath, g.CycleOf cyclePath ∧ names = cyclePath.map Node.str ∧
    ∀ node, g.Stores node →
      (Graph.color (some names) node.key = "color = red" ↔ node ∈ cyclePath)

theorem digitChar_ne_paren : ∀ n < 16, Nat.digitChar n ≠ ')' := by decide

theorem paren_not_mem_toDigits {b : ℕ} (hb : 1 < b) (hb' : b ≤ 16) (n : ℕ) :
    ')' ∉ Nat.toDigits b n := by
  induction n using Nat.strong_induction_on with
  | _ n ih =>
    by_cases hn : n < b
    · rw [Nat.toDigits_of_lt_base hn, List.mem_singleton]
      exact (digitChar_ne_paren n (by omega)).symm
    · rw [Nat.toDigits_of_base_le hb (Nat.not_lt.mp hn), List.mem_append, List.mem_singleton, not_or]
      have hlt := Nat.mod_lt n (Nat.zero_lt_of_lt hb)
      exact ⟨ih _ (Nat.div_lt_self (by omega) hb), (digitChar_ne_paren _ (by omega)).symm⟩

theorem getLast?_of_digits (pre : String) {digits : List Char} (hne : digits ≠ [])
    (hdigits : ')' ∉ digits) : (pre ++ String.ofList digits).toList.getLast? ≠ some ')' := by
  rw [String.toList_append, String.toList_ofList, List.getLast?_append_of_ne_nil _ hne]
  exact fun hlast => hdigits (List.mem_of_getLast? hlast)

theorem getLast?_hex (pre : String) (n : ℕ) : (pre ++ hex n).toList.getLast? ≠ some ')' := by
  refine getLast?_of_digits pre ?_ ?_
  · exact List.append_ne_nil_of_right_ne_nil _ Nat.toDigits_ne_nil
  · rw [zfill, List.mem_append, not_or]
    refine ⟨fun hmem => ?_, paren_not_mem_toDigits (by decide) (by decide) n⟩
    cases List.eq_of_mem_replicate hmem

theorem getLast?_key (node : Node) : node.key.toList.getLast? ≠ some ')' := by
  cases node with
  | nonExecutingThread lockerId =>
    exact getLast?_of_digits _ Nat.toDigits_ne_nil (paren_not_mem_toDigits (by decide) (by decide) _)
  | thread threadId lwpid name => exact getLast?_hex _ threadId
  | lock addr resource => exact getLast?_hex _ addr

theorem getLast?_append {s t : String} {c : Char} (ht : t.toList.getLast? = some c) :
    (s ++ t).toList.getLast? = some c := by
  have hne : t.toList ≠ [] := by
    rintro hnil
    rw [hnil] at ht
    cases ht
  rw [String.toList_append, List.getLast?_append_of_ne_nil _ hne, ht]

theorem getLast?_str (node : Node) : node.str.toList.getLast? = some ')' := by
  cases node with
  | nonExecutingThread lockerId => exact getLast?_append (by decide)
  | thread threadId lwpid name => exact getLast?_append (by decide)
  | lock addr resource => exact getLast?_append (by decide)

theorem color_str (nodes : List Node) (node : Node) :
    Graph.color (some (nodes.map Node.str)) node.key = "" := by
  refine if_neg fun hmem => ?_
  obtain ⟨node', -, heq⟩ := List.mem_map.mp hmem
  exact getLast?_key node (heq ▸ getLast?_str node')

theorem not_highlighted_of_keys (names : List String) : ¬ g.Highlighted names := by
  rintro ⟨cyclePath, hcycle, rfl, hred⟩
  cases cyclePath with
  | nil => exact hcycle.cycle
  | cons node nodes =>
    have hmem : node ∈ node :: nodes := List.mem_cons_self
    have hcolor := (hred node (hcycle.stores node hmem)).mpr hmem
    rw [color_str] at hcolor
    exact absurd hcolor (by decide)

/-- **No node is red**, although `toGraph` is given the names of a cycle: it looks for the keys. -/
theorem not_highlighted (operations : List Operation) (extra : ℕ) (names : List String)
    (h : (run operations).detectCycle ((run operations).nodes.keys.length + 1 + extra) =
      some (.ok (some names))) :
    (∃ cyclePath, (run operations).CycleOf cyclePath ∧ names = cyclePath.map Node.str) ∧
      ¬ (run operations).Highlighted names := by
  obtain ⟨hr, -⟩ | ⟨cyclePath, hcycle, hr⟩ := (wellFormed_run operations).detectCycle_spec extra
  · rw [hr] at h
    cases h
  · rw [hr] at h
    cases h
    exact ⟨⟨cyclePath, hcycle, rfl⟩, not_highlighted_of_keys _⟩

/-- Two threads that wait for each other. -/
def deadlock : List Operation :=
  [.addEdge (.thread 1 11 "conn1") (.lock 32 "MODE_X"),
   .addEdge (.lock 32 "MODE_X") (.thread 2 12 "conn2"),
   .addEdge (.thread 2 12 "conn2") (.lock 16 "Mutex"),
   .addEdge (.lock 16 "Mutex") (.thread 1 11 "conn1"),
   .removeNodesWithoutEdge]

theorem detectCycle_deadlock :
    (run deadlock).detectCycle ((run deadlock).nodes.keys.length + 1 + 0) =
      some (.ok (some ["conn1 (Thread 0x000000000001 (LWP 11))", "Lock 0x000000000020 (MODE_X)",
        "conn2 (Thread 0x000000000002 (LWP 12))", "Lock 0x000000000010 (Mutex)"])) := by
  rfl

theorem deadlock_not_highlighted :
    ∃ names, (run deadlock).detectCycle ((run deadlock).nodes.keys.length + 1 + 0) =
      some (.ok (some names)) ∧ ¬ (run deadlock).Highlighted names :=
  ⟨_, detectCycle_deadlock, not_highlighted_of_keys _⟩

theorem not_highlighted_deadlock :
    (∃ cyclePath, (run deadlock).CycleOf cyclePath ∧
      ["conn1 (Thread 0x000000000001 (LWP 11))", "Lock 0x000000000020 (MODE_X)",
        "conn2 (Thread 0x000000000002 (LWP 12))", "Lock 0x000000000010 (Mutex)"] =
        cyclePath.map Node.str) ∧
    ¬ (run deadlock).Highlighted ["conn1 (Thread 0x000000000001 (LWP 11))",
      "Lock 0x000000000020 (MODE_X)", "conn2 (Thread 0x000000000002 (LWP 12))",
      "Lock 0x000000000010 (Mutex)"] :=
  not_highlighted deadlock 0 _ detectCycle_deadlock

end Picture

end MongoTests.Graphs.MongoLock
