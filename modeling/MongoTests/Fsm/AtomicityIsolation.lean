import MongoTests.Graphs.CycleDetection
import MongoTests.Lib.Checked
import MongoTests.Lib.Dict
import MongoTests.Lib.Supersequence
import Mathlib.Algebra.BigOperators.Fin
import Mathlib.Algebra.BigOperators.Group.Finset.Piecewise
import Mathlib.Data.List.GetD

/-!
# Transactions that update several documents

The checks of `multi_statement_transaction_atomicity_isolation.js`: each transaction pushes one element
to the `order` of several documents, and a consistent read of all documents is checked for anomalies.

* `checkTransactionCommitOrder`, `checkNumUpdatedByEachTransaction`, `checkDocuments`;
* `Txn`, `replay`: whole transactions that run one after the other;
* **`checkDocuments_iff`**: the checks accept what a serial execution of whole transactions leaves, and
  nothing else.
-/

namespace MongoTests.Fsm.AtomicityIsolation

open MongoTests.Lib MongoTests.Graphs

/-! ## The checks -/

/-- An element of `order`. -/
structure Op where
  tid : ℕ
  iteration : ℕ
  numUpdated : ℕ
  deriving DecidableEq, Repr

structure Metadata where
  dbName : String
  collName : String
  txnNum : ℕ
  deriving DecidableEq, Repr

structure Document where
  id : ℕ
  order : List Op
  metadata : List Metadata
  deriving DecidableEq, Repr

/-- An object of an `order`. A `Set` of the shell tells objects of different places apart. -/
structure Node where
  op : Op
  doc : ℕ
  index : ℕ
  deriving DecidableEq, Repr

/-- The `Map` of the shell takes objects with the same contents for the same. -/
instance nodeSetoid : Setoid Node := ⟨fun a b => a.op = b.op, fun _ => rfl, Eq.symm, Eq.trans⟩

instance : DecidableRel fun a b : Node => a ≈ b := fun a b => inferInstanceAs (Decidable (a.op = b.op))

inductive Failure
  /-- 'Found node … unexpectedly in state …' -/
  | search (e : UnexpectedState Node)
  /-- `assertWhenOwnColl.eq([], result, tojson(filteredDocuments))` -/
  | commitOrder (result : List Node) (filteredDocuments : List Document)
  /-- 'transaction … should have updated … documents, but … were updated' -/
  | numUpdated (op : Op) (actual : ℕ)

def nodes (doc : ℕ) (order : List Op) : List Node := order.mapIdx fun index op => ⟨op, doc, index⟩

/-- The arguments of `graph.addEdge`. -/
def commitEdges (documents : List Document) : List (Node × Node) :=
  (documents.mapIdx fun i doc => nodes i doc.order).flatMap fun commitOrder =>
    commitOrder.zip commitOrder.tail

/-- The graph of the commits. -/
def commitGraph (documents : List Document) : Graph Node := .ofEdges (commitEdges documents)

/-- The documents with the operations of the cycle. -/
def filteredDocuments (result : List Node) (documents : List Document) : List Document :=
  documents.map fun doc => { doc with order := doc.order.filter fun op => result.any (·.op = op) }

/-- `ownColl`: the assertions for a collection of its own are executed. -/
def checkTransactionCommitOrder (ownColl : Bool) (documents : List Document) (fuel : ℕ) :
    Option (Except Failure Unit) :=
  (findCycle (commitGraph documents) fuel).map fun
    | .error e => .error (.search e)
    | .ok result =>
      if 0 < result.length && ownColl then
        .error (.commitOrder result (filteredDocuments result documents))
      else .ok ()

/-- One operation is counted. -/
def addCount (updateCounts : Dict Op ℕ) (op : Op) : Dict Op ℕ :=
  updateCounts.set op ((updateCounts.get op).getD 0 + 1)

def updateCounts (documents : List Document) : Dict Op ℕ :=
  documents.foldl (fun counts doc => doc.order.foldl addCount counts) .empty

def checkNumUpdatedByEachTransaction (documents : List Document) : Except Failure Unit :=
  (updateCounts documents).items.forM fun p =>
    if p.1.numUpdated = p.2 then .ok () else .error (.numUpdated p.1 p.2)

/-- Both checks, as `teardown` makes them. -/
def checkDocuments (ownColl : Bool) (documents : List Document) (fuel : ℕ) :
    Option (Except Failure Unit) :=
  (checkTransactionCommitOrder ownColl documents fuel).map fun r =>
    r >>= fun _ => checkNumUpdatedByEachTransaction documents

/-! ## Serial executions -/

/-- A transaction, with the documents that it updates. -/
structure Txn (n : ℕ) where
  op : Op
  docs : Finset (Fin n)
  whole : docs.card = op.numUpdated

/-- The arrays after the transactions have run one after the other. -/
def replay {n : ℕ} (history : List (Txn n)) : Fin n → List Op :=
  history.foldl (fun orders t d => if d ∈ t.docs then orders d ++ [t.op] else orders d) fun _ => []

/-- Different transactions leave the documents. -/
structure Explains (documents : List Document) (history : List (Txn documents.length)) : Prop where
  nodup : (history.map Txn.op).Nodup
  orders : ∀ d, (documents.get d).order = replay history d

/-! ## The order of the commits -/

variable {documents : List Document}

/-- The arrays of the documents. -/
def commitOrders (documents : List Document) : List (List Op) := documents.map Document.order

theorem mem_zip_tail {α : Type*} {l : List α} {a b : α} : (a, b) ∈ l.zip l.tail ↔ [a, b] <:+: l := by
  induction l with
  | nil => simp
  | cons c l ih =>
    rw [List.infix_cons_iff, ← ih]
    cases l with
    | nil => simp
    | cons d l => simp [List.prefix_cons_iff]

theorem map_op_nodes (doc : ℕ) (order : List Op) : (nodes doc order).map Node.op = order := by
  refine List.ext_getElem? fun i => ?_
  rw [List.getElem?_map, nodes, List.getElem?_mapIdx, Option.map_map]
  exact Option.map_id'

/-- The edges join elements that follow each other in a document. -/
theorem exists_commitEdges {a b : Op} :
    (∃ e ∈ commitEdges documents, e.1.op = a ∧ e.2.op = b) ↔ Consecutive (commitOrders documents) a b := by
  have hpair : ∀ i order, (a, b) ∈ ((nodes i order).zip (nodes i order).tail).map
      (Prod.map Node.op Node.op) ↔ [a, b] <:+: order := by
    intro i order
    rw [← List.zip_map, List.map_tail, map_op_nodes, mem_zip_tail]
  constructor
  · rintro ⟨e, he, rfl, rfl⟩
    obtain ⟨l, hl, he⟩ := List.mem_flatMap.mp he
    obtain ⟨i, hi, rfl⟩ := List.mem_mapIdx.mp hl
    exact ⟨_, List.mem_map_of_mem (List.getElem_mem hi), (hpair i _).mp (List.mem_map_of_mem he)⟩
  · rintro ⟨l, hl, hinfix⟩
    obtain ⟨doc, hdoc, rfl⟩ := List.mem_map.mp hl
    obtain ⟨i, hi, rfl⟩ := List.mem_iff_getElem.mp hdoc
    obtain ⟨e, he, heq⟩ := List.mem_map.mp ((hpair i _).mpr hinfix)
    refine ⟨e, List.mem_flatMap.mpr ⟨_, List.mem_mapIdx.mpr ⟨i, hi, rfl⟩, he⟩, ?_⟩
    exact ⟨congrArg Prod.fst heq, congrArg Prod.snd heq⟩

/-- The operation of a class of nodes. -/
def opOf (q : Quotient nodeSetoid) : Op := q.lift Node.op fun _ _ h => h

theorem edge_iff {q q' : Quotient nodeSetoid} :
    (commitGraph documents).Edge q q' ↔ Consecutive (commitOrders documents) (opOf q) (opOf q') := by
  induction q using Quotient.ind with
  | _ a =>
    induction q' using Quotient.ind with
    | _ b =>
      rw [commitGraph, Graph.ofEdges_edge, ← exists_commitEdges]
      simp only [Quotient.eq]
      rfl

theorem acyclic_iff :
    Cycles.Acyclic (commitGraph documents).Edge ↔ Cycles.Acyclic (Consecutive (commitOrders documents)) := by
  constructor
  · intro h a hcycle
    exact h ⟦⟨a, 0, 0⟩⟧ (hcycle.lift (fun a => ⟦⟨a, 0, 0⟩⟧) fun a b hab => edge_iff.mpr hab)
  · intro h q hcycle
    exact h (opOf q) (hcycle.lift opOf fun q q' hq => edge_iff.mp hq)

/-- The depth of the search is bounded by the number of nodes. -/
def enough (documents : List Document) : ℕ := (commitGraph documents).nodes.length + 1

/-- The search returns, with a cycle if there is one. -/
theorem exists_findCycle (documents : List Document) (extra : ℕ) :
    ∃ result, findCycle (commitGraph documents) (enough documents + extra) = some (.ok result) ∧
      (result = [] ↔ Cycles.Acyclic (Consecutive (commitOrders documents))) := by
  have hwell : (commitGraph documents).WellFormed := Graph.wellFormed_ofEdges _
  have hfuel : unvisited (commitGraph documents) (initialStates (commitGraph documents).nodes) <
      enough documents + extra :=
    (Nat.lt_succ_of_le (List.length_filter_le _ _)).trans_le (Nat.le_add_right _ _)
  obtain ⟨result, state, hr, hresult⟩ := searchNodes_spec hwell hfuel sound_initialStates
    (fun q hq => by cases initialStates_fresh hq) fun a ha => ha
  refine ⟨result, by rw [findCycle, hr]; rfl, ?_⟩
  rw [← acyclic_iff]
  rcases hresult with ⟨rfl, -, hs, hall⟩ | ⟨a, b, ⟨⟨mid, rfl⟩, hchain⟩, hab⟩
  · refine iff_of_true rfl (hs.finished.acyclic_of_forall fun q q' hq => ?_)
    obtain ⟨a, ha, rfl⟩ := hwell.sources q q' hq
    exact hall a ha
  · refine iff_of_false (List.cons_ne_nil _ _) fun hacyclic => ?_
    have hwalk : Relation.TransGen (commitGraph documents).Edge ⟦a⟧ ⟦b⟧ :=
      (Cycles.transGen_of_isChain hchain).lift (Quotient.mk _) fun _ _ hedge => hedge
    rw [Quotient.sound hab] at hwalk
    exact hacyclic _ hwalk

theorem checkTransactionCommitOrder_eq (ownColl : Bool) (documents : List Document) (extra : ℕ) :
    ∃ r, checkTransactionCommitOrder ownColl documents (enough documents + extra) = some r ∧
      (r = .ok () ↔ (ownColl = true → Cycles.Acyclic (Consecutive (commitOrders documents)))) := by
  obtain ⟨result, hfind, hacyclic⟩ := exists_findCycle documents extra
  refine ⟨_, by rw [checkTransactionCommitOrder, hfind]; rfl, ?_⟩
  rw [← hacyclic, ← List.length_eq_zero_iff]
  cases ownColl with
  | false => simp
  | true =>
    dsimp only
    split_ifs with hpos
    · exact iff_of_false (fun h => nomatch h) fun h => by simp_all
    · exact iff_of_true rfl fun _ => by simpa using hpos

/-! ## The number of updates -/

theorem get_addCount (op : Op) (l : List Op) {n : ℕ} :
    (l.foldl addCount .empty).get op = some n ↔ op ∈ l ∧ n = l.count op := by
  induction l using List.reverseRecOn generalizing n with
  | nil => simp
  | append_singleton l op' ih =>
    rw [List.foldl_concat, addCount, Dict.get_set, List.count_append, List.count_singleton]
    by_cases hop : op = op'
    · subst hop
      have hget : ((l.foldl addCount .empty).get op).getD 0 = l.count op := by
        cases hget : (l.foldl addCount .empty).get op with
        | some n => exact (ih.mp hget).2
        | none =>
          refine (List.count_eq_zero.mpr fun hmem => ?_).symm
          rw [ih.mpr ⟨hmem, rfl⟩] at hget
          cases hget
      simp [hget, eq_comm]
    · simp [hop, ih, Ne.symm hop]

theorem updateCounts_eq (documents : List Document) :
    updateCounts documents = (commitOrders documents).flatten.foldl addCount .empty := by
  rw [updateCounts, commitOrders, List.foldl_flatten, List.foldl_map]

theorem forM_eq_ok {α ε : Type*} {f : α → Except ε Unit} {l : List α} :
    l.forM f = .ok () ↔ ∀ a ∈ l, f a = .ok () := by
  induction l with
  | nil => simp [pure, Except.pure]
  | cons a l ih =>
    show (f a >>= fun _ => l.forM f) = _ ↔ _
    rw [bind_eq_ok, List.forall_mem_cons, ← ih]
    exact ⟨fun ⟨_, h⟩ => h, fun h => ⟨(), h⟩⟩

theorem checkNumUpdatedByEachTransaction_eq : checkNumUpdatedByEachTransaction documents = .ok () ↔
    ∀ op ∈ (commitOrders documents).flatten, op.numUpdated = (commitOrders documents).flatten.count op := by
  rw [checkNumUpdatedByEachTransaction, forM_eq_ok, updateCounts_eq]
  have hcheck : ∀ {p : Op × ℕ}, (if p.1.numUpdated = p.2 then Except.ok ()
      else .error (Failure.numUpdated p.1 p.2)) = .ok () ↔ p.1.numUpdated = p.2 := by
    intro p
    split_ifs with h
    · exact iff_of_true rfl h
    · exact iff_of_false (fun h => nomatch h) h
  constructor
  · exact fun h op hop => hcheck.mp (h _ (Dict.mem_items.mpr ((get_addCount op _).mpr ⟨hop, rfl⟩)))
  · rintro h ⟨op, n⟩ hp
    obtain ⟨hop, rfl⟩ := (get_addCount op _).mp (Dict.mem_items.mp hp)
    exact hcheck.mpr (h op hop)

/-- The documents that have an operation. -/
def docsWith (documents : List Document) (op : Op) : Finset (Fin documents.length) :=
  Finset.univ.filter fun d => op ∈ (documents.get d).order

theorem count_eq_card (h : ∀ l ∈ commitOrders documents, l.Nodup) (op : Op) :
    (commitOrders documents).flatten.count op = (docsWith documents op).card := by
  rw [List.count_flatten, commitOrders, List.map_map, ← List.ofFn_getElem_eq_map, List.sum_ofFn, docsWith,
    Finset.card_filter]
  refine Finset.sum_congr rfl fun d _ => ?_
  have hnodup := h _ (List.mem_map_of_mem (documents.get_mem d))
  show List.count op (documents.get d).order = _
  rw [hnodup.count]

/-! ## Serial executions -/

theorem replay_eq {n : ℕ} (history : List (Txn n)) (d : Fin n) :
    replay history d = (history.filter (d ∈ ·.docs)).map Txn.op := by
  induction history using List.reverseRecOn with
  | nil => rfl
  | append_singleton history t ih =>
    rw [replay, List.foldl_concat, ← replay, List.filter_append, List.map_append, ← ih,
      List.filter_singleton]
    by_cases hd : d ∈ t.docs
    · simp [hd]
    · simp [hd]

variable {history : List (Txn documents.length)}

theorem Explains.supersequence (h : Explains documents history) :
    Supersequence (commitOrders documents) (history.map Txn.op) := by
  refine ⟨h.nodup, fun l hl => ?_⟩
  obtain ⟨doc, hdoc, rfl⟩ := List.mem_map.mp hl
  obtain ⟨d, rfl⟩ := List.get_of_mem hdoc
  rw [h.orders, replay_eq]
  exact List.filter_sublist.map _

theorem Explains.docs_eq (h : Explains documents history) {t : Txn documents.length}
    (ht : t ∈ history) : docsWith documents t.op = t.docs := by
  ext d
  rw [docsWith, Finset.mem_filter, h.orders, replay_eq, List.mem_map]
  constructor
  · rintro ⟨-, t', ht', heq⟩
    obtain ⟨hmem, hd⟩ := List.mem_filter.mp ht'
    rw [← List.inj_on_of_nodup_map h.nodup hmem ht heq]
    exact of_decide_eq_true hd
  · exact fun hd => ⟨Finset.mem_univ d, t, List.mem_filter.mpr ⟨ht, decide_eq_true hd⟩, rfl⟩

theorem map_filter_attach {α β : Type*} (l : List α) (q : α → Bool) (f : α → β) :
    (l.attach.filter fun a => q a.1).map (fun a => f a.1) = (l.filter q).map f := by
  conv_rhs => rw [← List.attach_map_subtype_val l, List.filter_map, List.map_map]
  rfl

/-- The transactions in the order of a supersequence, each with the documents that have its element. -/
theorem exists_explains {l : List Op} (h : Supersequence (commitOrders documents) l)
    (hwhole : ∀ op ∈ l, (docsWith documents op).card = op.numUpdated) :
    ∃ history, Explains documents history := by
  let txn : {op // op ∈ l} → Txn documents.length := fun op => ⟨op, _, hwhole op op.2⟩
  have hmap : (l.attach.map txn).map Txn.op = l := by
    rw [List.map_map]
    exact List.attach_map_subtype_val l
  refine ⟨l.attach.map txn, by rw [hmap]; exact h.nodup, fun d => ?_⟩
  have hmem : (documents.get d).order ∈ commitOrders documents := List.mem_map_of_mem (documents.get_mem d)
  rw [replay_eq, List.filter_map, List.map_map, ← h.eq_filter hmem, ← List.map_id (List.filter _ l)]
  refine Eq.trans (map_filter_attach l _ id).symm (congrArg _ (List.filter_congr fun op _ => ?_))
  simp [txn, docsWith]

theorem checkDocuments_eq (documents : List Document) (extra : ℕ) :
    ∃ r, checkDocuments true documents (enough documents + extra) = some r ∧
      (r = .ok () ↔ Cycles.Acyclic (Consecutive (commitOrders documents)) ∧
        ∀ op ∈ (commitOrders documents).flatten,
          op.numUpdated = (commitOrders documents).flatten.count op) := by
  obtain ⟨r, hr, hacyclic⟩ := checkTransactionCommitOrder_eq true documents extra
  refine ⟨_, by rw [checkDocuments, hr]; rfl, ?_⟩
  rw [bind_eq_ok, ← checkNumUpdatedByEachTransaction_eq]
  exact ⟨fun ⟨_, hr, h⟩ => ⟨hacyclic.mp hr rfl, h⟩, fun ⟨h, h'⟩ => ⟨(), hacyclic.mpr fun _ => h, h'⟩⟩

theorem Explains.count (h : Explains documents history) {op : Op}
    (hop : op ∈ (commitOrders documents).flatten) :
    op.numUpdated = (commitOrders documents).flatten.count op := by
  obtain ⟨order, horder, hop⟩ := List.mem_flatten.mp hop
  obtain ⟨t, ht, rfl⟩ := List.mem_map.mp ((h.supersequence.sublist order horder).subset hop)
  rw [count_eq_card h.supersequence.nodup_of_mem, h.docs_eq ht, t.whole]

theorem Explains.checkDocuments (h : Explains documents history) (extra : ℕ) :
    checkDocuments true documents (enough documents + extra) = some (.ok ()) := by
  obtain ⟨r, hr, hiff⟩ := checkDocuments_eq documents extra
  rw [hr, hiff.mpr ⟨h.supersequence.acyclic, fun _ => h.count⟩]

/-- **The checks accept what a serial execution of whole transactions leaves, and nothing else**: the
transactions are different, and each updates as many documents as its element says. -/
theorem checkDocuments_iff (documents : List Document) (extra : ℕ) :
    ∃ r, checkDocuments true documents (enough documents + extra) = some r ∧
      (r = .ok () ↔ ∃ history, Explains documents history) := by
  obtain ⟨r, hr, hiff⟩ := checkDocuments_eq documents extra
  refine ⟨r, hr, fun hok => ?_, fun ⟨history, h⟩ => ?_⟩
  · obtain ⟨hacyclic, hcount⟩ := hiff.mp hok
    obtain ⟨l, hl, hmem⟩ := exists_supersequence hacyclic
    refine exists_explains hl fun op hop => ?_
    rw [hcount op (hmem op hop), count_eq_card hl.nodup_of_mem]
  · exact Option.some.inj (hr.symm.trans (h.checkDocuments extra))

end MongoTests.Fsm.AtomicityIsolation
