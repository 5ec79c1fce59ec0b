import MongoTests.Aggregation.AnyEq
import MongoTests.Fsm.AtomicityIsolation

/-!
# The writes of committed transactions

`checkWritesOfCommittedTxns` of `multi_statement_transaction_atomicity_isolation.js`: what a thread
remembers of its transactions against what the documents have of them.

* `Sparse`: arrays with holes; `updatedDocsServerHistory`, `checkWritesOfCommittedTxns`;
* `serverWrites`: the writes of a transaction in the documents;
* `arrayEq_value`: the values of `_id` are not compared;
* **`checkWritesOfCommittedTxns_iff`**: the check passes if and only if each transaction has as many
  writes in each collection as the thread remembers.
-/

namespace MongoTests.Fsm.AtomicityIsolation

open MongoTests.Lib MongoTests.Aggregation

/-! ## Arrays with holes -/

abbrev Sparse (α : Type) := List (Option α)

namespace Sparse

variable {α : Type}

/-- `a[i]` -/
def get (a : Sparse α) (i : ℕ) : Option α := a[i]?.join

/-- `a[i] = v` -/
def set (a : Sparse α) (i : ℕ) (v : α) : Sparse α :=
  if i < a.length then List.set a i (some v) else a ++ List.replicate (i - a.length) none ++ [some v]

theorem get_set (a : Sparse α) (i j : ℕ) (v : α) :
    (a.set i v).get j = if j = i then some v else a.get j := by
  unfold set get
  split_ifs with hi hj hj
  · subst hj
    rw [List.getElem?_set_self hi]
    rfl
  · rw [List.getElem?_set_ne (Ne.symm hj)]
  · subst hj
    rw [List.getElem?_append_right (by simp; omega)]
    simp [show j - (a.length + (j - a.length)) = 0 by omega]
  · have hlen : (a ++ List.replicate (i - a.length) none).length = i := by simp; omega
    by_cases hlt : j < i
    · rw [List.getElem?_append_left (by omega), List.getElem?_append, List.getElem?_replicate]
      split_ifs with ha hb
      · rfl
      · rw [List.getElem?_eq_none (Nat.le_of_not_lt ha)]
        rfl
      · omega
    · rw [List.getElem?_eq_none (by simp; omega), List.getElem?_eq_none (by omega)]

end Sparse

/-! ## The check -/

/-- `{_id: docId, dbName: txnDbName, collName: txnCollName}` -/
structure DocInfo where
  id : ℕ
  dbName : String
  collName : String
  deriving DecidableEq, Repr

def DocInfo.collection (info : DocInfo) : String × String := (info.dbName, info.collName)

/-- The property of the object. -/
def DocInfo.get (info : DocInfo) (name : String) : Value :=
  if name = "_id" then .number (.fin info.id)
  else if name = "dbName" then .string info.dbName
  else .string info.collName

def DocInfo.value (info : DocInfo) : Value := .object ["_id", "dbName", "collName"] info.get

inductive WritesFailure
  /-- `doc.metadata[i]` is not there. -/
  | typeError
  | notAFunction (e : NotAFunction)
  /-- 'expected … but instead have … for txnNumber …' -/
  | writes (txnNum : ℕ)

/-- The part of a document that names the write. -/
def docInfo (doc : Document) (m : Metadata) : DocInfo := ⟨doc.id, m.dbName, m.collName⟩

def push (history : Sparse (List DocInfo)) (write : ℕ × DocInfo) : Sparse (List DocInfo) :=
  history.set write.1 ((history.get write.1).getD [] ++ [write.2])

/-- One element of the `order` of a document. -/
def addWrite (tid : ℕ) (doc : Document) (history : Sparse (List DocInfo)) (p : Op × ℕ) :
    Except WritesFailure (Sparse (List DocInfo)) :=
  if p.1.tid = tid then
    match doc.metadata[p.2]? with
    | none => .error .typeError
    | some m => .ok (push history (m.txnNum, docInfo doc m))
  else .ok history

def updatedDocsServerHistory (tid : ℕ) (documents : List Document) :
    Except WritesFailure (Sparse (List DocInfo)) :=
  documents.foldlM (fun history doc => doc.order.zipIdx.foldlM (addWrite tid doc) history) []

/-- The comparison for a transaction number. -/
def compareWrites (server client : Sparse (List DocInfo)) (txnNum : ℕ) : Except WritesFailure Unit :=
  match arrayEq (.array (((server.get txnNum).getD []).map DocInfo.value))
      (.array (((client.get txnNum).getD []).map DocInfo.value)) with
  | .error e => .error (.notAFunction e)
  | .ok eq => if eq then .ok () else .error (.writes txnNum)

/-- `tid` and `updatedDocsClientHistory` are `data` of the thread. -/
def checkWritesOfCommittedTxns (tid : ℕ) (updatedDocsClientHistory : Sparse (List DocInfo))
    (documents : List Document) : Except WritesFailure Unit := do
  let server ← updatedDocsServerHistory tid documents
  (List.range (max server.length updatedDocsClientHistory.length)).forM
    (compareWrites server updatedDocsClientHistory)

/-! ## What the documents have -/

/-- The writes of a thread in a document, with the numbers of their transactions. -/
def writesIn (tid : ℕ) (doc : Document) : List (ℕ × DocInfo) :=
  (doc.order.zip doc.metadata).filterMap fun p =>
    if p.1.tid = tid then some (p.2.txnNum, docInfo doc p.2) else none

/-- The writes of a transaction. -/
def serverWrites (tid txnNum : ℕ) (documents : List Document) : List DocInfo :=
  ((documents.flatMap (writesIn tid)).filter (·.1 = txnNum)).map Prod.snd

/-- The elements of the thread have their metadata. -/
def HasMetadata (tid : ℕ) (doc : Document) : Prop :=
  ∀ i op, doc.order[i]? = some op → op.tid = tid → i < doc.metadata.length

variable {tid : ℕ} {doc : Document} {documents : List Document}
  {history history' : Sparse (List DocInfo)}

theorem get_foldl_push (l : List (ℕ × DocInfo)) (history : Sparse (List DocInfo)) (n : ℕ) :
    ((l.foldl push history).get n).getD [] =
      (history.get n).getD [] ++ (l.filter (·.1 = n)).map Prod.snd := by
  induction l generalizing history with
  | nil => simp
  | cons w l ih =>
    rw [List.foldl_cons, ih, push, Sparse.get_set, List.filter_cons]
    by_cases hn : n = w.1
    · simp [hn]
    · simp [hn, Ne.symm hn]

/-- The elements from the position `k` on. -/
theorem foldlM_addWrite {ops : List Op} {k : ℕ} :
    (ops.zipIdx k).foldlM (addWrite tid doc) history = .ok history' ↔
      (∀ i op, ops[i]? = some op → op.tid = tid → k + i < doc.metadata.length) ∧
        history' = ((ops.zip (doc.metadata.drop k)).filterMap fun p =>
          if p.1.tid = tid then some (p.2.txnNum, docInfo doc p.2) else none).foldl push history := by
  induction ops generalizing k history with
  | nil => simp [pure, Except.pure, eq_comm]
  | cons op ops ih =>
    have hall : (∀ i op', (op :: ops)[i]? = some op' → op'.tid = tid → k + i < doc.metadata.length) ↔
        (op.tid = tid → k < doc.metadata.length) ∧
          ∀ i op', ops[i]? = some op' → op'.tid = tid → k + 1 + i < doc.metadata.length := by
      constructor
      · refine fun h => ⟨h 0 op rfl, fun i op' hi htid => ?_⟩
        have hlt := h (i + 1) op' hi htid
        omega
      · rintro ⟨hop, h⟩ (_ | i) op' hi htid
        · cases hi
          exact hop htid
        · have hlt := h i op' hi htid
          omega
    rw [List.zipIdx_cons, List.foldlM_cons, hall]
    by_cases htid : op.tid = tid
    · by_cases hk : k < doc.metadata.length
      · have hstep : addWrite tid doc history (op, k) =
            .ok (push history (doc.metadata[k].txnNum, docInfo doc doc.metadata[k])) := by
          unfold addWrite
          rw [if_pos htid, List.getElem?_eq_getElem hk]
        rw [hstep, List.drop_eq_getElem_cons hk, List.zip_cons_cons, List.filterMap_cons, if_pos htid,
          List.foldl_cons, and_iff_right fun _ => hk]
        exact ih
      · have hstep : addWrite tid doc history (op, k) = .error .typeError := by
          unfold addWrite
          rw [if_pos htid, List.getElem?_eq_none (Nat.le_of_not_lt hk)]
        rw [hstep]
        exact iff_of_false (fun h => nomatch h) fun h => hk (h.1.1 htid)
    · have hstep : addWrite tid doc history (op, k) = .ok history := if_neg htid
      have hzip : ((op :: ops).zip (doc.metadata.drop k)).filterMap (fun p =>
          if p.1.tid = tid then some (p.2.txnNum, docInfo doc p.2) else none) =
            (ops.zip (doc.metadata.drop (k + 1))).filterMap fun p =>
              if p.1.tid = tid then some (p.2.txnNum, docInfo doc p.2) else none := by
        by_cases hk : k < doc.metadata.length
        · rw [List.drop_eq_getElem_cons hk, List.zip_cons_cons, List.filterMap_cons, if_neg htid]
        · rw [List.drop_eq_nil_of_le (by omega), List.drop_eq_nil_of_le (by omega), List.zip_nil_right,
            List.zip_nil_right]
      rw [hstep, hzip, and_iff_right fun h => absurd h htid]
      exact ih

/-- The loop over the documents. -/
theorem updatedDocsServerHistory_eq : updatedDocsServerHistory tid documents = .ok history ↔
    (∀ doc ∈ documents, HasMetadata tid doc) ∧
      history = (documents.flatMap (writesIn tid)).foldl push [] := by
  have hloop : ∀ history', documents.foldlM (fun history doc =>
      doc.order.zipIdx.foldlM (addWrite tid doc) history) history' = .ok history ↔
        (∀ doc ∈ documents, HasMetadata tid doc) ∧
          history = (documents.flatMap (writesIn tid)).foldl push history' := by
    intro history'
    induction documents generalizing history' with
    | nil => simp [pure, Except.pure, eq_comm]
    | cons doc documents ih =>
      have hdoc : ∀ {history''}, doc.order.zipIdx.foldlM (addWrite tid doc) history' = .ok history'' ↔
          HasMetadata tid doc ∧ history'' = (writesIn tid doc).foldl push history' := by
        intro history''
        rw [foldlM_addWrite]
        simp only [Nat.zero_add, List.drop_zero]
        rfl
      rw [List.foldlM_cons, bind_eq_ok, List.forall_mem_cons, List.flatMap_cons, List.foldl_append]
      constructor
      · rintro ⟨history'', h, hrest⟩
        obtain ⟨hmeta, rfl⟩ := hdoc.mp h
        obtain ⟨hall, rfl⟩ := (ih _).mp hrest
        exact ⟨⟨hmeta, hall⟩, rfl⟩
      · rintro ⟨⟨hmeta, hall⟩, rfl⟩
        exact ⟨_, hdoc.mpr ⟨hmeta, rfl⟩, (ih _).mpr ⟨hall, rfl⟩⟩
  exact hloop []

/-! ## The comparison -/

theorem anyEq_value (a b : DocInfo) :
    ∃ eq, anyEq a.value b.value = .ok eq ∧ (eq = true ↔ a.collection = b.collection) := by
  have hcall : Callable ["_id", "dbName", "collName"] ["_id", "dbName", "collName"] :=
    ⟨by decide, by decide⟩
  have hstring : ∀ s s', anyEq (.string s) (.string s') = .ok (decide (s = s')) := fun _ _ => by
    simp only [anyEq, strictEq]
  have hanyEq : anyEq a.value b.value = compareDocuments (fun name v => anyEq (a.get name) v)
      ["_id", "dbName", "collName"] ["_id", "dbName", "collName"] b.get := by
    simp only [DocInfo.value, anyEq, documentOf]
  have hother : ∀ name, name ≠ "_id" → ∃ s s', a.get name = .string s ∧ b.get name = .string s' := by
    intro name hid
    unfold DocInfo.get
    rw [if_neg hid, if_neg hid]
    by_cases hdb : name = "dbName"
    · rw [if_pos hdb, if_pos hdb]
      exact ⟨_, _, rfl, rfl⟩
    · rw [if_neg hdb, if_neg hdb]
      exact ⟨_, _, rfl, rfl⟩
  rw [hanyEq]
  obtain ⟨eq, heq⟩ := compareDocuments_total (fun name v => anyEq (a.get name) v) b.get hcall
    fun name _ _ hid => by
      obtain ⟨s, s', hs, hs'⟩ := hother name hid
      exact ⟨_, by rw [hs, hs', hstring]⟩
  refine ⟨eq, heq, ?_⟩
  have htrue : eq = true ↔ compareDocuments (fun name v => anyEq (a.get name) v)
      ["_id", "dbName", "collName"] ["_id", "dbName", "collName"] b.get = .ok true := by
    rw [heq]
    exact ⟨congrArg _, Except.ok.inj⟩
  have hdbName : ∀ info : DocInfo, info.get "dbName" = .string info.dbName := fun _ => rfl
  have hcollName : ∀ info : DocInfo, info.get "collName" = .string info.collName := fun _ => rfl
  rw [htrue, compareDocuments_eq_true, and_iff_right hcall, and_iff_right fun _ => Iff.rfl]
  simp [hdbName, hcollName, hstring, DocInfo.collection]

/-- The collection that an object names. -/
def collectionOf : Value → Value × Value
  | .object _ value => (value "dbName", value "collName")
  | v => (v, v)

theorem collectionOf_value (a b : DocInfo) :
    collectionOf a.value = collectionOf b.value ↔ a.collection = b.collection := by
  show (Value.string a.dbName, Value.string a.collName) = (.string b.dbName, .string b.collName) ↔ _
  simp [DocInfo.collection]

/-- **Only the collections are compared**, whatever the order. -/
theorem arrayEq_values (l r : List DocInfo) :
    ∃ eq, arrayEq (.array (l.map DocInfo.value)) (.array (r.map DocInfo.value)) = .ok eq ∧
      (eq = true ↔ (l.map DocInfo.collection).Perm (r.map DocInfo.collection)) := by
  have heq : ∀ v ∈ l.map DocInfo.value, ∀ w ∈ r.map DocInfo.value,
      ∃ eq, anyEq v w = .ok eq ∧ (eq = true ↔ collectionOf v = collectionOf w) := by
    intro v hv w hw
    obtain ⟨a, -, rfl⟩ := List.mem_map.mp hv
    obtain ⟨b, -, rfl⟩ := List.mem_map.mp hw
    rw [collectionOf_value]
    exact anyEq_value a b
  have hkeys : ((l.map DocInfo.value).map collectionOf).Perm ((r.map DocInfo.value).map collectionOf) ↔
      (l.map DocInfo.collection).Perm (r.map DocInfo.collection) := by
    have hinj : Function.Injective fun c : String × String => (Value.string c.1, Value.string c.2) :=
      fun c c' h => Prod.ext (Value.string.inj (congrArg Prod.fst h))
        (Value.string.inj (congrArg Prod.snd h))
    have hmap : ∀ l : List DocInfo, (l.map DocInfo.value).map collectionOf =
        (l.map DocInfo.collection).map fun c => (Value.string c.1, Value.string c.2) := fun l => by
      rw [List.map_map, List.map_map]
      rfl
    rw [hmap, hmap, List.map_perm_map_iff hinj]
  unfold arrayEq
  dsimp only
  by_cases hlen : (l.map DocInfo.value).length = (r.map DocInfo.value).length
  · obtain ⟨eq, hmatch, htrue⟩ := matchElements_total []
      (R := fun v w => collectionOf v = collectionOf w)
      (fun a a' b b' h h' h'' => h'.trans (h.symm.trans h'')) heq
    rw [if_neg (not_not.mpr hlen), ← hkeys, ← exists_matches_iff_perm hlen]
    refine ⟨eq, hmatch, fun h => ?_, fun ⟨js, hjs⟩ => htrue js hjs fun _ _ => List.not_mem_nil⟩
    subst h
    obtain ⟨js, hjs, -⟩ := exists_matches hmatch
    obtain ⟨σ, hσ⟩ := hjs.exists_equiv hlen
    refine ⟨_, matches_of_equiv (σ := σ) fun i => ?_⟩
    obtain ⟨eq, hanyEq, hiff⟩ := heq _ (List.get_mem _ i) _ (List.get_mem _ (σ i))
    exact hiff.mp (Except.ok.inj (hanyEq.symm.trans (hσ i)))
  · rw [if_pos hlen]
    refine ⟨false, rfl, iff_of_false Bool.false_ne_true fun hperm => hlen ?_⟩
    simpa using hperm.length_eq

theorem compareWrites_eq {server client : Sparse (List DocInfo)} {txnNum : ℕ} :
    compareWrites server client txnNum = .ok () ↔
      (((server.get txnNum).getD []).map DocInfo.collection).Perm
        (((client.get txnNum).getD []).map DocInfo.collection) := by
  obtain ⟨eq, heq, hperm⟩ := arrayEq_values ((server.get txnNum).getD []) ((client.get txnNum).getD [])
  rw [← hperm]
  unfold compareWrites
  rw [heq]
  cases eq with
  | true => exact iff_of_true rfl rfl
  | false => exact iff_of_false (fun h => nomatch h) Bool.false_ne_true

theorem Sparse.getD_get_of_le {history : Sparse (List DocInfo)} {n : ℕ} (h : history.length ≤ n) :
    (history.get n).getD [] = [] := by
  unfold Sparse.get
  rw [List.getElem?_eq_none h]
  rfl

/-- What the loops leave. -/
theorem get_updatedDocs (tid : ℕ) (documents : List Document) (n : ℕ) :
    (((documents.flatMap (writesIn tid)).foldl push []).get n).getD [] = serverWrites tid n documents :=
  get_foldl_push _ [] n

variable {updatedDocsClientHistory : Sparse (List DocInfo)}

theorem checkWritesOfCommittedTxns_eq_ok (hmeta : ∀ doc ∈ documents, HasMetadata tid doc)
    (h : ∀ txnNum, ((serverWrites tid txnNum documents).map DocInfo.collection).Perm
      (((updatedDocsClientHistory.get txnNum).getD []).map DocInfo.collection)) :
    checkWritesOfCommittedTxns tid updatedDocsClientHistory documents = .ok () := by
  refine bind_eq_ok.mpr ⟨_, updatedDocsServerHistory_eq.mpr ⟨hmeta, rfl⟩, forM_eq_ok.mpr fun n _ => ?_⟩
  rw [compareWrites_eq, get_updatedDocs]
  exact h n

/-- **What the check decides**: the documents have the metadata of the thread's elements, and for each
transaction number as many writes in each collection as the thread remembers. The documents that were
written may be others. -/
theorem checkWritesOfCommittedTxns_iff (tid : ℕ) (updatedDocsClientHistory : Sparse (List DocInfo))
    (documents : List Document) :
    checkWritesOfCommittedTxns tid updatedDocsClientHistory documents = .ok () ↔
      (∀ doc ∈ documents, HasMetadata tid doc) ∧ ∀ txnNum,
        ((serverWrites tid txnNum documents).map DocInfo.collection).Perm
          (((updatedDocsClientHistory.get txnNum).getD []).map DocInfo.collection) := by
  refine ⟨fun h => ?_, fun ⟨hmeta, h⟩ => checkWritesOfCommittedTxns_eq_ok hmeta h⟩
  obtain ⟨server, hupdated, hloop⟩ := bind_eq_ok.mp h
  obtain ⟨hmeta, rfl⟩ := updatedDocsServerHistory_eq.mp hupdated
  refine ⟨hmeta, fun n => ?_⟩
  rw [← get_updatedDocs]
  by_cases hn : n < max ((documents.flatMap (writesIn tid)).foldl push []).length
      updatedDocsClientHistory.length
  · exact compareWrites_eq.mp (forM_eq_ok.mp hloop n (List.mem_range.mpr hn))
  · rw [Sparse.getD_get_of_le (by omega), Sparse.getD_get_of_le (by omega)]

end MongoTests.Fsm.AtomicityIsolation
