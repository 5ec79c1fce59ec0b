import MongoTests.Fsm.CommittedWrites
import MongoTests.Lib.Machine

/-!
# Updates under snapshot isolation

The threads of `multi_statement_transaction_atomicity_isolation.js` on a server with snapshot isolation:
a transaction sees the version that it has begun with, and it may write a document only if no other
transaction holds the document or has committed a newer version of it.

* `Thread`, `Attempt`, `step`: `update` with its retries, one operation at a time;
* `Commit`, `dbAfter`: the committed transactions, one after the other;
* `Inv`, `inv_of_reach`: every version is what some of them leave;
* **`checkConsistency_of_reach`**: in every run, each thread finds every version consistent that has its
  own transactions.
-/

namespace MongoTests.Fsm.AtomicityIsolation

open MongoTests.Lib

/-! ## The threads and the server -/

/-- A database and a collection. -/
abbrev Collection := String × String

/-- Where a document is: its collection and its `_id`. -/
abbrev Place := Collection × ℕ

abbrev Db := Place → Document

structure Config where
  collections : List Collection
  numDocs : ℕ
  nodup : collections.Nodup

namespace Config

variable (cfg : Config)

def places : List Place := cfg.collections.flatMap fun c => (List.range cfg.numDocs).map fun id => (c, id)

def getAllDocuments (db : Db) : List Document := cfg.places.map db

end Config

/-- The documents that `setup` inserts. -/
def setup : Db := fun p => ⟨p.2, [], []⟩

/-- A transaction of `update` that has begun. -/
structure Attempt where
  txnNumber : ℕ
  /-- The documents that the transaction sees. -/
  view : Db
  written : List Place

inductive Phase
  | idle
  | updating (docIds : List ℕ) (attempt : Option Attempt)

structure Thread where
  iteration : ℕ
  /-- The number of the next transaction. -/
  txnNumber : ℕ
  updatedDocsClientHistory : Sparse (List DocInfo)
  /-- The version that the last transaction has made. -/
  seen : ℕ
  phase : Phase

/-- The thread tries to update the documents. -/
def Thread.updating (t : Thread) (docIds : List ℕ) (attempt : Option Attempt) : Thread :=
  { t with phase := .updating docIds attempt }

structure State where
  versions : ℕ → Db
  latest : ℕ
  locks : Place → Option ℕ
  threads : ℕ → Thread

namespace State

variable (s : State) (tid : ℕ)

def current : Db := s.versions s.latest

def set (t : Thread) : State := { s with threads := Function.update s.threads tid t }

def lock (p : Place) : State := { s with locks := Function.update s.locks p (some tid) }

def release : State := { s with locks := fun p => if s.locks p = some tid then none else s.locks p }

end State

/-- The document after the `$push` of a transaction. -/
def pushed (op : Op) (txnNum : ℕ) (p : Place) (doc : Document) : Document :=
  { doc with
    order := doc.order ++ [op]
    metadata := doc.metadata ++ [⟨p.1.1, p.1.2, txnNum⟩] }

/-- The attempt after it has updated a document. -/
def Attempt.write (a : Attempt) (op : Op) (p : Place) : Attempt :=
  { a with
    view := Function.update a.view p (pushed op a.txnNumber p (a.view p))
    written := a.written ++ [p] }

/-- An element of `committedTxnInfo`. -/
def infoOf (p : Place) : DocInfo := ⟨p.2, p.1.1, p.1.2⟩

namespace Thread

variable (t : Thread)

def nextTxn : Thread := { t with txnNumber := t.txnNumber + 1 }

/-- The thread after its transaction has made a version. -/
def committed (a : Attempt) (version : ℕ) : Thread where
  iteration := t.iteration + 1
  txnNumber := t.txnNumber
  updatedDocsClientHistory := t.updatedDocsClientHistory.set a.txnNumber (a.written.map infoOf)
  seen := version
  phase := .idle

end Thread

inductive Action
  | start (docIds : List ℕ)
  | beginTxn (version : ℕ)
  | write (collection : Collection)
  | abort
  | commit
  /-- A transaction that only reads. -/
  | readTxn

/-- The server commits what the attempt has written. -/
def State.install (s : State) (a : Attempt) : State :=
  { s with
    versions := Function.update s.versions (s.latest + 1) fun p =>
      if p ∈ a.written then a.view p else s.current p
    latest := s.latest + 1 }

def step (cfg : Config) (s : State) : ℕ × Action → Option State
  | (tid, action) =>
    let t := s.threads tid
    match action, t.phase with
    | .start docIds, .idle =>
      if docIds.Nodup ∧ ∀ id ∈ docIds, id < cfg.numDocs then
        some (s.set tid (t.updating docIds none))
      else none
    | .beginTxn version, .updating docIds none =>
      -- causal consistency: the thread reads its own writes
      if t.seen ≤ version ∧ version ≤ s.latest then
        some (s.set tid (t.nextTxn.updating docIds (some ⟨t.txnNumber, s.versions version, []⟩)))
      else none
    | .write collection, .updating docIds (some a) =>
      match docIds[a.written.length]? with
      | none => none
      | some docId =>
        let p : Place := (collection, docId)
        let a' := a.write ⟨tid, t.iteration, docIds.length⟩ p
        if collection ∈ cfg.collections ∧ s.locks p = none ∧ s.current p = a.view p then
          some ((s.lock tid p).set tid (t.updating docIds (some a')))
        else none
    | .abort, .updating docIds (some _) =>
      some ((s.release tid).set tid (t.updating docIds none))
    | .commit, .updating docIds (some a) =>
      if a.written.length = docIds.length then
        some (((s.install a).release tid).set tid (t.committed a (s.latest + 1)))
      else none
    | .readTxn, .idle => some (s.set tid t.nextTxn)
    | _, _ => none

/-- What a thread can do. -/
inductive Moves (cfg : Config) (s : State) (tid : ℕ) : State → Prop
  | start (docIds : List ℕ) (hphase : (s.threads tid).phase = .idle) (hnodup : docIds.Nodup)
      (hlt : ∀ id ∈ docIds, id < cfg.numDocs) :
      Moves cfg s tid (s.set tid ((s.threads tid).updating docIds none))
  | beginTxn (docIds : List ℕ) (version : ℕ) (hphase : (s.threads tid).phase = .updating docIds none)
      (hseen : (s.threads tid).seen ≤ version) (hversion : version ≤ s.latest) :
      Moves cfg s tid (s.set tid ((s.threads tid).nextTxn.updating docIds
        (some ⟨(s.threads tid).txnNumber, s.versions version, []⟩)))
  | write (docIds : List ℕ) (a : Attempt) (p : Place)
      (hphase : (s.threads tid).phase = .updating docIds (some a))
      (hnext : docIds[a.written.length]? = some p.2) (hcollection : p.1 ∈ cfg.collections)
      (hlock : s.locks p = none) (hview : s.current p = a.view p) :
      Moves cfg s tid ((s.lock tid p).set tid ((s.threads tid).updating docIds
        (some (a.write ⟨tid, (s.threads tid).iteration, docIds.length⟩ p))))
  | abort (docIds : List ℕ) (a : Attempt) (hphase : (s.threads tid).phase = .updating docIds (some a)) :
      Moves cfg s tid ((s.release tid).set tid ((s.threads tid).updating docIds none))
  | commit (docIds : List ℕ) (a : Attempt) (hphase : (s.threads tid).phase = .updating docIds (some a))
      (hlength : a.written.length = docIds.length) :
      Moves cfg s tid
        (((s.install a).release tid).set tid ((s.threads tid).committed a (s.latest + 1)))
  | readTxn (hphase : (s.threads tid).phase = .idle) :
      Moves cfg s tid (s.set tid (s.threads tid).nextTxn)

theorem step_cases {cfg : Config} {s s' : State} {tid : ℕ} {action : Action}
    (h : step cfg s (tid, action) = some s') : Moves cfg s tid s' := by
  unfold step at h
  dsimp only at h
  split at h
  · next hphase =>
    split_ifs at h with hdocs
    cases h
    exact .start _ hphase hdocs.1 hdocs.2
  · next hphase =>
    split_ifs at h with hversion
    cases h
    exact .beginTxn _ _ hphase hversion.1 hversion.2
  · next hphase =>
    split at h
    · cases h
    · next hnext =>
      split_ifs at h with hwrite
      cases h
      exact .write _ _ (_, _) hphase hnext hwrite.1 hwrite.2.1 hwrite.2.2
  · next hphase =>
    cases h
    exact .abort _ _ hphase
  · next hphase =>
    split_ifs at h with hlength
    cases h
    exact .commit _ _ hphase hlength
  · next hphase =>
    cases h
    exact .readTxn hphase
  · cases h

/-- The state after `setup` and `init`. -/
def initial : State where
  versions _ := setup
  latest := 0
  locks _ := none
  threads _ := ⟨0, 0, [], 0, .idle⟩

inductive CheckFailure
  /-- `assertWhenOwnColl.eq(allDocuments.length, numDocs * this.collections.length, …)` -/
  | length
  | documents (e : Failure)
  | writes (e : WritesFailure)

/-- `checkConsistency` of a thread that reads the version `db`. -/
def checkConsistency (cfg : Config) (ownColl : Bool) (tid : ℕ) (t : Thread) (db : Db) (fuel : ℕ) :
    Option (Except CheckFailure Unit) :=
  let documents := cfg.getAllDocuments db
  if ownColl && documents.length ≠ cfg.numDocs * cfg.collections.length then some (.error .length)
  else (checkDocuments ownColl documents fuel).map fun r => do
    r.mapError .documents
    (checkWritesOfCommittedTxns tid t.updatedDocsClientHistory documents).mapError .writes

/-! ## The commits -/

structure Commit where
  tid : ℕ
  iteration : ℕ
  txnNum : ℕ
  written : List Place

namespace Commit

def op (c : Commit) : Op := ⟨c.tid, c.iteration, c.written.length⟩

def apply (c : Commit) (db : Db) : Db := fun p =>
  if p ∈ c.written then pushed c.op c.txnNum p (db p) else db p

/-- The commit has different documents. -/
structure Valid (cfg : Config) (c : Commit) : Prop where
  nodup : c.written.Nodup
  mem_places : ∀ p ∈ c.written, p ∈ cfg.places

end Commit

/-- The documents after the commits. -/
def dbAfter (log : List Commit) : Db := log.foldl (fun db c => c.apply db) setup

theorem dbAfter_concat (log : List Commit) (c : Commit) : dbAfter (log ++ [c]) = c.apply (dbAfter log) :=
  List.foldl_concat _ _ _ _

theorem dbAfter_eq (log : List Commit) (p : Place) :
    dbAfter log p = ⟨p.2, (log.filter (p ∈ ·.written)).map Commit.op,
      (log.filter (p ∈ ·.written)).map fun c => ⟨p.1.1, p.1.2, c.txnNum⟩⟩ := by
  induction log using List.reverseRecOn with
  | nil => rfl
  | append_singleton log c ih =>
    rw [dbAfter_concat, Commit.apply, ih, List.filter_append, List.filter_singleton]
    by_cases hp : p ∈ c.written
    · simp [hp, pushed]
    · simp [hp]

theorem mem_places {cfg : Config} {p : Place} :
    p ∈ cfg.places ↔ p.1 ∈ cfg.collections ∧ p.2 < cfg.numDocs := by
  obtain ⟨c, id⟩ := p
  simp [Config.places, eq_comm]

theorem nodup_places (cfg : Config) : cfg.places.Nodup := by
  refine List.nodup_flatMap.mpr ⟨fun c _ => ?_, ?_⟩
  · exact List.nodup_range.map fun _ _ h => congrArg Prod.snd h
  · refine cfg.nodup.imp fun hne => ?_
    intro p hp hp'
    obtain ⟨_, -, rfl⟩ := List.mem_map.mp hp
    obtain ⟨_, -, heq⟩ := List.mem_map.mp hp'
    exact hne (congrArg Prod.fst heq).symm

theorem length_places (cfg : Config) : cfg.places.length = cfg.numDocs * cfg.collections.length := by
  simp [Config.places, List.length_flatMap, Nat.mul_comm]

variable {cfg : Config} {log : List Commit}

/-- The place of a document in the result of `getAllDocuments`. -/
def placeAt (cfg : Config) (db : Db) (d : Fin (cfg.getAllDocuments db).length) : Place :=
  cfg.places.get (d.cast (List.length_map _))

theorem get_getAllDocuments (db : Db) (d : Fin (cfg.getAllDocuments db).length) :
    (cfg.getAllDocuments db).get d = db (placeAt cfg db d) := by
  show (cfg.places.map db)[d.1] = _
  rw [List.getElem_map]
  rfl

theorem card_placeAt (db : Db) {written : List Place} (hnodup : written.Nodup)
    (hplaces : ∀ p ∈ written, p ∈ cfg.places) :
    (Finset.univ.filter fun d => placeAt cfg db d ∈ written).card = written.length := by
  have hinj : Function.Injective (placeAt cfg db) := fun d d' h =>
    Fin.ext ((nodup_places cfg).getElem_inj_iff.mp h)
  rw [← Finset.card_image_of_injective _ hinj, ← List.toFinset_card_of_nodup hnodup]
  congr 1
  ext p
  simp only [Finset.mem_image, Finset.mem_filter, Finset.mem_univ, true_and, List.mem_toFinset]
  constructor
  · rintro ⟨d, hd, rfl⟩
    exact hd
  · intro hp
    obtain ⟨d, rfl⟩ := List.get_of_mem (hplaces p hp)
    exact ⟨d.cast (List.length_map _).symm, hp, rfl⟩

/-- **Commits of different transactions are a serial execution.** -/
theorem exists_explains_dbAfter (hvalid : ∀ c ∈ log, c.Valid cfg) (hnodup : (log.map Commit.op).Nodup) :
    ∃ history, Explains (cfg.getAllDocuments (dbAfter log)) history := by
  let txn : {c // c ∈ log} → Txn (cfg.getAllDocuments (dbAfter log)).length := fun c =>
    ⟨c.1.op, Finset.univ.filter fun d => placeAt cfg (dbAfter log) d ∈ c.1.written,
      card_placeAt _ (hvalid c c.2).nodup (hvalid c c.2).mem_places⟩
  have hmap : (log.attach.map txn).map Txn.op = log.map Commit.op := by
    rw [List.map_map]
    exact List.attach_map_val (f := Commit.op)
  refine ⟨log.attach.map txn, by rw [hmap]; exact hnodup, fun d => ?_⟩
  rw [get_getAllDocuments, dbAfter_eq, replay_eq, List.filter_map, List.map_map]
  refine Eq.trans (map_filter_attach log _ _).symm (congrArg _ (List.filter_congr fun c _ => ?_))
  simp [txn]

/-! ## The writes of a thread -/

/-- The commits of one transaction number. -/
def commitsOf (log : List Commit) (tid txnNum : ℕ) : List Commit :=
  log.filter fun c => c.tid = tid ∧ c.txnNum = txnNum

theorem hasMetadata_dbAfter (tid : ℕ) (p : Place) : HasMetadata tid (dbAfter log p) := by
  intro i op hop _
  have hlt := (List.getElem?_eq_some_iff.mp hop).1
  rw [dbAfter_eq] at hlt ⊢
  simpa using hlt

theorem writesIn_dbAfter (tid : ℕ) (p : Place) : writesIn tid (dbAfter log p) =
    (log.filter fun c => c.tid = tid ∧ p ∈ c.written).map fun c => (c.txnNum, infoOf p) := by
  rw [writesIn, dbAfter_eq, List.zip_map', List.filterMap_map, List.filterMap_filter]
  conv_rhs => rw [← List.filterMap_eq_map, List.filterMap_filter]
  refine List.filterMap_congr fun c _ => ?_
  by_cases hp : p ∈ c.written
  · by_cases htid : c.tid = tid
    · simp [hp, htid, Commit.op, docInfo, infoOf]
    · simp [hp, htid, Commit.op]
  · simp [hp]

/-- **The documents have the writes of each transaction**, in their own order. -/
theorem serverWrites_perm (hvalid : ∀ c ∈ log, c.Valid cfg) (tid n : ℕ) :
    (serverWrites tid n (cfg.getAllDocuments (dbAfter log))).Perm
      ((commitsOf log tid n).flatMap fun c => c.written.map infoOf) := by
  have hserver : serverWrites tid n (cfg.getAllDocuments (dbAfter log)) =
      cfg.places.flatMap fun p => ((commitsOf log tid n).filter (p ∈ ·.written)).map fun _ => infoOf p := by
    unfold serverWrites Config.getAllDocuments
    rw [List.flatMap_map, List.filter_flatMap, List.map_flatMap]
    refine List.flatMap_congr fun p _ => ?_
    rw [writesIn_dbAfter, List.filter_map, List.map_map, commitsOf, List.filter_filter, List.filter_filter]
    refine congrArg _ (List.filter_congr fun c _ => Bool.eq_iff_iff.mpr ?_)
    simp only [Function.comp, Bool.and_eq_true, decide_eq_true_eq]
    tauto
  have hone : ∀ c ∈ log, (cfg.places.filter (· ∈ c.written)).Perm c.written := fun c hc =>
    (List.perm_ext_iff_of_nodup ((nodup_places cfg).filter _) (hvalid c hc).nodup).mpr fun p => by
      simpa using (hvalid c hc).mem_places p
  have hmem : ∀ c ∈ commitsOf log tid n, c ∈ log := fun c hc => List.mem_of_mem_filter hc
  rw [hserver]
  generalize commitsOf log tid n = commits at hmem
  induction commits with
  | nil => simp
  | cons c commits ih =>
    obtain ⟨hc, hrest⟩ := List.forall_mem_cons.mp hmem
    have hsplit : (cfg.places.flatMap fun p => ((c :: commits).filter (p ∈ ·.written)).map
        fun _ => infoOf p) = cfg.places.flatMap fun p =>
          (if p ∈ c.written then [infoOf p] else []) ++
            (commits.filter (p ∈ ·.written)).map fun _ => infoOf p := by
      refine List.flatMap_congr fun p _ => ?_
      by_cases hp : p ∈ c.written
      · simp [hp]
      · simp [hp]
    have hfirst : (cfg.places.flatMap fun p => if p ∈ c.written then [infoOf p] else []) =
        (cfg.places.filter (· ∈ c.written)).map infoOf := by
      rw [← List.filterMap_eq_map, List.filterMap_filter, List.filterMap_eq_flatMap_toList]
      refine List.flatMap_congr fun p _ => ?_
      by_cases hp : p ∈ c.written
      · simp [hp]
      · simp [hp]
    rw [hsplit, List.flatMap_cons]
    refine (List.flatMap_append_perm _ _ _).symm.trans ?_
    rw [hfirst]
    exact ((hone c hc).map infoOf).append (ih hrest)

/-! ## The invariant -/

variable (cfg log) in
/-- An attempt of a thread: what it has written is locked, and follows the current version. -/
structure AttemptInv (locks : Place → Option ℕ) (tid : ℕ) (t : Thread) (docIds : List ℕ)
    (a : Attempt) : Prop where
  ids : a.written.map Prod.snd = docIds.take a.written.length
  collections : ∀ p ∈ a.written, p.1 ∈ cfg.collections
  locked : ∀ p, locks p = some tid ↔ p ∈ a.written
  view : ∀ p ∈ a.written,
    a.view p = pushed ⟨tid, t.iteration, docIds.length⟩ a.txnNumber p (dbAfter log p)
  number : a.txnNumber < t.txnNumber
  fresh : ∀ c ∈ log, c.tid = tid → c.txnNum < a.txnNumber

variable (cfg log) in
def PhaseInv (locks : Place → Option ℕ) (tid : ℕ) (t : Thread) : Prop :=
  match t.phase with
  | .idle => ∀ p, locks p ≠ some tid
  | .updating docIds attempt => (docIds.Nodup ∧ ∀ id ∈ docIds, id < cfg.numDocs) ∧
    match attempt with
    | none => ∀ p, locks p ≠ some tid
    | some a => AttemptInv cfg log locks tid t docIds a

variable (cfg log) in
structure ThreadInv (locks : Place → Option ℕ) (tid : ℕ) (t : Thread) : Prop where
  own : ∀ c ∈ log, c.tid = tid → c.iteration < t.iteration ∧ c.txnNum < t.txnNumber
  seen_le : t.seen ≤ log.length
  seen : ∀ c ∈ log.drop t.seen, c.tid ≠ tid
  history : ∀ n, (t.updatedDocsClientHistory.get n).getD [] =
    (commitsOf log tid n).flatMap fun c => c.written.map infoOf
  phase : PhaseInv cfg log locks tid t

variable (cfg) in
/-- The versions are what the commits leave, and the threads know of their own. -/
structure Inv (log : List Commit) (s : State) : Prop where
  latest : s.latest = log.length
  versions : ∀ k ≤ log.length, s.versions k = dbAfter (log.take k)
  valid : ∀ c ∈ log, c.Valid cfg
  nodup : (log.map Commit.op).Nodup
  threads : ∀ tid, ThreadInv cfg log s.locks tid (s.threads tid)

theorem inv_initial : Inv cfg [] initial where
  latest := rfl
  versions k _ := by
    rw [List.take_nil]
    rfl
  valid _ h := nomatch h
  nodup := List.nodup_nil
  threads tid :=
    { own := fun _ h => nomatch h
      seen_le := Nat.zero_le _
      seen := fun _ h => nomatch h
      history := fun _ => rfl
      phase := fun _ h => nomatch h }

variable {s s' : State} {locks locks' : Place → Option ℕ} {tid tid' : ℕ} {t t' : Thread} {a : Attempt}
  {docIds : List ℕ} {db : Db}

theorem Inv.current (h : Inv cfg log s) : s.current = dbAfter log := by
  rw [State.current, h.latest, h.versions _ le_rfl, List.take_length]

/-- The other threads only notice their own locks. -/
theorem ThreadInv.congr (h : ThreadInv cfg log locks tid t)
    (hlocks : ∀ p, locks' p = some tid ↔ locks p = some tid) : ThreadInv cfg log locks' tid t := by
  refine { h with phase := ?_ }
  have hphase := h.phase
  unfold PhaseInv at hphase ⊢
  split at hphase
  · exact fun p hp => hphase p ((hlocks p).mp hp)
  · refine ⟨hphase.1, ?_⟩
    obtain ⟨-, hphase⟩ := hphase
    split at hphase
    · exact fun p hp => hphase p ((hlocks p).mp hp)
    · exact { hphase with locked := fun p => (hlocks p).trans (hphase.locked p) }

/-- A step of one thread that commits nothing. -/
theorem Inv.set (h : Inv cfg log s) (hversions : s'.versions = s.versions) (hlatest : s'.latest = s.latest)
    (hthreads : s'.threads = Function.update s.threads tid t)
    (hlocks : ∀ tid' ≠ tid, ∀ p, s'.locks p = some tid' ↔ s.locks p = some tid')
    (ht : ThreadInv cfg log s'.locks tid t) : Inv cfg log s' where
  latest := hlatest.trans h.latest
  versions := hversions ▸ h.versions
  valid := h.valid
  nodup := h.nodup
  threads tid' := by
    rw [hthreads]
    by_cases heq : tid' = tid
    · subst heq
      rwa [Function.update_self]
    · rw [Function.update_of_ne heq]
      exact (h.threads tid').congr (hlocks tid' heq)

theorem release_locks {p : Place} : (s.release tid).locks p = some tid' ↔
    s.locks p = some tid' ∧ tid' ≠ tid := by
  show (if s.locks p = some tid then none else s.locks p) = _ ↔ _
  split_ifs with h
  · rw [h]
    exact iff_of_false (fun h => nomatch h) fun ⟨heq, hne⟩ => hne (Option.some.inj heq).symm
  · refine ⟨fun h' => ⟨h', ?_⟩, And.left⟩
    rintro rfl
    exact h h'

section Phases

variable (h : ThreadInv cfg log locks tid t)
include h

theorem ThreadInv.not_locked (hphase : t.phase = .idle) (p : Place) : locks p ≠ some tid := by
  have hinv := h.phase
  unfold PhaseInv at hinv
  rw [hphase] at hinv
  exact hinv p

theorem ThreadInv.between (hphase : t.phase = .updating docIds none) :
    (docIds.Nodup ∧ ∀ id ∈ docIds, id < cfg.numDocs) ∧ ∀ p, locks p ≠ some tid := by
  have hinv := h.phase
  unfold PhaseInv at hinv
  rw [hphase] at hinv
  exact hinv

theorem ThreadInv.attempt (hphase : t.phase = .updating docIds (some a)) :
    (docIds.Nodup ∧ ∀ id ∈ docIds, id < cfg.numDocs) ∧ AttemptInv cfg log locks tid t docIds a := by
  have hinv := h.phase
  unfold PhaseInv at hinv
  rw [hphase] at hinv
  exact hinv

/-- The thread goes on without a commit. -/
theorem ThreadInv.next (hown : t'.iteration = t.iteration) (hnumber : t.txnNumber ≤ t'.txnNumber)
    (hhistory : t'.updatedDocsClientHistory = t.updatedDocsClientHistory) (hseen : t'.seen = t.seen)
    (hphase : PhaseInv cfg log locks' tid t') : ThreadInv cfg log locks' tid t' where
  own c hc htid := ⟨hown ▸ (h.own c hc htid).1, ((h.own c hc htid).2).trans_le hnumber⟩
  seen_le := hseen ▸ h.seen_le
  seen := hseen ▸ h.seen
  history := hhistory ▸ h.history
  phase := hphase

end Phases

/-! ## What a step keeps -/

section Steps

variable (h : Inv cfg log s)
include h

theorem Inv.start (hphase : (s.threads tid).phase = .idle) (hnodup : docIds.Nodup)
    (hlt : ∀ id ∈ docIds, id < cfg.numDocs) :
    Inv cfg log (s.set tid ((s.threads tid).updating docIds none)) := by
  have ht := h.threads tid
  exact h.set rfl rfl rfl (fun _ _ _ => Iff.rfl)
    (ht.next rfl le_rfl rfl rfl ⟨⟨hnodup, hlt⟩, ht.not_locked hphase⟩)

theorem Inv.readTxn (hphase : (s.threads tid).phase = .idle) :
    Inv cfg log (s.set tid (s.threads tid).nextTxn) := by
  have ht := h.threads tid
  refine h.set rfl rfl rfl (fun _ _ _ => Iff.rfl) (ht.next rfl (Nat.le_succ _) rfl rfl ?_)
  unfold PhaseInv
  rw [show (s.threads tid).nextTxn.phase = .idle from hphase]
  exact ht.not_locked hphase

theorem Inv.beginTxn {version : ℕ} (hphase : (s.threads tid).phase = .updating docIds none) :
    Inv cfg log (s.set tid ((s.threads tid).nextTxn.updating docIds
      (some ⟨(s.threads tid).txnNumber, s.versions version, []⟩))) := by
  have ht := h.threads tid
  obtain ⟨hdocs, hlocks⟩ := ht.between hphase
  refine h.set rfl rfl rfl (fun _ _ _ => Iff.rfl) (ht.next rfl (Nat.le_succ _) rfl rfl ⟨hdocs, ?_⟩)
  exact
    { ids := rfl
      collections := fun _ hp => nomatch hp
      locked := fun p => iff_of_false (hlocks p) List.not_mem_nil
      view := fun _ hp => nomatch hp
      number := Nat.lt_succ_self _
      fresh := fun c hc htid => (ht.own c hc htid).2 }

theorem Inv.abort (hphase : (s.threads tid).phase = .updating docIds (some a)) :
    Inv cfg log ((s.release tid).set tid ((s.threads tid).updating docIds none)) := by
  have ht := h.threads tid
  refine h.set rfl rfl rfl (fun tid' hne p => release_locks.trans (and_iff_left hne))
    (ht.next rfl le_rfl rfl rfl ⟨(ht.attempt hphase).1, fun p hp => ?_⟩)
  exact (release_locks.mp hp).2 rfl

theorem Inv.write {p : Place} (hphase : (s.threads tid).phase = .updating docIds (some a))
    (hnext : docIds[a.written.length]? = some p.2) (hcollection : p.1 ∈ cfg.collections)
    (hlock : s.locks p = none) (hview : s.current p = a.view p) :
    Inv cfg log ((s.lock tid p).set tid ((s.threads tid).updating docIds
      (some (a.write ⟨tid, (s.threads tid).iteration, docIds.length⟩ p)))) := by
  have ht := h.threads tid
  obtain ⟨hdocs, ha⟩ := ht.attempt hphase
  have hlocks : ∀ q, (s.lock tid p).locks q = if q = p then some tid else s.locks q := fun q =>
    Function.update_apply _ _ _ _
  refine h.set rfl rfl rfl (fun tid' hne q => ?_) (ht.next rfl le_rfl rfl rfl ⟨hdocs, ?_⟩)
  · show (s.lock tid p).locks q = _ ↔ _
    rw [hlocks]
    split_ifs with hq
    · subst hq
      rw [hlock]
      exact iff_of_false (fun heq => hne (Option.some.inj heq).symm) fun heq => nomatch heq
    · rfl
  · exact
      { ids := by
          show (a.written ++ [p]).map Prod.snd = docIds.take (a.written ++ [p]).length
          rw [List.map_append, ha.ids, List.length_append, List.length_singleton, List.take_add_one,
            hnext]
          rfl
        collections := fun q hq => by
          rcases List.mem_append.mp hq with hq | hq
          · exact ha.collections q hq
          · rwa [List.mem_singleton.mp hq]
        locked := fun q => by
          show (s.lock tid p).locks q = _ ↔ q ∈ a.written ++ [p]
          rw [hlocks, List.mem_append, List.mem_singleton]
          split_ifs with hq
          · exact iff_of_true rfl (.inr hq)
          · rw [ha.locked, or_iff_left hq]
        view := fun q hq => by
          show Function.update a.view p _ q = _
          by_cases hqp : q = p
          · rw [hqp, Function.update_self, ← hview, h.current]
            rfl
          · rw [Function.update_of_ne hqp]
            exact ha.view q ((List.mem_append.mp hq).resolve_right fun h => hqp (List.mem_singleton.mp h))
        number := ha.number
        fresh := ha.fresh }

end Steps

theorem AttemptInv.nodup (ha : AttemptInv cfg log locks tid t docIds a) (hdocs : docIds.Nodup) :
    a.written.Nodup :=
  .of_map Prod.snd (ha.ids ▸ hdocs.sublist (List.take_sublist _ _))

theorem AttemptInv.mem_places (ha : AttemptInv cfg log locks tid t docIds a)
    (hdocs : ∀ id ∈ docIds, id < cfg.numDocs) {p : Place} (hp : p ∈ a.written) : p ∈ cfg.places := by
  refine AtomicityIsolation.mem_places.mpr ⟨ha.collections p hp, hdocs _ ?_⟩
  have hid : p.2 ∈ a.written.map Prod.snd := List.mem_map_of_mem hp
  rw [ha.ids] at hid
  exact List.mem_of_mem_take hid

theorem commitsOf_concat (c : Commit) (n : ℕ) : commitsOf (log ++ [c]) tid n =
    commitsOf log tid n ++ if c.tid = tid ∧ c.txnNum = n then [c] else [] := by
  rw [commitsOf, List.filter_append, List.filter_singleton, ← commitsOf]
  by_cases hc : c.tid = tid ∧ c.txnNum = n
  · rw [if_pos hc, decide_eq_true hc, cond_true]
  · rw [if_neg hc, decide_eq_false hc, cond_false]

/-- A commit of another thread. -/
theorem ThreadInv.other_commit (h : ThreadInv cfg log locks tid t) {c : Commit} (hne : c.tid ≠ tid)
    (hfree : ∀ p ∈ c.written, locks p ≠ some tid) : ThreadInv cfg (log ++ [c]) locks tid t where
  own c' hc' htid := by
    rcases List.mem_append.mp hc' with hc' | hc'
    · exact h.own c' hc' htid
    · rw [List.mem_singleton.mp hc'] at htid
      exact absurd htid hne
  seen_le := by
    rw [List.length_append]
    exact h.seen_le.trans (Nat.le_add_right _ _)
  seen c' hc' := by
    rw [List.drop_append_of_le_length h.seen_le] at hc'
    rcases List.mem_append.mp hc' with hc' | hc'
    · exact h.seen c' hc'
    · rwa [List.mem_singleton.mp hc']
  history n := by
    rw [h.history, commitsOf_concat, if_neg fun hc => hne hc.1, List.append_nil]
  phase := by
    have hphase := h.phase
    unfold PhaseInv at hphase ⊢
    split at hphase
    · exact hphase
    · refine ⟨hphase.1, ?_⟩
      obtain ⟨-, hphase⟩ := hphase
      split at hphase
      · exact hphase
      · exact
          { hphase with
            view := fun p hp => by
              rw [dbAfter_concat, Commit.apply, if_neg fun hc => hfree p hc ((hphase.locked p).mpr hp)]
              exact hphase.view p hp
            fresh := fun c' hc' htid => by
              rcases List.mem_append.mp hc' with hc' | hc'
              · exact hphase.fresh c' hc' htid
              · rw [List.mem_singleton.mp hc'] at htid
                exact absurd htid hne }

/-- The thread that has made the commit. -/
theorem ThreadInv.own_commit (h : ThreadInv cfg log locks tid t)
    (ha : AttemptInv cfg log locks tid t docIds a) (hlocks : ∀ p, locks' p ≠ some tid) :
    ThreadInv cfg (log ++ [⟨tid, t.iteration, a.txnNumber, a.written⟩]) locks' tid
      (t.committed a (log.length + 1)) where
  own c hc htid := by
    rcases List.mem_append.mp hc with hc | hc
    · exact ⟨(h.own c hc htid).1.trans (Nat.lt_succ_self _), (h.own c hc htid).2⟩
    · rw [List.mem_singleton.mp hc]
      exact ⟨Nat.lt_succ_self _, ha.number⟩
  seen_le := by
    rw [List.length_append]
    rfl
  seen c hc := by
    rw [List.drop_eq_nil_of_le (by rw [List.length_append]; rfl)] at hc
    cases hc
  history n := by
    show ((t.updatedDocsClientHistory.set a.txnNumber (a.written.map infoOf)).get n).getD [] = _
    rw [Sparse.get_set, commitsOf_concat]
    split_ifs with hn hc hc
    · have hnone : commitsOf log tid n = [] := List.filter_eq_nil_iff.mpr fun c hc heq => by
        have hnumber : c.tid = tid ∧ c.txnNum = n := by simpa using heq
        have hlt := ha.fresh c hc hnumber.1
        omega
      rw [hnone]
      simp
    · exact absurd ⟨rfl, hn.symm⟩ hc
    · exact absurd hc.2.symm hn
    · rw [h.history, List.append_nil]
  phase := hlocks

theorem Inv.commit (h : Inv cfg log s) (hphase : (s.threads tid).phase = .updating docIds (some a))
    (hlength : a.written.length = docIds.length) :
    Inv cfg (log ++ [⟨tid, (s.threads tid).iteration, a.txnNumber, a.written⟩])
      (((s.install a).release tid).set tid ((s.threads tid).committed a (s.latest + 1))) := by
  have ht := h.threads tid
  obtain ⟨hdocs, ha⟩ := ht.attempt hphase
  refine ⟨?_, fun k hk => ?_, fun c hc => ?_, ?_, fun tid' => ?_⟩
  · rw [List.length_append, ← h.latest]
    rfl
  · show Function.update s.versions (s.latest + 1) _ k = _
    rw [List.length_append, List.length_singleton, ← h.latest] at hk
    have hlatest := h.latest
    by_cases hlast : k = s.latest + 1
    · rw [hlast, Function.update_self, List.take_of_length_le (by simp [hlatest]), dbAfter_concat]
      funext p
      rw [Commit.apply, h.current]
      split_ifs with hp
      · rw [ha.view p hp, Commit.op, hlength]
      · rfl
    · rw [Function.update_of_ne hlast, List.take_append_of_le_length (by omega)]
      exact h.versions k (by omega)
  · rcases List.mem_append.mp hc with hc | hc
    · exact h.valid c hc
    · rw [List.mem_singleton.mp hc]
      exact ⟨ha.nodup hdocs.1, fun p => ha.mem_places hdocs.2⟩
  · rw [List.map_append, List.map_singleton]
    refine h.nodup.append (List.nodup_singleton _) (List.disjoint_singleton.mpr fun hmem => ?_)
    obtain ⟨c, hc, heq⟩ := List.mem_map.mp hmem
    have htid : c.tid = tid := congrArg Op.tid heq
    have hiteration : c.iteration = (s.threads tid).iteration := congrArg Op.iteration heq
    have hlt := (ht.own c hc htid).1
    omega
  · show ThreadInv cfg _ ((s.install a).release tid).locks tid' (Function.update s.threads tid _ tid')
    have hrelease : ∀ tid' p, ((s.install a).release tid).locks p = some tid' ↔
        s.locks p = some tid' ∧ tid' ≠ tid := fun _ _ => release_locks
    by_cases heq : tid' = tid
    · subst heq
      rw [Function.update_self, h.latest]
      exact ht.own_commit ha fun p hp => ((hrelease _ p).mp hp).2 rfl
    · rw [Function.update_of_ne heq]
      refine ((h.threads tid').other_commit (Ne.symm heq) fun p hp hlock => ?_).congr fun p =>
        (hrelease tid' p).trans (and_iff_left heq)
      exact heq (Option.some.inj (hlock.symm.trans ((ha.locked p).mpr hp)))

theorem Inv.step (h : Inv cfg log s) {label : ℕ × Action} (hs : step cfg s label = some s') :
    ∃ log', Inv cfg log' s' := by
  cases step_cases hs with
  | start docIds hphase hnodup hlt => exact ⟨log, h.start hphase hnodup hlt⟩
  | beginTxn docIds version hphase hseen hversion => exact ⟨log, h.beginTxn hphase⟩
  | write docIds a p hphase hnext hcollection hlock hview =>
    exact ⟨log, h.write hphase hnext hcollection hlock hview⟩
  | abort docIds a hphase => exact ⟨log, h.abort hphase⟩
  | commit docIds a hphase hlength => exact ⟨_, h.commit hphase hlength⟩
  | readTxn hphase => exact ⟨log, h.readTxn hphase⟩

/-- **Every version is what some commits leave**, one after the other. -/
theorem inv_of_reach (h : Reach (AtomicityIsolation.step cfg) Free (· = initial) s) :
    ∃ log, Inv cfg log s := by
  refine Reach.inv (I := fun s => ∃ log, Inv cfg log s) ?_ (fun _ _ _ ⟨_, hinv⟩ _ hs => hinv.step hs) h
  rintro _ rfl
  exact ⟨[], inv_initial⟩

/-! ## The check -/

theorem commitsOf_take (h : ThreadInv cfg log locks tid t) {k : ℕ} (hk : t.seen ≤ k) (n : ℕ) :
    commitsOf (log.take k) tid n = commitsOf log tid n := by
  conv_rhs => rw [← List.take_append_drop k log]
  have hrest : commitsOf (log.drop k) tid n = [] := List.filter_eq_nil_iff.mpr fun c hc heq => ?_
  · rw [commitsOf, commitsOf, List.filter_append, ← commitsOf, ← commitsOf, hrest, List.append_nil]
  have hdrop : c ∈ log.drop t.seen := (List.drop_sublist_drop_left log hk).subset hc
  exact h.seen c hdrop (by simpa using heq : c.tid = tid ∧ c.txnNum = n).1

/-- **No false alarms**: in every run, each thread finds each version consistent that has the thread's
own transactions. -/
theorem checkConsistency_of_reach (h : Reach (AtomicityIsolation.step cfg) Free (· = initial) s)
    (tid : ℕ) {k : ℕ} (hseen : (s.threads tid).seen ≤ k) (hk : k ≤ s.latest) (extra : ℕ) :
    checkConsistency cfg true tid (s.threads tid) (s.versions k)
      (enough (cfg.getAllDocuments (s.versions k)) + extra) = some (.ok ()) := by
  obtain ⟨log, hinv⟩ := inv_of_reach h
  have ht := hinv.threads tid
  rw [hinv.versions k (hinv.latest ▸ hk)]
  have hvalid : ∀ c ∈ log.take k, c.Valid cfg := fun c hc => hinv.valid c (List.mem_of_mem_take hc)
  have hnodup : ((log.take k).map Commit.op).Nodup :=
    hinv.nodup.sublist ((List.take_sublist k log).map _)
  obtain ⟨history, hexplains⟩ := exists_explains_dbAfter hvalid hnodup
  have hlength : (cfg.getAllDocuments (dbAfter (log.take k))).length =
      cfg.numDocs * cfg.collections.length := (List.length_map _).trans (length_places cfg)
  have hwrites : checkWritesOfCommittedTxns tid (s.threads tid).updatedDocsClientHistory
      (cfg.getAllDocuments (dbAfter (log.take k))) = .ok () := by
    refine checkWritesOfCommittedTxns_eq_ok (fun doc hdoc => ?_) fun n => ?_
    · obtain ⟨p, -, rfl⟩ := List.mem_map.mp hdoc
      exact hasMetadata_dbAfter tid p
    · rw [ht.history, ← commitsOf_take ht hseen]
      exact (serverWrites_perm hvalid tid n).map _
  unfold checkConsistency
  dsimp only
  rw [hexplains.checkDocuments, hwrites, if_neg (by simp [hlength])]
  rfl

/-! ## A sample -/

def sampleConfig : Config := ⟨[("test", "c")], 2, List.nodup_singleton _⟩

/-- The second thread has to give up its first attempt. -/
def sampleActions : List (ℕ × Action) :=
  let c := ("test", "c")
  [(0, .start [0, 1]), (0, .beginTxn 0), (0, .write c), (1, .start [1, 0]), (1, .beginTxn 0), (1, .write c),
    (1, .abort), (0, .write c), (0, .commit), (1, .beginTxn 1), (1, .write c), (1, .write c), (1, .commit)]

theorem isSome_sampleRun : (run (step sampleConfig) Free initial sampleActions).isSome = true := by
  decide +kernel

def sampleState : State := (run (step sampleConfig) Free initial sampleActions).get isSome_sampleRun

theorem checkConsistency_of_reach_sample :
    checkConsistency sampleConfig true 1 (sampleState.threads 1) (sampleState.versions 2)
      (enough (sampleConfig.getAllDocuments (sampleState.versions 2)) + 0) = some (.ok ()) :=
  checkConsistency_of_reach
    (Reach.of_run (.start rfl) sampleActions (Option.some_get isSome_sampleRun).symm) 1
    (show (sampleState.threads 1).seen ≤ 2 by decide +kernel)
    (show 2 ≤ sampleState.latest by decide +kernel) 0

end MongoTests.Fsm.AtomicityIsolation
