import Mathlib.Data.Nat.Basic
import MongoTests.Hooks.DbHashAttempt

/-!
# The verdict of the dbHash check

* `Env.Mismatch`: a collection with different hashes in the last attempt for its database.
* `Correct`: what the verdict, the mismatch list and the requests say.
* **`verdict_correct`**: they do in every run that returns.
-/

namespace MongoTests.Hooks.DbHashBackground

open MongoTests.Lib

structure MismatchKey where
  dbName : String
  secondary : String
  uuid : String
  deriving DecidableEq

section Verdict

variable {Time : Type}

/-- What an element of the mismatch list names. -/
def MismatchInfo.key (m : MismatchInfo Time) : MismatchKey := ⟨m.dbName, m.secondary.host, m.secondary.uuid⟩

/-! ## Keys -/

/-- Distinct keys, where a part of the key tells from which element they come. -/
theorem nodup_map_flatMap {α β κ τ : Type} {f : α → List β} {key : β → κ} {l : List α} (tag : κ → τ) (tag' : α → τ)
    (hl : (l.map tag').Nodup) (hf : ∀ a ∈ l, ((f a).map key).Nodup)
    (htag : ∀ a ∈ l, ∀ b ∈ f a, tag (key b) = tag' a) : ((l.flatMap f).map key).Nodup := by
  rw [List.map_flatMap, List.nodup_flatMap]
  refine ⟨hf, (List.pairwise_map.mp hl).imp_of_mem fun {a a'} ha ha' hne => ?_⟩
  intro k hk hk'
  obtain ⟨b, hb, rfl⟩ := List.mem_map.mp hk
  obtain ⟨b', hb', heq⟩ := List.mem_map.mp hk'
  exact hne (by rw [← htag a ha b hb, ← htag a' ha' b' hb', heq])

variable {dbName uuid : String} {primaryInfos : Dict String Info} {response : Response} {primary secondary : Node}
  {secondaries : List Node} {hashes : String → Response} {m : MismatchInfo Time} {k : MismatchKey}

theorem key_of_mem_mismatches
    (h : m ∈ mismatches dbName primaryInfos (hashesByUUID secondary.host response) uuid) :
    m.key = ⟨dbName, secondary.host, uuid⟩ := by
  obtain ⟨-, hinfo, -, rfl, -⟩ := mem_mismatches.mp h
  obtain ⟨hhost, huuid, -⟩ := Response.get_hashesByUUID.mp hinfo
  rw [MismatchInfo.key, hhost, huuid]

/-- What an element of the result of an attempt says. -/
theorem mem_mismatchesIn (h : m ∈ mismatchesIn primary secondaries dbName hashes) :
    ∃ secondary ∈ secondaries, ∃ uuid,
      m ∈ mismatches dbName (hashesByUUID primary.host (hashes primary.host))
        (hashesByUUID secondary.host (hashes secondary.host)) uuid := by
  obtain ⟨secondary, hsecondary, hon⟩ := List.mem_flatMap.mp h
  obtain ⟨uuid, -, hm⟩ := List.mem_flatMap.mp hon
  exact ⟨secondary, hsecondary, uuid, hm⟩

theorem mem_key_mismatchesIn :
    k ∈ (mismatchesIn primary secondaries dbName hashes : List (MismatchInfo Time)).map MismatchInfo.key ↔
      k.dbName = dbName ∧ ∃ secondary ∈ secondaries, secondary.host = k.secondary ∧
        (hashes primary.host).Differs (hashes secondary.host) k.uuid := by
  rw [List.mem_map]
  constructor
  · rintro ⟨m, hm, rfl⟩
    obtain ⟨secondary, hsecondary, uuid, hm⟩ := mem_mismatchesIn hm
    rw [key_of_mem_mismatches hm]
    exact ⟨rfl, secondary, hsecondary, rfl, exists_mem_mismatches.mp ⟨m, hm⟩⟩
  · rintro ⟨rfl, secondary, hsecondary, hhost, hdiffers⟩
    obtain ⟨m, hm⟩ := exists_mem_mismatches.mpr hdiffers
    refine ⟨m, List.mem_flatMap.mpr ⟨secondary, hsecondary, List.mem_flatMap.mpr
      ⟨k.uuid, mem_uuids_of_mem_mismatches hm, hm⟩⟩, ?_⟩
    rw [key_of_mem_mismatches hm, hhost]

/-- An attempt names a collection of a secondary once. -/
theorem nodup_key_mismatchesIn (h : (secondaries.map Node.host).Nodup) :
    ((mismatchesIn primary secondaries dbName hashes : List (MismatchInfo Time)).map MismatchInfo.key).Nodup := by
  refine nodup_map_flatMap MismatchKey.secondary Node.host h (fun secondary _ => ?_) fun secondary _ m hm => ?_
  · refine nodup_map_flatMap MismatchKey.uuid id ?_ (fun uuid _ => nodup_map_mismatches _) fun uuid _ m hm => ?_
    · rw [List.map_id]
      exact nodup_firsts _
    · rw [key_of_mem_mismatches hm, id]
  · obtain ⟨uuid, -, hm⟩ := List.mem_flatMap.mp hm
    rw [key_of_mem_mismatches hm]

/-! ## The mismatch list -/

variable {env : Env Time} [LinearOrder Time]

/-- The elements of the list for a database. -/
def resultOf (env : Env Time) (dbName : String) : List (MismatchInfo Time) :=
  match (env.attempts dbName).last.hashes with
  | .ok hashes => (mismatchesIn env.primary env.secondaries dbName hashes).map
    (MismatchInfo.setAtClusterTime (clusterTime env.primary env.secondaries (env.attempts dbName).last))
  | .error _ => []

theorem map_key_resultOf (h : (env.attempts dbName).last.hashes = .ok hashes) :
    (resultOf env dbName).map MismatchInfo.key =
      (mismatchesIn env.primary env.secondaries dbName hashes : List (MismatchInfo Time)).map MismatchInfo.key := by
  rw [resultOf, h, List.map_map]
  rfl

/-- In the last attempt for the database, the collection has different hashes on the primary and the secondary. -/
def Env.Differs (env : Env Time) (k : MismatchKey) : Prop :=
  ∃ secondary ∈ env.secondaries, secondary.host = k.secondary ∧
    ∃ hashes, (env.attempts k.dbName).last.hashes = .ok hashes ∧
      (hashes env.primary.host).Differs (hashes secondary.host) k.uuid

theorem mem_key_resultOf :
    k ∈ (resultOf env dbName).map MismatchInfo.key ↔ k.dbName = dbName ∧ env.Differs k := by
  cases hhashes : (env.attempts dbName).last.hashes with
  | error err =>
    rw [resultOf, hhashes]
    refine iff_of_false List.not_mem_nil ?_
    rintro ⟨rfl, _, _, _, hashes, heq, -⟩
    cases hhashes.symm.trans heq
  | ok hashes =>
    rw [map_key_resultOf hhashes, mem_key_mismatchesIn, Env.Differs]
    refine and_congr_right ?_
    rintro rfl
    refine exists_congr fun secondary => and_congr_right fun _ => and_congr_right fun _ => ?_
    constructor
    · exact fun hdiffers => ⟨hashes, hhashes, hdiffers⟩
    · rintro ⟨hashes', heq, hdiffers⟩
      cases hhashes.symm.trans heq
      exact hdiffers

theorem nodup_key_resultOf : ((resultOf env dbName).map MismatchInfo.key).Nodup := by
  cases hhashes : (env.attempts dbName).last.hashes with
  | error err =>
    rw [resultOf, hhashes]
    exact List.nodup_nil
  | ok hashes =>
    rw [map_key_resultOf hhashes]
    exact nodup_key_mismatchesIn ((List.nodup_cons.mp env.nodup).2.sublist (List.filter_sublist.map _))

/-- A run that checks these databases. -/
structure Checks (env : Env Time) (dbNames : List String) (s : State Time) : Prop where
  results : s.results = dbNames.flatMap (resultOf env)
  hashRequests : s.hashRequests = dbNames.flatMap fun dbName =>
    (env.attempts dbName).all.flatMap (requests env dbName)

/-- One more database. -/
theorem Checks.checkDb {dbNames : List String} {s : State Time} (h : Checks env dbNames s) :
    Prog.wp (checkDb env dbName) (fun _ t => Checks env (dbNames ++ [dbName]) t) (fun _ _ => True) (fun _ => False)
      s := by
  refine Prog.wp.imp checkDb_spec fun _ t ht => ?_
  obtain ⟨hashes, hworks, rfl⟩ := ht
  constructor
  · rw [List.flatMap_append, List.flatMap_singleton, ← h.results, resultOf, hworks.hashes_eq]
    rfl
  · rw [List.flatMap_append, List.flatMap_singleton, ← h.hashRequests]
    rfl

theorem checkDatabases_checks : Prog.wp (checkDatabases env)
    (fun _ t => ∃ dbNames, listDatabases env = .ok dbNames ∧ Checks env dbNames t) (fun _ _ => True)
    (fun _ => False) (start Time) := by
  have hstart : Checks env [] (start Time) := ⟨rfl, rfl⟩
  unfold checkDatabases
  refine Prog.wp_bind.mpr (Prog.wp.imp (Prog.wp_forM (I := fun _ t => Checks env [] t) hstart
    fun _ node t ht => ?_) fun _ t ht => ?_)
  · refine Prog.wp_bind.mpr ((Prog.wp_ofExcept _).mpr ⟨fun _ _ => ?_, fun _ _ => trivial⟩)
    exact ⟨ht.results, ht.hashRequests⟩
  refine Prog.wp_bind.mpr ((Prog.wp_ofExcept _).mpr ⟨fun dbNames hdbNames => ?_, fun _ _ => trivial⟩)
  refine Prog.wp_bind.mpr (Prog.wp.imp (Prog.wp_forM (I := fun _ t => Checks env [] t) ht
    fun _ node t ht => ?_) fun _ t ht => ?_)
  · exact (Prog.wp_ofExcept _).mpr ⟨fun _ _ => ht, fun _ _ => trivial⟩
  exact Prog.wp.imp (Prog.wp_forM ht fun done dbName t ht => ht.checkDb) fun _ t ht => ⟨dbNames, hdbNames, ht⟩

/-! ## The read time -/

/-- The fold passes over no operation time. -/
theorem le_foldl_operationTime {a : Attempt Time} {time : Time} (l : List Node) :
    time ≤ l.foldl (fun clusterTime node =>
        if clusterTime < a.operationTime node.host then a.operationTime node.host else clusterTime) time ∧
      ∀ node ∈ l, a.operationTime node.host ≤ l.foldl (fun clusterTime node =>
        if clusterTime < a.operationTime node.host then a.operationTime node.host else clusterTime) time := by
  induction l generalizing time with
  | nil => exact ⟨le_rfl, fun _ h => absurd h List.not_mem_nil⟩
  | cons node l ih =>
    rw [List.foldl_cons, List.forall_mem_cons]
    split_ifs with hlt
    · exact ⟨le_trans (le_of_lt hlt) ih.1, ih.1, ih.2⟩
    · exact ⟨ih.1, le_trans (not_lt.mp hlt) ih.1, ih.2⟩

theorem operationTime_le_clusterTime {a : Attempt Time} :
    ∀ node ∈ env.sessions, a.operationTime node.host ≤ clusterTime env.primary env.secondaries a := by
  rw [Env.sessions, List.forall_mem_cons]
  exact le_foldl_operationTime env.secondaries

/-- All nodes are hashed at one time that is not before the operation time of any session. -/
structure HashRequest.Covers (env : Env Time) (a : Attempt Time) (request : HashRequest Time) : Prop where
  hosts : request.hosts = env.sessions.map Node.host
  operationTime_le : ∀ node ∈ env.sessions, a.operationTime node.host ≤ request.readAtClusterTime

theorem covers_of_mem_requests {a : Attempt Time} {request : HashRequest Time}
    (h : request ∈ requests env dbName a) : request.Covers env a := by
  unfold requests at h
  cases hwait : waitForSecondaries env.secondaries a with
  | error err =>
    rw [hwait] at h
    cases h
  | ok u =>
    rw [hwait] at h
    rw [List.mem_singleton.mp h]
    exact ⟨rfl, operationTime_le_clusterTime⟩

/-! ## The verdict -/

/-- The databases that a run checks. -/
def Env.Checked (env : Env Time) (dbName : String) : Prop := env.supportsSnapshotReadConcern ∧ env.Listed dbName

def Env.Mismatch (env : Env Time) (k : MismatchKey) : Prop := env.Checked k.dbName ∧ env.Differs k

/-- What a run that returns has found, and the requests that it has made. -/
structure Correct (env : Env Time) (verdict : Verdict) (s : State Time) : Prop where
  ok_iff : verdict.ok = 0 ↔ ∃ k, env.Mismatch k
  ok_or : verdict.ok = 0 ∨ verdict.ok = 1
  headings : verdict.headings = s.results.map heading
  nodup : (s.results.map MismatchInfo.key).Nodup
  mem : ∀ k, k ∈ s.results.map MismatchInfo.key ↔ env.Mismatch k
  requests : ∃ dbNames : List String, dbNames.Nodup ∧ (∀ dbName, dbName ∈ dbNames ↔ env.Checked dbName) ∧
    s.hashRequests = dbNames.flatMap fun dbName => (env.attempts dbName).all.flatMap (requests env dbName)
  covers : ∀ dbName, ∀ a ∈ (env.attempts dbName).all, ∀ request ∈ DbHashBackground.requests env dbName a,
    request.Covers env a

section Checks

variable {dbNames : List String} {s : State Time}

theorem Checks.mem_key (h : Checks env dbNames s) (hmem : ∀ dbName, dbName ∈ dbNames ↔ env.Checked dbName) :
    k ∈ s.results.map MismatchInfo.key ↔ env.Mismatch k := by
  rw [h.results, List.map_flatMap, List.mem_flatMap, Env.Mismatch]
  constructor
  · rintro ⟨dbName, hdbName, hk⟩
    obtain ⟨rfl, hdiffers⟩ := mem_key_resultOf.mp hk
    exact ⟨(hmem k.dbName).mp hdbName, hdiffers⟩
  · rintro ⟨hchecked, hdiffers⟩
    exact ⟨k.dbName, (hmem k.dbName).mpr hchecked, mem_key_resultOf.mpr ⟨rfl, hdiffers⟩⟩

theorem Checks.nodup_key (h : Checks env dbNames s) (hnodup : dbNames.Nodup) :
    (s.results.map MismatchInfo.key).Nodup := by
  rw [h.results]
  refine nodup_map_flatMap MismatchKey.dbName id (by rw [List.map_id]; exact hnodup)
    (fun _ _ => nodup_key_resultOf) fun dbName _ m hm => ?_
  exact (mem_key_resultOf.mp (List.mem_map_of_mem hm)).1

theorem Checks.results_ne_nil_iff (h : Checks env dbNames s)
    (hmem : ∀ dbName, dbName ∈ dbNames ↔ env.Checked dbName) : s.results ≠ [] ↔ ∃ k, env.Mismatch k := by
  constructor
  · intro hne
    obtain ⟨m, hm⟩ := List.exists_mem_of_ne_nil _ hne
    exact ⟨m.key, (h.mem_key hmem).mp (List.mem_map_of_mem hm)⟩
  · rintro ⟨k, hk⟩
    obtain ⟨m, hm, -⟩ := List.mem_map.mp ((h.mem_key hmem).mpr hk)
    exact List.ne_nil_of_mem hm

/-- The verdict on the results of a run that checks the databases. -/
theorem Checks.correct (h : Checks env dbNames s) (hnodup : dbNames.Nodup)
    (hmem : ∀ dbName, dbName ∈ dbNames ↔ env.Checked dbName) :
    Correct env (if s.results = [] then ⟨1, []⟩ else ⟨0, s.results.map heading⟩) s where
  ok_iff := by
    rw [← h.results_ne_nil_iff hmem]
    by_cases hnil : s.results = []
    · rw [if_pos hnil]
      exact iff_of_false Nat.one_ne_zero (not_not.mpr hnil)
    · rw [if_neg hnil]
      exact iff_of_true rfl hnil
  ok_or := by
    split_ifs
    · exact .inr rfl
    · exact .inl rfl
  headings := by
    split_ifs with hnil
    · rw [hnil]
      rfl
    · rfl
  nodup := h.nodup_key hnodup
  mem _ := h.mem_key hmem
  requests := ⟨dbNames, hnodup, hmem, h.hashRequests⟩
  covers _ _ _ _ hrequest := covers_of_mem_requests hrequest

end Checks

omit [LinearOrder Time] in
theorem report_spec {s : State Time} : Prog.wp (report env)
    (fun verdict t => t = s ∧ verdict = if s.results = [] then ⟨1, []⟩ else ⟨0, s.results.map heading⟩)
    (fun _ t => t = s) (fun _ => False) s := by
  rw [report, Prog.wp_bind, Prog.wp_get]
  have hlength : 0 < (s.results.map heading).length ↔ ¬ s.results = [] := by
    rw [List.length_map, List.length_pos_iff]
  by_cases hnil : s.results = []
  · rw [if_neg (fun h => hlength.mp h hnil), if_pos hnil]
    exact ⟨rfl, rfl⟩
  · rw [if_pos (hlength.mpr hnil), if_neg hnil]
    refine Prog.wp_bind.mpr (Prog.wp.imp (Prog.wp_forM (I := fun _ t => t = s) rfl fun _ node t ht => ?_)
      fun _ t ht => ⟨ht, rfl⟩)
    exact (Prog.wp_ofExcept _).mpr ⟨fun _ _ => ht, fun _ _ => ht⟩

/-- **Is the verdict of a run that returns right?** -/
theorem verdict_correct {verdict : Verdict} {s : State Time}
    (h : checkReplDbhashBackgroundThread env (start Time) = (.ok verdict, s)) : Correct env verdict s := by
  refine Prog.wp.ok (Q := Correct env) (E := fun _ _ => True) (S := fun _ => False) ?_ h
  unfold checkReplDbhashBackgroundThread
  refine Prog.wp_bind.mpr ((Prog.wp_ofExcept _).mpr ⟨fun _ _ => ?_, fun _ _ => trivial⟩)
  by_cases hsupports : env.supportsSnapshotReadConcern
  · rw [if_neg (by rw [hsupports]; exact Bool.false_ne_true)]
    refine Prog.wp_bind.mpr ((Prog.wp_ofExcept _).mpr ⟨fun _ _ => ?_, fun _ _ => trivial⟩)
    refine Prog.wp_bind.mpr (Prog.wp.imp checkDatabases_checks fun _ t ht => ?_)
    obtain ⟨dbNames, hdbNames, hchecks⟩ := ht
    obtain ⟨hnodup, hmem⟩ := listDatabases_eq_ok hdbNames
    refine Prog.wp_bind.mpr ((Prog.wp_modify _).mpr ?_)
    refine Prog.wp.mono report_spec (fun verdict u hu => ?_) (fun _ _ _ => trivial) fun _ hu => hu
    obtain ⟨rfl, rfl⟩ := hu
    have hreset : Checks env dbNames (reset t) := by
      rw [reset_eq]
      exact ⟨hchecks.results, hchecks.hashRequests⟩
    refine hreset.correct hnodup fun dbName => ?_
    rw [hmem, Env.Checked, and_iff_right hsupports]
  · rw [if_pos (by simpa using hsupports)]
    have hchecks : Checks env [] (start Time) := ⟨rfl, rfl⟩
    refine hchecks.correct List.nodup_nil fun dbName => ?_
    exact iff_of_false List.not_mem_nil fun hchecked => hsupports hchecked.1

end Verdict

/-! ### Two nodes -/

/-- One collection, with this hash. -/
def responseWith (hash : String) : Response where
  collections := ⟨[("foo", hash)], List.nodup_singleton _⟩
  uuids := ⟨[("foo", "1")], List.nodup_singleton _⟩
  nodup := List.nodup_singleton _

def nodeAt (host : String) (configureFailPoint : Option Err) : Node :=
  ⟨host, false, configureFailPoint, .ok ["admin", "test"], none, none⟩

/-- The node `b` has another hash than the others. -/
def attemptWith (wait : Option Err) : Attempt ℕ where
  operationTime host := if host = "b" then 7 else 5
  wait _ := wait
  hashes := .ok fun host => responseWith (if host = "b" then "h" else "g")
  diff _ _ := none
  appendOplogNote := none

theorem outcome_attemptWith {primary : Node} {secondaries : List Node} {dbName : String} :
    ∃ result, outcome primary secondaries dbName (attemptWith none) = .ok result :=
  ⟨_, outcome_eq_ok.mpr ⟨_, ⟨fun _ _ => rfl, rfl, fun _ _ _ _ => rfl⟩, rfl⟩⟩

/-- The first attempt is interrupted. -/
def interruptedOnce (configureFailPoint : Option Err) : Env ℕ where
  construct := none
  supportsSnapshotReadConcern := true
  startSessions := none
  primary := nodeAt "a" none
  getSecondaries := [nodeAt "b" configureFailPoint]
  nodup := by simp [nodeAt]
  bsonBinaryEqual time previous := .ok (previous = some time)
  attempts _ := {
    retried := [attemptWith (some .interrupted)]
    last := attemptWith none
    transient := fun a ha => ⟨.interrupted, by rw [List.mem_singleton.mp ha]; rfl, rfl⟩
    ends := by
      intro err h
      obtain ⟨result, hok⟩ := outcome_attemptWith
      cases h.symm.trans hok }

/-- The mismatch of the second attempt is found. -/
theorem interruptedOnce_correct : Correct (interruptedOnce none) ⟨0, ["dbhash mismatch for test.foo"]⟩
    (checkReplDbhashBackgroundThread (interruptedOnce none) (start ℕ)).2 :=
  verdict_correct (Prod.ext rfl rfl)

end MongoTests.Hooks.DbHashBackground
