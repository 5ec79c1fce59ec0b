import MongoTests.Hooks.DbHashBackground

/-!
# The parts of the dbHash check

* `Env.Listed`, `exists_listDatabases_iff`: the databases.
* `reset_eq`: the fail points that are turned off.
* `mismatchesIn`: the result of an attempt, for the hashes that it gets.
* `Attempt.Works`, `outcome_eq_ok`: an attempt gives a result if its parts work.
* `Handled`: the errors of the attempts before the last one are handled.
* **`retry_spec`**: the loop over the attempts.
-/

namespace MongoTests.Hooks.DbHashBackground

open MongoTests.Lib

/-! ## The databases and the fail points -/

section Setup

variable {Time : Type} {env : Env Time} {dbName : String} {dbNames : List String}

/-- A data-bearing node has the database, and it is one of those that are compared. -/
def Env.Listed (env : Env Time) (dbName : String) : Prop :=
  dbName ∉ ["admin", "config", "local"] ∧
    ∃ node ∈ env.sessions, ∃ names, node.listDatabases = .ok names ∧ dbName ∈ names

theorem listDatabases_eq_ok (h : listDatabases env = .ok dbNames) :
    dbNames.Nodup ∧ ∀ dbName, dbName ∈ dbNames ↔ env.Listed dbName := by
  obtain ⟨names, hnames, heq⟩ := bind_eq_ok.mp h
  cases heq
  refine ⟨(nodup_firsts _).filter _, fun dbName => ?_⟩
  have hmem : ∀ l, l ∈ names ↔ ∃ node ∈ env.sessions, node.listDatabases = .ok l := by
    intro l
    have hok : l ∈ names ↔ Except.ok l ∈ names.map (Except.ok (ε := Err)) := by simp
    rw [hok, ← mapM_eq_ok.mp hnames, List.mem_map]
  rw [List.mem_filter, mem_firsts, List.mem_flatten, decide_eq_true_iff, and_comm, Env.Listed]
  refine and_congr_right fun _ => ?_
  constructor
  · rintro ⟨l, hl, hdb⟩
    obtain ⟨node, hnode, heq⟩ := (hmem l).mp hl
    exact ⟨node, hnode, l, heq, hdb⟩
  · rintro ⟨node, hnode, l, heq, hdb⟩
    exact ⟨l, (hmem l).mpr ⟨node, hnode, heq⟩, hdb⟩

theorem exists_listDatabases_iff :
    (∃ dbNames, listDatabases env = .ok dbNames) ↔ ∀ node ∈ env.sessions, ∃ names, node.listDatabases = .ok names := by
  constructor
  · rintro ⟨dbNames, h⟩ node hnode
    obtain ⟨names, hnames, -⟩ := bind_eq_ok.mp h
    have hmem : node.listDatabases ∈ names.map .ok := by
      rw [← mapM_eq_ok.mp hnames]
      exact List.mem_map_of_mem hnode
    obtain ⟨l, -, heq⟩ := List.mem_map.mp hmem
    exact ⟨l, heq.symm⟩
  · intro hall
    obtain ⟨names, hnames⟩ := exists_mapM_eq_ok hall
    exact ⟨_, bind_eq_ok.mpr ⟨names, hnames, rfl⟩⟩

theorem reset_eq (s : State Time) :
    reset s = { s with failPoints := s.failPoints.filter fun host => host ∉ s.resetFns } := by
  have hfold : ∀ (l : List String) (t : State Time),
      l.foldl resetFn t = { t with failPoints := t.failPoints.filter fun host => host ∉ l } := by
    intro l
    induction l with
    | nil => simp
    | cons host l ih =>
      intro t
      rw [List.foldl_cons, ih, resetFn]
      simp only [List.filter_filter, List.mem_cons, not_or, Bool.decide_and, Bool.and_comm]
  exact hfold s.resetFns s

end Setup

/-! ## What an attempt finds -/

namespace Response

/-- A collection with this UUID and this hash is on the node. -/
def HasHash (response : Response) (uuid hash : String) : Prop :=
  ∃ collName, (collName, hash) ∈ response.collections.items ∧ (collName, uuid) ∈ response.uuids.items

/-- The collection is on both nodes, with different hashes. -/
def Differs (response response' : Response) (uuid : String) : Prop :=
  ∃ hash hash', response.HasHash uuid hash ∧ response'.HasHash uuid hash' ∧ hash ≠ hash'

variable {response : Response} {host uuid : String}

theorem collName_unique {collName collName' : String} (h : (collName, uuid) ∈ response.uuids.items)
    (h' : (collName', uuid) ∈ response.uuids.items) : collName = collName' :=
  congrArg Prod.fst (List.inj_on_of_nodup_map response.nodup h h' rfl)

theorem items_hashesByUUID : (hashesByUUID host response).items =
    response.collections.items.filterMap fun coll =>
      (response.uuids.get coll.1).map fun uuid => (uuid, ⟨host, coll.2, coll.1, uuid⟩) := by
  refine Dict.items_setAll (d := Dict.empty) ?_
  have hkeys : ∀ items : List (String × String), (items.filterMap fun coll => (response.uuids.get coll.1).map
      fun uuid => (uuid, (⟨host, coll.2, coll.1, uuid⟩ : Info))).map Prod.fst =
        (items.map Prod.fst).filterMap response.uuids.get := by
    intro items
    rw [List.map_filterMap, List.filterMap_map]
    refine List.filterMap_congr fun coll _ => ?_
    rw [Option.map_map]
    exact Option.map_id'
  show ((List.filterMap _ _).map Prod.fst).Nodup
  rw [hkeys]
  refine response.collections.nodup.filterMap fun collName collName' uuid h h' => ?_
  exact collName_unique (Dict.mem_items.mpr h) (Dict.mem_items.mpr h')

theorem get_hashesByUUID {info : Info} : (hashesByUUID host response).get uuid = some info ↔
    info.host = host ∧ info.uuid = uuid ∧ (info.collName, info.hash) ∈ response.collections.items ∧
      (info.collName, uuid) ∈ response.uuids.items := by
  rw [← Dict.mem_items, items_hashesByUUID, List.mem_filterMap]
  constructor
  · rintro ⟨coll, hcoll, h⟩
    obtain ⟨uuid', huuid, heq⟩ := Option.map_eq_some_iff.mp h
    cases heq
    exact ⟨rfl, rfl, hcoll, Dict.mem_items.mpr huuid⟩
  · rintro ⟨rfl, rfl, hcoll, huuid⟩
    refine ⟨(info.collName, info.hash), hcoll, ?_⟩
    rw [Dict.mem_items.mp huuid]
    rfl

end Response

section Found

variable {Time : Type}

/-- The result for one collection. -/
def mismatches (dbName : String) (primaryInfos secondaryInfos : Dict String Info) (uuid : String) :
    List (MismatchInfo Time) :=
  match primaryInfos.get uuid, secondaryInfos.get uuid with
  | some primaryInfo, some secondaryInfo =>
    if primaryInfo.hash ≠ secondaryInfo.hash then [⟨primaryInfo, secondaryInfo, dbName, none⟩] else []
  | _, _ => []

/-- The result for one secondary. -/
def mismatchesOn (dbName : String) (primaryInfos secondaryInfos : Dict String Info) : List (MismatchInfo Time) :=
  (firsts (primaryInfos.keys ++ secondaryInfos.keys)).flatMap (mismatches dbName primaryInfos secondaryInfos)

variable {dbName uuid : String} {primaryInfos secondaryInfos : Dict String Info} {a : Attempt Time}
  {primary secondary : Node} {secondaries : List Node} {m : MismatchInfo Time}

theorem mem_mismatches : m ∈ mismatches dbName primaryInfos secondaryInfos uuid ↔
    primaryInfos.get uuid = some m.primary ∧ secondaryInfos.get uuid = some m.secondary ∧
      m.primary.hash ≠ m.secondary.hash ∧ m.dbName = dbName ∧ m.atClusterTime = none := by
  obtain ⟨primaryInfo, secondaryInfo, name, time⟩ := m
  unfold mismatches
  cases primaryInfos.get uuid with
  | none => simp
  | some info =>
    cases secondaryInfos.get uuid with
    | none => simp
    | some info' =>
      dsimp only
      split_ifs with h
      · simp only [List.mem_singleton, MismatchInfo.mk.injEq, Option.some.injEq]
        constructor
        · rintro ⟨rfl, rfl, rfl, rfl⟩
          exact ⟨rfl, rfl, h, rfl, rfl⟩
        · rintro ⟨rfl, rfl, -, rfl, rfl⟩
          exact ⟨rfl, rfl, rfl, rfl⟩
      · refine iff_of_false List.not_mem_nil ?_
        rintro ⟨hp, hs, hne, -⟩
        cases hp
        cases hs
        exact h hne

/-- There is at most one result. -/
theorem nodup_map_mismatches {κ : Type} (key : MismatchInfo Time → κ) :
    ((mismatches dbName primaryInfos secondaryInfos uuid).map key).Nodup := by
  unfold mismatches
  cases primaryInfos.get uuid with
  | none => exact List.nodup_nil
  | some primaryInfo =>
    cases secondaryInfos.get uuid with
    | none => exact List.nodup_nil
    | some secondaryInfo =>
      dsimp only
      split_ifs
      · exact List.nodup_singleton _
      · exact List.nodup_nil

theorem mem_uuids_of_mem_mismatches (h : m ∈ mismatches dbName primaryInfos secondaryInfos uuid) :
    uuid ∈ firsts (primaryInfos.keys ++ secondaryInfos.keys) :=
  mem_firsts.mpr (List.mem_append_left _ (Dict.mem_keys.mpr ⟨_, (mem_mismatches.mp h).1⟩))

theorem compareCollection_eq_ok {result : List (MismatchInfo Time)} :
    compareCollection dbName a primaryInfos secondaryInfos secondary uuid = .ok result ↔
      (∀ m ∈ (mismatches dbName primaryInfos secondaryInfos uuid : List (MismatchInfo Time)),
        a.diff secondary.host uuid = none) ∧ result = mismatches dbName primaryInfos secondaryInfos uuid := by
  unfold compareCollection mismatches
  cases primaryInfos.get uuid with
  | none => simp [eq_comm]
  | some primaryInfo =>
    cases secondaryInfos.get uuid with
    | none => simp [eq_comm]
    | some secondaryInfo =>
      dsimp only
      split_ifs
      · cases a.diff secondary.host uuid with
        | none => simp [raising, Except.map, eq_comm]
        | some err => simp [raising, Except.map]
      · simp [eq_comm]

theorem compareSecondary_eq_ok {result : List (MismatchInfo Time)} :
    compareSecondary dbName a primaryInfos secondaryInfos secondary = .ok result ↔
      (∀ uuid, ∀ m ∈ (mismatches dbName primaryInfos secondaryInfos uuid : List (MismatchInfo Time)),
        a.diff secondary.host uuid = none) ∧ result = mismatchesOn dbName primaryInfos secondaryInfos := by
  rw [compareSecondary, map_eq_ok, mismatchesOn, List.flatMap_def]
  constructor
  · rintro ⟨results, hresults, rfl⟩
    obtain ⟨hdiff, rfl⟩ := (mapM_eq_ok_iff fun uuid _ _ => compareCollection_eq_ok).mp hresults
    exact ⟨fun uuid m hm => hdiff uuid (mem_uuids_of_mem_mismatches hm) m hm, rfl⟩
  · rintro ⟨hdiff, rfl⟩
    exact ⟨_, (mapM_eq_ok_iff fun uuid _ _ => compareCollection_eq_ok).mpr ⟨fun uuid _ => hdiff uuid, rfl⟩, rfl⟩

/-- There is a result for the collections that differ. -/
theorem exists_mem_mismatches {host host' : String} {response response' : Response} :
    (∃ m : MismatchInfo Time,
      m ∈ mismatches dbName (hashesByUUID host response) (hashesByUUID host' response') uuid) ↔
        response.Differs response' uuid := by
  constructor
  · rintro ⟨m, hm⟩
    obtain ⟨hp, hs, hne, -⟩ := mem_mismatches.mp hm
    obtain ⟨-, -, hhash, huuid⟩ := Response.get_hashesByUUID.mp hp
    obtain ⟨-, -, hhash', huuid'⟩ := Response.get_hashesByUUID.mp hs
    exact ⟨_, _, ⟨_, hhash, huuid⟩, ⟨_, hhash', huuid'⟩, hne⟩
  · rintro ⟨hash, hash', ⟨collName, hhash, huuid⟩, ⟨collName', hhash', huuid'⟩, hne⟩
    exact ⟨⟨⟨host, hash, collName, uuid⟩, ⟨host', hash', collName', uuid⟩, dbName, none⟩, mem_mismatches.mpr
      ⟨Response.get_hashesByUUID.mpr ⟨rfl, rfl, hhash, huuid⟩,
        Response.get_hashesByUUID.mpr ⟨rfl, rfl, hhash', huuid'⟩, hne, rfl, rfl⟩⟩

/-- The result of an attempt that gets these hashes. -/
def mismatchesIn (primary : Node) (secondaries : List Node) (dbName : String) (hashes : String → Response) :
    List (MismatchInfo Time) :=
  secondaries.flatMap fun secondary => mismatchesOn dbName (hashesByUUID primary.host (hashes primary.host))
    (hashesByUUID secondary.host (hashes secondary.host))

/-- The waits, the hashes and the diffs work. -/
structure Attempt.Works (primary : Node) (secondaries : List Node) (a : Attempt Time)
    (hashes : String → Response) : Prop where
  wait : ∀ secondary ∈ secondaries, a.wait secondary.host = none
  hashes_eq : a.hashes = .ok hashes
  diff : ∀ secondary ∈ secondaries, ∀ uuid,
    (hashes primary.host).Differs (hashes secondary.host) uuid → a.diff secondary.host uuid = none

theorem checkCollectionHashesForDB_eq_ok {result : List (MismatchInfo Time)} :
    checkCollectionHashesForDB primary secondaries dbName a = .ok result ↔ ∃ hashes, a.hashes = .ok hashes ∧
      (∀ secondary ∈ secondaries, ∀ uuid,
        (hashes primary.host).Differs (hashes secondary.host) uuid → a.diff secondary.host uuid = none) ∧
      result = mismatchesIn primary secondaries dbName hashes := by
  rw [checkCollectionHashesForDB, bind_eq_ok]
  refine exists_congr fun hashes => and_congr_right fun _ => ?_
  rw [bind_eq_ok, mismatchesIn, List.flatMap_def]
  constructor
  · rintro ⟨results, hresults, heq⟩
    cases heq
    obtain ⟨hdiff, rfl⟩ := (mapM_eq_ok_iff fun secondary _ _ => compareSecondary_eq_ok).mp hresults
    refine ⟨fun secondary hsecondary uuid hdiffers => ?_, rfl⟩
    obtain ⟨m, hm⟩ := exists_mem_mismatches.mpr hdiffers
    exact hdiff secondary hsecondary uuid m hm
  · rintro ⟨hdiff, rfl⟩
    refine ⟨_, (mapM_eq_ok_iff fun secondary _ _ => compareSecondary_eq_ok).mpr ⟨?_, rfl⟩, rfl⟩
    exact fun secondary hsecondary uuid m hm =>
      hdiff secondary hsecondary uuid (exists_mem_mismatches.mp ⟨m, hm⟩)

theorem raising_eq_ok {err : Option Err} {u : Unit} : raising err = .ok u ↔ err = none := by
  cases err with
  | none => exact iff_of_true rfl rfl
  | some err => exact iff_of_false (fun h => by cases h) fun h => by cases h

theorem waitForSecondaries_eq_ok {u : Unit} :
    waitForSecondaries secondaries a = .ok u ↔ ∀ secondary ∈ secondaries, a.wait secondary.host = none := by
  rw [waitForSecondaries]
  induction secondaries with
  | nil => exact iff_of_true rfl fun _ h => absurd h List.not_mem_nil
  | cons secondary secondaries ih =>
    show (raising (a.wait secondary.host) >>= fun _ => secondaries.forM fun node => raising (a.wait node.host)) =
      .ok u ↔ _
    rw [bind_eq_ok, List.forall_mem_cons, ← ih]
    exact ⟨fun ⟨_, h, hrest⟩ => ⟨raising_eq_ok.mp h, hrest⟩, fun h => ⟨(), raising_eq_ok.mpr h.1, h.2⟩⟩

/-- **An attempt**: it gives a result if its parts work. -/
theorem outcome_eq_ok {result : List (MismatchInfo Time)} :
    outcome primary secondaries dbName a = .ok result ↔
      ∃ hashes, a.Works primary secondaries hashes ∧ result = mismatchesIn primary secondaries dbName hashes := by
  rw [outcome, bind_eq_ok]
  constructor
  · rintro ⟨_, hwait, hcheck⟩
    obtain ⟨hashes, hhashes, hdiff, rfl⟩ := checkCollectionHashesForDB_eq_ok.mp hcheck
    exact ⟨hashes, ⟨waitForSecondaries_eq_ok.mp hwait, hhashes, hdiff⟩, rfl⟩
  · rintro ⟨hashes, hworks, rfl⟩
    exact ⟨(), waitForSecondaries_eq_ok.mpr hworks.wait,
      checkCollectionHashesForDB_eq_ok.mpr ⟨hashes, hworks.hashes_eq, hworks.diff, rfl⟩⟩

end Found

/-! ## The rounds of the loop -/

section Rounds

variable {Time : Type} [LinearOrder Time] {env : Env Time} {dbName : String} {a : Attempt Time}
  {rest : List (Attempt Time)} {previous : Option Time} {s : State Time} {err : Err}

/-- The request of an attempt, if it gets that far. -/
def requests (env : Env Time) (dbName : String) (a : Attempt Time) : List (HashRequest Time) :=
  match waitForSecondaries env.secondaries a with
  | .ok _ => [⟨dbName, env.sessions.map Node.host, clusterTime env.primary env.secondaries a⟩]
  | .error _ => []

def State.addRequests (s : State Time) (l : List (HashRequest Time)) : State Time :=
  { s with hashRequests := s.hashRequests ++ l }

theorem tryAttempt_eq : tryAttempt env dbName a s =
    Prog.ofExcept (outcome env.primary env.secondaries dbName a) (s.addRequests (requests env dbName a)) := by
  unfold tryAttempt outcome requests
  cases waitForSecondaries env.secondaries a with
  | error err =>
    show (Outcome.error err, s) = (Outcome.error err, s.addRequests [])
    rw [State.addRequests, List.append_nil]
  | ok u => rfl

theorem tryAttempt_ok {result : List (MismatchInfo Time)}
    (h : outcome env.primary env.secondaries dbName a = .ok result) :
    tryAttempt env dbName a s = (.ok result, s.addRequests (requests env dbName a)) := by
  rw [tryAttempt_eq, h]
  rfl

theorem tryAttempt_error (h : outcome env.primary env.secondaries dbName a = .error err) :
    tryAttempt env dbName a s = (.error err, s.addRequests (requests env dbName a)) := by
  rw [tryAttempt_eq, h]
  rfl

theorem round_ok {result : List (MismatchInfo Time)}
    (h : outcome env.primary env.secondaries dbName a = .ok result) :
    round env dbName previous a s = (.ok (some result), s.addRequests (requests env dbName a)) := by
  have htry : (tryAttempt env dbName a >>= fun result => pure (some result)) s =
      (.ok (some result), s.addRequests (requests env dbName a)) :=
    Prog.bind_eq_of_ok (tryAttempt_ok h)
  rw [round, Prog.tryCatch, htry]

theorem round_error (h : outcome env.primary env.secondaries dbName a = .error err) :
    round env dbName previous a s =
      (Prog.ofExcept (handleError env previous a err) >>= fun _ => pure none)
        (s.addRequests (requests env dbName a)) := by
  have htry : (tryAttempt env dbName a >>= fun result => pure (some result)) s =
      (.error err, s.addRequests (requests env dbName a)) :=
    Prog.bind_eq_of_error (tryAttempt_error h)
  rw [round, Prog.tryCatch, htry]

/-- The last round. -/
theorem retry_last {result : List (MismatchInfo Time)}
    (h : outcome env.primary env.secondaries dbName a = .ok result) :
    retry env dbName previous (a :: rest) s =
      (.ok (), pushResult result (clusterTime env.primary env.secondaries a)
        (s.addRequests (requests env dbName a))) :=
  Prog.bind_eq_of_ok (round_ok h)

/-- A round that goes on with the next attempt. -/
theorem retry_transient (h : outcome env.primary env.secondaries dbName a = .error err)
    (hhandle : handleError env previous a err = .ok ()) :
    retry env dbName previous (a :: rest) s =
      retry env dbName (some (clusterTime env.primary env.secondaries a)) rest
        (s.addRequests (requests env dbName a)) := by
  have hround : round env dbName previous a s = (.ok none, s.addRequests (requests env dbName a)) := by
    rw [round_error h, hhandle]
    rfl
  exact Prog.bind_eq_of_ok hround

/-- A round that raises. -/
theorem retry_error {err' : Err} (h : outcome env.primary env.secondaries dbName a = .error err)
    (hhandle : handleError env previous a err = .error err') :
    retry env dbName previous (a :: rest) s = (.error err', s.addRequests (requests env dbName a)) := by
  have hround : round env dbName previous a s = (.error err', s.addRequests (requests env dbName a)) := by
    rw [round_error h, hhandle]
    rfl
  exact Prog.bind_eq_of_error hround

/-- Other errors are raised again. -/
theorem handleError_of_not_transient (h : isTransient err = false) :
    handleError env previous a err = .error err := by
  have hne : err ≠ .snapshotUnavailable := by
    rintro rfl
    cases h
  rw [handleError, if_neg hne]
  show (if isTransient err then _ else _) = _
  rw [if_neg (by rw [h]; exact Bool.false_ne_true)]

/-- The errors of these attempts are handled. -/
def Handled (env : Env Time) (dbName : String) : Option Time → List (Attempt Time) → Prop
  | _, [] => True
  | previous, a :: rest =>
    (∀ err, outcome env.primary env.secondaries dbName a = .error err → handleError env previous a err = .ok ()) ∧
      Handled env dbName (some (clusterTime env.primary env.secondaries a)) rest

/-- All but the last attempt are handled, and the last one gives a result. -/
def Settled (env : Env Time) (dbName : String) : Prop :=
  Handled env dbName none (env.attempts dbName).retried ∧
    ∃ hashes, (env.attempts dbName).last.Works env.primary env.secondaries hashes

omit [LinearOrder Time] in
theorem State.addRequests_append (l l' : List (HashRequest Time)) :
    (s.addRequests l).addRequests l' = s.addRequests (l ++ l') := by
  rw [State.addRequests, State.addRequests, State.addRequests, List.append_assoc]

/-- The loop over the attempts. -/
theorem retry_spec {retried : List (Attempt Time)} {last : Attempt Time}
    (htransient : ∀ a ∈ retried, ∃ err,
      outcome env.primary env.secondaries dbName a = .error err ∧ isTransient err)
    (hends : ∀ err, outcome env.primary env.secondaries dbName last = .error err → isTransient err = false) :
    Prog.wp (retry env dbName previous (retried ++ [last]))
      (fun _ t => Handled env dbName previous retried ∧ ∃ hashes, last.Works env.primary env.secondaries hashes ∧
        t = pushResult (mismatchesIn env.primary env.secondaries dbName hashes)
          (clusterTime env.primary env.secondaries last)
          (s.addRequests ((retried ++ [last]).flatMap (requests env dbName))))
      (fun _ t => ¬ (Handled env dbName previous retried ∧
        ∃ hashes, last.Works env.primary env.secondaries hashes) ∧ ∃ l, t = s.addRequests l)
      (fun _ => False) s := by
  induction retried generalizing previous s with
  | nil =>
    rw [List.nil_append]
    cases hlast : outcome env.primary env.secondaries dbName last with
    | ok result =>
      obtain ⟨hashes, hworks, rfl⟩ := outcome_eq_ok.mp hlast
      refine (Prog.wp_of_eq (retry_last hlast)).mpr ⟨trivial, hashes, hworks, ?_⟩
      rw [List.flatMap_singleton]
    | error err =>
      have hraise : handleError env previous last err = .error err :=
        handleError_of_not_transient (hends err hlast)
      refine (Prog.wp_of_eq (retry_error hlast hraise)).mpr ⟨?_, _, rfl⟩
      rintro ⟨-, hashes, hworks⟩
      cases hlast.symm.trans (outcome_eq_ok.mpr ⟨hashes, hworks, rfl⟩)
  | cons a retried ih =>
    obtain ⟨⟨err, herr, -⟩, hrest⟩ := List.forall_mem_cons.mp htransient
    have hhandled : Handled env dbName previous (a :: retried) ↔ handleError env previous a err = .ok () ∧
        Handled env dbName (some (clusterTime env.primary env.secondaries a)) retried := by
      refine and_congr_left fun _ => ⟨fun h => h err herr, fun h err' herr' => ?_⟩
      cases herr.symm.trans herr'
      exact h
    rw [List.cons_append, hhandled]
    cases hhandle : handleError env previous a err with
    | error err' =>
      refine (Prog.wp_of_eq (retry_error herr hhandle)).mpr ⟨?_, _, rfl⟩
      rintro ⟨⟨h, -⟩, -⟩
      cases h
    | ok u =>
      rw [Prog.wp, retry_transient herr hhandle]
      refine Prog.wp.mono (ih hrest) (fun _ t ht => ?_) (fun _ t ht => ?_) fun _ ht => ht
      · obtain ⟨hrest, hashes, hworks, rfl⟩ := ht
        refine ⟨⟨rfl, hrest⟩, hashes, hworks, ?_⟩
        rw [State.addRequests_append, List.flatMap_cons]
      · obtain ⟨hnot, l, rfl⟩ := ht
        exact ⟨fun h => hnot ⟨h.1.2, h.2⟩, _, State.addRequests_append _ _⟩

theorem checkDb_spec : Prog.wp (checkDb env dbName)
    (fun _ t => ∃ hashes, (env.attempts dbName).last.Works env.primary env.secondaries hashes ∧
      t = pushResult (mismatchesIn env.primary env.secondaries dbName hashes)
        (clusterTime env.primary env.secondaries (env.attempts dbName).last)
        (s.addRequests ((env.attempts dbName).all.flatMap (requests env dbName))))
    (fun _ _ => True) (fun _ => False) s :=
  Prog.wp.mono (retry_spec (env.attempts dbName).transient (env.attempts dbName).ends) (fun _ _ ht => ht.2)
    (fun _ _ _ => trivial) fun _ ht => ht

end Rounds

end MongoTests.Hooks.DbHashBackground
