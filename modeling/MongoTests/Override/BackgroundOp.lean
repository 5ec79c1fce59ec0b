import MongoTests.Lib.Loop

/-!
# Retrying while a background operation is in progress

`runCommandWithRetries` of `implicitly_retry_on_background_op_in_progress.js`: whether a failed
command is sent again, returned, or returned as a success because the shards have only sent errors
that come from running it more than once.

* `scanShards`, `decision`: the callback of `assert.soon`, for one response and attempt.
* `runCommandWithRetries`: the loop, for any sequence of responses.
* `scanShards_eq_nil_iff`, `scanShards_retry`: what the loop over the shards finds out.
* `Honest`: a failure is only reported as a success after a retry, and for a reason.
* **`honest_iff`**: this holds unless a response is hollow: the command has failed as a whole while no
  shard reports an error. `hollow_reported_as_success`: such a response to the first attempt.
-/

namespace MongoTests.Override.BackgroundOp

open MongoTests.Lib

/-! ## The override -/

inductive ErrorCode
  | namespaceNotFound
  | indexNotFound
  | backgroundOperationInProgressForDatabase
  | backgroundOperationInProgressForNamespace
  | other (code : ℕ)
  deriving DecidableEq, Repr

/-- The response of one shard; a missing `ok` is `0`. -/
structure ShardResponse where
  ok : ℕ
  code : Option ErrorCode
  deriving DecidableEq, Repr

/-- A response: `raw` has the responses of the shards, under their names, if mongos exposes them. -/
structure Response where
  ok : ℕ
  code : Option ErrorCode
  raw : Option (List (String × ShardResponse))
  deriving DecidableEq, Repr

def commandWhitelist : List String :=
  ["cloneCollectionAsCapped", "collMod", "compact", "convertToCapped", "createIndexes", "drop",
    "dropDatabase", "dropIndexes", "renameCollection"]

/-- `acceptableCommandErrors[commandName] || []` -/
def acceptableCommandErrors (commandName : String) : List ErrorCode :=
  if commandName = "drop" then [.namespaceNotFound]
  else if commandName = "dropIndexes" then [.indexNotFound]
  else if commandName = "renameCollection" then [.namespaceNotFound]
  else []

/-- `hasBackgroundOpInProgress`, on the code of a response. -/
def hasBackgroundOpInProgress (code : Option ErrorCode) : Bool :=
  code = some .backgroundOperationInProgressForDatabase

/-- `acceptableErrors.includes(shardRes.code)` -/
def isAcceptable (commandName : String) (code : Option ErrorCode) : Bool :=
  code.any fun c => c ∈ acceptableCommandErrors commandName

/-- The loop over the shards: `shardsWithBackgroundOps`, or `none` for `return kNoRetry`. -/
def scanShards (commandName : String) (attempt : ℕ) :
    List (String × ShardResponse) → Option (List String)
  | [] => some []
  | (shard, shardRes) :: raw =>
    if shardRes.ok ≠ 0 then scanShards commandName attempt raw
    else if hasBackgroundOpInProgress shardRes.code then
      (scanShards commandName attempt raw).map (shard :: ·)
    else if isAcceptable commandName shardRes.code = false then none
    else if attempt = 1 then none
    else scanShards commandName attempt raw

/-- How the callback ends: `return kNoRetry`, `return kRetry`, or `kNoRetry` after `res.ok = 1`. -/
inductive Decision
  | noRetry
  | retry
  | fakeSuccess
  deriving DecidableEq, Repr

/-- The end of the callback, on the responses of the shards. -/
def shardDecision (commandName : String) (attempt : ℕ) (raw : List (String × ShardResponse)) :
    Decision :=
  match scanShards commandName attempt raw with
  | none => .noRetry
  | some [] => .fakeSuccess
  | some (_ :: _) => .retry

/-- The callback. -/
def decision (isMongos : Bool) (commandName : String) (attempt : ℕ) (res : Response) : Decision :=
  if res.ok = 1 then .noRetry
  else if commandName ∉ commandWhitelist then .noRetry
  else if hasBackgroundOpInProgress res.code then .retry
  else
    match isMongos, res.raw with
    | true, some raw => shardDecision commandName attempt raw
    | _, _ => .noRetry

/-- One call of the callback: attempt number `k + 1` is answered by `responses k`. -/
def round (isMongos : Bool) (commandName : String) (responses : ℕ → Response) (k : ℕ) :
    ℕ × Option Response :=
  match decision isMongos commandName (k + 1) (responses k) with
  | .noRetry => (k, some (responses k))
  | .retry => (k + 1, none)
  | .fakeSuccess => (k, some { responses k with ok := 1 })

/-- `runCommandWithRetries`, as far as the fuel goes: the number of the last response and what is
returned. -/
def runCommandWithRetries (isMongos : Bool) (commandName : String) (responses : ℕ → Response)
    (fuel : ℕ) : Option (ℕ × Response) :=
  loop (round isMongos commandName responses) fuel 0

/-! ## Success and failure -/

section Honest

variable {isMongos : Bool} {commandName : String} {responses : ℕ → Response}

/-- An attempt met a background operation in progress: the response says so, or that of a shard. -/
def MetBackgroundOp (res : Response) : Prop :=
  hasBackgroundOpInProgress res.code = true ∨
    ∃ raw ∈ res.raw, ∃ p ∈ raw, p.2.ok = 0 ∧ hasBackgroundOpInProgress p.2.code = true

/-- A shard answered with an acceptable error. -/
def AcceptableError (commandName : String) (shardRes : ShardResponse) : Prop :=
  shardRes.ok = 0 ∧ isAcceptable commandName shardRes.code = true

/-- The shards that answered show that a failed command has been executed before. -/
def Executed (commandName : String) (res : Response) : Prop :=
  ∃ raw ∈ res.raw, (∃ p ∈ raw, AcceptableError commandName p.2) ∧
    ∀ p ∈ raw, p.2.ok ≠ 0 ∨ AcceptableError commandName p.2

/-- The call returns once an attempt is not retried. The last response is returned unchanged, or it is
a failure that is turned into a success after an attempt that met a background operation. -/
structure Honest (isMongos : Bool) (commandName : String) (responses : ℕ → Response) : Prop where
  returns : ∀ k, decision isMongos commandName (k + 1) (responses k) ≠ .retry →
    ∃ fuel k' res, runCommandWithRetries isMongos commandName responses fuel = some (k', res) ∧
      k' ≤ k
  reports : ∀ fuel k res,
    runCommandWithRetries isMongos commandName responses fuel = some (k, res) →
      res = responses k ∨
        res = { responses k with ok := 1 } ∧ (∃ j < k, MetBackgroundOp (responses j)) ∧
          Executed commandName (responses k)

/-- The command has failed as a whole, and no shard reports an error. -/
structure Hollow (isMongos : Bool) (commandName : String) (res : Response) : Prop where
  failed : res.ok ≠ 1
  whitelisted : commandName ∈ commandWhitelist
  noBackgroundOp : hasBackgroundOpInProgress res.code = false
  mongos : isMongos = true
  shards : ∃ raw ∈ res.raw, ∀ p ∈ raw, p.2.ok ≠ 0

end Honest

/-! ## One attempt -/

section Decision

variable {isMongos : Bool} {commandName : String} {attempt : ℕ} {res : Response}
  {raw : List (String × ShardResponse)}

/-- The loop over the shards ends with an empty list. -/
theorem scanShards_eq_nil_iff : scanShards commandName attempt raw = some [] ↔
    ∀ p ∈ raw, p.2.ok ≠ 0 ∨ hasBackgroundOpInProgress p.2.code = false ∧
      isAcceptable commandName p.2.code = true ∧ attempt ≠ 1 := by
  induction raw with
  | nil => simp [scanShards]
  | cons p raw ih =>
    rw [scanShards, List.forall_mem_cons]
    split_ifs with h1 h2 h3 h4
    · rw [ih, and_iff_right (.inl h1)]
    · simp [h1, h2]
    · simp [h1, h3]
    · simp [h1, h4]
    · rw [ih, and_iff_right (.inr ⟨by simpa using h2, by simpa using h3, h4⟩)]

/-- A shard in the list has a background operation. -/
theorem scanShards_eq_cons {shard : String} {shards : List String}
    (h : scanShards commandName attempt raw = some (shard :: shards)) :
    ∃ p ∈ raw, p.2.ok = 0 ∧ hasBackgroundOpInProgress p.2.code = true := by
  induction raw with
  | nil => cases h
  | cons p raw ih =>
    rw [scanShards] at h
    split_ifs at h with h1 h2 h3 h4
    · obtain ⟨q, hq, hbackground⟩ := ih h
      exact ⟨q, List.mem_cons_of_mem p hq, hbackground⟩
    · exact ⟨p, List.mem_cons_self, not_not.mp h1, h2⟩
    · obtain ⟨q, hq, hbackground⟩ := ih h
      exact ⟨q, List.mem_cons_of_mem p hq, hbackground⟩

theorem shardDecision_eq_fakeSuccess : shardDecision commandName attempt raw = .fakeSuccess ↔
    scanShards commandName attempt raw = some [] := by
  unfold shardDecision
  cases scanShards commandName attempt raw with
  | none => simp
  | some shards => cases shards <;> simp

theorem metBackgroundOp_of_shardDecision (h : shardDecision commandName attempt raw = .retry) :
    ∃ p ∈ raw, p.2.ok = 0 ∧ hasBackgroundOpInProgress p.2.code = true := by
  unfold shardDecision at h
  cases hscan : scanShards commandName attempt raw with
  | none => simp [hscan] at h
  | some shards =>
    cases shards with
    | nil => simp [hscan] at h
    | cons shard shards => exact scanShards_eq_cons hscan

/-- An attempt that is retried has met a background operation. -/
theorem metBackgroundOp_of_retry (h : decision isMongos commandName attempt res = .retry) :
    MetBackgroundOp res := by
  unfold decision at h
  split_ifs at h with h1 h2 h3
  · exact .inl h3
  · cases hraw : res.raw with
    | none => simp [hraw] at h
    | some raw =>
      cases isMongos with
      | false => simp at h
      | true =>
        rw [hraw] at h
        exact .inr ⟨raw, hraw, metBackgroundOp_of_shardDecision h⟩

/-- When a failure is turned into a success. -/
theorem decision_eq_fakeSuccess : decision isMongos commandName attempt res = .fakeSuccess ↔
    res.ok ≠ 1 ∧ commandName ∈ commandWhitelist ∧ hasBackgroundOpInProgress res.code = false ∧
      isMongos = true ∧ ∃ raw ∈ res.raw, scanShards commandName attempt raw = some [] := by
  unfold decision
  split_ifs with h1 h2 h3
  · simp [h1]
  · simp [h3]
  · rw [and_iff_right h1, and_iff_right h2, and_iff_right (by simpa using h3)]
    cases isMongos <;> cases res.raw <;> simp [shardDecision_eq_fakeSuccess]
  · simp [h2]

end Decision

/-! ## The loop -/

section Loop

variable {isMongos : Bool} {commandName : String} {responses : ℕ → Response}

theorem round_of_retry {k : ℕ}
    (h : decision isMongos commandName (k + 1) (responses k) = .retry) :
    round isMongos commandName responses k = (k + 1, none) := by
  simp only [round, h]

/-- What a round returns. -/
theorem round_eq_some {k k' : ℕ} {res : Response}
    (h : round isMongos commandName responses k = (k', some res)) : k' = k ∧
      (res = responses k ∨ decision isMongos commandName (k + 1) (responses k) = .fakeSuccess ∧
        res = { responses k with ok := 1 }) := by
  unfold round at h
  cases hdecision : decision isMongos commandName (k + 1) (responses k) with
  | noRetry =>
    rw [hdecision] at h
    cases h
    exact ⟨rfl, .inl rfl⟩
  | retry =>
    rw [hdecision] at h
    cases h
  | fakeSuccess =>
    rw [hdecision] at h
    cases h
    exact ⟨rfl, .inr ⟨rfl, rfl⟩⟩

/-- All attempts before a state are retried. -/
def Retried (isMongos : Bool) (commandName : String) (responses : ℕ → Response) (k : ℕ) : Prop :=
  ∀ j < k, decision isMongos commandName (j + 1) (responses j) = .retry

theorem retried_round {k k' : ℕ} (h : Retried isMongos commandName responses k)
    (hround : round isMongos commandName responses k = (k', none)) :
    Retried isMongos commandName responses k' := by
  unfold round at hround
  cases hdecision : decision isMongos commandName (k + 1) (responses k) with
  | noRetry => simp [hdecision] at hround
  | fakeSuccess => simp [hdecision] at hround
  | retry =>
    rw [hdecision] at hround
    cases hround
    intro j hj
    rcases Nat.lt_succ_iff_lt_or_eq.mp hj with hj | rfl
    · exact h j hj
    · exact hdecision

/-- The loop goes through the attempts that are retried. -/
theorem run_of_retried {k k' : ℕ} {res : Response} (h : Retried isMongos commandName responses k)
    (hround : round isMongos commandName responses k = (k', some res)) :
    runCommandWithRetries isMongos commandName responses (k + 1) = some (k', res) :=
  loop_eq_of_states (t := id) (n := k) (fun j hj => round_of_retry (h j hj)) hround
    (Nat.lt_succ_self k)

theorem exists_round_eq_some {k : ℕ}
    (h : decision isMongos commandName (k + 1) (responses k) ≠ .retry) :
    ∃ res, round isMongos commandName responses k = (k, some res) := by
  unfold round
  cases hdecision : decision isMongos commandName (k + 1) (responses k) with
  | noRetry => exact ⟨_, rfl⟩
  | retry => exact absurd hdecision h
  | fakeSuccess => exact ⟨_, rfl⟩

/-- The call returns once an attempt is not retried. -/
theorem exists_return {k : ℕ}
    (h : decision isMongos commandName (k + 1) (responses k) ≠ .retry) :
    ∃ fuel k' res, runCommandWithRetries isMongos commandName responses fuel = some (k', res) ∧
      k' ≤ k := by
  induction k using Nat.strongRecOn with
  | ind k ih =>
    by_cases hretried : Retried isMongos commandName responses k
    · obtain ⟨res, hres⟩ := exists_round_eq_some h
      exact ⟨k + 1, k, res, run_of_retried hretried hres, Nat.le_refl k⟩
    · simp only [Retried, not_forall] at hretried
      obtain ⟨j, hj, hne⟩ := hretried
      obtain ⟨fuel, k', res, hrun, hle⟩ := ih j hj hne
      exact ⟨fuel, k', res, hrun, by omega⟩

end Loop

/-! ## The exact condition -/

section Main

variable {isMongos : Bool} {commandName : String} {responses : ℕ → Response}

/-- The shards of a failure that is turned into a success, unless it is hollow. -/
theorem executed_of_fakeSuccess {attempt : ℕ} {res : Response}
    (h : decision isMongos commandName attempt res = .fakeSuccess)
    (hhollow : ¬ Hollow isMongos commandName res) : Executed commandName res ∧ attempt ≠ 1 := by
  obtain ⟨hok, hwhitelist, hbackground, hmongos, raw, hraw, hscan⟩ := decision_eq_fakeSuccess.mp h
  rw [scanShards_eq_nil_iff] at hscan
  have hall : ∀ p ∈ raw, p.2.ok ≠ 0 ∨ AcceptableError commandName p.2 := by
    intro p hp
    by_cases hp0 : p.2.ok = 0
    · exact .inr ⟨hp0, ((hscan p hp).resolve_left (not_not.mpr hp0)).2.1⟩
    · exact .inl hp0
  have hexists : ∃ p ∈ raw, p.2.ok = 0 := by
    by_contra hnone
    refine hhollow ⟨hok, hwhitelist, hbackground, hmongos, raw, hraw, fun p hp hp0 => ?_⟩
    exact hnone ⟨p, hp, hp0⟩
  obtain ⟨p, hp, hp0⟩ := hexists
  have hscanned := (hscan p hp).resolve_left (not_not.mpr hp0)
  exact ⟨⟨raw, hraw, ⟨p, hp, hp0, hscanned.2.1⟩, hall⟩, hscanned.2.2⟩

theorem Hollow.fakeSuccess {res : Response} (h : Hollow isMongos commandName res) (attempt : ℕ) :
    decision isMongos commandName attempt res = .fakeSuccess := by
  obtain ⟨raw, hraw, hshards⟩ := h.shards
  exact decision_eq_fakeSuccess.mpr ⟨h.failed, h.whitelisted, h.noBackgroundOp, h.mongos, raw, hraw,
    scanShards_eq_nil_iff.mpr fun p hp => .inl (hshards p hp)⟩

/-- **When a failure is only reported as a success after a retry.** For every command, connection and
sequence of responses, the call is honest if and only if no response that is reached is hollow. -/
theorem honest_iff : Honest isMongos commandName responses ↔
    ∀ k, (∀ j < k, decision isMongos commandName (j + 1) (responses j) = .retry) →
      ¬ Hollow isMongos commandName (responses k) := by
  constructor
  · intro h k hretried hhollow
    have hfake := hhollow.fakeSuccess (k + 1)
    have hround : round isMongos commandName responses k =
        (k, some { responses k with ok := 1 }) := by
      simp only [round, hfake]
    rcases h.reports _ _ _ (run_of_retried hretried hround) with hsame | ⟨-, -, hexecuted⟩
    · exact hhollow.failed (congrArg Response.ok hsame).symm
    · obtain ⟨raw, hraw, ⟨p, hp, hp0, -⟩, -⟩ := hexecuted
      obtain ⟨raw', hraw', hshards⟩ := hhollow.shards
      obtain rfl : raw = raw' := Option.some.inj (hraw.symm.trans hraw')
      exact hshards p hp hp0
  · intro h
    refine ⟨fun k hk => exists_return hk, fun fuel k res hrun => ?_⟩
    obtain ⟨k', hretried, hround⟩ := loop_inv (fun _ _ hs hnext => retried_round hs hnext)
      (fun j hj => absurd hj (Nat.not_lt_zero j)) hrun
    obtain ⟨rfl, hres | ⟨hfake, hres⟩⟩ := round_eq_some hround
    · exact .inl hres
    · obtain ⟨hexecuted, hattempt⟩ := executed_of_fakeSuccess hfake (h k hretried)
      refine .inr ⟨hres, ⟨k - 1, by omega, ?_⟩, hexecuted⟩
      exact metBackgroundOp_of_retry (hretried (k - 1) (by omega))

end Main

/-- A failure of a command as a whole, in which the shards report no error. -/
def failedOnMongos : Response :=
  ⟨0, some (.other 13), some [("shard0", ⟨1, none⟩), ("shard1", ⟨1, none⟩)]⟩

/-- **A hollow response is reported as a success**: `drop` fails on mongos in the first attempt, while
both shards have answered with success. -/
theorem hollow_reported_as_success :
    runCommandWithRetries true "drop" (fun _ => failedOnMongos) 1 =
        some (0, { failedOnMongos with ok := 1 }) ∧
      ¬ Honest true "drop" fun _ => failedOnMongos := by
  have hrun : runCommandWithRetries true "drop" (fun _ => failedOnMongos) 1 =
      some (0, { failedOnMongos with ok := 1 }) := by decide
  refine ⟨hrun, fun h => ?_⟩
  rcases h.reports _ _ _ hrun with hsame | ⟨-, ⟨j, hj, -⟩, -⟩
  · exact absurd hsame (by decide)
  · exact absurd hj (Nat.not_lt_zero j)

end MongoTests.Override.BackgroundOp
