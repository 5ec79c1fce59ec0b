import Mathlib.Data.List.Infix
import MongoTests.Lib.Machine

/-!
# Initial sync in the background

The hook `BackgroundInitialSync`. A call of `after_test` has the answers of the node, the random draw and the
exceptions that its parts raise.

* `checkSyncNode`, `runTest`, `afterTest`: the code.
* `step`: the run of the hook, with its results so far.
* `StatusWorks`, `RestartWorks`: conditions on a call.
* **`checked_every_n`**: the runs of calls that meet the conditions.
-/

namespace MongoTests.Hooks.BackgroundInitialSync

open MongoTests.Lib

structure Hook where
  testsRun : ℕ
  randomRestarts : ℕ
  deriving DecidableEq

inductive Raised where
  | operationFailure
  | other
  deriving DecidableEq

/-- An answer to `replSetGetStatus`. -/
inductive Status where
  | myState (state : Option ℤ)
  | raised (err : Raised)
  deriving DecidableEq

/-- The answers, of which the last one has dates that can be read. -/
inductive Answers where
  | last (status : Status)
  | invalidBSON (rest : Answers)

def Answers.read : Answers → Status
  | last status => status
  | invalidBSON rest => rest.read

/-- What a call of `after_test` meets. -/
structure Call where
  /-- What the wait for the state SECONDARY raises. -/
  wait : Option Raised
  answers : Answers
  /-- `random.random() < 0.2` -/
  draw : Bool
  /-- What the restart of the node raises. -/
  restart : Option Raised
  validation : Option Raised

inductive Event where
  | validation
  | restart
  /-- A restart in the middle of a sync. -/
  | randomRestart
  deriving DecidableEq

structure Result where
  hook : Hook
  events : List Event
  failed : Bool
  deriving DecidableEq

/-- What follows the wait, if there is one. -/
def checkSyncNode (hook : Hook) (call : Call) : Result :=
  match call.answers.read with
  | .raised .operationFailure => ⟨hook, [], false⟩
  | .raised .other => ⟨hook, [], true⟩
  | .myState state =>
    if state ≠ some 2 then
      if hook.testsRun = 0 then ⟨hook, [], true⟩
      else if hook.randomRestarts < 1 ∧ call.draw then
        match call.restart with
        | none => ⟨{ hook with randomRestarts := hook.randomRestarts + 1 }, [.randomRestart], false⟩
        | some .operationFailure => ⟨hook, [.randomRestart], false⟩
        | some .other => ⟨hook, [.randomRestart], true⟩
      else ⟨hook, [], false⟩
    else
      let hook := { hook with randomRestarts := 0 }
      if call.validation.isSome then ⟨hook, [.validation], true⟩
      else ⟨hook, [.validation, .restart], call.restart.isSome⟩

def runTest (n : ℕ) (hook : Hook) (call : Call) : Result :=
  if n ≤ hook.testsRun then
    let hook := { hook with testsRun := 0 }
    if call.wait.isSome then ⟨hook, [], true⟩ else checkSyncNode hook call
  else checkSyncNode hook call

def afterTest (n : ℕ) (hook : Hook) (call : Call) : Result :=
  runTest n { hook with testsRun := hook.testsRun + 1 } call

/-! ## Runs -/

structure Run where
  hook : Hook
  results : List Result
  deriving DecidableEq

def Run.events (r : Run) : List Event := r.results.flatMap Result.events

def step (n : ℕ) (r : Run) (call : Call) : Option Run :=
  let result := afterTest n r.hook call
  some ⟨result.hook, r.results ++ [result]⟩

def start : Run := ⟨⟨0, 0⟩, []⟩

/-- A call that runs the validation or fails. -/
def Result.Checks (result : Result) : Prop := .validation ∈ result.events ∨ result.failed

instance : DecidablePred Result.Checks := fun _ => by
  unfold Result.Checks
  infer_instance

/-- After a wait, `replSetGetStatus` does not fail. -/
def StatusWorks (n : ℕ) (r : Run) (call : Call) : Prop :=
  n ≤ r.hook.testsRun + 1 → call.wait = none → call.answers.read ≠ .raised .operationFailure

/-- A restart in the middle of a sync does not raise. -/
def RestartWorks (n : ℕ) (r : Run) (call : Call) : Prop :=
  r.hook.testsRun + 1 < n → r.hook.randomRestarts < 1 → call.draw →
    (∀ state, call.answers.read = .myState state → state ≠ some 2 → call.restart = none)

/-! ## One call -/

/-- What a check of the node may do. -/
inductive Effect (hook : Hook) (call : Call) (result : Result) : Prop
  | nothing (events : result.events = []) (kept : result.hook = hook)
      (waited : hook.testsRun = 0 → result.failed ∨ call.answers.read = .raised .operationFailure)
  | randomRestart (events : result.events = [.randomRestart]) (testsRun : result.hook.testsRun = hook.testsRun)
      (early : hook.testsRun ≠ 0) (first : hook.randomRestarts < 1) (draw : call.draw)
      (syncing : ∃ state, call.answers.read = .myState state ∧ state ≠ some 2)
      (counted : call.restart = none → result.hook.randomRestarts = hook.randomRestarts + 1)
  | validation (events : result.events = [.validation] ∨ result.events = [.validation, .restart])
      (reset : result.hook = { hook with randomRestarts := 0 })

theorem checkSyncNode_effect (hook : Hook) (call : Call) : Effect hook call (checkSyncNode hook call) := by
  rw [checkSyncNode]
  cases hread : call.answers.read with
  | raised err =>
    cases err with
    | operationFailure => exact .nothing rfl rfl fun _ => .inr hread
    | other => exact .nothing rfl rfl fun _ => .inl rfl
  | myState state =>
    dsimp only
    split_ifs with hstate hzero hdraw hvalidation
    · exact .nothing rfl rfl fun _ => .inl rfl
    · cases hrestart : call.restart with
      | none =>
        exact .randomRestart rfl rfl hzero hdraw.1 hdraw.2 ⟨state, hread, hstate⟩ fun _ => rfl
      | some err =>
        have hcounted : call.restart ≠ none := by
          rw [hrestart]
          exact Option.some_ne_none err
        cases err with
        | operationFailure =>
          exact .randomRestart rfl rfl hzero hdraw.1 hdraw.2 ⟨state, hread, hstate⟩ fun h => absurd h hcounted
        | other =>
          exact .randomRestart rfl rfl hzero hdraw.1 hdraw.2 ⟨state, hread, hstate⟩ fun h => absurd h hcounted
    · exact .nothing rfl rfl fun h => absurd h hzero
    · exact .validation (.inl rfl) rfl
    · exact .validation (.inr rfl) rfl

theorem Effect.testsRun_eq {hook : Hook} {call : Call} {result : Result} (h : Effect hook call result) :
    result.hook.testsRun = hook.testsRun := by
  cases h with
  | nothing _ kept _ => rw [kept]
  | randomRestart _ testsRun _ _ _ _ _ => exact testsRun
  | validation _ reset => rw [reset]

/-- After a wait the node is validated, or the call fails. -/
theorem Effect.checks {hook : Hook} {call : Call} {result : Result} (h : Effect hook call result)
    (hzero : hook.testsRun = 0) (hread : call.answers.read ≠ .raised .operationFailure) : result.Checks := by
  cases h with
  | nothing _ _ waited => exact .inr ((waited hzero).resolve_right hread)
  | randomRestart _ _ early _ _ _ _ => exact absurd hzero early
  | validation events _ =>
    refine .inl ?_
    obtain h | h := events
    · rw [h]
      exact List.mem_cons_self
    · rw [h]
      exact List.mem_cons_self

section Call

variable {n : ℕ} {hook : Hook} {call : Call}

theorem afterTest_of_lt (h : hook.testsRun + 1 < n) :
    afterTest n hook call = checkSyncNode { hook with testsRun := hook.testsRun + 1 } call :=
  if_neg (Nat.not_le.mpr h)

theorem afterTest_of_le (h : n ≤ hook.testsRun + 1) : afterTest n hook call =
    if call.wait.isSome then ⟨{ hook with testsRun := 0 }, [], true⟩
    else checkSyncNode { hook with testsRun := 0 } call :=
  if_pos h

/-- A call that waits starts to count again. -/
theorem testsRun_of_le (h : n ≤ hook.testsRun + 1) : (afterTest n hook call).hook.testsRun = 0 := by
  rw [afterTest_of_le h]
  split_ifs
  · rfl
  · exact (checkSyncNode_effect _ _).testsRun_eq

end Call

/-! ## Every n calls -/

section Windows

variable {n : ℕ} {r : Run} {call : Call}

theorem checks_of_le (h : n ≤ r.hook.testsRun + 1) (hstatus : StatusWorks n r call) :
    (afterTest n r.hook call).Checks := by
  rw [afterTest_of_le h]
  split_ifs with hwait
  · exact .inr rfl
  · have hnone : call.wait = none := Option.not_isSome_iff_eq_none.mp hwait
    exact (checkSyncNode_effect _ _).checks rfl (hstatus h hnone)

/-- The calls since the last one that waited are counted. -/
structure Counted (n : ℕ) (r : Run) : Prop where
  lt : r.hook.testsRun < n
  later : ∀ w, w <:+ r.results → r.hook.testsRun < w.length → ∃ result ∈ w, result.Checks
  windows : ∀ w, w <:+: r.results → w.length = n → ∃ result ∈ w, result.Checks

theorem counted_start (hn : 1 ≤ n) : Counted n start where
  lt := hn
  later w hw hlength := by
    rw [List.suffix_nil.mp hw] at hlength
    cases hlength
  windows w hw hlength := by
    rw [List.infix_nil.mp hw, List.length_nil] at hlength
    omega

theorem counted_step (hn : 1 ≤ n) (h : Counted n r) (hstatus : StatusWorks n r call) :
    Counted n ⟨(afterTest n r.hook call).hook, r.results ++ [afterTest n r.hook call]⟩ := by
  by_cases hwaits : n ≤ r.hook.testsRun + 1
  · -- The new call is in every window that ends with it.
    have hchecks := checks_of_le hwaits hstatus
    have hlater : ∀ w, w <:+ r.results ++ [afterTest n r.hook call] → 0 < w.length →
        ∃ result ∈ w, result.Checks := by
      intro w hw hlength
      obtain rfl | ⟨t, rfl, -⟩ := List.suffix_concat_iff.mp hw
      · cases hlength
      · exact ⟨_, List.mem_append_right t List.mem_cons_self, hchecks⟩
    refine ⟨?_, fun w hw hlength => hlater w hw ?_, fun w hw hlength => ?_⟩
    · dsimp only
      rw [testsRun_of_le hwaits]
      exact hn
    · exact Nat.zero_lt_of_lt hlength
    · obtain hw | hw := List.infix_concat_iff.mp hw
      · exact hlater w hw (by omega)
      · exact h.windows w hw hlength
  · have hcount : (afterTest n r.hook call).hook.testsRun = r.hook.testsRun + 1 := by
      rw [afterTest_of_lt (Nat.lt_of_not_le hwaits)]
      exact (checkSyncNode_effect _ _).testsRun_eq
    have hlater : ∀ w, w <:+ r.results ++ [afterTest n r.hook call] → r.hook.testsRun + 1 < w.length →
        ∃ result ∈ w, result.Checks := by
      intro w hw hlength
      obtain rfl | ⟨t, rfl, ht⟩ := List.suffix_concat_iff.mp hw
      · cases hlength
      · rw [List.length_append, List.length_singleton] at hlength
        obtain ⟨result, hresult, hchecks⟩ := h.later t ht (by omega)
        exact ⟨result, List.mem_append_left _ hresult, hchecks⟩
    refine ⟨?_, fun w hw hlength => hlater w hw ?_, fun w hw hlength => ?_⟩
    · dsimp only
      omega
    · dsimp only at hlength
      omega
    · obtain hw | hw := List.infix_concat_iff.mp hw
      · exact hlater w hw (by omega)
      · exact h.windows w hw hlength

end Windows

/-! ## Restarts in the middle of a sync -/

section Restarts

variable {n : ℕ} {r : Run} {call : Call}

/-- Restarts without a validation in between are counted. -/
structure RestartedOnce (randomRestarts : ℕ) (events : List Event) : Prop where
  le_one : randomRestarts ≤ 1
  since : ∀ mid, mid <:+ events → .validation ∉ mid → mid.count .randomRestart ≤ randomRestarts
  between : ∀ mid, mid <:+: events → .validation ∉ mid → mid.count .randomRestart ≤ 1

theorem RestartedOnce.concat {k k' : ℕ} {events : List Event} {event : Event} (h : RestartedOnce k events)
    (hk : k' ≤ 1) (hevent : event = .validation ∨ k + (if event = .randomRestart then 1 else 0) ≤ k') :
    RestartedOnce k' (events ++ [event]) := by
  have hsince : ∀ mid, mid <:+ events ++ [event] → .validation ∉ mid → mid.count .randomRestart ≤ k' := by
    intro mid hmid hvalidation
    obtain rfl | ⟨t, rfl, ht⟩ := List.suffix_concat_iff.mp hmid
    · exact Nat.zero_le _
    · rw [List.mem_append, List.mem_singleton, not_or] at hvalidation
      have hle := hevent.resolve_left fun heq => hvalidation.2 heq.symm
      have hcount := h.since t ht hvalidation.1
      rw [List.count_append, List.count_singleton]
      simp only [beq_iff_eq] at hle ⊢
      omega
  refine ⟨hk, hsince, fun mid hmid hvalidation => ?_⟩
  obtain hmid | hmid := List.infix_concat_iff.mp hmid
  · exact le_trans (hsince mid hmid hvalidation) hk
  · exact h.between mid hmid hvalidation

theorem RestartedOnce.effect (hook : Hook) {events : List Event} {result : Result}
    (h : RestartedOnce hook.randomRestarts events) (heffect : Effect hook call result)
    (hrestart : hook.testsRun ≠ 0 → hook.randomRestarts < 1 → call.draw →
      ∀ state, call.answers.read = .myState state → state ≠ some 2 → call.restart = none) :
    RestartedOnce result.hook.randomRestarts (events ++ result.events) := by
  cases heffect with
  | nothing hevents kept _ =>
    rw [hevents, kept, List.append_nil]
    exact h
  | randomRestart hevents _ early first draw syncing counted =>
    obtain ⟨state, hread, hstate⟩ := syncing
    have hcounted := counted (hrestart early first draw state hread hstate)
    rw [hevents]
    exact h.concat (by omega) (.inr (by rw [if_pos rfl, hcounted]))
  | validation hevents reset =>
    rw [reset]
    have hvalidation : RestartedOnce 0 (events ++ [.validation]) := h.concat (Nat.zero_le 1) (.inl rfl)
    obtain hevents | hevents := hevents
    · rw [hevents]
      exact hvalidation
    · have hafter : RestartedOnce 0 (events ++ [.validation] ++ [.restart]) :=
        hvalidation.concat (Nat.zero_le 1) (.inr le_rfl)
      rw [List.append_assoc] at hafter
      rw [hevents]
      exact hafter

theorem restartedOnce_step (h : RestartedOnce r.hook.randomRestarts r.events) (hrestart : RestartWorks n r call) :
    RestartedOnce (afterTest n r.hook call).hook.randomRestarts (r.events ++ (afterTest n r.hook call).events) := by
  by_cases hwaits : n ≤ r.hook.testsRun + 1
  · rw [afterTest_of_le hwaits]
    split_ifs
    · rw [List.append_nil]
      exact h
    · exact RestartedOnce.effect { r.hook with testsRun := 0 } h (checkSyncNode_effect _ _)
        fun hne => absurd rfl hne
  · have hlt := Nat.lt_of_not_le hwaits
    rw [afterTest_of_lt hlt]
    exact RestartedOnce.effect { r.hook with testsRun := r.hook.testsRun + 1 } h (checkSyncNode_effect _ _)
      fun _ => hrestart hlt

end Restarts

/-! ## All runs -/

variable {n : ℕ} {r : Run}

theorem Reached.counted (hn : 1 ≤ n) (h : Reach (step n) (StatusWorks n) (· = start) r) : Counted n r := by
  refine h.inv (fun r hr => ?_) fun r call r' hr hok hstep => ?_
  · rw [hr]
    exact counted_start hn
  · cases hstep
    exact counted_step hn hr hok

theorem Reached.restartedOnce (h : Reach (step n) (RestartWorks n) (· = start) r) :
    RestartedOnce r.hook.randomRestarts r.events := by
  refine h.inv (I := fun r => RestartedOnce r.hook.randomRestarts r.events) (fun r hr => ?_)
    fun r call r' hr hok hstep => ?_
  · rw [hr]
    refine ⟨Nat.zero_le 1, fun mid hmid _ => ?_, fun mid hmid _ => ?_⟩
    · rw [List.suffix_nil.mp hmid]
      exact le_rfl
    · rw [List.infix_nil.mp hmid]
      exact Nat.zero_le 1
  · cases hstep
    have hevents : (⟨(afterTest n r.hook call).hook, r.results ++ [afterTest n r.hook call]⟩ : Run).events =
        r.events ++ (afterTest n r.hook call).events := by
      rw [Run.events, List.flatMap_append, List.flatMap_singleton, Run.events]
    dsimp only at hevents ⊢
    rw [hevents]
    exact restartedOnce_step hr hok

/-- The node is in the state SECONDARY. -/
def secondary : Call := ⟨none, .last (.myState (some 2)), false, none, none⟩

/-- `replSetGetStatus` fails. -/
def statusFails : Call := ⟨none, .last (.raised .operationFailure), false, none, none⟩

/-- The node is syncing, and a random restart of it fails. -/
def restartFails : Call := ⟨none, .last (.myState (some 5)), true, some .operationFailure, none⟩

end MongoTests.Hooks.BackgroundInitialSync
