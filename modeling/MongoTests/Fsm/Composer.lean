import Mathlib.Data.Rat.Floor
import MongoTests.Fsm.Config

/-!
# Composed workloads

`runCombinedFSM` of `composer.js`, as `workerThread.composed` of `thread_mgr.js` calls it: the
worker hands it the execution options where it expects the probability to change workloads.

* `combinedStep`, `mixLoop`, `runCombinedFSM`: one change of state, the loop, and the start of the
  other workloads. A run records its moves, each with the random value that decides it.
* `composed`: the call of the worker.
* `Lawful`: the documented law of a move with mixing probability `p`.
* `mixLoop_lawful_iff`: the moves of a loop that never stays in a workload.
* **`composed_lawful_iff`**: the composed runs that keep the law.
-/

namespace MongoTests.Fsm

open MongoTests.Lib MongoTests.Lib.Js

/-! ## The run -/

/-- What `composer.run` is given as `mixProb`. -/
inductive MixProb
  | number (p : Number)
  | object (o : Object)

/-- `r >= mixProb`. An object is converted to the text `[object Object]`, which is no number, and
every comparison with `NaN` is false. -/
def MixProb.reached (r : ℚ) : MixProb → Bool
  | .number p => decide (p ≠ .nan) && !(Number.fin r).lt p
  | .object _ => false

inductive AssertLevel
  | ownDb
  | ownColl
  | always
  deriving DecidableEq, Repr

/-- The part of `runner.js` that sets `globalAssertLevel`. -/
def assertLevel (sameDB sameCollection : Bool) : AssertLevel :=
  if sameCollection then .always else if sameDB then .ownColl else .ownDb

/-- The entry of a workload in the `configs` of a worker. -/
structure WorkerConfig where
  db : String
  collName : String
  config : Config

/-- A change of state in the loop: where it starts, the random value that it compares with the
mixing probability, and where it goes. -/
structure Move where
  workload : String
  state : String
  draw : ℚ
  next : Except Thrown (String × String)
  deriving DecidableEq

/-- What a worker meets: which start functions throw, in which iterations the state function
throws, and the random values. -/
structure Env where
  startThrows : String → Bool
  throws : ℕ → Bool
  rand : ℕ → ℚ

def getRandomElem {α : Type} (items : List α) (randVal : ℚ) : Except Thrown α := do
  ensure (0 < items.length) (.assertion "")
  match items[⌊randVal * items.length⌋.toNat]? with
  | some item => .ok item
  -- The property of an `undefined` that the caller reads next.
  | none => .error .typeError

section Run

variable (workloads : List String) (configs : String → WorkerConfig) (mixProb : MixProb)

/-- The states of a workload that are not its start state. -/
def mixStates (workload : String) : List String :=
  ((configs workload).config.states.map Prod.fst).filter (· ≠ (configs workload).config.startState)

def otherStates (currentWorkload : String) : List (String × String) :=
  (workloads.filter (· ≠ currentWorkload)).flatMap fun workload =>
    (mixStates configs workload).map fun state => (workload, state)

/-- The choice of the next workload and state, with the two random values that it takes. -/
def combinedStep (currentWorkload currentState : String) (r r' : ℚ) :
    Except Thrown (String × String) :=
  if mixProb.reached r then do
    let nextState ← getWeightedRandomChoice
      ((configs currentWorkload).config.transitions.lookup currentState) r'
    pure (currentWorkload, nextState)
  else getRandomElem (otherStates workloads configs currentWorkload) r'

def mixLoop :
    ℕ → (throws : ℕ → Bool) → (rand : ℕ → ℚ) → (currentWorkload currentState : String) →
      List Move × Except Thrown Unit
  | 0, _, _, _, _ => ([], .ok ())
  | iterations + 1, throws, rand, currentWorkload, currentState =>
    if currentState ∉ (configs currentWorkload).config.states.map Prod.fst then
      ([], .error .typeError)
    else if throws 0 then ([], .error .stateFunction)
    else
      let next := combinedStep workloads configs mixProb currentWorkload currentState
        (rand 0) (rand 1)
      let move : Move := ⟨currentWorkload, currentState, rand 0, next⟩
      match next with
      | .error e => ([move], .error e)
      | .ok (workload, state) =>
        let rest := mixLoop iterations (fun i => throws (i + 1)) (fun i => rand (i + 2))
          workload state
        (move :: rest.1, rest.2)

/-- The checks against the database and the collection of the workload before. -/
def checkShared (shared : Option (String × String)) (args : WorkerConfig) : Except Thrown Unit :=
  match shared with
  | none => .ok ()
  | some (myDB, collName) => do
    ensure (myDB = args.db) (.assertion "expected all workloads to use same database")
    ensure (collName = args.collName) (.assertion "expected all workloads to use same collection")

/-- The start function of a workload other than the current one is called. -/
def callStart (startThrows : String → Bool) (currentWorkload workload : String) :
    Except Thrown Unit :=
  if workload ≠ currentWorkload then do
    let args := (configs workload).config
    ensure (args.startState ∈ args.states.map Prod.fst) .typeError
    ensure (startThrows workload = false) .stateFunction
  else .ok ()

/-- The loop over the workloads before the first iteration. -/
def startOthers (startThrows : String → Bool) (currentWorkload : String) :
    Option (String × String) → List String → Except Thrown Unit
  | _, [] => .ok ()
  | shared, workload :: rest => do
    let args := configs workload
    checkShared shared args
    callStart configs startThrows currentWorkload workload
    startOthers startThrows currentWorkload (some (args.db, args.collName)) rest

/-- What comes before the loop, with the workload that it begins in. -/
def startCombined (globalAssertLevel : AssertLevel) (env : Env) : Except Thrown String := do
  ensure (globalAssertLevel = .always)
    (.assertion "global assertion level is not set as ALWAYS")
  let currentWorkload ← getRandomElem workloads (env.rand 0)
  startOthers configs env.startThrows currentWorkload none workloads
  pure currentWorkload

def runCombinedFSM (globalAssertLevel : AssertLevel) (env : Env) : List Move × Except Thrown Unit :=
  match startCombined workloads configs globalAssertLevel env with
  | .error e => ([], .error e)
  | .ok currentWorkload => mixLoop workloads configs mixProb 100 env.throws
      (fun i => env.rand (i + 1)) currentWorkload (configs currentWorkload).config.startState

end Run

/-- `workerThread.composed`: all workloads run on the worker's database and collection, and the
last argument of `composer.run` is `options`. -/
def composed (workloads : List String) (configs : String → Config) (dbName collName : String)
    (options : Object) (env : Env) : List Move × Except Thrown Unit :=
  runCombinedFSM workloads (fun workload => ⟨dbName, collName, configs workload⟩) (.object options)
    (assertLevel true true) env

/-! ## The law -/

section Law

variable {workloads : List String} {configs : String → WorkerConfig} {p : ℚ} {w s : String}

/-- **The documented law** of a move with mixing probability `p`: a random value of at least `p`
takes a transition of the current workload, one below `p` takes a state of another workload that is
not its start state. -/
structure Lawful (workloads : List String) (configs : String → WorkerConfig) (p : ℚ) (m : Move) :
    Prop where
  stays : p ≤ m.draw → ∃ targets t x, m.next = .ok (m.workload, t) ∧
    (configs m.workload).config.transitions.lookup m.state = some targets ∧ (t, x) ∈ targets
  mixes : m.draw < p → ∃ w t, m.next = .ok (w, t) ∧ w ∈ workloads ∧ w ≠ m.workload ∧
    t ∈ mixStates configs w

/-- A workload that the others can be left for. -/
def Mixable (workloads : List String) (configs : String → WorkerConfig) (w : String) : Prop :=
  w ∈ workloads ∧ mixStates configs w ≠ []

/-- The workloads can be left in iteration `i` of a loop that begins in workload `w`. -/
def CanLeave (workloads : List String) (configs : String → WorkerConfig) (w : String) : ℕ → Prop
  | 0 => ∃ w', w' ≠ w ∧ Mixable workloads configs w'
  | _ + 1 => ∃ w₁ w₂, w₁ ≠ w₂ ∧ Mixable workloads configs w₁ ∧ Mixable workloads configs w₂

theorem mem_otherStates {w' t : String} : (w', t) ∈ otherStates workloads configs w ↔
    w' ∈ workloads ∧ w' ≠ w ∧ t ∈ mixStates configs w' := by
  simp only [otherStates, List.mem_flatMap, List.mem_filter, decide_eq_true_eq, List.mem_map]
  constructor
  · rintro ⟨w'', ⟨hw, hne⟩, t', ht, heq⟩
    cases heq
    exact ⟨hw, hne, ht⟩
  · rintro ⟨hw, hne, ht⟩
    exact ⟨w', ⟨hw, hne⟩, t, ht, rfl⟩

theorem otherStates_ne_nil_iff :
    otherStates workloads configs w ≠ [] ↔ CanLeave workloads configs w 0 := by
  constructor
  · intro h
    obtain ⟨⟨w', t⟩, hmem⟩ := List.exists_mem_of_ne_nil _ h
    obtain ⟨hw, hne, ht⟩ := mem_otherStates.mp hmem
    exact ⟨w', hne, hw, List.ne_nil_of_mem ht⟩
  · rintro ⟨w', hne, hw, ht⟩
    obtain ⟨t, ht⟩ := List.exists_mem_of_ne_nil _ ht
    exact List.ne_nil_of_mem (mem_otherStates.mpr ⟨hw, hne, ht⟩)

/-- A random value in range takes an element. -/
theorem getRandomElem_mem {α : Type} {items : List α} {r : ℚ} (h1 : r < 1)
    (hne : items ≠ []) : ∃ a ∈ items, getRandomElem items r = .ok a := by
  have hpos : 0 < items.length := List.length_pos_of_ne_nil hne
  have hlt : ⌊r * items.length⌋.toNat < items.length := by
    have hq : (0 : ℚ) < items.length := Nat.cast_pos.mpr hpos
    have hfloor : ⌊r * items.length⌋ < (items.length : ℤ) :=
      Int.floor_lt.mpr (by exact_mod_cast mul_lt_of_lt_one_left hq h1)
    omega
  refine ⟨_, List.getElem_mem hlt, ?_⟩
  rw [getRandomElem, ensure, if_pos hpos, List.getElem?_eq_getElem hlt]
  rfl

theorem getRandomElem_eq_ok {α : Type} {items : List α} {r : ℚ} {a : α} :
    getRandomElem items r = .ok a ↔ items[⌊r * items.length⌋.toNat]? = some a := by
  cases items with
  | nil => simp [getRandomElem, ensure, bind, Except.bind]
  | cons b items =>
    have hpos : 0 < (b :: items).length := Nat.succ_pos _
    rw [getRandomElem, ensure, if_pos hpos]
    cases h : (b :: items)[⌊r * (b :: items).length⌋.toNat]? <;> simp [bind, Except.bind]

theorem getRandomElem_nil {α : Type} (r : ℚ) :
    getRandomElem ([] : List α) r = .error (.assertion "") := rfl

/-- With two workloads to go to, each can be left for the other. -/
theorem canLeave_succ (i : ℕ) {w' : String} (hw : Mixable workloads configs w') :
    CanLeave workloads configs w' i ↔ CanLeave workloads configs w (i + 1) := by
  cases i with
  | zero =>
    constructor
    · rintro ⟨w₁, hne, h₁⟩
      exact ⟨w₁, w', hne, h₁, hw⟩
    · rintro ⟨w₁, w₂, hne, h₁, h₂⟩
      by_cases h : w₁ = w'
      · exact ⟨w₂, fun h' => hne (h.trans h'.symm), h₂⟩
      · exact ⟨w₁, h, h₁⟩
  | succ i => exact Iff.rfl

/-- A move to another workload keeps the law exactly when the random value is below `p`. -/
theorem lawful_iff_lt {r : ℚ} {w' t : String}
    (h : (w', t) ∈ otherStates workloads configs w) :
    Lawful workloads configs p ⟨w, s, r, .ok (w', t)⟩ ↔ r < p := by
  obtain ⟨hw, hne, ht⟩ := mem_otherStates.mp h
  constructor
  · intro hl
    by_contra hr
    obtain ⟨targets, t', x, hnext, -⟩ := hl.stays (not_lt.mp hr)
    simp only [Except.ok.injEq, Prod.mk.injEq] at hnext
    exact hne hnext.1
  · intro hr
    exact ⟨fun hle => absurd hr (not_lt.mpr hle), fun _ => ⟨w', t, rfl, hw, hne, ht⟩⟩

theorem not_lawful_error {r : ℚ} {e : Thrown} : ¬ Lawful workloads configs p ⟨w, s, r, .error e⟩ := by
  intro hl
  obtain hr | hr := le_or_gt p r
  · obtain ⟨_, _, _, hnext, -⟩ := hl.stays hr
    cases hnext
  · obtain ⟨_, _, hnext, -⟩ := hl.mixes hr
    cases hnext

/-- **The loop that never stays.** Where the mixing probability is an object, the moves keep the law
exactly when the random value of each iteration is below `p` and there is a state to go to. -/
theorem mixLoop_lawful_iff {o : Object} {iterations : ℕ} {throws : ℕ → Bool} {rand : ℕ → ℚ}
    (hrand : ∀ i, 0 ≤ rand i ∧ rand i < 1)
    (hs : s ∈ (configs w).config.states.map Prod.fst) :
    (∀ m ∈ (mixLoop workloads configs (.object o) iterations throws rand w s).1,
        Lawful workloads configs p m) ↔
      ∀ i < iterations, (∀ j ≤ i, throws j = false) →
        rand (2 * i) < p ∧ CanLeave workloads configs w i := by
  induction iterations generalizing throws rand w s with
  | zero => simp [mixLoop]
  | succ iterations ih =>
    rw [mixLoop, if_neg (not_not.mpr hs)]
    cases hthrows : throws 0 with
    | true =>
      refine ⟨fun _ i _ hi => ?_, fun _ m hm => absurd hm List.not_mem_nil⟩
      rw [hi 0 (Nat.zero_le i)] at hthrows
      cases hthrows
    | false =>
      have hstep : combinedStep workloads configs (.object o) w s (rand 0) (rand 1) =
          getRandomElem (otherStates workloads configs w) (rand 1) := rfl
      rw [if_neg Bool.false_ne_true, hstep]
      by_cases hleave : otherStates workloads configs w = []
      · rw [hleave, getRandomElem_nil]
        refine ⟨fun h => absurd (h _ List.mem_cons_self) not_lawful_error, fun h => ?_⟩
        have hcan := (h 0 (Nat.succ_pos _) fun j hj => by rwa [Nat.le_zero.mp hj]).2
        exact absurd hleave (otherStates_ne_nil_iff.mpr hcan)
      · obtain ⟨⟨w', t⟩, hmem, hget⟩ := getRandomElem_mem (hrand 1).2 hleave
        obtain ⟨hw, hne, ht⟩ := mem_otherStates.mp hmem
        rw [hget]
        dsimp only
        rw [List.forall_mem_cons, lawful_iff_lt hmem,
          ih (fun i => hrand (i + 2)) (List.mem_filter.mp ht).1]
        have hmix : Mixable workloads configs w' := ⟨hw, List.ne_nil_of_mem ht⟩
        constructor
        · rintro ⟨hr, h⟩ i hi hj
          cases i with
          | zero => exact ⟨hr, w', hne, hmix⟩
          | succ i =>
            obtain ⟨hr, hcan⟩ := h i (Nat.lt_of_succ_lt_succ hi) fun j hji =>
              hj (j + 1) (Nat.succ_le_succ hji)
            exact ⟨hr, (canLeave_succ i hmix).mp hcan⟩
        · intro h
          refine ⟨(h 0 (Nat.succ_pos _) fun j hj => by rwa [Nat.le_zero.mp hj]).1,
            fun i hi hj => ?_⟩
          have hall : ∀ j ≤ i + 1, throws j = false := by
            intro j hji
            cases j with
            | zero => exact hthrows
            | succ j => exact hj j (Nat.le_of_succ_le_succ hji)
          obtain ⟨hr, hcan⟩ := h (i + 1) (Nat.succ_lt_succ hi) hall
          exact ⟨hr, (canLeave_succ i hmix).mpr hcan⟩

/-- The start functions of the other workloads exist and return. -/
def OthersStart (workloads : List String) (configs : String → Config) (startThrows : String → Bool)
    (current : String) : Prop :=
  ∀ w ∈ workloads, w ≠ current →
    (configs w).startState ∈ (configs w).states.map Prod.fst ∧ startThrows w = false

/-- The workloads of a worker share their collection, so only the start functions can fail. -/
theorem startOthers_eq_ok {configs : String → Config} {db coll current : String}
    {startThrows : String → Bool} {shared : Option (String × String)} {u : Unit}
    (hshared : ∀ x, shared = some x → x = (db, coll)) :
    startOthers (fun w => ⟨db, coll, configs w⟩) startThrows current shared workloads = .ok u ↔
      OthersStart workloads configs startThrows current := by
  induction workloads generalizing shared with
  | nil => simp [startOthers, OthersStart]
  | cons w ws ih =>
    have hcheck : checkShared shared ⟨db, coll, configs w⟩ = .ok () := by
      cases shared with
      | none => rfl
      | some x =>
        cases hshared x rfl
        simp [checkShared, ensure_eq_ok, bind_eq_ok]
    have hcall : callStart (fun w => ⟨db, coll, configs w⟩) startThrows current w = .ok () ↔
        (w ≠ current →
          (configs w).startState ∈ (configs w).states.map Prod.fst ∧ startThrows w = false) := by
      unfold callStart
      split_ifs with hw
      · simp [hw, bind_eq_ok, ensure_eq_ok]
      · simp [hw]
    have hrec := @ih (some (db, coll)) fun x hx => (Option.some.inj hx).symm
    rw [OthersStart, List.forall_mem_cons, ← OthersStart, ← hrec, ← hcall, startOthers, bind_eq_ok]
    simp only [hcheck, bind_eq_ok]
    constructor
    · rintro ⟨_, _, _, hc, h⟩
      exact ⟨hc, h⟩
    · rintro ⟨hc, h⟩
      exact ⟨(), trivial, (), hc, h⟩

end Law

section Composed

variable {workloads : List String} {configs : String → Config} {dbName collName : String}
  {options : Object} {env : Env} {p : ℚ} {current : String}

theorem startCombined_eq_ok :
    startCombined workloads (fun w => ⟨dbName, collName, configs w⟩) .always env = .ok current ↔
      workloads[⌊env.rand 0 * workloads.length⌋.toNat]? = some current ∧
        OthersStart workloads configs env.startThrows current := by
  have hstart : ∀ c u, startOthers (fun w => ⟨dbName, collName, configs w⟩) env.startThrows c none
      workloads = .ok u ↔ OthersStart workloads configs env.startThrows c :=
    fun c u => startOthers_eq_ok fun x hx => nomatch hx
  simp only [startCombined, bind_eq_ok, ensure_eq_ok, getRandomElem_eq_ok, hstart]
  constructor
  · rintro ⟨-, -, c, hget, -, hothers, h⟩
    cases h
    exact ⟨hget, hothers⟩
  · rintro ⟨hget, hothers⟩
    exact ⟨(), trivial, current, hget, (), hothers, rfl⟩

/-- Without a function for the first state, there is no move. -/
theorem mixLoop_of_not_mem {configs : String → WorkerConfig} {mixProb : MixProb} {iterations : ℕ}
    {throws : ℕ → Bool} {rand : ℕ → ℚ} {w s : String}
    (h : s ∉ (configs w).config.states.map Prod.fst) :
    (mixLoop workloads configs mixProb (iterations + 1) throws rand w s).1 = [] := by
  rw [mixLoop, if_pos h]

/-- **The composed runs that keep the law** for `composeProb = p`: those in which the random value
of each iteration that changes state is below `p`, and there always is a state of another workload
to go to. Where a start function is missing or throws, no iteration changes state; in iteration `i`
one does when the state functions have returned so far. -/
theorem composed_lawful_iff (hrand : ∀ i, 0 ≤ env.rand i ∧ env.rand i < 1)
    (_ : options.get "composeProb" = .number (.fin p)) :
    (∀ m ∈ (composed workloads configs dbName collName options env).1,
        Lawful workloads (fun w => ⟨dbName, collName, configs w⟩) p m) ↔
      ∀ current, workloads[⌊env.rand 0 * workloads.length⌋.toNat]? = some current →
        OthersStart workloads configs env.startThrows current →
        (configs current).startState ∈ (configs current).states.map Prod.fst →
        ∀ i < 100, (∀ j ≤ i, env.throws j = false) → env.rand (2 * i + 1) < p ∧
          CanLeave workloads (fun w => ⟨dbName, collName, configs w⟩) current i := by
  have hrun : composed workloads configs dbName collName options env =
      runCombinedFSM workloads (fun w => ⟨dbName, collName, configs w⟩) (.object options) .always
        env := rfl
  rw [hrun, runCombinedFSM]
  cases hs : startCombined workloads (fun w => ⟨dbName, collName, configs w⟩) .always env with
  | error e =>
    refine ⟨fun _ current hget hothers => ?_, fun _ m hm => absurd hm List.not_mem_nil⟩
    rw [startCombined_eq_ok.mpr ⟨hget, hothers⟩] at hs
    cases hs
  | ok current =>
    obtain ⟨hget, hothers⟩ := startCombined_eq_ok.mp hs
    dsimp only
    by_cases hmem : (configs current).startState ∈ (configs current).states.map Prod.fst
    · rw [mixLoop_lawful_iff (fun i => hrand (i + 1)) hmem]
      refine ⟨fun h current' hget' _ _ => ?_, fun h => h current hget hothers hmem⟩
      rw [hget] at hget'
      cases hget'
      exact h
    · have hnil : (mixLoop workloads (fun w => ⟨dbName, collName, configs w⟩) (.object options) 100
          env.throws (fun i => env.rand (i + 1)) current (configs current).startState).1 = [] :=
        mixLoop_of_not_mem hmem
      rw [hnil]
      refine ⟨fun _ current' hget' _ hmem' => ?_, fun _ m hm => absurd hm List.not_mem_nil⟩
      rw [hget] at hget'
      cases hget'
      exact absurd hmem' hmem

end Composed

/-- A workload with two states, both followed by `work`. -/
def exampleWorkload : Config where
  threadCount := 1
  iterations := 2
  startState := "init"
  states := [("init", 2), ("work", 2)]
  transitions := [("init", [("work", .fin 1)]), ("work", [("work", .fin 1)])]
  setup := 0
  teardown := 0
  data := []
  passConnectionCache := false

/-- With `composeProb = 1` the law holds, of a run that does move. -/
theorem composed_lawful_one :
    (composed ["a", "b"] (fun _ => exampleWorkload) "db" "coll"
        [("composeProb", .number (.fin 1))]
        ⟨fun _ => false, fun _ => false, fun _ => 1 / 2⟩).1 ≠ [] ∧
    ∀ m ∈ (composed ["a", "b"] (fun _ => exampleWorkload) "db" "coll"
        [("composeProb", .number (.fin 1))] ⟨fun _ => false, fun _ => false, fun _ => 1 / 2⟩).1,
      Lawful ["a", "b"] (fun _ => ⟨"db", "coll", exampleWorkload⟩) 1 m := by
  have hmix : ∀ w ∈ ["a", "b"],
      Mixable ["a", "b"] (fun _ => ⟨"db", "coll", exampleWorkload⟩) w := by
    intro w hw
    exact ⟨hw, by simp [mixStates, exampleWorkload]⟩
  refine ⟨by decide +kernel, (composed_lawful_iff (fun _ => by norm_num) rfl).mpr ?_⟩
  intro current hcurrent _ _ i _ _
  refine ⟨by norm_num, ?_⟩
  cases i with
  | zero =>
    by_cases h : current = "a"
    · exact ⟨"b", by rw [h]; decide, hmix "b" (by decide)⟩
    · exact ⟨"a", fun h' => h h'.symm, hmix "a" (by decide)⟩
  | succ i => exact ⟨"a", "b", by decide, hmix "a" (by decide), hmix "b" (by decide)⟩

/-- With `composeProb = 1/2` and two workloads, a worker leaves its workload although its random
value is `1/2`. -/
theorem composed_ignores_composeProb :
    parseConfig (exampleConfig "init" ["init", "work"]
      [("init", [("work", .fin 1)]), ("work", [("work", .fin 1)])]) = .ok exampleWorkload ∧
    ∃ m ∈ (composed ["a", "b"] (fun _ => exampleWorkload) "db" "coll"
        [("composeProb", .number (.fin (1 / 2)))]
        ⟨fun _ => false, fun _ => false, fun _ => 1 / 2⟩).1,
      m.workload = "b" ∧ m.draw = 1 / 2 ∧ m.next = .ok ("a", "work") ∧
      ¬ Lawful ["a", "b"] (fun _ => ⟨"db", "coll", exampleWorkload⟩) (1 / 2) m := by
  refine ⟨rfl, ⟨"b", "init", 1 / 2, .ok ("a", "work")⟩, ?_, rfl, rfl, rfl, fun h => ?_⟩
  · exact List.mem_of_mem_head? (by decide +kernel)
  · obtain ⟨_, _, _, hnext, -⟩ := h.stays le_rfl
    simp at hnext

end MongoTests.Fsm
