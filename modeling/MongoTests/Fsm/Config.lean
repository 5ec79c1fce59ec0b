import Mathlib.Algebra.BigOperators.Group.List.Basic
import Mathlib.Data.Nat.Find
import MongoTests.Lib.Checked
import MongoTests.Lib.JsValue

/-!
# Configs and the run of a workload

`parseConfig` of `parse_config.js`, and `runFSM` with `getWeightedRandomChoice` of `fsm.js`. The
values of `Random.rand()` and the state functions that throw are the environment's.

* `parseConfig`: all its checks; the config it returns is typed as they allow.
* `getWeightedRandomChoice`, `runFSM`: one draw, and the loop over the iterations.
* `choice_eq_ok`, `choice_total_iff`: which states a draw can give, and when every draw gives one.
* `Safe`, `safe_succ`: no run raises an error of its own, unrolled by one iteration.
* **`run_safe_iff`**: the accepted configs whose runs are safe.
-/

namespace MongoTests.Fsm

open MongoTests.Lib MongoTests.Lib.Js

/-! ## The errors -/

inductive Thrown
  | typeError
  /-- A failed `assert` with the message that the script gives it. -/
  | assertion (msg : String)
  /-- What a state function throws. -/
  | stateFunction
  deriving DecidableEq, Repr

/-! ## `parseConfig` -/

/-- The targets of a state in their order, with their weights. -/
abbrev Targets := List (String × Number)

/-- A normalized config. A function is given by the number of its parameters. -/
structure Config where
  threadCount : ℕ
  iterations : ℕ
  startState : String
  states : List (String × ℕ)
  transitions : List (String × Targets)
  setup : ℕ
  teardown : ℕ
  data : Object
  passConnectionCache : Bool

def allowedKeys : List String :=
  ["data", "iterations", "passConnectionCache", "setup", "startState", "states", "teardown",
    "threadCount", "transitions"]

/-- The shell's `tojson` of a list of strings. -/
def tojson (l : List String) : String :=
  "[\n\t" ++ ",\n\t".intercalate (l.map fun s => "\"" ++ s ++ "\"") ++ "\n]"

def parseCount (v : Value) (integer positive : String) : Except Thrown ℕ :=
  match v with
  | .number (.fin x) => do
    ensure ((Number.fin x).isInteger = true) (.assertion integer)
    ensure (0 < x) (.assertion positive)
    pure x.num.toNat
  | _ => .error (.assertion integer)

def parseStartState (v : Value) : Except Thrown String :=
  match v.or (.string "init") with
  | .string s => .ok s
  | _ => .error (.assertion "")

def parseState (passConnectionCache : Bool) (k : String) : Value → Except Thrown (String × ℕ)
  | .function length => do
    if passConnectionCache then
      ensure (length = 3) (.assertion ("if passConnectionCache is true, state functions should " ++
        "accept 3 parameters: db, collName, and connCache"))
    else
      ensure (length = 2) (.assertion ("if passConnectionCache is false, state functions should " ++
        "accept 2 parameters: db and collName"))
    pure (k, length)
  | _ => .error (.assertion ("config.states." ++ k ++ " is not a function"))

def parseStates (passConnectionCache : Bool) : Value → Except Thrown (List (String × ℕ))
  | .object states => do
    ensure (0 < states.length) (.assertion "")
    states.mapM fun (k, v) => parseState passConnectionCache k v
  -- `typeof null` is `object`, but it has no keys.
  | .null => .error .typeError
  | _ => .error (.assertion "")

def missingTarget (fromState toState : String) : String :=
  "config.transitions." ++ fromState ++ " contains a state not in config.states: " ++ toState

def weightNotNumber (fromState toState : String) : String :=
  "transitions." ++ fromState ++ "." ++ toState ++ " should be a number"

def parseTarget (states : List String) (fromState toState : String) (v : Value) :
    Except Thrown (String × Number) := do
  ensure (toState ∈ states) (.assertion (missingTarget fromState toState))
  match v with
  | .number x => do
    ensure (x ≠ .nan)
      (.assertion ("transitions." ++ fromState ++ "." ++ toState ++ " cannot be NaN"))
    pure (toState, x)
  | _ => .error (.assertion (weightNotNumber fromState toState))

/-- The checks on `config.transitions[fromState]`. The keys of a string are the indexes of its
characters, which are no numbers. -/
def parseTargets (states : List String) (fromState : String) : Value → Except Thrown Targets
  | .object targets => do
    ensure (0 < targets.length) (.assertion "")
    targets.mapM fun (toState, v) => parseTarget states fromState toState v
  | .undefined | .null => .error .typeError
  | .string s => do
    ensure (s ≠ "") (.assertion "")
    ensure ("0" ∈ states) (.assertion (missingTarget fromState "0"))
    .error (.assertion (weightNotNumber fromState "0"))
  | .boolean _ | .number _ | .function _ => .error (.assertion "")

def parseTransitions (states : List String) : Value → Except Thrown (List (String × Targets))
  | .object transitions => do
    ensure (0 < transitions.length) (.assertion "")
    transitions.mapM fun (fromState, v) => do
      ensure (fromState ∈ states) (.assertion
        ("config.transitions contains a state not in config.states: " ++ fromState))
      let targets ← parseTargets states fromState v
      pure (fromState, targets)
  | .null => .error .typeError
  | _ => .error (.assertion "")

def parseFunction (v : Value) : Except Thrown ℕ :=
  match v.or (.function 0) with
  | .function length => .ok length
  | _ => .error (.assertion "")

def parseData (v : Value) : Except Thrown Object :=
  match v.or (.object []) with
  | .object data => do
    ensure ("tid" ∉ data.map Prod.fst) (.assertion "data object cannot redefine \"tid\"")
    ensure ("iterations" ∉ data.map Prod.fst)
      (.assertion "data object cannot redefine \"iterations\"")
    ensure ("threadCount" ∉ data.map Prod.fst)
      (.assertion "data object cannot redefine \"threadCount\"")
    pure data
  | _ => .error (.assertion "")

def parsePassConnectionCache (v : Value) : Except Thrown Bool :=
  match v.or (.boolean false) with
  | .boolean b => .ok b
  | _ => .error (.assertion "")

def parseConfig (config : Object) : Except Thrown Config := do
  config.forM fun (key, _) => ensure (key ∈ allowedKeys)
    (.assertion ("invalid config parameter: " ++ key ++ "; valid parameters are: " ++
      tojson allowedKeys))
  let threadCount ← parseCount (config.get "threadCount")
    "expected number of threads to be an integer" "expected number of threads to be positive"
  let iterations ← parseCount (config.get "iterations")
    "expected number of iterations to be an integer" "expected number of iterations to be positive"
  let startState ← parseStartState (config.get "startState")
  let states ← parseStates (config.get "passConnectionCache").truthy (config.get "states")
  let transitions ← parseTransitions (states.map Prod.fst) (config.get "transitions")
  let setup ← parseFunction (config.get "setup")
  let teardown ← parseFunction (config.get "teardown")
  let data ← parseData (config.get "data")
  let passConnectionCache ← parsePassConnectionCache (config.get "passConnectionCache")
  pure { threadCount, iterations, startState, states, transitions, setup, teardown, data,
         passConnectionCache }

/-! ## `runFSM` -/

/-- The sums that `reduce` leaves in `accumulated`, from `a` on. -/
def accumulate : Number → List Number → List Number
  | _, [] => []
  | a, b :: bs => a.add b :: accumulate (a.add b) bs

/-- `doc` is `none` where the script has `undefined`. -/
def getWeightedRandomChoice (doc : Option Targets) (randVal : ℚ) : Except Thrown String := do
  ensure (0 ≤ randVal) (.assertion "")
  ensure (randVal < 1) (.assertion "")
  match doc with
  | none => .error .typeError
  | some doc => do
    ensure (0 < doc.length)
      (.assertion "transition must have at least one state to transition to")
    let accumulated := accumulate (.fin 0) (doc.map Prod.snd)
    let sum := accumulated.getLast?.getD (.fin 0)
    match ((doc.map Prod.fst).zip accumulated).find? fun (_, a) => (sum.scale randVal).lt a with
    | some (state, _) => .ok state
    | none => .error (.assertion "not reached")

/-- The loop of `runFSM`, with the iterations that are left. `throws` tells for each iteration
whether the state function throws, `rand` gives its draw. -/
def runFSM (args : Config) :
    ℕ → (throws : ℕ → Bool) → (rand : ℕ → ℚ) → (currentState : String) → Except Thrown Unit
  | 0, _, _, _ => .ok ()
  | iterations + 1, throws, rand, currentState => do
    ensure (currentState ∈ args.states.map Prod.fst)
      (.assertion ("states." ++ currentState ++ " is not a function"))
    ensure (throws 0 = false) .stateFunction
    let nextState ← getWeightedRandomChoice (args.transitions.lookup currentState) (rand 0)
    runFSM args iterations (fun i => throws (i + 1)) (fun i => rand (i + 1)) nextState

/-! ## What `parseConfig` has checked -/

section Parsed

variable {config : Object} {c : Config}

/-- Every state that the transitions name has a state function. -/
structure Closed (c : Config) : Prop where
  source : ∀ s targets, (s, targets) ∈ c.transitions → s ∈ c.states.map Prod.fst
  target : ∀ s targets, (s, targets) ∈ c.transitions →
    ∀ t x, (t, x) ∈ targets → t ∈ c.states.map Prod.fst

theorem parseTarget_mem {states : List String} {s toState t : String} {v : Value} {x : Number}
    (h : parseTarget states s toState v = .ok (t, x)) : t ∈ states := by
  obtain ⟨_, hmem, h⟩ := bind_eq_ok.mp h
  split at h
  · obtain ⟨-, -, h⟩ := bind_eq_ok.mp h
    cases h
    exact ensure_eq_ok.mp hmem
  · cases h

theorem parseTargets_mem {states : List String} {s : String} {v : Value} {targets : Targets}
    (h : parseTargets states s v = .ok targets) : ∀ t x, (t, x) ∈ targets → t ∈ states := by
  intro t x ht
  cases v with
  | object os =>
    obtain ⟨-, -, h⟩ := bind_eq_ok.mp h
    obtain ⟨_, -, h⟩ := exists_of_mem_mapM h ht
    exact parseTarget_mem h
  | string s =>
    obtain ⟨-, -, h⟩ := bind_eq_ok.mp h
    obtain ⟨-, -, h⟩ := bind_eq_ok.mp h
    cases h
  | _ => cases h

theorem parseTransitions_mem {states : List String} {v : Value}
    {transitions : List (String × Targets)} (h : parseTransitions states v = .ok transitions) :
    ∀ s targets, (s, targets) ∈ transitions → s ∈ states ∧ ∀ t x, (t, x) ∈ targets → t ∈ states := by
  intro s targets hs
  cases v with
  | object os =>
    obtain ⟨-, -, h⟩ := bind_eq_ok.mp h
    obtain ⟨_, -, h⟩ := exists_of_mem_mapM h hs
    obtain ⟨_, hmem, h⟩ := bind_eq_ok.mp h
    obtain ⟨targets', htargets, h⟩ := bind_eq_ok.mp h
    cases h
    exact ⟨ensure_eq_ok.mp hmem, parseTargets_mem htargets⟩
  | _ => cases h

/-- An accepted config is closed. -/
theorem parseConfig_closed (h : parseConfig config = .ok c) : Closed c := by
  obtain ⟨-, -, h⟩ := bind_eq_ok.mp h
  obtain ⟨threadCount, -, h⟩ := bind_eq_ok.mp h
  obtain ⟨iterations, -, h⟩ := bind_eq_ok.mp h
  obtain ⟨startState, -, h⟩ := bind_eq_ok.mp h
  obtain ⟨states, -, h⟩ := bind_eq_ok.mp h
  obtain ⟨transitions, htransitions, h⟩ := bind_eq_ok.mp h
  obtain ⟨setup, -, h⟩ := bind_eq_ok.mp h
  obtain ⟨teardown, -, h⟩ := bind_eq_ok.mp h
  obtain ⟨data, -, h⟩ := bind_eq_ok.mp h
  obtain ⟨passConnectionCache, -, h⟩ := bind_eq_ok.mp h
  cases h
  have hmem := parseTransitions_mem htransitions
  exact ⟨fun s targets hs => (hmem s targets hs).1, fun s targets hs => (hmem s targets hs).2⟩

end Parsed

/-! ## One draw -/

section Draw

variable {doc : Targets} {ws : List ℚ} {r : ℚ} {t : String}

/-- The sum of the first `i + 1` weights. -/
def prefixSum (ws : List ℚ) (i : ℕ) : ℚ := (ws.take (i + 1)).sum

/-- The weights of `doc` are the rationals `ws`. -/
def Weighs (doc : Targets) (ws : List ℚ) : Prop := doc.map Prod.snd = ws.map .fin

/-- The weights are finite, and those of the first few targets have a positive sum. -/
def Drawable (doc : Targets) : Prop :=
  ∃ ws, Weighs doc ws ∧ ∃ i < ws.length, 0 < prefixSum ws i

/-- A random value scaled by the sum of the weights falls below the sum at the `i`-th target `t`
and not below an earlier one. -/
def Draws (doc : Targets) (t : String) : Prop :=
  ∃ ws, Weighs doc ws ∧ ∃ r : ℚ, 0 ≤ r ∧ r < 1 ∧ ∃ i, (doc.map Prod.fst)[i]? = some t ∧
    r * ws.sum < prefixSum ws i ∧ ∀ j < i, prefixSum ws j ≤ r * ws.sum

theorem accumulate_fin (a : ℚ) (ws : List ℚ) :
    accumulate (.fin a) (ws.map .fin) =
      (List.range ws.length).map fun i => .fin (a + prefixSum ws i) := by
  induction ws generalizing a with
  | nil => rfl
  | cons w ws ih =>
    rw [List.map_cons, accumulate, List.length_cons, List.range_succ_eq_map, List.map_cons,
      List.map_map]
    congr 1
    · simp [Number.add, prefixSum]
    · rw [Number.add, ih]
      refine List.map_congr_left fun i _ => ?_
      simp [prefixSum, add_assoc]

/-- The last of the sums is that of all weights. -/
theorem sum_eq_foldl (a : Number) (ws : List Number) :
    (accumulate a ws).getLast?.getD a = ws.foldl Number.add a := by
  induction ws generalizing a with
  | nil => rfl
  | cons w ws ih =>
    rw [accumulate, List.getLast?_cons, Option.getD_some, ih, List.foldl_cons]

theorem foldl_add_fin (a : ℚ) (ws : List ℚ) :
    (ws.map Number.fin).foldl Number.add (.fin a) = .fin (a + ws.sum) := by
  induction ws generalizing a with
  | nil => simp
  | cons w ws ih =>
    rw [List.map_cons, List.foldl_cons, Number.add, ih, List.sum_cons, add_assoc]

/-- Where a weight is not finite, neither is the sum. -/
theorem exists_fin_of_foldl {a : Number} {ws : List Number} {x : ℚ}
    (h : ws.foldl Number.add a = .fin x) : (∃ y, a = .fin y) ∧ ∃ ys : List ℚ, ws = ys.map .fin := by
  induction ws generalizing a with
  | nil => exact ⟨⟨x, h⟩, [], rfl⟩
  | cons w ws ih =>
    obtain ⟨⟨y, hy⟩, ys, rfl⟩ := ih h
    cases a with
    | fin b =>
      cases w with
      | fin c => exact ⟨⟨b, rfl⟩, c :: ys, rfl⟩
      | _ => cases hy
    | _ => cases w <;> cases hy

/-- A random value in range goes straight to the search. -/
theorem choice_eq (h0 : 0 ≤ r) (h1 : r < 1) (hdoc : doc ≠ []) :
    getWeightedRandomChoice (some doc) r =
      match ((doc.map Prod.fst).zip (accumulate (.fin 0) (doc.map Prod.snd))).find? fun (_, a) =>
        (((doc.map Prod.snd).foldl Number.add (.fin 0)).scale r).lt a with
      | some (state, _) => .ok state
      | none => .error (.assertion "not reached") := by
  have hlen : 0 < doc.length := List.length_pos_of_ne_nil hdoc
  rw [← sum_eq_foldl]
  simp only [getWeightedRandomChoice, ensure, if_pos h0, if_pos h1, if_pos hlen]
  rfl

/-- **The choice**: the first target whose sum exceeds the scaled random value. -/
theorem choice_eq_ok (hw : Weighs doc ws) (h0 : 0 ≤ r) (h1 : r < 1) (hdoc : doc ≠ []) :
    getWeightedRandomChoice (some doc) r = .ok t ↔
      ∃ i, (doc.map Prod.fst)[i]? = some t ∧ r * ws.sum < prefixSum ws i ∧
        ∀ j < i, prefixSum ws j ≤ r * ws.sum := by
  have hlen : doc.length = ws.length := by simpa using congrArg List.length hw
  rw [choice_eq h0 h1 hdoc, hw, foldl_add_fin, accumulate_fin]
  simp only [zero_add, Number.scale]
  constructor
  · intro h
    split at h
    · rename_i state a hfind
      cases h
      obtain ⟨hlt, i, hi, hget, hbefore⟩ := List.find?_eq_some_iff_getElem.mp hfind
      simp only [List.getElem_zip, List.getElem_map, List.getElem_range, Prod.mk.injEq] at hget
      obtain ⟨rfl, rfl⟩ := hget
      have hi' : i < doc.length := by
        rw [List.length_zip, List.length_map] at hi
        exact lt_of_lt_of_le hi (min_le_left _ _)
      refine ⟨i, by simp [hi'], Number.fin_lt_fin.mp hlt, fun j hj => ?_⟩
      simpa [List.getElem_zip, Number.lt] using hbefore j hj
    · cases h
  · rintro ⟨i, hi, hlt, hbefore⟩
    obtain ⟨hi', hget⟩ := List.getElem?_eq_some_iff.mp hi
    rw [List.length_map] at hi'
    have hfind : ((doc.map Prod.fst).zip
        ((List.range ws.length).map fun i => Number.fin (prefixSum ws i))).find?
          (fun x => (Number.fin (r * ws.sum)).lt x.2) = some (t, .fin (prefixSum ws i)) := by
      refine List.find?_eq_some_iff_getElem.mpr
        ⟨Number.fin_lt_fin.mpr hlt, i, by simp [← hlen, hi'], ?_, fun j hj => ?_⟩
      · simpa [List.getElem_zip] using hget
      · simpa [List.getElem_zip, Number.lt] using hbefore j hj
    rw [hfind]

theorem weighs_of_choice (h : getWeightedRandomChoice (some doc) 0 = .ok t) (hdoc : doc ≠ []) :
    ∃ ws, Weighs doc ws := by
  rw [choice_eq le_rfl zero_lt_one hdoc] at h
  by_cases hfin : ∃ x, (doc.map Prod.snd).foldl Number.add (.fin 0) = .fin x
  · obtain ⟨x, hx⟩ := hfin
    exact (exists_fin_of_foldl hx).2
  · have hnan := Number.scale_zero_of_ne_fin fun y hy => hfin ⟨y, hy⟩
    simp only [hnan, Number.nan_lt] at h
    rw [List.find?_eq_none.mpr fun _ _ => Bool.false_ne_true] at h
    cases h

/-- **Every random value gives a state** exactly when the weights are finite and some of the first
few have a positive sum. -/
theorem choice_total_iff (hdoc : doc ≠ []) :
    (∀ r, 0 ≤ r → r < 1 → ∃ t, getWeightedRandomChoice (some doc) r = .ok t) ↔ Drawable doc := by
  constructor
  · intro h
    obtain ⟨t, ht⟩ := h 0 le_rfl zero_lt_one
    obtain ⟨ws, hw⟩ := weighs_of_choice ht hdoc
    obtain ⟨i, hi, hlt, -⟩ := (choice_eq_ok hw le_rfl zero_lt_one hdoc).mp ht
    rw [zero_mul] at hlt
    have hlen : doc.length = ws.length := by simpa using congrArg List.length hw
    obtain ⟨hi, -⟩ := List.getElem?_eq_some_iff.mp hi
    rw [List.length_map, hlen] at hi
    exact ⟨ws, hw, i, hi, hlt⟩
  · rintro ⟨ws, hw, i, hi, hpos⟩ r h0 h1
    -- The scaled value is below the last sum when that is positive, else below the positive one.
    have hex : ∃ j, j < ws.length ∧ r * ws.sum < prefixSum ws j := by
      obtain hs | hs := lt_or_ge 0 ws.sum
      · refine ⟨ws.length - 1, by omega, ?_⟩
        have hall : prefixSum ws (ws.length - 1) = ws.sum := by
          rw [prefixSum, Nat.sub_add_cancel (by omega), List.take_length]
        rw [hall]
        exact mul_lt_of_lt_one_left hs h1
      · exact ⟨i, hi, lt_of_le_of_lt (mul_nonpos_of_nonneg_of_nonpos h0 hs) hpos⟩
    classical
    obtain ⟨hj, hlt⟩ := Nat.find_spec hex
    have hlen : doc.length = ws.length := by simpa using congrArg List.length hw
    have hj' : Nat.find hex < (doc.map Prod.fst).length := by
      rw [List.length_map, hlen]
      exact hj
    refine ⟨_, (choice_eq_ok hw h0 h1 hdoc).mpr
      ⟨_, List.getElem?_eq_getElem hj', hlt, fun k hk => ?_⟩⟩
    have hmin := Nat.find_min hex hk
    exact not_lt.mp fun hlt' => hmin ⟨hk.trans hj, hlt'⟩

/-- The states that random values give. -/
theorem draws_iff (hd : Drawable doc) (hdoc : doc ≠ []) :
    Draws doc t ↔ ∃ r, 0 ≤ r ∧ r < 1 ∧ getWeightedRandomChoice (some doc) r = .ok t := by
  obtain ⟨ws, hw, -⟩ := hd
  constructor
  · rintro ⟨ws', hw', r, h0, h1, hi⟩
    exact ⟨r, h0, h1, (choice_eq_ok hw' h0 h1 hdoc).mpr hi⟩
  · rintro ⟨r, h0, h1, h⟩
    exact ⟨ws, hw, r, h0, h1, (choice_eq_ok hw h0 h1 hdoc).mp h⟩

theorem Drawable.ne_nil (h : Drawable doc) : doc ≠ [] := by
  rintro rfl
  obtain ⟨ws, hw, i, hi, -⟩ := h
  have hlen : 0 = ws.length := by simpa using congrArg List.length hw
  omega

theorem Draws.mem (h : Draws doc t) : ∃ x, (t, x) ∈ doc := by
  obtain ⟨-, -, r, -, -, i, hi, -⟩ := h
  obtain ⟨⟨t', x⟩, hmem, rfl⟩ := List.mem_map.mp (List.mem_of_getElem? hi)
  exact ⟨x, hmem⟩

end Draw

/-! ## Safe runs -/

section Safety

variable {c : Config} {iterations : ℕ} {s t : String}

/-- In no run of that many iterations from `s` does anything but a state function throw. -/
def Safe (c : Config) (iterations : ℕ) (s : String) : Prop :=
  ∀ throws rand, (∀ i, 0 ≤ rand i ∧ rand i < 1) →
    ∀ e, runFSM c iterations throws rand s = .error e → e = .stateFunction

/-- The state has transitions, and every random value takes one of them. -/
def HasNext (c : Config) (s : String) : Prop :=
  ∃ doc, c.transitions.lookup s = some doc ∧ Drawable doc

/-- A random value can take state `s` to `t`. -/
def Edge (c : Config) (s t : String) : Prop :=
  ∃ doc, c.transitions.lookup s = some doc ∧ Draws doc t

/-- Random values can take state `s` to `t` in `k` iterations. -/
def Leads (c : Config) : ℕ → String → String → Prop
  | 0, s, t => s = t
  | k + 1, s, t => ∃ u, Edge c s u ∧ Leads c k u t

/-- An iteration in which the state function returns. -/
theorem runFSM_succ {throws : ℕ → Bool} {rand : ℕ → ℚ} (hs : s ∈ c.states.map Prod.fst)
    (hthrows : throws 0 = false) : runFSM c (iterations + 1) throws rand s =
      getWeightedRandomChoice (c.transitions.lookup s) (rand 0) >>=
        runFSM c iterations (fun i => throws (i + 1)) (fun i => rand (i + 1)) := by
  rw [runFSM, ensure, if_pos hs, ensure, if_pos hthrows]
  rfl

theorem choice_ne_stateFunction (doc : Option Targets) (r : ℚ) :
    getWeightedRandomChoice doc r ≠ .error .stateFunction := by
  intro h
  obtain h | ⟨_, -, h⟩ := bind_eq_error.mp h
  · cases (ensure_eq_error.mp h).2
  obtain h | ⟨_, -, h⟩ := bind_eq_error.mp h
  · cases (ensure_eq_error.mp h).2
  cases doc with
  | none => cases h
  | some doc =>
    obtain h | ⟨_, -, h⟩ := bind_eq_error.mp h
    · cases (ensure_eq_error.mp h).2
    dsimp only at h
    split at h <;> cases h

/-- **One iteration**, for each random value. -/
theorem safe_succ_iff_choice : Safe c (iterations + 1) s ↔ s ∈ c.states.map Prod.fst ∧
    ∀ r, 0 ≤ r → r < 1 →
      ∃ t, getWeightedRandomChoice (c.transitions.lookup s) r = .ok t ∧ Safe c iterations t := by
  constructor
  · intro h
    have hmem : s ∈ c.states.map Prod.fst := by
      by_contra hmem
      have herr : runFSM c (iterations + 1) (fun _ => false) (fun _ => 0) s =
          .error (.assertion ("states." ++ s ++ " is not a function")) := by
        rw [runFSM, ensure, if_neg hmem]
        rfl
      cases h _ _ (fun _ => ⟨le_rfl, zero_lt_one⟩) _ herr
    refine ⟨hmem, fun r h0 h1 => ?_⟩
    cases hc : getWeightedRandomChoice (c.transitions.lookup s) r with
    | error e =>
      have herr : runFSM c (iterations + 1) (fun _ => false) (fun _ => r) s = .error e := by
        rw [runFSM_succ hmem rfl, hc]
        rfl
      obtain rfl := h _ _ (fun _ => ⟨h0, h1⟩) e herr
      exact absurd hc (choice_ne_stateFunction _ _)
    | ok t =>
      refine ⟨t, rfl, fun throws rand hrand e he => ?_⟩
      refine h (fun i => i.casesOn false throws) (fun i => i.casesOn r rand) (fun i => ?_) e ?_
      · cases i with
        | zero => exact ⟨h0, h1⟩
        | succ i => exact hrand i
      · rw [runFSM_succ hmem rfl]
        exact bind_eq_error.mpr (.inr ⟨t, hc, he⟩)
  · rintro ⟨hmem, h⟩ throws rand hrand e he
    cases hthrows : throws 0 with
    | true =>
      rw [runFSM, ensure, if_pos hmem, ensure, if_neg (by rw [hthrows]; exact Bool.noConfusion)]
        at he
      cases he
      rfl
    | false =>
      obtain ⟨t, ht, hsafe⟩ := h (rand 0) (hrand 0).1 (hrand 0).2
      rw [runFSM_succ hmem hthrows, ht] at he
      exact hsafe _ _ (fun i => hrand (i + 1)) e he

/-- **One iteration.** -/
theorem safe_succ : Safe c (iterations + 1) s ↔
    s ∈ c.states.map Prod.fst ∧ HasNext c s ∧ ∀ t, Edge c s t → Safe c iterations t := by
  rw [safe_succ_iff_choice]
  refine and_congr_right fun _ => ⟨fun h => ?_, ?_⟩
  · cases hdoc : c.transitions.lookup s with
    | none =>
      obtain ⟨t, ht, -⟩ := h 0 le_rfl zero_lt_one
      rw [hdoc] at ht
      cases ht
    | some doc =>
      rw [hdoc] at h
      have hne : doc ≠ [] := by
        rintro rfl
        obtain ⟨t, ht, -⟩ := h 0 le_rfl zero_lt_one
        cases ht
      have hd : Drawable doc := by
        refine (choice_total_iff hne).mp fun r h0 h1 => ?_
        obtain ⟨t, ht, -⟩ := h r h0 h1
        exact ⟨t, ht⟩
      refine ⟨⟨doc, hdoc, hd⟩, ?_⟩
      rintro t ⟨doc', hdoc', ht⟩
      rw [hdoc] at hdoc'
      cases hdoc'
      obtain ⟨r, h0, h1, hr⟩ := (draws_iff hd hne).mp ht
      obtain ⟨t', ht', hsafe⟩ := h r h0 h1
      rw [hr] at ht'
      cases ht'
      exact hsafe
  · rintro ⟨⟨doc, hdoc, hd⟩, h⟩ r h0 h1
    obtain ⟨t, ht⟩ := (choice_total_iff hd.ne_nil).mpr hd r h0 h1
    rw [hdoc]
    exact ⟨t, ht, h t ⟨doc, hdoc, (draws_iff hd hd.ne_nil).mpr ⟨r, h0, h1, ht⟩⟩⟩

theorem Edge.mem (hc : Closed c) (h : Edge c s t) : t ∈ c.states.map Prod.fst := by
  obtain ⟨doc, hdoc, hdraws⟩ := h
  obtain ⟨x, hx⟩ := hdraws.mem
  obtain ⟨l₁, l₂, hl, -⟩ := List.lookup_eq_some_iff.mp hdoc
  refine hc.target s doc ?_ t x hx
  rw [hl]
  exact List.mem_append_right _ List.mem_cons_self

/-- A run is safe from a state that has a function exactly when all states that it can come to
have a next one. -/
theorem safe_iff (hc : Closed c) (hs : s ∈ c.states.map Prod.fst) :
    Safe c iterations s ↔ ∀ k < iterations, ∀ t, Leads c k s t → HasNext c t := by
  induction iterations generalizing s with
  | zero =>
    refine ⟨fun _ k hk => absurd hk (Nat.not_lt_zero k), fun _ throws rand _ e he => ?_⟩
    cases he
  | succ iterations ih =>
    rw [safe_succ]
    constructor
    · rintro ⟨-, hnext, h⟩ k hk t ht
      cases k with
      | zero =>
        cases ht
        exact hnext
      | succ k =>
        obtain ⟨u, hu, ht⟩ := ht
        exact (ih (hu.mem hc)).mp (h u hu) k (Nat.lt_of_succ_lt_succ hk) t ht
    · intro h
      refine ⟨hs, h 0 (Nat.succ_pos _) s rfl, fun u hu => (ih (hu.mem hc)).mpr ?_⟩
      intro k hk t ht
      exact h (k + 1) (Nat.succ_lt_succ hk) t ⟨u, hu, ht⟩

/-- **The configs whose runs are safe.** A workload with an accepted config never comes to a state
without a function or without transitions, and never fails to choose, whatever the random values,
exactly when its start state has a function, and each state that random values can lead to before
the last iteration has transitions with finite weights of which the first few have a positive
sum. -/
theorem run_safe_iff {config : Object} (h : parseConfig config = .ok c) (hpos : 0 < iterations) :
    Safe c iterations c.startState ↔ c.startState ∈ c.states.map Prod.fst ∧
      ∀ k < iterations, ∀ t, Leads c k c.startState t → HasNext c t := by
  have hc := parseConfig_closed h
  constructor
  · intro hsafe
    obtain ⟨iterations, rfl⟩ := Nat.exists_eq_succ_of_ne_zero hpos.ne'
    have hmem := (safe_succ.mp hsafe).1
    exact ⟨hmem, (safe_iff hc hmem).mp hsafe⟩
  · rintro ⟨hmem, hnext⟩
    exact (safe_iff hc hmem).mpr hnext

end Safety

/-- A workload of two iterations. -/
def exampleConfig (startState : String) (states : List String)
    (transitions : List (String × Targets)) : Object :=
  [("threadCount", .number (.fin 1)), ("iterations", .number (.fin 2)),
    ("startState", .string startState), ("states", .object (states.map fun s => (s, .function 2))),
    ("transitions", .object (transitions.map fun (s, targets) =>
      (s, .object (targets.map fun (t, x) => (t, .number x)))))]

/-- A state that is followed by another, which is never left. -/
theorem run_safe_iff_two : ∃ c,
    parseConfig (exampleConfig "init" ["init", "work"]
      [("init", [("work", .fin 1)]), ("work", [("work", .fin 1)])]) = .ok c ∧
    Safe c c.iterations c.startState := by
  have hd : Drawable [("work", .fin 1)] := ⟨[1], rfl, 0, by decide, by simp [prefixSum]⟩
  refine ⟨_, rfl, (@run_safe_iff _ _ (exampleConfig "init" ["init", "work"]
    [("init", [("work", .fin 1)]), ("work", [("work", .fin 1)])]) rfl (by decide)).mpr
    ⟨by decide, fun k hk t ht => ?_⟩⟩
  cases k with
  | zero =>
    cases ht
    exact ⟨_, rfl, hd⟩
  | succ k =>
    obtain ⟨u, ⟨doc, hdoc, hu⟩, ht⟩ := ht
    cases hdoc
    obtain ⟨x, hx⟩ := hu.mem
    obtain rfl : k = 0 := by
      change k + 1 < 2 at hk
      omega
    cases ht
    cases List.mem_singleton.mp hx
    exact ⟨_, rfl, hd⟩

/-- Accepted configs whose runs fail: without a function for the start state, with a state that has
no transitions, and with weights that have no positive sum. -/
theorem accepted_config_fails :
    (∃ c, parseConfig (exampleConfig "" ["work"] [("work", [("work", .fin 1)])]) = .ok c ∧
      runFSM c c.iterations (fun _ => false) (fun _ => 0) c.startState =
        .error (.assertion "states.init is not a function")) ∧
    (∃ c, parseConfig (exampleConfig "init" ["init", "work"]
        [("init", [("work", .fin 1)])]) = .ok c ∧
      runFSM c c.iterations (fun _ => false) (fun _ => 0) c.startState = .error .typeError) ∧
    ∃ c, parseConfig (exampleConfig "init" ["init"] [("init", [("init", .fin 0)])]) = .ok c ∧
      runFSM c c.iterations (fun _ => false) (fun _ => 0) c.startState =
        .error (.assertion "not reached") :=
  ⟨⟨_, rfl, rfl⟩, ⟨_, rfl, by decide +kernel⟩, ⟨_, rfl, by decide +kernel⟩⟩

end MongoTests.Fsm
