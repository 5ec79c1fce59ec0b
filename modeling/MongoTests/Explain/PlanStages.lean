import Mathlib.Algebra.BigOperators.Group.List.Basic
import Mathlib.Algebra.GroupWithZero.Nat
import MongoTests.Lib.Tree

/-!
# Stages of a plan

`getPlanStages` and `getChunkSkips` of `jstests/libs/analyze_plan.js`.

* `Stage`: a stage of an explain output with the fields that the helpers follow.
* `getPlanStages`, `getChunkSkips`: the code.
* `firstFilter`, `width`: the filter behind the first inputs, and how often it is counted.
* **`chunk_skips_iff`**: the trees whose chunk skips are summed.
-/

namespace MongoTests.Explain

open MongoTests.Lib

/-- A stage. A list that is absent is empty; `winningPlan` is that of `queryPlanner`, and `shards` has
the plan of each shard. -/
inductive Stage where
  | mk (stage : String) (chunkSkips : ℕ) (inputStage : Option Stage) (inputStages : List Stage)
      (winningPlan : Option Stage) (shards : List Stage)

namespace Stage

def name : Stage → String
  | mk stage _ _ _ _ _ => stage

def chunkSkips : Stage → ℕ
  | mk _ chunkSkips _ _ _ _ => chunkSkips

def children : Stage → List Stage
  | mk _ _ inputStage inputStages winningPlan shards =>
    inputStage.toList ++ inputStages ++ winningPlan.toList ++ shards

end Stage

mutual

def getPlanStages (stage : String) : Stage → List Stage
  | .mk name chunkSkips inputStage inputStages winningPlan shards =>
    (if name = stage then [.mk name chunkSkips inputStage inputStages winningPlan shards] else []) ++
      (getPlanStagesOf stage inputStage ++ getPlanStagesOfAll stage inputStages ++
        getPlanStagesOf stage winningPlan ++ getPlanStagesOfAll stage shards)

def getPlanStagesOf (stage : String) : Option Stage → List Stage
  | none => []
  | some root => getPlanStages stage root

def getPlanStagesOfAll (stage : String) : List Stage → List Stage
  | [] => []
  | root :: roots => getPlanStages stage root ++ getPlanStagesOfAll stage roots

end

def shardingFilter : String := "SHARDING_FILTER"

/-- The loop over `inputStages` takes the first one each time. -/
def getChunkSkips : Stage → ℕ
  | .mk stage chunkSkips (some inputStage) _ _ _ =>
    if stage = shardingFilter then chunkSkips else getChunkSkips inputStage
  | .mk stage chunkSkips none [] _ _ => if stage = shardingFilter then chunkSkips else 0
  | .mk stage chunkSkips none (first :: rest) _ _ =>
    if stage = shardingFilter then chunkSkips
    else (first :: rest).foldl (fun skips _ => skips + getChunkSkips first) 0

/-! ## What is counted -/

/-- The first `SHARDING_FILTER` on the way along first inputs. -/
def firstFilter : Stage → Option Stage
  | .mk stage chunkSkips (some inputStage) inputStages winningPlan shards =>
    if stage = shardingFilter then
      some (.mk stage chunkSkips (some inputStage) inputStages winningPlan shards)
    else firstFilter inputStage
  | .mk stage chunkSkips none [] winningPlan shards =>
    if stage = shardingFilter then some (.mk stage chunkSkips none [] winningPlan shards) else none
  | .mk stage chunkSkips none (first :: rest) winningPlan shards =>
    if stage = shardingFilter then some (.mk stage chunkSkips none (first :: rest) winningPlan shards)
    else firstFilter first

/-- The product of the numbers of inputs on this way. -/
def width : Stage → ℕ
  | .mk stage _ (some inputStage) _ _ _ => if stage = shardingFilter then 1 else width inputStage
  | .mk _ _ none [] _ _ => 1
  | .mk stage _ none (first :: rest) _ _ =>
    if stage = shardingFilter then 1 else (rest.length + 1) * width first

/-- The chunk skips of all filters. -/
def totalChunkSkips (root : Stage) : ℕ := ((getPlanStages shardingFilter root).map Stage.chunkSkips).sum

/-- Each stage with the name is there once, by its place. -/
def ListsStages (stage : String) (root : Stage) (stages : List Stage) : Prop :=
  ∃ places, Tree.Lists Stage.children (fun s => s.name = stage) root stages places

section Result

variable {stage : String}

theorem wellFounded_children : WellFounded fun b a : Stage => b ∈ a.children := by
  refine Subrelation.wf (fun {b a} h => ?_) (measure (sizeOf : Stage → ℕ)).wf
  obtain ⟨name, chunkSkips, inputStage, inputStages, winningPlan, shards⟩ := a
  change sizeOf b < sizeOf (Stage.mk name chunkSkips inputStage inputStages winningPlan shards)
  simp only [Stage.children, List.mem_append, Option.mem_toList] at h
  rw [Stage.mk.sizeOf_spec]
  rcases h with ((rfl | h) | rfl) | h
  · simp only [Option.some.sizeOf_spec]
    omega
  · have := List.sizeOf_lt_of_mem h
    omega
  · simp only [Option.some.sizeOf_spec]
    omega
  · have := List.sizeOf_lt_of_mem h
    omega

theorem getPlanStagesOf_eq (root : Option Stage) :
    getPlanStagesOf stage root = root.toList.flatMap (getPlanStages stage) := by
  cases root with
  | none => rfl
  | some root => rw [getPlanStagesOf, Option.toList_some, List.flatMap_singleton]

theorem getPlanStagesOfAll_eq (roots : List Stage) :
    getPlanStagesOfAll stage roots = roots.flatMap (getPlanStages stage) := by
  induction roots with
  | nil => rfl
  | cons root roots ih => rw [getPlanStagesOfAll, ih, List.flatMap_cons]

theorem isPreorder_getPlanStages (stage : String) :
    Tree.IsPreorder Stage.children (fun s => s.name = stage) (getPlanStages stage) where
  wf := wellFounded_children
  eq root := by
    obtain ⟨name, chunkSkips, inputStage, inputStages, winningPlan, shards⟩ := root
    rw [getPlanStages, getPlanStagesOf_eq, getPlanStagesOfAll_eq, getPlanStagesOf_eq, getPlanStagesOfAll_eq,
      Stage.children, List.flatMap_append, List.flatMap_append, List.flatMap_append]
    rfl

theorem foldl_add (n m : ℕ) (stages : List Stage) :
    stages.foldl (fun skips _ => skips + n) m = m + stages.length * n := by
  induction stages generalizing m with
  | nil => simp
  | cons s stages ih => rw [List.foldl_cons, ih, List.length_cons, Nat.add_mul, Nat.one_mul, Nat.add_assoc,
      Nat.add_comm n]

/-- The filter behind the first inputs is counted once for each input on the way. -/
theorem getChunkSkips_eq (root : Stage) :
    getChunkSkips root = width root * ((firstFilter root).map Stage.chunkSkips).getD 0 := by
  fun_induction getChunkSkips root with
  | case1 chunkSkips inputStage inputStages winningPlan shards =>
    rw [firstFilter, width, if_pos rfl, if_pos rfl, Nat.one_mul]
    rfl
  | case2 stage chunkSkips inputStage inputStages winningPlan shards hother ih =>
    rw [firstFilter, width, if_neg hother, if_neg hother, ih]
  | case3 chunkSkips winningPlan shards =>
    rw [firstFilter, width, if_pos rfl, Nat.one_mul]
    rfl
  | case4 stage chunkSkips winningPlan shards hother =>
    rw [firstFilter, if_neg hother]
    rfl
  | case5 chunkSkips first rest winningPlan shards =>
    rw [firstFilter, width, if_pos rfl, if_pos rfl, Nat.one_mul]
    rfl
  | case6 stage chunkSkips first rest winningPlan shards hother ih =>
    rw [firstFilter, width, if_neg hother, if_neg hother, foldl_add, ih, List.length_cons, Nat.zero_add,
      Nat.mul_assoc]

/-- **Chunk skips.** All stages are listed, and the chunk skips of the filters are summed if and only if
the filter behind the first inputs, counted once for each input on the way, has the same sum. -/
theorem chunk_skips_iff (root : Stage) :
    ((∀ stage, ListsStages stage root (getPlanStages stage root)) ∧
      getChunkSkips root = totalChunkSkips root) ↔
    width root * ((firstFilter root).map Stage.chunkSkips).getD 0 = totalChunkSkips root := by
  have hlists : ∀ stage, ListsStages stage root (getPlanStages stage root) :=
    fun stage => (isPreorder_getPlanStages stage).lists root
  rw [getChunkSkips_eq, and_iff_right hlists]

end Result

/-! ## Branches that differ -/

/-- The execution stats of a plan: a stage has one input or a list of inputs, and no filter is below
another one. -/
inductive ExecTree : Stage → Prop
  | leaf (stage : String) (chunkSkips : ℕ) : ExecTree (.mk stage chunkSkips none [] none [])
  | one (stage : String) (chunkSkips : ℕ) {input : Stage} (hinput : ExecTree input)
      (hfilter : stage = shardingFilter → getPlanStages shardingFilter input = []) :
      ExecTree (.mk stage chunkSkips (some input) [] none [])
  | many (stage : String) (chunkSkips : ℕ) {inputs : List Stage} (hinputs : ∀ input ∈ inputs, ExecTree input)
      (hfilter : stage = shardingFilter → getPlanStagesOfAll shardingFilter inputs = []) :
      ExecTree (.mk stage chunkSkips none inputs none [])

def filterStage (chunkSkips : ℕ) : Stage := .mk shardingFilter chunkSkips none [] none []

def orStage : Stage := .mk "OR" 0 none [filterStage 3, filterStage 4] none []

/-- The second branch is not looked at. -/
theorem orStage_not_summed : ExecTree orStage ∧ getChunkSkips orStage ≠ totalChunkSkips orStage := by
  refine ⟨.many _ _ (fun input h => ?_) (fun h => ?_), by decide⟩
  · simp only [List.mem_cons, List.not_mem_nil, or_false] at h
    obtain rfl | rfl := h
    · exact .leaf _ _
    · exact .leaf _ _
  · exact absurd h (by decide)

end MongoTests.Explain
