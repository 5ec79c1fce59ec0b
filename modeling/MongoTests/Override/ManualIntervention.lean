import Mathlib.Data.List.Basic
import Mathlib.Data.Nat.Basic
import Mathlib.Tactic.SplitIfs

/-!
# Manual intervention

`mongos_manual_intervention_actions.js`. The answers of the server are a list, which is read in order.

* `Command`, `Out`: the commands; `output` and `targetNs` are what they write to.
* `removeChunks`, `cleanup`, `attempt`, `runCommand`: the code, with a trace of what is sent.
* `Phase`, `run`: a machine with the same exchanges (`attempt_eq_run`), and what holds in all its runs.
* `Correct`: only the output collection is touched, and only where that is asked for.
* **`runCommand_correct_iff`**: a wrong collection is dropped where a name has a dot.
-/

namespace MongoTests.Override.ManualIntervention

/-! ## Commands and answers -/

/-- A name is not empty. -/
abbrev Name := {s : List Char // s ≠ []}

structure OutObject where
  replace : Option Name
  merge : Option Name
  reduce : Option Name
  db : Option Name
  given : ((replace.or merge).or reduce).isSome

namespace OutObject

def collName (out : OutObject) : Name := ((out.replace.or out.merge).or out.reduce).get out.given

end OutObject

inductive Out where
  | string (name : Name)
  | object (out : OutObject)
  | other

/-- The commands to retry, in both spellings of their first key. -/
inductive Command where
  | shardCollection (ns : List Char)
  | mapReduce (out : Out)

/-- An answer of the server. -/
structure Reply where
  /-- `ok === 1` -/
  ok : Bool
  /-- `code === ErrorCodes.ManualInterventionRequired` -/
  manualInterventionRequired : Bool
  /-- `assert.commandWorked` accepts the answer. -/
  worked : Bool
  nRemoved : ℕ
  deriving DecidableEq

def Reply.Needs (res : Reply) : Prop := res.ok = false ∧ res.manualInterventionRequired = true

instance : DecidablePred Reply.Needs := fun _ => by
  unfold Reply.Needs
  infer_instance

inductive Event where
  /-- The command itself. -/
  | run
  | remove (ns : List Char)
  | drop (dbName collName : List Char)
  deriving DecidableEq

inductive Outcome where
  | returned (res : Reply)
  | threw
  /-- The next answer has not arrived. -/
  | waiting
  deriving DecidableEq

structure Exchange where
  event : Event
  answer : Option Reply
  deriving DecidableEq

structure Trace where
  exchanges : List Exchange
  outcome : Outcome
  deriving DecidableEq

/-! ## The code -/

/-- Send to the server, and go on with the answer. -/
def send (event : Event) (next : Reply → List Reply → Trace) : List Reply → Trace
  | [] => ⟨[⟨event, none⟩], .waiting⟩
  | res :: replies => ⟨⟨event, some res⟩ :: (next res replies).exchanges, (next res replies).outcome⟩

def commandWorked (res : Reply) (next : Trace) : Trace := if res.worked then next else ⟨[], .threw⟩

def removeChunks (ns : List Char) (next : List Reply → Trace) : List Reply → Trace
  | [] => ⟨[⟨.remove ns, none⟩], .waiting⟩
  | res :: replies =>
    let rest := commandWorked res (if 0 < res.nRemoved then removeChunks ns next replies else next replies)
    ⟨⟨.remove ns, some res⟩ :: rest.exchanges, rest.outcome⟩

def removePartiallyWrittenChunksAndDropCollection (ns : List Char) (next : List Reply → Trace) :
    List Reply → Trace :=
  removeChunks ns (send (.drop ((ns.splitOn '.').headD []) ((ns.splitOn '.').getD 1 "undefined".toList))
    fun res replies => commandWorked res (next replies))

/-- What is done after an answer that requires it. -/
def cleanup (dbName : List Char) (cmd : Command) (next : List Reply → Trace) (res : Reply) :
    List Reply → Trace :=
  match cmd with
  | .shardCollection ns => removeChunks ns next
  | .mapReduce (.string outCollName) =>
    removePartiallyWrittenChunksAndDropCollection (dbName ++ '.' :: outCollName.1) next
  | .mapReduce (.object out) =>
    let outDbName := (out.db.map Subtype.val).getD dbName
    removePartiallyWrittenChunksAndDropCollection (outDbName ++ '.' :: out.collName.1) next
  | .mapReduce .other => fun _ => ⟨[], .returned res⟩

/-- An attempt, with the number of those that may follow. -/
def attempt (dbName : List Char) (cmd : Command) : ℕ → List Reply → Trace
  | 0 => send .run fun res _ => ⟨[], .returned res⟩
  | n + 1 => send .run fun res replies =>
    if res.ok || !res.manualInterventionRequired then ⟨[], .returned res⟩
    else cleanup dbName cmd (attempt dbName cmd n) res replies

def maxAttempts : ℕ := 10

/-- Commands that are not to be retried are sent once. -/
def runCommand (dbName : List Char) (cmd : Option Command) : List Reply → Trace :=
  match cmd with
  | none => send .run fun res _ => ⟨[], .returned res⟩
  | some cmd => attempt dbName cmd (maxAttempts - 1)

/-! ## What is expected -/

namespace Command

/-- The database and the name of the output collection. -/
def output (dbName : List Char) : Command → Option (List Char × List Char)
  | shardCollection _ => none
  | mapReduce (.string name) => some (dbName, name.1)
  | mapReduce (.object out) => some ((out.db.map Subtype.val).getD dbName, out.collName.1)
  | mapReduce .other => none

/-- The namespace whose chunks are removed. -/
def targetNs (dbName : List Char) : Command → Option (List Char)
  | shardCollection ns => some ns
  | mapReduce out => ((mapReduce out).output dbName).map fun target => target.1 ++ '.' :: target.2

end Command

/-! ## The phases of the cleanup -/

/-- What is to be answered next, with the number of attempts that may follow. -/
inductive Phase where
  | sending (n : ℕ)
  | removing (n : ℕ)
  | dropping (n : ℕ)
  | done (outcome : Outcome)

section Phases

variable (ns : List Char) (drop : Option (List Char × List Char))

namespace Phase

def event : Phase → Event
  | removing _ => .remove ns
  | dropping _ => (drop.map fun target => Event.drop target.1 target.2).getD (.remove ns)
  | _ => .run

/-- The phase after an answer. -/
def next : Phase → Reply → Phase
  | sending 0, res => done (.returned res)
  | sending (n + 1), res => if res.Needs then removing n else done (.returned res)
  | removing n, res =>
    if res.worked then
      if 0 < res.nRemoved then removing n else if drop = none then sending n else dropping n
    else done .threw
  | dropping n, res => if res.worked then sending n else done .threw
  | done outcome, _ => done outcome

def IsCleanup : Phase → Prop
  | removing _ => True
  | dropping _ => True
  | _ => False

end Phase

/-- The exchanges from a phase on. -/
def run : Phase → List Reply → Trace
  | .done outcome, _ => ⟨[], outcome⟩
  | phase, [] => ⟨[⟨phase.event ns drop, none⟩], .waiting⟩
  | phase, res :: replies =>
    let rest := run (phase.next drop res) replies
    ⟨⟨phase.event ns drop, some res⟩ :: rest.exchanges, rest.outcome⟩

end Phases

section Refinement

variable {ns : List Char} {drop : Option (List Char × List Char)}

@[simp] theorem run_done (outcome : Outcome) (replies : List Reply) :
    run ns drop (.done outcome) replies = ⟨[], outcome⟩ := by
  cases replies <;> rfl

theorem commandWorked_run (res : Reply) (phase : Phase) (replies : List Reply) :
    commandWorked res (run ns drop phase replies) =
      run ns drop (if res.worked then phase else .done .threw) replies := by
  rw [commandWorked]
  split_ifs with hworked
  · rfl
  · rw [run_done]

theorem removeChunks_run (n : ℕ) (replies : List Reply) :
    removeChunks ns (run ns drop (if drop = none then .sending n else .dropping n)) replies =
      run ns drop (.removing n) replies := by
  induction replies with
  | nil => rfl
  | cons res replies ih =>
    have hrest : commandWorked res (if 0 < res.nRemoved
        then removeChunks ns (run ns drop (if drop = none then .sending n else .dropping n)) replies
        else run ns drop (if drop = none then .sending n else .dropping n) replies) =
          run ns drop ((Phase.removing n).next drop res) replies := by
      rw [ih, Phase.next]
      by_cases hremoved : 0 < res.nRemoved
      · rw [if_pos hremoved, if_pos hremoved, commandWorked_run]
      · rw [if_neg hremoved, if_neg hremoved, commandWorked_run]
    rw [removeChunks, hrest]
    rfl

/-- The parts of a namespace that are dropped. -/
def parts (ns : List Char) : List Char × List Char :=
  ((ns.splitOn '.').headD [], (ns.splitOn '.').getD 1 "undefined".toList)

theorem removePartiallyWrittenChunksAndDropCollection_run (n : ℕ) (replies : List Reply) :
    removePartiallyWrittenChunksAndDropCollection ns (run ns (some (parts ns)) (.sending n)) replies =
      run ns (some (parts ns)) (.removing n) replies := by
  have hdrop : (send (.drop ((ns.splitOn '.').headD []) ((ns.splitOn '.').getD 1 "undefined".toList))
      fun res replies => commandWorked res (run ns (some (parts ns)) (.sending n) replies)) =
        run ns (some (parts ns)) (.dropping n) := by
    funext replies
    cases replies with
    | nil => rfl
    | cons res replies =>
      rw [send, commandWorked_run]
      rfl
  rw [removePartiallyWrittenChunksAndDropCollection, hdrop, ← removeChunks_run]
  rfl

variable {dbName : List Char} {cmd : Command}

theorem sending_run {f : Reply → List Reply → Trace} {n : ℕ}
    (h : ∀ res replies, f res replies = run ns drop ((Phase.sending n).next drop res) replies) :
    send .run f = run ns drop (.sending n) := by
  funext replies
  cases replies with
  | nil => rfl
  | cons res replies =>
    rw [send, h]
    rfl

theorem needs_iff {res : Reply} : (res.ok || !res.manualInterventionRequired) = true ↔ ¬ res.Needs := by
  rw [Reply.Needs]
  cases res.ok <;> cases res.manualInterventionRequired <;> simp

theorem attempt_eq_run (hns : cmd.targetNs dbName = some ns) (n : ℕ) :
    attempt dbName cmd n = run ns ((cmd.output dbName).map fun _ => parts ns) (.sending n) := by
  induction n with
  | zero => exact sending_run fun res replies => (run_done _ _).symm
  | succ n ih =>
    refine sending_run fun res replies => ?_
    rw [Phase.next, ih]
    by_cases hneeds : res.Needs
    · rw [if_neg (needs_iff.not.mpr (not_not.mpr hneeds)), if_pos hneeds]
      match cmd, hns with
      | .shardCollection ns, rfl => exact removeChunks_run n replies
      | .mapReduce (.string name), rfl => exact removePartiallyWrittenChunksAndDropCollection_run n replies
      | .mapReduce (.object out), rfl => exact removePartiallyWrittenChunksAndDropCollection_run n replies
    · rw [if_pos (needs_iff.mpr hneeds), if_neg hneeds, run_done]

/-- Without a target there is one attempt. -/
theorem attempt_eq_send (hns : cmd.targetNs dbName = none) (n : ℕ) :
    attempt dbName cmd n = run ns drop (.sending 0) := by
  have hcleanup : ∀ next res replies, cleanup dbName cmd next res replies = ⟨[], .returned res⟩ := by
    intro next res replies
    match cmd, hns with
    | .mapReduce .other, _ => rfl
  cases n with
  | zero => exact sending_run fun res replies => (run_done _ _).symm
  | succ n =>
    refine sending_run fun res replies => ?_
    rw [hcleanup, ite_self]
    exact (run_done _ _).symm

end Refinement

/-! ## What is sent -/

section Sent

variable {ns : List Char} {drop : Option (List Char × List Char)} {phase : Phase} {replies : List Reply}

variable (ns drop) in
/-- The rule for the exchanges from a phase on. -/
theorem run_rule {P : Phase → List Reply → Trace → Prop}
    (hdone : ∀ outcome replies, P (.done outcome) replies ⟨[], outcome⟩)
    (hwait : ∀ phase, (∀ outcome, phase ≠ .done outcome) → P phase [] ⟨[⟨phase.event ns drop, none⟩], .waiting⟩)
    (hstep : ∀ phase res replies t, t = run ns drop (phase.next drop res) replies →
      (∀ outcome, phase ≠ .done outcome) → P (phase.next drop res) replies t →
        P phase (res :: replies) ⟨⟨phase.event ns drop, some res⟩ :: t.exchanges, t.outcome⟩)
    (phase : Phase) (replies : List Reply) : P phase replies (run ns drop phase replies) := by
  induction replies generalizing phase with
  | nil =>
    cases phase with
    | sending n => exact hwait _ fun _ => Phase.noConfusion
    | removing n => exact hwait _ fun _ => Phase.noConfusion
    | dropping n => exact hwait _ fun _ => Phase.noConfusion
    | done outcome => exact hdone outcome []
  | cons res replies ih =>
    cases phase with
    | sending n => exact hstep _ res replies _ rfl (fun _ => Phase.noConfusion) (ih _)
    | removing n => exact hstep _ res replies _ rfl (fun _ => Phase.noConfusion) (ih _)
    | dropping n => exact hstep _ res replies _ rfl (fun _ => Phase.noConfusion) (ih _)
    | done outcome => exact hdone outcome (res :: replies)

/-- Every exchange is the first one from some phase on. -/
theorem exists_phase (phase : Phase) (replies : List Reply) :
    ∀ x ∈ (run ns drop phase replies).exchanges, ∃ phase : Phase, x.event = phase.event ns drop := by
  refine run_rule ns drop (P := fun _ _ t => ∀ x ∈ t.exchanges, ∃ phase : Phase, x.event = phase.event ns drop)
    (fun _ _ x hx => absurd hx List.not_mem_nil) (fun phase _ x hx => ?_) (fun phase res replies t _ _ ih x hx => ?_)
    phase replies
  · rw [List.mem_singleton.mp hx]
    exact ⟨phase, rfl⟩
  · obtain rfl | hx := List.mem_cons.mp hx
    · exact ⟨phase, rfl⟩
    · exact ih x hx

theorem answers_run (phase : Phase) (replies : List Reply) :
    (run ns drop phase replies).exchanges.filterMap Exchange.answer <+: replies := by
  refine run_rule ns drop (P := fun _ replies t => t.exchanges.filterMap Exchange.answer <+: replies)
    (fun _ _ => List.nil_prefix) (fun phase _ => List.nil_prefix) (fun phase res replies t _ _ ih => ?_) phase replies
  exact List.cons_prefix_cons.mpr ⟨rfl, ih⟩

namespace Phase

theorem event_ne_run (h : phase.IsCleanup) : phase.event ns drop ≠ .run := by
  cases phase with
  | sending n => cases h
  | removing n => exact Event.noConfusion
  | dropping n => cases drop <;> exact Event.noConfusion
  | done outcome => cases h

theorem event_eq_run (h : ¬ phase.IsCleanup) : phase.event ns drop = .run := by
  cases phase with
  | sending n => rfl
  | removing n => exact absurd trivial h
  | dropping n => exact absurd trivial h
  | done outcome => rfl

theorem event_eq_remove {ns' : List Char} (h : phase.event ns drop = .remove ns') : ns = ns' := by
  cases phase with
  | sending n => cases h
  | removing n => exact Event.remove.inj h
  | dropping n =>
    cases drop with
    | none => exact Event.remove.inj h
    | some target => cases h
  | done outcome => cases h

theorem event_eq_drop {db coll : List Char} (h : phase.event ns drop = .drop db coll) : drop = some (db, coll) := by
  cases phase with
  | sending n => cases h
  | removing n => cases h
  | dropping n =>
    cases drop with
    | none => cases h
    | some target =>
      obtain ⟨rfl, rfl⟩ := Event.drop.inj h
      rfl
  | done outcome => cases h

/-- A cleanup goes on, or begins with an answer that requires it. -/
theorem isCleanup_or_needs {res : Reply} (h : (phase.next drop res).IsCleanup) : phase.IsCleanup ∨ res.Needs := by
  match phase, h with
  | sending 0, h => cases h
  | sending (n + 1), h =>
    rw [next] at h
    split_ifs at h with hneeds
    · exact .inr hneeds
    · cases h
  | removing n, _ => exact .inl trivial
  | dropping n, _ => exact .inl trivial
  | done outcome, h => cases h

theorem next_eq_sending {res : Reply} {m : ℕ} (h : phase.next drop res = sending m) :
    drop = none ∨ ∃ n, phase = dropping n := by
  match phase, h with
  | sending 0, h => cases h
  | sending (n + 1), h =>
    rw [next] at h
    split_ifs at h
  | removing n, h =>
    rw [next] at h
    split_ifs at h with _ _ hdrop
    · exact .inl hdrop
  | dropping n, _ => exact .inr ⟨n, rfl⟩
  | done outcome, h => cases h

theorem next_eq_done {res : Reply} {outcome : Outcome} (hphase : ∀ outcome, phase ≠ done outcome)
    (h : phase.next drop res = done outcome) :
    phase.IsCleanup ∧ ¬ res.worked ∧ outcome = .threw ∨ ¬ phase.IsCleanup ∧ outcome = .returned res := by
  match phase, h with
  | sending 0, h =>
    cases h
    exact .inr ⟨id, rfl⟩
  | sending (n + 1), h =>
    rw [next] at h
    split_ifs at h
    cases h
    exact .inr ⟨id, rfl⟩
  | removing n, h =>
    rw [next] at h
    split_ifs at h with hworked
    cases h
    exact .inl ⟨trivial, hworked, rfl⟩
  | dropping n, h =>
    rw [next] at h
    split_ifs at h with hworked
    cases h
    exact .inl ⟨trivial, hworked, rfl⟩
  | done outcome, _ => exact absurd rfl (hphase outcome)

theorem next_of_not_worked {res : Reply} (h : phase.IsCleanup) (hworked : ¬ res.worked) :
    phase.next drop res = done .threw := by
  cases phase with
  | sending n => cases h
  | removing n => exact if_neg hworked
  | dropping n => exact if_neg hworked
  | done outcome => cases h

/-- The number of times that the command is still sent. -/
def attempts : Phase → ℕ
  | sending n => n + 1
  | removing n => n + 1
  | dropping n => n + 1
  | done _ => 0

theorem attempts_pos (hphase : ∀ outcome, phase ≠ done outcome) : 0 < phase.attempts := by
  cases phase with
  | sending n => exact Nat.succ_pos n
  | removing n => exact Nat.succ_pos n
  | dropping n => exact Nat.succ_pos n
  | done outcome => exact absurd rfl (hphase outcome)

theorem attempts_next_le (res : Reply) : (phase.next drop res).attempts ≤ phase.attempts := by
  match phase with
  | sending 0 => exact Nat.zero_le _
  | sending (n + 1) =>
    rw [next]
    split_ifs
    · exact Nat.le_succ _
    · exact Nat.zero_le _
  | removing n =>
    rw [next]
    split_ifs
    · exact le_rfl
    · exact le_rfl
    · exact le_rfl
    · exact Nat.zero_le _
  | dropping n =>
    rw [next]
    split_ifs
    · exact le_rfl
    · exact Nat.zero_le _
  | done outcome => exact le_rfl

theorem attempts_next_lt {res : Reply} (hphase : ∀ outcome, phase ≠ done outcome) (h : ¬ phase.IsCleanup) :
    (phase.next drop res).attempts < phase.attempts := by
  match phase with
  | sending 0 => exact Nat.one_pos
  | sending (n + 1) =>
    rw [next]
    split_ifs
    · exact Nat.lt_succ_self _
    · exact Nat.succ_pos _
  | removing n => exact absurd trivial h
  | dropping n => exact absurd trivial h
  | done outcome => exact absurd rfl (hphase outcome)

end Phase

theorem countP_run_le (phase : Phase) (replies : List Reply) :
    (run ns drop phase replies).exchanges.countP (·.event = .run) ≤ phase.attempts := by
  refine run_rule ns drop (P := fun phase _ t => t.exchanges.countP (·.event = .run) ≤ phase.attempts)
    (fun _ _ => le_rfl) (fun phase hphase => ?_) (fun phase res replies t _ hphase ih => ?_) phase replies
  · exact le_trans List.countP_le_length (Phase.attempts_pos hphase)
  · rw [List.countP_cons]
    dsimp only
    by_cases hcleanup : phase.IsCleanup
    · rw [if_neg (by simpa using Phase.event_ne_run hcleanup)]
      exact le_trans ih (Phase.attempts_next_le res)
    · rw [if_pos (by simpa using Phase.event_eq_run hcleanup)]
      exact le_trans (Nat.succ_le_succ ih) (Phase.attempts_next_lt hphase hcleanup)

/-- The last exchange of a run that returns. -/
theorem outcome_run (phase : Phase) (replies : List Reply) :
    (run ns drop phase replies).outcome = .waiting ∨ (run ns drop phase replies).outcome = .threw ∨
      (∃ pre res, (run ns drop phase replies).exchanges = pre ++ [⟨.run, some res⟩] ∧
        (run ns drop phase replies).outcome = .returned res) ∨
      ∃ outcome, phase = .done outcome ∧ run ns drop phase replies = ⟨[], outcome⟩ := by
  refine run_rule ns drop (P := fun phase _ t => t.outcome = .waiting ∨ t.outcome = .threw ∨
    (∃ pre res, t.exchanges = pre ++ [⟨.run, some res⟩] ∧ t.outcome = .returned res) ∨
      ∃ outcome, phase = .done outcome ∧ t = ⟨[], outcome⟩)
    (fun outcome _ => .inr (.inr (.inr ⟨outcome, rfl, rfl⟩))) (fun phase _ => .inl rfl)
    (fun phase res replies t _ hphase ih => ?_) phase replies
  obtain hwait | hthrew | ⟨pre, res', hpre, houtcome⟩ | ⟨outcome, hdone, rfl⟩ := ih
  · exact .inl hwait
  · exact .inr (.inl hthrew)
  · refine .inr (.inr (.inl ⟨⟨phase.event ns drop, some res⟩ :: pre, res', ?_, houtcome⟩))
    rw [hpre, List.cons_append]
  · obtain ⟨-, -, rfl⟩ | ⟨hcleanup, rfl⟩ := Phase.next_eq_done hphase hdone
    · exact .inr (.inl rfl)
    · refine .inr (.inr (.inl ⟨[], res, ?_, rfl⟩))
      rw [Phase.event_eq_run hcleanup, List.nil_append]

/-- What is not the command itself is sent after an answer that requires it. -/
theorem intervention_run (phase : Phase) (replies : List Reply) : ∀ pre x post,
    (run ns drop phase replies).exchanges = pre ++ x :: post → x.event ≠ .run →
      (∃ pre' res pre'', pre = pre' ++ ⟨.run, some res⟩ :: pre'' ∧ res.Needs ∧ ∀ y ∈ pre'', y.event ≠ .run) ∨
        phase.IsCleanup ∧ ∀ y ∈ pre, y.event ≠ .run := by
  refine run_rule ns drop (P := fun phase _ t => ∀ pre x post, t.exchanges = pre ++ x :: post → x.event ≠ .run →
    (∃ pre' res pre'', pre = pre' ++ ⟨.run, some res⟩ :: pre'' ∧ res.Needs ∧ ∀ y ∈ pre'', y.event ≠ .run) ∨
      phase.IsCleanup ∧ ∀ y ∈ pre, y.event ≠ .run) (fun _ _ pre x post h _ => ?_) (fun phase _ pre x post h hx => ?_)
    (fun phase res replies t _ _ ih pre x post h hx => ?_) phase replies
  · simp at h
  · obtain ⟨rfl, hx', -⟩ : pre = [] ∧ _ := by
      cases pre with
      | nil => exact ⟨rfl, List.cons.inj h⟩
      | cons y pre => simp at h
    refine .inr ⟨not_not.mp fun hcleanup => hx ?_, fun y hy => absurd hy List.not_mem_nil⟩
    rw [← hx']
    exact Phase.event_eq_run hcleanup
  · cases pre with
    | nil =>
      refine .inr ⟨not_not.mp fun hcleanup => hx ?_, fun y hy => absurd hy List.not_mem_nil⟩
      rw [← (List.cons.inj h).1]
      exact Phase.event_eq_run hcleanup
    | cons y pre =>
      obtain ⟨hy, h⟩ := List.cons.inj h
      obtain ⟨pre', res', pre'', rfl, hneeds, hlater⟩ | ⟨hcleanup, hpre⟩ := ih pre x post h hx
      · exact .inl ⟨y :: pre', res', pre'', rfl, hneeds, hlater⟩
      · by_cases hphase : phase.IsCleanup
        · refine .inr ⟨hphase, List.forall_mem_cons.mpr ⟨?_, hpre⟩⟩
          rw [← hy]
          exact Phase.event_ne_run hphase
        · rw [Phase.event_eq_run hphase] at hy
          exact .inl ⟨[], res, pre, by rw [← hy, List.nil_append],
            (Phase.isCleanup_or_needs hcleanup).resolve_left hphase, hpre⟩

/-- The first exchange is that of the phase. -/
theorem head_run {x : Exchange} {post : List Exchange} (h : (run ns drop phase replies).exchanges = x :: post) :
    x.event = phase.event ns drop ∧ ∀ outcome, phase ≠ .done outcome := by
  have hrule := run_rule ns drop
    (P := fun phase _ t => ∀ x post, t.exchanges = x :: post →
      x.event = phase.event ns drop ∧ ∀ outcome, phase ≠ .done outcome)
    (fun _ _ x post h => by cases h) (fun phase hphase x post h => ?_) (fun phase res replies t _ hphase _ x post h => ?_)
    phase replies
  · exact hrule x post h
  · rw [← (List.cons.inj h).1]
    exact ⟨rfl, hphase⟩
  · rw [← (List.cons.inj h).1]
    exact ⟨rfl, hphase⟩

/-- Where a collection is dropped, that is the last thing before the command is sent again. -/
theorem resent_run (phase : Phase) (replies : List Reply) : ∀ pre y x post,
    (run ns drop phase replies).exchanges = pre ++ y :: x :: post → x.event = .run →
      ∀ target ∈ drop, y.event = .drop target.1 target.2 := by
  refine run_rule ns drop (P := fun _ _ t => ∀ pre y x post, t.exchanges = pre ++ y :: x :: post → x.event = .run →
    ∀ target ∈ drop, y.event = .drop target.1 target.2) (fun _ _ pre y x post h => ?_)
    (fun phase _ pre y x post h => ?_) (fun phase res replies t ht _ ih pre y x post h hx target htarget => ?_)
    phase replies
  · simp at h
  · have hlength := congrArg List.length h
    simp at hlength
    omega
  · cases pre with
    | nil =>
      obtain ⟨hy, h⟩ := List.cons.inj h
      rw [ht] at h
      obtain ⟨hevent, hdone⟩ := head_run h
      -- the command is sent again after this answer
      obtain ⟨m, hm⟩ : ∃ m, phase.next drop res = .sending m := by
        cases hnext : phase.next drop res with
        | sending m => exact ⟨m, rfl⟩
        | removing m =>
          rw [hnext, hx] at hevent
          exact absurd hevent.symm (@Phase.event_ne_run _ _ (.removing m) trivial)
        | dropping m =>
          rw [hnext, hx] at hevent
          exact absurd hevent.symm (@Phase.event_ne_run _ _ (.dropping m) trivial)
        | done outcome => exact absurd hnext (hdone outcome)
      obtain hnone | ⟨n, rfl⟩ := Phase.next_eq_sending hm
      · rw [hnone] at htarget
        cases htarget
      · rw [← hy, htarget]
        rfl
    | cons z pre => exact ih pre y x post (List.cons.inj h).2 hx target htarget

/-- The answers to the removals and the drops are accepted. -/
def AnswersWork (drop : Option (List Char × List Char)) : Phase → List Reply → Prop
  | _, [] => True
  | phase, res :: replies => (phase.IsCleanup → res.worked) ∧ AnswersWork drop (phase.next drop res) replies

theorem answersWork_done (outcome : Outcome) (replies : List Reply) : AnswersWork drop (.done outcome) replies := by
  induction replies with
  | nil => trivial
  | cons res replies ih => exact ⟨fun h => h.elim, ih⟩

theorem threw_iff (phase : Phase) (replies : List Reply) (hphase : ∀ outcome, phase ≠ .done outcome) :
    (run ns drop phase replies).outcome = .threw ↔ ¬ AnswersWork drop phase replies := by
  have hrule := run_rule ns drop (P := fun phase replies t => (∀ outcome, phase ≠ .done outcome) →
    (t.outcome = .threw ↔ ¬ AnswersWork drop phase replies)) (fun outcome _ h => absurd rfl (h outcome))
    (fun phase _ _ => by simp [AnswersWork]) (fun phase res replies t ht hphase ih _ => ?_) phase replies
  · exact hrule hphase
  · rw [AnswersWork]
    dsimp only
    by_cases hnext : ∀ outcome, phase.next drop res ≠ .done outcome
    · have hworked : phase.IsCleanup → res.worked := by
        intro hcleanup
        by_contra hworked
        exact hnext .threw (Phase.next_of_not_worked hcleanup hworked)
      rw [ih hnext, and_iff_right hworked]
    · obtain ⟨outcome, hdone⟩ := not_forall.mp hnext
      have hdone := not_not.mp hdone
      rw [ht, hdone, run_done, and_iff_left (answersWork_done outcome replies)]
      obtain ⟨hcleanup, hworked, rfl⟩ | ⟨hcleanup, rfl⟩ := Phase.next_eq_done hphase hdone
      · simp [hcleanup, hworked]
      · simp [hcleanup]

/-- The number of answers that a phase waits for, without removals that remove something. -/
def Phase.budget : Phase → ℕ
  | sending n => 3 * n
  | removing n => 3 * n + 2
  | dropping n => 3 * n + 1
  | done _ => 0

theorem Phase.budget_next_lt {res : Reply} (hphase : ∀ outcome, phase ≠ .done outcome)
    (hnext : ∀ outcome, phase.next drop res ≠ .done outcome) :
    (phase.next drop res).budget < phase.budget + if 0 < res.nRemoved then 1 else 0 := by
  match phase with
  | sending 0 => exact absurd rfl (hnext _)
  | sending (n + 1) =>
    rw [next] at hnext ⊢
    split_ifs at hnext ⊢ with hneeds
    · simp only [budget]
      omega
    · simp only [budget]
      omega
    · exact absurd rfl (hnext _)
    · exact absurd rfl (hnext _)
  | removing n =>
    rw [next] at hnext ⊢
    split_ifs at hnext ⊢
    · exact Nat.lt_succ_self _
    · simp only [budget]
      omega
    · simp only [budget]
      omega
    · exact absurd rfl (hnext _)
    · exact absurd rfl (hnext _)
  | dropping n =>
    have hworked : res.worked := by
      by_contra hworked
      exact hnext _ (if_neg hworked)
    rw [next, if_pos hworked]
    exact Nat.lt_of_lt_of_le (Nat.lt_succ_self _) (Nat.le_add_right _ _)
  | done outcome => exact absurd rfl (hphase outcome)

theorem length_le_of_waiting (phase : Phase) (replies : List Reply) (hphase : ∀ outcome, phase ≠ .done outcome)
    (h : (run ns drop phase replies).outcome = .waiting) :
    replies.length ≤ phase.budget + replies.countP (0 < ·.nRemoved) := by
  have hrule := run_rule ns drop (P := fun phase replies t => (∀ outcome, phase ≠ .done outcome) →
    t.outcome = .waiting → replies.length ≤ phase.budget + replies.countP (0 < ·.nRemoved))
    (fun outcome _ h => absurd rfl (h outcome)) (fun phase _ _ _ => Nat.zero_le _)
    (fun phase res replies t ht hphase ih _ h => ?_) phase replies
  · exact hrule hphase h
  · have hnext : ∀ outcome, phase.next drop res ≠ .done outcome := by
      intro outcome hdone
      dsimp only at h
      rw [ht, hdone, run_done] at h
      dsimp only at h
      obtain ⟨-, -, rfl⟩ | ⟨-, rfl⟩ := Phase.next_eq_done hphase hdone
      · cases h
      · cases h
    have hlength := ih hnext h
    have hbudget := Phase.budget_next_lt hphase hnext
    rw [List.length_cons, List.countP_cons]
    simp only [decide_eq_true_eq] at hbudget ⊢
    omega

/-! ## The drop -/

variable {n : ℕ}

theorem remove_of_removed (h : ∀ res ∈ replies, 0 < res.nRemoved) :
    ∀ x ∈ (run ns drop (.removing n) replies).exchanges, x.event = .remove ns := by
  induction replies with
  | nil =>
    intro x hx
    rw [List.mem_singleton.mp hx]
    rfl
  | cons res replies ih =>
    obtain ⟨hremoved, hreplies⟩ := List.forall_mem_cons.mp h
    intro x hx
    obtain rfl | hx := List.mem_cons.mp hx
    · rfl
    · rw [Phase.next, if_pos hremoved] at hx
      split_ifs at hx
      · exact ih hreplies x hx
      · rw [run_done] at hx
        cases hx

theorem exists_first (phase : Phase) (replies : List Reply) (hphase : ∀ outcome, phase ≠ .done outcome) :
    ∃ x ∈ (run ns drop phase replies).exchanges, x.event = phase.event ns drop := by
  have hrule := run_rule ns drop (P := fun phase _ t => (∀ outcome, phase ≠ .done outcome) →
    ∃ x ∈ t.exchanges, x.event = phase.event ns drop) (fun outcome _ h => absurd rfl (h outcome))
    (fun phase _ _ => ⟨_, List.mem_cons_self, rfl⟩) (fun phase res replies t _ _ _ _ => ⟨_, List.mem_cons_self, rfl⟩)
    phase replies
  exact hrule hphase

theorem exists_drop {target : List Char × List Char}
    (hwork : AnswersWork (some target) (.removing n) replies) (h : ∃ res ∈ replies, res.nRemoved = 0) :
    ∃ x ∈ (run ns (some target) (.removing n) replies).exchanges, x.event = .drop target.1 target.2 := by
  induction replies with
  | nil =>
    obtain ⟨res, hres, -⟩ := h
    cases hres
  | cons res replies ih =>
    obtain ⟨hworked, hwork⟩ := hwork
    have hnext : (Phase.removing n).next (some target) res = if 0 < res.nRemoved then .removing n else .dropping n := by
      rw [Phase.next, if_pos (hworked trivial), if_neg (Option.some_ne_none target)]
    by_cases hremoved : 0 < res.nRemoved
    · rw [if_pos hremoved] at hnext
      rw [hnext] at hwork
      obtain ⟨res', hres', hzero⟩ := h
      have hmem : res' ∈ replies := by
        obtain rfl | hmem := List.mem_cons.mp hres'
        · omega
        · exact hmem
      obtain ⟨x, hx, hevent⟩ := ih hwork ⟨res', hmem, hzero⟩
      refine ⟨x, List.mem_cons_of_mem _ ?_, hevent⟩
      rw [hnext]
      exact hx
    · rw [if_neg hremoved] at hnext
      obtain ⟨x, hx, hevent⟩ := @exists_first ns (some target) (.dropping n) replies
        fun _ => Phase.noConfusion
      refine ⟨x, List.mem_cons_of_mem _ ?_, hevent⟩
      rw [hnext]
      exact hx

end Sent

/-! ## The whole run -/

section Promise

variable (dbName : List Char) (cmd : Command) (replies : List Reply)

/-- What is expected of a run. -/
structure Correct (t : Trace) : Prop where
  answers : t.exchanges.filterMap Exchange.answer <+: replies
  attempts : t.exchanges.countP (·.event = .run) ≤ 10
  removes : ∀ x ∈ t.exchanges, ∀ ns, x.event = .remove ns → cmd.targetNs dbName = some ns
  drops : ∀ x ∈ t.exchanges, ∀ db coll, x.event = .drop db coll → cmd.output dbName = some (db, coll)
  intervention : ∀ pre x post, t.exchanges = pre ++ x :: post → x.event ≠ .run →
    ∃ pre' res pre'', pre = pre' ++ ⟨.run, some res⟩ :: pre'' ∧ res.Needs ∧ ∀ y ∈ pre'', y.event ≠ .run
  resent : ∀ pre y x post, t.exchanges = pre ++ y :: x :: post → x.event = .run →
    ∀ target ∈ cmd.output dbName, y.event = .drop target.1 target.2
  /-- As long as answers come, the last one is returned. -/
  returns : t.outcome = .waiting ∨
    ∃ pre res, t.exchanges = pre ++ [⟨.run, some res⟩] ∧ t.outcome = .returned res
  ends : t.outcome = .waiting → replies.length ≤ 27 + replies.countP (0 < ·.nRemoved)

/-- The first answer requires a cleanup, and the removals end. -/
def Drops : Prop := ∃ res rest, replies = res :: rest ∧ res.Needs ∧ ∃ res ∈ rest, res.nRemoved = 0

variable {dbName cmd replies}

theorem output_eq_none (h : cmd.targetNs dbName = none) : cmd.output dbName = none := by
  cases cmd with
  | shardCollection ns => cases h
  | mapReduce out => exact Option.map_eq_none_iff.mp h

theorem targetNs_of_output {target : List Char × List Char} {ns : List Char} (h : cmd.output dbName = some target)
    (hns : cmd.targetNs dbName = some ns) : target.1 ++ '.' :: target.2 = ns := by
  cases cmd with
  | shardCollection ns => cases h
  | mapReduce out =>
    rw [Command.targetNs, h] at hns
    exact Option.some.inj hns

theorem drops_of_drop {ns : List Char} {drop : Option (List Char × List Char)} {n : ℕ} {x : Exchange}
    {db coll : List Char} (hx : x ∈ (run ns drop (.sending (n + 1)) replies).exchanges)
    (h : x.event = .drop db coll) : Drops replies := by
  cases replies with
  | nil =>
    rw [List.mem_singleton.mp hx] at h
    cases h
  | cons res rest =>
    obtain rfl | hx := List.mem_cons.mp hx
    · cases h
    · rw [Phase.next] at hx
      split_ifs at hx with hneeds
      · refine ⟨res, rest, rfl, hneeds, ?_⟩
        by_contra hzero
        have hremoved : ∀ res ∈ rest, 0 < res.nRemoved :=
          fun res hres => Nat.pos_of_ne_zero fun hres0 => hzero ⟨res, hres, hres0⟩
        rw [remove_of_removed hremoved x hx] at h
        cases h
      · rw [run_done] at hx
        cases hx

theorem headD_splitOn_eq_iff {s t : List Char} : (s.splitOn '.').headD t = s ↔ '.' ∉ s := by
  constructor
  · intro h hdot
    obtain ⟨u, v, rfl, hu⟩ := List.eq_append_cons_of_mem hdot
    rw [List.splitOn_append_cons_self_of_not_mem hu, List.headD_cons] at h
    simp at h
  · intro hdot
    rw [List.splitOn_eq_singleton hdot, List.headD_cons]

/-- The parts are those that the namespace was made of if neither has a dot. -/
theorem parts_eq_iff {target : List Char × List Char} :
    parts (target.1 ++ '.' :: target.2) = target ↔ '.' ∉ target.1 ∧ '.' ∉ target.2 := by
  rw [parts, Prod.ext_iff]
  dsimp only
  by_cases hfirst : '.' ∈ target.1
  · obtain ⟨u, v, huv, hu⟩ := List.eq_append_cons_of_mem hfirst
    rw [huv, List.append_assoc, List.cons_append, List.splitOn_append_cons_self_of_not_mem hu, List.headD_cons]
    simp
  · have hsecond : ∀ l : List (List Char), l.getD 0 "undefined".toList = l.headD "undefined".toList := by
      intro l
      cases l <;> rfl
    rw [List.splitOn_append_cons_self_of_not_mem hfirst, List.headD_cons, List.getD_cons_succ, hsecond,
      headD_splitOn_eq_iff]
    simp [hfirst]

theorem answersWork_map {drop : Option (List Char × List Char)} (f : List Char × List Char → List Char × List Char)
    (phase : Phase) (replies : List Reply) :
    AnswersWork (drop.map f) phase replies ↔ AnswersWork drop phase replies := by
  induction replies generalizing phase with
  | nil => rfl
  | cons res replies ih =>
    have hnext : phase.next (drop.map f) res = phase.next drop res := by
      cases drop with
      | none => rfl
      | some target =>
        match phase with
        | .sending 0 => rfl
        | .sending (n + 1) => rfl
        | .removing n => rfl
        | .dropping n => rfl
        | .done outcome => rfl
    rw [AnswersWork, AnswersWork, hnext, ih]

/-- All but the names that are sent. -/
theorem correct_run {ns : List Char} {drop : Option (List Char × List Char)} {n : ℕ} (hn : n ≤ 9)
    (hwork : AnswersWork drop (.sending n) replies)
    (hremoves : ∀ x ∈ (run ns drop (.sending n) replies).exchanges, ∀ ns, x.event = .remove ns →
      cmd.targetNs dbName = some ns)
    (hdrops : ∀ x ∈ (run ns drop (.sending n) replies).exchanges, ∀ db coll, x.event = .drop db coll →
      cmd.output dbName = some (db, coll))
    (hresent : ∀ pre y x post, (run ns drop (.sending n) replies).exchanges = pre ++ y :: x :: post →
      x.event = .run → ∀ target ∈ cmd.output dbName, y.event = .drop target.1 target.2) :
    Correct dbName cmd replies (run ns drop (.sending n) replies) where
  answers := answers_run _ _
  attempts := le_trans (countP_run_le _ _) (Nat.succ_le_succ hn)
  removes := hremoves
  drops := hdrops
  intervention pre x post h hx := (intervention_run _ _ pre x post h hx).resolve_right fun hcleanup => hcleanup.1
  resent := hresent
  returns := by
    obtain hwait | hthrew | hreturned | ⟨outcome, hphase, -⟩ := @outcome_run ns drop (.sending n) replies
    · exact .inl hwait
    · exact absurd hwork ((threw_iff _ _ fun _ => Phase.noConfusion).mp hthrew)
    · exact .inr hreturned
    · cases hphase
  ends h := by
    have hlength := length_le_of_waiting _ _ (fun _ => Phase.noConfusion) h
    have hbudget : (Phase.sending n).budget = 3 * n := rfl
    omega

/-- A command that has no namespace is sent once. -/
theorem correct_of_not_retried (hns : cmd.targetNs dbName = none) :
    Correct dbName cmd replies (runCommand dbName (some cmd) replies) := by
  have hout : cmd.output dbName = none := output_eq_none hns
  have hrun : runCommand dbName (some cmd) = run [] none (.sending 0) := attempt_eq_send hns 9
  have hevents : ∀ x ∈ (run [] none (.sending 0) replies).exchanges, x.event = .run := by
    intro x hx
    cases replies with
    | nil => rw [List.mem_singleton.mp hx]; rfl
    | cons res replies =>
      obtain rfl | hx := List.mem_cons.mp hx
      · rfl
      · rw [Phase.next, run_done] at hx
        cases hx
  have hwork : AnswersWork none (.sending 0) replies := by
    cases replies with
    | nil => trivial
    | cons res replies => exact ⟨fun h => h.elim, answersWork_done _ _⟩
  rw [hrun]
  refine correct_run (Nat.zero_le 9) hwork (fun x hx ns h => ?_) (fun x hx db coll h => ?_)
    fun pre y x post _ _ target htarget => ?_
  · rw [hevents x hx] at h
    cases h
  · rw [hevents x hx] at h
    cases h
  · rw [hout] at htarget
    cases htarget

theorem Correct.answersWork {ns : List Char} {drop : Option (List Char × List Char)} {n : ℕ}
    (h : Correct dbName cmd replies (run ns drop (.sending n) replies)) : AnswersWork drop (.sending n) replies := by
  by_contra hwork
  have hthrew := (@threw_iff ns _ _ _ fun _ => Phase.noConfusion).mpr hwork
  obtain hwait | ⟨pre, res, -, hreturned⟩ := h.returns
  · rw [hthrew] at hwait
    cases hwait
  · rw [hthrew] at hreturned
    cases hreturned

/-- Removals that end are followed by a drop. -/
theorem Drops.exists_drop {ns : List Char} {target : List Char × List Char} {n : ℕ} (h : Drops replies)
    (hwork : AnswersWork (some target) (.sending (n + 1)) replies) :
    ∃ x ∈ (run ns (some target) (.sending (n + 1)) replies).exchanges, x.event = .drop target.1 target.2 := by
  obtain ⟨res, rest, rfl, hneeds, hzero⟩ := h
  have hnext : (Phase.sending (n + 1)).next (some target) res = .removing n := if_pos hneeds
  obtain ⟨x, hx, hevent⟩ := ManualIntervention.exists_drop (hnext ▸ hwork.2) hzero
  refine ⟨x, List.mem_cons_of_mem _ ?_, hevent⟩
  rw [hnext]
  exact hx

/-- The names without dots, or no drop at all: only the right collection is dropped. -/
theorem correct_of_plain {ns : List Char} (hns : cmd.targetNs dbName = some ns)
    (hwork : AnswersWork (cmd.output dbName) (.sending 9) replies)
    (hnames : ∀ target ∈ cmd.output dbName, '.' ∉ target.1 ∧ '.' ∉ target.2 ∨ ¬ Drops replies) :
    Correct dbName cmd replies (run ns ((cmd.output dbName).map fun _ => parts ns) (.sending 9) replies) := by
  have hdrops : ∀ x ∈ (run ns ((cmd.output dbName).map fun _ => parts ns) (.sending 9) replies).exchanges,
      ∀ db coll, x.event = .drop db coll → cmd.output dbName = some (db, coll) := by
    intro x hx db coll h
    obtain ⟨phase, hphase⟩ := exists_phase _ _ x hx
    obtain ⟨target, htarget, hparts⟩ := Option.map_eq_some_iff.mp (Phase.event_eq_drop (hphase.symm.trans h))
    have hplain := (hnames target htarget).resolve_right (not_not.mpr (drops_of_drop hx h))
    rw [htarget, ← hparts, ← targetNs_of_output htarget hns, parts_eq_iff.mpr hplain]
  refine correct_run le_rfl ((answersWork_map _ _ _).mpr hwork) (fun x hx ns' h => ?_) hdrops
    fun pre y x post h hx target htarget => ?_
  · obtain ⟨phase, hphase⟩ := exists_phase _ _ x hx
    rw [hns, Phase.event_eq_remove (hphase.symm.trans h)]
  · have hy := resent_run _ _ pre y x post h hx (parts ns) (Option.mem_map_of_mem _ htarget)
    have hmem : y ∈ (run ns ((cmd.output dbName).map fun _ => parts ns) (.sending 9) replies).exchanges := by
      rw [h]
      exact List.mem_append_right pre List.mem_cons_self
    have hout := hdrops y hmem _ _ hy
    rw [Option.mem_def.mp htarget, Option.some.injEq] at hout
    rw [hout, hy]

/-- **When is the right collection dropped?** -/
theorem runCommand_correct_iff : Correct dbName cmd replies (runCommand dbName (some cmd) replies) ↔
    (cmd.targetNs dbName = none ∨ AnswersWork (cmd.output dbName) (.sending 9) replies) ∧
      ∀ target ∈ cmd.output dbName, '.' ∉ target.1 ∧ '.' ∉ target.2 ∨ ¬ Drops replies := by
  cases hns : cmd.targetNs dbName with
  | none =>
    rw [output_eq_none hns]
    exact iff_of_true (correct_of_not_retried hns) ⟨.inl rfl, fun target htarget => by cases htarget⟩
  | some ns =>
    have hrun : runCommand dbName (some cmd) = run ns ((cmd.output dbName).map fun _ => parts ns) (.sending 9) :=
      attempt_eq_run hns 9
    rw [hrun, or_iff_right (Option.some_ne_none ns)]
    constructor
    · intro h
      have hwork := h.answersWork
      refine ⟨(answersWork_map _ _ _).mp hwork, fun target htarget => ?_⟩
      rw [or_iff_not_imp_right, not_not]
      intro hends
      rw [Option.mem_def] at htarget
      obtain rfl := targetNs_of_output htarget hns
      rw [htarget] at hwork h
      obtain ⟨x, hx, hevent⟩ := hends.exists_drop hwork
      have hdrops := h.drops x hx _ _ hevent
      rw [htarget, Option.some.injEq] at hdrops
      exact parts_eq_iff.mp hdrops.symm
    · rintro ⟨hwork, hnames⟩
      exact correct_of_plain hns hwork hnames

/-! ### A collection with a dot -/

def intervention : Reply := ⟨false, true, false, 0⟩

def worked (ok : Bool) : Reply := ⟨ok, false, true, 0⟩

/-- `test.out.total` -/
def dottedOutput : Command := .mapReduce (.string ⟨"out.total".toList, by decide⟩)

/-- Instead of `out.total` the collection `out` is dropped. -/
theorem dottedOutput_dropped :
    (runCommand "test".toList (some dottedOutput) [intervention, worked true, worked true, worked true]).exchanges.map
        Exchange.event = [.run, .remove "test.out.total".toList, .drop "test".toList "out".toList, .run] ∧
      ¬ Correct "test".toList dottedOutput [intervention, worked true, worked true, worked true]
        (runCommand "test".toList (some dottedOutput) [intervention, worked true, worked true, worked true]) := by
  refine ⟨by decide +kernel, fun h => ?_⟩
  have hdrop := h.drops ⟨.drop "test".toList "out".toList, some (worked true)⟩ (by decide +kernel) _ _ rfl
  exact absurd hdrop (by decide +kernel)

end Promise

end MongoTests.Override.ManualIntervention
