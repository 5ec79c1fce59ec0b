import Mathlib.Logic.Function.Basic
import MongoTests.Lib.Machine

/-!
# Scheduling the flushes

Embeds the scheduling side of `BufferedHandler` in `resmokelib/logging/handlers.py` over the flush
thread of `logging/flush.py` and `utils/scheduler.py`: any number of threads call `emit`, `flush`
and `close` in any order, and one of them, the flush thread, also takes the scheduled events and
runs them. A thread gets one step at a time; entering, cancelling and taking an event are single
steps, because the scheduler has a lock of its own, and they come between the steps of a section
that holds `__emit_lock`.

* `Pc`: where a thread is in `emit`, `flush` or `close`.
* `step`: one step of one thread.
* `Inv`: what holds in every state, whoever moves.
* **`one_pending_flush`**: there is at most one scheduled flush; while the handler is open and its
  emit buffer is not empty, there is one, or a flush is executing, or an `emit` that holds the lock
  is about to schedule one. `appended_not_scheduled`: such a state inside `emit`.
-/

namespace MongoTests.Logging.Scheduling

open MongoTests.Lib

variable {ι Line : Type*}

/-- Where a thread is. `closing` tells the `__flush` of `close` from that of `flush`. -/
inductive Pc (Line : Type*)
  | idle
  /-- `emit`, waiting for `__emit_lock`. -/
  | emitWait (line : Line)
  /-- The line is in the buffer. -/
  | emitAppended
  /-- `flush_after` returned the event, which is not stored yet. -/
  | emitScheduled (event : ℕ)
  | emitCheckFull
  | emitCancel
  | emitCancelled
  | emitRescheduled (event : ℕ)
  | emitDone
  /-- `__flush`, waiting for `__emit_lock`. -/
  | flushWait (closing : Bool)
  | flushTaken (buf : List Line) (closing : Bool)
  /-- `_flush_buffer_with_lock`. -/
  | flushSending (closing : Bool)
  /-- The second half of `flush`, waiting for `__emit_lock`. -/
  | flushRelock
  | flushLocked
  | flushCancelled
  | flushRescheduled (event : ℕ)
  | flushDone
  /-- `close`, waiting for `__emit_lock`. -/
  | closeWait
  | closeLocked
  | closeDone

/-- `queue` has the flush events of the handler that were entered and neither taken nor cancelled;
`nextEvent` is the identity of the next event. -/
structure State (ι Line : Type*) where
  emitBuffer : List Line
  flushEvent : Option ℕ
  flushScheduledByEmit : Bool
  closeCalled : Bool
  emitLock : Option ι
  flushLock : Option ι
  queue : List ℕ
  nextEvent : ℕ
  pc : ι → Pc Line

/-- What a thread does: it calls a method, takes an event, or goes on. -/
inductive Act (Line : Type*)
  | emit (line : Line)
  | flush
  | close
  | pop (event : ℕ)
  | next

section Step

variable [DecidableEq ι] (capacity : ℕ) (flushThread : ι)

def State.move (s : State ι Line) (i : ι) (p : Pc Line) : State ι Line :=
  { s with pc := Function.update s.pc i p }

/-- `flush_after`: a new event. -/
def State.enter (s : State ι Line) : State ι Line :=
  { s with queue := s.queue ++ [s.nextEvent], nextEvent := s.nextEvent + 1 }

/-- `cancel`: the event is not in the queue any more. -/
def State.cancel (s : State ι Line) : State ι Line :=
  { s with queue := s.flushEvent.elim s.queue s.queue.erase }

/-- After `__flush`. -/
def afterFlush : Bool → Pc Line
  | true => .idle
  | false => .flushRelock

/-- The next step of a thread inside a method. -/
def next (s : State ι Line) (i : ι) : Option (State ι Line) :=
  match s.pc i with
  | .idle => none
  | .emitWait line =>
    if s.emitLock.isSome then none
    else some ({ s with emitLock := some i, emitBuffer := s.emitBuffer ++ [line] }.move i .emitAppended)
  | .emitAppended =>
    if s.flushEvent.isSome then some (s.move i .emitCheckFull)
    else some (s.enter.move i (.emitScheduled s.nextEvent))
  | .emitScheduled event => some ({ s with flushEvent := some event }.move i .emitCheckFull)
  | .emitCheckFull =>
    if s.flushScheduledByEmit = false ∧ capacity ≤ s.emitBuffer.length then
      some (s.move i .emitCancel)
    else some (s.move i .emitDone)
  | .emitCancel =>
    if s.flushEvent.any (fun event => decide (event ∈ s.queue)) then
      some (s.cancel.move i .emitCancelled)
    else some (s.move i .emitDone)
  | .emitCancelled => some (s.enter.move i (.emitRescheduled s.nextEvent))
  | .emitRescheduled event =>
    some ({ s with flushEvent := some event, flushScheduledByEmit := true }.move i .emitDone)
  | .emitDone => some ({ s with emitLock := none }.move i .idle)
  | .flushWait closing =>
    if s.emitLock.isSome then none
    else some ({ s with emitBuffer := [] }.move i (.flushTaken s.emitBuffer closing))
  | .flushTaken [] closing => some (s.move i (afterFlush closing))
  | .flushTaken (_ :: _) closing =>
    if s.flushLock.isSome then none
    else some ({ s with flushLock := some i }.move i (.flushSending closing))
  | .flushSending closing => some ({ s with flushLock := none }.move i (afterFlush closing))
  | .flushRelock =>
    if s.emitLock.isSome then none
    else some ({ s with emitLock := some i }.move i .flushLocked)
  | .flushLocked =>
    if s.flushEvent.isSome = true ∧ s.closeCalled = false then
      some (s.cancel.move i .flushCancelled)
    else some (s.move i .flushDone)
  | .flushCancelled => some (s.enter.move i (.flushRescheduled s.nextEvent))
  | .flushRescheduled event =>
    some ({ s with flushEvent := some event, flushScheduledByEmit := false }.move i .flushDone)
  | .flushDone => some ({ s with emitLock := none }.move i .idle)
  | .closeWait =>
    if s.emitLock.isSome then none
    else some ({ s with emitLock := some i, closeCalled := true }.move i .closeLocked)
  | .closeLocked => some (s.cancel.move i .closeDone)
  | .closeDone => some ({ s with emitLock := none }.move i (.flushWait true))

/-- A thread outside the methods of the handler begins something. -/
def State.fromIdle (s : State ι Line) (i : ι) (s' : State ι Line) : Option (State ι Line) :=
  match s.pc i with
  | .idle => some s'
  | _ => none

/-- One step of a thread. Only the flush thread takes events, any of them: their times are left
out. -/
def step (s : State ι Line) : ι × Act Line → Option (State ι Line)
  | (i, .emit line) => s.fromIdle i (s.move i (.emitWait line))
  | (i, .flush) => s.fromIdle i (s.move i (.flushWait false))
  | (i, .close) => s.fromIdle i (s.move i .closeWait)
  | (i, .pop event) =>
    if i = flushThread ∧ event ∈ s.queue then
      s.fromIdle i ({ s with queue := s.queue.erase event }.move i (.flushWait false))
    else none
  | (i, .next) => next capacity s i

/-- A new handler. -/
def initial : State ι Line := ⟨[], none, false, false, none, none, [], 0, fun _ => .idle⟩

end Step

/-! ## The threads -/

namespace Pc

/-- The thread holds `__emit_lock`. -/
def holds : Pc Line → Bool
  | .emitAppended | .emitScheduled _ | .emitCheckFull | .emitCancel | .emitCancelled
  | .emitRescheduled _ | .emitDone | .flushLocked | .flushCancelled | .flushRescheduled _
  | .flushDone | .closeLocked | .closeDone => true
  | _ => false

/-- The event that the thread entered and did not store yet. -/
def fresh : Pc Line → Option ℕ
  | .emitScheduled event | .emitRescheduled event | .flushRescheduled event => some event
  | _ => none

/-- The thread cancelled the event and did not enter another one yet. -/
def cancelled : Pc Line → Bool
  | .emitCancelled | .flushCancelled => true
  | _ => false

/-- The thread runs `flush` and did not schedule the next one yet. -/
def flushing : Pc Line → Bool
  | .flushWait false | .flushTaken _ false | .flushSending false | .flushRelock | .flushLocked
  | .flushCancelled | .flushRescheduled _ => true
  | _ => false

/-- The thread runs `flush` and did not take the buffer yet. -/
def toTake : Pc Line → Bool
  | .flushWait false => true
  | _ => false

/-- The thread is in `emit`, holds `__emit_lock` and is about to schedule the first flush. -/
def first : Pc Line → Bool
  | .emitAppended | .emitScheduled _ => true
  | _ => false

/-- The thread is in `emit`, holds `__emit_lock` and is about to schedule a flush again. -/
def again : Pc Line → Bool
  | .emitCancelled => true
  | _ => false

/-- The thread is in `close` and is about to cancel the event. -/
def closing : Pc Line → Bool
  | .closeLocked => true
  | _ => false

end Pc

/-- The invariant: a held lock has one holder, the queue holds the stored event or the one that the
holder is about to store, and a buffer that is not empty will be flushed. -/
structure Inv (s : State ι Line) : Prop where
  lock : ∀ i, (s.pc i).holds = true → s.emitLock = some i
  queue_le : s.queue.length ≤ 1
  stored : (∀ i, (s.pc i).fresh = none) → ∀ e ∈ s.queue, s.flushEvent = some e
  cancelled : ∀ i, (s.pc i).cancelled = true → s.queue = []
  entered : ∀ i e, (s.pc i).fresh = some e →
    s.queue = [e] ∨ s.queue = [] ∧ ∃ j, (s.pc j).toTake = true
  pending : s.closeCalled = false → s.flushEvent ≠ none →
    s.queue ≠ [] ∨ (∃ i, (s.pc i).flushing = true) ∨ ∃ i, (s.pc i).again = true
  unscheduled : s.flushEvent = none → s.emitBuffer = [] ∨ ∃ i, (s.pc i).first = true
  closed : ∀ i, (s.pc i).closing = true → s.closeCalled = true

theorem inv_initial : Inv (initial : State ι Line) where
  lock := nofun
  queue_le := Nat.zero_le 1
  stored := fun _ => nofun
  cancelled := fun _ _ => rfl
  entered := nofun
  pending := fun _ h => absurd rfl h
  unscheduled := fun _ => .inl rfl
  closed := nofun

/-! ## What a thread outside the lock takes part in -/

section Outside

variable {p : Pc Line}

theorem Pc.fresh_of_outside (h : p.holds = false) : p.fresh = none := by
  cases p <;> first | rfl | cases h

theorem Pc.cancelled_of_outside (h : p.holds = false) : p.cancelled = false := by
  cases p <;> first | rfl | cases h

theorem Pc.first_of_outside (h : p.holds = false) : p.first = false := by
  cases p <;> first | rfl | cases h

theorem Pc.again_of_outside (h : p.holds = false) : p.again = false := by
  cases p <;> first | rfl | cases h

theorem Pc.closing_of_outside (h : p.holds = false) : p.closing = false := by
  cases p <;> first | rfl | cases h

theorem Pc.flushing_of_toTake (h : p.toTake = true) : p.flushing = true := by
  cases p with
  | flushWait closing => cases closing <;> first | rfl | cases h
  | _ => cases h

end Outside

section Inv

variable {s s' : State ι Line} {i : ι}

/-- While thread `i` holds the lock, or nobody does, no other thread does. -/
theorem Inv.others (h : Inv s) (hl : ∀ j, s.emitLock = some j → j = i) :
    ∀ j, j ≠ i → (s.pc j).holds = false := by
  intro j hj
  by_contra hc
  exact hj (hl j (h.lock j (by simpa using hc)))

theorem eq_of_lock (hl : s.emitLock = some i) : ∀ j, s.emitLock = some j → j = i :=
  fun _ hj => Option.some.inj (hj.symm.trans hl)

theorem eq_of_free (hl : ¬ s.emitLock.isSome = true) : ∀ j, s.emitLock = some j → j = i := by
  intro j hj
  rw [hj] at hl
  exact absurd rfl hl

theorem fromIdle_eq_some {t : State ι Line} (h : s.fromIdle i t = some s') :
    s.pc i = .idle ∧ s' = t := by
  unfold State.fromIdle at h
  cases hp : s.pc i with
  | idle =>
    rw [hp] at h
    exact ⟨rfl, (Option.some.inj h).symm⟩
  | _ =>
    rw [hp] at h
    cases h

/-- The invariant, when no thread but `i` can hold the lock. -/
theorem inv_of_others (ho : ∀ j, j ≠ i → (s.pc j).holds = false)
    (hl : (s.pc i).holds = true → s.emitLock = some i) (hq : s.queue.length ≤ 1)
    (hstored : (s.pc i).fresh = none → ∀ e ∈ s.queue, s.flushEvent = some e)
    (hcancelled : (s.pc i).cancelled = true → s.queue = [])
    (hentered : ∀ e, (s.pc i).fresh = some e →
      s.queue = [e] ∨ s.queue = [] ∧ ∃ j, (s.pc j).toTake = true)
    (hpending : s.closeCalled = false → s.flushEvent ≠ none →
      s.queue ≠ [] ∨ (∃ j, (s.pc j).flushing = true) ∨ ∃ j, (s.pc j).again = true)
    (hunscheduled : s.flushEvent = none → s.emitBuffer = [] ∨ ∃ j, (s.pc j).first = true)
    (hclosed : (s.pc i).closing = true → s.closeCalled = true) : Inv s where
  lock j hj := by
    by_cases hji : j = i
    · rw [hji] at hj ⊢
      exact hl hj
    · rw [ho j hji] at hj
      cases hj
  queue_le := hq
  stored hf := hstored (hf i)
  cancelled j hj := by
    by_cases hji : j = i
    · rw [hji] at hj
      exact hcancelled hj
    · rw [Pc.cancelled_of_outside (ho j hji)] at hj
      cases hj
  entered j e hj := by
    by_cases hji : j = i
    · rw [hji] at hj
      exact hentered e hj
    · rw [Pc.fresh_of_outside (ho j hji)] at hj
      cases hj
  pending := hpending
  unscheduled := hunscheduled
  closed j hj := by
    by_cases hji : j = i
    · rw [hji] at hj
      exact hclosed hj
    · rw [Pc.closing_of_outside (ho j hji)] at hj
      cases hj

/-- Unless thread `i` is about to store an event, the queue holds the stored one. -/
theorem Inv.stored_of_others (h : Inv s) (ho : ∀ j, j ≠ i → (s.pc j).holds = false)
    (hi : (s.pc i).fresh = none) : ∀ e ∈ s.queue, s.flushEvent = some e := by
  refine h.stored fun j => ?_
  by_cases hji : j = i
  · rw [hji, hi]
  · exact Pc.fresh_of_outside (ho j hji)

end Inv

/-! ## Steps -/

section Steps

variable [DecidableEq ι] {capacity : ℕ} {flushThread : ι} {s s' : State ι Line} {i : ι}

@[simp] theorem pc_move_self (s : State ι Line) (i : ι) (p : Pc Line) : (s.move i p).pc i = p := by
  simp [State.move]

theorem pc_move_of_ne {j : ι} (h : j ≠ i) (s : State ι Line) (p : Pc Line) :
    (s.move i p).pc j = s.pc j := by
  simp [State.move, h]

/-- What some thread does, it still does after another one moved. -/
theorem exists_move {P : Pc Line → Bool} {p : Pc Line} (h : ∃ j, P (s.pc j) = true)
    (hi : P (s.pc i) = true → P p = true) (hpc : s'.pc = Function.update s.pc i p) :
    ∃ j, P (s'.pc j) = true := by
  obtain ⟨j, hj⟩ := h
  by_cases hji : j = i
  · rw [hji] at hj
    exact ⟨i, by rw [hpc, Function.update_self, hi hj]⟩
  · exact ⟨j, by rw [hpc, Function.update_of_ne hji, hj]⟩

/-- **A step outside the lock.** A thread that neither holds the lock nor gets it takes the buffer,
or leaves the shared data alone; it goes on flushing, unless the handler was closed, and it takes
the buffer only while the lock is free. -/
theorem Inv.outside (h : Inv s) {p : Pc Line} {buf : List Line} {l : Option ι}
    (hi : (s.pc i).holds = false) (hp : p.holds = false) (hbuf : buf = [] ∨ buf = s.emitBuffer)
    (ht : (s.pc i).toTake = true → p.toTake = true ∨ s.emitLock = none)
    (hf : (s.pc i).flushing = true → p.flushing = true) :
    Inv ({ s with emitBuffer := buf, flushLock := l }.move i p) where
  lock j hj := by
    by_cases hji : j = i
    · rw [hji, pc_move_self, hp] at hj
      cases hj
    · rw [pc_move_of_ne hji] at hj
      exact h.lock j hj
  queue_le := h.queue_le
  stored hfresh := by
    refine h.stored fun j => ?_
    by_cases hji : j = i
    · rw [hji]
      exact Pc.fresh_of_outside hi
    · have hj := hfresh j
      rwa [pc_move_of_ne hji] at hj
  cancelled j hj := by
    by_cases hji : j = i
    · rw [hji, pc_move_self, Pc.cancelled_of_outside hp] at hj
      cases hj
    · rw [pc_move_of_ne hji] at hj
      exact h.cancelled j hj
  entered j e hj := by
    by_cases hji : j = i
    · rw [hji, pc_move_self, Pc.fresh_of_outside hp] at hj
      cases hj
    · rw [pc_move_of_ne hji] at hj
      refine (h.entered j e hj).imp_right fun ⟨hq, hex⟩ => ⟨hq, ?_⟩
      refine exists_move hex (fun hti => (ht hti).resolve_right fun hfree => ?_) rfl
      -- the thread with the event holds the lock
      have hh : (s.pc j).holds = true := by
        by_contra hc
        rw [Pc.fresh_of_outside (by simpa using hc)] at hj
        cases hj
      rw [h.lock j hh] at hfree
      cases hfree
  pending hc he := by
    refine (h.pending hc he).imp_right (Or.imp (fun hex => exists_move hex hf rfl) fun hex => ?_)
    refine exists_move hex (fun ha => ?_) rfl
    rw [Pc.again_of_outside hi] at ha
    cases ha
  unscheduled he := by
    obtain rfl | rfl := hbuf
    · exact .inl rfl
    · refine (h.unscheduled he).imp_right fun hex => exists_move hex (fun ha => ?_) rfl
      rw [Pc.first_of_outside hi] at ha
      cases ha
  closed j hj := by
    by_cases hji : j = i
    · rw [hji, pc_move_self, Pc.closing_of_outside hp] at hj
      cases hj
    · rw [pc_move_of_ne hji] at hj
      exact h.closed j hj

/-- **The flush thread takes the event**: it is the only one, and the flush begins. -/
theorem Inv.pop (h : Inv s) {e : ℕ} (hi : s.pc i = .idle) (he : e ∈ s.queue) :
    Inv ({ s with queue := s.queue.erase e }.move i (.flushWait false)) := by
  have hq : s.queue.erase e = [] := by
    have hlen := List.length_erase_of_mem he
    have hle := h.queue_le
    exact List.eq_nil_of_length_eq_zero (by omega)
  have houtside : ∀ j, ((s.move i (.flushWait false)).pc j).holds = (s.pc j).holds := by
    intro j
    by_cases hji : j = i
    · rw [hji, pc_move_self, hi]
      rfl
    · rw [pc_move_of_ne hji]
  have hself : ({ s with queue := s.queue.erase e }.move i (.flushWait false)).pc i =
      .flushWait false := pc_move_self _ i _
  refine ⟨fun j hj => h.lock j ((houtside j).symm.trans hj), ?_, ?_, ?_, ?_, ?_, ?_, ?_⟩
  · exact (congrArg List.length hq).trans_le (Nat.zero_le 1)
  · intro _ e' he'
    have hnil : e' ∈ s.queue.erase e := he'
    rw [hq] at hnil
    cases hnil
  · exact fun _ _ => hq
  · exact fun _ _ _ => .inr ⟨hq, i, by rw [hself]; rfl⟩
  · exact fun _ _ => .inr (.inl ⟨i, by rw [hself]; rfl⟩)
  · intro hn
    refine (h.unscheduled hn).imp_right fun hex => exists_move hex (fun ha => ?_) rfl
    rw [hi] at ha
    cases ha
  · intro j hj
    by_cases hji : j = i
    · rw [hji, hself] at hj
      cases hj
    · rw [pc_move_of_ne hji] at hj
      exact h.closed j hj

/-- What the thread with the lock does, and what it leaves to the others. -/
theorem Inv.locked (h : Inv s) (hl : ∀ j, s.emitLock = some j → j = i) {p : Pc Line}
    (hpc : s'.pc = Function.update s.pc i p) (hlock : p.holds = true → s'.emitLock = some i)
    (hq : s'.queue.length ≤ 1) (hstored : p.fresh = none → ∀ e ∈ s'.queue, s'.flushEvent = some e)
    (hcancelled : p.cancelled = true → s'.queue = [])
    (hentered : ∀ e, p.fresh = some e →
      s'.queue = [e] ∨ s'.queue = [] ∧ ∃ j, (s'.pc j).toTake = true)
    (hpending : s'.closeCalled = false → s'.flushEvent ≠ none →
      s'.queue ≠ [] ∨ (∃ j, (s'.pc j).flushing = true) ∨ ∃ j, (s'.pc j).again = true)
    (hunscheduled : s'.flushEvent = none → s'.emitBuffer = [] ∨ ∃ j, (s'.pc j).first = true)
    (hclosed : p.closing = true → s'.closeCalled = true) : Inv s' := by
  have hself : s'.pc i = p := by rw [hpc, Function.update_self]
  have hothers : ∀ j, j ≠ i → (s'.pc j).holds = false := by
    intro j hj
    rw [hpc, Function.update_of_ne hj]
    exact h.others hl j hj
  rw [← hself] at hlock hstored hcancelled hentered hclosed
  exact inv_of_others hothers hlock hq hstored hcancelled hentered hpending hunscheduled hclosed

/-- The thread with the lock enters an event, when there is none. -/
theorem Inv.enter (h : Inv s) (hi : s.emitLock = some i) (hq : s.queue = []) {p : Pc Line}
    (hfresh : p.fresh = some s.nextEvent) (hc : p.cancelled = false)
    (hcl : p.closing = false) (hfirst : (s.pc i).first = true → p.first = true) :
    Inv (s.enter.move i p) := by
  have hq' : (s.enter.move i p).queue = [s.nextEvent] := by
    show s.queue ++ [s.nextEvent] = [s.nextEvent]
    rw [hq, List.nil_append]
  refine h.locked (fun j hj => Option.some.inj (hj.symm.trans hi)) rfl (fun _ => hi)
    ?_ ?_ ?_ ?_ ?_ ?_ ?_
  · rw [hq']
    exact le_rfl
  · intro hn
    rw [hfresh] at hn
    cases hn
  · intro hn
    rw [hc] at hn
    cases hn
  · intro e he
    rw [hfresh] at he
    cases he
    exact .inl hq'
  · intro _ _
    rw [hq']
    exact .inl (List.cons_ne_nil _ _)
  · intro hn
    exact (h.unscheduled hn).imp_right fun hex => exists_move hex hfirst rfl
  · intro hn
    rw [hcl] at hn
    cases hn

/-- The thread with the lock stores the event that it entered; if the flush thread took it
meanwhile, the flush has not taken the buffer yet. -/
theorem Inv.store (h : Inv s) (hi : (s.pc i).holds = true) {e : ℕ}
    (he : (s.pc i).fresh = some e) (ht : (s.pc i).toTake = false) {p : Pc Line} {b : Bool}
    (hfresh : p.fresh = none) (hc : p.cancelled = false) (hcl : p.closing = false) :
    Inv ({ s with flushEvent := some e, flushScheduledByEmit := b }.move i p) := by
  have hl := h.lock i hi
  refine h.locked (fun j hj => Option.some.inj (hj.symm.trans hl)) rfl (fun _ => hl) h.queue_le ?_ ?_
    ?_ ?_ ?_ ?_
  · intro _ e' he'
    obtain hq | ⟨hq, -⟩ := h.entered i e he
    · have hm : e' ∈ s.queue := he'
      rw [hq, List.mem_singleton] at hm
      rw [hm]
      rfl
    · have hm : e' ∈ s.queue := he'
      rw [hq] at hm
      cases hm
  · intro hn
    rw [hc] at hn
    cases hn
  · intro e' hn
    rw [hfresh] at hn
    cases hn
  · intro _ _
    obtain hq | ⟨-, j, hj⟩ := h.entered i e he
    · left
      show s.queue ≠ []
      rw [hq]
      exact List.cons_ne_nil _ _
    · refine .inr (.inl ⟨j, ?_⟩)
      have hji : j ≠ i := by
        rintro rfl
        rw [ht] at hj
        cases hj
      rw [pc_move_of_ne hji]
      exact Pc.flushing_of_toTake hj
  · intro hn
    cases hn
  · intro hn
    rw [hcl] at hn
    cases hn

/-- The thread with the lock cancels the stored event, which empties the queue. -/
theorem Inv.cancel (h : Inv s) (hi : (s.pc i).holds = true) (hf : (s.pc i).fresh = none)
    {p : Pc Line} (hfresh : p.fresh = none) (hcl : p.closing = false)
    (hfirst : (s.pc i).first = false)
    (hpend : s.closeCalled = false → p.flushing = true ∨ p.again = true) :
    Inv (s.cancel.move i p) := by
  have hl := h.lock i hi
  have hlock : ∀ j, s.emitLock = some j → j = i := fun j hj => Option.some.inj (hj.symm.trans hl)
  have hq' : (s.cancel.move i p).queue = [] := by
    show s.flushEvent.elim s.queue s.queue.erase = []
    have hst := h.stored_of_others (h.others hlock) hf
    cases hq : s.queue with
    | nil => cases s.flushEvent <;> rfl
    | cons e es =>
      have hle := h.queue_le
      rw [hq, List.length_cons] at hle
      have hnil : es = [] := List.eq_nil_of_length_eq_zero (by omega)
      rw [hst e (by rw [hq]; exact List.mem_cons_self), hnil]
      exact List.erase_cons_head e []
  refine h.locked hlock rfl (fun _ => hl) ?_ ?_ ?_ ?_ ?_ ?_ ?_
  · rw [hq']
    exact Nat.zero_le 1
  · intro _ e he
    rw [hq'] at he
    cases he
  · exact fun _ => hq'
  · intro e hn
    rw [hfresh] at hn
    cases hn
  · intro hopen _
    refine .inr ((hpend hopen).imp (fun hp' => ⟨i, ?_⟩) fun hp' => ⟨i, ?_⟩)
    · rw [pc_move_self, hp']
    · rw [pc_move_self, hp']
  · intro hn
    refine (h.unscheduled hn).imp_right fun hex => exists_move hex (fun ha => ?_) rfl
    cases hfirst.symm.trans ha
  · intro hn
    rw [hcl] at hn
    cases hn

/-- A thread gets the lock, keeps it or gives it back, and leaves the events alone. -/
theorem Inv.quiet (h : Inv s) (hl : ∀ j, s.emitLock = some j → j = i) {p : Pc Line} {l : Option ι}
    {buf : List Line} {closed : Bool} (hf : (s.pc i).fresh = none)
    (hlock : p.holds = true → l = some i) (hfresh : p.fresh = none) (hc : p.cancelled = false)
    (hagain : (s.pc i).again = false) (hopen : closed = false → s.closeCalled = false)
    (hflush : closed = false → s.flushEvent ≠ none → (s.pc i).flushing = true → p.flushing = true)
    (hfirst : s.flushEvent = none → p.first = true ∨ buf = s.emitBuffer ∧ (s.pc i).first = false)
    (hcl : p.closing = true → closed = true) :
    Inv ({ s with emitLock := l, emitBuffer := buf, closeCalled := closed }.move i p) := by
  refine h.locked hl rfl hlock h.queue_le ?_ ?_ ?_ ?_ ?_ hcl
  · exact fun _ => h.stored_of_others (h.others hl) hf
  · intro hn
    rw [hc] at hn
    cases hn
  · intro e hn
    rw [hfresh] at hn
    cases hn
  · intro ho he
    refine (h.pending (hopen ho) he).imp_right (Or.imp (fun hex => ?_) fun hex => ?_)
    · exact exists_move hex (hflush ho he) rfl
    · refine exists_move hex (fun ha => ?_) rfl
      rw [hagain] at ha
      cases ha
  · intro hn
    obtain hp | ⟨rfl, hnf⟩ := hfirst hn
    · exact .inr ⟨i, by rw [pc_move_self, hp]⟩
    · refine (h.unscheduled hn).imp_right fun hex => exists_move hex (fun ha => ?_) rfl
      rw [hnf] at ha
      cases ha

theorem holds_afterFlush (closing : Bool) : (afterFlush closing : Pc Line).holds = false := by
  cases closing <;> rfl

theorem flushing_flushWait (closing : Bool) :
    (Pc.flushWait closing : Pc Line).flushing = !closing := by
  cases closing <;> rfl

theorem flushing_flushTaken (buf : List Line) (closing : Bool) :
    (Pc.flushTaken buf closing).flushing = !closing := by
  cases closing <;> rfl

theorem flushing_flushSending (closing : Bool) :
    (Pc.flushSending closing : Pc Line).flushing = !closing := by
  cases closing <;> rfl

theorem flushing_afterFlush (closing : Bool) :
    (afterFlush closing : Pc Line).flushing = !closing := by
  cases closing <;> rfl

/-- One step of a thread inside a method: where it is decides which of the lemmas applies. -/
theorem Inv.next (h : Inv s) (hs : next capacity s i = some s') : Inv s' := by
  unfold Scheduling.next at hs
  cases hp : s.pc i with
  | idle =>
    rw [hp] at hs
    cases hs
  | emitWait line =>
    rw [hp] at hs
    dsimp only at hs
    split_ifs at hs with hl
    cases hs
    exact h.quiet (eq_of_free hl) (by simp [hp, Pc.fresh]) (fun _ => rfl) rfl rfl
      (by simp [hp, Pc.again]) id (by simp [hp, Pc.flushing]) (fun _ => .inl rfl) nofun
  | emitAppended =>
    rw [hp] at hs
    dsimp only at hs
    have hi : s.emitLock = some i := h.lock i (by rw [hp]; rfl)
    split_ifs at hs with he
    · cases hs
      exact h.quiet (eq_of_lock hi) (by simp [hp, Pc.fresh]) (fun _ => hi) rfl rfl
        (by simp [hp, Pc.again]) id (by simp [hp, Pc.flushing]) (fun hn => by simp [hn] at he) nofun
    · cases hs
      -- without a stored event there is none in the queue
      have hst := h.stored_of_others (h.others (eq_of_lock hi)) (by rw [hp]; rfl)
      have hq : s.queue = [] := by
        refine List.eq_nil_iff_forall_not_mem.mpr fun e hm => ?_
        simp [hst e hm] at he
      exact h.enter hi hq rfl rfl rfl (fun _ => rfl)
  | emitScheduled e =>
    rw [hp] at hs
    cases hs
    exact h.store (by rw [hp]; rfl) (by rw [hp]; rfl) (by rw [hp]; rfl) rfl rfl rfl
  | emitCheckFull =>
    rw [hp] at hs
    dsimp only at hs
    have hi : s.emitLock = some i := h.lock i (by rw [hp]; rfl)
    split_ifs at hs
    all_goals
      cases hs
      exact h.quiet (eq_of_lock hi) (by simp [hp, Pc.fresh]) (fun _ => hi) rfl rfl
        (by simp [hp, Pc.again]) id (by simp [hp, Pc.flushing])
        (fun _ => .inr ⟨rfl, by simp [hp, Pc.first]⟩) nofun
  | emitCancel =>
    rw [hp] at hs
    dsimp only at hs
    have hi : s.emitLock = some i := h.lock i (by rw [hp]; rfl)
    split_ifs at hs
    · cases hs
      exact h.cancel (by rw [hp]; rfl) (by rw [hp]; rfl) rfl rfl (by rw [hp]; rfl)
        fun _ => .inr rfl
    · cases hs
      exact h.quiet (eq_of_lock hi) (by simp [hp, Pc.fresh]) (fun _ => hi) rfl rfl
        (by simp [hp, Pc.again]) id (by simp [hp, Pc.flushing])
        (fun _ => .inr ⟨rfl, by simp [hp, Pc.first]⟩) nofun
  | emitCancelled =>
    rw [hp] at hs
    cases hs
    exact h.enter (h.lock i (by rw [hp]; rfl)) (h.cancelled i (by rw [hp]; rfl)) rfl rfl rfl
      (by simp [hp, Pc.first])
  | emitRescheduled e =>
    rw [hp] at hs
    cases hs
    exact h.store (by rw [hp]; rfl) (by rw [hp]; rfl) (by rw [hp]; rfl) rfl rfl rfl
  | emitDone =>
    rw [hp] at hs
    cases hs
    exact h.quiet (eq_of_lock (h.lock i (by rw [hp]; rfl))) (by simp [hp, Pc.fresh]) nofun rfl rfl
      (by simp [hp, Pc.again]) id (by simp [hp, Pc.flushing])
      (fun _ => .inr ⟨rfl, by simp [hp, Pc.first]⟩) nofun
  | flushWait closing =>
    rw [hp] at hs
    dsimp only at hs
    split_ifs at hs with hl
    cases hs
    have hfree : s.emitLock = none := by simpa using hl
    refine h.outside (by rw [hp]; rfl) rfl (.inl rfl) (fun _ => .inr hfree) fun hf => ?_
    rw [flushing_flushTaken]
    rwa [hp, flushing_flushWait] at hf
  | flushTaken buf closing =>
    rw [hp] at hs
    cases buf with
    | nil =>
      cases hs
      refine h.outside (by rw [hp]; rfl) (holds_afterFlush closing) (.inr rfl)
        (by simp [hp, Pc.toTake]) fun hf => ?_
      rw [flushing_afterFlush]
      rwa [hp, flushing_flushTaken] at hf
    | cons line lines =>
      dsimp only at hs
      split_ifs at hs
      cases hs
      refine h.outside (by rw [hp]; rfl) rfl (.inr rfl) (by simp [hp, Pc.toTake]) fun hf => ?_
      rw [flushing_flushSending]
      rwa [hp, flushing_flushTaken] at hf
  | flushSending closing =>
    rw [hp] at hs
    cases hs
    refine h.outside (by rw [hp]; rfl) (holds_afterFlush closing) (.inr rfl)
      (by simp [hp, Pc.toTake]) fun hf => ?_
    rw [flushing_afterFlush]
    rwa [hp, flushing_flushSending] at hf
  | flushRelock =>
    rw [hp] at hs
    dsimp only at hs
    split_ifs at hs with hl
    cases hs
    exact h.quiet (eq_of_free hl) (by simp [hp, Pc.fresh]) (fun _ => rfl) rfl rfl
      (by simp [hp, Pc.again]) id (fun _ _ _ => rfl)
      (fun _ => .inr ⟨rfl, by simp [hp, Pc.first]⟩) nofun
  | flushLocked =>
    rw [hp] at hs
    dsimp only at hs
    have hi : s.emitLock = some i := h.lock i (by rw [hp]; rfl)
    split_ifs at hs with he
    · cases hs
      exact h.cancel (by rw [hp]; rfl) (by rw [hp]; rfl) rfl rfl (by rw [hp]; rfl)
        fun _ => .inl rfl
    · cases hs
      refine h.quiet (eq_of_lock hi) (by simp [hp, Pc.fresh]) (fun _ => hi) rfl rfl
        (by simp [hp, Pc.again]) id (fun ho hn _ => ?_)
        (fun _ => .inr ⟨rfl, by simp [hp, Pc.first]⟩) nofun
      exact absurd ⟨Option.isSome_iff_ne_none.mpr hn, ho⟩ he
  | flushCancelled =>
    rw [hp] at hs
    cases hs
    exact h.enter (h.lock i (by rw [hp]; rfl)) (h.cancelled i (by rw [hp]; rfl)) rfl rfl rfl
      (by simp [hp, Pc.first])
  | flushRescheduled e =>
    rw [hp] at hs
    cases hs
    exact h.store (by rw [hp]; rfl) (by rw [hp]; rfl) (by rw [hp]; rfl) rfl rfl rfl
  | flushDone =>
    rw [hp] at hs
    cases hs
    exact h.quiet (eq_of_lock (h.lock i (by rw [hp]; rfl))) (by simp [hp, Pc.fresh]) nofun rfl rfl
      (by simp [hp, Pc.again]) id (by simp [hp, Pc.flushing])
      (fun _ => .inr ⟨rfl, by simp [hp, Pc.first]⟩) nofun
  | closeWait =>
    rw [hp] at hs
    dsimp only at hs
    split_ifs at hs with hl
    cases hs
    exact h.quiet (eq_of_free hl) (by simp [hp, Pc.fresh]) (fun _ => rfl) rfl rfl
      (by simp [hp, Pc.again]) nofun (by simp [hp, Pc.flushing])
      (fun _ => .inr ⟨rfl, by simp [hp, Pc.first]⟩) (fun _ => rfl)
  | closeLocked =>
    rw [hp] at hs
    cases hs
    refine h.cancel (by rw [hp]; rfl) (by rw [hp]; rfl) rfl rfl (by rw [hp]; rfl) fun ho => ?_
    rw [h.closed i (by rw [hp]; rfl)] at ho
    cases ho
  | closeDone =>
    rw [hp] at hs
    cases hs
    exact h.quiet (eq_of_lock (h.lock i (by rw [hp]; rfl))) (by simp [hp, Pc.fresh]) nofun rfl rfl
      (by simp [hp, Pc.again]) id (by simp [hp, Pc.flushing])
      (fun _ => .inr ⟨rfl, by simp [hp, Pc.first]⟩) nofun

theorem Inv.step (h : Inv s) {a : Act Line}
    (hs : step capacity flushThread s (i, a) = some s') : Inv s' := by
  cases a with
  | emit line =>
    obtain ⟨hp, rfl⟩ := fromIdle_eq_some hs
    exact h.outside (by rw [hp]; rfl) rfl (.inr rfl) (by simp [hp, Pc.toTake])
      (by simp [hp, Pc.flushing])
  | flush =>
    obtain ⟨hp, rfl⟩ := fromIdle_eq_some hs
    exact h.outside (by rw [hp]; rfl) rfl (.inr rfl) (fun _ => .inl rfl) (fun _ => rfl)
  | close =>
    obtain ⟨hp, rfl⟩ := fromIdle_eq_some hs
    exact h.outside (by rw [hp]; rfl) rfl (.inr rfl) (by simp [hp, Pc.toTake])
      (by simp [hp, Pc.flushing])
  | pop e =>
    rw [Scheduling.step] at hs
    split_ifs at hs with he
    obtain ⟨hp, rfl⟩ := fromIdle_eq_some hs
    exact h.pop hp he.2
  | next => exact h.next hs

theorem inv_of_reach (h : Reach (step capacity flushThread) Free (· = initial) s) : Inv s :=
  Reach.inv (fun _ hs => hs ▸ inv_initial) (fun _ _ _ hi _ hs => hi.step hs) h

/-- **At most one pending flush, and no forgotten buffer.** Whatever the threads do and in whatever
order, at most one flush event is scheduled. While the handler is open and its emit buffer is not
empty, a flush event is scheduled or a flush is executing, unless an `emit` that holds the lock is
about to schedule one; so it is in every state in which the lock is free. -/
theorem one_pending_flush (h : Reach (step capacity flushThread) Free (· = initial) s) :
    s.queue.length ≤ 1 ∧
    (s.closeCalled = false → s.emitBuffer ≠ [] →
      s.queue ≠ [] ∨ (∃ i, (s.pc i).flushing = true) ∨
        ∃ i, s.emitLock = some i ∧ ((s.pc i).first = true ∨ (s.pc i).again = true)) ∧
    (s.closeCalled = false → s.emitBuffer ≠ [] → s.emitLock = none →
      s.queue ≠ [] ∨ ∃ i, (s.pc i).flushing = true) := by
  have hinv := inv_of_reach h
  have hemit : ∀ i, (s.pc i).first = true ∨ (s.pc i).again = true → s.emitLock = some i := by
    intro i hi
    refine hinv.lock i ?_
    by_contra hc
    have hout : (s.pc i).holds = false := by simpa using hc
    rw [Pc.first_of_outside hout, Pc.again_of_outside hout] at hi
    simp at hi
  have hmain : s.closeCalled = false → s.emitBuffer ≠ [] →
      s.queue ≠ [] ∨ (∃ i, (s.pc i).flushing = true) ∨
        ∃ i, s.emitLock = some i ∧ ((s.pc i).first = true ∨ (s.pc i).again = true) := by
    intro ho hb
    by_cases he : s.flushEvent = none
    · obtain ⟨i, hi⟩ := (hinv.unscheduled he).resolve_left hb
      exact .inr (.inr ⟨i, hemit i (.inl hi), .inl hi⟩)
    · refine (hinv.pending ho he).imp_right (Or.imp_right fun ⟨i, hi⟩ => ?_)
      exact ⟨i, hemit i (.inr hi), .inr hi⟩
  refine ⟨hinv.queue_le, hmain, fun ho hb hl => ?_⟩
  obtain hq | hf | ⟨i, hi, -⟩ := hmain ho hb
  · exact .inl hq
  · exact .inr hf
  · rw [hl] at hi
    cases hi

end Steps

/-- A thread emits twice, which fills the buffer and schedules the flush again; the flush thread takes
the event and the buffer, and a line is emitted before it schedules the next flush. -/
theorem one_pending_flush_full :
    ∃ s : State (Fin 2) ℕ, s.emitBuffer = [3] ∧ s.queue = [] ∧ s.emitLock = none ∧
      ∃ i, (s.pc i).flushing = true := by
  have hrun : ∃ s : State (Fin 2) ℕ, Reach (step 2 1) Free (· = initial) s ∧
      s.emitBuffer = [3] ∧ s.queue = [] ∧ s.emitLock = none ∧ s.closeCalled = false :=
    Reach.exists_of_run (.start rfl)
      (List.flatten
        [[(0, .emit 1), (0, .next), (0, .next), (0, .next), (0, .next), (0, .next)],
          [(0, .emit 2), (0, .next), (0, .next), (0, .next), (0, .next), (0, .next), (0, .next),
            (0, .next)],
          [(1, .pop 1), (1, .next)],
          [(0, .emit 3), (0, .next), (0, .next), (0, .next), (0, .next)]]) (by decide)
  obtain ⟨s, h, hb, hq, hl, ho⟩ := hrun
  have hf := (one_pending_flush h).2.2 ho (by rw [hb]; simp) hl
  exact ⟨s, hb, hq, hl, hf.resolve_left fun hn => hn hq⟩

/-- **Inside `emit`.** The first record has been appended under the lock, and `flush_after` has not
been called yet: no flush is scheduled and none is executing. -/
theorem appended_not_scheduled :
    ∃ s : State (Fin 2) ℕ, Reach (step 2 1) Free (· = initial) s ∧ s.closeCalled = false ∧
      s.emitBuffer ≠ [] ∧ ¬ (s.queue ≠ [] ∨ ∃ i, (s.pc i).flushing = true) :=
  Reach.exists_of_run (.start rfl) [(0, .emit 1), (0, .next)] (by decide)

end MongoTests.Logging.Scheduling
