import Mathlib.Data.PNat.Basic
import MongoTests.Lib.Machine

/-!
# The stream of log lines

Embeds the sending side of `resmokelib/logging/buildlogger.py` (`_LogsSplitter.split_logs`,
`_append_logs`, `__append_logs_chunk`, `_flush_buffer_with_lock`) and the buffers of
`BufferedHandler` in `logging/handlers.py`. Lines are of any type; what the server answers to the
successive POST requests is a sequence of outcomes, and a request that fails stores nothing.

* `splitLogs`: batches of log lines; `flatten_splitLogs`: they are the lines.
* `appendLogs`: sending and resending after 413 answers; `appendLogs_eq`: it satisfies the recursion
  of the source. `accepted_appendLogs`: the server has the first lines, as many as are counted.
* `step`: `emit` and the two halves of a flush, which `emit` may come between.
* **`log_stream_conserved`**: what the server has, the retry buffer and the emit buffer are the
  emitted lines.
* **`close_complete_iff`**: closing loses no line silently, unless it finds an empty emit buffer and
  a retry buffer that is not. `close_loses_retry_buffer`: then the retry buffer is lost.
-/

namespace MongoTests.Logging

open MongoTests.Lib

variable {Line : Type*}

/-! ## `_LogsSplitter` -/

section Split

-- `len(json.dumps(line))`
variable (dumps : Line → ℕ)

/-- The encoded size of a line as part of an array. -/
def lineSize (line : Line) : ℕ := dumps line + 2

/-- One line of the loop of `split_logs`, on the batches, the current one and its size. -/
def splitStep (maxSize : ℕ+) (acc : List (List Line) × List Line × ℕ) (line : Line) :
    List (List Line) × List Line × ℕ :=
  if (maxSize : ℕ) < acc.2.2 + lineSize dumps line then
    (acc.1 ++ [acc.2.1], [line], lineSize dumps line)
  else (acc.1, acc.2.1 ++ [line], acc.2.2 + lineSize dumps line)

/-- `split_logs`; a maximum size that was received is positive. -/
def splitLogs (logLines : List Line) : Option ℕ+ → List (List Line)
  | none => [logLines]
  | some maxSize =>
    let r := logLines.foldl (splitStep dumps maxSize) ([], [], 0)
    r.1 ++ [r.2.1]

theorem flatten_foldl_splitStep (m : ℕ+) (logLines : List Line)
    (acc : List (List Line) × List Line × ℕ) :
    (logLines.foldl (splitStep dumps m) acc).1.flatten ++
        (logLines.foldl (splitStep dumps m) acc).2.1 =
      acc.1.flatten ++ acc.2.1 ++ logLines := by
  induction logLines generalizing acc with
  | nil => simp
  | cons l ls ih =>
    rw [List.foldl_cons, ih]
    unfold splitStep
    split_ifs <;> simp

/-- The batches are the lines, in order. -/
theorem flatten_splitLogs (logLines : List Line) (maxSize : Option ℕ+) :
    (splitLogs dumps logLines maxSize).flatten = logLines := by
  cases maxSize with
  | none => simp [splitLogs]
  | some m =>
    have h := flatten_foldl_splitStep dumps m logLines ([], [], 0)
    simpa [splitLogs] using h

end Split

/-! ## Sending -/

/-- What comes back from a POST request. -/
inductive Post
  | ok
  /-- 413 with a `max_size` in its JSON body. -/
  | tooLarge (maxSize : ℕ+)
  /-- Any other HTTP error, or a network error. -/
  | error
  deriving DecidableEq, Repr

/-- The handler's side of the connection and what the server has stored. -/
structure Wire (Line : Type*) where
  maxSize : Option ℕ+
  posted : ℕ
  accepted : List Line
  deriving DecidableEq, Repr

section Send

/-- The loop of `_append_logs` over the chunks: the number of lines sent. -/
def sendChunks (send : List Line → Wire Line → ℕ × Wire Line) :
    List (List Line) → Wire Line → ℕ × Wire Line
  | [], w => (0, w)
  | chunk :: chunks, w =>
    let r := send chunk w
    -- not all lines have been sent
    if r.1 < chunk.length then r
    else
      let r' := sendChunks send chunks r.2
      (r.1 + r'.1, r'.2)

variable (dumps : Line → ℕ) (posts : ℕ → Post)

/-- `__append_logs_chunk`, where `appendLogs` sends the lines again. -/
def appendLogsChunk (appendLogs : List Line → Wire Line → ℕ × Wire Line) (chunk : List Line)
    (w : Wire Line) : ℕ × Wire Line :=
  match posts w.posted with
  | .ok => (chunk.length, { w with posted := w.posted + 1, accepted := w.accepted ++ chunk })
  | .error => (0, { w with posted := w.posted + 1 })
  | .tooLarge newMaxSize =>
    if w.maxSize.any (fun m => decide (m ≤ newMaxSize)) then (0, { w with posted := w.posted + 1 })
    else appendLogs chunk { w with posted := w.posted + 1, maxSize := some newMaxSize }

/-- `_append_logs`, resending at most `fuel` times in a row. -/
def appendLogsFuel : ℕ → List Line → Wire Line → ℕ × Wire Line
  | 0, _, w => (0, w)
  | fuel + 1, logLines, w =>
    sendChunks (appendLogsChunk posts (appendLogsFuel fuel)) (splitLogs dumps logLines w.maxSize) w

/-- How often lines can be sent again: every time the maximum size gets smaller. -/
def resends (w : Wire Line) : ℕ :=
  match w.maxSize, posts w.posted with
  | some m, _ => m
  | none, .tooLarge m => m + 1
  | none, _ => 1

/-- `_append_logs`: the number of lines sent. -/
def appendLogs (logLines : List Line) (w : Wire Line) : ℕ × Wire Line :=
  appendLogsFuel dumps posts (resends posts w) logLines w

end Send

/-! ## The count of the lines sent -/

/-- The server has stored the first lines, as many as were counted. -/
structure Sent (logLines : List Line) (w : Wire Line) (r : ℕ × Wire Line) : Prop where
  count_le : r.1 ≤ logLines.length
  accepted : r.2.accepted = w.accepted ++ logLines.take r.1

section Sent

variable (dumps : Line → ℕ)

theorem sent_sendChunks {send : List Line → Wire Line → ℕ × Wire Line}
    (hs : ∀ chunk w, Sent chunk w (send chunk w)) (chunks : List (List Line)) (w : Wire Line) :
    Sent chunks.flatten w (sendChunks send chunks w) := by
  induction chunks generalizing w with
  | nil => exact ⟨le_rfl, by simp [sendChunks]⟩
  | cons chunk chunks ih =>
    obtain ⟨hle, hacc⟩ := hs chunk w
    rw [sendChunks]
    split_ifs with hlt
    · refine ⟨?_, ?_⟩
      · rw [List.flatten_cons, List.length_append]
        omega
      · rw [hacc, List.flatten_cons, List.take_append_of_le_length hle]
    · have hall : (send chunk w).1 = chunk.length := by omega
      obtain ⟨hle', hacc'⟩ := ih (send chunk w).2
      refine ⟨?_, ?_⟩
      · rw [List.flatten_cons, List.length_append]
        dsimp only
        omega
      · dsimp only
        rw [hacc', hacc, hall, List.flatten_cons, List.take_length, List.take_length_add_append,
          List.append_assoc]

theorem sent_appendLogsChunk (posts : ℕ → Post)
    {again : List Line → Wire Line → ℕ × Wire Line}
    (ha : ∀ logLines w, Sent logLines w (again logLines w)) (chunk : List Line) (w : Wire Line) :
    Sent chunk w (appendLogsChunk posts again chunk w) := by
  unfold appendLogsChunk
  split
  · exact ⟨le_rfl, by rw [List.take_length]⟩
  · exact ⟨Nat.zero_le _, by simp⟩
  · split_ifs
    · exact ⟨Nat.zero_le _, by simp⟩
    · obtain ⟨hle, hacc⟩ := ha chunk { w with posted := w.posted + 1, maxSize := some _ }
      exact ⟨hle, hacc⟩

theorem sent_appendLogsFuel (posts : ℕ → Post) (fuel : ℕ) (logLines : List Line) (w : Wire Line) :
    Sent logLines w (appendLogsFuel dumps posts fuel logLines w) := by
  induction fuel generalizing logLines w with
  | zero => exact ⟨Nat.zero_le _, by simp [appendLogsFuel]⟩
  | succ fuel ih =>
    have h := sent_sendChunks (sent_appendLogsChunk posts ih)
      (splitLogs dumps logLines w.maxSize) w
    rwa [flatten_splitLogs] at h

/-- The server has stored the first lines, as many as `_append_logs` returns. -/
theorem sent_appendLogs (posts : ℕ → Post) (logLines : List Line) (w : Wire Line) :
    Sent logLines w (appendLogs dumps posts logLines w) :=
  sent_appendLogsFuel dumps posts _ logLines w

end Sent

/-! ## Resending comes to an end -/

section Resend

variable {dumps : Line → ℕ} {posts : ℕ → Post}

/-- A maximum size was received, and it is at most `m`. -/
def Bounded (m : ℕ) (w : Wire Line) : Prop := ∃ m' : ℕ+, w.maxSize = some m' ∧ (m' : ℕ) ≤ m

/-- Sending does not depend on how lines are sent where it does not get. -/
theorem sendChunks_congr {P : Wire Line → Prop} {send send' : List Line → Wire Line → ℕ × Wire Line}
    (hP : ∀ chunk w, P w → P (send chunk w).2)
    (heq : ∀ chunk w, P w → send chunk w = send' chunk w) (chunks : List (List Line)) {w : Wire Line}
    (hw : P w) : sendChunks send chunks w = sendChunks send' chunks w := by
  induction chunks generalizing w with
  | nil => rfl
  | cons chunk chunks ih =>
    rw [sendChunks, sendChunks, ← heq chunk w hw]
    dsimp only
    rw [ih (hP chunk w hw)]

theorem sendChunks_keeps {P : Wire Line → Prop} {send : List Line → Wire Line → ℕ × Wire Line}
    (hP : ∀ chunk w, P w → P (send chunk w).2) (chunks : List (List Line)) {w : Wire Line}
    (hw : P w) : P (sendChunks send chunks w).2 := by
  induction chunks generalizing w with
  | nil => exact hw
  | cons chunk chunks ih =>
    rw [sendChunks]
    split_ifs
    · exact hP chunk w hw
    · exact ih (hP chunk w hw)

/-- A 413 answer is followed by another request only if it makes the maximum size smaller. -/
theorem bounded_appendLogsChunk {m : ℕ} {again : List Line → Wire Line → ℕ × Wire Line}
    (ha : ∀ logLines w, Bounded m w → Bounded m (again logLines w).2) (chunk : List Line)
    {w : Wire Line} (hw : Bounded m w) : Bounded m (appendLogsChunk posts again chunk w).2 := by
  obtain ⟨m', hm', hle⟩ := hw
  unfold appendLogsChunk
  split
  · exact ⟨m', hm', hle⟩
  · exact ⟨m', hm', hle⟩
  · next k _ =>
    by_cases hk : m' ≤ k
    · rw [if_pos (by simp [hm', hk])]
      exact ⟨m', hm', hle⟩
    · rw [if_neg (by simp [hm', hk])]
      have hlt : (k : ℕ) < m' := not_le.mp hk
      exact ha _ _ ⟨k, rfl, by omega⟩

theorem bounded_appendLogsFuel {m : ℕ} (fuel : ℕ) (logLines : List Line) {w : Wire Line}
    (hw : Bounded m w) : Bounded m (appendLogsFuel dumps posts fuel logLines w).2 := by
  induction fuel generalizing logLines w with
  | zero => exact hw
  | succ fuel ih =>
    exact sendChunks_keeps
      (fun chunk w hw => bounded_appendLogsChunk (fun ls w hw => ih ls hw) chunk hw) _ hw

/-- Two ways of sending again that agree below the maximum size are used alike. -/
theorem appendLogsChunk_congr {m : ℕ} {again again' : List Line → Wire Line → ℕ × Wire Line}
    (h : ∀ logLines (w : Wire Line) (k : ℕ+), (k : ℕ) < m → w.maxSize = some k →
      again logLines w = again' logLines w) (chunk : List Line) {w : Wire Line} (hw : Bounded m w) :
    appendLogsChunk posts again chunk w = appendLogsChunk posts again' chunk w := by
  obtain ⟨m', hm', hle⟩ := hw
  unfold appendLogsChunk
  split
  · rfl
  · rfl
  · next k _ =>
    by_cases hk : m' ≤ k
    · rw [if_pos (by simp [hm', hk]), if_pos (by simp [hm', hk])]
    · rw [if_neg (by simp [hm', hk]), if_neg (by simp [hm', hk])]
      have hlt : (k : ℕ) < m' := not_le.mp hk
      exact h _ _ k (by omega) rfl

/-- More fuel than the maximum size changes nothing. -/
theorem appendLogsFuel_stable {fuel : ℕ} (logLines : List Line) {w : Wire Line} {m : ℕ+}
    (hm : w.maxSize = some m) (hle : (m : ℕ) ≤ fuel) :
    appendLogsFuel dumps posts (fuel + 1) logLines w =
      appendLogsFuel dumps posts fuel logLines w := by
  induction fuel generalizing logLines w m with
  | zero => exact absurd m.pos (by omega)
  | succ fuel ih =>
    refine sendChunks_congr (P := Bounded m) ?_ ?_ _ ⟨m, hm, le_rfl⟩
    · intro chunk w hw
      exact bounded_appendLogsChunk (fun ls w hw => bounded_appendLogsFuel _ ls hw) chunk hw
    · intro chunk w hw
      refine appendLogsChunk_congr (fun ls w k hk hwk => ?_) chunk hw
      exact ih ls hwk (by omega)

theorem appendLogsFuel_eq {fuel : ℕ} (logLines : List Line) {w : Wire Line} {m : ℕ+}
    (hm : w.maxSize = some m) (hle : (m : ℕ) ≤ fuel) :
    appendLogsFuel dumps posts fuel logLines w = appendLogs dumps posts logLines w := by
  have hres : resends posts w = m := by
    unfold resends
    rw [hm]
  rw [appendLogs, hres]
  induction fuel, hle using Nat.le_induction with
  | base => rfl
  | succ fuel hle ih => rw [appendLogsFuel_stable logLines hm hle, ih]

/-- **The recursion of the source.** `_append_logs` sends its chunks, and resends a chunk by calling
itself; the number of requests is finite because the maximum size gets smaller. -/
theorem appendLogs_eq (logLines : List Line) (w : Wire Line) :
    appendLogs dumps posts logLines w =
      sendChunks (appendLogsChunk posts (appendLogs dumps posts))
        (splitLogs dumps logLines w.maxSize) w := by
  cases hm : w.maxSize with
  | some m =>
    rw [← appendLogsFuel_eq logLines hm le_rfl]
    obtain ⟨n, hn⟩ : ∃ n, (m : ℕ) = n + 1 := ⟨m - 1, by have := m.pos; omega⟩
    rw [hn, appendLogsFuel, hm]
    refine sendChunks_congr (P := Bounded m) ?_ ?_ _ ⟨m, hm, le_rfl⟩
    · intro chunk w hw
      exact bounded_appendLogsChunk (fun ls w hw => bounded_appendLogsFuel _ ls hw) chunk hw
    · intro chunk w hw
      refine appendLogsChunk_congr (fun ls w k hk hwk => ?_) chunk hw
      exact appendLogsFuel_eq ls hwk (by omega)
  | none =>
    -- a single chunk, which is sent again if the first answer is 413
    obtain ⟨n, hn, hchunk⟩ : ∃ n, resends posts w = n + 1 ∧
        appendLogsChunk posts (appendLogsFuel dumps posts n) logLines w =
          appendLogsChunk posts (appendLogs dumps posts) logLines w := by
      unfold resends appendLogsChunk
      rw [hm]
      cases posts w.posted with
      | ok => exact ⟨0, rfl, rfl⟩
      | error => exact ⟨0, rfl, rfl⟩
      | tooLarge k => exact ⟨k, rfl, appendLogsFuel_eq logLines rfl le_rfl⟩
    rw [appendLogs, hn, appendLogsFuel, hm]
    show sendChunks _ [logLines] w = sendChunks _ [logLines] w
    rw [sendChunks, sendChunks, hchunk]
    rfl

end Resend

/-! ## The handler -/

/-- A buildlogger handler; `incomplete` is `_INCOMPLETE_LOG_OUTPUT`, which all handlers share. -/
structure Handler (Line : Type*) where
  emitBuffer : List Line
  retryBuffer : List Line
  wire : Wire Line
  incomplete : Bool
  deriving DecidableEq, Repr

section Handler

variable (dumps : Line → ℕ) (posts : ℕ → Post)

/-- `_flush_buffer_with_lock`. -/
def flushBufferWithLock (h : Handler Line) (buf : List Line) (closeCalled : Bool) : Handler Line :=
  let retryBuffer := h.retryBuffer ++ buf
  let r := appendLogs dumps posts retryBuffer h.wire
  let retryBuffer := retryBuffer.drop r.1
  if closeCalled = true ∧ retryBuffer ≠ [] then
    { h with wire := r.2, retryBuffer := [], incomplete := true }
  else { h with wire := r.2, retryBuffer := retryBuffer }

/-- The second half of `__flush`, on the buffer that the first half took. -/
def sendBuffer (h : Handler Line) (buf : List Line) (closeCalled : Bool) : Handler Line :=
  if buf ≠ [] then flushBufferWithLock dumps posts h buf closeCalled else h

/-- `close`, when no flush is under way and no line is emitted meanwhile. -/
def close (h : Handler Line) : Handler Line :=
  sendBuffer dumps posts { h with emitBuffer := [] } h.emitBuffer true

/-- A handler, the buffer that a flush took, and the lines emitted so far. -/
structure State (Line : Type*) where
  handler : Handler Line
  taken : Option (List Line)
  emitted : List Line
  deriving DecidableEq, Repr

inductive Label (Line : Type*)
  | emit (line : Line)
  /-- The first half of `__flush`. -/
  | take
  /-- The second half of `__flush`. -/
  | send

/-- Flushes are serialised, but lines are emitted at any time. -/
def step (s : State Line) : Label Line → Option (State Line)
  | .emit line => some { s with
      handler := { s.handler with emitBuffer := s.handler.emitBuffer ++ [line] }
      emitted := s.emitted ++ [line] }
  | .take =>
    if s.taken.isSome then none
    else some { s with
      handler := { s.handler with emitBuffer := [] }, taken := some s.handler.emitBuffer }
  | .send => s.taken.map fun buf =>
      { s with handler := sendBuffer dumps posts s.handler buf false, taken := none }

/-- A new handler; another one may have been closed before. -/
def Initial (s : State Line) : Prop :=
  ∃ incomplete, s = ⟨⟨[], [], ⟨none, 0, []⟩, incomplete⟩, none, []⟩

end Handler

/-! ## Conservation -/

section Conservation

variable {dumps : Line → ℕ} {posts : ℕ → Post}

/-- The lines that the server has stored, followed by those to be sent again. -/
def Handler.out (h : Handler Line) : List Line := h.wire.accepted ++ h.retryBuffer

/-- Sending moves lines from the buffer and the retry buffer to the server, in order. -/
theorem out_sendBuffer (h : Handler Line) (buf : List Line) :
    (sendBuffer dumps posts h buf false).out = h.out ++ buf := by
  unfold sendBuffer Handler.out
  split_ifs with hb
  · obtain ⟨-, hacc⟩ := sent_appendLogs dumps posts (h.retryBuffer ++ buf) h.wire
    rw [flushBufferWithLock, if_neg (by simp)]
    dsimp only
    rw [hacc, List.append_assoc, List.take_append_drop, List.append_assoc]
  · rw [not_not.mp hb, List.append_nil]

@[simp] theorem emitBuffer_sendBuffer (h : Handler Line) (buf : List Line) (b : Bool) :
    (sendBuffer dumps posts h buf b).emitBuffer = h.emitBuffer := by
  unfold sendBuffer flushBufferWithLock
  dsimp only
  split_ifs <;> rfl

/-- Every emitted line is in one place, and in order. -/
def Conserved (s : State Line) : Prop :=
  s.handler.out ++ s.taken.getD [] ++ s.handler.emitBuffer = s.emitted

theorem conserved_step {s s' : State Line} {a : Label Line} (h : Conserved s)
    (hs : step dumps posts s a = some s') : Conserved s' := by
  unfold Conserved at h ⊢
  cases a with
  | emit line =>
    cases hs
    rw [← h]
    exact (List.append_assoc _ _ _).symm
  | take =>
    rw [step] at hs
    split_ifs at hs with ht
    cases hs
    have hnone : s.taken = none := by simpa using ht
    rw [hnone] at h
    simpa [Handler.out] using h
  | send =>
    obtain ⟨buf, hbuf, rfl⟩ := Option.map_eq_some_iff.mp hs
    rw [hbuf] at h
    dsimp only
    rw [out_sendBuffer, emitBuffer_sendBuffer]
    simpa using h

theorem conserved_reach {s : State Line} (h : Reach (step dumps posts) Free Initial s) :
    Conserved s :=
  Reach.inv (fun s ⟨b, hs⟩ => by subst hs; rfl) (fun _ _ _ hi _ hs => conserved_step hi hs) h

/-- **No line is lost, repeated or moved.** For all sizes of lines and all answers to the POST
requests, the lines that the server has stored, the retry buffer, the buffer that a flush is
sending and the emit buffer are the emitted lines in order, after any number of lines and flushes;
in particular between the flushes. -/
theorem log_stream_conserved {s : State Line} (h : Reach (step dumps posts) Free Initial s) :
    s.handler.wire.accepted ++ s.handler.retryBuffer ++ s.taken.getD [] ++ s.handler.emitBuffer =
        s.emitted ∧
      (s.taken = none →
        s.handler.wire.accepted ++ s.handler.retryBuffer ++ s.handler.emitBuffer = s.emitted) := by
  have hc := conserved_reach h
  refine ⟨hc, fun ht => ?_⟩
  rw [Conserved, ht] at hc
  simpa [Handler.out] using hc

end Conservation

/-- A server that first asks for smaller requests, then fails once, and then accepts. -/
def flaky (n : ℕ) : Post := if n = 0 then .tooLarge 14 else if n = 2 then .error else .ok

/-- Two of three lines are sent, a line is emitted meanwhile, and the rest waits to be sent again. -/
theorem log_stream_flaky :
    ∃ s : State ℕ, s.handler = ⟨[4], [3], ⟨some 14, 3, [1, 2]⟩, false⟩ ∧
      s.handler.wire.accepted ++ s.handler.retryBuffer ++ s.handler.emitBuffer = s.emitted := by
  have hrun : ∃ s : State ℕ, Reach (step (fun _ => 5) flaky) Free Initial s ∧
      s.handler = ⟨[4], [3], ⟨some 14, 3, [1, 2]⟩, false⟩ ∧ s.taken = none :=
    Reach.exists_of_run (.start ⟨false, rfl⟩)
      [.emit 1, .emit 2, .emit 3, .take, .emit 4, .send] (by decide)
  obtain ⟨s, hs, hh, ht⟩ := hrun
  exact ⟨s, hh, (log_stream_conserved hs).2 ht⟩

/-! ## Closing -/

section Close

variable {dumps : Line → ℕ} {posts : ℕ → Post}

/-- After `close`: the log output is marked as incomplete, or the server has all the lines. -/
def Complete (dumps : Line → ℕ) (posts : ℕ → Post) (s : State Line) : Prop :=
  (close dumps posts s.handler).incomplete = true ∨
    (close dumps posts s.handler).wire.accepted = s.emitted

/-- **When closing is complete.** After any number of lines and flushes, closing the handler leaves
the log output marked as incomplete or all lines on the server, in order and once, if and only if
the emit buffer is not empty, or the retry buffer is, or the output was marked before. -/
theorem close_complete_iff {s : State Line} (h : Reach (step dumps posts) Free Initial s)
    (ht : s.taken = none) :
    Complete dumps posts s ↔ s.handler.incomplete = true ∨ s.handler.emitBuffer ≠ [] ∨
      s.handler.retryBuffer = [] := by
  have hc := conserved_reach h
  rw [Conserved, ht, Option.getD_none, List.append_nil, Handler.out] at hc
  unfold Complete close sendBuffer
  by_cases hb : s.handler.emitBuffer = []
  · -- nothing is sent, and the retry buffer stays where it is
    rw [hb, List.append_nil] at hc
    rw [hb, if_neg (by simp), ← hc]
    simp
  · rw [if_pos hb]
    simp only [hb, ne_eq, not_false_eq_true, true_or, or_true, iff_true]
    obtain ⟨-, hacc⟩ := sent_appendLogs dumps posts
      (s.handler.retryBuffer ++ s.handler.emitBuffer) s.handler.wire
    unfold flushBufferWithLock
    dsimp only
    split_ifs with hleft
    · exact .inl rfl
    · have hall : (s.handler.retryBuffer ++ s.handler.emitBuffer).drop (appendLogs dumps posts
          (s.handler.retryBuffer ++ s.handler.emitBuffer) s.handler.wire).1 = [] := by
        simpa using hleft
      refine .inr ?_
      rw [hacc, List.take_of_length_le (List.drop_eq_nil_iff.mp hall), ← List.append_assoc, hc]

end Close

/-- Closing with a line in the emit buffer sends the retry buffer too. -/
theorem close_complete_flaky :
    ∃ s : State ℕ, s.handler = ⟨[4], [3], ⟨some 14, 3, [1, 2]⟩, false⟩ ∧
      Complete (fun _ => 5) flaky s := by
  have hrun : ∃ s : State ℕ, Reach (step (fun _ => 5) flaky) Free Initial s ∧
      s.handler = ⟨[4], [3], ⟨some 14, 3, [1, 2]⟩, false⟩ ∧ s.taken = none :=
    Reach.exists_of_run (.start ⟨false, rfl⟩)
      [.emit 1, .emit 2, .emit 3, .take, .emit 4, .send] (by decide)
  obtain ⟨s, hs, hh, ht⟩ := hrun
  exact ⟨s, hh, (close_complete_iff hs ht).mpr (by simp [hh])⟩

/-- **A line is lost silently.** The only request fails, nothing is emitted after it, and closing
does not look at the retry buffer. -/
theorem close_loses_retry_buffer :
    ∃ s : State ℕ, Reach (step (fun _ => 5) fun _ => .error) Free Initial s ∧ s.taken = none ∧
      s.emitted = [1] ∧ (close (fun _ => 5) (fun _ => .error) s.handler).wire.accepted = [] ∧
      (close (fun _ => 5) (fun _ => .error) s.handler).incomplete = false ∧
      ¬ Complete (fun _ => 5) (fun _ => .error) s := by
  have hrun : ∃ s : State ℕ, Reach (step (fun _ => 5) fun _ => .error) Free Initial s ∧
      s.taken = none ∧ s.emitted = [1] ∧
      (close (fun _ => 5) (fun _ => .error) s.handler).wire.accepted = [] ∧
      (close (fun _ => 5) (fun _ => .error) s.handler).incomplete = false :=
    Reach.exists_of_run (.start ⟨false, rfl⟩) [.emit 1, .take, .send] (by decide)
  obtain ⟨s, hs, ht, he, ha, hi⟩ := hrun
  refine ⟨s, hs, ht, he, ha, hi, ?_⟩
  rintro (h | h)
  · simp [hi] at h
  · simp [ha, he] at h

end MongoTests.Logging
