import Mathlib.Order.WellFounded
import MongoTests.Lib.Program
import MongoTests.Logging.LogsSplitter

/-!
# Flushes that come to an end

`_append_logs`, `__append_logs_chunk` and `_flush_buffer_with_lock` of
`resmokelib/logging/buildlogger.py` once more, now for every answer of the server: a 413 response
may have any body, and whatever JSON has under `"max_size"` becomes the maximum size. What the code
does not catch ends the flush with an exception, and with it the flush thread of all handlers; the
recursion over the answers need not end.

* `MaxSize`: the values that `self.max_size` can have; `rejects`: the check of a new one.
* `appendLogs`: the two functions as one recursion over fuel. `follows_appendLogs`: on positive
  integers it is that of the stream of log lines.
* `Harmless`: what a server must not answer. `acc_of_harmless`: then the maximum size changes only
  finitely often; `stop_of_chain`: otherwise the recursion goes on.
* **`flush_completes_iff`**: whatever a server answers, the flush returns, if and only if its
  answers are harmless. `flush_incomplete`: two answers that are not.
-/

namespace MongoTests.Logging.Flush

open MongoTests.Lib MongoTests.Lib.Js

/-! ## Values and answers -/

/-- Python values other than numbers, as far as they can be read from JSON. -/
structure Values (V : Type) where
  none : V
  truthy : V → Bool
  /-- `v >= w`; it can raise a `TypeError`. -/
  ge : V → V → Option Bool
  truthy_none : truthy none = false

/-- A value of `self.max_size`; `True` and `False` are the numbers 1 and 0. -/
inductive MaxSize (V : Type)
  | number (x : Number)
  | other (v : V)
  deriving DecidableEq

/-- The body of a 413 response. -/
inductive Body (V : Type)
  | notJson
  /-- It is not an object, or has no `"max_size"`. -/
  | noMaxSize
  | maxSize (size : MaxSize V)
  deriving DecidableEq

/-- What comes back from a POST request. -/
inductive Response (V : Type)
  | ok
  | tooLarge (body : Body V)
  /-- Any other HTTP error, a network error, or another exception. -/
  | error
  deriving DecidableEq

inductive Raised
  | typeError
  | valueError
  deriving DecidableEq

variable {V Line : Type}

namespace MaxSize

variable (py : Values V)

def truthy : MaxSize V → Bool
  | .number x => decide (x ≠ .fin 0)
  | .other v => py.truthy v

/-- `new >= old`, where a number can only be compared with a number. -/
def ge : MaxSize V → MaxSize V → Option Bool
  | .number new, .number old => some (old.le new)
  | .other new, .other old => py.ge new old
  | _, _ => none

/-- `self.max_size and new_max_size >= self.max_size`. -/
def rejects (old new : MaxSize V) : Option Bool :=
  if old.truthy py then new.ge py old else some false

end MaxSize

/-! ## Sending -/

/-- A handler, and the number of its requests so far. -/
structure Handler (Line V : Type) where
  retryBuffer : List Line
  maxSize : MaxSize V
  posted : ℕ
  incomplete : Bool
  deriving DecidableEq

abbrev Run (Line V : Type) := Prog (Handler Line V) Raised

section Send

variable (py : Values V) (dumps : Line → ℕ) (posts : ℕ → Response V)

/-- `split_logs`; the loop compares the size of a line with the maximum size. -/
def splitLogs (logLines : List Line) : MaxSize V → Run Line V (List (List Line))
  | .number x => pure (LogsSplitter.splitLogs dumps logLines x)
  | .other v => if py.truthy v ∧ logLines ≠ [] then .throw .typeError else pure [logLines]

/-- `__append_logs_chunk`. What is raised in the `except` clause is not caught by the others. -/
def appendLogsChunk (appendLogs : List Line → Run Line V ℕ) (chunk : List Line) : Run Line V ℕ := do
  let h ← .get
  .modify fun h => { h with posted := h.posted + 1 }
  match posts h.posted with
  | .ok => pure chunk.length
  | .error => pure 0
  | .tooLarge .notJson => .throw .valueError
  | .tooLarge .noMaxSize => pure 0
  | .tooLarge (.maxSize new) =>
    match h.maxSize.rejects py new with
    | none => .throw .typeError
    | some true => pure 0
    | some false => do
      .modify fun h => { h with maxSize := new }
      appendLogs chunk

/-- The loop of `_append_logs` over the chunks. -/
def sendChunks (send : List Line → Run Line V ℕ) : List (List Line) → Run Line V ℕ
  | [] => pure 0
  | chunk :: chunks => do
    let sent ← send chunk
    -- not all lines have been sent
    if sent < chunk.length then pure sent
    else do
      let more ← sendChunks send chunks
      pure (sent + more)

/-- `_append_logs`, as far as the fuel goes. -/
def appendLogs : ℕ → List Line → Run Line V ℕ
  | 0, _ => .stop
  | fuel + 1, logLines => do
    let h ← .get
    let chunks ← splitLogs py dumps logLines h.maxSize
    sendChunks (appendLogsChunk py posts (appendLogs fuel)) chunks

/-- `_flush_buffer_with_lock`. -/
def flushBufferWithLock (buf : List Line) (closeCalled : Bool) (fuel : ℕ) : Run Line V Unit := do
  .modify fun h => { h with retryBuffer := h.retryBuffer ++ buf }
  let h ← .get
  let sent ← appendLogs py dumps posts fuel h.retryBuffer
  .modify fun h => { h with retryBuffer := h.retryBuffer.drop sent }
  .modify fun h =>
    if closeCalled = true ∧ h.retryBuffer ≠ [] then { h with retryBuffer := [], incomplete := true }
    else h

/-- The flush comes to an end and raises nothing. -/
def Completes (buf : List Line) (closeCalled : Bool) (h : Handler Line V) : Prop :=
  Prog.Converges (flushBufferWithLock py dumps posts buf closeCalled) (fun _ _ => True) h

end Send

/-! ## What a server must not answer -/

section Harmless

variable (py : Values V)

/-- The server can send this maximum size. -/
def Sends (S : Set (Response V)) (x : Number) : Prop := .tooLarge (.maxSize (.number x)) ∈ S

/-- A server with the answers `S` does no harm to a handler with the maximum size `m`. -/
structure Harmless (S : Set (Response V)) (m : MaxSize V) : Prop where
  json : .tooLarge .notJson ∉ S
  number : ∀ v, .tooLarge (.maxSize (.other v)) ∉ S
  not_nan : ¬ Sends S .nan
  /-- Zero is no maximum size for the handler; only a negative one keeps it out. -/
  not_zero : Sends S (.fin 0) → ∃ x, m = .number x ∧ Number.lt x (.fin 0) = true
  usable : ∀ v, m = .other v → py.truthy v = false
  not_descending : ¬ ∃ f : ℕ → Number, m.rejects py (.number (f 0)) = some false ∧
    ∀ n, Sends S (f n) ∧ Number.lt (f (n + 1)) (f n) = true

end Harmless

/-! ## Accepted maximum sizes -/

section Accepted

variable {py : Values V} {S : Set (Response V)} {m : MaxSize V}

/-- The handler compares a line with the maximum size without a `TypeError`. -/
def Usable (py : Values V) (m : MaxSize V) : Prop := ∀ v, m = .other v → py.truthy v = false

theorem usable_number (x : Number) : Usable py (.number x : MaxSize V) := fun _ h => nomatch h

theorem rejects_of_falsy (h : m.truthy py = false) (new : MaxSize V) :
    m.rejects py new = some false := by
  rw [MaxSize.rejects, h]
  rfl

/-- A number is accepted after a number that is zero or `NaN`, or if it is smaller. -/
theorem rejects_number_eq_false_iff {x y : Number} :
    (MaxSize.number x : MaxSize V).rejects py (.number y) = some false ↔
      x = .fin 0 ∨ x = .nan ∨ y = .nan ∨ Number.lt y x = true := by
  by_cases hx : x = .fin 0
  · simp [MaxSize.rejects, MaxSize.truthy, hx]
  · rw [MaxSize.rejects, if_pos (by simpa [MaxSize.truthy] using hx), MaxSize.ge, Option.some_inj,
      Number.le_eq_false_iff]
    simp [hx]

theorem usable_of_falsy (h : m.truthy py = false) : Usable py m := by
  rintro v rfl
  exact h

theorem falsy_of_usable_other {v : V} (h : Usable py (.other v)) :
    (MaxSize.other v).truthy py = false := h v rfl

/-- A number that is a maximum size cannot be compared with anything but a number. -/
theorem rejects_other (hu : Usable py m) (hm : m.truthy py = true) (v : V) :
    m.rejects py (.other v) = none := by
  cases m with
  | number x =>
    rw [MaxSize.rejects, if_pos hm]
    rfl
  | other w => exact absurd hm (by simp [falsy_of_usable_other hu])

theorem rejects_nan (hu : Usable py m) : m.rejects py (.number .nan) = some false := by
  cases m with
  | number x => exact rejects_number_eq_false_iff.mpr (.inr (.inr (.inl rfl)))
  | other v => exact rejects_of_falsy (falsy_of_usable_other hu) _

theorem rejects_zero (hu : Usable py m)
    (hneg : ¬ ∃ x, m = .number x ∧ Number.lt x (.fin 0) = true) :
    m.rejects py (.number (.fin 0)) = some false := by
  cases m with
  | number x =>
    refine rejects_number_eq_false_iff.mpr ?_
    by_cases hx : x = .fin 0
    · exact .inl hx
    · have hlt : ¬ Number.lt x (.fin 0) = true := fun h => hneg ⟨x, rfl, h⟩
      exact .inr (Number.le_eq_false_iff.mp (by simp [Number.le, hx, hlt]))
  | other v => exact rejects_of_falsy (falsy_of_usable_other hu) _

/-- The next maximum size: one that the server can send and that the handler accepts. -/
def Next (py : Values V) (S : Set (Response V)) (new old : MaxSize V) : Prop :=
  .tooLarge (.maxSize new) ∈ S ∧ old.rejects py new = some false

/-- After a negative maximum size all are negative. -/
theorem neg_of_rejects {x y : Number} (hx : Number.lt x (.fin 0) = true) (hy : y ≠ .nan)
    (h : (MaxSize.number x : MaxSize V).rejects py (.number y) = some false) :
    Number.lt y (.fin 0) = true := by
  rcases rejects_number_eq_false_iff.mp h with rfl | rfl | h | h
  · exact absurd hx (by decide +kernel)
  · exact absurd hx (by simp)
  · exact absurd h hy
  · exact Number.lt_trans h hx

/-- The maximum size changes only finitely often. -/
theorem acc_of_harmless (h : Harmless py S m) : Acc (Next py S) m := by
  by_contra hacc
  obtain ⟨g, hg0, hg⟩ := not_acc_iff_exists_descending_chain.mp hacc
  -- the sizes that are accepted are numbers
  have hnum : ∀ n, ∃ x, g (n + 1) = .number x := by
    intro n
    cases hn : g (n + 1) with
    | number x => exact ⟨x, rfl⟩
    | other v => exact absurd (hn ▸ (hg n).1) (h.number v)
  choose f hf using hnum
  have hsends : ∀ n, Sends S (f n) := fun n => by
    have := (hg n).1
    rwa [hf n] at this
  have hnan : ∀ n, f n ≠ .nan := fun n hn => h.not_nan (hn ▸ hsends n)
  have hfirst : m.rejects py (.number (f 0)) = some false := by
    have := (hg 0).2
    rwa [hf 0, hg0] at this
  have hnext : ∀ n, (MaxSize.number (f n) : MaxSize V).rejects py (.number (f (n + 1))) =
      some false := fun n => by
    have := (hg (n + 1)).2
    rwa [hf (n + 1), hf n] at this
  have hzero : ∀ n, f n ≠ .fin 0 := by
    intro n hn
    obtain ⟨x, rfl, hx⟩ := h.not_zero (hn ▸ hsends n)
    have hneg : ∀ k, Number.lt (f k) (.fin 0) = true := by
      intro k
      induction k with
      | zero => exact neg_of_rejects hx (hnan 0) hfirst
      | succ k ih => exact neg_of_rejects ih (hnan (k + 1)) (hnext k)
    exact absurd (hn ▸ hneg n) (by decide +kernel)
  refine h.not_descending ⟨f, hfirst, fun n => ⟨hsends n, ?_⟩⟩
  rcases rejects_number_eq_false_iff.mp (hnext n) with h0 | h0 | h0 | hlt
  · exact absurd h0 (hzero n)
  · exact absurd h0 (hnan n)
  · exact absurd h0 (hnan (n + 1))
  · exact hlt

end Accepted

/-! ## One request -/

section Request

variable {py : Values V} {dumps : Line → ℕ} {posts : ℕ → Response V}
  {again : List Line → Run Line V ℕ} {chunk logLines : List Line} {h : Handler Line V}

theorem appendLogsChunk_ok (hp : posts h.posted = .ok) :
    appendLogsChunk py posts again chunk h =
      (.ok chunk.length, { h with posted := h.posted + 1 }) := by
  unfold appendLogsChunk
  rw [Prog.get_bind_apply, Prog.modify_bind_apply, hp]
  rfl

theorem appendLogsChunk_error (hp : posts h.posted = .error) :
    appendLogsChunk py posts again chunk h = (.ok 0, { h with posted := h.posted + 1 }) := by
  unfold appendLogsChunk
  rw [Prog.get_bind_apply, Prog.modify_bind_apply, hp]
  rfl

theorem appendLogsChunk_notJson (hp : posts h.posted = .tooLarge .notJson) :
    appendLogsChunk py posts again chunk h =
      (.error .valueError, { h with posted := h.posted + 1 }) := by
  unfold appendLogsChunk
  rw [Prog.get_bind_apply, Prog.modify_bind_apply, hp]
  rfl

theorem appendLogsChunk_noMaxSize (hp : posts h.posted = .tooLarge .noMaxSize) :
    appendLogsChunk py posts again chunk h = (.ok 0, { h with posted := h.posted + 1 }) := by
  unfold appendLogsChunk
  rw [Prog.get_bind_apply, Prog.modify_bind_apply, hp]
  rfl

theorem appendLogsChunk_incomparable {new : MaxSize V}
    (hp : posts h.posted = .tooLarge (.maxSize new)) (hr : h.maxSize.rejects py new = none) :
    appendLogsChunk py posts again chunk h =
      (.error .typeError, { h with posted := h.posted + 1 }) := by
  unfold appendLogsChunk
  rw [Prog.get_bind_apply, Prog.modify_bind_apply, hp]
  simp only [hr]
  rfl

theorem appendLogsChunk_rejected {new : MaxSize V}
    (hp : posts h.posted = .tooLarge (.maxSize new)) (hr : h.maxSize.rejects py new = some true) :
    appendLogsChunk py posts again chunk h = (.ok 0, { h with posted := h.posted + 1 }) := by
  unfold appendLogsChunk
  rw [Prog.get_bind_apply, Prog.modify_bind_apply, hp]
  simp only [hr]
  rfl

/-- The chunk is sent again with the new maximum size. -/
theorem appendLogsChunk_accepted {new : MaxSize V}
    (hp : posts h.posted = .tooLarge (.maxSize new)) (hr : h.maxSize.rejects py new = some false) :
    appendLogsChunk py posts again chunk h =
      again chunk { h with posted := h.posted + 1, maxSize := new } := by
  unfold appendLogsChunk
  rw [Prog.get_bind_apply, Prog.modify_bind_apply, hp]
  simp only [hr]
  rfl

/-- There is always a first chunk. -/
theorem exists_splitLogs (dumps : Line → ℕ) (logLines : List Line) {m : MaxSize V}
    (hu : Usable py m) : ∃ chunk chunks, ∀ h : Handler Line V,
      splitLogs py dumps logLines m h = (.ok (chunk :: chunks), h) := by
  cases m with
  | number x =>
    obtain ⟨chunk, chunks, hc⟩ := List.exists_cons_of_ne_nil
      (show LogsSplitter.splitLogs dumps logLines x ≠ [] by
        unfold LogsSplitter.splitLogs
        split_ifs <;> simp)
    refine ⟨chunk, chunks, fun h => ?_⟩
    rw [splitLogs, hc]
    rfl
  | other v =>
    refine ⟨logLines, [], fun h => ?_⟩
    rw [splitLogs, if_neg (by simp [hu v rfl])]
    rfl

theorem splitLogs_of_falsy {m : MaxSize V} (hm : m.truthy py = false) :
    splitLogs py dumps logLines m h = (.ok [logLines], h) := by
  cases m with
  | number x =>
    have hx : x = .fin 0 := by simpa [MaxSize.truthy] using hm
    rw [splitLogs, LogsSplitter.splitLogs, if_pos hx]
    rfl
  | other v =>
    rw [splitLogs, if_neg (by simp [show py.truthy v = false from hm])]
    rfl

end Request

/-! ## Positive integers

Where every maximum size is a positive integer, this is the recursion of the stream of log lines. -/

section Positive

variable {py : Values V} {dumps : Line → ℕ} {posts : ℕ → Post} {h : Handler Line V}

def ofPost : Post → Response V
  | .ok => .ok
  | .tooLarge maxSize => .tooLarge (.maxSize (.number (.fin (maxSize : ℕ))))
  | .error => .error

def ofMaxSize (py : Values V) : Option ℕ+ → MaxSize V
  | none => .other py.none
  | some maxSize => .number (.fin (maxSize : ℕ))

/-- The handler that has got as far as the wire. -/
def onWire (py : Values V) (h : Handler Line V) (w : Wire Line) : Handler Line V :=
  { h with maxSize := ofMaxSize py w.maxSize, posted := w.posted }

/-- The program does on the handler what the function does on the wire. -/
def Follows (py : Values V) (h : Handler Line V) (p : Run Line V ℕ)
    (f : Wire Line → ℕ × Wire Line) (w : Wire Line) : Prop :=
  p (onWire py h w) = (.ok (f w).1, onWire py h (f w).2)

theorem rejects_ofMaxSize (maxSize : Option ℕ+) (k : ℕ+) :
    (ofMaxSize py maxSize).rejects py (.number (.fin (k : ℕ))) =
      some (maxSize.any fun m => decide (m ≤ k)) := by
  cases maxSize with
  | none => exact rejects_of_falsy (m := .other py.none) py.truthy_none _
  | some m =>
    rw [ofMaxSize, MaxSize.rejects, if_pos (by simp [MaxSize.truthy]), MaxSize.ge, Option.any_some,
      Option.some_inj, Bool.eq_iff_iff, decide_eq_true_iff, ← PNat.coe_le_coe, le_iff_lt_or_eq]
    simp [Number.le, Number.lt]

theorem splitLogs_ofMaxSize (logLines : List Line) (maxSize : Option ℕ+) (h : Handler Line V) :
    splitLogs py dumps logLines (ofMaxSize py maxSize) h =
      (.ok (Logging.splitLogs dumps logLines maxSize), h) := by
  cases maxSize with
  | none => exact splitLogs_of_falsy (m := .other py.none) py.truthy_none
  | some m =>
    rw [ofMaxSize, splitLogs, LogsSplitter.splitLogs_fin]
    rfl

theorem follows_sendChunks {P : Wire Line → Prop} {send : List Line → Run Line V ℕ}
    {send' : List Line → Wire Line → ℕ × Wire Line}
    (hs : ∀ chunk w, P w → Follows py h (send chunk) (send' chunk) w)
    (hP : ∀ chunk w, P w → P (send' chunk w).2) (chunks : List (List Line)) {w : Wire Line}
    (hw : P w) : Follows py h (sendChunks send chunks) (Logging.sendChunks send' chunks) w := by
  induction chunks generalizing w with
  | nil => rfl
  | cons chunk chunks ih =>
    have hih := ih (hP chunk w hw)
    unfold Follows at hih ⊢
    rw [sendChunks, Logging.sendChunks, Prog.bind_eq_of_ok (hs chunk w hw)]
    dsimp only
    split_ifs
    · rfl
    · rw [Prog.bind_eq_of_ok hih]
      rfl

theorem follows_appendLogsChunk {again : List Line → Run Line V ℕ}
    {again' : List Line → Wire Line → ℕ × Wire Line} (chunk : List Line) {w : Wire Line}
    (ha : ∀ k w', posts w.posted = .tooLarge k → (∀ m, w.maxSize = some m → k < m) →
      w'.maxSize = some k → Follows py h (again chunk) (again' chunk) w') :
    Follows py h (appendLogsChunk py (fun n => ofPost (posts n)) again chunk)
      (Logging.appendLogsChunk posts again' chunk) w := by
  unfold Follows Logging.appendLogsChunk
  cases hp : posts w.posted with
  | ok => exact appendLogsChunk_ok (congrArg ofPost hp)
  | error => exact appendLogsChunk_error (congrArg ofPost hp)
  | tooLarge k =>
    have hp' : (ofPost (posts w.posted) : Response V) =
        .tooLarge (.maxSize (.number (.fin (k : ℕ)))) := congrArg ofPost hp
    have hr : (ofMaxSize py w.maxSize).rejects py _ = _ := rejects_ofMaxSize w.maxSize k
    dsimp only
    by_cases hk : w.maxSize.any (fun m => decide (m ≤ k)) = true
    · rw [if_pos hk]
      exact appendLogsChunk_rejected hp' (hk ▸ hr)
    · rw [if_neg hk]
      refine (appendLogsChunk_accepted hp' (Bool.eq_false_iff.mpr hk ▸ hr)).trans ?_
      refine ha k { w with posted := w.posted + 1, maxSize := some k } hp (fun m hm => ?_) rfl
      simpa [hm] using hk

theorem follows_appendLogs_succ {fuel : ℕ} (logLines : List Line) {w : Wire Line}
    (hloop : Follows py h
      (sendChunks (appendLogsChunk py (fun n => ofPost (posts n))
        (appendLogs py dumps (fun n => ofPost (posts n)) fuel))
        (Logging.splitLogs dumps logLines w.maxSize))
      (Logging.sendChunks (Logging.appendLogsChunk posts (Logging.appendLogs dumps posts))
        (Logging.splitLogs dumps logLines w.maxSize)) w) :
    Follows py h (appendLogs py dumps (fun n => ofPost (posts n)) (fuel + 1) logLines)
      (Logging.appendLogs dumps posts logLines) w := by
  unfold Follows at hloop ⊢
  rw [appendLogs_eq, ← hloop, appendLogs, Prog.get_bind_apply]
  exact Prog.bind_eq_of_ok (splitLogs_ofMaxSize logLines w.maxSize _)

theorem follows_appendLogs_some {fuel : ℕ} (logLines : List Line) {w : Wire Line} {m : ℕ+}
    (hm : w.maxSize = some m) (hle : (m : ℕ) ≤ fuel) :
    Follows py h (appendLogs py dumps (fun n => ofPost (posts n)) fuel logLines)
      (Logging.appendLogs dumps posts logLines) w := by
  induction fuel generalizing logLines w m with
  | zero => exact absurd m.pos (by omega)
  | succ fuel ih =>
    refine follows_appendLogs_succ logLines
      (follows_sendChunks (P := Bounded m) ?_ ?_ _ ⟨m, hm, le_rfl⟩)
    · rintro chunk w' ⟨m', hm', hle'⟩
      refine follows_appendLogsChunk chunk fun k w'' _ hk hw'' => ih chunk hw'' ?_
      have hlt : (k : ℕ) < m' := hk m' hm'
      omega
    · intro chunk w' hw'
      exact bounded_appendLogsChunk (fun ls w hw => bounded_appendLogsFuel _ ls hw) chunk hw'

/-- With enough fuel, the recursion is the one that the stream of log lines is about. -/
theorem follows_appendLogs {fuel : ℕ} (logLines : List Line) {w : Wire Line}
    (hle : resends posts w ≤ fuel) :
    Follows py h (appendLogs py dumps (fun n => ofPost (posts n)) fuel logLines)
      (Logging.appendLogs dumps posts logLines) w := by
  cases hm : w.maxSize with
  | some m =>
    refine follows_appendLogs_some logLines hm ?_
    simpa [resends, hm] using hle
  | none =>
    have hpos : 0 < resends posts w := by
      unfold resends
      rw [hm]
      cases posts w.posted <;> simp
    obtain ⟨n, rfl⟩ : ∃ n, fuel = n + 1 := ⟨fuel - 1, by omega⟩
    have hchunk : Follows py h (appendLogsChunk py (fun n => ofPost (posts n))
        (appendLogs py dumps (fun n => ofPost (posts n)) n) logLines)
        (Logging.appendLogsChunk posts (Logging.appendLogs dumps posts) logLines) w := by
      refine follows_appendLogsChunk logLines fun k w' hk _ hw' => ?_
      refine follows_appendLogs_some logLines hw' ?_
      have : resends posts w = k + 1 := by simp [resends, hm, hk]
      omega
    -- all lines are one chunk
    refine follows_appendLogs_succ logLines ?_
    rw [hm]
    show Follows py h (sendChunks _ [logLines]) (Logging.sendChunks _ [logLines]) w
    unfold Follows at hchunk ⊢
    rw [sendChunks, Logging.sendChunks, Prog.bind_eq_of_ok hchunk]
    dsimp only
    split_ifs <;> rfl

end Positive

/-! ## Harmless answers -/

section Return

variable {py : Values V} {dumps : Line → ℕ} {posts : ℕ → Response V} {S : Set (Response V)}

/-- The maximum size `m'` is `m` or can come after it. -/
def Later (py : Values V) (S : Set (Response V)) (m' m : MaxSize V) : Prop :=
  Relation.ReflTransGen (Next py S) m' m

theorem usable_later (hnum : ∀ v, .tooLarge (.maxSize (.other v)) ∉ S) {m m' : MaxSize V}
    (hm : Usable py m) (h : Later py S m' m) : Usable py m' := by
  rcases Relation.ReflTransGen.cases_head h with rfl | ⟨_, hn, -⟩
  · exact hm
  · intro v hv
    exact absurd (hv ▸ hn.1) (hnum v)

theorem rejects_ne_none {m : MaxSize V} (hm : Usable py m) (x : Number) :
    m.rejects py (.number x) ≠ none := by
  cases m with
  | number y =>
    unfold MaxSize.rejects
    split_ifs <;> simp [MaxSize.ge]
  | other v => simp [rejects_of_falsy (falsy_of_usable_other hm)]

theorem converges_sendChunks {P : Handler Line V → Prop}
    {send : ℕ → List Line → Run Line V ℕ}
    (hs : ∀ chunk h, P h → Prog.Converges (fun fuel => send fuel chunk) (fun _ h' => P h') h)
    (chunks : List (List Line)) {h : Handler Line V} (hP : P h) :
    Prog.Converges (fun fuel => sendChunks (send fuel) chunks) (fun _ h' => P h') h := by
  induction chunks generalizing h with
  | nil => exact .of_eq (fun _ => rfl) hP
  | cons chunk chunks ih =>
    refine Prog.Converges.bind (hs chunk h hP) fun sent h' hP' => ?_
    by_cases hlt : sent < chunk.length
    · simp only [hlt, if_true]
      exact .of_eq (fun _ => rfl) hP'
    · simp only [hlt, if_false]
      exact Prog.Converges.bind (ih hP') fun more h'' hP'' => .of_eq (fun _ => rfl) hP''

/-- If the requests for single chunks return, the recursion does. -/
theorem converges_appendLogs {P : Handler Line V → Prop}
    (hs : ∀ chunk h, P h → Prog.Converges
      (fun fuel => appendLogsChunk py posts (appendLogs py dumps posts fuel) chunk)
      (fun _ h' => P h') h)
    (logLines : List Line) {h : Handler Line V} (hu : Usable py h.maxSize) (hP : P h) :
    Prog.Converges (fun fuel => appendLogs py dumps posts fuel logLines) (fun _ h' => P h') h := by
  obtain ⟨chunk, chunks, hsplit⟩ := exists_splitLogs dumps logLines hu
  refine Prog.Converges.succ (Prog.Converges.congr
    (converges_sendChunks hs (chunk :: chunks) hP) fun fuel => ?_)
  rw [appendLogs, Prog.get_bind_apply, Prog.bind_eq_of_ok (hsplit h)]

/-- A request returns, and what it resends does too. -/
theorem converges_chunk (hposts : ∀ n, posts n ∈ S) (hjson : .tooLarge .notJson ∉ S)
    (hnum : ∀ v, .tooLarge (.maxSize (.other v)) ∉ S) {m : MaxSize V} (hacc : Acc (Next py S) m)
    (hm : Usable py m) (chunk : List Line) {h : Handler Line V} (hh : h.maxSize = m) :
    Prog.Converges (fun fuel => appendLogsChunk py posts (appendLogs py dumps posts fuel) chunk)
      (fun _ h' => Later py S h'.maxSize m) h := by
  have htrans := hacc.transGen
  clear hacc
  induction htrans generalizing chunk h with
  | intro m _ ih =>
    have hhere : Later py S h.maxSize m := hh ▸ .refl
    have hS : posts h.posted ∈ S := hposts h.posted
    match hp : posts h.posted with
    | .ok => exact .of_eq (fun _ => appendLogsChunk_ok hp) hhere
    | .error => exact .of_eq (fun _ => appendLogsChunk_error hp) hhere
    | .tooLarge .notJson => exact absurd (hp ▸ hS) hjson
    | .tooLarge .noMaxSize => exact .of_eq (fun _ => appendLogsChunk_noMaxSize hp) hhere
    | .tooLarge (.maxSize (.other v)) => exact absurd (hp ▸ hS) (hnum v)
    | .tooLarge (.maxSize (.number x)) =>
      match hr : h.maxSize.rejects py (.number x) with
      | none => exact absurd hr (rejects_ne_none (hh ▸ hm) x)
      | some true => exact .of_eq (fun _ => appendLogsChunk_rejected hp hr) hhere
      | some false =>
        have hnext : Next py S (.number x) m := ⟨hp ▸ hS, hh ▸ hr⟩
        refine Prog.Converges.congr ?_ fun _ => appendLogsChunk_accepted hp hr
        -- every later maximum size is below `m`, and its requests return
        refine Prog.Converges.imp (converges_appendLogs
          (P := fun h' => Later py S h'.maxSize (.number x)) ?_ chunk (usable_number x) .refl)
          fun _ _ hl => .tail hl hnext
        intro chunk h' hl
        have hbelow : Relation.TransGen (Next py S) h'.maxSize m := .tail' hl hnext
        have husable : Usable py h'.maxSize := usable_later hnum (usable_number x) hl
        exact Prog.Converges.imp (ih h'.maxSize hbelow husable chunk rfl)
          fun _ _ hl' => hl'.trans hl

/-- With harmless answers the flush returns. -/
theorem completes_of_harmless (hposts : ∀ n, posts n ∈ S) {h : Handler Line V}
    (hS : Harmless py S h.maxSize) (buf : List Line) (closeCalled : Bool) :
    Completes py dumps posts buf closeCalled h := by
  refine Prog.Converges.congr (s := { h with retryBuffer := h.retryBuffer ++ buf }) ?_
    fun _ => Prog.modify_bind_apply _ _
  refine Prog.Converges.congr ?_ fun _ => Prog.get_bind_apply _
  refine Prog.Converges.bind (converges_appendLogs
    (P := fun h' => Later py S h'.maxSize h.maxSize) ?_ _ hS.usable .refl)
    fun _ _ _ => .of_eq (fun _ => rfl) trivial
  intro chunk h' hl
  have husable : Usable py h'.maxSize := usable_later hS.number hS.usable hl
  have hacc : Acc (Next py S) h'.maxSize := by
    rcases Relation.reflTransGen_iff_eq_or_transGen.mp hl with heq | hbelow
    · exact heq ▸ acc_of_harmless hS
    · exact (acc_of_harmless hS).inv_of_transGen hbelow
  exact Prog.Converges.imp (converges_chunk hposts hS.json hS.number hacc husable chunk rfl)
    fun _ _ hl' => hl'.trans hl

end Return

/-! ## Other answers -/

section Harm

variable {py : Values V} {dumps : Line → ℕ} {posts : ℕ → Response V} {S : Set (Response V)}
  {logLines : List Line} {h : Handler Line V}

/-- The recursion does not return a value, however much fuel there is. -/
def Fails (py : Values V) (dumps : Line → ℕ) (posts : ℕ → Response V) (logLines : List Line)
    (h : Handler Line V) : Prop :=
  ∀ fuel sent h', appendLogs py dumps posts fuel logLines h ≠ (.ok sent, h')

theorem not_completes_of_fails {buf : List Line} {closeCalled : Bool}
    (hf : Fails py dumps posts (h.retryBuffer ++ buf)
      { h with retryBuffer := h.retryBuffer ++ buf }) :
    ¬ Completes py dumps posts buf closeCalled h := by
  refine Prog.Converges.not_of_forall fun fuel a h' => ?_
  unfold flushBufferWithLock
  rw [Prog.modify_bind_apply, Prog.get_bind_apply]
  exact Prog.bind_ne_ok (hf fuel)

/-- An exception on the first request. -/
theorem fails_of_error (hu : Usable py h.maxSize)
    (hr : ∀ again chunk, ∃ e h', appendLogsChunk py posts again chunk h = (.error e, h')) :
    Fails py dumps posts logLines h := by
  intro fuel sent h'
  cases fuel with
  | zero => exact fun hstop => nomatch hstop
  | succ fuel =>
    obtain ⟨chunk, chunks, hsplit⟩ := exists_splitLogs dumps logLines hu
    obtain ⟨e, h'', he⟩ := hr (appendLogs py dumps posts fuel) chunk
    rw [appendLogs, Prog.get_bind_apply, Prog.bind_eq_of_ok (hsplit h), sendChunks,
      Prog.bind_eq_of_error he]
    simp

/-- An exception when the lines are split. -/
theorem fails_of_not_usable {v : V} (hm : h.maxSize = .other v) (hv : py.truthy v = true)
    (hl : logLines ≠ []) : Fails py dumps posts logLines h := by
  intro fuel sent h'
  cases fuel with
  | zero => exact fun hstop => nomatch hstop
  | succ fuel =>
    have hsplit : splitLogs py dumps logLines h.maxSize h = (.error .typeError, h) := by
      rw [hm, splitLogs, if_pos ⟨hv, hl⟩]
      rfl
    rw [appendLogs, Prog.get_bind_apply, Prog.bind_eq_of_error hsplit]
    simp

/-- An exception when the lines are split again. -/
theorem fails_of_truthy_other {v : V} (hm : h.maxSize.truthy py = false) (hv : py.truthy v = true)
    (hp : posts h.posted = .tooLarge (.maxSize (.other v))) (hl : logLines ≠ []) :
    Fails py dumps posts logLines h := by
  intro fuel sent h'
  cases fuel with
  | zero => exact fun hstop => nomatch hstop
  | succ fuel =>
    rw [appendLogs, Prog.get_bind_apply, Prog.bind_eq_of_ok (splitLogs_of_falsy hm), sendChunks]
    refine Prog.bind_ne_ok fun sent h' => ?_
    rw [appendLogsChunk_accepted hp (rejects_of_falsy hm _)]
    exact fails_of_not_usable rfl hv hl fuel sent h'

/-- **Recursion without end.** Every answer is a maximum size that is accepted after the one
before. -/
theorem stop_of_chain (g : ℕ → MaxSize V) (start : ℕ)
    (hposts : ∀ n, posts (start + n) = .tooLarge (.maxSize (g (n + 1))))
    (hu : ∀ n, Usable py (g n)) (hr : ∀ n, (g n).rejects py (g (n + 1)) = some false) (fuel n : ℕ)
    (logLines : List Line) {h : Handler Line V} (hn : h.posted = start + n)
    (hm : h.maxSize = g n) : ∃ h', appendLogs py dumps posts fuel logLines h = (.stop, h') := by
  induction fuel generalizing n logLines h with
  | zero => exact ⟨h, rfl⟩
  | succ fuel ih =>
    obtain ⟨chunk, chunks, hsplit⟩ := exists_splitLogs dumps logLines (hm ▸ hu n)
    have hchunk : appendLogsChunk py posts (appendLogs py dumps posts fuel) chunk h =
        appendLogs py dumps posts fuel chunk
          { h with posted := h.posted + 1, maxSize := g (n + 1) } :=
      appendLogsChunk_accepted (hn ▸ hposts n) (hm ▸ hr n)
    obtain ⟨h', hstop⟩ := ih (n + 1) chunk
      (h := { h with posted := h.posted + 1, maxSize := g (n + 1) }) (by dsimp only; omega) rfl
    refine ⟨h', ?_⟩
    rw [appendLogs, Prog.get_bind_apply, Prog.bind_eq_of_ok (hsplit h), sendChunks,
      Prog.bind_eq_of_stop (hchunk.trans hstop)]

theorem not_completes_of_chain {f : ℕ → MaxSize V} {buf : List Line} {closeCalled : Bool}
    (hposts : ∀ n, posts (h.posted + n) = .tooLarge (.maxSize (f n))) (hu : Usable py h.maxSize)
    (hfu : ∀ n, Usable py (f n)) (hfirst : h.maxSize.rejects py (f 0) = some false)
    (hnext : ∀ n, (f n).rejects py (f (n + 1)) = some false) :
    ¬ Completes py dumps posts buf closeCalled h := by
  refine not_completes_of_fails fun fuel sent h' hok => ?_
  have hstop : ∃ t, appendLogs py dumps posts fuel (h.retryBuffer ++ buf)
      { h with retryBuffer := h.retryBuffer ++ buf } = (.stop, t) := by
    refine stop_of_chain (fun n => Nat.casesOn n h.maxSize f) h.posted hposts ?_ ?_ fuel 0 _ rfl rfl
    · intro n
      cases n with
      | zero => exact hu
      | succ n => exact hfu n
    · intro n
      cases n with
      | zero => exact hfirst
      | succ n => exact hnext n
  obtain ⟨t, hstop⟩ := hstop
  rw [hstop] at hok
  simp at hok

/-- The answers of a server that has a maximum size to follow every other. -/
theorem exists_not_completes_of_chain (dumps : Line → ℕ) (buf : List Line) (closeCalled : Bool)
    {f : ℕ → MaxSize V} (hS : ∀ n, .tooLarge (.maxSize (f n)) ∈ S) (hu : Usable py h.maxSize)
    (hfu : ∀ n, Usable py (f n)) (hfirst : h.maxSize.rejects py (f 0) = some false)
    (hnext : ∀ n, (f n).rejects py (f (n + 1)) = some false) :
    ∃ posts : ℕ → Response V, (∀ n, posts n ∈ S) ∧
      ¬ Completes py dumps posts buf closeCalled h := by
  refine ⟨fun n => .tooLarge (.maxSize (f (n - h.posted))), fun n => hS _, ?_⟩
  refine not_completes_of_chain (fun n => ?_) hu hfu hfirst hnext
  rw [Nat.add_sub_cancel_left]

/-- If all flushes return, the answers are harmless. -/
theorem harmless_of_completes (hS : S.Nonempty) {buf : List Line} (hbuf : buf ≠ [])
    {closeCalled : Bool} (hall : ∀ posts : ℕ → Response V, (∀ n, posts n ∈ S) →
      Completes py dumps posts buf closeCalled h) : Harmless py S h.maxSize := by
  obtain ⟨r, hr⟩ := hS
  have hlines : h.retryBuffer ++ buf ≠ [] := List.append_ne_nil_of_right_ne_nil _ hbuf
  have husable : Usable py h.maxSize := by
    intro v hv
    by_contra ht
    exact not_completes_of_fails (fails_of_not_usable hv (by simpa using ht) hlines)
      (hall (fun _ => r) fun _ => hr)
  have hchain : ∀ f : ℕ → Number, (∀ n, Sends S (f n)) →
      h.maxSize.rejects py (.number (f 0)) = some false →
      ¬ ∀ n, (MaxSize.number (f n) : MaxSize V).rejects py (.number (f (n + 1))) = some false := by
    intro f hf hfirst hnext
    obtain ⟨posts, hposts, hnot⟩ := exists_not_completes_of_chain dumps buf closeCalled hf husable
      (fun n => usable_number (f n)) hfirst hnext
    exact hnot (hall posts hposts)
  refine ⟨fun hjson => ?_, fun v hv => ?_, fun hnan => ?_, fun hzero => ?_, husable, ?_⟩
  · refine not_completes_of_fails (fails_of_error husable fun again chunk => ?_)
      (hall (fun _ => .tooLarge .notJson) fun _ => hjson)
    exact ⟨_, _, appendLogsChunk_notJson rfl⟩
  · by_cases hm : h.maxSize.truthy py = true
    · refine not_completes_of_fails (fails_of_error husable fun again chunk => ?_)
        (hall (fun _ => .tooLarge (.maxSize (.other v))) fun _ => hv)
      exact ⟨_, _, appendLogsChunk_incomparable rfl (rejects_other husable hm v)⟩
    · have hm : h.maxSize.truthy py = false := by simpa using hm
      by_cases ht : py.truthy v = true
      · exact not_completes_of_fails (fails_of_truthy_other hm ht rfl hlines)
          (hall (fun _ => .tooLarge (.maxSize (.other v))) fun _ => hv)
      · have ht : (MaxSize.other v).truthy py = false := Bool.eq_false_iff.mpr ht
        obtain ⟨posts, hposts, hnot⟩ := exists_not_completes_of_chain dumps buf closeCalled
          (fun _ => hv) husable (fun _ => usable_of_falsy ht) (rejects_of_falsy hm _)
          fun _ => rejects_of_falsy ht _
        exact hnot (hall posts hposts)
  · refine hchain (fun _ => .nan) (fun _ => hnan) (rejects_nan husable) fun _ => ?_
    exact rejects_nan (usable_number .nan)
  · by_contra hneg
    refine hchain (fun _ => .fin 0) (fun _ => hzero) (rejects_zero husable hneg) fun _ => ?_
    exact rejects_number_eq_false_iff.mpr (.inl rfl)
  · rintro ⟨f, hfirst, hf⟩
    refine hchain f (fun n => (hf n).1) hfirst fun n => ?_
    exact rejects_number_eq_false_iff.mpr (.inr (.inr (.inr (hf n).2)))

end Harm

/-- **When every flush comes to an end.** Let the server answer each request in any of the ways `S`.
For every handler and every non-empty buffer, the flush returns and raises nothing whatever answers
come, if and only if: the body of every 413 response is JSON; a `"max_size"` is a number other than
`NaN`, and not zero unless the handler has a negative maximum size; and the server cannot send a
sequence of ever smaller maximum sizes, of which the handler accepts the first. The handler itself
must have a number for its maximum size, or none. -/
theorem flush_completes_iff (py : Values V) (dumps : Line → ℕ) {S : Set (Response V)}
    (hS : S.Nonempty) (h : Handler Line V) {buf : List Line} (hbuf : buf ≠ [])
    (closeCalled : Bool) :
    (∀ posts : ℕ → Response V, (∀ n, posts n ∈ S) →
      Completes py dumps posts buf closeCalled h) ↔ Harmless py S h.maxSize :=
  ⟨harmless_of_completes hS hbuf,
    fun hharm _ hposts => completes_of_harmless hposts hharm buf closeCalled⟩

/-- `None` and strings. -/
def noneOrString : Values (Option String) where
  none := none
  truthy v := v.any (decide <| · ≠ "")
  ge v w := match v, w with
    | some v, some w => some (decide (w ≤ v))
    | _, _ => none
  truthy_none := rfl

/-- A new handler. -/
def newHandler : Handler ℕ (Option String) := ⟨[], .other none, 0, false⟩

/-- The answers of a server that may ask for smaller requests twice. -/
def twoSizes : Set (Response (Option String)) :=
  {.ok, .error, .tooLarge .noMaxSize, .tooLarge (.maxSize (.number (.fin 14))),
    .tooLarge (.maxSize (.number (.fin 7)))}

theorem sends_twoSizes {x : Number} (h : Sends twoSizes x) : x = .fin 14 ∨ x = .fin 7 := by
  simpa [Sends, twoSizes] using h

/-- Two maximum sizes do not go down for ever. -/
theorem flush_completes_two_sizes :
    Harmless noneOrString twoSizes newHandler.maxSize ∧
      Completes noneOrString id (fun n => if n = 0 then .tooLarge (.maxSize (.number (.fin 14)))
        else .ok) [5, 90, 4] true newHandler := by
  have hharm : Harmless noneOrString twoSizes newHandler.maxSize := by
    refine ⟨by simp [twoSizes], by simp [twoSizes], ?_, ?_, ?_, ?_⟩
    · intro h
      simpa using sends_twoSizes h
    · intro h
      exact absurd (sends_twoSizes h) (by decide +kernel)
    · intro v hv
      cases hv
      rfl
    · rintro ⟨f, -, hf⟩
      have h0 := (hf 0).2
      have h1 := (hf 1).2
      rcases sends_twoSizes (hf 0).1 with e0 | e0 <;>
        rcases sends_twoSizes (hf 1).1 with e1 | e1 <;>
        rcases sends_twoSizes (hf 2).1 with e2 | e2 <;> simp only [e0, e1, e2] at h0 h1 <;>
        revert h0 h1 <;> decide +kernel
  refine ⟨hharm, (flush_completes_iff noneOrString id ⟨.ok, .inl rfl⟩ newHandler (by simp) true).mpr
    hharm _ fun n => ?_⟩
  by_cases hn : n = 0
  · simp [hn, twoSizes]
  · simp [hn, twoSizes]

/-- **An answer that is not JSON raises, and zero is accepted again and again.** -/
theorem flush_incomplete :
    flushBufferWithLock noneOrString id (fun _ => .tooLarge .notJson) [5] false 1 newHandler =
        (.error .valueError, ⟨[5], .other none, 1, false⟩) ∧
      ¬ Completes noneOrString id (fun _ => .tooLarge .notJson) [5] false newHandler ∧
      ¬ Completes noneOrString id (fun _ => .tooLarge (.maxSize (.number (.fin 0)))) [5] false
        newHandler := by
  refine ⟨rfl, ?_, ?_⟩
  · refine not_completes_of_fails (fails_of_error (usable_of_falsy rfl) fun again chunk => ?_)
    exact ⟨_, _, appendLogsChunk_notJson rfl⟩
  · refine not_completes_of_chain (fun _ => rfl) (usable_of_falsy rfl) (fun _ => usable_number _)
      (rejects_of_falsy rfl _) fun _ => ?_
    exact rejects_number_eq_false_iff.mpr (.inl rfl)

end MongoTests.Logging.Flush
