import MongoTests.Lib.JsValue
import MongoTests.Lib.Program

/-!
# Reading a change stream up to an event

`assertNextChangesEqual`, `getOneChange` and `consumeDropUpTo` of `ChangeStreamTest`
(`jstests/libs/change_stream_util.js`). The answers of the server to `getMore` are the environment's,
and so is `assert.docEq`.

* `Answer`, `getNextBatch`, `awaitChange`: one batch, and the wait for a batch with an event.
* `assertNextChangesEqual`, `getOneChange`, `consumeDropUpTo`.
* `unread`: the batches that deliver some events; `getOneChange_open`, `getOneChange_last`.
* **`consumeDropUpTo_iff`**: when the drops and the expected event are what is returned.
-/

namespace MongoTests.ChangeStreams

open MongoTests.Lib Js Prog

/-! ## The client -/

section Model

/-- A cursor as a command returns it, with its first or next batch. -/
structure Cursor where
  id : ℤ
  batch : List Object

/-- The answer to a `getMore`; `none` is an error. -/
abbrev Answer := Option Cursor

inductive Thrown
  /-- `assert.commandWorked` -/
  | commandFailed
  /-- No answer comes in time. -/
  | timedOut
  | batchLength (cursor : Cursor)
  | unexpectedInvalidate (numChangesSeen : ℕ) (observedChanges : List Object)
  | mismatch (expectedEvent actualEvent : Object)
  | expectedSize
  | notInvalidated (changes : List Object)
  | notKilled (finalCursor : Cursor)
  | typeError

/-- The state is the answers that are still to come. -/
abbrev M := Prog (List Answer) Thrown

def jsAssert (c : Bool) (e : Thrown) : M Unit := if c then pure () else throw e

/-- `assert.docEq` does not throw. -/
abbrev DocEq := Object → Object → Bool

variable (docEq : DocEq)

def hasOwnProperty (o : Object) (key : String) : Bool := key ∈ o.map Prod.fst

def delete (o : Object) (key : String) : Object := o.filter fun p => p.1 ≠ key

/-- The fields that are compared only where they are expected. -/
def ignoredFields : List String := ["_id", "clusterTime", "txnNumber", "lsid"]

/-- The event that `assertChangeStreamEventEq` compares. -/
def testEvent (actualEvent expectedEvent : Object) : Object :=
  (ignoredFields.filter fun key => !hasOwnProperty expectedEvent key).foldl delete actualEvent

def assertChangeStreamEventEq (actualEvent expectedEvent : Object) : M Unit :=
  jsAssert (docEq (testEvent actualEvent expectedEvent) expectedEvent)
    (.mismatch expectedEvent (testEvent actualEvent expectedEvent))

/-- `change.operationType === operationType` -/
def HasType (change : Object) (operationType : String) : Prop :=
  match change.get "operationType" with
  | .string s => s = operationType
  | _ => False

instance (change : Object) (operationType : String) : Decidable (HasType change operationType) := by
  unfold HasType
  split <;> infer_instance

def isInvalidated (change : Object) : Bool := HasType change "invalidate"

/-- `getNextBatch` of a cursor: one `getMore`. -/
def getNextBatch : M Cursor
  | [] => (.error .timedOut, [])
  | none :: answers => (.error .commandFailed, answers)
  | some cursor :: answers => (.ok cursor, answers)

def getNextDocFromCursor (cursor : Cursor) : Except Thrown (Option Object) :=
  match cursor.batch with
  | [] => .ok none
  | [change] => .ok (some change)
  | _ => .error (.batchLength cursor)

/-- The `assert.soon` of `assertNextChangesEqual`. -/
def awaitChange : M (Cursor × Object)
  | [] => (.error .timedOut, [])
  | none :: answers => (.error .commandFailed, answers)
  | some cursor :: answers =>
    match getNextDocFromCursor cursor with
    | .ok none => awaitChange answers
    | .ok (some change) => (.ok (cursor, change), answers)
    | .error e => (.error e, answers)

def assertChangeIsExpected (expectedChanges : Option (List Object)) (numChangesSeen : ℕ)
    (observedChanges : List Object) (expectInvalidate : Bool) : M Unit :=
  match observedChanges[numChangesSeen]?, expectedChanges with
  | some change, some expectedChanges =>
    match expectedChanges[numChangesSeen]? with
    | some expectedChange => assertChangeStreamEventEq docEq change expectedChange
    | none => throw .typeError
  | some change, none =>
    jsAssert (expectInvalidate || !isInvalidated change)
      (.unexpectedInvalidate numChangesSeen observedChanges)
  | none, _ => throw .typeError

/-- The change with number `i`, and the cursor afterwards. -/
def nextChange (cursor : Cursor) (i : ℕ) (skipFirstBatch : Bool) : M (Cursor × Object) := do
  -- the first change may be on the original cursor
  let first ← if i = 0 && !skipFirstBatch then ofExcept (getNextDocFromCursor cursor) else pure none
  match first with
  | some change => pure (cursor, change)
  | none => awaitChange

/-- The loop of `assertNextChangesEqual`, with the number of iterations that are left. -/
def changesLoop (expectedChanges : Option (List Object)) (expectInvalidate skipFirstBatch : Bool) :
    ℕ → Cursor → List Object → M (Cursor × List Object)
  | 0, cursor, changes => pure (cursor, changes)
  | n + 1, cursor, changes => do
    let (cursor, change) ← nextChange cursor changes.length skipFirstBatch
    assertChangeIsExpected docEq expectedChanges changes.length (changes ++ [change]) expectInvalidate
    changesLoop expectedChanges expectInvalidate skipFirstBatch n cursor (changes ++ [change])

/-- The end of `assertNextChangesEqual`: the last change is an invalidation that kills the cursor. -/
def assertInvalidated (changes : List Object) : M Unit :=
  match changes.getLast? with
  | none => throw .typeError
  | some change => do
    jsAssert (isInvalidated change) (.notInvalidated changes)
    let finalCursor ← getNextBatch
    jsAssert (finalCursor.id = 0) (.notKilled finalCursor)

def assertNextChangesEqual (cursor : Cursor) (expectedChanges : Option (List Object))
    (expectedNumChanges : Option ℕ) (expectInvalidate skipFirstBatch : Bool) : M (List Object) := do
  let n ← match expectedChanges, expectedNumChanges with
    | some expectedChanges, some n => do
      jsAssert (expectedChanges.length = n) .expectedSize
      pure n
    | some expectedChanges, none => pure expectedChanges.length
    | none, some n => pure n
    | none, none => throw .expectedSize
  let (_, changes) ← changesLoop docEq expectedChanges expectInvalidate skipFirstBatch n cursor []
  if expectInvalidate then assertInvalidated changes
  pure changes

def getOneChange (cursor : Cursor) (expectInvalidate : Bool) : M Object := do
  let changes ← assertNextChangesEqual docEq cursor none (some 1) expectInvalidate true
  match changes with
  | change :: _ => pure change
  | [] => throw .typeError

variable (cursor : Cursor) (dropType : String) (expectedNext : Object) (expectInvalidate : Bool)

/-- The loop of `consumeDropUpTo`. -/
def consumeLoop : ℕ → List Object → Object → M (List Object)
  | 0, _, _ => stop
  | fuel + 1, results, change =>
    if HasType change dropType then do
      let next ← getOneChange docEq cursor expectInvalidate
      consumeLoop fuel (results ++ [change]) next
    else do
      assertChangeIsExpected docEq (some [expectedNext]) 0 [change] expectInvalidate
      pure (results ++ [change])

/-- Every round takes an answer, so that the loop has no more rounds than there are answers. -/
def consumeDropUpTo : M (List Object) := do
  let answers ← get
  let change ← getOneChange docEq cursor expectInvalidate
  consumeLoop docEq cursor dropType expectedNext expectInvalidate answers.length [] change

end Model

/-! ## One change -/

section OneChange

variable {docEq : DocEq} {cursor : Cursor} {expectInvalidate : Bool} {id : ℤ} {n : ℕ} {change : Object}
  {us : List (ℕ × Object)} {rest s t : List Answer}

/-- The answers that deliver some events, each after so many empty batches. -/
def unread (id : ℤ) (us : List (ℕ × Object)) : List Answer :=
  us.flatMap fun u => List.replicate u.1 (some ⟨id, []⟩) ++ [some ⟨id, [u.2]⟩]

theorem unread_cons : unread id ((n, change) :: us) ++ rest =
    List.replicate n (some ⟨id, []⟩) ++ some ⟨id, [change]⟩ :: (unread id us ++ rest) := by
  simp [unread]

/-- Empty batches are skipped. -/
theorem awaitChange_unread : awaitChange (unread id ((n, change) :: us) ++ rest) =
    (.ok (⟨id, [change]⟩, change), unread id us ++ rest) := by
  rw [unread_cons]
  induction n with
  | zero => rfl
  | succ n ih => exact ih

/-- The checks of `getOneChange` on the change that comes. -/
def check (expectInvalidate : Bool) (change : Object) : M Object := do
  jsAssert (expectInvalidate || !isInvalidated change) (.unexpectedInvalidate 0 [change])
  if expectInvalidate then assertInvalidated [change]
  pure change

/-- What follows the loop of `assertNextChangesEqual` in `getOneChange`. -/
def finish (expectInvalidate : Bool) (p : Cursor × List Object) : M (List Object) := do
  if expectInvalidate then assertInvalidated p.2
  pure p.2

theorem getOneChange_of_ok {c : Cursor} (h : awaitChange s = (.ok (c, change), t)) :
    getOneChange docEq cursor expectInvalidate s = check expectInvalidate change t := by
  have hnext : nextChange cursor 0 true s = (.ok (c, change), t) := h
  have hloop : changesLoop docEq none expectInvalidate true 1 cursor [] s =
      (do
        jsAssert (expectInvalidate || !isInvalidated change) (.unexpectedInvalidate 0 [change])
        pure (c, [change]) : M (Cursor × List Object)) t := bind_eq_of_ok hnext
  unfold check
  cases hexpected : expectInvalidate || !isInvalidated change with
  | false =>
    rw [hexpected] at hloop
    exact bind_eq_of_error (bind_eq_of_error (f := finish expectInvalidate) hloop)
  | true =>
    rw [hexpected] at hloop
    have hfinish := bind_eq_of_ok (f := finish expectInvalidate) hloop
    cases expectInvalidate with
    | false => exact bind_eq_of_ok hfinish
    | true =>
      show _ = (assertInvalidated [change] >>= fun _ => pure change) t
      match hend : assertInvalidated [change] t with
      | (.ok (), u) =>
        have hchanges : finish true (c, [change]) t = (.ok [change], u) := bind_eq_of_ok hend
        rw [bind_eq_of_ok hend]
        exact bind_eq_of_ok (hfinish.trans hchanges)
      | (.error e, u) =>
        have hchanges : finish true (c, [change]) t = (.error e, u) := bind_eq_of_error hend
        rw [bind_eq_of_error hend]
        exact bind_eq_of_error (hfinish.trans hchanges)
      | (.stop, u) =>
        have hchanges : finish true (c, [change]) t = (.stop, u) := bind_eq_of_stop hend
        rw [bind_eq_of_stop hend]
        exact bind_eq_of_stop (hfinish.trans hchanges)

/-- **One change**: the wait, and the checks. -/
theorem getOneChange_eq : getOneChange docEq cursor expectInvalidate =
    awaitChange >>= fun p => check expectInvalidate p.2 := by
  funext s
  match hawait : awaitChange s with
  | (.ok (c, change), t) => rw [bind_eq_of_ok hawait, getOneChange_of_ok hawait]
  | (.error e, t) =>
    have hloop : changesLoop docEq none expectInvalidate true 1 cursor [] s = (.error e, t) :=
      bind_eq_of_error hawait
    rw [bind_eq_of_error hawait]
    exact bind_eq_of_error (bind_eq_of_error (f := finish expectInvalidate) hloop)
  | (.stop, t) =>
    have hloop : changesLoop docEq none expectInvalidate true 1 cursor [] s = (.stop, t) :=
      bind_eq_of_stop hawait
    rw [bind_eq_of_stop hawait]
    exact bind_eq_of_stop (bind_eq_of_stop (f := finish expectInvalidate) hloop)

theorem getOneChange_unread :
    getOneChange docEq cursor expectInvalidate (unread id ((n, change) :: us) ++ rest) =
      check expectInvalidate change (unread id us ++ rest) := getOneChange_of_ok awaitChange_unread

theorem wp_jsAssert {c : Bool} {e : Thrown} {Q : Unit → List Answer → Prop}
    {E : Thrown → List Answer → Prop} {S : List Answer → Prop} :
    wp (jsAssert c e) Q E S s ↔ (c = true → Q () s) ∧ (c = false → E e s) := by
  cases c <;> simp [jsAssert, wp_pure, wp_throw]

theorem wp_getNextBatch :
    wp getNextBatch (fun _ _ => True) (fun _ _ => True) (fun _ => False) s := by
  match s with
  | [] => trivial
  | none :: _ => trivial
  | some _ :: _ => trivial

/-- A change that is returned is an invalidation exactly when one is expected. -/
theorem wp_check : wp (check expectInvalidate change)
    (fun c _ => c = change ∧ isInvalidated c = expectInvalidate) (fun _ _ => True) (fun _ => False)
    s := by
  rw [check, wp_bind, wp_jsAssert]
  refine ⟨fun hexpected => ?_, fun _ => trivial⟩
  cases expectInvalidate with
  | false => exact ⟨rfl, by simpa using hexpected⟩
  | true =>
    show wp (assertInvalidated [change] >>= fun _ => pure change) _ _ _ _
    rw [wp_bind, assertInvalidated]
    refine wp_bind.mpr (wp_jsAssert.mpr ⟨fun hinv => ?_, fun _ => trivial⟩)
    refine wp_bind.mpr (wp.imp wp_getNextBatch fun _ _ _ => ?_)
    exact wp_jsAssert.mpr ⟨fun _ => ⟨rfl, hinv⟩, fun _ => trivial⟩

theorem wp_getOneChange : wp (getOneChange docEq cursor expectInvalidate)
    (fun c _ => isInvalidated c = expectInvalidate) (fun _ _ => True) (fun _ => True) s := by
  rw [getOneChange_eq, wp_bind]
  exact wp_of_forall (fun p u => wp.mono wp_check (fun _ _ hc => hc.2) (fun _ _ _ => trivial)
    fun _ _ => trivial) (fun _ _ => trivial) fun _ => trivial

theorem check_false (hinv : isInvalidated change = false) : check false change s = (.ok change, s) := by
  rw [check, hinv]
  rfl

/-- The invalidation that ends a stream. -/
theorem check_closed {closing : Cursor} (hinv : isInvalidated change = true) (hid : closing.id = 0) :
    check true change (some closing :: rest) = (.ok change, rest) := by
  have hend : assertInvalidated [change] (some closing :: rest) =
      jsAssert (closing.id = 0) (.notKilled closing) rest := by
    rw [assertInvalidated, List.getLast?_singleton]
    dsimp only
    rw [hinv]
    rfl
  rw [decide_eq_true hid] at hend
  exact bind_eq_of_ok hend

/-- The program throws. -/
def Fails {α : Type} (r : Outcome Thrown α × List Answer) : Prop := ∃ e t, r = (.error e, t)

theorem Fails.bind {α β : Type} {m : M α} {f : α → M β} (h : Fails (m s)) : Fails ((m >>= f) s) := by
  obtain ⟨e, t, h⟩ := h
  exact ⟨e, t, bind_eq_of_error h⟩

theorem fails_check_false (hinv : isInvalidated change = true) : Fails (check false change s) := by
  rw [check, hinv]
  exact ⟨_, _, rfl⟩

/-- An invalidation is expected, and something else comes, or the stream goes on. -/
theorem fails_check_true (h : isInvalidated change = true →
      ∀ closing after, s = some closing :: after → closing.id ≠ 0) :
    Fails (check true change s) := by
  refine Fails.bind (m := assertInvalidated [change]) ?_
  cases hinv : isInvalidated change with
  | false =>
    rw [assertInvalidated, List.getLast?_singleton]
    dsimp only
    rw [hinv]
    exact ⟨_, _, rfl⟩
  | true =>
    rw [assertInvalidated, List.getLast?_singleton]
    dsimp only
    rw [hinv]
    match s, h hinv with
    | [], _ => exact ⟨_, _, rfl⟩
    | none :: after, _ => exact ⟨_, _, rfl⟩
    | some closing :: after, h =>
      have hid := decide_eq_false (h closing after rfl)
      refine ⟨.notKilled closing, after, ?_⟩
      show jsAssert (closing.id = 0) (.notKilled closing) after = _
      rw [hid]
      rfl

end OneChange

/-! ## The loop -/

section Loop

variable {docEq : DocEq} {cursor : Cursor} {dropType : String} {expectedNext : Object}
  {expectInvalidate : Bool} {id : ℤ} {n fuel : ℕ} {e change : Object} {results : List Object}
  {drops us : List (ℕ × Object)} {rest s : List Answer}

variable (docEq) in
/-- `assertChangeStreamEventEq` accepts the change. -/
def Matches (expectedNext change : Object) : Prop :=
  docEq (testEvent change expectedNext) expectedNext = true

theorem consumeLoop_drop (h : HasType change dropType) :
    consumeLoop docEq cursor dropType expectedNext expectInvalidate (fuel + 1) results change =
      getOneChange docEq cursor expectInvalidate >>= fun next =>
        consumeLoop docEq cursor dropType expectedNext expectInvalidate fuel (results ++ [change]) next :=
  if_pos h

theorem consumeLoop_other (h : ¬ HasType change dropType) :
    consumeLoop docEq cursor dropType expectedNext expectInvalidate (fuel + 1) results change =
      assertChangeStreamEventEq docEq change expectedNext >>= fun _ => pure (results ++ [change]) :=
  if_neg h

theorem consumeLoop_expected (h : ¬ HasType change dropType) (hm : Matches docEq expectedNext change) :
    consumeLoop docEq cursor dropType expectedNext expectInvalidate (fuel + 1) results change s =
      (.ok (results ++ [change]), s) := by
  rw [consumeLoop_other h, assertChangeStreamEventEq, hm]
  rfl

theorem fails_consumeLoop_other (h : ¬ HasType change dropType)
    (hm : ¬ Matches docEq expectedNext change) :
    Fails (consumeLoop docEq cursor dropType expectedNext expectInvalidate (fuel + 1) results change s) := by
  rw [consumeLoop_other h, assertChangeStreamEventEq, Bool.eq_false_iff.mpr hm]
  exact ⟨_, _, rfl⟩

variable (dropType expectInvalidate) in
/-- Drops up to another change, which are all invalidations or none is. -/
def UpTo (results : List Object) : Prop :=
  ∃ pre c, results = pre ++ [c] ∧ (∀ x ∈ pre, HasType x dropType) ∧ ¬ HasType c dropType ∧
    ∀ x ∈ results, isInvalidated x = expectInvalidate

/-- **What the loop can return**, whatever the answers. -/
theorem wp_consumeLoop (hdrops : ∀ x ∈ results, HasType x dropType)
    (hresults : ∀ x ∈ results ++ [change], isInvalidated x = expectInvalidate) :
    wp (consumeLoop docEq cursor dropType expectedNext expectInvalidate fuel results change)
      (fun r _ => UpTo dropType expectInvalidate r) (fun _ _ => True) (fun _ => True) s := by
  induction fuel generalizing results change s with
  | zero => trivial
  | succ fuel ih =>
    by_cases h : HasType change dropType
    · have hwp : wp (getOneChange docEq cursor expectInvalidate)
          (fun c _ => isInvalidated c = expectInvalidate) (fun _ _ => True) (fun _ => True) s :=
        wp_getOneChange
      rw [consumeLoop_drop h, wp_bind]
      refine wp.imp hwp fun next _ hnext => ih ?_ ?_
      · intro x hx
        obtain hx | hx := List.mem_append.mp hx
        · exact hdrops x hx
        · rwa [List.mem_singleton.mp hx]
      · intro x hx
        obtain hx | hx := List.mem_append.mp hx
        · exact hresults x hx
        · rwa [List.mem_singleton.mp hx]
    · rw [consumeLoop_other h, wp_bind]
      refine wp_of_forall (fun _ _ => ?_) (fun _ _ => trivial) fun _ => trivial
      exact ⟨results, change, rfl, hdrops, h, hresults⟩

/-- Drops that are no invalidations are consumed up to the expected event. -/
theorem consumeLoop_unread (hchange : HasType change dropType)
    (hdrops : ∀ d ∈ drops, HasType d.2 dropType ∧ isInvalidated d.2 = false)
    (he : ¬ HasType e dropType) (hinv : isInvalidated e = false) (hm : Matches docEq expectedNext e)
    (hfuel : drops.length + 1 < fuel) :
    consumeLoop docEq cursor dropType expectedNext false fuel results change
      (unread id (drops ++ [(n, e)]) ++ rest) =
        (.ok (results ++ change :: drops.map Prod.snd ++ [e]), rest) := by
  induction drops generalizing results change fuel with
  | nil =>
    have hnext : getOneChange docEq cursor false (unread id [(n, e)] ++ rest) = (.ok e, rest) :=
      getOneChange_unread.trans (check_false hinv)
    match fuel, hfuel with
    | fuel + 2, _ =>
      rw [consumeLoop_drop hchange, List.nil_append, bind_eq_of_ok hnext, consumeLoop_expected he hm]
      simp
  | cons d drops ih =>
    cases fuel with
    | zero => exact absurd hfuel (Nat.not_lt_zero _)
    | succ fuel =>
      obtain ⟨hd, hdrops⟩ := List.forall_mem_cons.mp hdrops
      have hnext : getOneChange docEq cursor false (unread id (d :: (drops ++ [(n, e)])) ++ rest) =
          (.ok d.2, unread id (drops ++ [(n, e)]) ++ rest) :=
        getOneChange_unread.trans (check_false hd.2)
      rw [consumeLoop_drop hchange, List.cons_append, bind_eq_of_ok hnext,
        ih hd.1 hdrops (Nat.lt_of_succ_lt_succ hfuel)]
      simp

/-- The loop throws at the latest at an event that is not expected. -/
theorem fails_consumeLoop_unread (hchange : HasType change dropType)
    (hdrops : ∀ d ∈ drops, HasType d.2 dropType) (he : ¬ HasType e dropType)
    (hm : ¬ Matches docEq expectedNext e) (hfuel : drops.length + 1 < fuel) :
    Fails (consumeLoop docEq cursor dropType expectedNext false fuel results change
      (unread id (drops ++ [(n, e)]) ++ rest)) := by
  induction drops generalizing results change fuel with
  | nil =>
    have hnext : getOneChange docEq cursor false (unread id [(n, e)] ++ rest) = check false e rest :=
      getOneChange_unread
    match fuel, hfuel with
    | fuel + 2, _ =>
      rw [consumeLoop_drop hchange, List.nil_append]
      cases hinv : isInvalidated e with
      | true =>
        obtain ⟨err, t, hfails⟩ := fails_check_false (s := rest) hinv
        exact ⟨err, t, bind_eq_of_error (hnext.trans hfails)⟩
      | false =>
        rw [bind_eq_of_ok (hnext.trans (check_false hinv))]
        exact fails_consumeLoop_other he hm
  | cons d drops ih =>
    cases fuel with
    | zero => exact absurd hfuel (Nat.not_lt_zero _)
    | succ fuel =>
      obtain ⟨hd, hdrops⟩ := List.forall_mem_cons.mp hdrops
      have hnext : getOneChange docEq cursor false (unread id (d :: (drops ++ [(n, e)])) ++ rest) =
          check false d.2 (unread id (drops ++ [(n, e)]) ++ rest) := getOneChange_unread
      rw [consumeLoop_drop hchange, List.cons_append]
      cases hinv : isInvalidated d.2 with
      | true =>
        obtain ⟨err, t, hfails⟩ := fails_check_false (s := unread id (drops ++ [(n, e)]) ++ rest) hinv
        exact ⟨err, t, bind_eq_of_error (hnext.trans hfails)⟩
      | false =>
        rw [bind_eq_of_ok (hnext.trans (check_false hinv))]
        exact ih hd hdrops (Nat.lt_of_succ_lt_succ hfuel)

theorem length_le_length_unread : us.length ≤ (unread id us).length := by
  induction us with
  | nil => exact Nat.zero_le _
  | cons u us ih =>
    have hlen : (unread id (u :: us)).length = u.1 + (1 + (unread id us).length) := by
      simp [unread, add_comm]
    rw [hlen, List.length_cons]
    omega

end Loop

/-! ## `consumeDropUpTo` -/

section Consume

variable {docEq : DocEq} {cursor : Cursor} {dropType : String} {expectedNext : Object}
  {expectInvalidate : Bool} {id : ℤ} {drops : List (ℕ × Object)} {n : ℕ} {e : Object}
  {rest s : List Answer}

theorem consumeDropUpTo_eq : consumeDropUpTo docEq cursor dropType expectedNext expectInvalidate s =
    (getOneChange docEq cursor expectInvalidate >>=
      consumeLoop docEq cursor dropType expectedNext expectInvalidate s.length []) s := rfl

/-- What can be returned, whatever the answers. -/
theorem upTo_of_consumeDropUpTo {r : List Object} {t : List Answer}
    (h : consumeDropUpTo docEq cursor dropType expectedNext expectInvalidate s = (.ok r, t)) :
    UpTo dropType expectInvalidate r := by
  have hwp : wp (getOneChange docEq cursor expectInvalidate >>=
      consumeLoop docEq cursor dropType expectedNext expectInvalidate s.length [])
        (fun r _ => UpTo dropType expectInvalidate r) (fun _ _ => True) (fun _ => True) s := by
    refine wp_bind.mpr (wp.imp wp_getOneChange fun c _ hc => wp_consumeLoop ?_ ?_)
    · exact fun x hx => absurd hx List.not_mem_nil
    · intro x hx
      rwa [List.mem_singleton.mp hx]
  exact hwp.ok (consumeDropUpTo_eq.symm.trans h)

variable (docEq dropType expectedNext expectInvalidate id drops e rest) in
/-- **A stream** that delivers drops and then another event. Where that is the expected event and an
invalidation is expected, it is one, and the next answer has the cursor closed. -/
structure Scenario : Prop where
  open_ : id ≠ 0
  drops : ∀ d ∈ drops, HasType d.2 dropType
  other : ¬ Matches docEq expectedNext e → ¬ HasType e dropType
  closed : Matches docEq expectedNext e → expectInvalidate = true →
    isInvalidated e = true ∧ ∃ closing after, rest = some closing :: after ∧ closing.id = 0

variable (docEq cursor dropType expectedNext expectInvalidate id drops n e rest) in
/-- The drops and the expected event are returned and nothing else is read, except that the cursor is
closed; another event makes it throw. -/
def Consumed : Prop :=
  (Matches docEq expectedNext e →
    consumeDropUpTo docEq cursor dropType expectedNext expectInvalidate
      (unread id (drops ++ [(n, e)]) ++ rest) =
        (.ok (drops.map Prod.snd ++ [e]), if expectInvalidate then rest.tail else rest)) ∧
  (¬ Matches docEq expectedNext e →
    Fails (consumeDropUpTo docEq cursor dropType expectedNext expectInvalidate
      (unread id (drops ++ [(n, e)]) ++ rest)))

variable (dropType expectInvalidate drops e) in
/-- The expected event is no drop, there are no drops before an invalidation that is expected, and no
invalidation where none is. -/
structure Consumable : Prop where
  other : ¬ HasType e dropType
  noDrops : expectInvalidate = true → drops = []
  noInvalidation : expectInvalidate = false → ∀ x ∈ drops.map Prod.snd ++ [e], isInvalidated x = false

theorem HasType.unique {change : Object} {type type' : String} (h : HasType change type)
    (h' : HasType change type') : type = type' := by
  unfold HasType at h h'
  cases hget : change.get "operationType" with
  | string s =>
    rw [hget] at h h'
    exact h.symm.trans h'
  | _ =>
    rw [hget] at h
    exact h.elim

theorem length_lt : drops.length < (unread id (drops ++ [(n, e)]) ++ rest).length := by
  have hlen : (drops ++ [(n, e)]).length ≤ (unread id (drops ++ [(n, e)])).length :=
    length_le_length_unread
  rw [List.length_append, List.length_singleton] at hlen
  rw [List.length_append]
  omega

/-- The cursor stays open until the last event is delivered. -/
theorem id_of_unread {closing : Cursor} {after : List Answer}
    (h : unread id (drops ++ [(n, e)]) ++ rest = some closing :: after) : closing.id = id := by
  obtain ⟨m, c, us, hus⟩ : ∃ m c us, drops ++ [(n, e)] = (m, c) :: us := by
    cases drops with
    | nil => exact ⟨n, e, [], rfl⟩
    | cons d drops => exact ⟨d.1, d.2, drops ++ [(n, e)], rfl⟩
  rw [hus, unread_cons] at h
  cases m with
  | zero =>
    cases h
    rfl
  | succ m =>
    cases h
    rfl

/-- A stream of drops that can be returned is consumable. -/
theorem consumable_of_upTo (h : Scenario docEq dropType expectedNext expectInvalidate id drops e rest)
    (hm : Matches docEq expectedNext e)
    (hu : UpTo dropType expectInvalidate (drops.map Prod.snd ++ [e])) :
    Consumable dropType expectInvalidate drops e := by
  obtain ⟨pre, c, heq, -, hother, hall⟩ := hu
  obtain ⟨-, rfl⟩ := List.append_singleton_inj.mp heq
  refine ⟨hother, fun hexpect => ?_, fun hexpect x hx => hexpect ▸ hall x hx⟩
  -- a drop that is an invalidation has the type of the expected event
  cases drops with
  | nil => rfl
  | cons d drops =>
    have hd : HasType d.2 "invalidate" := by
      have hinv := hall d.2 List.mem_cons_self
      rw [hexpect] at hinv
      exact of_decide_eq_true hinv
    have htype := hd.unique (h.drops d List.mem_cons_self)
    have he : HasType e "invalidate" := of_decide_eq_true (h.closed hm hexpect).1
    rw [htype] at he
    exact absurd he hother

theorem consumed_of_consumable
    (h : Scenario docEq dropType expectedNext expectInvalidate id drops e rest)
    (hm : Matches docEq expectedNext e) (hc : Consumable dropType expectInvalidate drops e) :
    consumeDropUpTo docEq cursor dropType expectedNext expectInvalidate
      (unread id (drops ++ [(n, e)]) ++ rest) =
        (.ok (drops.map Prod.snd ++ [e]), if expectInvalidate then rest.tail else rest) := by
  have hlen := @length_lt id drops n e rest
  rw [consumeDropUpTo_eq]
  generalize (unread id (drops ++ [(n, e)]) ++ rest).length = fuel at hlen
  cases expectInvalidate with
  | true =>
    obtain rfl := hc.noDrops rfl
    obtain ⟨hinv, closing, after, rfl, hid⟩ := h.closed hm rfl
    have hfirst : getOneChange docEq cursor true (unread id ([] ++ [(n, e)]) ++ some closing :: after) =
        (.ok e, after) := getOneChange_unread.trans (check_closed hinv hid)
    rw [bind_eq_of_ok hfirst]
    match fuel, hlen with
    | fuel + 1, _ => exact consumeLoop_expected hc.other hm
  | false =>
    have hnone := hc.noInvalidation rfl
    cases drops with
    | nil =>
      have hinv : isInvalidated e = false := hnone e (List.mem_singleton_self e)
      have hfirst : getOneChange docEq cursor false (unread id ([] ++ [(n, e)]) ++ rest) =
          (.ok e, rest) := getOneChange_unread.trans (check_false hinv)
      rw [bind_eq_of_ok hfirst]
      match fuel, hlen with
      | fuel + 1, _ => exact consumeLoop_expected hc.other hm
    | cons d drops =>
      obtain ⟨hd, hdrops⟩ := List.forall_mem_cons.mp h.drops
      have hinv : ∀ x ∈ d :: drops, isInvalidated x.2 = false := fun x hx =>
        hnone x.2 (List.mem_append_left _ (List.mem_map_of_mem hx))
      have hfirst : getOneChange docEq cursor false (unread id (d :: drops ++ [(n, e)]) ++ rest) =
          (.ok d.2, unread id (drops ++ [(n, e)]) ++ rest) :=
        getOneChange_unread.trans (check_false (hinv d List.mem_cons_self))
      rw [bind_eq_of_ok hfirst]
      exact consumeLoop_unread hd
        (fun x hx => ⟨hdrops x hx, hinv x (List.mem_cons_of_mem _ hx)⟩) hc.other
        (hnone e (List.mem_append_right _ (List.mem_singleton_self e))) hm hlen

theorem fails_of_not_matches
    (h : Scenario docEq dropType expectedNext expectInvalidate id drops e rest)
    (hm : ¬ Matches docEq expectedNext e) :
    Fails (consumeDropUpTo docEq cursor dropType expectedNext expectInvalidate
      (unread id (drops ++ [(n, e)]) ++ rest)) := by
  have hlen := @length_lt id drops n e rest
  rw [consumeDropUpTo_eq]
  generalize (unread id (drops ++ [(n, e)]) ++ rest).length = fuel at hlen
  cases drops with
  | nil =>
    have hfirst : getOneChange docEq cursor expectInvalidate (unread id ([] ++ [(n, e)]) ++ rest) =
        check expectInvalidate e rest := getOneChange_unread
    match hcheck : check expectInvalidate e rest with
    | (.ok c, t) =>
      obtain ⟨rfl, -⟩ := wp_check.ok hcheck
      rw [bind_eq_of_ok (hfirst.trans hcheck)]
      match fuel, hlen with
      | fuel + 1, _ => exact fails_consumeLoop_other (h.other hm) hm
    | (.error err, t) => exact ⟨err, t, bind_eq_of_error (hfirst.trans hcheck)⟩
    | (.stop, t) => exact (wp_check.stop hcheck).elim
  | cons d drops =>
    obtain ⟨hd, hdrops⟩ := List.forall_mem_cons.mp h.drops
    have hfirst : getOneChange docEq cursor expectInvalidate
        (unread id (d :: drops ++ [(n, e)]) ++ rest) =
          check expectInvalidate d.2 (unread id (drops ++ [(n, e)]) ++ rest) := getOneChange_unread
    cases expectInvalidate with
    | true =>
      -- the stream goes on, whatever has come
      have hfails : Fails (check true d.2 (unread id (drops ++ [(n, e)]) ++ rest)) :=
        fails_check_true fun _ closing after heq => id_of_unread heq ▸ h.open_
      obtain ⟨err, t, hfails⟩ := hfails
      exact ⟨err, t, bind_eq_of_error (hfirst.trans hfails)⟩
    | false =>
      cases hinv : isInvalidated d.2 with
      | true =>
        obtain ⟨err, t, hfails⟩ := fails_check_false (s := unread id (drops ++ [(n, e)]) ++ rest) hinv
        exact ⟨err, t, bind_eq_of_error (hfirst.trans hfails)⟩
      | false =>
        rw [bind_eq_of_ok (hfirst.trans (check_false hinv))]
        exact fails_consumeLoop_unread hd hdrops (h.other hm) hm hlen

/-- **Drops are consumed up to the expected event**: for a stream that delivers drops and then
another event, with any number of empty batches before each, the drops and the expected event are
returned and nothing else is read, and an event that is not expected makes it throw, exactly when
the expected event, if it comes, is no drop, comes first where an invalidation is expected, and
comes without invalidations where none is. -/
theorem consumeDropUpTo_iff
    (h : Scenario docEq dropType expectedNext expectInvalidate id drops e rest) :
    Consumed docEq cursor dropType expectedNext expectInvalidate id drops n e rest ↔
      (Matches docEq expectedNext e → Consumable dropType expectInvalidate drops e) :=
  ⟨fun hc hm => consumable_of_upTo h hm (upTo_of_consumeDropUpTo (hc.1 hm)),
    fun hc => ⟨fun hm => consumed_of_consumable h hm (hc hm), fails_of_not_matches h⟩⟩

/-- Documents of strings are compared field by field, in any order. -/
def stringsEq : DocEq := fun doc doc' => doc.length = doc'.length && doc.all fun p =>
  match p.2, doc'.get p.1 with
  | .string s, .string s' => s = s'
  | _, _ => false

def dropEvent : Object := [("_id", .string "1"), ("operationType", .string "drop")]

def invalidateEvent : Object := [("_id", .string "2"), ("operationType", .string "invalidate")]

def insertEvent : Object := [("_id", .string "3"), ("operationType", .string "insert")]

/-- Two drops, with an empty batch between them, and an insert. -/
theorem consumeDropUpTo_two_drops :
    Consumed stringsEq ⟨7, []⟩ "drop" [("operationType", .string "insert")] false 7
      [(0, dropEvent), (1, dropEvent)] 0 insertEvent [] := by
  have hm : Matches stringsEq [("operationType", .string "insert")] insertEvent := by
    unfold Matches
    decide
  refine (consumeDropUpTo_iff ⟨by decide, by decide, fun h => absurd hm h, ?_⟩).mpr fun _ =>
    ⟨by decide, ?_, fun _ => by decide⟩
  · intro _ h
    cases h
  · intro h
    cases h

/-- **A drop before the invalidation of the stream** is taken for it. -/
theorem drop_before_invalidate :
    Scenario stringsEq "drop" [("operationType", .string "invalidate")] true 7 [(0, dropEvent)]
      invalidateEvent [some ⟨0, []⟩] ∧
    ¬ Consumed stringsEq ⟨7, []⟩ "drop" [("operationType", .string "invalidate")] true 7
      [(0, dropEvent)] 0 invalidateEvent [some ⟨0, []⟩] := by
  have hm : Matches stringsEq [("operationType", .string "invalidate")] invalidateEvent := by
    unfold Matches
    decide
  have hscenario : Scenario stringsEq "drop" [("operationType", .string "invalidate")] true 7
      [(0, dropEvent)] invalidateEvent [some ⟨0, []⟩] :=
    ⟨by decide, by decide, fun h => absurd hm h, fun _ _ => ⟨by decide, ⟨0, []⟩, [], rfl, rfl⟩⟩
  refine ⟨hscenario, fun hc => ?_⟩
  have hconsumable := consumable_of_upTo hscenario hm (upTo_of_consumeDropUpTo (hc.1 hm))
  exact absurd (hconsumable.noDrops rfl) (List.cons_ne_nil _ _)

end Consume

end MongoTests.ChangeStreams
