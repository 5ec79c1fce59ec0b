import MongoTests.Override.Transaction

/-!
# Proof rules for the parts of the override

The rules that every property of the override uses: the log functions do not fire while `Level`
holds, the entry and the `finally` of `runCommandOverride` fit together, the catch clause either
retries or passes the exception on, and a contract that survives `raise` survives the assertions.

* `Level`, `wp_raise`, `wp_log`, `wp_isNested`, `wp_clientFunction`, `wp_tryWith`;
* `Raises`, with `holds_jsAssert` and its kin;
* `SafeFailure`, `networkErrorVerdict_pass`: which responses are not passed up as they came;
* `onException_eq`: what the catch clause does with an exception that it does not retry.
-/

namespace MongoTests.Override

open MongoTests.Lib Prog

variable {α β : Type} {env : Shell} {s : State}

/-! ## Rules for the constructs -/

section Constructs

variable {Q : α → State → Prop} {E : Exn → State → Prop} {S : State → Prop}

theorem wp_raise (e : Exn) : wp (raise e : M α) Q E S s ↔ E e (s.note e) := by
  rw [raise, wp_bind, wp_modify, wp_throw]

theorem jsAssert_true (text : String) : jsAssert true text = pure () := rfl

theorem wp_jsAssert {c : Bool} {text : String} {Q : Unit → State → Prop} :
    wp (jsAssert c text) Q E S s ↔
      (c = true → Q () s) ∧ (c = false → E (error text) (s.note (error text))) := by
  cases c <;> simp [jsAssert, wp_raise, wp_pure]

/-- The assertion of the log functions. -/
def Level (s : State) : Prop := s.nestingLevel = s.currentCommandID.length

theorem level_enter (hl : Level s) : Level (enter s) := by
  simpa [Level, enter] using hl

theorem log_eq (hl : Level s) : log s = (.ok (), s) := by
  have hl' : decide (s.nestingLevel = s.currentCommandID.length) = true := decide_eq_true hl
  rw [log, get_bind_apply, hl', jsAssert_true]
  rfl

theorem wp_log (hl : Level s) {Q : Unit → State → Prop} : wp log Q E S s ↔ Q () s := by
  rw [wp_of_eq (log_eq hl)]
  rfl

theorem wp_isNested (h : 0 < s.nestingLevel) {Q : Bool → State → Prop} :
    wp isNested Q E S s ↔ Q (decide (s.nestingLevel ≠ 1)) s := by
  simp only [isNested, jsAssert, h, decide_true, if_true, wp_bind, wp_get, wp_pure]

theorem wp_when {c : Bool} {m : M Unit} {Q : Unit → State → Prop} :
    wp (when c m) Q E S s ↔ (c = true → wp m Q E S s) ∧ (c = false → Q () s) := by
  rw [Override.when, wp_ite, wp_pure, Bool.not_eq_true]

theorem wp_clientFunction {dbName : String} {cmdObj : Cmd} {Q : Response → State → Prop}
    (hstop : S s)
    (h : ∀ ans answers server, s.server.handle ⟨dbName, cmdObj⟩ ans = some server →
      wp (ofExcept ans.result) Q E S
        { s with answers := answers, server := server, now := ans.now }) :
    wp (clientFunction dbName cmdObj) Q E S s := by
  unfold wp clientFunction
  split
  · exact hstop
  · rename_i ans answers _
    split
    · exact hstop
    · rename_i server hs
      exact h ans answers server hs

theorem wp_tryWith {c : Catch} {m : M α} {h : Exn → M α} :
    wp (tryWith c m h) Q E S s ↔
      wp m (fun a t => Q a t.leaveTry) (fun e t => wp (h e) Q E S t.leaveTry) S (s.enterTry c) := by
  rw [tryWith, wp_tryCatch, wp_ensuring, wp_bind, wp_modify]

end Constructs

/-! ## Contracts that survive an exception -/

section Raises

variable {C : Contract State Exn}

/-- A new exception keeps the contract. -/
def Raises (C : Contract State Exn) : Prop := ∀ (α : Type) (e : Exn), C.Holds (raise e : M α)

theorem holds_when {c : Bool} {m : M Unit} (h : C.Holds m) : C.Holds (when c m) := .ite h (.pure ())

theorem holds_ofExcept (hC : Raises C) (x : Except Exn α) : C.Holds (ofExcept x) := by
  cases x with
  | ok a => exact .pure a
  | error e => exact hC α e

theorem holds_jsAssert (hC : Raises C) (c : Bool) (text : String) : C.Holds (jsAssert c text) :=
  .ite (.pure ()) (hC Unit _)

theorem holds_log (hC : Raises C) : C.Holds log := .get_bind fun _ => holds_jsAssert hC _ _

theorem holds_isNested (hC : Raises C) : C.Holds isNested :=
  .get_bind fun _ => .bind (holds_jsAssert hC _ _) fun _ => .pure _

theorem holds_assertCommandWorked (hC : Raises C) (res : Response) :
    C.Holds (assertCommandWorked env res) := .ite (.pure ()) (hC Unit _)

theorem holds_processNetworkResponse (hC : Raises C) (res : Response) (c : Catch) :
    C.Holds (processNetworkResponse env res c) := by
  refine .ite (.bind (.bind (holds_jsAssert hC _ _) fun _ => ?_) fun networkRetryRes => ?_) (.pure _)
  · cases networkErrorVerdict env c.cmdObj.name true res with
    | kContinue => exact .bind (holds_log hC) fun _ => .pure _
    | pass res logged => exact .bind (holds_when (holds_log hC)) fun _ => .pure _
    | typeError => exact hC _ _
  · cases networkRetryRes <;> exact .pure _

theorem holds_validate (hC : Raises C) (cmdObj : Cmd) : C.Holds (validate env cmdObj) :=
  holds_when (.bind (holds_isNested hC) fun _ => holds_when (.get_bind fun _ =>
    .bind (holds_jsAssert hC _ _) fun _ => holds_ofExcept hC _))

end Raises

/-! ## Responses that are passed up -/

section Verdicts

variable {res res' : Response} {v : Verdict} {logged : Bool} {cmdName : String}

variable (env) in
/-- A failed response with a safe code, and nothing in it asks for a retry. -/
structure SafeFailure (cmdName : String) (res : Response) : Prop where
  failed : res.ok = false
  acceptable : isAcceptableRetryFailedResponse env cmdName res = true
  code : isRetryableCode env res.code = false
  executor : isRetryableExecutorCodeAndMessage env res.code res.errmsg = false
  command : retryableByCommand env cmdName res = false
  writeConcern : (hasWriteConcernError res && res.writeErrors.isEmpty &&
    isRetryableCode env res.writeConcernError) = false

theorem pass_of_ite {c : Prop} [Decidable c] (h : (if c then .kContinue else v) = .pass res logged) :
    ¬ c ∧ v = .pass res logged := by
  split at h
  · cases h
  · next hc => exact ⟨hc, h⟩

theorem pass_of_match {o : Option Bool}
    (h : (match o with | none => Verdict.typeError | some true => .kContinue | some false => v) =
      .pass res logged) : v = .pass res logged := by
  cases o with
  | none => cases h
  | some b =>
    cases b with
    | true => cases h
    | false => exact h

/-- A response that is passed up is the one that came, unless it is a safe failure. -/
theorem networkErrorVerdict_pass (h : networkErrorVerdict env cmdName true res = .pass res' logged) :
    res' = res ∨ SafeFailure env cmdName res := by
  obtain ⟨ok, code, errmsg, labels, writeErrors, wce, cursorId, stats, raw⟩ := res
  rw [networkErrorVerdict] at h
  split at h
  · -- a retryable write
    obtain ⟨-, h⟩ := pass_of_ite h
    cases h
    exact .inl rfl
  · obtain ⟨-, h⟩ := pass_of_ite h
    replace h := pass_of_match h
    cases ok with
    | true =>
      obtain ⟨-, h⟩ := pass_of_ite h
      cases h
      exact .inl rfl
    | false =>
      obtain ⟨hretry, h⟩ := pass_of_ite h
      replace h := pass_of_match h
      obtain ⟨hcommand, h⟩ := pass_of_ite h
      obtain ⟨hcode, hexecutor⟩ := not_or.mp hretry
      split at h
      · cases h
        exact .inl rfl
      · next haccept =>
        obtain ⟨hwc, -⟩ := pass_of_ite h
        refine .inr ⟨rfl, ?_, Bool.eq_false_iff.mpr hcode, Bool.eq_false_iff.mpr hexecutor,
          Bool.eq_false_iff.mpr hcommand, ?_⟩
        · simpa using haccept
        · simpa [hasWriteConcernError, hasError] using hwc

end Verdicts

/-! ## The catch clause -/

section Catching

variable {run : String → Cmd → M Response} {e : Exn} {c : Catch} {lsid : Option ℕ}

theorem configuredForNetworkRetry_of_canRetry {cmdObj : Cmd}
    (h : canRetryNetworkErrorForCommand env cmdObj = true) : env.configuredForNetworkRetry = true := by
  unfold canRetryNetworkErrorForCommand at h
  by_contra hn
  simp [hn] at h

theorem onNetworkException_eq (hl : Level s)
    (hc : (canRetryNetworkErrorForCommand env c.cmdObj &&
      (networkExceptionVerdict env s.now c e).isSome) = false) :
    onNetworkException env e c s = (.error e, s) := by
  unfold onNetworkException
  cases hcan : canRetryNetworkErrorForCommand env c.cmdObj with
  | false => rfl
  | true =>
    have hverdict : networkExceptionVerdict env s.now c e = none := by simpa [hcan] using hc
    have hnet := configuredForNetworkRetry_of_canRetry hcan
    rw [if_pos rfl]
    refine bind_eq_of_error ?_
    rw [shouldRetryWithNetworkExceptionOverride, hnet, jsAssert_true, pure_bind_apply,
      get_bind_apply, bind_eq_of_ok (log_eq hl), hverdict]
    rfl

/-- The catch clause throws an exception that it does not retry, and does nothing before. -/
theorem onException_eq (hl : Level s) (hc : c.retries env s.now e = false) :
    onException env run e lsid c s = (.error e, s) := by
  obtain ⟨htxn, hnet⟩ : (env.configuredForTxnOverride && retriesTxnException env c.cmdObj e) = false ∧
      (canRetryNetworkErrorForCommand env c.cmdObj &&
        (networkExceptionVerdict env s.now c e).isSome) = false := by
    simpa only [Catch.retries, Bool.or_eq_false_iff] using hc
  unfold onException
  cases hcfg : env.configuredForTxnOverride with
  | false => exact onNetworkException_eq hl hnet
  | true =>
    have hno : retriesTxnException env c.cmdObj e = false := by simpa [hcfg] using htxn
    have hnot : retriesTransient e.errorLabels c.cmdObj = false := by
      simp only [retriesTxnException, Bool.or_eq_false_iff] at hno
      exact hno.1
    have hnull : retryWithTxnOverrideException env run e c.cmdObj lsid s = (.ok none, s) := by
      rw [retryWithTxnOverrideException, hcfg, jsAssert_true, pure_bind_apply, hnot, hno]
      rfl
    rw [if_pos rfl, bind_eq_of_ok hnull]
    exact onNetworkException_eq hl hnet

/-- The retries that are left when the network part of the catch clause retries. -/
def Catch.retriesLeft (c : Catch) (decrement : Bool) : ℤ :=
  if decrement then c.numNetworkErrorRetries - 1 else c.numNetworkErrorRetries

/-- The network part of the catch clause retries the command: it only sets the retry flag. -/
theorem wp_onNetworkException {Q : Pass → State → Prop} {E : Exn → State → Prop} {S : State → Prop}
    (hl : Level s)
    (hcan : canRetryNetworkErrorForCommand env c.cmdObj = true)
    (hverdict : (networkExceptionVerdict env s.now c e).isSome = true)
    (h : ∀ decrement, networkExceptionVerdict env s.now c e = some decrement →
      Q (.again (c.retriesLeft decrement)) { s with inCommandNetworkErrorRetry := true }) :
    wp (onNetworkException env e c) Q E S s := by
  obtain ⟨decrement, hd⟩ := Option.isSome_iff_exists.1 hverdict
  have hnet := configuredForNetworkRetry_of_canRetry hcan
  rw [onNetworkException, if_pos hcan, shouldRetryWithNetworkExceptionOverride, hnet]
  simp only [jsAssert, if_true, wp_bind, wp_pure, wp_get, wp_log hl, hd, wp_when, wp_modify]
  exact ⟨fun _ => h _ hd, fun _ => h _ hd⟩

/-- The catch clause retries: the transaction, or the command. -/
theorem wp_onException {Q : Pass → State → Prop} {E : Exn → State → Prop} {S : State → Prop}
    (hl : Level s)
    (hc : c.retries env s.now e = true)
    (htransient : wp (retryAfterTransient env run c.cmdObj lsid) (fun res => Q (.done res)) E S s)
    (htxn : env.configuredForNetworkRetry = true →
      canRetryNetworkErrorForCommand env c.cmdObj = false →
      wp (retryEntireTransaction env run) (fun res => Q (.done res)) E S s)
    (hnetwork : canRetryNetworkErrorForCommand env c.cmdObj = true →
      ∀ decrement, networkExceptionVerdict env s.now c e = some decrement →
      Q (.again (c.retriesLeft decrement)) { s with inCommandNetworkErrorRetry := true }) :
    wp (onException env run e lsid c) Q E S s := by
  have hnet : ¬ (env.configuredForTxnOverride && retriesTxnException env c.cmdObj e) = true →
      wp (onNetworkException env e c) Q E S s := by
    intro hno
    simp only [Catch.retries, hno, Bool.false_or, Bool.and_eq_true] at hc
    exact wp_onNetworkException hl hc.1 hc.2 (hnetwork hc.1)
  unfold onException
  cases hcfg : env.configuredForTxnOverride with
  | false => exact hnet (by simp [hcfg])
  | true =>
    rw [if_pos rfl, retryWithTxnOverrideException, hcfg]
    simp only [jsAssert, if_true, wp_bind, wp_pure]
    by_cases ht : retriesTransient e.errorLabels c.cmdObj = true
    · simp only [ht, if_true, wp_bind, wp_pure]
      exact htransient
    · by_cases hr : retriesTxnException env c.cmdObj e = true
      · simp only [ht, hr, Bool.false_eq_true, if_true, if_false, wp_bind, wp_pure, wp_log hl]
        simp only [retriesTxnException, ht, Bool.false_or, Bool.and_eq_true, Bool.not_eq_true'] at hr
        exact htxn hr.1.1 hr.2
      · simp only [ht, hr, Bool.false_eq_true, if_false, wp_pure]
        exact hnet (by simp [hr])

/-- The catch clause, whatever it does. -/
theorem wp_catch {Q : Pass → State → Prop} {E : Exn → State → Prop} {S : State → Prop}
    (hl : Level s) (hthrow : E e s)
    (htransient : wp (retryAfterTransient env run c.cmdObj lsid) (fun res => Q (.done res)) E S s)
    (htxn : env.configuredForNetworkRetry = true →
      canRetryNetworkErrorForCommand env c.cmdObj = false →
      wp (retryEntireTransaction env run) (fun res => Q (.done res)) E S s)
    (hnetwork : canRetryNetworkErrorForCommand env c.cmdObj = true →
      ∀ decrement, networkExceptionVerdict env s.now c e = some decrement →
      Q (.again (c.retriesLeft decrement)) { s with inCommandNetworkErrorRetry := true }) :
    wp (onException env run e lsid c) Q E S s := by
  cases hc : c.retries env s.now e with
  | false =>
    rw [wp_of_eq (onException_eq hl hc)]
    exact hthrow
  | true => exact wp_onException hl hc htransient htxn hnetwork

end Catching

end MongoTests.Override
