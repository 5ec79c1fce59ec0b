import MongoTests.Lib.Machine

/-!
# Test locks

`waitForLock` of `jstests/libs/test_background_ops.js`: a lock is a document of `config.testLocks`,
which clients create, take and release by updates. The server executes one update at a time, and every
call makes an `ObjectId` of its own, which names its handle.

* `Filter`, `Change`, `update`: an update of one document, with or without upsert.
* `Handle`, `step`: the statements of `waitForLock`, and `unlock`, of any number of handles.
* `Inv`: a locked document holds the id of the handle that has the lock.
* **`lock_mutual_exclusion`**: who has a lock, and what a late `unlock` does.
-/

namespace MongoTests.BackgroundOps.WaitForLock

open MongoTests.Lib

/-! ## The collection -/

/-- A document of `config.testLocks`, under its `_id`. -/
structure Doc (Id : Type*) where
  state : ℕ
  ts : Option Id
  deriving DecidableEq, Repr

abbrev Collection (Name Id : Type*) := Name → Option (Doc Id)

/-- A filter by `_id`, and by the fields that it gives. -/
structure Filter (Name Id : Type*) where
  id : Name
  state : Option ℕ := none
  ts : Option Id := none

/-- The fields of `$set`. -/
structure Change (Id : Type*) where
  state : ℕ
  ts : Option Id := none

variable {Name Id : Type*} [DecidableEq Id]

def Filter.matches (f : Filter Name Id) (doc : Doc Id) : Bool :=
  f.state.all (fun state => decide (doc.state = state)) &&
    f.ts.all fun ts => decide (doc.ts = some ts)

def Change.apply (c : Change Id) (doc : Doc Id) : Doc Id := ⟨c.state, c.ts.orElse fun _ => doc.ts⟩

/-- `update`: the collection after it, and the number `n` of `getLastError`. An upsert inserts the
fields of the filter and of the change; where the `_id` is taken it fails without effect. -/
def update [DecidableEq Name] (docs : Collection Name Id) (f : Filter Name Id) (c : Change Id)
    (upsert : Bool) : Collection Name Id × ℕ :=
  match docs f.id with
  | some doc =>
    if f.matches doc then (Function.update docs f.id (some (c.apply doc)), 1) else (docs, 0)
  | none =>
    if upsert then
      (Function.update docs f.id (some (c.apply ⟨f.state.getD 0, f.ts⟩)), 1)
    else (docs, 0)

/-! ## Handles -/

/-- Where a call of `waitForLock` is, and its handle after that. -/
inductive Handle (Name : Type*)
  | notCalled
  /-- Before the update that creates the document. -/
  | creating (name : Name)
  | acquiring (name : Name)
  /-- `assert.soon` has timed out. -/
  | timedOut
  /-- The acquiring update has succeeded, and `unlock` has not been called. -/
  | locked (name : Name)
  | unlocked (name : Name)
  deriving DecidableEq, Repr

structure State (Name Id : Type*) where
  docs : Collection Name Id
  handles : Id → Handle Name

inductive Act (Name : Type*)
  | waitForLock (name : Name)
  /-- The next update of the call. -/
  | next
  | timeOut
  | unlock
  deriving DecidableEq, Repr

def State.set (s : State Name Id) (docs : Collection Name Id) (i : Id) (h : Handle Name) :
    State Name Id :=
  ⟨docs, Function.update s.handles i h⟩

@[simp] theorem State.docs_set (s : State Name Id) (docs : Collection Name Id) (i : Id)
    (h : Handle Name) : (s.set docs i h).docs = docs := rfl

theorem State.handles_set_self (s : State Name Id) (docs : Collection Name Id) (i : Id)
    (h : Handle Name) : (s.set docs i h).handles i = h := Function.update_self _ _ _

theorem State.handles_set_of_ne (s : State Name Id) (docs : Collection Name Id) {i j : Id}
    (hne : j ≠ i) (h : Handle Name) : (s.set docs i h).handles j = s.handles j :=
  Function.update_of_ne hne _ _

variable [DecidableEq Name]

/-- The update of `unlock`. -/
def unlock (docs : Collection Name Id) (name : Name) (ts : Id) : Collection Name Id :=
  (update docs { id := name, ts := some ts } { state := 0 } false).1

/-- One update by the handle with id `ts`. -/
def step (s : State Name Id) : Id × Act Name → Option (State Name Id)
  | (ts, a) =>
    match s.handles ts, a with
    | .notCalled, .waitForLock name => some (s.set s.docs ts (.creating name))
    | .creating name, .next =>
      let r := update s.docs { id := name, state := some 0 } { state := 0 } true
      some (s.set r.1 ts (.acquiring name))
    | .acquiring name, .next =>
      let r := update s.docs { id := name, state := some 0 } { state := 1, ts := some ts } false
      some (s.set r.1 ts (if r.2 = 1 then .locked name else .acquiring name))
    | .acquiring _, .timeOut => some (s.set s.docs ts .timedOut)
    | .locked name, .unlock | .unlocked name, .unlock =>
      some (s.set (unlock s.docs name ts) ts (.unlocked name))
    | _, _ => none

/-- No lock was made yet. -/
def initial (Name Id : Type*) : State Name Id := ⟨fun _ => none, fun _ => .notCalled⟩

/-! ## What a step can do -/

section Updates

variable {docs : Collection Name Id} {name : Name} {doc : Doc Id} {ts : Id}

theorem create_of_none (h : docs name = none) :
    (update docs { id := name, state := some 0 } { state := 0 } true).1 =
      Function.update docs name (some ⟨0, none⟩) := by
  simp only [update, h]
  rfl

/-- The initialising update has no effect on a document that exists. -/
theorem create_of_some (h : docs name = some doc) :
    (update docs { id := name, state := some 0 } { state := 0 } true).1 = docs := by
  simp only [update, h]
  split_ifs with hmatch
  · have hstate : doc.state = 0 := by simpa [Filter.matches] using hmatch
    have hdoc : (Change.apply { state := 0 } doc) = doc := by
      rw [Change.apply, ← hstate]
      rfl
    rw [hdoc, ← h, Function.update_eq_self]
  · rfl

theorem acquire_of_free (h : docs name = some doc) (hstate : doc.state = 0) :
    update docs { id := name, state := some 0 } { state := 1, ts := some ts } false =
      (Function.update docs name (some ⟨1, some ts⟩), 1) := by
  simp only [update, h]
  rw [if_pos (by simp [Filter.matches, hstate])]
  rfl

theorem acquire_of_taken (h : ∀ doc, docs name = some doc → doc.state ≠ 0) :
    update docs { id := name, state := some 0 } { state := 1, ts := some ts } false =
      (docs, 0) := by
  cases hdoc : docs name with
  | none => simp [update, hdoc]
  | some doc =>
    simp only [update, hdoc]
    rw [if_neg (by simp [Filter.matches, h doc hdoc])]

theorem unlock_of_owner (h : docs name = some doc) (hts : doc.ts = some ts) :
    unlock docs name ts = Function.update docs name (some ⟨0, some ts⟩) := by
  simp only [unlock, update, h]
  rw [if_pos (by simp [Filter.matches, hts])]
  simp [Change.apply, hts]

theorem unlock_of_other (h : ∀ doc, docs name = some doc → doc.ts ≠ some ts) :
    unlock docs name ts = docs := by
  cases hdoc : docs name with
  | none => simp [unlock, update, hdoc]
  | some doc =>
    simp only [unlock, update, hdoc]
    rw [if_neg (by simp [Filter.matches, h doc hdoc])]

end Updates

/-- What a step of the handle with id `ts` can do to it and to the collection. -/
inductive Moves (s : State Name Id) (ts : Id) : State Name Id → Prop
  | call (name : Name) : s.handles ts = .notCalled → Moves s ts (s.set s.docs ts (.creating name))
  | create (name : Name) : s.handles ts = .creating name → s.docs name = none →
      Moves s ts (s.set (Function.update s.docs name (some ⟨0, none⟩)) ts (.acquiring name))
  | present (name : Name) : s.handles ts = .creating name → s.docs name ≠ none →
      Moves s ts (s.set s.docs ts (.acquiring name))
  | acquire (name : Name) (doc : Doc Id) : s.handles ts = .acquiring name →
      s.docs name = some doc → doc.state = 0 →
      Moves s ts (s.set (Function.update s.docs name (some ⟨1, some ts⟩)) ts (.locked name))
  | retry (name : Name) : s.handles ts = .acquiring name →
      Moves s ts (s.set s.docs ts (.acquiring name))
  | timeOut (name : Name) : s.handles ts = .acquiring name → Moves s ts (s.set s.docs ts .timedOut)
  | release (name : Name) (doc : Doc Id) :
      s.handles ts = .locked name ∨ s.handles ts = .unlocked name →
      s.docs name = some doc → doc.ts = some ts →
      Moves s ts (s.set (Function.update s.docs name (some ⟨0, some ts⟩)) ts (.unlocked name))
  | late (name : Name) : s.handles ts = .locked name ∨ s.handles ts = .unlocked name →
      (∀ doc, s.docs name = some doc → doc.ts ≠ some ts) →
      Moves s ts (s.set s.docs ts (.unlocked name))

theorem moves_unlock {s : State Name Id} {ts : Id} {name : Name}
    (h : s.handles ts = .locked name ∨ s.handles ts = .unlocked name) :
    Moves s ts (s.set (unlock s.docs name ts) ts (.unlocked name)) := by
  by_cases howner : ∃ doc, s.docs name = some doc ∧ doc.ts = some ts
  · obtain ⟨doc, hdoc, hts⟩ := howner
    rw [unlock_of_owner hdoc hts]
    exact .release name doc h hdoc hts
  · have hother : ∀ doc, s.docs name = some doc → doc.ts ≠ some ts :=
      fun doc hdoc hts => howner ⟨doc, hdoc, hts⟩
    rw [unlock_of_other hother]
    exact .late name h hother

theorem moves_of_step {s s' : State Name Id} {ts : Id} {a : Act Name}
    (h : step s (ts, a) = some s') : Moves s ts s' := by
  unfold step at h
  dsimp only at h
  split at h
  · cases h
    exact .call _ ‹_›
  · rename_i name hhandle
    cases h
    cases hdoc : s.docs name with
    | none =>
      rw [create_of_none hdoc]
      exact .create name hhandle hdoc
    | some doc =>
      rw [create_of_some hdoc]
      exact .present name hhandle (by simp [hdoc])
  · rename_i name hhandle
    cases h
    by_cases hfree : ∃ doc, s.docs name = some doc ∧ doc.state = 0
    · obtain ⟨doc, hdoc, hstate⟩ := hfree
      rw [acquire_of_free hdoc hstate]
      exact .acquire name doc hhandle hdoc hstate
    · rw [acquire_of_taken fun doc hdoc hstate => hfree ⟨doc, hdoc, hstate⟩]
      exact .retry name hhandle
  · cases h
    exact .timeOut _ ‹_›
  · cases h
    exact moves_unlock (.inl ‹_›)
  · cases h
    exact moves_unlock (.inr ‹_›)
  · cases h

/-! ## Who has a lock -/

/-- A handle that has a lock is in its document, a locked document holds a handle that has the lock,
and it holds no handle that never had it. -/
structure Inv (s : State Name Id) : Prop where
  locked : ∀ ts name, s.handles ts = .locked name → s.docs name = some ⟨1, some ts⟩
  held : ∀ name doc, s.docs name = some doc → doc.state = 0 ∨
    ∃ ts, doc = ⟨1, some ts⟩ ∧ s.handles ts = .locked name
  owner : ∀ name doc ts, s.docs name = some doc → doc.ts = some ts →
    s.handles ts = .locked name ∨ s.handles ts = .unlocked name

section Steps

variable {s s' : State Name Id} {ts : Id} {name : Name}

omit [DecidableEq Name] in
/-- A handle that never had a lock moves, and takes none. -/
theorem Inv.quiet (h : Inv s) {p : Handle Name} (hlocked : ∀ name, s.handles ts ≠ .locked name)
    (hunlocked : ∀ name, s.handles ts ≠ .unlocked name) (hp : ∀ name, p ≠ .locked name) :
    Inv (s.set s.docs ts p) := by
  have hother : ∀ t name, s.handles t = .locked name ∨ s.handles t = .unlocked name →
      (s.set s.docs ts p).handles t = s.handles t := by
    intro t name ht
    refine State.handles_set_of_ne _ _ ?_ _
    rintro rfl
    exact ht.elim (hlocked name) (hunlocked name)
  refine ⟨fun t name ht => ?_, fun name doc hdoc => ?_, fun name doc t hdoc hts => ?_⟩
  · by_cases heq : t = ts
    · rw [heq, State.handles_set_self] at ht
      exact absurd ht (hp name)
    · rw [State.handles_set_of_ne _ _ heq] at ht
      exact h.locked t name ht
  · refine (h.held name doc hdoc).imp_right ?_
    rintro ⟨t, hdoc, ht⟩
    exact ⟨t, hdoc, (hother t name (.inl ht)).trans ht⟩
  · have ht := h.owner name doc t hdoc hts
    rw [hother t name ht]
    exact ht

/-- The handle `ts` leaves `⟨state, some ts⟩` in the document of its lock. -/
theorem Inv.write (h : Inv s) {p : Handle Name} {state : ℕ}
    (hp : p = .locked name ∧ state = 1 ∨ p = .unlocked name ∧ state = 0)
    (hfree : ∀ t, t ≠ ts → s.handles t ≠ .locked name)
    (hother : ∀ other, other ≠ name → s.handles ts ≠ .locked other ∧ s.handles ts ≠ .unlocked other) :
    Inv (s.set (Function.update s.docs name (some ⟨state, some ts⟩)) ts p) := by
  refine ⟨fun t other ht => ?_, fun other doc hdoc => ?_, fun other doc t hdoc hts => ?_⟩
  · by_cases heq : t = ts
    · rw [heq, State.handles_set_self] at ht
      obtain ⟨hlocked, rfl⟩ | ⟨hunlocked, -⟩ := hp
      · rw [hlocked] at ht
        cases ht
        rw [heq]
        exact Function.update_self _ _ _
      · rw [hunlocked] at ht
        cases ht
    · rw [State.handles_set_of_ne _ _ heq] at ht
      have hname : other ≠ name := by
        rintro rfl
        exact hfree t heq ht
      rw [State.docs_set, Function.update_of_ne hname]
      exact h.locked t other ht
  · by_cases hname : other = name
    · rw [hname, State.docs_set, Function.update_self] at hdoc
      cases hdoc
      obtain ⟨hlocked, rfl⟩ | ⟨-, rfl⟩ := hp
      · exact .inr ⟨ts, rfl, by rw [State.handles_set_self, hlocked, hname]⟩
      · exact .inl rfl
    · rw [State.docs_set, Function.update_of_ne hname] at hdoc
      refine (h.held other doc hdoc).imp_right ?_
      rintro ⟨t, rfl, ht⟩
      refine ⟨t, rfl, ?_⟩
      rw [State.handles_set_of_ne _ _ ?_]
      · exact ht
      · rintro rfl
        exact (hother other hname).1 ht
  · by_cases hname : other = name
    · rw [hname, State.docs_set, Function.update_self] at hdoc
      cases hdoc
      cases hts
      rw [State.handles_set_self, hname]
      exact hp.imp And.left And.left
    · rw [State.docs_set, Function.update_of_ne hname] at hdoc
      have ht := h.owner other doc t hdoc hts
      rw [State.handles_set_of_ne _ _ ?_]
      · exact ht
      · rintro rfl
        exact ht.elim (hother other hname).1 (hother other hname).2

omit [DecidableEq Id] in
/-- A document is created. -/
theorem Inv.create (h : Inv s) (hdoc : s.docs name = none) :
    Inv ⟨Function.update s.docs name (some ⟨0, none⟩), s.handles⟩ := by
  refine ⟨fun t other ht => ?_, fun other doc hnew => ?_, fun other doc t hnew hts => ?_⟩
  · have hlocked := h.locked t other ht
    have hname : other ≠ name := by
      rintro rfl
      rw [hdoc] at hlocked
      cases hlocked
    exact (Function.update_of_ne hname _ _).trans hlocked
  · by_cases hname : other = name
    · subst hname
      dsimp only at hnew
      rw [Function.update_self] at hnew
      cases hnew
      exact .inl rfl
    · dsimp only at hnew
      rw [Function.update_of_ne hname] at hnew
      exact h.held other doc hnew
  · by_cases hname : other = name
    · subst hname
      dsimp only at hnew
      rw [Function.update_self] at hnew
      cases hnew
      cases hts
    · dsimp only at hnew
      rw [Function.update_of_ne hname] at hnew
      exact h.owner other doc t hnew hts

theorem Inv.step {a : Act Name} (h : Inv s) (hs : WaitForLock.step s (ts, a) = some s') : Inv s' := by
  cases moves_of_step hs with
  | call name hhandle | present name hhandle | retry name hhandle | timeOut name hhandle =>
    exact h.quiet (by simp [hhandle]) (by simp [hhandle]) nofun
  | create name hhandle hdoc =>
    exact (h.create hdoc).quiet (by simp [hhandle]) (by simp [hhandle]) nofun
  | acquire name doc hhandle hdoc hstate =>
    refine h.write (.inl ⟨rfl, rfl⟩) (fun t _ ht => ?_) (by simp [hhandle])
    rw [h.locked t name ht] at hdoc
    cases hdoc
    cases hstate
  | release name doc hhandle hdoc hts =>
    refine h.write (.inr ⟨rfl, rfl⟩) (fun t hne ht => ?_) (fun other hne => ?_)
    · rw [h.locked t name ht] at hdoc
      cases hdoc
      exact hne (Option.some.inj hts)
    · obtain hhandle | hhandle := hhandle <;> simp [hhandle, Ne.symm hne]
  | late name hhandle hother =>
    have hunlocked : s.handles ts = .unlocked name :=
      hhandle.resolve_left fun hlocked => hother _ (h.locked ts name hlocked) rfl
    have hsame : s.set s.docs ts (.unlocked name) = s := by
      rw [State.set, ← hunlocked, Function.update_eq_self]
    rw [hsame]
    exact h

theorem inv_of_reach (h : Reach WaitForLock.step Free (· = initial Name Id) s) : Inv s := by
  refine Reach.inv (I := Inv) ?_ (fun _ a _ hinv _ hs => hinv.step (a := a.2) hs) h
  rintro _ rfl
  exact ⟨nofun, nofun, nofun⟩

/-- A handle that was unlocked changes nothing. -/
theorem Inv.unlock_again (h : Inv s) (hhandle : s.handles ts = .unlocked name) :
    unlock s.docs name ts = s.docs := by
  by_cases howner : ∃ doc, s.docs name = some doc ∧ doc.ts = some ts
  · obtain ⟨doc, hdoc, hts⟩ := howner
    obtain hstate | ⟨t, rfl, ht⟩ := h.held name doc hdoc
    · -- Nobody has taken the lock since.
      have heq : doc = ⟨0, some ts⟩ := by rw [← hstate, ← hts]
      rw [unlock_of_owner hdoc hts, ← heq, ← hdoc, Function.update_eq_self]
    · cases hts
      rw [ht] at hhandle
      cases hhandle
  · exact unlock_of_other fun doc hdoc hts => howner ⟨doc, hdoc, hts⟩

/-- **Mutual exclusion.** In every interleaving of the updates of any number of handles, with any
number of calls of `unlock`: at most one handle is between its acquiring update and its first
`unlock`, the document of the lock is locked with its id, and an `unlock` by a handle that was
unlocked before changes neither the collection nor a handle. -/
theorem lock_mutual_exclusion (h : Reach WaitForLock.step Free (· = initial Name Id) s) :
    (∀ a b name, s.handles a = .locked name → s.handles b = .locked name → a = b) ∧
    (∀ a name, s.handles a = .locked name → s.docs name = some ⟨1, some a⟩) ∧
    ∀ a name, s.handles a = .unlocked name → WaitForLock.step s (a, .unlock) = some s := by
  have hinv := inv_of_reach h
  refine ⟨fun a b name ha hb => ?_, hinv.locked, fun a name ha => ?_⟩
  · have hdoc := hinv.locked a name ha
    rw [hinv.locked b name hb] at hdoc
    cases hdoc
    rfl
  · have hsame : s.set (unlock s.docs name a) a (.unlocked name) = s := by
      rw [hinv.unlock_again ha, State.set, ← ha, Function.update_eq_self]
    simp [WaitForLock.step, ha, hsame]

end Steps

/-- A client takes the lock while another one creates it again, waits for it, and unlocks twice. -/
theorem lock_mutual_exclusion_two_clients :
    ∃ s : State Bool (Fin 2), s.handles 0 = .unlocked true ∧ s.handles 1 = .locked true ∧
      s.docs true = some ⟨1, some 1⟩ ∧ step s (0, .unlock) = some s := by
  have hrun : ∃ s : State Bool (Fin 2), Reach step Free (· = initial Bool (Fin 2)) s ∧
      s.handles 0 = .unlocked true ∧ s.handles 1 = .locked true :=
    Reach.exists_of_run (.start rfl) [(0, .waitForLock true), (0, .next), (0, .next),
      (1, .waitForLock true), (1, .next), (1, .next), (0, .unlock), (1, .next), (0, .unlock)]
      (by decide)
  obtain ⟨s, hs, h0, h1⟩ := hrun
  obtain ⟨-, hlocked, hlate⟩ := lock_mutual_exclusion hs
  exact ⟨s, h0, h1, hlocked 1 true h1, hlate 0 true h0⟩

end MongoTests.BackgroundOps.WaitForLock
