import Mathlib.Data.Nat.Notation
import Mathlib.Logic.Basic

/-!
# Programs with a state, exceptions and unfinished runs

A program reads and writes a state and ends with a value or an exception, or stops on the way: its
fuel is used up, or the environment has no answer for it. Its meaning is given by weakest
preconditions, with one postcondition for each way to end and one for a run that stops.

* `Prog`, with `get`, `modify`, `throw`, `stop`, `tryCatch`, `ensuring` (`finally`) and `ofExcept`;
* `pure_bind_apply`, `bind_eq_of_ok` and their kin: running a program whose first part is known;
* `wp` and its rules, one for each construct, with `wp_forM` for a loop; `wp.mono`, `wp.imp`,
  `wp.and`: consequence and conjunction;
* `Converges`: a program that returns when it has enough fuel, with rules;
* `Contract`: contracts that compose, with a rule for each construct;
* `Guarded`: a program with the condition under which it returns;
* `Returns`, `Throws`, `Quiet`: programs by what they leave behind; `trail`: the calls of a long run.
-/

namespace MongoTests.Lib

inductive Outcome (ε α : Type)
  | ok (a : α)
  | error (e : ε)
  /-- The run has got no further. -/
  | stop

/-- A program over the state `σ` with exceptions `ε`. -/
def Prog (σ ε α : Type) : Type := σ → Outcome ε α × σ

namespace Prog

variable {σ ε α β : Type}

instance : Monad (Prog σ ε) where
  pure a := fun s => (.ok a, s)
  bind m f := fun s =>
    match m s with
    | (.ok a, s') => f a s'
    | (.error e, s') => (.error e, s')
    | (.stop, s') => (.stop, s')

def get : Prog σ ε σ := fun s => (.ok s, s)

def modify (f : σ → σ) : Prog σ ε Unit := fun s => (.ok (), f s)

def throw (e : ε) : Prog σ ε α := fun s => (.error e, s)

def stop : Prog σ ε α := fun s => (.stop, s)

/-- `try m catch h`; the state changes of `m` stay. -/
def tryCatch (m : Prog σ ε α) (h : ε → Prog σ ε α) : Prog σ ε α := fun s =>
  match m s with
  | (.ok a, s') => (.ok a, s')
  | (.error e, s') => h e s'
  | (.stop, s') => (.stop, s')

/-- `try m finally f`, where `f` only changes the state. -/
def ensuring (m : Prog σ ε α) (f : σ → σ) : Prog σ ε α := fun s =>
  match m s with
  | (.ok a, s') => (.ok a, f s')
  | (.error e, s') => (.error e, f s')
  | (.stop, s') => (.stop, s')

/-- A computation that may raise and that does not use the state. -/
def ofExcept (x : Except ε α) : Prog σ ε α := fun s =>
  match x with
  | .ok a => (.ok a, s)
  | .error e => (.error e, s)

/-- One condition for each way to end. -/
def ends (Q : α → σ → Prop) (E : ε → σ → Prop) (S : σ → Prop) : Outcome ε α × σ → Prop
  | (.ok a, s) => Q a s
  | (.error e, s) => E e s
  | (.stop, s) => S s

/-- **The weakest precondition** of `m` for `Q` on a value, `E` on an exception, and `S` where the
run stops. -/
def wp (m : Prog σ ε α) (Q : α → σ → Prop) (E : ε → σ → Prop) (S : σ → Prop) (s : σ) : Prop :=
  ends Q E S (m s)

variable {m : Prog σ ε α} {f : α → Prog σ ε β} {Q Q' : α → σ → Prop} {R : β → σ → Prop}
  {E E' : ε → σ → Prop} {S S' : σ → Prop} {s s' : σ}

theorem pure_bind_apply (a : α) : ((pure a : Prog σ ε α) >>= f) s = f a s := rfl

theorem get_bind_apply (f : σ → Prog σ ε β) : (get >>= f) s = f s s := rfl

theorem modify_bind_apply (g : σ → σ) (f : Unit → Prog σ ε β) :
    (modify g >>= f) s = f () (g s) := rfl

theorem bind_eq_of_ok {a : α} (h : m s = (.ok a, s')) : (m >>= f) s = f a s' := by
  simp only [bind, h]

theorem bind_eq_of_error {e : ε} (h : m s = (.error e, s')) : (m >>= f) s = (.error e, s') := by
  simp only [bind, h]

theorem bind_eq_of_stop (h : m s = (.stop, s')) : (m >>= f) s = (.stop, s') := by
  simp only [bind, h]

theorem tryCatch_bind_of_ok {h : ε → Prog σ ε α} {a : α} (hm : m s = (.ok a, s')) :
    (tryCatch m h >>= f) s = f a s' := by
  simp only [bind, tryCatch, hm]

theorem tryCatch_bind_of_error {h : ε → Prog σ ε α} {e : ε} (hm : m s = (.error e, s')) :
    (tryCatch m h >>= f) s = (h e >>= f) s' := by
  simp only [bind, tryCatch, hm]

theorem tryCatch_bind_of_stop {h : ε → Prog σ ε α} (hm : m s = (.stop, s')) :
    (tryCatch m h >>= f) s = (.stop, s') := by
  simp only [bind, tryCatch, hm]

theorem bind_ne_ok {b : β} (h : ∀ a s', m s ≠ (.ok a, s')) : (m >>= f) s ≠ (.ok b, s') := by
  match hm : m s with
  | (.ok a, t) => exact absurd hm (h a t)
  | (.error e, t) =>
    rw [bind_eq_of_error hm]
    simp
  | (.stop, t) =>
    rw [bind_eq_of_stop hm]
    simp

theorem wp_of_eq {r : Outcome ε α × σ} (h : m s = r) : wp m Q E S s ↔ ends Q E S r := by
  rw [wp, h]

theorem wp.ok {a : α} (h : wp m Q E S s) (hm : m s = (.ok a, s')) : Q a s' := (wp_of_eq hm).1 h

theorem wp.error {e : ε} (h : wp m Q E S s) (hm : m s = (.error e, s')) : E e s' :=
  (wp_of_eq hm).1 h

theorem wp.stop (h : wp m Q E S s) (hm : m s = (.stop, s')) : S s' := (wp_of_eq hm).1 h

/-- What holds however the run ends. -/
theorem wp.final {P : σ → Prop} (h : wp m (fun _ t => P t) (fun _ t => P t) P s) : P (m s).2 := by
  unfold wp at h
  revert h
  rcases m s with ⟨_ | _ | _, t⟩ <;> exact id

/-- A program that can only return. -/
theorem wp.exists_ok (h : wp m Q (fun _ _ => False) (fun _ => False) s) :
    ∃ a s', m s = (.ok a, s') ∧ Q a s' := by
  unfold wp at h
  revert h
  rcases m s with ⟨_ | _ | _, t⟩
  · exact fun h => ⟨_, t, rfl, h⟩
  · exact False.elim
  · exact False.elim

/-- Conditions that always hold. -/
theorem wp_of_forall (hQ : ∀ a t, Q a t) (hE : ∀ e t, E e t) (hS : ∀ t, S t) : wp m Q E S s := by
  unfold wp
  rcases m s with ⟨_ | _ | _, t⟩
  · exact hQ _ t
  · exact hE _ t
  · exact hS t

theorem wp.mono (h : wp m Q E S s) (hQ : ∀ a t, Q a t → Q' a t) (hE : ∀ e t, E e t → E' e t)
    (hS : ∀ t, S t → S' t) : wp m Q' E' S' s := by
  unfold wp at h ⊢
  revert h
  rcases m s with ⟨_ | _ | _, t⟩
  · exact hQ _ t
  · exact hE _ t
  · exact hS t

/-- Consequence for the value alone. -/
theorem wp.imp (h : wp m Q E S s) (hQ : ∀ a t, Q a t → Q' a t) : wp m Q' E S s :=
  h.mono hQ (fun _ _ he => he) fun _ hs => hs

theorem wp.and (h : wp m Q E S s) (h' : wp m Q' E' S' s) :
    wp m (fun a t => Q a t ∧ Q' a t) (fun e t => E e t ∧ E' e t) (fun t => S t ∧ S' t) s := by
  unfold wp at h h' ⊢
  revert h h'
  rcases m s with ⟨_ | _ | _, t⟩ <;> exact And.intro

theorem wp_pure (a : α) : wp (pure a : Prog σ ε α) Q E S s ↔ Q a s := Iff.rfl

theorem wp_get {Q : σ → σ → Prop} : wp (get : Prog σ ε σ) Q E S s ↔ Q s s := Iff.rfl

theorem wp_modify {Q : Unit → σ → Prop} (g : σ → σ) :
    wp (modify g : Prog σ ε Unit) Q E S s ↔ Q () (g s) := Iff.rfl

theorem wp_throw (e : ε) : wp (throw e : Prog σ ε α) Q E S s ↔ E e s := Iff.rfl

theorem wp_bind : wp (m >>= f) R E S s ↔ wp m (fun a t => wp (f a) R E S t) E S s := by
  simp only [wp, bind]
  rcases m s with ⟨_ | _ | _, t⟩ <;> rfl

theorem wp_bind_of_ok {a : α} (h : m s = (.ok a, s')) :
    wp (m >>= f) R E S s ↔ wp (f a) R E S s' := by
  rw [wp, bind_eq_of_ok h, wp]

theorem wp_tryCatch (h : ε → Prog σ ε α) :
    wp (tryCatch m h) Q E S s ↔ wp m Q (fun e t => wp (h e) Q E S t) S s := by
  simp only [wp, tryCatch]
  rcases m s with ⟨_ | _ | _, t⟩ <;> rfl

theorem wp_ensuring (g : σ → σ) :
    wp (ensuring m g) Q E S s ↔ wp m (fun a t => Q a (g t)) (fun e t => E e (g t)) S s := by
  simp only [wp, ensuring]
  rcases m s with ⟨_ | _ | _, t⟩ <;> rfl

theorem wp_ite {c : Prop} [Decidable c] {m' : Prog σ ε α} :
    wp (if c then m else m') Q E S s ↔ (c → wp m Q E S s) ∧ (¬ c → wp m' Q E S s) := by
  by_cases hc : c <;> simp [hc]

theorem wp_ofExcept (x : Except ε α) :
    wp (ofExcept x) Q E S s ↔ (∀ a, x = .ok a → Q a s) ∧ ∀ e, x = .error e → E e s := by
  cases x with
  | ok a => exact ⟨fun h => ⟨by rintro _ ⟨⟩; exact h, by rintro _ ⟨⟩⟩, fun h => h.1 a rfl⟩
  | error e => exact ⟨fun h => ⟨by rintro _ ⟨⟩, by rintro _ ⟨⟩; exact h⟩, fun h => h.2 e rfl⟩

/-- A loop with an invariant of the elements that it is through with. -/
theorem wp_forM {γ : Type} {f : γ → Prog σ ε Unit} {I : List γ → σ → Prop} {l : List γ} (hs : I [] s)
    (h : ∀ done c, ∀ t, I done t → wp (f c) (fun _ u => I (done ++ [c]) u) E S t) :
    wp (l.forM f) (fun _ t => I l t) E S s := by
  have hloop : ∀ done t, I done t → wp (l.forM f) (fun _ u => I (done ++ l) u) E S t := by
    induction l with
    | nil =>
      intro done t ht
      rw [List.append_nil]
      exact ht
    | cons c l ih =>
      intro done t ht
      refine wp_bind.mpr (wp.imp (h done c t ht) fun _ u hu => ?_)
      rw [List.append_cons]
      exact ih (done ++ [c]) u hu
  exact hloop [] s hs

/-! ## Programs with fuel -/

/-- With enough fuel the program returns, always with the same value and state, and `Q` holds of
them. -/
def Converges (p : ℕ → Prog σ ε α) (Q : α → σ → Prop) (s : σ) : Prop :=
  ∃ a s' enough, (∀ fuel, enough ≤ fuel → p fuel s = (.ok a, s')) ∧ Q a s'

namespace Converges

variable {p : ℕ → Prog σ ε α}

theorem of_eq {a : α} (h : ∀ fuel, p fuel s = (.ok a, s')) (hQ : Q a s') : Converges p Q s :=
  ⟨a, s', 0, fun fuel _ => h fuel, hQ⟩

theorem imp (h : Converges p Q s) (hQ : ∀ a t, Q a t → Q' a t) : Converges p Q' s := by
  obtain ⟨a, s', enough, hp, ha⟩ := h
  exact ⟨a, s', enough, hp, hQ a s' ha⟩

theorem congr {p' : ℕ → Prog σ ε α} (h : Converges p Q s) (hp : ∀ fuel, p' fuel s' = p fuel s) :
    Converges p' Q s' := by
  obtain ⟨a, t, enough, ht, ha⟩ := h
  exact ⟨a, t, enough, fun fuel hle => (hp fuel).trans (ht fuel hle), ha⟩

theorem bind {f : ℕ → α → Prog σ ε β} (h : Converges p Q s)
    (hf : ∀ a t, Q a t → Converges (fun fuel => f fuel a) R t) :
    Converges (fun fuel => p fuel >>= f fuel) R s := by
  obtain ⟨a, t, enough, hp, ha⟩ := h
  obtain ⟨b, u, enough', hf, hb⟩ := hf a t ha
  refine ⟨b, u, max enough enough', fun fuel hle => ?_, hb⟩
  show (p fuel >>= f fuel) s = _
  rw [bind_eq_of_ok (hp fuel (by omega))]
  exact hf fuel (by omega)

/-- The fuel that a call takes. -/
theorem succ (h : Converges (fun fuel => p (fuel + 1)) Q s) : Converges p Q s := by
  obtain ⟨a, s', enough, hp, ha⟩ := h
  refine ⟨a, s', enough + 1, fun fuel hle => ?_, ha⟩
  obtain ⟨n, rfl⟩ : ∃ n, fuel = n + 1 := ⟨fuel - 1, by omega⟩
  exact hp n (by omega)

theorem not_of_forall (h : ∀ fuel a s', p fuel s ≠ (.ok a, s')) : ¬ Converges p Q s := by
  rintro ⟨a, s', enough, hp, -⟩
  exact h enough a s' (hp enough (Nat.le_refl _))

end Converges

/-! ## Contracts

A contract that composes: a precondition that every return gives back, and what a return and an
exception say about the state before and after. Programs are then checked part by part. -/

/-- A precondition `pre`, with `ret` for a return, `exc` for an exception, and `halt` for the states
where a run may stop. -/
structure Contract (σ ε : Type) where
  pre : σ → Prop
  ret : σ → σ → Prop
  exc : σ → ε → σ → Prop
  halt : σ → Prop
  refl : ∀ {s}, pre s → ret s s
  next : ∀ {s s'}, pre s → ret s s' → pre s'
  trans : ∀ {s s' s''}, ret s s' → ret s' s'' → ret s s''
  transExc : ∀ {s s' s'' e}, ret s s' → exc s' e s'' → exc s e s''
  halt_of_pre : ∀ {s}, pre s → halt s

namespace Contract

variable {C : Contract σ ε}

/-- `m` keeps the contract from the state `s`. -/
def HoldsAt (C : Contract σ ε) (m : Prog σ ε α) (s : σ) : Prop :=
  wp m (fun _ s' => C.ret s s') (fun e s' => C.exc s e s') C.halt s

/-- `m` keeps the contract. -/
def Holds (C : Contract σ ε) (m : Prog σ ε α) : Prop := ∀ s, C.pre s → C.HoldsAt m s

/-- What comes later counts from the first state. -/
theorem HoldsAt.after (hr : C.ret s s') (h : C.HoldsAt m s') :
    wp m (fun _ t => C.ret s t) (fun e t => C.exc s e t) C.halt s' :=
  wp.mono h (fun _ _ ht => C.trans hr ht) (fun _ _ ht => C.transExc hr ht) fun _ ht => ht

theorem Holds.pure (a : α) : C.Holds (pure a : Prog σ ε α) := fun _ hs => C.refl hs

theorem Holds.stop : C.Holds (stop : Prog σ ε α) := fun _ hs => C.halt_of_pre hs

theorem Holds.bind (hm : C.Holds m) (hf : ∀ a, C.Holds (f a)) : C.Holds (m >>= f) := by
  intro s hs
  rw [HoldsAt, wp_bind]
  exact wp.mono (hm s hs) (fun a t ht => (hf a t (C.next hs ht)).after ht) (fun _ _ ht => ht)
    fun _ ht => ht

theorem Holds.get_bind {f : σ → Prog σ ε β} (hf : ∀ s, C.Holds (f s)) : C.Holds (get >>= f) := by
  intro s hs
  rw [HoldsAt, wp_bind, wp_get]
  exact hf s s hs

theorem Holds.modify {g : σ → σ} (hg : ∀ s, C.pre s → C.ret s (g s)) : C.Holds (modify g) :=
  fun s hs => hg s hs

theorem Holds.ite {c : Prop} [Decidable c] {m' : Prog σ ε α} (h : C.Holds m) (h' : C.Holds m') :
    C.Holds (if c then m else m') := by
  by_cases hc : c
  · rw [if_pos hc]
    exact h
  · rw [if_neg hc]
    exact h'

end Contract

/-! ## Guarded programs

A program that returns exactly when a condition holds, and that keeps a relation between the state
before and the state after, whether it returns or raises. -/

section Guarded

variable {r : σ → σ → Prop} {c d : Prop} {m m' : Prog σ ε Unit}

def Guarded (r : σ → σ → Prop) (c : Prop) (m : Prog σ ε Unit) (s : σ) : Prop :=
  wp m (fun _ t => c ∧ r s t) (fun _ t => ¬ c ∧ r s t) (fun _ => False) s

theorem Guarded.congr (h : Guarded r c m s) (hcd : c ↔ d) : Guarded r d m s :=
  wp.mono h (fun _ _ ht => ⟨hcd.mp ht.1, ht.2⟩) (fun _ _ ht => ⟨fun hd => ht.1 (hcd.mpr hd), ht.2⟩)
    fun _ ht => ht

/-- One after the other. What the second one asks for may be read in the state that it finds. -/
theorem Guarded.bind (htrans : ∀ s t u, r s t → r t u → r s u) (hm : Guarded r c m s)
    (hm' : ∀ t, r s t → Guarded r d m' t) : Guarded r (c ∧ d) (m >>= fun _ => m') s := by
  rw [Guarded, wp_bind]
  refine wp.mono hm (fun _ t ht => ?_) (fun _ t ht => ⟨fun h => ht.1 h.1, ht.2⟩) fun _ ht => ht
  exact wp.mono (hm' t ht.2) (fun _ u hu => ⟨⟨ht.1, hu.1⟩, htrans s t u ht.2 hu.2⟩)
    (fun _ u hu => ⟨fun h => hu.1 h.2, htrans s t u ht.2 hu.2⟩) fun _ hu => hu

theorem Guarded.modify {g : σ → σ} (h : r s (g s)) : Guarded r True (Prog.modify g : Prog σ ε Unit) s :=
  ⟨trivial, h⟩

theorem Guarded.ofExcept {x : Except ε Unit} (hrefl : r s s) : Guarded r (x = .ok ()) (Prog.ofExcept x) s := by
  refine (wp_ofExcept x).mpr ⟨fun _ h => ⟨h, hrefl⟩, fun e h => ⟨fun hok => ?_, hrefl⟩⟩
  cases h.symm.trans hok

/-- A computation whose value the rest uses. -/
theorem Guarded.ofExcept_bind {γ : Type} {x : Except ε γ} {f : γ → Prog σ ε Unit} {d : γ → Prop} (hrefl : r s s)
    (h : ∀ a, x = .ok a → Guarded r (d a) (f a) s) :
    Guarded r (∃ a, x = .ok a ∧ d a) (Prog.ofExcept x >>= f) s := by
  refine wp_bind.mpr ((wp_ofExcept x).mpr ⟨fun a ha => ?_, fun e he => ⟨?_, hrefl⟩⟩)
  · refine (h a ha).congr ⟨fun hd => ⟨a, ha, hd⟩, ?_⟩
    rintro ⟨b, hb, hd⟩
    cases ha.symm.trans hb
    exact hd
  · rintro ⟨b, hb, -⟩
    cases he.symm.trans hb

/-- An exception that is replaced by another one. -/
theorem Guarded.mapError {g : ε → ε} (h : Guarded r c m s) :
    Guarded r c (tryCatch m fun e => throw (g e)) s := by
  rw [Guarded, wp_tryCatch]
  exact h

/-- A loop. -/
theorem Guarded.forM {α : Type} (htrans : ∀ s t u, r s t → r t u → r s u) (hrefl : ∀ s, r s s)
    {f : α → Prog σ ε Unit} {c : α → Prop} (l : List α)
    (h : ∀ a ∈ l, ∀ t, r s t → Guarded r (c a) (f a) t) :
    Guarded r (∀ a ∈ l, c a) (l.forM f) s := by
  induction l generalizing s with
  | nil => exact ⟨fun _ ha => absurd ha List.not_mem_nil, hrefl s⟩
  | cons a l ih =>
    have hrest : ∀ t, r s t → Guarded r (∀ b ∈ l, c b) (l.forM f) t :=
      fun t ht => ih fun b hb u hu => h b (List.mem_cons_of_mem a hb) u (htrans s t u ht hu)
    exact (Guarded.bind htrans (h a List.mem_cons_self s (hrefl s)) hrest).congr
      List.forall_mem_cons.symm

/-- A program that keeps a relation, whenever it returns. -/
def Preserves (r : σ → σ → Prop) (m : Prog σ ε Unit) (s : σ) : Prop :=
  wp m (fun _ t => r s t) (fun _ t => r s t) (fun _ => False) s

theorem Guarded.preserves (h : Guarded r c m s) : Preserves r m s :=
  wp.mono h (fun _ _ ht => ht.2) (fun _ _ ht => ht.2) fun _ ht => ht

theorem Preserves.bind (htrans : ∀ s t u, r s t → r t u → r s u) (hm : Preserves r m s)
    (hm' : ∀ t, r s t → Preserves r m' t) : Preserves r (m >>= fun _ => m') s := by
  rw [Preserves, wp_bind]
  refine wp.mono hm (fun _ t ht => ?_) (fun _ t ht => ht) fun _ ht => ht
  exact wp.mono (hm' t ht) (fun _ u hu => htrans s t u ht hu) (fun _ u hu => htrans s t u ht hu)
    fun _ hu => hu

theorem Preserves.forM {α : Type} (htrans : ∀ s t u, r s t → r t u → r s u) (hrefl : ∀ s, r s s)
    {f : α → Prog σ ε Unit} (l : List α) (h : ∀ a t, Preserves r (f a) t) :
    Preserves r (l.forM f) s := by
  induction l generalizing s with
  | nil => exact hrefl s
  | cons a l ih => exact Preserves.bind htrans (h a s) fun t _ => ih

end Guarded

/-! ## Programs that return, throw or only wait -/

/-- What holds of the state when a program returns. -/
def Returns (m : Prog σ ε α) (P : σ → Prop) (s : σ) : Prop :=
  wp m (fun _ t => P t) (fun _ _ => True) (fun _ => True) s

/-- From the state `s` the program throws, and it leaves the state `t`. -/
def Throws (m : Prog σ ε α) (s t : σ) : Prop := ∃ e, m s = (.error e, t)

/-- The program leaves the state as it is, whether it returns or throws. -/
def Quiet (m : Prog σ ε Unit) (s : σ) : Prop := Preserves (fun s t => t = s) m s

section Ends

variable {P P' : σ → Prop} {t u : σ} {k : Unit → Prog σ ε β} {q q' : Prog σ ε Unit}

theorem Returns.imp (h : Returns m P s) (hP : ∀ t, P t → P' t) : Returns m P' s :=
  wp.imp h fun _ => hP

theorem Returns.bind (h : Returns q P s) (hk : ∀ t, P t → Returns (k ()) P' t) :
    Returns (q >>= k) P' s :=
  wp_bind.mpr (wp.imp h fun _ => hk)

theorem returns_get_bind {f : σ → Prog σ ε β} (h : Returns (f s) P s) : Returns (get >>= f) P s := h

theorem returns_modify_bind {g : σ → σ} (h : Returns (k ()) P (g s)) :
    Returns (modify g >>= k) P s := h

theorem throws_throw (e : ε) : Throws (throw e : Prog σ ε α) s s := ⟨e, rfl⟩

theorem Throws.snd (h : Throws m s t) : (m s).2 = t := by
  obtain ⟨e, he⟩ := h
  rw [he]

/-- Where a program that throws leaves its first state. -/
theorem Throws.self_iff (h : Throws m s t) : Throws m s s ↔ t = s :=
  ⟨fun hs => h.snd.symm.trans hs.snd, fun hts => hts ▸ h⟩

theorem Throws.bind (h : Throws m s t) : Throws (m >>= f) s t := by
  obtain ⟨e, he⟩ := h
  exact ⟨e, bind_eq_of_error he⟩

theorem throws_bind_of_ok {a : α} (hm : m s = (.ok a, s')) (h : Throws (f a) s' t) :
    Throws (m >>= f) s t := by
  obtain ⟨e, he⟩ := h
  exact ⟨e, (bind_eq_of_ok hm).trans he⟩

theorem throws_get_bind {f : σ → Prog σ ε β} (h : Throws (f s) s t) : Throws (get >>= f) s t := h

theorem throws_modify_bind {g : σ → σ} (h : Throws (k ()) (g s) t) :
    Throws (modify g >>= k) s t := h

theorem Quiet.pure : Quiet (pure () : Prog σ ε Unit) s := rfl

theorem Quiet.throw (e : ε) : Quiet (throw e : Prog σ ε Unit) s := rfl

theorem Quiet.ofExcept (x : Except ε Unit) : Quiet (ofExcept x) s := by
  cases x <;> exact rfl

theorem Quiet.ite {c : Prop} [Decidable c] (h : Quiet q s) (h' : Quiet q' s) :
    Quiet (if c then q else q') s := by
  by_cases hc : c
  · rwa [if_pos hc]
  · rwa [if_neg hc]

theorem Quiet.returns (hq : Quiet q s) (h : P s) : Returns q P s :=
  wp.mono hq (fun _ _ ht => ht ▸ h) (fun _ _ _ => trivial) fun _ _ => trivial

theorem Quiet.returns_bind (hq : Quiet q s) (h : Returns (k ()) P s) : Returns (q >>= k) P s :=
  wp_bind.mpr (wp.mono hq (fun _ _ ht => ht ▸ h) (fun _ _ _ => trivial) fun _ _ => trivial)

theorem Quiet.bind (hq : Quiet q s) (h : Quiet q' s) : Quiet (q >>= fun _ => q') s :=
  wp_bind.mpr (wp.mono hq (fun _ _ ht => ht ▸ h) (fun _ _ ht => ht) fun _ ht => ht)

/-- Before a part that throws, waits do not matter. -/
theorem Quiet.throws_bind (hq : Quiet q s) (h : Throws (k ()) s s) : Throws (q >>= k) s s := by
  match hr : q s with
  | (.ok (), t) =>
    cases hq.ok hr
    exact throws_bind_of_ok hr h
  | (.error e, t) =>
    cases hq.error hr
    exact Throws.bind ⟨e, hr⟩
  | (.stop, t) => exact (hq.stop hr).elim

end Ends

/-- The calls of a run, each with the state that it is made in. An exception does not end the run. -/
def trail {κ : Type} (call : κ → Prog σ ε Unit) : σ → List κ → List (σ × κ)
  | _, [] => []
  | s, c :: cs => (s, c) :: trail call (call c s).2 cs

end Prog

end MongoTests.Lib
