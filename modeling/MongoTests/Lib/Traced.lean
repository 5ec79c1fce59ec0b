import MongoTests.Lib.Program

/-!
# Programs with a trace

A program together with the events of its runs. An account says which lists of events may lead from
one state to another; the trace of a program keeps it in every run, however the run ends.

* `Account`: it holds of no events, and of one list of events after another.
* `Traced`, with a trace for each construct; `Traced.quiet`: no events.
-/

namespace MongoTests.Lib

/-- The lists of events that may lead from one state to another. -/
structure Account (σ ω : Type) where
  holds : σ → List ω → σ → Prop
  nil : ∀ s, holds s [] s
  append : ∀ {s t u tr tr'}, holds s tr t → holds t tr' u → holds s (tr ++ tr') u

/-- The events of the runs of `m`. -/
structure Traced {σ ω ε α : Type} (A : Account σ ω) (m : Prog σ ε α) where
  events : σ → List ω
  keeps : ∀ s, A.holds s (events s) (m s).2

namespace Traced

open Prog

variable {σ ω ε α β : Type} {A : Account σ ω} {m m' : Prog σ ε α}

/-- A program that the account does not see. -/
def quiet (h : ∀ s, A.holds s [] (m s).2) : Traced A m := ⟨fun _ => [], h⟩

def pure (a : α) : Traced A (Pure.pure a : Prog σ ε α) := quiet fun s => A.nil s

def stop : Traced A (Prog.stop : Prog σ ε α) := quiet fun s => A.nil s

def modify {g : σ → σ} (h : ∀ s, A.holds s [] (g s)) :
    Traced A (Prog.modify g : Prog σ ε Unit) := quiet h

/-- The events of the second part, when the first returns. -/
def andThen (r : Outcome ε α × σ) (f : α → σ → List ω) : List ω :=
  match r with
  | (.ok a, s) => f a s
  | _ => []

def bind {f : α → Prog σ ε β} (x : Traced A m) (y : ∀ a, Traced A (f a)) : Traced A (m >>= f) where
  events s := x.events s ++ andThen (m s) fun a t => (y a).events t
  keeps s := by
    have hx := x.keeps s
    match hm : m s with
    | (.ok a, t) =>
      rw [hm] at hx
      rw [bind_eq_of_ok hm]
      exact A.append hx ((y a).keeps t)
    | (.error e, t) =>
      rw [hm] at hx
      rw [bind_eq_of_error hm]
      exact A.append hx (A.nil t)
    | (.stop, t) =>
      rw [hm] at hx
      rw [bind_eq_of_stop hm]
      exact A.append hx (A.nil t)

def getBind {f : σ → Prog σ ε β} (y : ∀ s, Traced A (f s)) : Traced A (get >>= f) :=
  ⟨fun s => (y s).events s, fun s => (y s).keeps s⟩

def ite {c : Prop} [Decidable c] (x : Traced A m) (y : Traced A m') :
    Traced A (if c then m else m') where
  events s := if c then x.events s else y.events s
  keeps s := by
    split
    · exact x.keeps s
    · exact y.keeps s

/-- The events of the handler, when the program throws. -/
def orElse (r : Outcome ε α × σ) (f : ε → σ → List ω) : List ω :=
  match r with
  | (.error e, s) => f e s
  | _ => []

def tryCatch {h : ε → Prog σ ε α} (x : Traced A m) (y : ∀ e, Traced A (h e)) :
    Traced A (Prog.tryCatch m h) where
  events s := x.events s ++ orElse (m s) fun e t => (y e).events t
  keeps s := by
    have hx := x.keeps s
    unfold Prog.tryCatch
    match hm : m s with
    | (.ok a, t) =>
      rw [hm] at hx
      exact A.append hx (A.nil t)
    | (.error e, t) =>
      rw [hm] at hx
      exact A.append hx ((y e).keeps t)
    | (.stop, t) =>
      rw [hm] at hx
      exact A.append hx (A.nil t)

def ensuring {g : σ → σ} (x : Traced A m) (hg : ∀ s, A.holds s [] (g s)) :
    Traced A (Prog.ensuring m g) where
  events := x.events
  keeps s := by
    have hx := x.keeps s
    have hadd : ∀ t, A.holds s (x.events s) t → A.holds s (x.events s) (g t) := fun t ht => by
      have h := A.append ht (hg t)
      rwa [List.append_nil] at h
    unfold Prog.ensuring
    match hm : m s with
    | (.ok a, t) =>
      rw [hm] at hx
      exact hadd t hx
    | (.error e, t) =>
      rw [hm] at hx
      exact hadd t hx
    | (.stop, t) =>
      rw [hm] at hx
      exact hx

end Traced

end MongoTests.Lib
