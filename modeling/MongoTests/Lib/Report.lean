import Mathlib.Data.List.Forall2

/-!
# Computations that report messages and may raise

A compiler pass collects the messages about its input and goes on; an exception ends it. Its meaning
is the exception, or the result with the messages in the order in which they were reported.

* `Report`, with `log`, `logIf`, `raise`, `require` and `of`.
* `Raises`: rules for each construct, by which the exceptions of a loop are those of its rounds.
* `raises_foldlM_abs`: the same for rounds that depend on an abstraction of the state.
* `bind_eq_ok`: the parts of a run; `bind_eq_quiet`: those of a run without messages.
* `groups_of_foldlM`: what a loop appends without messages.
-/

namespace MongoTests.Lib

inductive Report (ε ω α : Type)
  | error (e : ε)
  /-- A value and the messages. -/
  | ok (a : α) (ws : List ω)
  deriving DecidableEq, Repr

namespace Report

variable {ε ω α β σ : Type} {τ : Type*}

protected def bind (m : Report ε ω α) (f : α → Report ε ω β) : Report ε ω β :=
  match m with
  | .error e => .error e
  | .ok a ws =>
    match f a with
    | .error e => .error e
    | .ok b ws' => .ok b (ws ++ ws')

instance : Monad (Report ε ω) where
  pure a := .ok a []
  bind := Report.bind

def log (w : ω) : Report ε ω Unit := .ok () [w]

def raise (e : ε) : Report ε ω α := .error e

/-- A result that is known with its messages. -/
def of (x : α × List ω) : Report ε ω α := .ok x.1 x.2

def logIf (p : Prop) [Decidable p] (w : ω) : Report ε ω Unit := if p then log w else pure ()

/-- `assert`, with the exception that it raises. -/
def require (p : Prop) [Decidable p] (e : ε) : Report ε ω Unit := if p then pure () else raise e

/-- The computation ends with an exception. -/
def Raises (m : Report ε ω α) : Prop := ∃ e, m = .error e

theorem bind_ok (a : α) (ws : List ω) (f : α → Report ε ω β) :
    Report.ok a ws >>= f =
      match f a with
      | .error e => .error e
      | .ok b ws' => .ok b (ws ++ ws') := rfl

protected theorem pure_bind (a : α) (f : α → Report ε ω β) : pure a >>= f = f a := by
  change (match f a with
    | .error e => .error e
    | .ok b ws' => .ok b ([] ++ ws')) = f a
  cases f a <;> rfl

theorem bind_eq_ok {m : Report ε ω α} {f : α → Report ε ω β} {b : β} {ws : List ω} :
    m >>= f = .ok b ws ↔
      ∃ a ws₁ ws₂, m = .ok a ws₁ ∧ f a = .ok b ws₂ ∧ ws = ws₁ ++ ws₂ := by
  cases m with
  | error e =>
    constructor
    · intro h
      cases h
    · rintro ⟨a, ws₁, ws₂, h, -⟩
      cases h
  | ok a ws₁ =>
    rw [bind_ok]
    constructor
    · intro h
      split at h
      · cases h
      · rename_i b' ws₂ hf
        cases h
        exact ⟨a, ws₁, ws₂, rfl, hf, rfl⟩
    · rintro ⟨a', ws₁', ws₂, h, hf, rfl⟩
      cases h
      rw [hf]

/-- A computation without messages has none in its parts. -/
theorem bind_eq_quiet {m : Report ε ω α} {f : α → Report ε ω β} {b : β} :
    m >>= f = .ok b [] ↔ ∃ a, m = .ok a [] ∧ f a = .ok b [] := by
  rw [bind_eq_ok]
  constructor
  · rintro ⟨a, ws₁, ws₂, hm, hf, h⟩
    obtain ⟨rfl, rfl⟩ := List.append_eq_nil_iff.mp h.symm
    exact ⟨a, hm, hf⟩
  · rintro ⟨a, hm, hf⟩
    exact ⟨a, [], [], hm, hf, rfl⟩

/-! ## Exceptions -/

theorem not_raises_iff {m : Report ε ω α} : ¬ Raises m ↔ ∃ a ws, m = .ok a ws := by
  constructor
  · intro h
    cases m with
    | error e => exact absurd ⟨e, rfl⟩ h
    | ok a ws => exact ⟨a, ws, rfl⟩
  · rintro ⟨a, ws, rfl⟩ ⟨e, he⟩
    cases he

@[simp] theorem not_raises_pure (a : α) : ¬ Raises (pure a : Report ε ω α) :=
  not_raises_iff.mpr ⟨a, [], rfl⟩

@[simp] theorem not_raises_log (w : ω) : ¬ Raises (log w : Report ε ω Unit) :=
  not_raises_iff.mpr ⟨(), [w], rfl⟩

@[simp] theorem not_raises_logIf (p : Prop) [Decidable p] (w : ω) :
    ¬ Raises (logIf p w : Report ε ω Unit) := by
  by_cases h : p
  · rw [logIf, if_pos h]
    exact not_raises_log w
  · rw [logIf, if_neg h]
    exact not_raises_pure ()

@[simp] theorem raises_require (p : Prop) [Decidable p] (e : ε) :
    Raises (require p e : Report ε ω Unit) ↔ ¬ p := by
  by_cases h : p
  · rw [require, if_pos h]
    exact iff_of_false (not_raises_pure ()) (not_not.mpr h)
  · rw [require, if_neg h]
    exact iff_of_true ⟨e, rfl⟩ h

@[simp] theorem not_raises_of (x : α × List ω) : ¬ Raises (of x : Report ε ω α) :=
  not_raises_iff.mpr ⟨x.1, x.2, rfl⟩

@[simp] theorem raises_raise (e : ε) : Raises (raise e : Report ε ω α) := ⟨e, rfl⟩

theorem raises_bind {m : Report ε ω α} {f : α → Report ε ω β} :
    Raises (m >>= f) ↔ Raises m ∨ ∃ a ws, m = .ok a ws ∧ Raises (f a) := by
  cases m with
  | error e => exact ⟨fun _ => .inl ⟨e, rfl⟩, fun _ => ⟨e, rfl⟩⟩
  | ok a ws =>
    rw [bind_ok]
    constructor
    · rintro ⟨e, he⟩
      split at he
      · rename_i e' hf
        exact .inr ⟨a, ws, rfl, e', hf⟩
      · cases he
    · rintro (⟨e, he⟩ | ⟨a', ws', ha, e, he⟩)
      · cases he
      · cases ha
        rw [he]
        exact ⟨e, rfl⟩

/-- Where the exceptions of the second part are the same for all results of the first. -/
theorem raises_bind_iff_of_ok {m : Report ε ω α} {f : α → Report ε ω β} {R : Prop}
    (h : ∀ a ws, m = .ok a ws → (Raises (f a) ↔ R)) : Raises (m >>= f) ↔ Raises m ∨ R := by
  rw [raises_bind]
  by_cases hm : Raises m
  · exact ⟨fun _ => .inl hm, fun _ => .inl hm⟩
  · obtain ⟨a, ws, ha⟩ := not_raises_iff.mp hm
    exact or_congr_right
      ⟨fun ⟨a', ws', ha', h'⟩ => (h a' ws' ha').mp h', fun hR => ⟨a, ws, ha, (h a ws ha).mpr hR⟩⟩

/-- Where the exceptions of the second part do not depend on the result of the first. -/
theorem raises_bind_iff {m : Report ε ω α} {f : α → Report ε ω β} {R : Prop}
    (h : ∀ a, Raises (f a) ↔ R) : Raises (m >>= f) ↔ Raises m ∨ R :=
  raises_bind_iff_of_ok fun a _ _ => h a

/-- A second part that never raises. -/
theorem raises_bind_left {m : Report ε ω α} {f : α → Report ε ω β} (h : ∀ a, ¬ Raises (f a)) :
    Raises (m >>= f) ↔ Raises m := by
  rw [raises_bind_iff fun a => iff_false_intro (h a), or_false]

/-- A first part that never raises. -/
theorem raises_bind_right {m : Report ε ω α} {f : α → Report ε ω β} {R : Prop} (hm : ¬ Raises m)
    (h : ∀ a, Raises (f a) ↔ R) : Raises (m >>= f) ↔ R := by
  rw [raises_bind_iff h, or_iff_right hm]

theorem not_raises_bind {m : Report ε ω α} {f : α → Report ε ω β} (hm : ¬ Raises m)
    (hf : ∀ a, ¬ Raises (f a)) : ¬ Raises (m >>= f) := by
  rwa [raises_bind_left hf]

/-- The state of a loop by the abstract state that its rounds lead to. -/
theorem abs_of_foldlM {f : σ → α → Report ε ω σ} {abs : σ → τ → Prop} {next : τ → α → τ}
    (hnext : ∀ s t a s' ws, abs s t → f s a = .ok s' ws → abs s' (next t a)) {s s' : σ} {t : τ}
    {l : List α} {ws : List ω} (hs : abs s t) (h : l.foldlM f s = .ok s' ws) :
    abs s' (l.foldl next t) := by
  induction l generalizing s t ws with
  | nil =>
    cases h
    exact hs
  | cons a l ih =>
    rw [List.foldlM_cons] at h
    obtain ⟨s₁, ws₁, ws₂, ha, hl, -⟩ := bind_eq_ok.mp h
    exact ih (hnext s t a s₁ ws₁ hs ha) hl

/-- A loop raises in the first round that does, and that depends on its abstract state only. -/
theorem raises_foldlM_abs {f : σ → α → Report ε ω σ} {abs : σ → τ → Prop} {next : τ → α → τ}
    {R : τ → α → Prop} (hR : ∀ s t a, abs s t → (Raises (f s a) ↔ R t a))
    (hnext : ∀ s t a s' ws, abs s t → f s a = .ok s' ws → abs s' (next t a)) {s : σ} {t : τ}
    {l : List α} (hs : abs s t) :
    Raises (l.foldlM f s) ↔ ∃ pre a post, l = pre ++ a :: post ∧ R (pre.foldl next t) a := by
  induction l generalizing s t with
  | nil =>
    rw [List.foldlM_nil]
    refine iff_of_false (not_raises_pure s) ?_
    rintro ⟨pre, a, post, hl, -⟩
    exact absurd hl.symm (List.append_ne_nil_of_right_ne_nil _ (List.cons_ne_nil _ _))
  | cons a l ih =>
    rw [List.foldlM_cons, raises_bind_iff_of_ok fun s' ws h => ih (hnext s t a s' ws hs h),
      hR s t a hs]
    constructor
    · rintro (h | ⟨pre, b, post, rfl, h⟩)
      · exact ⟨[], a, l, rfl, h⟩
      · exact ⟨a :: pre, b, post, rfl, h⟩
    · rintro ⟨pre, b, post, hl, h⟩
      cases pre with
      | nil =>
        cases hl
        exact .inl h
      | cons c pre =>
        cases hl
        exact .inr ⟨pre, b, post, rfl, h⟩

/-- A loop raises where one of its rounds does, when that does not depend on its state. -/
theorem raises_foldlM {f : σ → α → Report ε ω σ} {R : α → Prop} {l : List α}
    (h : ∀ a ∈ l, ∀ s, Raises (f s a) ↔ R a) (s : σ) :
    Raises (l.foldlM f s) ↔ ∃ a ∈ l, R a := by
  induction l generalizing s with
  | nil => simp
  | cons a l ih =>
    have hl := fun s => ih (fun b hb => h b (List.mem_cons_of_mem a hb)) s
    rw [List.foldlM_cons, raises_bind_iff hl, h a List.mem_cons_self]
    simp

/-- A loop whose rounds append to a list: without messages, the result has what each item adds. -/
theorem groups_of_foldlM {f : List β → α → Report ε ω (List β)} {I : List β → Prop}
    {R : α → List β → Prop} (hstep : ∀ bs a bs', I bs → f bs a = .ok bs' [] →
      I bs' ∧ ∃ group, bs' = bs ++ group ∧ R a group) {start bs : List β} {l : List α}
    (hstart : I start) (h : l.foldlM f start = .ok bs []) :
    I bs ∧ ∃ groups, bs = start ++ groups.flatten ∧ List.Forall₂ R l groups := by
  induction l generalizing start with
  | nil =>
    cases h
    exact ⟨hstart, [], (List.append_nil _).symm, .nil⟩
  | cons a l ih =>
    rw [List.foldlM_cons] at h
    obtain ⟨mid, hmid, h⟩ := bind_eq_quiet.mp h
    obtain ⟨hI, group, rfl, hgroup⟩ := hstep start a mid hstart hmid
    obtain ⟨hI, groups, rfl, hgroups⟩ := ih hI h
    exact ⟨hI, group :: groups, by rw [List.append_assoc]; rfl, .cons hgroup hgroups⟩

/-- The same for rounds that append one element. -/
theorem items_of_foldlM {f : List β → α → Report ε ω (List β)} {I : List β → Prop}
    {R : α → β → Prop} (hstep : ∀ bs a bs', I bs → f bs a = .ok bs' [] →
      I bs' ∧ ∃ b, bs' = bs ++ [b] ∧ R a b) {start bs : List β} {l : List α}
    (hstart : I start) (h : l.foldlM f start = .ok bs []) :
    I bs ∧ ∃ items, bs = start ++ items ∧ List.Forall₂ R l items := by
  have hgroup : ∀ bs a bs', I bs → f bs a = .ok bs' [] →
      I bs' ∧ ∃ group, bs' = bs ++ group ∧ ∃ b, group = [b] ∧ R a b := by
    intro bs a bs' hI ha
    obtain ⟨hI, b, hbs, hR⟩ := hstep bs a bs' hI ha
    exact ⟨hI, [b], hbs, b, rfl, hR⟩
  obtain ⟨hI, groups, hbs, hgroups⟩ := groups_of_foldlM hgroup hstart h
  refine ⟨hI, groups.flatten, hbs, ?_⟩
  clear hbs h
  induction hgroups with
  | nil => exact .nil
  | cons ha _ ih =>
    obtain ⟨b, rfl, hR⟩ := ha
    exact .cons hR ih

end Report

end MongoTests.Lib
