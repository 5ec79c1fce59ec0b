import Mathlib.Tactic.SplitIfs

/-!
# Computations that may raise

Inversion rules for `Except`: what is known when a sequence of checks has passed.

* `ensure`: an assertion.
* `bind_eq_ok`, `bind_eq_error`, `map_eq_ok`: what the first part of a computation has done.
* `exists_of_mem_mapM`, `map_eq_of_mapM`, `exists_mapM_eq_ok`, `mapM_eq_ok`, `mapM_eq_ok_iff`,
  `mapM_flatten_eq_nil`: the results of a loop.
* `mapM_eq_some`, `mem_of_mapM_eq_some`, `exists_mapM_eq_some`: the same for a loop with one exception.
-/

namespace MongoTests.Lib

universe u

variable {ε : Type*} {α β : Type u}

/-- `assert(p)`, which raises `e`. -/
def ensure (p : Prop) [Decidable p] (e : ε) : Except ε Unit := if p then .ok () else .error e

theorem ensure_eq_ok {p : Prop} [Decidable p] {e : ε} {u : Unit} :
    ensure p e = .ok u ↔ p := by
  unfold ensure
  split_ifs with h <;> simp [h]

theorem ensure_eq_error {p : Prop} [Decidable p] {e e' : ε} :
    ensure p e = .error e' ↔ ¬ p ∧ e = e' := by
  unfold ensure
  split_ifs with h <;> simp [h]

theorem bind_eq_ok {x : Except ε α} {f : α → Except ε β} {b : β} :
    x >>= f = .ok b ↔ ∃ a, x = .ok a ∧ f a = .ok b := by
  cases x with
  | error e =>
    constructor
    · intro h
      cases h
    · rintro ⟨a, h, -⟩
      cases h
  | ok a =>
    constructor
    · exact fun h => ⟨a, rfl, h⟩
    · rintro ⟨a', h, hf⟩
      cases h
      exact hf

theorem bind_eq_error {x : Except ε α} {f : α → Except ε β} {e : ε} :
    x >>= f = .error e ↔ x = .error e ∨ ∃ a, x = .ok a ∧ f a = .error e := by
  cases x with
  | error e' =>
    constructor
    · intro h
      cases h
      exact .inl rfl
    · rintro (h | ⟨a, h, -⟩)
      · cases h
        rfl
      · cases h
  | ok a =>
    constructor
    · exact fun h => .inr ⟨a, rfl, h⟩
    · rintro (h | ⟨a', h, hf⟩)
      · cases h
      · cases h
        exact hf

theorem map_eq_ok {f : α → β} {x : Except ε α} {b : β} :
    x.map f = .ok b ↔ ∃ a, x = .ok a ∧ f a = b := by
  cases x with
  | error e => simp [Except.map]
  | ok a => simp [Except.map]

/-- A result of `mapM` is that of an element. -/
theorem exists_of_mem_mapM {f : α → Except ε β} {l : List α} {bs : List β} {b : β}
    (h : l.mapM f = .ok bs) (hb : b ∈ bs) : ∃ a ∈ l, f a = .ok b := by
  induction l generalizing bs with
  | nil =>
    cases h
    cases hb
  | cons a l ih =>
    rw [List.mapM_cons, bind_eq_ok] at h
    obtain ⟨b', hb', h⟩ := h
    obtain ⟨bs', hbs', h⟩ := bind_eq_ok.mp h
    cases h
    obtain rfl | hb := List.mem_cons.mp hb
    · exact ⟨a, List.mem_cons_self, hb'⟩
    · obtain ⟨a', ha', h⟩ := ih hbs' hb
      exact ⟨a', List.mem_cons_of_mem a ha', h⟩

/-- What the results keep of the elements. -/
theorem map_eq_of_mapM {γ : Type*} {f : α → Except ε β} {g : β → γ} {g' : α → γ}
    (hf : ∀ a b, f a = .ok b → g b = g' a) {l : List α} {bs : List β} (h : l.mapM f = .ok bs) :
    bs.map g = l.map g' := by
  induction l generalizing bs with
  | nil =>
    cases h
    rfl
  | cons a l ih =>
    rw [List.mapM_cons, bind_eq_ok] at h
    obtain ⟨b, hb, h⟩ := h
    obtain ⟨bs', hbs', h⟩ := bind_eq_ok.mp h
    cases h
    rw [List.map_cons, List.map_cons, hf a b hb, ih hbs']

/-- `mapM` has a result when all elements have one. -/
theorem exists_mapM_eq_ok {f : α → Except ε β} {l : List α} (h : ∀ a ∈ l, ∃ b, f a = .ok b) :
    ∃ bs, l.mapM f = .ok bs := by
  induction l with
  | nil => exact ⟨[], rfl⟩
  | cons a l ih =>
    obtain ⟨b, hb⟩ := h a List.mem_cons_self
    obtain ⟨bs, hbs⟩ := ih fun a' ha' => h a' (List.mem_cons_of_mem a ha')
    refine ⟨b :: bs, ?_⟩
    rw [List.mapM_cons]
    exact bind_eq_ok.mpr ⟨b, hb, bind_eq_ok.mpr ⟨bs, hbs, rfl⟩⟩

theorem mapM_eq_ok {f : α → Except ε β} {l : List α} {bs : List β} :
    l.mapM f = .ok bs ↔ l.map f = bs.map .ok := by
  induction l generalizing bs with
  | nil =>
    rw [List.mapM_nil, List.map_nil]
    exact ⟨by rintro ⟨⟩; rfl, fun h => by rw [List.map_eq_nil_iff.mp h.symm]; rfl⟩
  | cons a l ih =>
    rw [List.mapM_cons, bind_eq_ok, List.map_cons]
    constructor
    · rintro ⟨b, hb, h⟩
      obtain ⟨bs', hbs', h⟩ := bind_eq_ok.mp h
      cases h
      rw [hb, ih.mp hbs', List.map_cons]
    · intro h
      cases bs with
      | nil => cases h
      | cons b bs =>
        rw [List.map_cons, List.cons.injEq] at h
        exact ⟨b, h.1, bind_eq_ok.mpr ⟨bs, ih.mpr h.2, rfl⟩⟩

/-- A loop whose rounds are known. -/
theorem mapM_eq_ok_iff {f : α → Except ε β} {p : α → Prop} {g : α → β} {l : List α}
    (hf : ∀ a ∈ l, ∀ b, f a = .ok b ↔ p a ∧ b = g a) {bs : List β} :
    l.mapM f = .ok bs ↔ (∀ a ∈ l, p a) ∧ bs = l.map g := by
  induction l generalizing bs with
  | nil =>
    rw [List.mapM_nil, List.map_nil]
    exact ⟨by rintro ⟨⟩; exact ⟨fun a ha => absurd ha List.not_mem_nil, rfl⟩, fun h => by rw [h.2]; rfl⟩
  | cons a l ih =>
    obtain ⟨hfa, hfl⟩ := List.forall_mem_cons.mp hf
    rw [List.mapM_cons, bind_eq_ok, List.forall_mem_cons, List.map_cons]
    constructor
    · rintro ⟨b, hb, h⟩
      obtain ⟨bs', hbs', h⟩ := bind_eq_ok.mp h
      cases h
      obtain ⟨ha, rfl⟩ := (hfa b).mp hb
      obtain ⟨hl, rfl⟩ := (ih hfl).mp hbs'
      exact ⟨⟨ha, hl⟩, rfl⟩
    · rintro ⟨⟨ha, hl⟩, rfl⟩
      exact ⟨g a, (hfa _).mpr ⟨ha, rfl⟩, bind_eq_ok.mpr ⟨l.map g, (ih hfl).mpr ⟨hl, rfl⟩, rfl⟩⟩

/-- A loop that gathers nothing. -/
theorem mapM_flatten_eq_nil {f : α → Except ε (List β)} {l : List α} :
    (∃ bs, l.mapM f = .ok bs ∧ bs.flatten = []) ↔ ∀ a ∈ l, f a = .ok [] := by
  induction l with
  | nil =>
    rw [List.mapM_nil]
    exact ⟨fun _ a ha => absurd ha List.not_mem_nil, fun _ => ⟨[], rfl, rfl⟩⟩
  | cons a l ih =>
    rw [List.forall_mem_cons, ← ih, List.mapM_cons]
    constructor
    · rintro ⟨bs, h, hflat⟩
      obtain ⟨b, hb, h⟩ := bind_eq_ok.mp h
      obtain ⟨bs', hbs', h⟩ := bind_eq_ok.mp h
      cases h
      rw [List.flatten_cons, List.append_eq_nil_iff] at hflat
      rw [hb, hflat.1]
      exact ⟨rfl, bs', hbs', hflat.2⟩
    · rintro ⟨hb, bs, hbs, hflat⟩
      exact ⟨[] :: bs, bind_eq_ok.mpr ⟨[], hb, bind_eq_ok.mpr ⟨bs, hbs, rfl⟩⟩, hflat⟩

theorem mapM_eq_some {f : α → Option β} {l : List α} {bs : List β} :
    l.mapM f = some bs ↔ l.map f = bs.map some := by
  induction l generalizing bs with
  | nil => cases bs <;> simp
  | cons a l ih =>
    rw [List.mapM_cons]
    cases bs with
    | nil => simp [Option.bind_eq_some_iff]
    | cons b bs => simp [Option.bind_eq_some_iff, ih]

theorem mem_of_mapM_eq_some {f : α → Option β} {l : List α} {bs : List β} {b : β}
    (h : l.mapM f = some bs) : b ∈ bs ↔ ∃ a ∈ l, f a = some b := by
  have hmem : b ∈ bs ↔ some b ∈ bs.map some := by simp
  rw [hmem, ← mapM_eq_some.mp h, List.mem_map]

theorem exists_mem_of_mapM_eq_some {f : α → Option β} {l : List α} {bs : List β} {a : α}
    (h : l.mapM f = some bs) (ha : a ∈ l) : ∃ b ∈ bs, f a = some b := by
  have hmem : f a ∈ bs.map some := by
    rw [← mapM_eq_some.mp h]
    exact List.mem_map_of_mem ha
  obtain ⟨b, hb, heq⟩ := List.mem_map.mp hmem
  exact ⟨b, hb, heq.symm⟩

theorem exists_mapM_eq_some {f : α → Option β} {l : List α} (h : ∀ a ∈ l, (f a).isSome) :
    ∃ bs, l.mapM f = some bs := by
  induction l with
  | nil => exact ⟨[], rfl⟩
  | cons a l ih =>
    obtain ⟨b, hb⟩ := Option.isSome_iff_exists.mp (h a List.mem_cons_self)
    obtain ⟨bs, hbs⟩ := ih fun a' ha' => h a' (List.mem_cons_of_mem a ha')
    exact ⟨b :: bs, by rw [List.mapM_cons, hb, hbs]; rfl⟩

end MongoTests.Lib
