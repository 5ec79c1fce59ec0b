import Mathlib.Data.List.TakeWhile

/-!
# Edits of a list

Parts of a list are replaced, each given by its place and its length. The edits are in the order of
their places.

* `Edit`, `replaceAt`: one edit.
* `splice`: all edits; `replaceAt_splice`: an edit before edits that are done.
* `mem_splice`, `splice_map`, `countP_splice`: what the edits leave alone; `splice_filter`: without the
  edits that change nothing.
* `new_eq_of_splice_eq`: the new parts can be read off the result.
-/

namespace MongoTests.Lib

structure Edit (α : Type*) where
  start : ℕ
  length : ℕ
  new : List α

variable {α β ι : Type*}

def Edit.stop (e : Edit α) : ℕ := e.start + e.length

def Edit.map (f : α → β) (e : Edit α) : Edit β := ⟨e.start, e.length, e.new.map f⟩

def replaceAt (e : Edit α) (s : List α) : List α := s.take e.start ++ (e.new ++ s.drop e.stop)

/-- The list with the new parts, where its first item is at `pos`. -/
def splice : ℕ → List (Edit α) → List α → List α
  | _, [], s => s
  | pos, e :: es, s => s.take (e.start - pos) ++ (e.new ++ splice e.stop es (s.drop (e.stop - pos)))

variable {pos m : ℕ} {e : Edit α} {es : List (Edit α)} {s : List α} {p : α → Bool}

theorem Edit.start_le_stop (e : Edit α) : e.start ≤ e.stop := Nat.le_add_right _ _

/-- The way to a later edit, over the end of an earlier one. -/
theorem sub_add_sub_stop {e' : Edit α} (hpos : pos ≤ e.start) (he : e.stop ≤ e'.start) :
    e.stop - pos + (e'.start - e.stop) = e'.start - pos := by
  have := e.start_le_stop
  omega

/-- Nothing changes before the first edit. -/
theorem splice_eq_append (hpos : pos ≤ m) (hes : ∀ e ∈ es, m ≤ e.start) :
    splice pos es s = s.take (m - pos) ++ splice m es (s.drop (m - pos)) := by
  cases es with
  | nil => rw [splice, splice, List.take_append_drop]
  | cons e es =>
    have hm := hes e List.mem_cons_self
    have hstop := e.start_le_stop
    have hstart : e.start - pos = m - pos + (e.start - m) := by omega
    have hdrop : e.stop - pos = m - pos + (e.stop - m) := by omega
    rw [splice, splice, List.drop_drop, ← hdrop, hstart, List.take_add, List.append_assoc]

theorem take_splice (hes : ∀ e ∈ es, m ≤ e.start) (hm : m ≤ s.length) :
    (splice 0 es s).take m = s.take m := by
  rw [splice_eq_append (Nat.zero_le m) hes, Nat.sub_zero, List.take_append_of_le_length, List.take_take,
    Nat.min_self]
  rw [List.length_take]
  omega

theorem take_drop_splice {k : ℕ} (hes : ∀ e ∈ es, m + k ≤ e.start) (hm : m + k ≤ s.length) :
    ((splice 0 es s).drop m).take k = (s.drop m).take k := by
  rw [List.take_drop, List.take_drop, take_splice hes hm]

theorem replaceAt_splice (hes : ∀ e' ∈ es, e.stop ≤ e'.start) (he : e.stop ≤ s.length) :
    replaceAt e (splice 0 es s) = splice 0 (e :: es) s := by
  have hlength : (s.take e.stop).length = e.stop := by
    rw [List.length_take]
    omega
  have htake : (splice 0 es s).take e.start = s.take e.start :=
    take_splice (fun e' he' => e.start_le_stop.trans (hes e' he')) (e.start_le_stop.trans he)
  rw [replaceAt, htake, splice_eq_append (Nat.zero_le e.stop) hes, Nat.sub_zero, splice, Nat.sub_zero,
    Nat.sub_zero, List.drop_append_of_le_length hlength.ge, List.drop_eq_nil_of_le hlength.le,
    List.nil_append]

theorem splice_map (f : α → β) (pos : ℕ) (es : List (Edit α)) (s : List α) :
    splice pos (es.map (Edit.map f)) (s.map f) = (splice pos es s).map f := by
  induction es generalizing pos s with
  | nil => rfl
  | cons e es ih =>
    rw [List.map_cons, splice, splice, List.map_append, List.map_append, ← ih, List.map_take, List.map_drop]
    rfl

theorem mem_splice {a : α} (h : a ∈ splice pos es s) : a ∈ s ∨ ∃ e ∈ es, a ∈ e.new := by
  induction es generalizing pos s with
  | nil => exact .inl h
  | cons e es ih =>
    rw [splice, List.mem_append, List.mem_append] at h
    rcases h with h | h | h
    · exact .inl (List.mem_of_mem_take h)
    · exact .inr ⟨e, List.mem_cons_self, h⟩
    · obtain h | ⟨e', he', h⟩ := ih h
      · exact .inl (List.mem_of_mem_drop h)
      · exact .inr ⟨e', List.mem_cons_of_mem _ he', h⟩

/-- An edit with the items that are there changes nothing. -/
theorem splice_filter {l : List ι} {f : ι → Edit α} {q : ι → Bool} (hpos : ∀ i ∈ l, pos ≤ (f i).start)
    (hl : l.Pairwise fun i j => (f i).stop ≤ (f j).start)
    (hsame : ∀ i ∈ l, q i = false → (s.drop ((f i).start - pos)).take (f i).length = (f i).new) :
    splice pos ((l.filter q).map f) s = splice pos (l.map f) s := by
  induction l generalizing pos s with
  | nil => rfl
  | cons i l ih =>
    obtain ⟨hfirst, hl⟩ := List.pairwise_cons.mp hl
    have hstart := hpos i List.mem_cons_self
    have hstop : (f i).stop - pos = (f i).start - pos + (f i).length := by
      unfold Edit.stop
      omega
    have hrest : splice (f i).stop ((l.filter q).map f) (s.drop ((f i).stop - pos)) =
        splice (f i).stop (l.map f) (s.drop ((f i).stop - pos)) := by
      refine ih hfirst hl fun j hj hq => ?_
      rw [List.drop_drop, sub_add_sub_stop hstart (hfirst j hj)]
      exact hsame j (List.mem_cons_of_mem _ hj) hq
    rw [List.filter_cons]
    split_ifs with hq
    · rw [List.map_cons, List.map_cons, splice, splice, hrest]
    · have hkept : s.take ((f i).stop - pos) = s.take ((f i).start - pos) ++ (f i).new := by
        rw [hstop, List.take_add, hsame i List.mem_cons_self (Bool.not_eq_true _ ▸ hq)]
      have hafter : ∀ e ∈ (l.filter q).map f, (f i).stop ≤ e.start := by
        intro e he
        obtain ⟨j, hj, rfl⟩ := List.mem_map.mp he
        exact hfirst j (List.mem_filter.mp hj).1
      rw [splice_eq_append (hstart.trans (f i).start_le_stop) hafter, hrest, hkept, List.map_cons, splice,
        List.append_assoc]

/-- The items that are neither replaced nor new. -/
theorem countP_splice (hpos : ∀ e ∈ es, pos ≤ e.start) (hes : es.Pairwise fun e e' => e.stop ≤ e'.start)
    (hnew : ∀ e ∈ es, e.new.countP p = 0)
    (hold : ∀ e ∈ es, ((s.drop (e.start - pos)).take e.length).countP p = 0) :
    (splice pos es s).countP p = s.countP p := by
  induction es generalizing pos s with
  | nil => rfl
  | cons e es ih =>
    obtain ⟨hfirst, hes⟩ := List.pairwise_cons.mp hes
    have hstart := hpos e List.mem_cons_self
    have hstop : e.stop - pos = e.start - pos + e.length := by
      unfold Edit.stop
      omega
    have hrest : (splice e.stop es (s.drop (e.stop - pos))).countP p = (s.drop (e.stop - pos)).countP p := by
      refine ih hfirst hes (fun e' he' => hnew e' (List.mem_cons_of_mem _ he')) fun e' he' => ?_
      rw [List.drop_drop, sub_add_sub_stop hstart (hfirst e' he')]
      exact hold e' (List.mem_cons_of_mem _ he')
    rw [splice, List.countP_append, List.countP_append, hrest, hnew e List.mem_cons_self, Nat.zero_add]
    calc (s.take (e.start - pos)).countP p + (s.drop (e.stop - pos)).countP p
        = (s.take (e.start - pos)).countP p + (((s.drop (e.start - pos)).take e.length).countP p +
            ((s.drop (e.start - pos)).drop e.length).countP p) := by
          rw [hold e List.mem_cons_self, Nat.zero_add, List.drop_drop, hstop]
      _ = s.countP p := by
          rw [← List.countP_append, List.take_append_drop, ← List.countP_append, List.take_append_drop]

/-! ## Reading the new parts -/

theorem head?_splice (hpos : ∀ e ∈ es, pos < e.start ∧ e.start < pos + s.length) :
    (splice pos es s).head? = s.head? := by
  cases es with
  | nil => rfl
  | cons e es =>
    obtain ⟨hlt, hlt'⟩ := hpos e List.mem_cons_self
    cases s with
    | nil =>
      rw [List.length_nil] at hlt'
      omega
    | cons a s =>
      obtain ⟨k, hk⟩ : ∃ k, e.start - pos = k + 1 := ⟨e.start - pos - 1, by omega⟩
      rw [splice, hk, List.take_succ_cons]
      rfl

/-- A part whose items have a property is followed by one that has not. -/
theorem append_inj_of_head? {u v t t' : List α} (hu : ∀ a ∈ u, p a) (hv : ∀ a ∈ v, p a)
    (ht : ∀ a, t.head? = some a → p a = false) (ht' : ∀ a, t'.head? = some a → p a = false)
    (h : u ++ t = v ++ t') : u = v := by
  have hnil : ∀ {t : List α}, (∀ a, t.head? = some a → p a = false) → t.takeWhile p = [] := by
    intro t ht
    cases t with
    | nil => rfl
    | cons a t => exact List.takeWhile_cons_of_neg (by rw [ht a rfl]; exact Bool.false_ne_true)
  have htake := congrArg (List.takeWhile p) h
  rwa [List.takeWhile_append_of_pos hu, List.takeWhile_append_of_pos hv, hnil ht, hnil ht',
    List.append_nil, List.append_nil] at htake

/-- The parts are separated by items without the property. -/
theorem new_eq_of_splice_eq {l : List ι} {start length : ι → ℕ} {f g : ι → List α}
    (hpos : ∀ i ∈ l, pos ≤ start i ∧ start i + length i ≤ pos + s.length ∧ 0 < length i)
    (hl : l.Pairwise fun i j => start i + length i < start j)
    (hsep : ∀ i ∈ l, ∀ a, (s.drop (start i + length i - pos)).head? = some a → p a = false)
    (hf : ∀ i ∈ l, ∀ a ∈ f i, p a) (hg : ∀ i ∈ l, ∀ a ∈ g i, p a)
    (h : splice pos (l.map fun i => ⟨start i, length i, f i⟩) s =
      splice pos (l.map fun i => ⟨start i, length i, g i⟩) s) :
    ∀ i ∈ l, f i = g i := by
  induction l generalizing pos s with
  | nil => exact fun i hi => absurd hi List.not_mem_nil
  | cons i l ih =>
    obtain ⟨hfirst, hl⟩ := List.pairwise_cons.mp hl
    obtain ⟨hle, hlength, -⟩ := hpos i List.mem_cons_self
    have hdroplength : (s.drop (start i + length i - pos)).length = pos + s.length - (start i + length i) := by
      rw [List.length_drop]
      omega
    have hhead : ∀ f : ι → List α, ∀ a,
        (splice (start i + length i) (l.map fun i => ⟨start i, length i, f i⟩)
          (s.drop (start i + length i - pos))).head? = some a → p a = false := by
      intro f a ha
      rw [head?_splice] at ha
      · exact hsep i List.mem_cons_self a ha
      · intro e he
        obtain ⟨j, hj, rfl⟩ := List.mem_map.mp he
        obtain ⟨-, hjlength, hjpos⟩ := hpos j (List.mem_cons_of_mem _ hj)
        have hlt := hfirst j hj
        dsimp only
        omega
    rw [List.map_cons, List.map_cons, splice, splice] at h
    have happend := List.append_cancel_left h
    have hnew : f i = g i := append_inj_of_head? (hf i List.mem_cons_self) (hg i List.mem_cons_self)
      (hhead f) (hhead g) happend
    dsimp only at happend
    rw [hnew] at happend
    refine List.forall_mem_cons.mpr ⟨hnew, ih (fun j hj => ?_) hl (fun j hj a ha => ?_)
      (fun j hj => hf j (List.mem_cons_of_mem _ hj)) (fun j hj => hg j (List.mem_cons_of_mem _ hj))
      (List.append_cancel_left happend)⟩
    · obtain ⟨-, hjlength, hjpos⟩ := hpos j (List.mem_cons_of_mem _ hj)
      have hlt := hfirst j hj
      dsimp only [Edit.stop]
      omega
    · have hlt := hfirst j hj
      dsimp only [Edit.stop] at ha
      have hdrop : start i + length i - pos + (start j + length j - (start i + length i)) =
          start j + length j - pos := by omega
      rw [List.drop_drop, hdrop] at ha
      exact hsep j (List.mem_cons_of_mem _ hj) a ha

end MongoTests.Lib
