import Mathlib.Algebra.BigOperators.Group.Finset.Basic
import Mathlib.Algebra.Order.BigOperators.Group.Finset
import Mathlib.Data.List.Rotate

/-!
# Dealing from a list that is turned

Windows of one size are dealt from a list. When fewer elements are left than a window takes, those
that were dealt are shuffled and put behind those that were not.

* `Shuffler`: outcomes of shuffles; `Deck`: the list, the position in it and the windows so far.
* `deal`, `refill`, `rounds`.
* `Fair`: no element comes again before the others have caught up. `Fair.count_le`: then no two
  of them differ by more than one; `Fair.count_bounds`: how often each has come.
* `exists_window`: enough windows cover the list.
* `fair_rounds`: windows that leave no rest, or at most two laps, are dealt fairly.
* `exists_unfair`: otherwise there are shuffles by which an element comes half as often as another.
-/

namespace MongoTests.Lib

variable {α : Type*}

/-- The outcomes of the calls of a function that shuffles a list. -/
structure Shuffler (α : Type*) where
  shuffle : ℕ → List α → List α
  perm (k : ℕ) (l : List α) : (shuffle k l).Perm l

/-- The first call leaves the list as it is, the others move its first `r` elements to the end. -/
def Shuffler.rotating (α : Type*) (r : ℕ) : Shuffler α where
  shuffle
    | 0, l => l
    | _ + 1, l => l.rotate r
  perm
    | 0, l => .refl l
    | _ + 1, l => List.rotate_perm l r

structure Deck (α : Type*) where
  cards : List α
  start : ℕ
  dealt : List (List α)

namespace Deck

def new (l : List α) : Deck α := ⟨l, 0, []⟩

/-- The next window. -/
def deal (size : ℕ) (d : Deck α) : Deck α where
  cards := d.cards
  start := d.start + size
  dealt := d.dealt ++ [(d.cards.drop d.start).take size]

/-- What was dealt is shuffled and goes to the end. -/
def turn (f : List α → List α) (d : Deck α) : Deck α where
  cards := d.cards.drop d.start ++ f (d.cards.take d.start)
  start := 0
  dealt := d.dealt

/-- The deck is turned if there is not enough left for a window. -/
def refill (f : List α → List α) (size : ℕ) (d : Deck α) : Deck α :=
  if d.cards.length < d.start + size then d.turn f else d

/-- The deck after some windows; `f k` is the shuffle before the window with number `k`. -/
def rounds (f : ℕ → List α → List α) (size : ℕ) (d : Deck α) : ℕ → Deck α
  | 0 => d
  | k + 1 => ((rounds f size d k).refill (f k) size).deal size

@[simp] theorem dealt_refill (f : List α → List α) (size : ℕ) (d : Deck α) :
    (d.refill f size).dealt = d.dealt := by
  unfold refill
  split_ifs <;> rfl

theorem flatten_deal (size : ℕ) (d : Deck α) :
    (d.deal size).dealt.flatten = d.dealt.flatten ++ (d.cards.drop d.start).take size := by
  simp [deal]

section Count

variable [DecidableEq α] (size : ℕ) (d : Deck α) (x : α)

theorem count_deal : (d.deal size).dealt.flatten.count x =
    d.dealt.flatten.count x + ((d.cards.drop d.start).take size).count x := by
  rw [flatten_deal, List.count_append]

theorem count_take_deal : ((d.deal size).cards.take (d.deal size).start).count x =
    (d.cards.take d.start).count x + ((d.cards.drop d.start).take size).count x := by
  rw [← List.count_append, ← List.take_add]
  rfl

end Count

end Deck

/-! ## Laps -/

/-- The number of windows between two turns. -/
def lap (size n : ℕ) : ℕ := max 1 (n / size)

section Lap

variable {size n : ℕ}

theorem one_le_lap : 1 ≤ lap size n := le_max_left _ _

theorem lt_lap_mul_add (hsize : 1 ≤ size) : n < lap size n * size + size := by
  have hdiv : n / size ≤ lap size n := le_max_right _ _
  have hmul : n / size * size ≤ lap size n * size := Nat.mul_le_mul_right _ hdiv
  have hlt := Nat.lt_div_mul_add (a := n) hsize
  omega

theorem lap_mul_le (hle : size ≤ n) (hsize : 1 ≤ size) : lap size n * size ≤ n := by
  have hpos : 1 ≤ n / size := (Nat.one_le_div_iff hsize).mpr hle
  rw [lap, max_eq_right hpos]
  exact Nat.div_mul_le_self n size

theorem lap_of_lt (hlt : n < size) : lap size n = 1 := by
  rw [lap, Nat.div_eq_of_lt hlt]
  rfl

/-- Windows leave no rest if their size divides the length, or if the list fits into one. -/
theorem le_lap_mul_iff (hsize : 1 ≤ size) :
    n ≤ lap size n * size ↔ size ∣ n ∨ n < size := by
  rcases Nat.lt_or_ge n size with hlt | hle
  · rw [lap_of_lt hlt]
    exact iff_of_true (by omega) (.inr hlt)
  · have hlap : lap size n = n / size := max_eq_right ((Nat.one_le_div_iff hsize).mpr hle)
    rw [hlap, Nat.dvd_iff_div_mul_eq, or_iff_left (not_lt.mpr hle)]
    exact ⟨fun h => le_antisymm (Nat.div_mul_le_self n size) h, fun h => h.ge⟩

end Lap

/-- `i` windows were dealt from the deck, which was turned `j` times. -/
structure Deck.At (size : ℕ) (l : List α) (d : Deck α) (j i : ℕ) : Prop where
  cards : d.cards.Perm l
  length : d.dealt.length = j * lap size l.length + i
  start : d.start = i * size
  le : i ≤ lap size l.length

section At

variable {size : ℕ} {l : List α} {d : Deck α} {j i : ℕ}

theorem Deck.At.new {c : List α} (h : c.Perm l) : (Deck.new c).At size l 0 0 :=
  ⟨h, by simp [Deck.new], (Nat.zero_mul size).symm, Nat.zero_le _⟩

theorem Deck.At.deal (h : d.At size l j i) (hi : i < lap size l.length) :
    (d.deal size).At size l j (i + 1) where
  cards := h.cards
  length := by
    rw [Deck.deal, List.length_append, h.length, List.length_singleton]
    rfl
  start := by
    rw [Deck.deal, h.start, Nat.succ_mul]
  le := hi

theorem Deck.At.turn {f : List α → List α} (h : d.At size l j (lap size l.length))
    (hf : ∀ l, (f l).Perm l) : (d.turn f).At size l (j + 1) 0 where
  cards := by
    have happend : (d.turn f).cards.Perm (d.cards.take d.start ++ d.cards.drop d.start) :=
      List.perm_append_comm.trans ((hf _).append_right _)
    rw [List.take_append_drop] at happend
    exact happend.trans h.cards
  length := by
    rw [Deck.turn, h.length, Nat.succ_mul, Nat.add_zero]
  start := (Nat.zero_mul size).symm
  le := Nat.zero_le _

/-- The deck is turned after a lap. A deck that is too small for any window is also turned before the
first one, which does not change it. -/
theorem Deck.At.refill_eq {f : List α → List α} (h : d.At size l j i) (hsize : 1 ≤ size)
    (hf : ∀ l, (f l).Perm l) :
    d.refill f size = if i = lap size l.length then d.turn f else d := by
  have hlength := h.cards.length_eq
  unfold Deck.refill
  rw [hlength, h.start]
  by_cases hi : i = lap size l.length
  · rw [if_pos hi, if_pos (hi ▸ lt_lap_mul_add hsize)]
  · rw [if_neg hi]
    have hlt : i < lap size l.length := lt_of_le_of_ne h.le hi
    split_ifs with hshort
    · have hsmall : l.length < size := by
        by_contra hle
        have hlap := lap_mul_le (not_lt.mp hle) hsize
        have hmul := Nat.mul_le_mul_right size (Nat.succ_le_of_lt hlt)
        rw [Nat.succ_mul] at hmul
        omega
      rw [lap_of_lt hsmall, Nat.lt_one_iff] at hlt
      have hzero : d.start = 0 := by rw [h.start, hlt, Nat.zero_mul]
      obtain ⟨cards, start, dealt⟩ := d
      cases hzero
      have hnil : f [] = [] := (hf []).eq_nil
      simp [Deck.turn, hnil]
    · rfl

/-- Before a window is dealt, there is room for it in the lap. -/
theorem Deck.At.refill {f : List α → List α} (h : d.At size l j i) (hsize : 1 ≤ size)
    (hf : ∀ l, (f l).Perm l) :
    ∃ j' i', (d.refill f size).At size l j' i' ∧ i' < lap size l.length := by
  rw [h.refill_eq hsize hf]
  split_ifs with hi
  · subst hi
    exact ⟨j + 1, 0, h.turn hf, one_le_lap⟩
  · exact ⟨j, i, h, lt_of_le_of_ne h.le hi⟩

/-- Where the deck is after some windows. -/
theorem Deck.at_rounds {f : ℕ → List α → List α} {c : List α} (hsize : 1 ≤ size)
    (hf : ∀ k l, (f k l).Perm l) (hc : c.Perm l) (k : ℕ) :
    ∃ j i, (rounds f size (.new c) k).At size l j i := by
  induction k with
  | zero => exact ⟨0, 0, .new hc⟩
  | succ k ih =>
    obtain ⟨j, i, h⟩ := ih
    obtain ⟨j', i', h', hi'⟩ := h.refill hsize (hf k)
    exact ⟨j', i' + 1, h'.deal hi'⟩

end At

/-! ## Windows -/

section Windows

variable {size : ℕ} {l : List α} {d : Deck α} {j i : ℕ}

theorem Deck.length_dealt_rounds (f : ℕ → List α → List α) (d : Deck α) (k : ℕ) :
    (d.rounds f size k).dealt.length = d.dealt.length + k := by
  induction k with
  | zero => rfl
  | succ k ih =>
    rw [rounds, deal, List.length_append, dealt_refill, ih]
    rfl

/-- The next window has distinct elements, and it is full if the list is long enough. -/
theorem Deck.At.window (h : d.At size l j i) (hi : i < lap size l.length) (hl : l.Nodup)
    (hsize : 1 ≤ size) :
    ((d.cards.drop d.start).take size).Nodup ∧
      ((d.cards.drop d.start).take size).length = min size l.length ∧
      (d.cards.drop d.start).take size ⊆ l := by
  have hsub := (List.take_sublist size _).trans (List.drop_sublist d.start d.cards)
  refine ⟨(h.cards.nodup_iff.mpr hl).sublist hsub, ?_, List.Subset.trans hsub.subset h.cards.subset⟩
  rw [List.length_take, List.length_drop, h.cards.length_eq, h.start]
  by_cases hle : size ≤ l.length
  · have hlap := lap_mul_le hle hsize
    have hmul := Nat.mul_le_mul_right size (Nat.succ_le_of_lt hi)
    rw [Nat.succ_mul] at hmul
    omega
  · rw [lap_of_lt (not_le.mp hle), Nat.lt_one_iff] at hi
    rw [hi, Nat.zero_mul, Nat.sub_zero]

theorem Deck.window_of_mem {f : ℕ → List α → List α} {c : List α} (hl : l.Nodup)
    (hsize : 1 ≤ size) (hf : ∀ k l, (f k l).Perm l) (hc : c.Perm l) {k : ℕ} {w : List α}
    (hw : w ∈ (rounds f size (.new c) k).dealt) :
    w.Nodup ∧ w.length = min size l.length ∧ w ⊆ l := by
  induction k with
  | zero => cases hw
  | succ k ih =>
    obtain ⟨j, i, h⟩ := at_rounds hsize hf hc k
    obtain ⟨j', i', h', hi'⟩ := h.refill hsize (hf k)
    rw [rounds, deal, dealt_refill] at hw
    rcases List.mem_append.mp hw with hw | hw
    · exact ih hw
    · rw [List.mem_singleton.mp hw]
      exact h'.window hi' hl hsize

/-- Windows that were dealt are not taken back. -/
theorem Deck.dealt_le (f : ℕ → List α → List α) (d : Deck α) {k k' : ℕ} (h : k ≤ k') :
    (d.rounds f size k).dealt <+: (d.rounds f size k').dealt := by
  induction h with
  | refl => exact List.prefix_refl _
  | step _ ih =>
    refine ih.trans ?_
    rw [rounds, deal, dealt_refill]
    exact List.prefix_append _ _

section Total

variable {f : ℕ → List α → List α} {c : List α}

theorem Deck.flatten_subset (hl : l.Nodup) (hsize : 1 ≤ size) (hf : ∀ k l, (f k l).Perm l)
    (hc : c.Perm l) (k : ℕ) : (rounds f size (.new c) k).dealt.flatten ⊆ l := by
  intro x hx
  obtain ⟨w, hw, hxw⟩ := List.mem_flatten.mp hx
  exact (window_of_mem hl hsize hf hc hw).2.2 hxw

theorem Deck.length_flatten (hl : l.Nodup) (hsize : 1 ≤ size) (hf : ∀ k l, (f k l).Perm l)
    (hc : c.Perm l) (k : ℕ) :
    (rounds f size (.new c) k).dealt.flatten.length = k * min size l.length := by
  have hconst : (rounds f size (.new c) k).dealt.map List.length =
      List.replicate k (min size l.length) := by
    refine List.eq_replicate_iff.mpr ⟨?_, ?_⟩
    · rw [List.length_map, length_dealt_rounds]
      simp [new]
    · intro n hn
      obtain ⟨w, hw, rfl⟩ := List.mem_map.mp hn
      exact (window_of_mem hl hsize hf hc hw).2.1
  rw [List.length_flatten, hconst, List.sum_replicate]
  rfl

end Total

end Windows

/-! ## Fairness -/

section Fairness

variable [DecidableEq α] {size : ℕ} {l : List α} {d : Deck α} {j i : ℕ}

/-- Whenever an element comes, the others have come as often as it has come before. -/
def Fair (l s : List α) : Prop :=
  ∀ pre x post, s = pre ++ x :: post → ∀ y ∈ l, pre.count x ≤ pre.count y

theorem Fair.of_append {s t : List α} (h : Fair l (s ++ t)) : Fair l s := by
  rintro pre x post rfl
  exact h pre x (post ++ t) (by simp)

theorem Fair.append {s t : List α} (h : Fair l s)
    (ht : ∀ pre x post, t = pre ++ x :: post → ∀ y ∈ l, (s ++ pre).count x ≤ (s ++ pre).count y) :
    Fair l (s ++ t) := by
  intro pre x post heq
  obtain ⟨a, rfl, ht'⟩ | ⟨a, rfl, hpost⟩ := List.append_eq_append_iff.mp heq
  · exact ht a x post ht'
  · cases a with
    | nil => simpa using ht [] x post hpost.symm
    | cons b a =>
      cases hpost
      exact h pre x a rfl

/-- No two elements differ by more than one. -/
theorem Fair.count_le {s : List α} (h : Fair l s) (x : α) {y : α} (hy : y ∈ l) :
    s.count x ≤ s.count y + 1 := by
  induction s using List.reverseRecOn with
  | nil => exact Nat.zero_le _
  | append_singleton s z ih =>
    have hle := ih h.of_append
    rw [List.count_append, List.count_append]
    by_cases hz : z = x
    · -- `x` was not ahead of `y` when it came for the last time.
      have hlast := h s x [] (by rw [hz]) y hy
      rw [hz, List.count_singleton_self]
      omega
    · rw [List.count_singleton, if_neg (by simpa using hz)]
      omega

/-- How often each element has come: the same number for all, once more for those that were put at
the end, and once more for those before the position. -/
structure Deck.Level (l : List α) (d : Deck α) (rest used : List α) (base : ℕ) : Prop where
  cards : d.cards = rest ++ used
  count : ∀ x ∈ l, d.dealt.flatten.count x = base + used.count x + (d.cards.take d.start).count x

section Level

variable {rest used : List α} {base : ℕ}

theorem Deck.Level.new (c : List α) : (Deck.new c).Level l c [] 0 :=
  ⟨(List.append_nil c).symm, fun x _ => by simp [Deck.new]⟩

theorem Deck.Level.deal (h : d.Level l rest used base) :
    (d.deal size).Level l rest used base where
  cards := h.cards
  count := by
    intro x hx
    rw [count_deal, h.count x hx, count_take_deal, Nat.add_assoc]

/-- A turn levels the counts if all or none of the elements were put at the end before. -/
theorem Deck.Level.turn {f : List α → List α} (h : d.Level l rest used base) (hl : l.Nodup)
    (hd : d.cards.Perm l) (hf : ∀ l, (f l).Perm l) (hall : used = [] ∨ rest = []) :
    ∃ base', (d.turn f).Level l (d.cards.drop d.start) (f (d.cards.take d.start)) base' := by
  obtain ⟨extra, hextra⟩ : ∃ extra, ∀ x ∈ l, used.count x = extra := by
    rcases hall with rfl | rfl
    · exact ⟨0, fun x _ => List.count_nil⟩
    · refine ⟨1, fun x hx => ?_⟩
      rw [← List.nil_append used, ← h.cards, hd.count_eq]
      exact List.count_eq_one_of_mem hl hx
  refine ⟨base + extra, rfl, fun x hx => ?_⟩
  rw [(hf _).count_eq]
  show d.dealt.flatten.count x = _
  rw [h.count x hx, hextra x hx]
  simp [Deck.turn]

omit [DecidableEq α] in
/-- An element of the second part comes after the first part. -/
theorem subset_of_append_eq {rest used head tail : List α} {x : α}
    (h : rest ++ used = head ++ x :: tail) (hnodup : (rest ++ used).Nodup) (hx : x ∈ used) :
    rest ⊆ head := by
  obtain ⟨a, rfl, -⟩ | ⟨a, rfl, htail⟩ := List.append_eq_append_iff.mp h
  · exact List.subset_append_left _ _
  · cases a with
    | nil => simp
    | cons b a =>
      cases htail
      exact absurd hx (List.disjoint_of_nodup_append hnodup (by simp))

/-- A window goes on fairly. -/
theorem Deck.Level.fair_deal (h : d.Level l rest used base) (hl : l.Nodup)
    (hd : d.cards.Perm l) (hfair : Fair l d.dealt.flatten) :
    Fair l (d.deal size).dealt.flatten := by
  rw [flatten_deal]
  refine hfair.append fun pre x post hpre y hy => ?_
  -- `x` is the element of the deck after `head`, which has come in this lap.
  obtain ⟨head, hhead⟩ : ∃ head, head = d.cards.take d.start ++ pre := ⟨_, rfl⟩
  have hcards : d.cards = head ++ x :: (post ++ (d.cards.drop d.start).drop size) := by
    rw [hhead, List.append_assoc, ← List.cons_append, ← List.append_assoc pre, ← hpre,
      List.take_append_drop, List.take_append_drop]
  have hnodup : d.cards.Nodup := hd.nodup_iff.mpr hl
  have hx : x ∈ l := hd.subset (hcards ▸ by simp)
  have hxhead : head.count x = 0 := by
    rw [hcards] at hnodup
    exact List.count_eq_zero_of_not_mem fun hmem =>
      (List.disjoint_of_nodup_append hnodup) hmem List.mem_cons_self
  have hcount : ∀ z ∈ l, (d.dealt.flatten ++ pre).count z = base + used.count z + head.count z := by
    intro z hz
    rw [List.count_append, h.count z hz, hhead, List.count_append]
    omega
  rw [hcount x hx, hcount y hy, hxhead]
  rw [h.cards] at hnodup
  by_cases hxused : x ∈ used
  · have hone := List.count_eq_one_of_mem (hnodup.sublist (List.sublist_append_right _ _)) hxused
    by_cases hyused : y ∈ used
    · have hy' := List.count_pos_iff.mpr hyused
      omega
    · have hyrest : y ∈ rest := by
        have hmem := hd.mem_iff.mpr hy
        rw [h.cards] at hmem
        exact (List.mem_append.mp hmem).resolve_right hyused
      have hyhead := subset_of_append_eq (h.cards ▸ hcards) hnodup hxused hyrest
      have hy' := List.count_pos_iff.mpr hyhead
      omega
  · have hzero := List.count_eq_zero_of_not_mem hxused
    omega

end Level

/-- **Fair rounds.** The windows are dealt fairly if they leave no rest, or if there are at most two
laps. -/
theorem Deck.fair_rounds {f : ℕ → List α → List α} {c : List α} (hl : l.Nodup) (hsize : 1 ≤ size)
    (hf : ∀ k l, (f k l).Perm l) (hc : c.Perm l) {k : ℕ}
    (hk : l.length ≤ lap size l.length * size ∨ k ≤ 2 * lap size l.length) :
    Fair l (rounds f size (.new c) k).dealt.flatten := by
  -- In the first lap nothing was put at the end; without a rest, a turn puts everything there.
  suffices h : ∃ j i rest used base, (rounds f size (.new c) k).At size l j i ∧
      (rounds f size (.new c) k).Level l rest used base ∧ (j = 0 → used = []) ∧
      (l.length ≤ lap size l.length * size → used = [] ∨ rest = []) ∧
      Fair l (rounds f size (.new c) k).dealt.flatten by
    obtain ⟨-, -, -, -, -, -, -, -, -, hfair⟩ := h
    exact hfair
  induction k with
  | zero =>
    refine ⟨0, 0, c, [], 0, .new hc, .new c, fun _ => rfl, fun _ => .inl rfl, ?_⟩
    intro pre x post h
    simp [rounds, new] at h
  | succ k ih =>
    obtain ⟨j, i, rest, used, base, hat, hlevel, hfirst, hexact, hfair⟩ := ih (hk.imp_right (by omega))
    rw [rounds, hat.refill_eq hsize (hf k)]
    split_ifs with hi
    · subst hi
      have hall : used = [] ∨ rest = [] := by
        rcases hk with hk | hk
        · exact hexact hk
        · have hlength := hat.length
          rw [length_dealt_rounds] at hlength
          refine .inl (hfirst ?_)
          by_contra hj
          have hmul := Nat.mul_le_mul_right (lap size l.length) (Nat.one_le_iff_ne_zero.mpr hj)
          simp only [new, List.length_nil] at hlength
          omega
      obtain ⟨base', hlevel'⟩ := hlevel.turn hl hat.cards (hf k) hall
      have hat' := hat.turn (hf k)
      refine ⟨j + 1, 1, _, _, base', hat'.deal one_le_lap, hlevel'.deal, nofun, fun hle => .inr ?_,
        hlevel'.fair_deal hl hat'.cards hfair⟩
      rw [hat.start, List.drop_eq_nil_iff, hat.cards.length_eq]
      exact hle
    · exact ⟨j, i + 1, rest, used, base, hat.deal (lt_of_le_of_ne hat.le hi), hlevel.deal, hfirst,
        hexact, hlevel.fair_deal hl hat.cards hfair⟩

/-- Elements that come fairly have come as often as they can have, up to one. -/
theorem Fair.count_bounds {s : List α} (h : Fair l s) (hl : l.Nodup) (hs : s ⊆ l) {x : α}
    (hx : x ∈ l) :
    l.length * s.count x < s.length + l.length ∧ s.length < l.length * (s.count x + 1) := by
  have hsum : ∑ y ∈ l.toFinset, s.count y = s.length := by
    have hcard := Multiset.sum_count_eq_card (s := l.toFinset) (m := (s : Multiset α))
      fun y hy => List.mem_toFinset.mpr (hs hy)
    simpa using hcard
  have hmem : x ∈ l.toFinset := List.mem_toFinset.mpr hx
  have hcard : l.toFinset.card = l.length := List.toFinset_card_of_nodup hl
  constructor
  · have hlt : ∑ _y ∈ l.toFinset, s.count x < ∑ y ∈ l.toFinset, (s.count y + 1) :=
      Finset.sum_lt_sum (fun y hy => h.count_le x (List.mem_toFinset.mp hy))
        ⟨x, hmem, Nat.lt_succ_self _⟩
    rw [Finset.sum_const, Finset.sum_add_distrib, hsum, Finset.sum_const, hcard] at hlt
    simpa using hlt
  · have hlt : ∑ y ∈ l.toFinset, s.count y < ∑ _y ∈ l.toFinset, (s.count x + 1) :=
      Finset.sum_lt_sum (fun y _ => h.count_le y hx) ⟨x, hmem, Nat.lt_succ_self _⟩
    rw [hsum, Finset.sum_const, hcard] at hlt
    simpa using hlt

/-- Enough windows cover the list. -/
theorem Deck.exists_window {f : ℕ → List α → List α} {c : List α} (hl : l.Nodup) (hsize : 1 ≤ size)
    (hf : ∀ k l, (f k l).Perm l) (hc : c.Perm l) {k : ℕ} (hk : l.length ≤ k * size) {x : α}
    (hx : x ∈ l) : ∃ w ∈ (rounds f size (.new c) k).dealt, x ∈ w := by
  -- The first two laps are fair, and they are enough.
  obtain ⟨k₀, hk₀⟩ : ∃ k₀, k₀ = min k (2 * lap size l.length) := ⟨_, rfl⟩
  have hpos := List.length_pos_of_mem hx
  have henough : l.length ≤ k₀ * min size l.length := by
    rcases le_total size l.length with hle | hle
    · have hlt := lt_lap_mul_add (n := l.length) hsize
      have hone : size ≤ lap size l.length * size := Nat.le_mul_of_pos_left size one_le_lap
      rw [min_eq_left hle, hk₀]
      rcases min_choice k (2 * lap size l.length) with h | h
      · rw [h]
        exact hk
      · rw [h, Nat.mul_assoc]
        omega
    · rw [min_eq_right hle]
      refine Nat.le_mul_of_pos_left _ ?_
      rw [hk₀, lt_min_iff]
      refine ⟨Nat.pos_of_ne_zero fun hzero => ?_, Nat.mul_pos (by decide) one_le_lap⟩
      rw [hzero, Nat.zero_mul] at hk
      omega
  have hfair := fair_rounds hl hsize hf hc (k := k₀) (.inr (hk₀ ▸ min_le_right _ _))
  have hbound := (hfair.count_bounds hl (flatten_subset hl hsize hf hc k₀) hx).2
  rw [length_flatten hl hsize hf hc] at hbound
  have hcount : 0 < (rounds f size (.new c) k₀).dealt.flatten.count x := by
    by_contra hzero
    rw [Nat.eq_zero_of_not_pos hzero] at hbound
    omega
  obtain ⟨w, hw, hxw⟩ := List.mem_flatten.mp (List.count_pos_iff.mp hcount)
  exact ⟨w, (dealt_le f (.new c) (hk₀ ▸ min_le_left _ _)).subset hw, hxw⟩

end Fairness

/-! ## Unfair shuffles -/

/-- The first list in even laps, the second one in odd laps. -/
def alternate (a b : List α) (j : ℕ) : List α := if j % 2 = 0 then a else b

theorem alternate_succ (a b : List α) (j : ℕ) : alternate a b (j + 1) = alternate b a j := by
  unfold alternate
  by_cases h : j % 2 = 0
  · have hsucc : ¬ (j + 1) % 2 = 0 := by omega
    rw [if_pos h, if_neg hsucc]
  · have hsucc : (j + 1) % 2 = 0 := by omega
    rw [if_neg h, if_pos hsucc]

theorem length_alternate {a b : List α} (h : a.length = b.length) (j : ℕ) :
    (alternate a b j).length = a.length := by
  unfold alternate
  split_ifs
  · rfl
  · exact h.symm

section Unfair

variable [DecidableEq α] {size j i : ℕ} {d : Deck α} {a m b : List α}

/-- The deck when each shuffle brings the front `a` behind the middle `m`: the rest `b` takes turns
with `a`, and `m` comes in every lap. -/
structure Deck.Skewed (d : Deck α) (a m b : List α) (j : ℕ) : Prop where
  cards : d.cards = alternate a b j ++ (m ++ alternate b a j)
  count_middle : ∀ x ∈ m, d.dealt.flatten.count x = j + (d.cards.take d.start).count x
  count_rest : ∀ y ∈ b, d.dealt.flatten.count y = j / 2 + (d.cards.take d.start).count y

theorem Deck.Skewed.new (a m b : List α) : (Deck.new (a ++ (m ++ b))).Skewed a m b 0 :=
  ⟨rfl, fun x _ => by simp [Deck.new], fun y _ => by simp [Deck.new]⟩

theorem Deck.Skewed.deal (h : d.Skewed a m b j) : (d.deal size).Skewed a m b j where
  cards := h.cards
  count_middle := by
    intro x hx
    rw [count_deal, h.count_middle x hx, count_take_deal, Nat.add_assoc]
  count_rest := by
    intro y hy
    rw [count_deal, h.count_rest y hy, count_take_deal, Nat.add_assoc]

/-- Every element of the middle comes once in a lap. -/
theorem count_middle_front {t : List α} {x : α} (hnodup : (a ++ (m ++ b)).Nodup) (ht : t.Sublist m)
    (hx : x ∈ t) (j : ℕ) : (alternate a b j ++ t).count x = 1 := by
  obtain ⟨-, hmb, hamb⟩ := List.nodup_append'.mp hnodup
  obtain ⟨hm, -, hdisj⟩ := List.nodup_append'.mp hmb
  have hxa : a.count x = 0 := List.count_eq_zero_of_not_mem fun hmem =>
    hamb hmem (List.mem_append_left _ (ht.subset hx))
  have hxb : b.count x = 0 := List.count_eq_zero_of_not_mem fun hmem =>
    hdisj (ht.subset hx) hmem
  rw [List.count_append, List.count_eq_one_of_mem (hm.sublist ht) hx]
  unfold alternate
  split_ifs
  · rw [hxa]
  · rw [hxb]

/-- The elements of the rest come in odd laps. -/
theorem count_rest_front {t : List α} {y : α} (hnodup : (a ++ (m ++ b)).Nodup) (ht : t.Sublist m)
    (hy : y ∈ b) (j : ℕ) : (alternate a b j ++ t).count y = j % 2 := by
  obtain ⟨-, hmb, hamb⟩ := List.nodup_append'.mp hnodup
  obtain ⟨-, hb, hdisj⟩ := List.nodup_append'.mp hmb
  have hyt : t.count y = 0 := List.count_eq_zero_of_not_mem fun hmem => hdisj (ht.subset hmem) hy
  have hya : a.count y = 0 := List.count_eq_zero_of_not_mem fun hmem =>
    hamb hmem (List.mem_append_right _ hy)
  rw [List.count_append, hyt]
  unfold alternate
  split_ifs with hj
  · rw [hya, hj]
  · rw [List.count_eq_one_of_mem hb hy]
    omega

theorem Deck.Skewed.turn (h : d.Skewed a m b j) (hlen : a.length = b.length)
    (hnodup : (a ++ (m ++ b)).Nodup) (hstart : d.start = a.length + m.length) :
    (d.turn fun l => l.rotate a.length).Skewed a m b (j + 1) := by
  have hfront : (alternate a b j ++ m).length = d.start := by
    rw [List.length_append, length_alternate hlen, hstart]
  have htake : d.cards.take d.start = alternate a b j ++ m := by
    rw [h.cards, ← List.append_assoc, ← hfront, List.take_left]
  have hdrop : d.cards.drop d.start = alternate b a j := by
    rw [h.cards, ← List.append_assoc, ← hfront, List.drop_left]
  refine ⟨?_, fun x hx => ?_, fun y hy => ?_⟩
  · rw [Deck.turn, htake, hdrop, ← length_alternate hlen j, List.rotate_append_length_eq,
      alternate_succ, alternate_succ]
  · show d.dealt.flatten.count x = j + 1 + 0
    rw [h.count_middle x hx, htake, count_middle_front hnodup (.refl m) hx]
  · show d.dealt.flatten.count y = (j + 1) / 2 + 0
    rw [h.count_rest y hy, htake, count_rest_front hnodup (.refl m) hy]
    omega

/-- Where the skewed deck is after some windows. -/
theorem Deck.skewed_rounds (hsize : 1 ≤ size) (hlen : a.length = b.length)
    (hnodup : (a ++ (m ++ b)).Nodup)
    (hlap : lap size (a ++ (m ++ b)).length * size = a.length + m.length) (k : ℕ) :
    ∃ j i, (rounds (fun _ l => l.rotate a.length) size (.new (a ++ (m ++ b))) k).At size
        (a ++ (m ++ b)) j i ∧ (0 < k → 1 ≤ i) ∧
      (rounds (fun _ l => l.rotate a.length) size (.new (a ++ (m ++ b))) k).Skewed a m b j := by
  have hperm : ∀ l : List α, (l.rotate a.length).Perm l := fun l => List.rotate_perm l _
  induction k with
  | zero => exact ⟨0, 0, .new (.refl _), nofun, .new a m b⟩
  | succ k ih =>
    obtain ⟨j, i, hat, -, hskew⟩ := ih
    rw [rounds, hat.refill_eq hsize hperm]
    split_ifs with hi
    · subst hi
      have hturn := hskew.turn hlen hnodup (hat.start.trans hlap)
      exact ⟨j + 1, 1, (hat.turn hperm).deal one_le_lap, fun _ => le_rfl, hturn.deal⟩
    · exact ⟨j, i + 1, hat.deal (lt_of_le_of_ne hat.le hi), fun _ => Nat.succ_pos i, hskew.deal⟩

/-- How often the first element of the middle and an element of the rest have come. -/
theorem Deck.Skewed.counts {x y : α} (h : d.Skewed a (x :: m) b j) (hlen : a.length = b.length)
    (hnodup : (a ++ (x :: m ++ b)).Nodup) (hy : y ∈ b) (hlow : a.length < d.start)
    (hhigh : d.start ≤ a.length + (x :: m).length) :
    d.dealt.flatten.count x = j + 1 ∧ d.dealt.flatten.count y = (j + 1) / 2 := by
  obtain ⟨t, ht⟩ := Nat.exists_eq_add_of_lt hlow
  have htake : d.cards.take d.start = alternate a b j ++ x :: m.take t := by
    have hle : t ≤ m.length := by
      rw [List.length_cons] at hhigh
      omega
    rw [h.cards, ht, Nat.add_assoc, ← length_alternate hlen j, List.take_length_add_append,
      List.cons_append, List.take_succ_cons, List.take_append_of_le_length hle]
  have hsub : (x :: m.take t).Sublist (x :: m) := (List.take_sublist t m).cons_cons x
  refine ⟨?_, ?_⟩
  · rw [h.count_middle x List.mem_cons_self, htake,
      count_middle_front hnodup hsub List.mem_cons_self]
  · rw [h.count_rest y hy, htake, count_rest_front hnodup hsub hy]
    omega

/-- **Unfair rounds.** If the windows leave a rest and there are more than two laps, there are
shuffles after which an element has come in every lap and another one in every second lap. -/
theorem Deck.exists_unfair {c : List α} (hc : c.Nodup) (hsize : 1 ≤ size)
    (hrest : lap size c.length * size < c.length) {k : ℕ} (hk : 2 * lap size c.length < k) :
    ∃ r, ∃ x ∈ c, ∃ y ∈ c, ∃ laps ≥ 3,
      (rounds (fun _ l => l.rotate r) size (.new c) k).dealt.flatten.count x = laps ∧
      (rounds (fun _ l => l.rotate r) size (.new c) k).dealt.flatten.count y = laps / 2 := by
  have hlt := lt_lap_mul_add (n := c.length) hsize
  have hpos : size ≤ lap size c.length * size := Nat.le_mul_of_pos_left size one_le_lap
  -- The rest, and as many elements at the front.
  obtain ⟨a, m, b, rfl, hlen, hlap⟩ : ∃ a m b, c = a ++ (m ++ b) ∧ a.length = b.length ∧
      lap size c.length * size = a.length + m.length := by
    obtain ⟨r, hr⟩ := Nat.exists_eq_add_of_le hrest.le
    refine ⟨c.take r, (c.drop r).take (lap size c.length * size - r),
      (c.drop r).drop (lap size c.length * size - r), ?_, ?_, ?_⟩
    · rw [List.take_append_drop, List.take_append_drop]
    · rw [List.length_take, List.length_drop, List.length_drop]
      omega
    · rw [List.length_take, List.length_take, List.length_drop]
      omega
  have hlength : (a ++ (m ++ b)).length = a.length + (m.length + b.length) := by simp
  obtain ⟨j, i, hat, hi, hskew⟩ := skewed_rounds hsize hlen hc hlap k
  have hone := Nat.mul_le_mul_right size (hi (by omega))
  have hmax := Nat.mul_le_mul_right size hat.le
  have hj : 2 ≤ j := by
    have hround := hat.length
    have hle := hat.le
    rw [length_dealt_rounds] at hround
    simp only [new, List.length_nil] at hround
    by_contra hj
    have hmul := Nat.mul_le_mul_right (lap size (a ++ (m ++ b)).length) (show j ≤ 1 by omega)
    omega
  cases m with
  | nil =>
    rw [List.length_nil] at hlap hlength
    omega
  | cons x m =>
    cases b with
    | nil =>
      rw [List.length_nil] at hlength
      omega
    | cons y b =>
      have hcounts := hskew.counts hlen hc List.mem_cons_self
        (by rw [hat.start]; omega) (by rw [hat.start]; omega)
      exact ⟨a.length, x, by simp, y, by simp, j + 1, by omega, hcounts⟩

end Unfair

end MongoTests.Lib
