import Mathlib.Data.Nat.Notation
import Mathlib.Order.Basic

/-!
# Patterns in a text

A pattern that may match at the start of a text, and the scan of a text for it from the left: at every
place the first match is taken and skipped. The scan gives the items between the matches as they are.

* `Pattern`, `Pattern.literal`: a match is not empty and lies in the text.
* `scan`, `findall`, `search`, `replace`; `finditer`, with the places of the matches.
* `scan_append_of_none`, `scan_of_some`: a scan up to a place and from it on.
-/

namespace MongoTests.Lib

structure Pattern (α μ : Type*) where
  match? : List α → Option μ
  /-- The number of items that a match takes. -/
  size : μ → ℕ
  size_pos : ∀ s x, match? s = some x → 0 < size x
  size_le : ∀ s x, match? s = some x → size x ≤ s.length

namespace Pattern

variable {α μ : Type*} (p : Pattern α μ)

/-- The text `old`. -/
def literal [DecidableEq α] (old : List α) (hold : old ≠ []) : Pattern α Unit where
  match? s := if old <+: s then some () else none
  size _ := old.length
  size_pos _ _ _ := List.length_pos_iff.mpr hold
  size_le s x h := by
    split_ifs at h with hpre
    exact hpre.length_le

/-- The items and the matches of a text, after so many items are skipped. -/
def scan : ℕ → List α → List (α ⊕ μ)
  | _, [] => []
  | k + 1, _ :: s => scan k s
  | 0, a :: s =>
    match p.match? (a :: s) with
    | some x => .inr x :: scan (p.size x - 1) s
    | none => .inl a :: scan 0 s

/-- `re.findall` -/
def findall (s : List α) : List μ := (p.scan 0 s).filterMap Sum.getRight?

/-- `re.search` -/
def search : List α → Option μ
  | [] => none
  | a :: s => (p.match? (a :: s)).or (search s)

/-- The text with `new` for every match. -/
def replace (new s : List α) : List α := (p.scan 0 s).flatMap (Sum.elim (fun a => [a]) fun _ => new)

/-- The matches with their places, where the text starts at `pos` and so many items are skipped. -/
def iterFrom : ℕ → ℕ → List α → List (ℕ × μ)
  | _, _, [] => []
  | k + 1, pos, _ :: s => iterFrom k (pos + 1) s
  | 0, pos, a :: s =>
    match p.match? (a :: s) with
    | some x => (pos, x) :: iterFrom (p.size x - 1) (pos + 1) s
    | none => iterFrom 0 (pos + 1) s

/-- `re.finditer` -/
def finditer (s : List α) : List (ℕ × μ) := p.iterFrom 0 0 s

variable {p} {before s s' : List α} {x : μ}

theorem match?_nil : p.match? [] = none := by
  refine Option.eq_none_iff_forall_ne_some.mpr fun x hx => ?_
  have hpos := p.size_pos [] x hx
  have hle := p.size_le [] x hx
  rw [List.length_nil] at hle
  omega

theorem scan_skip (k : ℕ) (s : List α) : p.scan k s = p.scan 0 (s.drop k) := by
  induction s generalizing k with
  | nil => rw [List.drop_nil, scan, scan]
  | cons a s ih => cases k with
    | zero => rw [List.drop_zero]
    | succ k => rw [scan, List.drop_succ_cons, ih]

/-- Without a match up to a place, the scan begins there. -/
theorem scan_append_of_none
    (h : ∀ b c, before = b ++ c → c ≠ [] → p.match? (c ++ s) = none) :
    p.scan 0 (before ++ s) = before.map Sum.inl ++ p.scan 0 s := by
  induction before with
  | nil => rfl
  | cons a before ih =>
    have hnone : p.match? (a :: (before ++ s)) = none := h [] (a :: before) rfl (List.cons_ne_nil _ _)
    rw [List.cons_append, scan, hnone, List.map_cons, List.cons_append]
    refine congrArg _ (ih fun b c hbc hc => h (a :: b) c ?_ hc)
    rw [hbc, List.cons_append]

theorem scan_eq_of_none (h : ∀ b c, s = b ++ c → c ≠ [] → p.match? c = none) :
    p.scan 0 s = s.map Sum.inl := by
  have hscan : p.scan 0 (s ++ []) = s.map Sum.inl ++ p.scan 0 [] :=
    scan_append_of_none fun b c hbc hc => by
      rw [List.append_nil]
      exact h b c hbc hc
  rw [List.append_nil] at hscan
  rw [hscan, scan, List.append_nil]

theorem scan_of_some (h : p.match? s = some x) :
    p.scan 0 s = .inr x :: p.scan 0 (s.drop (p.size x)) := by
  cases s with
  | nil =>
    rw [match?_nil] at h
    cases h
  | cons a s =>
    have hpos := p.size_pos _ x h
    obtain ⟨k, hk⟩ : ∃ k, p.size x = k + 1 := ⟨p.size x - 1, by omega⟩
    rw [scan, h]
    dsimp only
    rw [scan_skip, hk, List.drop_succ_cons, Nat.add_sub_cancel]

theorem findall_append_of_none
    (h : ∀ b c, before = b ++ c → c ≠ [] → p.match? (c ++ s) = none) :
    p.findall (before ++ s) = p.findall s := by
  have hitems : (before.map Sum.inl : List (α ⊕ μ)).filterMap Sum.getRight? = [] := by
    rw [List.filterMap_map, List.filterMap_eq_nil_iff]
    exact fun _ _ => rfl
  rw [findall, scan_append_of_none h, List.filterMap_append, hitems, List.nil_append, findall]

theorem findall_of_some (h : p.match? s = some x) :
    p.findall s = x :: p.findall (s.drop (p.size x)) := by
  rw [findall, scan_of_some h]
  rfl

theorem findall_eq_nil (h : ∀ b c, s = b ++ c → c ≠ [] → p.match? c = none) : p.findall s = [] := by
  rw [findall, scan_eq_of_none h, List.filterMap_map, List.filterMap_eq_nil_iff]
  exact fun _ _ => rfl

theorem search_append_of_none
    (h : ∀ b c, before = b ++ c → c ≠ [] → p.match? (c ++ s) = none) :
    p.search (before ++ s) = p.search s := by
  induction before with
  | nil => rfl
  | cons a before ih =>
    have hnone : p.match? (a :: (before ++ s)) = none := h [] (a :: before) rfl (List.cons_ne_nil _ _)
    rw [List.cons_append, search, hnone, Option.none_or]
    refine ih fun b c hbc hc => h (a :: b) c ?_ hc
    rw [hbc, List.cons_append]

theorem search_of_some (h : p.match? s = some x) : p.search s = some x := by
  cases s with
  | nil =>
    rw [match?_nil] at h
    cases h
  | cons a s => rw [search, h, Option.some_or]

/-- The first place where the pattern matches, if it matches anywhere. -/
theorem exists_first (s : List α) :
    (∀ b c, s = b ++ c → c ≠ [] → p.match? c = none) ∨
      ∃ before s' x, s = before ++ s' ∧ p.match? s' = some x ∧
        ∀ b c, before = b ++ c → c ≠ [] → p.match? (c ++ s') = none := by
  induction s with
  | nil =>
    refine .inl fun b c hbc hc => absurd ?_ hc
    exact (List.append_eq_nil_iff.mp hbc.symm).2
  | cons a s ih =>
    cases ha : p.match? (a :: s) with
    | some x =>
      refine .inr ⟨[], a :: s, x, rfl, ha, fun b c hbc hc => absurd ?_ hc⟩
      exact (List.append_eq_nil_iff.mp hbc.symm).2
    | none =>
      obtain hnone | ⟨before, s', x, rfl, hx, hfirst⟩ := ih
      · refine .inl fun b c hbc hc => ?_
        cases b with
        | nil => exact (congrArg p.match? hbc).symm.trans ha
        | cons _ b => exact hnone b c (List.cons.inj hbc).2 hc
      · refine .inr ⟨a :: before, s', x, rfl, hx, fun b c hbc hc => ?_⟩
        cases b with
        | nil =>
          obtain rfl : a :: before = c := hbc
          exact ha
        | cons _ b => exact hfirst b c (List.cons.inj hbc).2 hc

/-- `re.search` finds a match iff `re.findall` does, and then the first one. -/
theorem search_eq_head? (s : List α) : p.search s = (p.findall s).head? := by
  obtain hnone | ⟨before, s', x, rfl, hx, hfirst⟩ := exists_first (p := p) s
  · have hsearch : p.search (s ++ []) = p.search [] := search_append_of_none fun b c hbc hc => by
      rw [List.append_nil]
      exact hnone b c hbc hc
    rw [List.append_nil] at hsearch
    rw [hsearch, findall_eq_nil hnone]
    rfl
  · rw [search_append_of_none hfirst, search_of_some hx, findall_append_of_none hfirst,
      findall_of_some hx]
    rfl

theorem exists_match?_of_search (h : p.search s = some x) : ∃ s', p.match? s' = some x := by
  induction s with
  | nil => cases h
  | cons a s ih =>
    rw [search, Option.or_eq_some_iff] at h
    obtain h | ⟨-, h⟩ := h
    · exact ⟨_, h⟩
    · exact ih h

theorem mem_iterFrom {k pos i : ℕ} (h : (i, x) ∈ p.iterFrom k pos s) :
    ∃ n, i = pos + n ∧ p.match? (s.drop n) = some x := by
  induction s generalizing k pos with
  | nil => cases h
  | cons a s ih =>
    have hrest : ∀ k', (i, x) ∈ p.iterFrom k' (pos + 1) s →
        ∃ n, i = pos + n ∧ p.match? ((a :: s).drop n) = some x := by
      intro k' hmem
      obtain ⟨n, rfl, hn⟩ := ih hmem
      exact ⟨n + 1, by omega, hn⟩
    cases k with
    | succ k => exact hrest k h
    | zero =>
      rw [iterFrom] at h
      split at h
      · rename_i y hy
        obtain heq | h := List.mem_cons.mp h
        · cases heq
          exact ⟨0, rfl, hy⟩
        · exact hrest _ h
      · exact hrest _ h

theorem le_of_mem_iterFrom {k pos : ℕ} {m : ℕ × μ} (h : m ∈ p.iterFrom k pos s) : pos + k ≤ m.1 := by
  induction s generalizing k pos with
  | nil => cases h
  | cons a s ih =>
    cases k with
    | succ k =>
      have := ih h
      omega
    | zero =>
      rw [iterFrom] at h
      split at h
      · obtain rfl | h := List.mem_cons.mp h
        · exact Nat.le_refl _
        · have := ih h
          omega
      · have := ih h
        omega

/-- The matches do not overlap. -/
theorem pairwise_iterFrom (k pos : ℕ) (s : List α) :
    (p.iterFrom k pos s).Pairwise fun m m' => m.1 + p.size m.2 ≤ m'.1 := by
  induction s generalizing k pos with
  | nil => exact List.Pairwise.nil
  | cons a s ih =>
    cases k with
    | succ k => exact ih k (pos + 1)
    | zero =>
      rw [iterFrom]
      split
      · rename_i y hy
        refine List.pairwise_cons.mpr ⟨fun m hm => ?_, ih _ _⟩
        have hpos := p.size_pos _ y hy
        have hle := le_of_mem_iterFrom hm
        dsimp only
        omega
      · exact ih 0 (pos + 1)

theorem mem_finditer {i : ℕ} (h : (i, x) ∈ p.finditer s) : p.match? (s.drop i) = some x := by
  obtain ⟨n, rfl, hn⟩ := mem_iterFrom h
  rwa [Nat.zero_add]

theorem pairwise_finditer (s : List α) :
    (p.finditer s).Pairwise fun m m' => m.1 + p.size m.2 ≤ m'.1 := pairwise_iterFrom 0 0 s

/-- Where a literal text occurs once. -/
theorem replace_literal [DecidableEq α] {old new after : List α} (hold : old ≠ [])
    (hbefore : ∀ b c, before = b ++ c → c ≠ [] → ¬ old <+: c ++ (old ++ after))
    (hafter : ∀ b c, after = b ++ c → c ≠ [] → ¬ old <+: c) :
    (literal old hold).replace new (before ++ (old ++ after)) = before ++ (new ++ after) := by
  have hmatch : (literal old hold).match? (old ++ after) = some () :=
    if_pos (List.prefix_append old after)
  have hitems : ∀ l : List α, (l.map Sum.inl).flatMap
      (Sum.elim (fun a => [a]) fun _ : Unit => new) = l := by
    intro l
    rw [List.flatMap_map]
    exact List.flatMap_singleton' l
  rw [replace, scan_append_of_none fun b c hbc hc => if_neg (hbefore b c hbc hc),
    scan_of_some hmatch, List.flatMap_append, List.flatMap_cons, hitems]
  have hdrop : (old ++ after).drop ((literal old hold).size ()) = after := List.drop_left
  rw [hdrop, scan_eq_of_none fun b c hbc hc => if_neg (hafter b c hbc hc), hitems]
  rfl

end Pattern

end MongoTests.Lib
