import Mathlib.Data.List.Nodup
import Mathlib.Order.WellFounded

/-!
# Trees by their children

A type of trees is given by the children of each tree. A place in a tree is the list of the numbers
of the children on the way to it.

* `descend`: the tree at a place; `IsPreorder`: a function that lists the trees with a property, a tree
  before its children.
* `Lists`: a list that has each tree with a property once, by its place.
* **`IsPreorder.lists`**: the first is the second.
-/

namespace MongoTests.Lib.Tree

variable {α : Type*} (children : α → List α)

def descend : α → List ℕ → Option α
  | a, [] => some a
  | a, n :: place =>
    match (children a)[n]? with
    | none => none
    | some b => descend b place

/-- The places are different and lead to the listed trees. -/
structure Lists (p : α → Prop) (a : α) (bs : List α) (places : List (List ℕ)) : Prop where
  nodup : places.Nodup
  mem_iff : ∀ place, place ∈ places ↔ ∃ b, descend children a place = some b ∧ p b
  at_places : places.map (descend children a) = bs.map some

structure IsPreorder (p : α → Prop) [DecidablePred p] (f : α → List α) : Prop where
  wf : WellFounded fun b a => b ∈ children a
  eq : ∀ a, f a = (if p a then [a] else []) ++ (children a).flatMap f

variable {children} {p : α → Prop}

theorem descend_cons (a : α) (n : ℕ) (place : List ℕ) :
    descend children a (n :: place) = ((children a)[n]?).bind fun b => descend children b place := by
  rw [descend]
  cases (children a)[n]? <;> rfl

/-- What the children list, where the first of them has the number `n`. -/
theorem exists_lists_children {f : α → List α} {a : α} {bs : List α} {n : ℕ}
    (hbs : (children a).drop n = bs) (h : ∀ b ∈ bs, ∃ places, Lists children p b (f b) places) :
    ∃ places : List (List ℕ), places.Nodup ∧
      (∀ place, place ∈ places ↔ ∃ m rest, place = m :: rest ∧ n ≤ m ∧
        ∃ b, descend children a place = some b ∧ p b) ∧
      places.map (descend children a) = (bs.flatMap f).map some := by
  induction bs generalizing n with
  | nil =>
    refine ⟨[], List.nodup_nil, fun place => ?_, rfl⟩
    simp only [List.not_mem_nil, false_iff, not_exists, not_and]
    rintro m rest rfl hle b hb
    rw [List.drop_eq_nil_iff] at hbs
    rw [descend_cons, List.getElem?_eq_none (hbs.trans hle), Option.bind_none] at hb
    cases hb
  | cons b bs ih =>
    obtain ⟨hb, hrest⟩ := List.forall_mem_cons.mp h
    have hget : (children a)[n]? = some b := by
      rw [← Nat.add_zero n, ← List.getElem?_drop, hbs]
      rfl
    have hdrop : (children a).drop (n + 1) = bs := by
      rw [← List.drop_drop, hbs]
      rfl
    have hdescend : ∀ place, descend children a (n :: place) = descend children b place := by
      intro place
      rw [descend_cons, hget, Option.bind_some]
    obtain ⟨first, hfirst⟩ := hb
    obtain ⟨later, hnodup, hmem, hat⟩ := ih hdrop hrest
    refine ⟨first.map (n :: ·) ++ later, ?_, fun place => ?_, ?_⟩
    · refine List.Nodup.append (hfirst.nodup.map fun _ _ h => (List.cons.inj h).2) hnodup ?_
      rintro place hleft hright
      obtain ⟨rest, -, rfl⟩ := List.mem_map.mp hleft
      obtain ⟨m, rest', heq, hle, -⟩ := (hmem _).mp hright
      cases heq
      omega
    · rw [List.mem_append, List.mem_map, hmem]
      constructor
      · rintro (⟨rest, hr, rfl⟩ | ⟨m, rest, rfl, hle, hp⟩)
        · refine ⟨n, rest, rfl, le_refl n, ?_⟩
          rw [hdescend]
          exact (hfirst.mem_iff rest).mp hr
        · exact ⟨m, rest, rfl, (Nat.le_succ n).trans hle, hp⟩
      · rintro ⟨m, rest, rfl, hle, hp⟩
        obtain rfl | hlt := hle.eq_or_lt
        · rw [hdescend] at hp
          exact .inl ⟨rest, (hfirst.mem_iff rest).mpr hp, rfl⟩
        · exact .inr ⟨m, rest, rfl, hlt, hp⟩
    · rw [List.map_append, hat, List.map_map, List.flatMap_cons, List.map_append, ← hfirst.at_places]
      exact congrArg (· ++ _) (List.map_congr_left fun place _ => hdescend place)

theorem IsPreorder.lists [DecidablePred p] {f : α → List α} (hf : IsPreorder children p f) (a : α) :
    ∃ places, Lists children p a (f a) places := by
  induction a using hf.wf.induction with
  | _ a ih =>
    obtain ⟨places, hnodup, hmem, hat⟩ := exists_lists_children (List.drop_zero) ih
    have hcons : ∀ place, place ∈ places → place ≠ [] := by
      rintro _ h rfl
      obtain ⟨m, rest, heq, -⟩ := (hmem []).mp h
      cases heq
    have hmem' : ∀ place, place ∈ places ↔ place ≠ [] ∧ ∃ b, descend children a place = some b ∧ p b := by
      intro place
      rw [hmem]
      constructor
      · rintro ⟨m, rest, rfl, -, hp⟩
        exact ⟨List.cons_ne_nil _ _, hp⟩
      · rintro ⟨hne, hp⟩
        obtain ⟨m, rest, rfl⟩ := List.exists_cons_of_ne_nil hne
        exact ⟨m, rest, rfl, Nat.zero_le m, hp⟩
    rw [hf.eq]
    by_cases ha : p a
    · refine ⟨[] :: places, List.nodup_cons.mpr ⟨fun h => hcons [] h rfl, hnodup⟩, fun place => ?_, ?_⟩
      · rw [List.mem_cons, hmem']
        by_cases hne : place = []
        · subst hne
          exact iff_of_true (.inl rfl) ⟨a, rfl, ha⟩
        · rw [or_iff_right hne, and_iff_right hne]
      · rw [if_pos ha, List.map_cons, hat]
        rfl
    · refine ⟨places, hnodup, fun place => ?_, ?_⟩
      · rw [hmem', and_iff_right_iff_imp]
        rintro ⟨b, hb, hp⟩ rfl
        cases hb
        exact ha hp
      · rw [if_neg ha, hat]
        rfl

end MongoTests.Lib.Tree
