import Mathlib.Data.Finset.Basic
import Mathlib.Data.Finset.Lattice.Lemmas
import Mathlib.Data.List.Sort
import MongoTests.Lib.Dict
import MongoTests.Lib.Heap

/-!
# Tag files

`TagsConfig` of `ciconfig/tags.py`. The configuration refers to the patterns of a kind, and these to
lists of tags that are changed in place; a reference may be null.

* `addTag`, `removeTag`, `removeTestPattern`, `getTags`, `getTestPatterns`: the methods.
* `TagMap`: a map from kinds and patterns to sets of tags, with the same operations.
* `Owned`: no two kinds and no two patterns share an object.
* **`tags_config_refines`**: a configuration whose objects are not shared behaves as the map.
* `shared_tags_change`: a list of tags that two patterns share.
-/

namespace MongoTests.CiConfig

open MongoTests.Lib

/-! ## Configurations -/

/-- `list.sort`, by the texts or by `cmp_func`: whatever the order is, no tag is lost or added. -/
structure TagSort where
  sort : List String → List String
  perm : ∀ tags, (sort tags).Perm tags

/-- The sort without `cmp_func`. -/
def TagSort.default : TagSort where
  sort := List.insertionSort (· ≤ ·)
  perm := List.perm_insertionSort _

/-- The dictionary `_conf`, and the dictionaries and lists that it refers to; `none` is null. -/
structure TagsConfig where
  conf : Dict String (Option ℕ)
  patterns : Heap (Dict String (Option ℕ))
  tags : Heap (List String)

/-- `getdefault`, with the object that is found. -/
def getdefault {α : Type*} (doc : Dict String (Option ℕ)) (heap : Heap α) (key : String)
    (default : α) : α :=
  match (doc.get key).join with
  | some value => heap.cell value
  | none => default

/-- `setdefault`, for a new object at `default`. -/
def setdefault (doc : Dict String (Option ℕ)) (key : String) (default : ℕ) :
    ℕ × Dict String (Option ℕ) :=
  match (doc.get key).join with
  | some value => (value, doc)
  | none => (default, doc.set key (some default))

namespace TagsConfig

/-- `getdefault(self._conf, test_kind, {})` -/
def kindPatterns (c : TagsConfig) (testKind : String) : Dict String (Option ℕ) :=
  getdefault c.conf c.patterns testKind Dict.empty

def getTestPatterns (c : TagsConfig) (testKind : String) : List String := (c.kindPatterns testKind).keys

def getTags (c : TagsConfig) (testKind testPattern : String) : List String :=
  getdefault (c.kindPatterns testKind) c.tags testPattern []

/-- `setdefault(self._conf, test_kind, {})` -/
def openKind (c : TagsConfig) (testKind : String) : ℕ × TagsConfig :=
  let r := setdefault c.conf testKind c.patterns.next
  (r.1, { c with conf := r.2, patterns := c.patterns.alloc Dict.empty })

/-- `setdefault(patterns, test_pattern, [])` -/
def openPattern (c : TagsConfig) (patterns : ℕ) (testPattern : String) : ℕ × TagsConfig :=
  let r := setdefault (c.patterns.cell patterns) testPattern c.tags.next
  (r.1, { c with patterns := c.patterns.write patterns fun _ => r.2, tags := c.tags.alloc [] })

/-- A list of tags is changed in place. -/
def writeTags (c : TagsConfig) (tags : ℕ) (f : List String → List String) : TagsConfig :=
  { c with tags := c.tags.write tags f }

/-- `del patterns[test_pattern]` -/
def delPattern (c : TagsConfig) (patterns : ℕ) (testPattern : String) : TagsConfig :=
  { c with patterns := c.patterns.write patterns fun doc => doc.erase testPattern }

def addTag (s : TagSort) (c : TagsConfig) (testKind testPattern tag : String) : Bool × TagsConfig :=
  let (patterns, c) := c.openKind testKind
  let (tags, c) := c.openPattern patterns testPattern
  if tag ∉ c.tags.cell tags then (true, c.writeTags tags fun l => s.sort (l ++ [tag]))
  else (false, c)

def removeTag (c : TagsConfig) (testKind testPattern tag : String) : Bool × TagsConfig :=
  match (c.conf.get testKind).join with
  | none => (false, c)
  | some patterns =>
    match ((c.patterns.cell patterns).get testPattern).join with
    | none => (false, c)
    | some tags =>
      if tag ∈ c.tags.cell tags then
        let c := c.writeTags tags fun l => l.filter (· ≠ tag)
        if c.tags.cell tags = [] then (true, c.delPattern patterns testPattern) else (true, c)
      else (false, c)

def removeTestPattern (c : TagsConfig) (testKind testPattern : String) : TagsConfig :=
  match (c.conf.get testKind).join with
  | none => c
  | some patterns =>
    if testPattern ∉ (c.patterns.cell patterns).keys then c else c.delPattern patterns testPattern

end TagsConfig

/-- A call of a method that changes the configuration. -/
inductive Edit
  | addTag (testKind testPattern tag : String)
  | removeTag (testKind testPattern tag : String)
  | removeTestPattern (testKind testPattern : String)

namespace TagsConfig

variable (s : TagSort)

/-- A call, with what it returns. -/
def edit (c : TagsConfig) : Edit → Option Bool × TagsConfig
  | .addTag testKind testPattern tag => (c.addTag s testKind testPattern tag).map some id
  | .removeTag testKind testPattern tag => (c.removeTag testKind testPattern tag).map some id
  | .removeTestPattern testKind testPattern => (none, c.removeTestPattern testKind testPattern)

def edits (c : TagsConfig) : List Edit → List (Option Bool) × TagsConfig
  | [] => ([], c)
  | e :: es =>
    let r := c.edit s e
    let rest := r.2.edits es
    (r.1 :: rest.1, rest.2)

end TagsConfig

/-! ## The map -/

section Put

variable {α β : Type*}

/-- A value for one kind and one pattern. -/
def put (m : String → String → α) (k p : String) (v : α) : String → String → α :=
  Function.update m k (Function.update (m k) p v)

variable {m : String → String → α} {k p : String} {v v' : α}

theorem put_apply (k' p' : String) :
    put m k p v k' p' = if k' = k ∧ p' = p then v else m k' p' := by
  by_cases hk : k' = k
  · subst hk
    rw [put, Function.update_self]
    by_cases hp : p' = p
    · rw [hp, Function.update_self, if_pos ⟨rfl, rfl⟩]
    · rw [Function.update_of_ne hp, if_neg fun h => hp h.2]
  · rw [put, Function.update_of_ne hk, if_neg fun h => hk h.1]

theorem put_self : put m k p v k p = v := by rw [put_apply, if_pos ⟨rfl, rfl⟩]

theorem put_put : put (put m k p v) k p v' = put m k p v' := by
  funext k' p'
  simp only [put_apply]
  split_ifs <;> rfl

theorem put_eq_self : put m k p (m k p) = m := by
  funext k' p'
  rw [put_apply]
  split_ifs with h
  · rw [h.1, h.2]
  · rfl

theorem map_put (f : α → β) : (fun k' p' => f (put m k p v k' p')) =
    put (fun k' p' => f (m k' p')) k p (f v) := by
  funext k' p'
  simp only [put_apply]
  split_ifs <;> rfl

end Put

/-- A map from kinds to maps from patterns to sets of tags. -/
abbrev TagMap : Type := String → String → Option (Finset String)

namespace TagMap

/-- The tags of a pattern, none if it is not there. -/
def tags (m : TagMap) (k p : String) : Finset String := (m k p).getD ∅

def edit (m : TagMap) : Edit → TagMap
  | .addTag k p tag => put m k p (some (insert tag (m.tags k p)))
  | .removeTag k p tag =>
    if tag ∈ m.tags k p then
      let rest := (m.tags k p).erase tag
      put m k p (if rest = ∅ then none else some rest)
    else m
  | .removeTestPattern k p => put m k p none

/-- `add_tag` and `remove_tag` tell whether the set of tags has changed. -/
def result (m : TagMap) (e : Edit) : Option Bool :=
  match e with
  | .addTag k p _ | .removeTag k p _ => some (decide ((m.edit e).tags k p ≠ m.tags k p))
  | .removeTestPattern _ _ => none

def edits (m : TagMap) : List Edit → List (Option Bool) × TagMap
  | [] => ([], m)
  | e :: es => (m.result e :: ((m.edit e).edits es).1, ((m.edit e).edits es).2)

variable {m : TagMap} {k p tag : String}

theorem tags_put (v : Option (Finset String)) : tags (put m k p v) k p = v.getD ∅ := by
  rw [tags, put_self]

theorem tags_addTag : (m.edit (.addTag k p tag)).tags k p = insert tag (m.tags k p) := tags_put _

theorem tags_removeTag : (m.edit (.removeTag k p tag)).tags k p = (m.tags k p).erase tag := by
  by_cases hmem : tag ∈ m.tags k p
  · simp only [edit, hmem, if_true]
    rw [tags_put]
    split_ifs with hrest
    · rw [hrest, Option.getD_none]
    · rw [Option.getD_some]
  · simp only [edit, hmem, if_false]
    rw [Finset.erase_eq_of_notMem hmem]

theorem result_addTag : m.result (.addTag k p tag) = some (decide (tag ∉ m.tags k p)) := by
  simp only [result, tags_addTag, ne_eq, Finset.insert_eq_self]

theorem result_removeTag : m.result (.removeTag k p tag) = some (decide (tag ∈ m.tags k p)) := by
  simp only [result, tags_removeTag, ne_eq, Finset.erase_eq_self, not_not]

end TagMap

/-! ## Shared objects -/

section Doc

variable {α : Type*} {doc : Dict String (Option ℕ)} {heap : Heap α} {key key' : String}
  {default : ℕ}

theorem getdefault_of_get {a : ℕ} (h : doc.get key = some (some a)) (x : α) :
    getdefault doc heap key x = heap.cell a := by
  rw [getdefault, h, Option.join_some]

theorem getdefault_of_none (h : (doc.get key).join = none) (x : α) :
    getdefault doc heap key x = x := by
  rw [getdefault, h]

theorem setdefault_cases (doc : Dict String (Option ℕ)) (key : String) (default : ℕ) :
    (doc.get key = some (some (setdefault doc key default).1) ∧ (setdefault doc key default).2 = doc) ∨
      ((doc.get key).join = none ∧ setdefault doc key default = (default, doc.set key (some default))) := by
  cases h : (doc.get key).join with
  | some value =>
    simp only [setdefault, h]
    exact .inl ⟨Option.join_eq_some_iff.mp h, trivial⟩
  | none =>
    simp only [setdefault, h]
    exact .inr ⟨trivial, trivial⟩

theorem get_setdefault :
    (setdefault doc key default).2.get key = some (some (setdefault doc key default).1) := by
  obtain ⟨hget, hdoc⟩ | ⟨-, h⟩ := setdefault_cases doc key default
  · rw [hdoc, hget]
  · rw [h, Dict.get_set, if_pos rfl]

/-- The references of the other keys do not change. -/
theorem get_setdefault_of_ne (h : key' ≠ key) :
    (setdefault doc key default).2.get key' = doc.get key' := by
  obtain ⟨-, hdoc⟩ | ⟨-, heq⟩ := setdefault_cases doc key default
  · rw [hdoc]
  · rw [heq, Dict.get_set, if_neg h]

end Doc

namespace TagsConfig

/-- The references to the objects of the configuration are in use, and no two kinds and no two
patterns refer to one object. -/
structure Owned (c : TagsConfig) : Prop where
  kindUsed : ∀ k a, c.conf.get k = some (some a) → a < c.patterns.next
  kindOnce : ∀ k k' a, c.conf.get k = some (some a) → c.conf.get k' = some (some a) → k = k'
  used : ∀ k p b, (c.kindPatterns k).get p = some (some b) → b < c.tags.next
  once : ∀ k p k' p' b, (c.kindPatterns k).get p = some (some b) →
    (c.kindPatterns k').get p' = some (some b) → k' = k ∧ p' = p

/-- The tags of a pattern that is there; null is read as no tags. -/
def view (c : TagsConfig) (k p : String) : Option (List String) :=
  ((c.kindPatterns k).get p).map fun tags => (tags.map c.tags.cell).getD []

/-- The map that a configuration stands for. -/
def toMap (c : TagsConfig) : TagMap := fun k p => (c.view k p).map List.toFinset

/-- The lists of tags are free of duplicates. -/
def DupFree (c : TagsConfig) : Prop := ∀ k p, (c.getTags k p).Nodup

variable {c : TagsConfig} {k k' p p' : String} {a b : ℕ}

theorem getTags_eq : c.getTags k p = (c.view k p).getD [] := by
  rw [getTags, getdefault, view]
  cases (c.kindPatterns k).get p with
  | none => rfl
  | some tags => cases tags with
    | none => rfl
    | some b => rfl

theorem tags_toMap : c.toMap.tags k p = (c.getTags k p).toFinset := by
  rw [TagMap.tags, toMap, getTags_eq]
  cases c.view k p with
  | none => rfl
  | some tags => rfl

theorem mem_getTestPatterns : p ∈ c.getTestPatterns k ↔ c.toMap k p ≠ none := by
  rw [getTestPatterns, Dict.mem_keys, toMap, view, ne_eq, Option.map_eq_none_iff,
    Option.map_eq_none_iff, ← ne_eq, Option.ne_none_iff_exists']

theorem view_of_get (h : (c.kindPatterns k).get p = some (some b)) :
    c.view k p = some (c.tags.cell b) := by
  rw [view, h]
  rfl

/-! ### The dictionaries of patterns -/

/-- A dictionary of patterns is changed in place. -/
theorem kindPatterns_write (h : c.Owned) (hk : c.conf.get k = some (some a))
    (f : Dict String (Option ℕ) → Dict String (Option ℕ)) (tags : Heap (List String)) :
    kindPatterns ⟨c.conf, c.patterns.write a f, tags⟩ k' =
      if k' = k then f (c.kindPatterns k) else c.kindPatterns k' := by
  by_cases hkk : k' = k
  · rw [if_pos hkk, hkk, kindPatterns, getdefault_of_get hk, kindPatterns, getdefault_of_get hk,
      Heap.cell_write_self]
  · rw [if_neg hkk, kindPatterns, kindPatterns, getdefault, getdefault]
    cases hk' : (c.conf.get k').join with
    | none => rfl
    | some a' =>
      have hne : a' ≠ a := by
        rintro rfl
        exact hkk (h.kindOnce k' k a' (Option.join_eq_some_iff.mp hk') hk)
      exact Heap.cell_write_of_ne hne

theorem conf_openKind : (c.openKind k).2.conf.get k = some (some (c.openKind k).1) := get_setdefault

/-- A new dictionary of patterns is empty, as the missing one was. -/
theorem kindPatterns_openKind (h : c.Owned) :
    (c.openKind k).2.kindPatterns k' = c.kindPatterns k' := by
  rw [kindPatterns, kindPatterns, getdefault, getdefault]
  have hold : ∀ a', (c.conf.get k').join = some a' →
      (c.patterns.alloc Dict.empty).cell a' = c.patterns.cell a' := fun a' ha =>
    Heap.cell_alloc_of_lt (h.kindUsed k' a' (Option.join_eq_some_iff.mp ha))
  have hsame : (c.openKind k).2.conf.get k' = c.conf.get k' →
      (match ((c.openKind k).2.conf.get k').join with
        | some value => (c.openKind k).2.patterns.cell value
        | none => Dict.empty) =
      match (c.conf.get k').join with
        | some value => c.patterns.cell value
        | none => Dict.empty := by
    intro heq
    rw [heq]
    cases ha : (c.conf.get k').join with
    | none => rfl
    | some a' => exact hold a' ha
  by_cases hkk : k' = k
  · subst hkk
    obtain ⟨hget, hdoc⟩ | ⟨hnone, hset⟩ := setdefault_cases c.conf k' c.patterns.next
    · exact hsame (congrArg (Dict.get · k') hdoc)
    · rw [conf_openKind, hnone, openKind, hset]
      exact Heap.cell_alloc_next
  · exact hsame (get_setdefault_of_ne hkk)

theorem Owned.openKind (h : c.Owned) : (c.openKind k).2.Owned := by
  have hkind : ∀ k', (c.openKind k).2.kindPatterns k' = c.kindPatterns k' := fun _ =>
    kindPatterns_openKind h
  have hconf : ∀ k' a', (c.openKind k).2.conf.get k' = some (some a') →
      c.conf.get k' = some (some a') ∨ k' = k ∧ a' = c.patterns.next := by
    intro k' a' hget
    obtain ⟨-, hdoc⟩ | ⟨-, hset⟩ := setdefault_cases c.conf k c.patterns.next
    · exact .inl ((congrArg (Dict.get · k') hdoc).symm.trans hget)
    · rw [TagsConfig.openKind, hset, Dict.get_set] at hget
      split_ifs at hget with hkk
      · cases hget
        exact .inr ⟨hkk, rfl⟩
      · exact .inl hget
  constructor
  · intro k' a' hget
    rw [TagsConfig.openKind, Heap.next_alloc]
    obtain hget | ⟨-, rfl⟩ := hconf k' a' hget
    · exact Nat.lt_succ_of_lt (h.kindUsed k' a' hget)
    · exact Nat.lt_succ_self _
  · intro k₁ k₂ a' h₁ h₂
    obtain h₁' | ⟨rfl, rfl⟩ := hconf k₁ a' h₁
    · obtain h₂' | ⟨rfl, rfl⟩ := hconf k₂ a' h₂
      · exact h.kindOnce k₁ k₂ a' h₁' h₂'
      · exact absurd (h.kindUsed k₁ _ h₁') (Nat.lt_irrefl _)
    · obtain h₂' | ⟨rfl, -⟩ := hconf k₂ _ h₂
      · exact absurd (h.kindUsed k₂ _ h₂') (Nat.lt_irrefl _)
      · rfl
  · intro k' p b hget
    rw [hkind] at hget
    exact h.used k' p b hget
  · intro k₁ p₁ k₂ p₂ b h₁ h₂
    rw [hkind] at h₁ h₂
    exact h.once k₁ p₁ k₂ p₂ b h₁ h₂

theorem view_openKind (h : c.Owned) : (c.openKind k).2.view = c.view := by
  funext k' p'
  rw [view, view, kindPatterns_openKind h]
  rfl

/-! ### The lists of tags -/

section Pattern

variable (h : c.Owned) (hk : c.conf.get k = some (some a))
include h hk

theorem kindPatterns_openPattern :
    (c.openPattern a p).2.kindPatterns k' =
      if k' = k then (setdefault (c.kindPatterns k) p c.tags.next).2 else c.kindPatterns k' := by
  have hcell : c.patterns.cell a = c.kindPatterns k := (getdefault_of_get hk _).symm
  rw [openPattern, hcell]
  exact kindPatterns_write h hk _ _

theorem get_openPattern :
    ((c.openPattern a p).2.kindPatterns k).get p = some (some (c.openPattern a p).1) := by
  have hcell : c.patterns.cell a = c.kindPatterns k := (getdefault_of_get hk _).symm
  rw [kindPatterns_openPattern h hk, if_pos rfl, get_setdefault, openPattern, hcell]

/-- The references other than the new one are those from before. -/
theorem get_openPattern_cases (hget : ((c.openPattern a p).2.kindPatterns k').get p' = some (some b)) :
    (c.kindPatterns k').get p' = some (some b) ∨ (k' = k ∧ p' = p) ∧ b = c.tags.next := by
  rw [kindPatterns_openPattern h hk] at hget
  split_ifs at hget with hkk
  · subst hkk
    obtain ⟨-, hdoc⟩ | ⟨-, hset⟩ := setdefault_cases (c.kindPatterns k') p c.tags.next
    · rw [hdoc] at hget
      exact .inl hget
    · rw [hset, Dict.get_set] at hget
      split_ifs at hget with hpp
      · cases hget
        exact .inr ⟨⟨rfl, hpp⟩, rfl⟩
      · exact .inl hget
  · exact .inl hget

theorem Owned.openPattern : (c.openPattern a p).2.Owned := by
  constructor
  · exact h.kindUsed
  · exact h.kindOnce
  · intro k' p' b hget
    rw [TagsConfig.openPattern, Heap.next_alloc]
    obtain hget | ⟨-, rfl⟩ := get_openPattern_cases h hk hget
    · exact Nat.lt_succ_of_lt (h.used k' p' b hget)
    · exact Nat.lt_succ_self _
  · intro k₁ p₁ k₂ p₂ b h₁ h₂
    obtain h₁' | ⟨⟨rfl, rfl⟩, rfl⟩ := get_openPattern_cases h hk h₁
    · obtain h₂' | ⟨⟨rfl, rfl⟩, rfl⟩ := get_openPattern_cases h hk h₂
      · exact h.once k₁ p₁ k₂ p₂ b h₁' h₂'
      · exact absurd (h.used k₁ p₁ _ h₁') (Nat.lt_irrefl _)
    · obtain h₂' | ⟨⟨rfl, rfl⟩, -⟩ := get_openPattern_cases h hk h₂
      · exact absurd (h.used k₂ p₂ _ h₂') (Nat.lt_irrefl _)
      · exact ⟨rfl, rfl⟩

/-- A new list of tags is empty, as the missing one was. -/
theorem view_openPattern :
    (c.openPattern a p).2.view = put c.view k p (some (c.getTags k p)) := by
  have hcell : c.patterns.cell a = c.kindPatterns k := (getdefault_of_get hk _).symm
  have hold : ∀ k' p' b, (c.kindPatterns k').get p' = some (some b) →
      (c.tags.alloc []).cell b = c.tags.cell b := fun k' p' b hb =>
    Heap.cell_alloc_of_lt (h.used k' p' b hb)
  funext k' p'
  rw [put_apply]
  split_ifs with hkp
  · obtain ⟨rfl, rfl⟩ := hkp
    rw [view_of_get (get_openPattern h hk), getTags, openPattern, hcell]
    obtain ⟨hget, -⟩ | ⟨hnone, hset⟩ :=
      setdefault_cases (c.kindPatterns k') p' c.tags.next
    · rw [getdefault_of_get hget]
      exact congrArg some (hold k' p' _ hget)
    · rw [getdefault, hnone, hset]
      exact congrArg some Heap.cell_alloc_next
  · have hsame : ((c.openPattern a p).2.kindPatterns k').get p' = (c.kindPatterns k').get p' := by
      rw [kindPatterns_openPattern h hk]
      split_ifs with hkk
      · subst hkk
        exact get_setdefault_of_ne fun hpp => hkp ⟨rfl, hpp⟩
      · rfl
    rw [view, view, hsame]
    cases hget : (c.kindPatterns k').get p' with
    | none => rfl
    | some tags => cases tags with
      | none => rfl
      | some b => exact congrArg some (hold k' p' b hget)

theorem kindPatterns_delPattern :
    (c.delPattern a p).kindPatterns k' =
      if k' = k then (c.kindPatterns k).erase p else c.kindPatterns k' :=
  kindPatterns_write h hk _ _

theorem get_delPattern :
    ((c.delPattern a p).kindPatterns k').get p' =
      if k' = k ∧ p' = p then none else (c.kindPatterns k').get p' := by
  rw [kindPatterns_delPattern h hk]
  by_cases hkk : k' = k
  · rw [if_pos hkk, Dict.get_erase, hkk]
    simp only [true_and]
  · rw [if_neg hkk, if_neg fun hkp => hkk hkp.1]

theorem Owned.delPattern : (c.delPattern a p).Owned := by
  have hget : ∀ k' p' b, ((c.delPattern a p).kindPatterns k').get p' = some (some b) →
      (c.kindPatterns k').get p' = some (some b) := by
    intro k' p' b hb
    rw [get_delPattern h hk] at hb
    split_ifs at hb
    exact hb
  constructor
  · exact h.kindUsed
  · exact h.kindOnce
  · exact fun k' p' b hb => h.used k' p' b (hget k' p' b hb)
  · exact fun k₁ p₁ k₂ p₂ b h₁ h₂ => h.once k₁ p₁ k₂ p₂ b (hget k₁ p₁ b h₁) (hget k₂ p₂ b h₂)

theorem view_delPattern : (c.delPattern a p).view = put c.view k p none := by
  funext k' p'
  rw [put_apply, view, get_delPattern h hk]
  split_ifs
  · rfl
  · rfl

end Pattern

theorem Owned.writeTags (h : c.Owned) (b : ℕ) (f : List String → List String) :
    (c.writeTags b f).Owned := ⟨h.kindUsed, h.kindOnce, h.used, h.once⟩

/-- A list that is changed in place is the list of one pattern. -/
theorem view_writeTags (h : c.Owned) (hb : (c.kindPatterns k).get p = some (some b))
    (f : List String → List String) :
    (c.writeTags b f).view = put c.view k p (some (f (c.tags.cell b))) := by
  funext k' p'
  rw [put_apply]
  split_ifs with hkp
  · obtain ⟨rfl, rfl⟩ := hkp
    have hget : ((c.writeTags b f).kindPatterns k').get p' = some (some b) := hb
    rw [view_of_get hget, writeTags, Heap.cell_write_self]
  · have hsame : (c.writeTags b f).kindPatterns k' = c.kindPatterns k' := rfl
    rw [view, view, hsame]
    cases hget : (c.kindPatterns k').get p' with
    | none => rfl
    | some tags => cases tags with
      | none => rfl
      | some b' =>
        have hne : b' ≠ b := by
          rintro rfl
          exact hkp (h.once k p k' p' b' hb hget)
        exact congrArg some (Heap.cell_write_of_ne hne)

/-! ## The methods -/

variable {tag : String} {s : TagSort}

/-- What `add_tag` does to a configuration. -/
theorem addTag_spec (s : TagSort) (h : c.Owned) (k p tag : String) :
    (c.addTag s k p tag).2.Owned ∧
      (c.addTag s k p tag).1 = decide (tag ∉ c.getTags k p) ∧
      (c.addTag s k p tag).2.view = put c.view k p (some (if tag ∈ c.getTags k p then c.getTags k p
        else s.sort (c.getTags k p ++ [tag]))) := by
  have hkind := conf_openKind (c := c) (k := k)
  have howned := h.openKind (k := k)
  have hview := view_openKind (k := k) h
  have htags : (c.openKind k).2.getTags k p = c.getTags k p := by
    rw [getTags_eq, hview, ← getTags_eq]
  rw [addTag]
  dsimp only
  generalize c.openKind k = r at hkind howned hview htags
  have hget := get_openPattern (p := p) howned hkind
  have hview' := view_openPattern (p := p) howned hkind
  have howned' := howned.openPattern (p := p) hkind
  rw [hview, htags] at hview'
  generalize r.2.openPattern r.1 p = r' at hget hview' howned'
  have hcell : r'.2.tags.cell r'.1 = c.getTags k p := by
    have hself : r'.2.view k p = some (c.getTags k p) := by rw [hview', put_self]
    rw [view_of_get hget] at hself
    exact Option.some_inj.mp hself
  rw [hcell]
  by_cases hmem : tag ∈ c.getTags k p
  · rw [if_neg (not_not.mpr hmem), if_pos hmem]
    exact ⟨howned', (decide_eq_false (not_not.mpr hmem)).symm, hview'⟩
  · rw [if_pos hmem, if_neg hmem]
    refine ⟨howned'.writeTags _ _, (decide_eq_true hmem).symm, ?_⟩
    rw [view_writeTags howned' hget, hview', put_put, hcell]

/-- A tag that is not there is not removed. -/
theorem removeTag_of_notMem (h : tag ∉ c.getTags k p) : c.removeTag k p tag = (false, c) := by
  rw [removeTag]
  cases hk : (c.conf.get k).join with
  | none => rfl
  | some a =>
    have hcell : c.patterns.cell a = c.kindPatterns k :=
      (getdefault_of_get (Option.join_eq_some_iff.mp hk) _).symm
    dsimp only
    rw [hcell]
    cases hp : ((c.kindPatterns k).get p).join with
    | none => rfl
    | some b =>
      have htags : c.tags.cell b = c.getTags k p :=
        (getdefault_of_get (Option.join_eq_some_iff.mp hp) _).symm
      dsimp only
      rw [htags, if_neg h]

/-- A tag that is there is removed from its list, and the list if it is empty then. -/
theorem removeTag_of_mem (h : tag ∈ c.getTags k p) : ∃ a b, c.conf.get k = some (some a) ∧
    (c.kindPatterns k).get p = some (some b) ∧ c.tags.cell b = c.getTags k p ∧
      c.removeTag k p tag = (true, if (c.getTags k p).filter (· ≠ tag) = [] then
        (c.writeTags b fun l => l.filter (· ≠ tag)).delPattern a p
        else c.writeTags b fun l => l.filter (· ≠ tag)) := by
  cases hk : (c.conf.get k).join with
  | none =>
    rw [getTags, kindPatterns, getdefault_of_none hk] at h
    cases h
  | some a =>
    cases hp : ((c.kindPatterns k).get p).join with
    | none =>
      rw [getTags, getdefault_of_none hp] at h
      cases h
    | some b =>
      have hk' := Option.join_eq_some_iff.mp hk
      have hp' := Option.join_eq_some_iff.mp hp
      have hcell : c.patterns.cell a = c.kindPatterns k := (getdefault_of_get hk' _).symm
      have htags : c.tags.cell b = c.getTags k p := (getdefault_of_get hp' _).symm
      have hnew : (c.writeTags b fun l => l.filter (· ≠ tag)).tags.cell b =
          (c.getTags k p).filter (· ≠ tag) := by
        rw [writeTags, Heap.cell_write_self, htags]
      refine ⟨a, b, hk', hp', htags, ?_⟩
      rw [removeTag, hk]
      dsimp only
      rw [hcell, hp]
      dsimp only
      rw [htags, if_pos h, hnew]
      split_ifs
      · rfl
      · rfl

/-- What `remove_tag` does to a configuration. -/
theorem removeTag_spec (h : c.Owned) (k p tag : String) :
    (c.removeTag k p tag).2.Owned ∧
      (c.removeTag k p tag).1 = decide (tag ∈ c.getTags k p) ∧
      (c.removeTag k p tag).2.view =
        if tag ∈ c.getTags k p then
          put c.view k p (if (c.getTags k p).filter (· ≠ tag) = [] then none
            else some ((c.getTags k p).filter (· ≠ tag)))
        else c.view := by
  by_cases hmem : tag ∈ c.getTags k p
  · obtain ⟨a, b, hk, hp, htags, hremove⟩ := removeTag_of_mem hmem
    have hwrite := view_writeTags h hp fun l => l.filter (· ≠ tag)
    have howned := h.writeTags b fun l => l.filter (· ≠ tag)
    rw [htags] at hwrite
    rw [hremove, if_pos hmem]
    by_cases hempty : (c.getTags k p).filter (· ≠ tag) = []
    · rw [if_pos hempty, if_pos hempty]
      refine ⟨howned.delPattern hk, (decide_eq_true hmem).symm, ?_⟩
      rw [view_delPattern howned hk, hwrite, put_put]
    · rw [if_neg hempty, if_neg hempty]
      exact ⟨howned, (decide_eq_true hmem).symm, hwrite⟩
  · rw [removeTag_of_notMem hmem, if_neg hmem]
    exact ⟨h, (decide_eq_false hmem).symm, rfl⟩

/-- What `remove_test_pattern` does to a configuration. -/
theorem removeTestPattern_spec (h : c.Owned) (k p : String) :
    (c.removeTestPattern k p).Owned ∧ (c.removeTestPattern k p).view = put c.view k p none := by
  have hsame : (c.kindPatterns k).get p = none → c.view = put c.view k p none := by
    intro hnone
    have hview : c.view k p = none := by rw [view, hnone, Option.map_none]
    rw [← hview, put_eq_self]
  rw [removeTestPattern]
  cases hk : (c.conf.get k).join with
  | none =>
    refine ⟨h, hsame ?_⟩
    rw [kindPatterns, getdefault_of_none hk]
    rfl
  | some a =>
    have hk' := Option.join_eq_some_iff.mp hk
    have hcell : c.patterns.cell a = c.kindPatterns k := (getdefault_of_get hk' _).symm
    dsimp only
    rw [hcell]
    split_ifs with hmem
    · exact ⟨h.delPattern hk', view_delPattern h hk'⟩
    · refine ⟨h, hsame ?_⟩
      rw [Dict.mem_keys, ← Option.ne_none_iff_exists', not_not] at hmem
      exact hmem

/-! ## The refinement -/

theorem toMap_of_view {c' : TagsConfig} {v : Option (List String)} (h : c'.view = put c.view k p v) :
    c'.toMap = put c.toMap k p (v.map List.toFinset) := by
  have hmap := map_put (m := c.view) (k := k) (p := p) (v := v) (Option.map List.toFinset)
  unfold toMap
  rw [h, hmap]

theorem DupFree.of_view {c' : TagsConfig} {v : Option (List String)} (h : c.DupFree)
    (hview : c'.view = put c.view k p v) (hv : (v.getD []).Nodup) : c'.DupFree := by
  intro k' p'
  rw [getTags_eq, hview, put_apply]
  split_ifs
  · exact hv
  · rw [← getTags_eq]
    exact h k' p'

theorem DupFree.edit (h : c.DupFree) (ho : c.Owned) (e : Edit) : (c.edit s e).2.DupFree := by
  cases e with
  | addTag k p tag =>
    refine h.of_view (addTag_spec s ho k p tag).2.2 ?_
    rw [Option.getD_some]
    split_ifs with hmem
    · exact h k p
    · refine (s.perm _).nodup_iff.mpr ((h k p).append (List.nodup_singleton tag) ?_)
      exact List.disjoint_singleton.mpr hmem
  | removeTag k p tag =>
    have hview := (removeTag_spec ho k p tag).2.2
    split_ifs at hview with hmem hempty
    · exact h.of_view hview List.nodup_nil
    · exact h.of_view hview ((h k p).filter _)
    · intro k' p'
      rw [getTags_eq]
      refine (congrArg (fun v => ((v k' p').getD []).Nodup) hview).mpr ?_
      rw [← getTags_eq]
      exact h k' p'
  | removeTestPattern k p => exact h.of_view (removeTestPattern_spec ho k p).2 List.nodup_nil

theorem Owned.edit (h : c.Owned) (e : Edit) : (c.edit s e).2.Owned := by
  cases e with
  | addTag k p tag => exact (addTag_spec s h k p tag).1
  | removeTag k p tag => exact (removeTag_spec h k p tag).1
  | removeTestPattern k p => exact (removeTestPattern_spec h k p).1

theorem toFinset_filter_ne (l : List String) (tag : String) :
    (l.filter (· ≠ tag)).toFinset = l.toFinset.erase tag := by
  ext x
  simp only [List.mem_toFinset, List.mem_filter, Finset.mem_erase, decide_eq_true_iff]
  exact and_comm

/-- One call. -/
theorem edit_refines (h : c.Owned) (e : Edit) :
    (c.edit s e).1 = c.toMap.result e ∧ (c.edit s e).2.toMap = c.toMap.edit e := by
  cases e with
  | addTag k p tag =>
    obtain ⟨-, hres, hview⟩ := addTag_spec s h k p tag
    constructor
    · rw [TagMap.result_addTag, tags_toMap]
      simp only [List.mem_toFinset]
      exact congrArg some hres
    · have hset : (if tag ∈ c.getTags k p then c.getTags k p
          else s.sort (c.getTags k p ++ [tag])).toFinset = insert tag (c.getTags k p).toFinset := by
        split_ifs with hmem
        · exact (Finset.insert_eq_of_mem (List.mem_toFinset.mpr hmem)).symm
        · rw [List.toFinset_eq_of_perm _ _ (s.perm _), List.toFinset_append, Finset.union_comm]
          rfl
      refine (toMap_of_view hview).trans ?_
      rw [Option.map_some, hset, TagMap.edit, tags_toMap]
  | removeTag k p tag =>
    obtain ⟨-, hres, hview⟩ := removeTag_spec h k p tag
    constructor
    · rw [TagMap.result_removeTag, tags_toMap]
      simp only [List.mem_toFinset]
      exact congrArg some hres
    · rw [TagMap.edit, tags_toMap]
      simp only [List.mem_toFinset, ← toFinset_filter_ne, List.toFinset_eq_empty_iff]
      by_cases hmem : tag ∈ c.getTags k p
      · rw [if_pos hmem] at hview ⊢
        refine (toMap_of_view hview).trans ?_
        split_ifs
        · rfl
        · rfl
      · rw [if_neg hmem] at hview ⊢
        exact congrArg (fun v k p => (v k p).map List.toFinset) hview
  | removeTestPattern k p =>
    exact ⟨rfl, toMap_of_view (removeTestPattern_spec h k p).2⟩

/-- A run of calls. -/
theorem edits_refine (h : c.Owned) (hdup : c.DupFree) (es : List Edit) :
    (c.edits s es).2.DupFree ∧ (c.edits s es).1 = (c.toMap.edits es).1 ∧
      (c.edits s es).2.toMap = (c.toMap.edits es).2 := by
  induction es generalizing c with
  | nil => exact ⟨hdup, rfl, rfl⟩
  | cons e es ih =>
    obtain ⟨hres, hmap⟩ := edit_refines (s := s) h e
    obtain ⟨hdup', hress, hmaps⟩ := ih (h.edit e) (hdup.edit h e)
    rw [hmap] at hress hmaps
    refine ⟨hdup', ?_, hmaps⟩
    rw [edits, TagMap.edits]
    exact congrArg₂ List.cons hres hress

end TagsConfig

/-- **A tag configuration behaves as a map** from kinds and patterns to sets of tags, if no two kinds
and no two patterns share an object: after any calls, the lists of tags are free of duplicates, the
tags and the patterns are those of the map, and the calls have returned whether a set has changed. -/
theorem tags_config_refines (s : TagSort) (c : TagsConfig) (h : c.Owned) (hdup : c.DupFree)
    (es : List Edit) :
    (c.edits s es).1 = (c.toMap.edits es).1 ∧
      ∀ k p,
        ((c.edits s es).2.getTags k p).Nodup ∧
        ((c.edits s es).2.getTags k p).toFinset = (c.toMap.edits es).2.tags k p ∧
        (p ∈ (c.edits s es).2.getTestPatterns k ↔ (c.toMap.edits es).2 k p ≠ none) := by
  obtain ⟨hdup', hres, hmap⟩ := TagsConfig.edits_refine (s := s) h hdup es
  refine ⟨hres, fun k p => ⟨hdup' k p, ?_, ?_⟩⟩
  · rw [← hmap, TagsConfig.tags_toMap]
  · rw [← hmap, TagsConfig.mem_getTestPatterns]

/-- A kind with two patterns; `refs` are their references to the lists. -/
def twoPatterns (refs : Option ℕ × Option ℕ) (lists : List (List String)) : TagsConfig where
  conf := ⟨[("js_test", some 0), ("cpp_unit_test", none)], by decide⟩
  patterns := ⟨fun _ => ⟨[("a.js", refs.1), ("b.js", refs.2)], by simp⟩, 1⟩
  tags := ⟨fun b => lists.getD b [], lists.length⟩

section TwoPatterns

variable {refs : Option ℕ × Option ℕ} {lists : List (List String)} {k p : String} {a b : ℕ}

theorem conf_twoPatterns (h : (twoPatterns refs lists).conf.get k = some (some a)) :
    k = "js_test" ∧ a = 0 := by
  have hmem : (k, some a) ∈ [("js_test", some 0), ("cpp_unit_test", none)] := Dict.mem_items.mpr h
  simpa using hmem

theorem get_twoPatterns
    (h : ((twoPatterns refs lists).kindPatterns k).get p = some (some b)) :
    k = "js_test" ∧ (p = "a.js" ∧ refs.1 = some b ∨ p = "b.js" ∧ refs.2 = some b) := by
  cases hk : ((twoPatterns refs lists).conf.get k).join with
  | none =>
    rw [TagsConfig.kindPatterns, getdefault_of_none hk] at h
    cases h
  | some a =>
    have hk' := Option.join_eq_some_iff.mp hk
    rw [TagsConfig.kindPatterns, getdefault_of_get hk'] at h
    have hmem : (p, some b) ∈ [("a.js", refs.1), ("b.js", refs.2)] := Dict.mem_items.mpr h
    refine ⟨(conf_twoPatterns hk').1, ?_⟩
    simpa [eq_comm] using hmem

end TwoPatterns

theorem owned_twoPatterns : (twoPatterns (some 0, none) [["x"]]).Owned := by
  constructor
  · intro k a h
    rw [(conf_twoPatterns h).2]
    exact Nat.one_pos
  · intro k k' a h h'
    rw [(conf_twoPatterns h).1, (conf_twoPatterns h').1]
  · intro k p b h
    obtain ⟨-, ⟨-, hb⟩ | ⟨-, hb⟩⟩ := get_twoPatterns h
    · cases hb
      exact Nat.one_pos
    · cases hb
  · intro k p k' p' b h h'
    obtain ⟨rfl, ⟨rfl, -⟩ | ⟨-, hb⟩⟩ := get_twoPatterns h
    · obtain ⟨rfl, ⟨rfl, -⟩ | ⟨-, hb⟩⟩ := get_twoPatterns h'
      · exact ⟨rfl, rfl⟩
      · cases hb
    · cases hb

theorem dupFree_twoPatterns (refs : Option ℕ × Option ℕ) : (twoPatterns refs [["x"]]).DupFree := by
  intro k p
  cases hp : (((twoPatterns refs [["x"]]).kindPatterns k).get p).join with
  | none =>
    rw [TagsConfig.getTags, getdefault_of_none hp]
    exact List.nodup_nil
  | some b =>
    rw [TagsConfig.getTags, getdefault_of_get (Option.join_eq_some_iff.mp hp)]
    cases b with
    | zero => exact List.nodup_singleton "x"
    | succ b => exact List.nodup_nil

/-- Tags for a kind that is null and for a pattern that is null, and the last tag of a pattern. -/
def someEdits : List Edit :=
  [.addTag "cpp_unit_test" "c.js" "y", .addTag "js_test" "b.js" "y", .removeTag "js_test" "a.js" "x"]

theorem tags_config_refines_null :
    ((twoPatterns (some 0, none) [["x"]]).edits TagSort.default someEdits).1 =
        ((twoPatterns (some 0, none) [["x"]]).toMap.edits someEdits).1 ∧
      ((twoPatterns (some 0, none) [["x"]]).edits TagSort.default someEdits).2.getTestPatterns
        "js_test" = ["b.js"] :=
  ⟨(tags_config_refines TagSort.default _ owned_twoPatterns (dupFree_twoPatterns _) someEdits).1,
    by decide⟩

/-- **A shared list.** A tag that is added to one pattern is added to the other one as well. -/
theorem shared_tags_change : ∃ c : TagsConfig, c.DupFree ∧
    ((c.edits TagSort.default [.addTag "js_test" "a.js" "y"]).2.getTags "js_test" "b.js").toFinset ≠
      (c.toMap.edits [.addTag "js_test" "a.js" "y"]).2.tags "js_test" "b.js" :=
  ⟨twoPatterns (some 0, some 0) [["x"]], dupFree_twoPatterns _, by decide⟩

end MongoTests.CiConfig
