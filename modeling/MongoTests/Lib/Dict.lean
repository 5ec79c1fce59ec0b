import Mathlib.Data.List.Nodup

/-!
# Dictionaries in insertion order

The keys of a dictionary are distinct, and a new key comes last.

* `Dict`, `get`, `set`, `filter`, `erase`;
* `mem_items`: the items are what `get` finds; `get_set`, `get_filter`, `get_erase`.
* `ofPairs`, `update`: many items at once; `mem_keys_update_ofPairs`, `get_update_ofPairs`,
  `ofPairs_items`.
-/

namespace MongoTests.Lib

structure Dict (κ ν : Type*) where
  items : List (κ × ν)
  nodup : (items.map Prod.fst).Nodup

namespace Dict

variable {κ ν : Type*}

def empty : Dict κ ν := ⟨[], List.nodup_nil⟩

def keys (d : Dict κ ν) : List κ := d.items.map Prod.fst

theorem ext_items {d e : Dict κ ν} (h : d.items = e.items) : d = e := by
  cases d
  cases e
  cases h
  rfl

instance [DecidableEq κ] [DecidableEq ν] : DecidableEq (Dict κ ν) := fun d e =>
  decidable_of_iff (d.items = e.items) ⟨ext_items, congrArg items⟩

theorem map_fst_filter_sublist (items : List (κ × ν)) (p : κ × ν → Bool) :
    ((items.filter p).map Prod.fst).Sublist (items.map Prod.fst) :=
  List.filter_sublist.map _

/-- The items for which `p` holds. -/
def filter (d : Dict κ ν) (p : κ × ν → Bool) : Dict κ ν :=
  ⟨d.items.filter p, d.nodup.sublist (map_fst_filter_sublist _ _)⟩

variable [DecidableEq κ]

def get (d : Dict κ ν) (k : κ) : Option ν := d.items.lookup k

/-- The items after `k` was set: a key that is present keeps its place. -/
def setItems (items : List (κ × ν)) (k : κ) (v : ν) : List (κ × ν) :=
  if k ∈ items.map Prod.fst then items.map fun p => if p.1 = k then (k, v) else p
  else items ++ [(k, v)]

theorem map_fst_setItems (items : List (κ × ν)) (k : κ) (v : ν) :
    (setItems items k v).map Prod.fst =
      if k ∈ items.map Prod.fst then items.map Prod.fst else items.map Prod.fst ++ [k] := by
  unfold setItems
  split_ifs with hk
  · rw [List.map_map]
    refine List.map_congr_left fun p _ => ?_
    by_cases hp : p.1 = k
    · simp [hp]
    · simp [hp]
  · rw [List.map_append, List.map_singleton]

theorem nodup_setItems {items : List (κ × ν)} (h : (items.map Prod.fst).Nodup) (k : κ) (v : ν) :
    ((setItems items k v).map Prod.fst).Nodup := by
  rw [map_fst_setItems]
  split_ifs with hk
  · exact h
  · exact h.append (List.nodup_singleton k) (List.disjoint_singleton.mpr hk)

def set (d : Dict κ ν) (k : κ) (v : ν) : Dict κ ν := ⟨setItems d.items k v, nodup_setItems d.nodup k v⟩

variable {d : Dict κ ν} {k k' : κ} {v v' : ν} {p : κ × ν → Bool}

theorem mem_items : (k, v) ∈ d.items ↔ d.get k = some v := by
  obtain ⟨items, hnodup⟩ := d
  rw [get]
  induction items with
  | nil => simp
  | cons a items ih =>
    obtain ⟨c, w⟩ := a
    obtain ⟨hnew, hnodup⟩ := List.nodup_cons.mp hnodup
    rw [List.lookup_cons, List.mem_cons, ih hnodup, Prod.ext_iff]
    by_cases hk : k = c
    · subst hk
      have hnone : items.lookup k = none := by
        refine List.lookup_eq_none_iff.mpr fun q hq => bne_iff_ne.mpr ?_
        rintro rfl
        exact hnew (List.mem_map.mpr ⟨q, hq, rfl⟩)
      simp [hnone, eq_comm]
    · simp [hk, beq_false_of_ne hk]

theorem mem_keys : k ∈ d.keys ↔ ∃ v, d.get k = some v := by
  simp only [keys, List.mem_map, Prod.exists, exists_and_right, exists_eq_right, mem_items]

@[simp] theorem get_empty : (empty : Dict κ ν).get k = none := rfl

theorem mem_setItems {items : List (κ × ν)} :
    (k', v') ∈ setItems items k v ↔ (k', v') ∈ items ∧ k' ≠ k ∨ k' = k ∧ v' = v := by
  unfold setItems
  split_ifs with hk
  · rw [List.mem_map]
    constructor
    · rintro ⟨q, hq, heq⟩
      split_ifs at heq with hqk
      · cases heq
        exact .inr ⟨rfl, rfl⟩
      · subst heq
        exact .inl ⟨hq, hqk⟩
    · rintro (⟨hmem, hne⟩ | ⟨rfl, rfl⟩)
      · exact ⟨_, hmem, if_neg hne⟩
      · obtain ⟨q, hq, rfl⟩ := List.mem_map.mp hk
        exact ⟨q, hq, if_pos rfl⟩
  · rw [List.mem_append, List.mem_singleton, Prod.mk.injEq]
    refine or_congr (iff_self_and.mpr fun hmem => ?_) Iff.rfl
    rintro rfl
    exact hk (List.mem_map_of_mem hmem)

theorem get_set : (d.set k v).get k' = if k' = k then some v else d.get k' := by
  refine Option.ext fun v' => ?_
  rw [← mem_items, set, mem_setItems, mem_items]
  split_ifs with hk
  · simp [hk, eq_comm]
  · simp [hk]

theorem get_filter : (d.filter p).get k = (d.get k).filter fun v => p (k, v) := by
  refine Option.ext fun v => ?_
  rw [← mem_items, filter, List.mem_filter, mem_items, Option.filter_eq_some_iff]

/-- `del d[k]` -/
def erase (d : Dict κ ν) (k : κ) : Dict κ ν := d.filter fun p => p.1 ≠ k

theorem get_erase : (d.erase k).get k' = if k' = k then none else d.get k' := by
  rw [erase, get_filter]
  split_ifs with hk
  · simp [hk]
  · cases d.get k' with
    | none => rfl
    | some v => simp [hk]

/-! ### Many items at once -/

def setAll (d : Dict κ ν) (l : List (κ × ν)) : Dict κ ν := l.foldl (fun d p => d.set p.1 p.2) d

/-- `{k: v for …}` -/
def ofPairs (l : List (κ × ν)) : Dict κ ν := empty.setAll l

/-- `d.update(e)` -/
def update (d e : Dict κ ν) : Dict κ ν := d.setAll e.items

theorem keys_prefix_set (d : Dict κ ν) (k : κ) (v : ν) : d.keys <+: (d.set k v).keys := by
  rw [keys, keys, set, map_fst_setItems]
  split_ifs
  · exact List.prefix_refl _
  · exact List.prefix_append _ _

theorem mem_keys_set : k' ∈ (d.set k v).keys ↔ k' = k ∨ k' ∈ d.keys := by
  rw [mem_keys, mem_keys, get_set]
  split_ifs with hk
  · simp [hk]
  · simp [hk]

theorem keys_prefix_setAll (d : Dict κ ν) (l : List (κ × ν)) : d.keys <+: (d.setAll l).keys := by
  induction l generalizing d with
  | nil => exact List.prefix_refl _
  | cons p l ih => exact (d.keys_prefix_set p.1 p.2).trans (ih (d.set p.1 p.2))

theorem mem_keys_setAll {l : List (κ × ν)} :
    k ∈ (d.setAll l).keys ↔ k ∈ l.map Prod.fst ∨ k ∈ d.keys := by
  induction l generalizing d with
  | nil => simp [setAll]
  | cons p l ih =>
    rw [setAll, List.foldl_cons, ← setAll, ih, mem_keys_set, List.map_cons, List.mem_cons]
    tauto

theorem get_setAll {l : List (κ × ν)} (h : (d.setAll l).get k = some v) :
    (k, v) ∈ l ∨ d.get k = some v := by
  induction l generalizing d with
  | nil => exact .inr h
  | cons p l ih =>
    rcases ih (d := d.set p.1 p.2) h with hmem | hget
    · exact .inl (List.mem_cons_of_mem _ hmem)
    · rw [get_set] at hget
      split_ifs at hget with hk
      · cases hget
        exact .inl (hk ▸ List.mem_cons_self)
      · exact .inr hget

theorem items_setAll {l : List (κ × ν)} (h : ((d.items ++ l).map Prod.fst).Nodup) :
    (d.setAll l).items = d.items ++ l := by
  induction l generalizing d with
  | nil => exact (List.append_nil _).symm
  | cons p l ih =>
    have hnew : p.1 ∉ d.items.map Prod.fst := by
      rw [List.map_append] at h
      exact fun hp => (List.disjoint_of_nodup_append h) hp List.mem_cons_self
    have hset : (d.set p.1 p.2).items = d.items ++ [p] := if_neg hnew
    have happend : d.items ++ p :: l = (d.set p.1 p.2).items ++ l := by
      rw [hset, List.append_assoc, List.singleton_append]
    rw [happend] at h ⊢
    exact ih h

/-- The items of a dictionary give it again. -/
theorem ofPairs_items (d : Dict κ ν) : ofPairs d.items = d :=
  ext_items (items_setAll (d := empty) d.nodup)

theorem keys_prefix_update (d e : Dict κ ν) : d.keys <+: (d.update e).keys := keys_prefix_setAll _ _

theorem mem_keys_update_ofPairs {l : List (κ × ν)} :
    k ∈ (d.update (ofPairs l)).keys ↔ k ∈ l.map Prod.fst ∨ k ∈ d.keys := by
  rw [update, mem_keys_setAll]
  refine or_congr_left ?_
  rw [← keys, ofPairs, mem_keys_setAll]
  exact or_iff_left (List.not_mem_nil)

theorem get_update_ofPairs {l : List (κ × ν)} (h : (d.update (ofPairs l)).get k = some v) :
    (k, v) ∈ l ∨ d.get k = some v := by
  refine (get_setAll h).imp_left fun hmem => ?_
  refine (get_setAll (mem_items.mp hmem)).resolve_right fun hempty => ?_
  cases hempty

end Dict

end MongoTests.Lib
