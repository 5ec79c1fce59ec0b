import Mathlib.Algebra.BigOperators.Group.List.Basic
import Mathlib.Algebra.GroupWithZero.Nat
import Mathlib.Algebra.Order.Field.Rat
import MongoTests.Lib.Loop
import MongoTests.Lib.SortByKey

/-!
# Pruning the scons cache

`scons_cache_prune.py`. What `os.rename` and `os.remove` do at each attempt is a parameter. Sizes are
numbers of bytes, and times and the ratio are rational numbers.

* `collectCacheContents`: the files of the cache and their total size.
* `round`, `pruneCache`: the loop that removes files; `Attempt`: what it has tried.
* `Inv`: the recorded total, and the order of the attempts.
* **`pruneCache_spec`**: pruning terminates, the oldest files first, and ends below the limit.
-/

namespace MongoTests.Scons

open MongoTests.Lib

/-! ## The contents -/

structure CacheItem where
  path : String
  time : ℚ
  size : ℕ
  deriving DecidableEq

/-- An entry of a directory of the cache. The results of the two calls of `os.stat` are `none` when
they raise an `OSError`. -/
structure DirEntry where
  name : String
  isDir : Bool
  atime : Option ℚ
  size : Option ℕ

/-- `os.path.join`, for a name. -/
def join (path name : String) : String :=
  if path = "" ∨ path.toList.getLast? = some '/' then path ++ name else path ++ "/" ++ name

/-- The item of an entry. A directory and an entry that cannot be queried are skipped. -/
def cacheItem (path : String) (e : DirEntry) : Option CacheItem :=
  if e.isDir then none
  else
    match e.atime, e.size with
    | some time, some size => some ⟨join path e.name, time, size⟩
    | _, _ => none

/-- A round of the loop over the entries of a directory. -/
def addEntry (path : String) (s : ℕ × List CacheItem) (e : DirEntry) : ℕ × List CacheItem :=
  match cacheItem path e with
  | none => s
  | some item => (s.1 + item.size, s.2 ++ [item])

/-- The names in the directory `cachePath`, with the entries of those that are directories. -/
abbrev Listing := List (String × Option (List DirEntry))

def addDir (cachePath : String) (s : ℕ × List CacheItem) (d : String × Option (List DirEntry)) :
    ℕ × List CacheItem :=
  match d.2 with
  | none => s
  | some entries => entries.foldl (addEntry (join cachePath d.1)) s

/-- The total and the contents. -/
def collectCacheContents (cachePath : String) (listing : Listing) : ℕ × List CacheItem :=
  listing.foldl (addDir cachePath) (0, [])

/-! ## Pruning -/

/-- What happens to a file that the loop has popped. -/
inductive Removal
  | renameFailed
  | removeFailed
  | removed
  deriving DecidableEq

structure Attempt where
  item : CacheItem
  removal : Removal
  deriving DecidableEq

/-- The variables of the loop, and the attempts so far. -/
structure Locals where
  totalSize : ℤ
  contents : List CacheItem
  attempts : List Attempt := []

section Prune

variable (removal : ℕ → Removal) (limit : ℚ)

/-- One test of the condition of the loop, with the round or the `return` that follows. -/
def round (s : Locals) : Locals × Option Bool :=
  if limit ≤ s.totalSize then
    match s.contents.getLast? with
    | none => (s, some false)
    | some item =>
      let outcome := removal s.attempts.length
      ({ totalSize := if outcome = .removed then s.totalSize - item.size else s.totalSize
         contents := s.contents.dropLast
         attempts := s.attempts ++ [⟨item, outcome⟩] }, none)
  else (s, some true)

end Prune

def gigbytes : ℤ := 1024 * 1024 * 1024

/-- `contents.sort(key=lambda x: x.time, reverse=True)`, which keeps the order of equal times. -/
def sortByTime (contents : List CacheItem) : List CacheItem :=
  contents.mergeSort fun a b => decide (b.time ≤ a.time)

/-- `prune_cache`: the attempts, and what it returns. -/
def pruneCache (removal : ℕ → Removal) (cachePath : String) (listing : Listing) (cacheSizeGb : ℤ)
    (cleanRatio : ℚ) (fuel : ℕ) : Option (List Attempt × Bool) :=
  let cacheSize := cacheSizeGb * gigbytes
  let (totalSize, contents) := collectCacheContents cachePath listing
  if cacheSize ≤ totalSize then
    (loop (round removal (cacheSize * cleanRatio)) fuel ⟨totalSize, sortByTime contents, []⟩).map
      fun x => (x.1.attempts, x.2)
  else some ([], true)

/-! ## The total -/

def totalOf (items : List CacheItem) : ℕ := (items.map CacheItem.size).sum

theorem totalOf_append (items items' : List CacheItem) :
    totalOf (items ++ items') = totalOf items + totalOf items' := by
  rw [totalOf, List.map_append, List.sum_append]
  rfl

theorem totalOf_perm {items items' : List CacheItem} (h : items.Perm items') :
    totalOf items = totalOf items' :=
  (h.map CacheItem.size).sum_eq

/-- The files of the directories in `cachePath`. -/
def cacheItems (cachePath : String) (listing : Listing) : List CacheItem :=
  listing.flatMap fun d => (d.2.getD []).filterMap (cacheItem (join cachePath d.1))

theorem addEntry_foldl (path : String) (total : ℕ) (contents : List CacheItem)
    (entries : List DirEntry) :
    entries.foldl (addEntry path) (total, contents) =
      (total + totalOf (entries.filterMap (cacheItem path)),
        contents ++ entries.filterMap (cacheItem path)) := by
  induction entries generalizing total contents with
  | nil => simp [totalOf]
  | cons e entries ih =>
    rw [List.foldl_cons, addEntry]
    cases he : cacheItem path e with
    | none =>
      rw [List.filterMap_cons_none he]
      exact ih total contents
    | some item =>
      rw [List.filterMap_cons_some he]
      dsimp only
      rw [ih, List.append_assoc, Nat.add_assoc, totalOf, totalOf, List.map_cons, List.sum_cons]
      rfl

theorem addDir_foldl (cachePath : String) (total : ℕ) (contents : List CacheItem)
    (listing : Listing) :
    listing.foldl (addDir cachePath) (total, contents) =
      (total + totalOf (cacheItems cachePath listing), contents ++ cacheItems cachePath listing) := by
  induction listing generalizing total contents with
  | nil => simp [cacheItems, totalOf]
  | cons d listing ih =>
    have hd : addDir cachePath (total, contents) d =
        (total + totalOf ((d.2.getD []).filterMap (cacheItem (join cachePath d.1))),
          contents ++ (d.2.getD []).filterMap (cacheItem (join cachePath d.1))) := by
      rw [addDir]
      cases d.2 with
      | none => simp [totalOf]
      | some entries => exact addEntry_foldl _ total contents entries
    rw [List.foldl_cons, hd, ih, cacheItems, cacheItems, List.flatMap_cons, totalOf_append,
      Nat.add_assoc, List.append_assoc]

/-- **The contents are the files of the directories, and the total is that of their sizes.** -/
theorem collectCacheContents_eq (cachePath : String) (listing : Listing) :
    collectCacheContents cachePath listing =
      (totalOf (cacheItems cachePath listing), cacheItems cachePath listing) := by
  rw [collectCacheContents, addDir_foldl, Nat.zero_add, List.nil_append]

/-! ## The order -/

theorem sortByTime_perm (contents : List CacheItem) : (sortByTime contents).Perm contents :=
  List.mergeSort_perm contents _

/-- The latest files come first. -/
theorem sortByTime_pairwise (contents : List CacheItem) :
    (sortByTime contents).Pairwise fun a b => b.time ≤ a.time :=
  pairwise_mergeSort_key (fun a : CacheItem => OrderDual.toDual a.time) contents

/-! ## The loop -/

def itemsOf (attempts : List Attempt) : List CacheItem := attempts.map Attempt.item

/-- The files that the loop tried to remove, and that it still counts. -/
def notRemoved (attempts : List Attempt) : List CacheItem :=
  itemsOf (attempts.filter fun a => a.removal ≠ .removed)

/-- The invariant: the files are popped from the end of the sorted list, and the total is that of the
others and of those that were not removed. -/
structure Inv (sorted : List CacheItem) (s : Locals) : Prop where
  split : s.contents ++ (itemsOf s.attempts).reverse = sorted
  total : s.totalSize = totalOf s.contents + totalOf (notRemoved s.attempts)

section Loop

variable {removal : ℕ → Removal} {limit : ℚ} {sorted : List CacheItem} {s s' : Locals}
  {result : Bool}

theorem Inv.start : Inv sorted ⟨totalOf sorted, sorted, []⟩ where
  split := List.append_nil sorted
  total := (add_zero _).symm

/-- What a round does that goes on. -/
theorem round_next (h : round removal limit s = (s', none)) :
    ∃ item, s.contents = s'.contents ++ [item] ∧
      ∃ outcome, s'.attempts = s.attempts ++ [⟨item, outcome⟩] ∧
        s'.totalSize = if outcome = .removed then s.totalSize - item.size else s.totalSize := by
  unfold round at h
  split_ifs at h with hlimit
  · split at h
    · cases h
    · rename_i item hlast
      cases h
      have hne : s.contents ≠ [] := by
        rintro hnil
        rw [hnil] at hlast
        cases hlast
      refine ⟨item, ?_, _, rfl, rfl⟩
      rw [List.getLast?_eq_some_getLast hne, Option.some.injEq] at hlast
      rw [← hlast]
      exact (List.dropLast_append_getLast hne).symm
  · cases h

/-- What a round does that leaves the loop. -/
theorem round_exit (h : round removal limit s = (s', some result)) :
    s' = s ∧ (result = false → s.contents = []) ∧ (result = true → s.totalSize < limit) := by
  unfold round at h
  split_ifs at h with hlimit
  · split at h
    · rename_i hlast
      cases h
      exact ⟨rfl, fun _ => List.getLast?_eq_none_iff.mp hlast, fun hr => by cases hr⟩
    · cases h
  · cases h
    exact ⟨rfl, (fun hr => by cases hr), fun _ => lt_of_not_ge hlimit⟩

theorem notRemoved_append (attempts : List Attempt) (item : CacheItem) (outcome : Removal) :
    totalOf (notRemoved (attempts ++ [⟨item, outcome⟩])) =
      totalOf (notRemoved attempts) + if outcome = .removed then 0 else item.size := by
  rw [notRemoved, List.filter_append, itemsOf, List.map_append, totalOf_append]
  by_cases houtcome : outcome = .removed
  · simp [houtcome, notRemoved, itemsOf, totalOf]
  · simp [houtcome, notRemoved, itemsOf, totalOf]

theorem Inv.round (h : Inv sorted s) (hround : Scons.round removal limit s = (s', none)) :
    Inv sorted s' := by
  obtain ⟨item, hcontents, outcome, hattempts, htotal⟩ := round_next hround
  have hsplit := h.split
  have hsum := h.total
  rw [hcontents] at hsplit hsum
  constructor
  · rw [hattempts, itemsOf, List.map_append, List.reverse_append, ← hsplit, List.append_assoc]
    rfl
  · have hitem : totalOf [item] = item.size := by simp [totalOf]
    rw [totalOf_append, hitem] at hsum
    rw [htotal, hattempts, notRemoved_append]
    split_ifs
    · push_cast at hsum ⊢
      omega
    · push_cast at hsum ⊢
      omega

end Loop

/-! ## Pruned caches -/

/-- What pruning leaves: no file is touched below the quota. Otherwise the files that it tried to
remove are the oldest ones, in this order, and when it succeeds, the files that are left are smaller
than the limit. It only gives up when it has tried all files. -/
structure Pruned (contents : List CacheItem) (cacheSize : ℤ) (cleanRatio : ℚ)
    (attempts : List Attempt) (result : Bool) (untouched : List CacheItem) : Prop where
  files : (untouched ++ itemsOf attempts).Perm contents
  withinQuota : totalOf contents < cacheSize → attempts = []
  oldest : ∀ item ∈ itemsOf attempts, ∀ other ∈ untouched, item.time ≤ other.time
  order : (itemsOf attempts).Pairwise fun a b => a.time ≤ b.time
  failure : result = false → untouched = []
  success : result = true → cacheSize ≤ totalOf contents →
    totalOf (untouched ++ notRemoved attempts) < cacheSize * cleanRatio

/-- The loop ends with such a cache. -/
theorem exists_loop (removal : ℕ → Removal) (contents : List CacheItem) (cacheSize : ℤ)
    (cleanRatio : ℚ) (hquota : cacheSize ≤ totalOf contents) :
    ∃ s result, (∀ fuel, contents.length < fuel →
      loop (round removal (cacheSize * cleanRatio)) fuel
        ⟨totalOf contents, sortByTime contents, []⟩ = some (s, result)) ∧
      Pruned contents cacheSize cleanRatio s.attempts result s.contents := by
  have hperm := sortByTime_perm contents
  have hstart : Inv (sortByTime contents) ⟨totalOf contents, sortByTime contents, []⟩ := by
    rw [← totalOf_perm hperm]
    exact .start
  have hcost : ∀ s s', Inv (sortByTime contents) s →
      round removal (cacheSize * cleanRatio) s = (s', none) →
      s'.contents.length < s.contents.length := by
    intro s s' _ hround
    obtain ⟨item, hcontents, -⟩ := round_next hround
    rw [hcontents, List.length_append]
    exact Nat.lt_succ_self _
  obtain ⟨s', result, hloop⟩ := exists_loop_eq (fun s s' hs hround => hs.round hround) hcost hstart
  obtain ⟨s, hs, hround⟩ := loop_inv (fun s s' hs hround => Inv.round hs hround) hstart
    (hloop _ (Nat.lt_succ_self _))
  obtain ⟨rfl, hfailure, hsuccess⟩ := round_exit hround
  refine ⟨s', result, fun fuel hfuel => hloop fuel ?_, ?_⟩
  · rw [hperm.length_eq]
    exact hfuel
  · have hsorted := sortByTime_pairwise contents
    rw [← hs.split, List.pairwise_append] at hsorted
    obtain ⟨-, hattempts, hbetween⟩ := hsorted
    refine ⟨?_, fun hlt => absurd hquota (not_le_of_gt hlt), fun item hitem other hother => ?_, ?_,
      hfailure, fun hr _ => ?_⟩
    · refine List.Perm.trans ?_ hperm
      rw [← hs.split]
      exact (List.reverse_perm _).symm.append_left _
    · exact hbetween other hother item (List.mem_reverse.mpr hitem)
    · exact List.pairwise_reverse.mp hattempts
    · have hlt := hsuccess hr
      rw [hs.total] at hlt
      rw [totalOf_append]
      push_cast at hlt ⊢
      exact hlt

/-- **Pruning the cache.** For every cache, quota and ratio, and whatever happens when files are
renamed and removed, pruning terminates. It touches no file of a cache below the quota. It tries the
least recently used files first, it fails only when it has tried all files, and when it succeeds the
files that are left, with those that could not be removed, are smaller than the quota times the
ratio. -/
theorem pruneCache_spec (removal : ℕ → Removal) (cachePath : String) (listing : Listing)
    (cacheSizeGb : ℤ) (cleanRatio : ℚ) :
    ∃ attempts result untouched,
      (∃ n, ∀ fuel, n ≤ fuel → pruneCache removal cachePath listing cacheSizeGb cleanRatio fuel =
        some (attempts, result)) ∧
      Pruned (cacheItems cachePath listing) (cacheSizeGb * gigbytes) cleanRatio attempts result
        untouched := by
  by_cases hquota : cacheSizeGb * gigbytes ≤ totalOf (cacheItems cachePath listing)
  · obtain ⟨s, result, hloop, hpruned⟩ := exists_loop removal _ _ cleanRatio hquota
    refine ⟨s.attempts, result, s.contents, 
      ⟨(cacheItems cachePath listing).length + 1, fun fuel hfuel => ?_⟩, hpruned⟩
    rw [pruneCache, collectCacheContents_eq]
    dsimp only
    rw [if_pos hquota, hloop fuel hfuel]
    rfl
  · refine ⟨[], true, cacheItems cachePath listing, ⟨0, fun fuel _ => ?_⟩, ?_⟩
    · rw [pruneCache, collectCacheContents_eq]
      dsimp only
      rw [if_neg hquota]
    · exact ⟨by rw [itemsOf, List.map_nil, List.append_nil], fun _ => rfl,
        fun _ hitem => absurd hitem List.not_mem_nil, List.Pairwise.nil, (fun hr => by cases hr),
        fun _ hle => absurd hle hquota⟩

end MongoTests.Scons
