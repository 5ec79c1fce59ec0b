import Mathlib.Algebra.Order.Ring.Cast
import Mathlib.Algebra.Order.Ring.Rat
import Mathlib.Data.List.Infix
import Mathlib.Data.List.Lex
import Mathlib.Order.WithBot
import MongoTests.Lib.Checked
import MongoTests.Lib.Decimal
import MongoTests.Lib.Dict
import MongoTests.Lib.SortByKey

/-!
# The version that is downloaded

`get_version_parts` and the choice of a link in `download_version`. The requested version is any text; `none`
is an exception.

* `Version`: the versions of the links, `Version.text` and `Version.components`.
* `getVersionParts`, `candidates`, `downloadVersion`: the code.
* `Correct`: what the usage text promises.
* **`downloadVersion_correct_iff`**: a release candidate is chosen where a release is wanted if it is in front
  of all releases.
-/

namespace MongoTests.MultiVersion

open MongoTests.Lib

/-- A float. -/
abbrev Number := WithTop ℚ

def whole (n : ℤ) : Number := ((n : ℚ) : WithTop ℚ)

@[simp] theorem whole_inj {m n : ℤ} : whole m = whole n ↔ m = n := by simp [whole]

@[simp] theorem whole_lt_whole {m n : ℤ} : whole m < whole n ↔ m < n := by
  simp [whole, WithTop.coe_lt_coe]

@[simp] theorem whole_lt_top (n : ℤ) : whole n < ⊤ := WithTop.coe_lt_top _

@[simp] theorem whole_ne_top (n : ℤ) : whole n ≠ ⊤ := WithTop.coe_ne_top

@[simp] theorem top_ne_whole (n : ℤ) : ⊤ ≠ whole n := WithTop.top_ne_coe

structure Python where
  int : List Char → Option ℤ
  /-- `float(s)`, without `nan`, which is equal to no part of a version -/
  float : List Char → Option Number
  int_toDigits : ∀ n : ℕ, int (Nat.toDigits 10 n) = some (n : ℤ)
  float_toDigits : ∀ n : ℕ, float (Nat.toDigits 10 n) = some (whole n)

inductive Version where
  | release (major minor patch : ℕ)
  | rc (major minor patch n : ℕ)
  | latest (major minor : ℕ)
  deriving DecidableEq

abbrev Url := List Char

abbrev Links := Dict Version Url

namespace Version

/-- The text of a version in the list of downloads. -/
def text : Version → List Char
  | release major minor patch =>
    Nat.toDigits 10 major ++ '.' :: (Nat.toDigits 10 minor ++ '.' :: Nat.toDigits 10 patch)
  | rc major minor patch n =>
    Nat.toDigits 10 major ++ '.' :: (Nat.toDigits 10 minor ++ '.' :: (Nat.toDigits 10 patch ++
      '-' :: 'r' :: 'c' :: Nat.toDigits 10 n))
  | latest major minor =>
    'v' :: Nat.toDigits 10 major ++ '.' :: (Nat.toDigits 10 minor ++ '-' :: "latest".toList)

def IsRc : Version → Prop
  | rc _ _ _ _ => True
  | _ => False

instance : DecidablePred IsRc
  | release _ _ _ => isFalse id
  | rc _ _ _ _ => isTrue trivial
  | latest _ _ => isFalse id

/-- Release candidates are weighted down, and the latest version of a branch has the highest weight. -/
def components : Version → List Number
  | release major minor patch => [whole major, whole minor, whole patch]
  | rc major minor patch n => [whole major, whole minor, whole patch, whole (n - 100)]
  | latest major minor => [whole major, whole minor, ⊤]

end Version

section Code

variable (py : Python)

def getVersionParts (version : List Char) (forSorting : Bool) : Option (List Number) :=
  let versionParts := version.splitOnP fun c => c = '.' || c = '-'
  let versionParts := if versionParts.getLast? = some "pre".toList then versionParts.dropLast else versionParts
  match versionParts with
  | [] => none
  | first :: rest =>
    let last := rest.getLastD first
    if "rc".toList <+: last then do
      let n ← py.int (last.drop 2)
      let numbers ← versionParts.dropLast.mapM py.float
      pure (numbers ++ [whole (n - 100)])
    else if first.head? = some 'v' ∧ last = "latest".toList then do
      let numbers ← (first.tail :: rest.dropLast).mapM py.float
      pure (numbers ++ [⊤])
    else do
      let numbers ← versionParts.mapM py.float
      pure (if forSorting then numbers ++ [whole 0] else numbers)

/-- The links in which a version is looked for. -/
def candidates (version : List Char) (requestedVersionParts : List Number) (links : List (Version × Url)) :
    Option (List (Version × Url)) :=
  match links with
  | [] => some []
  | link :: links => do
    let linkVersionParts ← getVersionParts py link.1.text false
    let urls ← candidates version requestedVersionParts links
    if linkVersionParts.take requestedVersionParts.length = requestedVersionParts then
      if '-' ∈ version ∧ link.1.text ≠ version then pure urls else pure (link :: urls)
    else pure urls

def urlsOf (links genericLinks : Links) (version : List Char) (requestedVersionParts : List Number) :
    Option (List (Version × Url)) := do
  let urls ← candidates py version requestedVersionParts links.items
  if urls ≠ [] then pure urls
  else
    let urls ← candidates py version requestedVersionParts genericLinks.items
    if urls = [] then none else pure urls

/-- The link that `download_version` downloads. -/
def downloadVersion (links genericLinks : Links) (version : List Char) : Option (Version × Url) := do
  let requestedVersionParts ← getVersionParts py version false
  let urls ← urlsOf py links genericLinks version requestedVersionParts
  let keyed ← urls.mapM fun link => (getVersionParts py link.1.text true).map fun key => (key, link)
  ((keyed.mergeSort fun a b => a.1 ≤ b.1).getLast?).map Prod.snd

end Code

/-! ## The parts of a version -/

section Parts

variable {py : Python}

/-- What the links are sorted by. -/
def Version.key (v : Version) : List Number :=
  match v with
  | .release _ _ _ => v.components ++ [whole 0]
  | _ => v.components

theorem not_separator_of_mem_toDigits {n : ℕ} {c : Char} (h : c ∈ Nat.toDigits 10 n) :
    (c = '.' || c = '-') = false := by
  rw [Bool.or_eq_false_iff, decide_eq_false_iff_not, decide_eq_false_iff_not]
  constructor
  · rintro rfl
    exact notMem_toDigits (by decide) n h
  · rintro rfl
    exact notMem_toDigits (by decide) n h

theorem not_rc_prefix_toDigits (n : ℕ) : ¬ "rc".toList <+: Nat.toDigits 10 n := by
  intro h
  exact notMem_toDigits (c := 'r') (by decide) n (h.subset (by decide))

theorem toDigits_ne_of_mem {s : List Char} {c : Char} (hc : c ∈ s) (hdigit : c.isDigit = false) (n : ℕ) :
    Nat.toDigits 10 n ≠ s := by
  rintro rfl
  exact notMem_toDigits hdigit n hc

theorem splitOnP_text (v : Version) : v.text.splitOnP (fun c => c = '.' || c = '-') =
    match v with
    | .release major minor patch => [Nat.toDigits 10 major, Nat.toDigits 10 minor, Nat.toDigits 10 patch]
    | .rc major minor patch n =>
      [Nat.toDigits 10 major, Nat.toDigits 10 minor, Nat.toDigits 10 patch, 'r' :: 'c' :: Nat.toDigits 10 n]
    | .latest major minor => ['v' :: Nat.toDigits 10 major, Nat.toDigits 10 minor, "latest".toList] := by
  have hdigits : ∀ n, ∀ c ∈ Nat.toDigits 10 n, (c = '.' || c = '-') = false :=
    fun n c hc => not_separator_of_mem_toDigits hc
  cases v with
  | release major minor patch =>
    rw [Version.text, List.splitOnP_append_cons_of_forall_mem (hdigits _) _ rfl,
      List.splitOnP_append_cons_of_forall_mem (hdigits _) _ rfl, List.splitOnP_eq_singleton (hdigits _)]
  | rc major minor patch n =>
    rw [Version.text, List.splitOnP_append_cons_of_forall_mem (hdigits _) _ rfl,
      List.splitOnP_append_cons_of_forall_mem (hdigits _) _ rfl,
      List.splitOnP_append_cons_of_forall_mem (hdigits _) _ rfl, List.splitOnP_eq_singleton]
    intro c hc
    obtain rfl | hc := List.mem_cons.mp hc
    · rfl
    obtain rfl | hc := List.mem_cons.mp hc
    · rfl
    exact hdigits n c hc
  | latest major minor =>
    rw [Version.text, List.splitOnP_append_cons_of_forall_mem _ _ rfl,
      List.splitOnP_append_cons_of_forall_mem (hdigits _) _ rfl, List.splitOnP_eq_singleton (by simp)]
    intro c hc
    obtain rfl | hc := List.mem_cons.mp hc
    · rfl
    exact hdigits major c hc

theorem getVersionParts_text (v : Version) (forSorting : Bool) :
    getVersionParts py v.text forSorting = some (if forSorting then v.key else v.components) := by
  rw [getVersionParts, splitOnP_text]
  cases v with
  | release major minor patch =>
    have hpre : [Nat.toDigits 10 major, Nat.toDigits 10 minor, Nat.toDigits 10 patch].getLast? ≠ some "pre".toList :=
      fun h => toDigits_ne_of_mem (c := 'p') (by decide) (by decide) patch (Option.some.inj h)
    have hrc : ¬ "rc".toList <+: [Nat.toDigits 10 minor, Nat.toDigits 10 patch].getLastD (Nat.toDigits 10 major) :=
      not_rc_prefix_toDigits patch
    have hlatest : [Nat.toDigits 10 minor, Nat.toDigits 10 patch].getLastD (Nat.toDigits 10 major) ≠
        "latest".toList := toDigits_ne_of_mem (c := 'l') (by decide) (by decide) patch
    dsimp only
    rw [if_neg hpre]
    dsimp only
    rw [if_neg hrc, if_neg fun h => hlatest h.2]
    cases forSorting <;> simp [py.float_toDigits, Version.key, Version.components]
  | rc major minor patch n =>
    have hpre : [Nat.toDigits 10 major, Nat.toDigits 10 minor, Nat.toDigits 10 patch,
        'r' :: 'c' :: Nat.toDigits 10 n].getLast? ≠ some "pre".toList := by
      intro h
      cases (List.cons.inj (Option.some.inj h)).1
    have hrc : "rc".toList <+: [Nat.toDigits 10 minor, Nat.toDigits 10 patch,
        'r' :: 'c' :: Nat.toDigits 10 n].getLastD (Nat.toDigits 10 major) := ⟨Nat.toDigits 10 n, rfl⟩
    dsimp only
    rw [if_neg hpre]
    dsimp only
    rw [if_pos hrc]
    cases forSorting <;> simp [py.float_toDigits, py.int_toDigits, Version.key, Version.components]
  | latest major minor =>
    cases forSorting <;> simp [py.float_toDigits, Version.key, Version.components]

end Parts

/-! ## The links that are compatible -/

section Promise

variable (py : Python)

/-- A version with a hyphen is taken exactly, another one is compared with the first components. -/
def Compatible (version : List Char) (v : Version) : Prop :=
  if '-' ∈ version then v.text = version
  else ∃ parts ∈ getVersionParts py version false, parts <+: v.components

instance (version : List Char) : DecidablePred (Compatible py version) := fun _ => by
  unfold Compatible
  infer_instance

def compatible (links : Links) (version : List Char) : List (Version × Url) :=
  links.items.filter fun link => Compatible py version link.1

/-- The compatible links of the platform or, if there are none, the generic ones. -/
def usable (links genericLinks : Links) (version : List Char) : List (Version × Url) :=
  if compatible py links version = [] then compatible py genericLinks version else compatible py links version

/-- If a release candidate is asked for, it is used, otherwise the highest version that is none. -/
structure Correct (links genericLinks : Links) (version : List Char) (result : Option (Version × Url)) : Prop where
  raises : result = none ↔ compatible py links version = [] ∧ compatible py genericLinks version = []
  mem : ∀ link ∈ result, link ∈ usable py links genericLinks version
  exact : '-' ∈ version → ∀ link ∈ result, link.1.text = version
  highest : '-' ∉ version → (∃ v ∈ usable py links genericLinks version, ¬ v.1.IsRc) → ∀ link ∈ result,
    ¬ link.1.IsRc ∧ ∀ v ∈ usable py links genericLinks version, ¬ v.1.IsRc → v.1.components ≤ link.1.components

/-- A release candidate comes before a version that is none. -/
def Below (versions : List Version) : Version → Version → Prop
  | .rc major minor patch n, s =>
    [whole major, whole minor, whole patch] < s.components ∨
      s = .release major minor patch ∧ (n < 100 ∨ n = 100 ∧ [.rc major minor patch n, s].Sublist versions)
  | _, _ => False

variable {py} {version : List Char}

theorem candidates_eq {parts : List Number} (h : getVersionParts py version false = some parts)
    (links : List (Version × Url)) :
    candidates py version parts links = some (links.filter fun link => Compatible py version link.1) := by
  induction links with
  | nil => rfl
  | cons link links ih =>
    have hcompatible : Compatible py version link.1 ↔
        link.1.components.take parts.length = parts ∧ ¬ ('-' ∈ version ∧ link.1.text ≠ version) := by
      rw [Compatible]
      split_ifs with hhyphen
      · constructor
        · intro htext
          rw [← htext, getVersionParts_text] at h
          cases h
          exact ⟨List.take_length, fun hne => hne.2 htext⟩
        · exact fun hnot => not_not.mp fun hne => hnot.2 ⟨hhyphen, hne⟩
      · rw [h]
        constructor
        · rintro ⟨parts', hparts, hprefix⟩
          cases hparts
          exact ⟨(List.prefix_iff_eq_take.mp hprefix).symm, fun hne => hhyphen hne.1⟩
        · exact fun htake => ⟨parts, rfl, List.prefix_iff_eq_take.mpr htake.1.symm⟩
    rw [candidates, getVersionParts_text, ih]
    by_cases hlink : Compatible py version link.1
    · obtain ⟨htake, htext⟩ := hcompatible.mp hlink
      simp [hlink, htake, htext]
    · by_cases htake : link.1.components.take parts.length = parts
      · have htext : '-' ∈ version ∧ link.1.text ≠ version :=
          not_not.mp fun hnot => hlink (hcompatible.mpr ⟨htake, hnot⟩)
        simp [hlink, htext]
      · simp [hlink, htake]

theorem compatible_eq_nil (h : getVersionParts py version false = none) (links : Links) :
    compatible py links version = [] := by
  refine List.filter_eq_nil_iff.mpr fun link _ hlink => ?_
  have hlink := of_decide_eq_true hlink
  rw [Compatible] at hlink
  split_ifs at hlink with hhyphen
  · rw [← hlink, getVersionParts_text] at h
    cases h
  · obtain ⟨parts, hparts, -⟩ := hlink
    rw [h] at hparts
    cases hparts

theorem urlsOf_eq {parts : List Number} (h : getVersionParts py version false = some parts)
    (links genericLinks : Links) : urlsOf py links genericLinks version parts =
      if usable py links genericLinks version = [] then none else some (usable py links genericLinks version) := by
  rw [urlsOf, candidates_eq h, candidates_eq h, usable]
  dsimp only [Option.bind_eq_bind, Option.bind_some]
  rw [← compatible, ← compatible]
  by_cases hlinks : compatible py links version = []
  · rw [if_neg (not_not.mpr hlinks), if_pos hlinks]
    rfl
  · rw [if_pos hlinks, if_neg hlinks, if_neg hlinks]
    rfl

/-- The code sorts the usable links. -/
theorem downloadVersion_eq (links genericLinks : Links) (version : List Char) :
    downloadVersion py links genericLinks version =
      ((usable py links genericLinks version).mergeSort fun a b => a.1.key ≤ b.1.key).getLast? := by
  cases h : getVersionParts py version false with
  | none =>
    rw [downloadVersion, h, usable, compatible_eq_nil h, compatible_eq_nil h, if_pos rfl, List.mergeSort_nil]
    rfl
  | some parts =>
    have hkeyed : ((usable py links genericLinks version).mapM fun link =>
        (getVersionParts py link.1.text true).map fun key => (key, link)) =
          some ((usable py links genericLinks version).map fun link => (link.1.key, link)) := by
      rw [mapM_eq_some, List.map_map]
      refine List.map_congr_left fun link _ => ?_
      rw [getVersionParts_text]
      rfl
    have hsort := List.map_mergeSort (r := fun a b : Version × Url => decide (a.1.key ≤ b.1.key))
      (s := fun a b : List Number × Version × Url => decide (a.1 ≤ b.1)) (f := fun link => (link.1.key, link))
      (l := usable py links genericLinks version) fun a _ b _ => rfl
    rw [downloadVersion, h, Option.bind_eq_bind, Option.bind_some, urlsOf_eq h]
    split_ifs with husable
    · rw [husable, List.mergeSort_nil]
      rfl
    · rw [Option.bind_eq_bind, Option.bind_some, hkeyed, Option.bind_eq_bind, Option.bind_some, ← hsort,
        List.getLast?_map, Option.map_map]
      exact Option.map_id'

/-! ## The order of the versions -/

theorem cons_lt_cons {a b : Number} {s t : List Number} : a :: s < b :: t ↔ a < b ∨ a = b ∧ s < t :=
  List.cons_lt_cons_iff

/-- Versions that are no release candidates are sorted by their components. -/
theorem components_le_iff {v w : Version} (hv : ¬ v.IsRc) (hw : ¬ w.IsRc) :
    v.components ≤ w.components ↔ v.key ≤ w.key := by
  rw [← not_lt, ← not_lt, not_iff_not]
  cases v with
  | release major minor patch =>
    cases w with
    | release major' minor' patch' => simp [Version.components, Version.key, cons_lt_cons]
    | rc major' minor' patch' n => exact absurd trivial hw
    | latest major' minor' => simp [Version.components, Version.key, cons_lt_cons]
  | rc major minor patch n => exact absurd trivial hv
  | latest major minor =>
    cases w with
    | release major' minor' patch' => simp [Version.components, Version.key, cons_lt_cons]
    | rc major' minor' patch' n => exact absurd trivial hw
    | latest major' minor' => simp [Version.components, Version.key, cons_lt_cons]

theorem rc_key_lt {major minor patch n : ℕ} {s : Version} (hs : ¬ s.IsRc) :
    (Version.rc major minor patch n).key < s.key ↔
      [whole major, whole minor, whole patch] < s.components ∨ s = .release major minor patch ∧ n < 100 := by
  cases s with
  | release major' minor' patch' =>
    simp only [Version.key, Version.components, List.cons_append, List.nil_append, cons_lt_cons, whole_lt_whole,
      Nat.cast_lt, whole_inj, Nat.cast_inj, sub_neg, Nat.cast_lt_ofNat, lt_self_iff_false, and_false, or_false,
      Version.release.injEq]
    omega
  | rc major' minor' patch' n' => exact absurd trivial hs
  | latest major' minor' => simp [Version.components, Version.key, cons_lt_cons]

theorem rc_key_eq {major minor patch n : ℕ} {s : Version} (hs : ¬ s.IsRc) :
    (Version.rc major minor patch n).key = s.key ↔ s = .release major minor patch ∧ n = 100 := by
  cases s with
  | release major' minor' patch' =>
    simp only [Version.key, Version.components, List.cons_append, List.nil_append, List.cons.injEq, whole_inj,
      Nat.cast_inj, and_true, Version.release.injEq]
    omega
  | rc major' minor' patch' n' => exact absurd trivial hs
  | latest major' minor' => simp [Version.components, Version.key]

theorem below_iff {r s : Version} {versions : List Version} (hr : r.IsRc) (hs : ¬ s.IsRc) :
    Below versions r s ↔ r.key < s.key ∨ r.key = s.key ∧ [r, s].Sublist versions := by
  cases r with
  | release major minor patch => exact hr.elim
  | rc major minor patch n =>
    rw [Below, rc_key_lt hs, rc_key_eq hs]
    tauto
  | latest major minor => exact hr.elim

/-! ## The version that is chosen -/

theorem sublist_pair_asymm {α : Type*} {l : List α} {a b : α} (hl : l.Nodup) (h : [a, b].Sublist l) :
    ¬ [b, a].Sublist l := by
  induction l with
  | nil => cases h
  | cons c l ih =>
    obtain ⟨hc, hl⟩ := List.nodup_cons.mp hl
    intro h'
    cases h with
    | cons _ h =>
      cases h' with
      | cons _ h' => exact ih hl h h'
      | cons_cons _ h' => exact hc (h.subset (by simp))
    | cons_cons _ h =>
      cases h' with
      | cons _ h' => exact hc (h'.subset (by simp))
      | cons_cons _ h' => exact hc (h.subset List.mem_cons_self)

theorem nodup_usable (links genericLinks : Links) (version : List Char) :
    ((usable py links genericLinks version).map Prod.fst).Nodup := by
  have hfilter : ∀ links : Links, ((compatible py links version).map Prod.fst).Nodup :=
    fun links => links.nodup.sublist (List.filter_sublist.map _)
  rw [usable]
  split_ifs
  · exact hfilter genericLinks
  · exact hfilter links

theorem compatible_of_mem_usable {links genericLinks : Links} {link : Version × Url}
    (h : link ∈ usable py links genericLinks version) : Compatible py version link.1 := by
  rw [usable] at h
  split_ifs at h
  · exact of_decide_eq_true (List.mem_filter.mp h).2
  · exact of_decide_eq_true (List.mem_filter.mp h).2

theorem chosen_not_isRc_iff {links genericLinks : Links} {link : Version × Url}
    (h : downloadVersion py links genericLinks version = some link) :
    ¬ link.1.IsRc ↔ ∀ r ∈ usable py links genericLinks version, r.1.IsRc →
      ∃ s ∈ usable py links genericLinks version, ¬ s.1.IsRc ∧
        Below ((usable py links genericLinks version).map Prod.fst) r.1 s.1 := by
  rw [downloadVersion_eq] at h
  obtain ⟨hmax, hlast⟩ := getLast?_mergeSort_key (fun link : Version × Url => link.1.key) h
  have hmem := List.mem_mergeSort.mp (List.mem_of_getLast? h)
  constructor
  · intro hlink r hr hrc
    have hne : r ≠ link := by
      rintro rfl
      exact hlink hrc
    refine ⟨link, hmem, hlink, (below_iff hrc hlink).mpr ?_⟩
    obtain hlt | heq := lt_or_eq_of_le (hmax r hr)
    · exact .inl hlt
    · exact .inr ⟨heq, (hlast r hr heq hne).map Prod.fst⟩
  · intro hall hlink
    obtain ⟨s, hs, hsrc, hbelow⟩ := hall link hmem hlink
    obtain hlt | ⟨heq, hpair⟩ := (below_iff hlink hsrc).mp hbelow
    · exact absurd hlt (not_lt.mpr (hmax s hs))
    · have hne : s ≠ link := by
        rintro rfl
        exact hsrc hlink
      exact sublist_pair_asymm (nodup_usable links genericLinks version) hpair
        ((hlast s hs heq.symm hne).map Prod.fst)

variable (py) (version) in
/-- **When is no release candidate chosen by mistake?** -/
theorem downloadVersion_correct_iff (links genericLinks : Links) :
    Correct py links genericLinks version (downloadVersion py links genericLinks version) ↔
      '-' ∈ version ∨ (∀ v ∈ usable py links genericLinks version, v.1.IsRc) ∨
        ∀ r ∈ usable py links genericLinks version, r.1.IsRc →
          ∃ s ∈ usable py links genericLinks version, ¬ s.1.IsRc ∧
            Below ((usable py links genericLinks version).map Prod.fst) r.1 s.1 := by
  have hnil : usable py links genericLinks version = [] ↔
      compatible py links version = [] ∧ compatible py genericLinks version = [] := by
    rw [usable]
    split_ifs with hlinks
    · exact ⟨fun h => ⟨hlinks, h⟩, And.right⟩
    · exact ⟨fun h => absurd h hlinks, fun h => absurd h.1 hlinks⟩
  have hraises : downloadVersion py links genericLinks version = none ↔
      compatible py links version = [] ∧ compatible py genericLinks version = [] := by
    rw [downloadVersion_eq, List.getLast?_eq_none_iff, ← List.length_eq_zero_iff, List.length_mergeSort,
      List.length_eq_zero_iff, hnil]
  have hmem : ∀ link ∈ downloadVersion py links genericLinks version, link ∈ usable py links genericLinks version := by
    intro link hlink
    rw [downloadVersion_eq] at hlink
    exact List.mem_mergeSort.mp (List.mem_of_getLast? hlink)
  constructor
  · intro h
    by_cases hhyphen : '-' ∈ version
    · exact .inl hhyphen
    by_cases hrelease : ∃ v ∈ usable py links genericLinks version, ¬ v.1.IsRc
    · refine .inr (.inr ?_)
      cases hresult : downloadVersion py links genericLinks version with
      | none =>
        obtain ⟨v, hv, -⟩ := hrelease
        rw [hnil.mpr (hraises.mp hresult)] at hv
        cases hv
      | some link =>
        rw [hresult] at h
        exact (chosen_not_isRc_iff hresult).mp (h.highest hhyphen hrelease link rfl).1
    · refine .inr (.inl fun v hv => not_not.mp fun hrc => hrelease ⟨v, hv, hrc⟩)
  · intro h
    refine ⟨hraises, hmem, fun hhyphen link hlink => ?_, fun hhyphen hrelease link hlink => ?_⟩
    · have hcompatible := compatible_of_mem_usable (hmem link hlink)
      rwa [Compatible, if_pos hhyphen] at hcompatible
    · obtain ⟨v, hv, hrc⟩ := hrelease
      have hbelow := (h.resolve_left hhyphen).resolve_left fun hall => hrc (hall v hv)
      have hlinkRc := (chosen_not_isRc_iff hlink).mpr hbelow
      rw [downloadVersion_eq] at hlink
      obtain ⟨hmax, -⟩ := getLast?_mergeSort_key (fun link : Version × Url => link.1.key) hlink
      exact ⟨hlinkRc, fun v hv hrc => (components_le_iff hrc hlinkRc).mpr (hmax v hv)⟩

/-! ### A release candidate of a later patch level -/

/-- Numbers without signs and fractions. -/
def digitPython : Python where
  int s := if s ≠ [] ∧ s.all Char.isDigit then some (Nat.ofDigitChars 10 s 0) else none
  float s := if s ≠ [] ∧ s.all Char.isDigit then some (whole (Nat.ofDigitChars 10 s 0)) else none
  int_toDigits := ite_digits_toDigits_int
  float_toDigits n := ite_digits_toDigits (fun n => whole n) n

def laterCandidate : Links := ⟨[(.release 4 0 1, "a.tgz".toList), (.rc 4 0 2 0, "b.tgz".toList)], by decide⟩

theorem usable_laterCandidate : usable digitPython laterCandidate ⟨[], by decide⟩ "4.0".toList =
    [(.release 4 0 1, "a.tgz".toList), (.rc 4 0 2 0, "b.tgz".toList)] := by decide +kernel

/-- The release 4.0.1 is passed over. -/
theorem laterCandidate_chosen :
    downloadVersion digitPython laterCandidate ⟨[], by decide⟩ "4.0".toList = some (.rc 4 0 2 0, "b.tgz".toList) ∧
      ¬ Correct digitPython laterCandidate ⟨[], by decide⟩ "4.0".toList
        (downloadVersion digitPython laterCandidate ⟨[], by decide⟩ "4.0".toList) := by
  have hchosen : downloadVersion digitPython laterCandidate ⟨[], by decide⟩ "4.0".toList =
      some (.rc 4 0 2 0, "b.tgz".toList) := by
    rw [downloadVersion_eq, usable_laterCandidate, List.mergeSort_of_pairwise (by decide +kernel)]
    rfl
  refine ⟨hchosen, fun h => ?_⟩
  have hrelease : ((.release 4 0 1, "a.tgz".toList) : Version × Url) ∈
      usable digitPython laterCandidate ⟨[], by decide⟩ "4.0".toList := by
    rw [usable_laterCandidate]
    exact List.mem_cons_self
  exact (h.highest (by decide) ⟨_, hrelease, id⟩ _ hchosen).1 trivial

end Promise

end MongoTests.MultiVersion
