import Mathlib.Algebra.GroupWithZero.Nat
import Mathlib.Algebra.Order.BigOperators.Group.List
import Mathlib.Algebra.Order.Group.Nat
import Mathlib.Data.List.Induction
import MongoTests.Lib.Dict

/-!
# File systems with symbolic links

The directories form a tree of bounded height; a directory is given by its location, the names from
the root to it. A name of a directory stands for a file, for a directory, or for a link, which may
lead to a directory anywhere in the tree, so that there are cycles.

* `FileSystem`, `entry`; `IsDir`.
* `cd`, `resolve`: the directory that names lead to, links included.
* `LinkFree`: no link to a directory below a directory; `resolve_of_linkFree`.
* `ofTable`: a file system from its directories.
-/

namespace MongoTests.Lib

/-- A link has the location of the directory that it leads to, if it leads to one. -/
inductive Entry (ν : Type*)
  | file
  | dir
  | link (target : Option (List ν))
  deriving DecidableEq

structure FileSystem (ν : Type*) where
  entries : List ν → Option (Dict ν (Entry ν))
  height : ℕ
  isSome_root : (entries []).isSome
  isSome_child : ∀ d n, (entries (d ++ [n])).isSome ↔
    ∃ es, entries d = some es ∧ (n, .dir) ∈ es.items
  isSome_target : ∀ d es n t, entries d = some es → (n, .link (some t)) ∈ es.items →
    (entries t).isSome
  length_le : ∀ d, (entries d).isSome → d.length ≤ height

namespace FileSystem

variable {ν : Type*} (fs : FileSystem ν)

def IsDir (d : List ν) : Prop := (fs.entries d).isSome

/-- The name stands for this entry in the directory. -/
def HasEntry (d : List ν) (n : ν) (e : Entry ν) : Prop := ∃ es, fs.entries d = some es ∧ (n, e) ∈ es.items

/-- There is no link to a directory in the directory or anywhere below it. -/
def LinkFree (d : List ν) : Prop := ∀ rest n t, ¬ fs.HasEntry (d ++ rest) n (.link (some t))

section Resolve

variable [DecidableEq ν]

def entry (d : List ν) (n : ν) : Option (Entry ν) := (fs.entries d).bind fun es => es.get n

def cd (d : List ν) (n : ν) : Option (List ν) :=
  match fs.entry d n with
  | some .dir => some (d ++ [n])
  | some (.link target) => target
  | some .file | none => none

/-- The directory that the names lead to from `d`. -/
def resolve : List ν → List ν → Option (List ν)
  | d, [] => some d
  | d, n :: ns => (fs.cd d n).bind fun d' => resolve d' ns

end Resolve

variable {fs} {d c rest ns ns' : List ν} {n : ν} {e e' : Entry ν}

theorem HasEntry.isDir (h : fs.HasEntry d n e) : fs.IsDir d := by
  obtain ⟨es, hes, -⟩ := h
  rw [IsDir, hes]
  rfl

theorem isDir_child : fs.IsDir (d ++ [n]) ↔ fs.HasEntry d n .dir := fs.isSome_child d n

theorem HasEntry.unique (h : fs.HasEntry d n e) (h' : fs.HasEntry d n e') : e = e' := by
  obtain ⟨es, hes, hmem⟩ := h
  obtain ⟨es', hes', hmem'⟩ := h'
  rw [hes] at hes'
  cases hes'
  have hinj := List.inj_on_of_nodup_map es.nodup hmem hmem' rfl
  exact (Prod.ext_iff.mp hinj).2

theorem IsDir.of_append (h : fs.IsDir (d ++ ns)) : fs.IsDir d := by
  induction ns using List.reverseRecOn with
  | nil => rwa [List.append_nil] at h
  | append_singleton ns n ih =>
    rw [← List.append_assoc, isDir_child] at h
    exact ih h.isDir

theorem LinkFree.below (h : fs.LinkFree d) (rest : List ν) : fs.LinkFree (d ++ rest) := by
  intro rest' n t
  rw [List.append_assoc]
  exact h _ n t

variable [DecidableEq ν]

theorem entry_eq_some : fs.entry d n = some e ↔ fs.HasEntry d n e := by
  rw [entry, Option.bind_eq_some_iff]
  exact exists_congr fun es => and_congr_right fun _ => Dict.mem_items.symm

theorem cd_eq_some : fs.cd d n = some c ↔
    fs.HasEntry d n .dir ∧ c = d ++ [n] ∨ fs.HasEntry d n (.link (some c)) := by
  simp only [← entry_eq_some, cd]
  cases fs.entry d n with
  | none => simp
  | some e => cases e with
    | file => simp
    | dir => simp [eq_comm]
    | link t => simp

theorem resolve_append : fs.resolve d (ns ++ ns') = (fs.resolve d ns).bind (fs.resolve · ns') := by
  induction ns generalizing d with
  | nil => rfl
  | cons n ns ih =>
    rw [List.cons_append, resolve, resolve, Option.bind_assoc]
    simp only [ih]

theorem resolve_singleton : fs.resolve d [n] = fs.cd d n := by
  rw [resolve]
  cases fs.cd d n with
  | none => rfl
  | some d' => rfl

theorem IsDir.cd (h : fs.cd d n = some c) : fs.IsDir c := by
  obtain ⟨hdir, rfl⟩ | ⟨es, hes, hmem⟩ := cd_eq_some.mp h
  · exact isDir_child.mpr hdir
  · exact fs.isSome_target d es n c hes hmem

theorem IsDir.resolve (h : fs.IsDir d) (hr : fs.resolve d ns = some c) : fs.IsDir c := by
  induction ns generalizing d with
  | nil =>
    cases hr
    exact h
  | cons n ns ih =>
    obtain ⟨d', hd', hr⟩ := Option.bind_eq_some_iff.mp hr
    exact ih (.cd hd') hr

/-- What holds for the names of all directories holds for names that lead somewhere. -/
theorem forall_mem_of_resolve {P : ν → Prop} (hP : ∀ d n e, fs.HasEntry d n e → P n)
    (h : fs.resolve d ns = some c) : ∀ n ∈ ns, P n := by
  induction ns generalizing d with
  | nil => exact fun n hn => absurd hn List.not_mem_nil
  | cons n ns ih =>
    obtain ⟨d', hcd, hr⟩ := Option.bind_eq_some_iff.mp h
    refine List.forall_mem_cons.mpr ⟨?_, ih hr⟩
    obtain ⟨hdir, -⟩ | hlink := cd_eq_some.mp hcd
    · exact hP _ _ _ hdir
    · exact hP _ _ _ hlink

/-- The names of directories lead to the directory below. -/
theorem resolve_of_isDir (h : fs.IsDir (d ++ ns)) : fs.resolve d ns = some (d ++ ns) := by
  induction ns generalizing d with
  | nil => rw [resolve, List.append_nil]
  | cons n ns ih =>
    rw [List.append_cons] at h ⊢
    have hcd : fs.cd d n = some (d ++ [n]) := cd_eq_some.mpr (.inl ⟨isDir_child.mp h.of_append, rfl⟩)
    rw [resolve, hcd, Option.bind_some, ih h]

/-- Without links, names lead only to directories below. -/
theorem resolve_of_linkFree (h : fs.LinkFree d) (hd : fs.IsDir d) :
    fs.resolve d ns = some c ↔ fs.IsDir (d ++ ns) ∧ c = d ++ ns := by
  constructor
  · intro hr
    induction ns generalizing d with
    | nil =>
      cases hr
      rw [List.append_nil]
      exact ⟨hd, rfl⟩
    | cons n ns ih =>
      obtain ⟨d', hcd, hr⟩ := Option.bind_eq_some_iff.mp hr
      obtain ⟨hdir, rfl⟩ | hlink := cd_eq_some.mp hcd
      · rw [List.append_cons]
        exact ih (h.below [n]) (isDir_child.mpr hdir) hr
      · rw [← List.append_nil d] at hlink
        exact absurd hlink (h [] n d')
  · rintro ⟨hdir, rfl⟩
    exact resolve_of_isDir hdir

/-! ## File systems from tables -/

section Table

variable (t : Dict (List ν) (Dict ν (Entry ν)))

/-- The table has the directory in its parent. -/
def listsParent (d : List ν) : Bool :=
  match d.getLast?, t.get d.dropLast with
  | some n, some es => decide ((n, Entry.dir) ∈ es.items)
  | none, _ => true
  | _, none => false

/-- The table has what the entry refers to. -/
def hasTarget (d : List ν) (n : ν) : Entry ν → Bool
  | .dir => (t.get (d ++ [n])).isSome
  | .link (some c) => (t.get c).isSome
  | .file | .link none => true

/-- A file system from its directories. -/
def ofTable (hroot : (t.get []).isSome) (hparent : ∀ p ∈ t.items, listsParent t p.1 = true)
    (htarget : ∀ p ∈ t.items, ∀ q ∈ p.2.items, hasTarget t p.1 q.1 q.2 = true) : FileSystem ν where
  entries := t.get
  height := (t.items.map fun p => p.1.length).sum
  isSome_root := hroot
  isSome_child d n := by
    constructor
    · intro h
      obtain ⟨es, hes⟩ := Option.isSome_iff_exists.mp h
      have hlists := hparent _ (Dict.mem_items.mpr hes)
      rw [listsParent, List.getLast?_concat, List.dropLast_concat] at hlists
      cases hd : t.get d with
      | none =>
        rw [hd] at hlists
        cases hlists
      | some es' =>
        rw [hd] at hlists
        exact ⟨es', rfl, of_decide_eq_true hlists⟩
    · rintro ⟨es, hes, hmem⟩
      exact htarget _ (Dict.mem_items.mpr hes) _ hmem
  isSome_target d es n c hes hmem := htarget _ (Dict.mem_items.mpr hes) _ hmem
  length_le d h := by
    obtain ⟨es, hes⟩ := Option.isSome_iff_exists.mp h
    exact List.le_sum_of_mem (List.mem_map.mpr ⟨_, Dict.mem_items.mpr hes, rfl⟩)

/-- What holds for the names of the table and their entries. -/
theorem forall_entries {P : ν → Entry ν → Prop} {t : Dict (List ν) (Dict ν (Entry ν))}
    (hfs : fs.entries = t.get) (hP : ∀ p ∈ t.items, ∀ q ∈ p.2.items, P q.1 q.2) (d : List ν) (n : ν)
    (e : Entry ν) (h : fs.HasEntry d n e) : P n e := by
  obtain ⟨es, hes, hmem⟩ := h
  rw [hfs] at hes
  exact hP _ (Dict.mem_items.mpr hes) _ hmem

theorem linkFree_of_entries {t : Dict (List ν) (Dict ν (Entry ν))} (hfs : fs.entries = t.get)
    (hno : ∀ p ∈ t.items, ∀ q ∈ p.2.items, q.2 = .dir ∨ q.2 = .file) : fs.LinkFree d := by
  intro rest n c h
  obtain heq | heq := forall_entries (P := fun _ e => e = .dir ∨ e = .file) hfs hno _ n _ h
  · cases heq
  · cases heq

end Table

end FileSystem

end MongoTests.Lib
