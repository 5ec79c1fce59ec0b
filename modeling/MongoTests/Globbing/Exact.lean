import Mathlib.Data.List.Forall2
import MongoTests.Globbing.Links

/-!
# What a globstar pattern emits

On a tree without links whose names have no glob characters.

* `Matches`, `Exists`: the paths that match a pattern, and those that are in the tree.
* `GlobsTo`, `mem_stdIglob`: `glob.iglob` emits the paths that match a pattern without `**`.
* `WildcardsLast`: no wildcard stands before a `**`; `Emits`, `mem_iglob`: what `iglob` emits.
* **`glob_exact_iff`**: when `iglob` emits exactly the paths that match.
* `wildcard_before_globstar`: a pattern that emits nothing.
-/

namespace MongoTests.Globbing

open MongoTests.Lib MongoTests.Suites

section Matches

variable (m : Machine)

/-- A part without `**` matches a name; a wildcard does not match a hidden name, unless it begins with
a dot. -/
def PartMatches (part name : String) : Prop :=
  if isGlobPattern part then m.fnmatch name part = true ∧ (isHidden part = true ∨ isHidden name = false)
  else part = name

/-- The names match the parts, where `**` matches zero or more names. -/
inductive Matches : List String → List String → Prop
  | nil : Matches [] []
  | part {part name : String} {parts names : List String} : part ≠ "**" → PartMatches m part name →
      Matches parts names → Matches (part :: parts) (name :: names)
  | zero {parts names : List String} : Matches parts names → Matches ("**" :: parts) names
  | more {name : String} {parts names : List String} : Matches ("**" :: parts) names →
      Matches ("**" :: parts) (name :: names)

/-- The path is in the tree. -/
def Exists (a : Bool) (names : List String) : Prop :=
  ∃ d n e, names = d ++ [n] ∧ m.fs.HasEntry (m.base a ++ d) n e

end Matches

/-- No wildcard stands before a `**`. -/
def WildcardsLast : List String → Prop
  | [] => True
  | part :: parts =>
    (part ≠ "**" → isGlobPattern part = true → "**" ∉ parts) ∧ WildcardsLast parts

section Lemmas

variable {m : Machine} {parts pre suf suf' names names' res : List String} {prev : Bool}

theorem matches_globstar : Matches m ("**" :: parts) names ↔
    ∃ rest names', names = rest ++ names' ∧ Matches m parts names' := by
  constructor
  · intro h
    generalize hparts : "**" :: parts = all at h
    induction h with
    | nil => cases hparts
    | part hne _ _ _ =>
      cases hparts
      exact absurd rfl hne
    | zero h _ =>
      cases hparts
      exact ⟨[], _, rfl, h⟩
    | more _ ih =>
      obtain ⟨rest, names', rfl, h⟩ := ih hparts
      exact ⟨_ :: rest, names', rfl, h⟩
  · rintro ⟨rest, names', rfl, h⟩
    induction rest with
    | nil => exact .zero h
    | cons name rest ih => exact .more ih

theorem matches_cons {part : String} (hne : part ≠ "**") : Matches m (part :: parts) names ↔
    ∃ name names', names = name :: names' ∧ PartMatches m part name ∧ Matches m parts names' := by
  constructor
  · intro h
    cases h with
    | part _ hpart h => exact ⟨_, _, rfl, hpart, h⟩
    | zero _ => exact absurd rfl hne
    | more _ => exact absurd rfl hne
  · rintro ⟨name, names', rfl, hpart, h⟩
    exact .part hne hpart h

theorem ne_globstar_of_literal {part : String} (h : isGlobPattern part = false) : part ≠ "**" := by
  rintro rfl
  revert h
  decide

theorem matches_append (hpre : ∀ part ∈ pre, isGlobPattern part = false) :
    Matches m (pre ++ parts) names ↔ ∃ names', names = pre ++ names' ∧ Matches m parts names' := by
  induction pre generalizing names with
  | nil => simp
  | cons part pre ih =>
    obtain ⟨hpart, hpre⟩ := List.forall_mem_cons.mp hpre
    rw [List.cons_append, matches_cons (ne_globstar_of_literal hpart)]
    constructor
    · rintro ⟨name, names', rfl, hname, h⟩
      obtain ⟨names'', rfl, hrest⟩ := (ih hpre).mp h
      rw [PartMatches, if_neg (by rw [hpart]; exact Bool.false_ne_true)] at hname
      exact ⟨names'', by rw [hname]; rfl, hrest⟩
    · rintro ⟨names', rfl, h⟩
      refine ⟨part, pre ++ names', rfl, ?_, (ih hpre).mpr ⟨names', rfl, h⟩⟩
      rw [PartMatches, if_neg (by rw [hpart]; exact Bool.false_ne_true)]

theorem matches_iff_forall₂ (h : "**" ∉ parts) :
    Matches m parts names ↔ List.Forall₂ (PartMatches m) parts names := by
  induction parts generalizing names with
  | nil =>
    rw [List.forall₂_nil_left_iff]
    constructor
    · intro h
      cases h
      rfl
    · rintro rfl
      exact .nil
  | cons part parts ih =>
    obtain ⟨hne, h⟩ := not_or.mp (List.mem_cons.not.mp h)
    rw [matches_cons (Ne.symm hne), List.forall₂_cons_left_iff]
    simp only [ih h]
    constructor
    · rintro ⟨name, names', rfl, hpart, hrest⟩
      exact ⟨name, names', hpart, hrest, rfl⟩
    · rintro ⟨name, names', hpart, hrest, rfl⟩
      exact ⟨name, names', rfl, hpart, hrest⟩

/-! ### Coalesced patterns -/

theorem matches_canonicalizeFrom (h : canonicalizeFrom prev parts = .ok res) :
    (prev = false → ∀ names, Matches m parts names ↔ Matches m res names) ∧
      ∀ names, Matches m ("**" :: parts) names ↔ Matches m ("**" :: res) names := by
  induction parts generalizing prev res with
  | nil =>
    cases h
    exact ⟨fun _ _ => Iff.rfl, fun _ => Iff.rfl⟩
  | cons part parts ih =>
    have hself : (∀ names, Matches m (part :: parts) names ↔ Matches m res names) →
        ∀ names, Matches m ("**" :: part :: parts) names ↔ Matches m ("**" :: res) names := by
      intro h names
      rw [matches_globstar, matches_globstar]
      simp only [h]
    obtain ⟨rfl, rfl, hrest⟩ | ⟨rfl, -, rest, rfl, hrest⟩ | ⟨hne, rest, rfl, hrest⟩ :=
      canonicalizeFrom_cons h
    · refine ⟨(fun hfalse => by cases hfalse), fun names => ?_⟩
      rw [← (ih hrest).2, matches_globstar]
      constructor
      · rintro ⟨rest, names', rfl, h'⟩
        obtain ⟨rest', names'', rfl, h''⟩ := matches_globstar.mp h'
        exact matches_globstar.mpr ⟨rest ++ rest', names'', (List.append_assoc ..).symm, h''⟩
      · exact fun h => ⟨[], names, rfl, h⟩
    · exact ⟨fun _ => (ih hrest).2, hself (ih hrest).2⟩
    · have hboth : ∀ names, Matches m (part :: parts) names ↔ Matches m (part :: rest) names := by
        intro names
        rw [matches_cons hne, matches_cons hne]
        simp only [(ih hrest).1 rfl]
      exact ⟨fun _ => hboth, hself hboth⟩

theorem globstar_mem_canonicalizeFrom (h : canonicalizeFrom false parts = .ok res) :
    "**" ∈ res ↔ "**" ∈ parts := by
  induction parts generalizing res with
  | nil =>
    cases h
    rfl
  | cons part parts ih =>
    obtain ⟨-, hfalse, -⟩ | ⟨rfl, -, rest, rfl, -⟩ | ⟨-, rest, rfl, hrest⟩ :=
      canonicalizeFrom_cons h
    · cases hfalse
    · exact iff_of_true List.mem_cons_self List.mem_cons_self
    · rw [List.mem_cons, List.mem_cons, ih hrest]

theorem wildcardsLast_globstar : WildcardsLast ("**" :: parts) ↔ WildcardsLast parts := by
  rw [WildcardsLast]
  exact and_iff_right fun hne => absurd rfl hne

theorem wildcardsLast_canonicalizeFrom (h : canonicalizeFrom prev parts = .ok res) :
    WildcardsLast res ↔ WildcardsLast parts := by
  induction parts generalizing prev res with
  | nil =>
    cases h
    rfl
  | cons part parts ih =>
    obtain ⟨rfl, -, hrest⟩ | ⟨rfl, -, rest, rfl, hrest⟩ | ⟨-, rest, rfl, hrest⟩ :=
      canonicalizeFrom_cons h
    · rw [wildcardsLast_globstar]
      exact ih hrest
    · rw [wildcardsLast_globstar, wildcardsLast_globstar]
      exact ih hrest
    · rw [WildcardsLast, WildcardsLast, ih hrest, globstar_mem_canonicalizeFrom hrest]

theorem wildcardsLast_append (hpre : ∀ part ∈ pre, isGlobPattern part = false) :
    WildcardsLast (pre ++ parts) ↔ WildcardsLast parts := by
  induction pre with
  | nil => rfl
  | cons part pre ih =>
    obtain ⟨hpart, hpre⟩ := List.forall_mem_cons.mp hpre
    rw [List.cons_append, WildcardsLast, ih hpre]
    refine and_iff_right fun _ hglob => ?_
    rw [hpart] at hglob
    cases hglob

theorem wildcardsLast_append_globstar (hpre : "**" ∉ pre) :
    WildcardsLast (pre ++ "**" :: suf) ↔
      (∀ part ∈ pre, isGlobPattern part = false) ∧ WildcardsLast suf := by
  induction pre with
  | nil => simp [wildcardsLast_globstar]
  | cons part pre ih =>
    obtain ⟨hne, hpre⟩ := not_or.mp (List.mem_cons.not.mp hpre)
    rw [List.cons_append, WildcardsLast, ih hpre, List.forall_mem_cons, and_assoc]
    refine and_congr_left fun _ => ?_
    simp [Ne.symm hne]

theorem wildcardsLast_of_notMem (h : "**" ∉ parts) : WildcardsLast parts := by
  induction parts with
  | nil => trivial
  | cons part parts ih =>
    obtain ⟨-, h⟩ := not_or.mp (List.mem_cons.not.mp h)
    exact ⟨fun _ _ => h, ih h⟩

/-- A last part that is not `**` stays. -/
theorem canonicalizeFrom_concat {last : String} (hlast : last ≠ "**")
    (h : canonicalizeFrom prev (parts ++ [last]) = .ok res) : ∃ res', res = res' ++ [last] := by
  induction parts generalizing prev res with
  | nil =>
    obtain ⟨rfl, -⟩ | ⟨rfl, -⟩ | ⟨-, rest, rfl, hrest⟩ := canonicalizeFrom_cons h
    · exact absurd rfl hlast
    · exact absurd rfl hlast
    · cases hrest
      exact ⟨[], rfl⟩
  | cons part parts ih =>
    obtain ⟨-, -, hrest⟩ | ⟨-, -, rest, rfl, hrest⟩ | ⟨-, rest, rfl, hrest⟩ :=
      canonicalizeFrom_cons h
    · exact ih hrest
    · obtain ⟨res', rfl⟩ := ih hrest
      exact ⟨"**" :: res', rfl⟩
    · obtain ⟨res', rfl⟩ := ih hrest
      exact ⟨part :: res', rfl⟩

/-- A path that matches such a pattern is not empty. -/
theorem ne_nil_of_matches {last : String} (hlast : last ≠ "**")
    (h : Matches m (parts ++ [last]) names) : names ≠ [] := by
  rintro rfl
  induction parts with
  | nil =>
    obtain ⟨name, names', heq, -⟩ := (matches_cons hlast).mp h
    cases heq
  | cons part parts ih =>
    rw [List.cons_append] at h
    cases h with
    | zero h => exact ih h

end Lemmas

/-! ## `glob.iglob` -/

section Glob

variable {m : Machine} {a dironly : Bool} {d q rparts : List String} {part n : String}

theorem resolve_base (hfree : m.fs.LinkFree (m.base a)) {c : List String} :
    m.fs.resolve (m.base a) d = some c ↔ m.fs.IsDir (m.base a ++ d) ∧ c = m.base a ++ d :=
  FileSystem.resolve_of_linkFree hfree isDir_base

theorem plain_of_isDir (h : m.fs.IsDir (m.base a ++ d)) : Plain d :=
  plain_of_resolve (FileSystem.resolve_of_isDir h)

theorem plain_of_exists (h : Exists m a q) : Plain q := by
  obtain ⟨d, n, e, rfl, hn⟩ := h
  refine (plain_of_isDir hn.isDir).append fun part hpart => ?_
  rw [List.mem_singleton.mp hpart]
  exact (m.valid _ _ _ hn).imp_right And.left

theorem exists_concat : Exists m a (d ++ [n]) ↔ ∃ e, m.fs.HasEntry (m.base a ++ d) n e := by
  constructor
  · rintro ⟨d', n', e, heq, hn⟩
    obtain ⟨rfl, hn'⟩ := List.append_inj' heq rfl
    cases hn'
    exact ⟨e, hn⟩
  · rintro ⟨e, hn⟩
    exact ⟨d, n, e, rfl, hn⟩

/-- What is in the tree is in a directory. -/
theorem isDir_of_exists_append (hne : q ≠ []) (h : Exists m a (d ++ q)) :
    m.fs.IsDir (m.base a ++ d) := by
  obtain rfl | ⟨init, n, rfl⟩ := List.eq_nil_or_concat q
  · exact absurd rfl hne
  · rw [List.concat_eq_append, ← List.append_assoc] at h
    obtain ⟨e, hn⟩ := exists_concat.mp h
    have hdir := hn.isDir
    rw [← List.append_assoc] at hdir
    exact hdir.of_append

/-- Without links, the entry of a directory is a directory. -/
theorem isDirEntry_of_hasEntry (hfree : m.fs.LinkFree (m.base a)) {e : Entry String}
    (hn : m.fs.HasEntry (m.base a ++ d) n e) :
    isDirEntry e = true ↔ m.fs.IsDir (m.base a ++ (d ++ [n])) := by
  rw [← List.append_assoc, FileSystem.isDir_child]
  cases e with
  | file => exact iff_of_false Bool.false_ne_true fun h => by cases h.unique hn
  | dir => exact iff_of_true rfl hn
  | link t => cases t with
    | none => exact iff_of_false Bool.false_ne_true fun h => by cases h.unique hn
    | some t => exact absurd hn (hfree d n t)

theorem mem_iterdir (hfree : m.fs.LinkFree (m.base a)) (hplain : Plain d) :
    n ∈ iterdir m ⟨a, d⟩ dironly ↔ Exists m a (d ++ [n]) ∧
      (dironly = true → m.fs.IsDir (m.base a ++ (d ++ [n]))) := by
  have hentry : n ∈ iterdir m ⟨a, d⟩ dironly ↔
      ∃ e, m.fs.HasEntry (m.base a ++ d) n e ∧ (dironly = true → isDirEntry e = true) := by
    rw [iterdir, scandir, locate_of_plain hplain]
    by_cases hdir : m.fs.IsDir (m.base a ++ d)
    · obtain ⟨es, hes⟩ := Option.isSome_iff_exists.mp hdir
      rw [(resolve_base hfree).mpr ⟨hdir, rfl⟩, Option.bind_some, hes]
      have hhas : ∀ e, m.fs.HasEntry (m.base a ++ d) n e ↔ (n, e) ∈ es.items := by
        intro e
        constructor
        · rintro ⟨es', hes', hmem⟩
          rw [hes] at hes'
          cases hes'
          exact hmem
        · exact fun hmem => ⟨es, hes, hmem⟩
      simp only [hhas]
      cases dironly with
      | false => simp
      | true => simp
    · have hnone : m.fs.resolve (m.base a) d = none :=
        Option.eq_none_iff_forall_ne_some.mpr fun c hc => hdir ((resolve_base hfree).mp hc).1
      rw [hnone]
      refine iff_of_false (fun h => by cases h) ?_
      rintro ⟨e, hn, -⟩
      exact hdir hn.isDir
  rw [hentry, exists_concat]
  constructor
  · rintro ⟨e, hn, hdir⟩
    exact ⟨⟨e, hn⟩, fun h => (isDirEntry_of_hasEntry hfree hn).mp (hdir h)⟩
  · rintro ⟨⟨e, hn⟩, hdir⟩
    exact ⟨e, hn, fun h => (isDirEntry_of_hasEntry hfree hn).mpr (hdir h)⟩

theorem lexists_iff (hfree : m.fs.LinkFree (m.base a)) (hplain : Plain (d ++ [n])) :
    lexists m ⟨a, d ++ [n]⟩ = true ↔ Exists m a (d ++ [n]) := by
  have hn := hplain n (List.mem_append_right _ List.mem_cons_self)
  rw [lexists, lstat, PathName.basename_concat, if_neg (not_or.mpr hn)]
  dsimp only
  rw [List.dropLast_concat, locate_of_plain hplain.left, exists_concat, Option.isSome_iff_exists]
  refine exists_congr fun e => ?_
  rw [Option.bind_eq_some_iff]
  constructor
  · rintro ⟨c, hc, he⟩
    obtain ⟨-, rfl⟩ := (resolve_base hfree).mp hc
    exact FileSystem.entry_eq_some.mp he
  · exact fun he => ⟨_, (resolve_base hfree).mpr ⟨he.isDir, rfl⟩, FileSystem.entry_eq_some.mpr he⟩

/-- The names that the last part adds to a directory: `_glob1` for a wildcard, `_glob0` for a name. -/
theorem mem_globIn (hfree : m.fs.LinkFree (m.base a)) (hplain : Plain d)
    (hpart : part ≠ "" ∧ part ≠ ".") :
    (n ∈ (if isGlobPattern part then glob1 m ⟨a, d⟩ part dironly else glob0 m ⟨a, d⟩ part) →
      PartMatches m part n ∧ Exists m a (d ++ [n])) ∧
    (PartMatches m part n → Exists m a (d ++ [n]) →
      (dironly = true → m.fs.IsDir (m.base a ++ (d ++ [n]))) →
      n ∈ if isGlobPattern part then glob1 m ⟨a, d⟩ part dironly else glob0 m ⟨a, d⟩ part) := by
  rw [PartMatches]
  cases hglob : isGlobPattern part with
  | true =>
    have hmem : n ∈ glob1 m ⟨a, d⟩ part dironly ↔ n ∈ iterdir m ⟨a, d⟩ dironly ∧
        m.fnmatch n part = true ∧ (isHidden part = true ∨ isHidden n = false) := by
      rw [glob1, List.mem_filter]
      cases isHidden part with
      | true => simp
      | false => simp [and_assoc, and_comm, and_left_comm]
    simp only [if_true, hmem, mem_iterdir hfree hplain]
    exact ⟨fun h => ⟨h.2, h.1.1⟩, fun hpart hexists hdir => ⟨⟨hexists, hdir⟩, hpart⟩⟩
  | false =>
    have hplain' : Plain (d ++ [part]) := hplain.append fun p hp => by
      rw [List.mem_singleton.mp hp]
      exact hpart
    have hmem : n ∈ glob0 m ⟨a, d⟩ part ↔ part = n ∧ Exists m a (d ++ [n]) := by
      rw [glob0, if_neg hpart.1, PathName.join_of_plain hplain]
      by_cases hexists : lexists m ⟨a, d ++ [part]⟩ = true
      · rw [if_pos hexists, List.mem_singleton]
        rw [lexists_iff hfree hplain'] at hexists
        constructor
        · rintro rfl
          exact ⟨rfl, hexists⟩
        · exact fun h => h.1.symm
      · rw [if_neg hexists]
        rw [lexists_iff hfree hplain'] at hexists
        refine iff_of_false List.not_mem_nil ?_
        rintro ⟨rfl, h⟩
        exact hexists h
    simp only [Bool.false_eq_true, if_false, hmem]
    exact ⟨id, fun hpart hexists _ => ⟨hpart, hexists⟩⟩

theorem partMatches_of_literal (h : isGlobPattern part = false) : PartMatches m part n ↔ part = n := by
  rw [PartMatches, if_neg (by rw [h]; exact Bool.false_ne_true)]

theorem forall₂_of_literal (h : ∀ part ∈ rparts, isGlobPattern part = false) :
    List.Forall₂ (PartMatches m) rparts q ↔ q = rparts := by
  induction rparts generalizing q with
  | nil => exact List.forall₂_nil_left_iff
  | cons part rparts ih =>
    obtain ⟨hpart, h⟩ := List.forall_mem_cons.mp h
    rw [List.forall₂_cons_left_iff]
    simp only [partMatches_of_literal hpart, ih h]
    constructor
    · rintro ⟨_, _, rfl, rfl, rfl⟩
      rfl
    · rintro rfl
      exact ⟨_, _, rfl, rfl, rfl⟩

/-- The paths match, and all paths that match and that may be emitted are there: those of directories
where `_iglob` looks for directories only. -/
structure GlobsTo (m : Machine) (a dironly : Bool) (rparts : List String) (paths : List PathName) :
    Prop where
  sound : ∀ path ∈ paths, ∃ q, path = ⟨a, q⟩ ∧
    List.Forall₂ (PartMatches m) rparts q.reverse ∧ Exists m a q
  complete : ∀ q, List.Forall₂ (PartMatches m) rparts q.reverse → Exists m a q →
    (dironly = true → m.fs.IsDir (m.base a ++ q)) → ⟨a, q⟩ ∈ paths

/-- The directories in which the last part is looked for. -/
def dirsOf (m : Machine) (a : Bool) (rdir : List String) : List PathName :=
  if rdir.any isGlobPattern then iglobRev m a true rdir else [⟨a, rdir.reverse⟩]

theorem exists_of_isDir (hne : q ≠ []) (h : m.fs.IsDir (m.base a ++ q)) : Exists m a q := by
  obtain rfl | ⟨init, n, rfl⟩ := List.eq_nil_or_concat q
  · exact absurd rfl hne
  · rw [List.concat_eq_append] at h ⊢
    rw [← List.append_assoc, FileSystem.isDir_child] at h
    exact exists_concat.mpr ⟨_, h⟩

/-- The directories match the parts before the last one, and all that match are there. -/
theorem mem_dirsOf {rdir : List String} (hplain : Plain rdir)
    (hglob : rdir.any isGlobPattern = true → GlobsTo m a true rdir (iglobRev m a true rdir)) :
    (∀ path ∈ dirsOf m a rdir, ∃ d, path = ⟨a, d⟩ ∧
      List.Forall₂ (PartMatches m) rdir d.reverse ∧ Plain d) ∧
    ∀ d, List.Forall₂ (PartMatches m) rdir d.reverse → m.fs.IsDir (m.base a ++ d) →
      ⟨a, d⟩ ∈ dirsOf m a rdir := by
  rw [dirsOf]
  cases hrdir : rdir.any isGlobPattern with
  | true =>
    have hglob := hglob hrdir
    simp only [if_true]
    constructor
    · intro path hpath
      obtain ⟨d, rfl, hd, hex⟩ := hglob.sound path hpath
      exact ⟨d, rfl, hd, plain_of_exists hex⟩
    · intro d hd hisDir
      refine hglob.complete d hd (exists_of_isDir ?_ hisDir) fun _ => hisDir
      rintro rfl
      rw [List.reverse_nil, List.forall₂_nil_right_iff] at hd
      rw [hd] at hrdir
      cases hrdir
  | false =>
    have hliteral : ∀ p ∈ rdir, isGlobPattern p = false := by simpa using hrdir
    simp only [Bool.false_eq_true, if_false, List.mem_singleton, forall₂_of_literal hliteral]
    constructor
    · rintro path rfl
      exact ⟨_, rfl, List.reverse_reverse _, fun p hp => hplain p (List.mem_reverse.mp hp)⟩
    · intro d hd _
      rw [← hd, List.reverse_reverse]

/-- A path name without wildcards. -/
theorem globsTo_literal {rdir : List String} (hfree : m.fs.LinkFree (m.base a))
    (hplain : Plain (part :: rdir)) (hliteral : ∀ p ∈ part :: rdir, isGlobPattern p = false) :
    GlobsTo m a dironly (part :: rdir)
      (if lexists m ⟨a, (part :: rdir).reverse⟩ then [⟨a, (part :: rdir).reverse⟩] else []) := by
  have hexists : lexists m ⟨a, (part :: rdir).reverse⟩ = true ↔ Exists m a (part :: rdir).reverse := by
    rw [List.reverse_cons]
    refine lexists_iff hfree fun p hp => hplain p ?_
    rw [← List.reverse_cons] at hp
    exact List.mem_reverse.mp hp
  constructor
  · intro path hpath
    split_ifs at hpath with hlex
    · rw [List.mem_singleton.mp hpath]
      exact ⟨_, rfl, (forall₂_of_literal hliteral).mpr (List.reverse_reverse _), hexists.mp hlex⟩
    · cases hpath
  · intro q hq hex _
    obtain rfl : q = (part :: rdir).reverse := by
      rw [← (forall₂_of_literal hliteral).mp hq, List.reverse_reverse]
    rw [if_pos (hexists.mpr hex)]
    exact List.mem_singleton_self _

/-- **`_iglob`** emits paths that match, and all of them that it may emit. -/
theorem globsTo_iglobRev (dironly : Bool) (hfree : m.fs.LinkFree (m.base a)) (hplain : Plain rparts)
    (hne : rparts ≠ []) : GlobsTo m a dironly rparts (iglobRev m a dironly rparts) := by
  induction rparts generalizing dironly with
  | nil => exact absurd rfl hne
  | cons part rdir ih =>
    obtain ⟨hpart, hdir⟩ := List.forall_mem_cons.mp hplain
    rw [iglobRev]
    cases hmagic : (part :: rdir).any isGlobPattern with
    | false =>
      rw [Bool.not_false, if_pos rfl, if_pos hpart.1]
      exact globsTo_literal hfree hplain (by simpa using hmagic)
    | true =>
      have hdirs := mem_dirsOf (m := m) (a := a) hdir fun hrdir => ih true hdir fun hnil => by
        rw [hnil] at hrdir
        cases hrdir
      rw [dirsOf] at hdirs
      dsimp only
      rw [Bool.not_true, if_neg Bool.false_ne_true]
      constructor
      · intro path hpath
        obtain ⟨dir, hdir, hpath⟩ := List.mem_flatMap.mp hpath
        obtain ⟨n, hn, rfl⟩ := List.mem_map.mp hpath
        obtain ⟨d, rfl, hd, hplaind⟩ := hdirs.1 dir hdir
        obtain ⟨hmatch, hex⟩ := (mem_globIn hfree hplaind hpart).1 hn
        refine ⟨d ++ [n], PathName.join_of_plain hplaind _, ?_, hex⟩
        rw [List.reverse_append]
        exact .cons hmatch hd
      · intro q hq hex hisDir
        obtain ⟨d, n, e, rfl, hn⟩ := hex
        rw [List.reverse_append] at hq
        cases hq with
        | cons hmatch hd =>
          have hplaind := plain_of_isDir hn.isDir
          refine List.mem_flatMap.mpr ⟨⟨a, d⟩, hdirs.2 d hd hn.isDir, List.mem_map.mpr ⟨n, ?_, ?_⟩⟩
          · exact (mem_globIn hfree hplaind hpart).2 hmatch ⟨d, n, e, rfl, hn⟩ hisDir
          · exact PathName.join_of_plain hplaind _

/-- **`glob.iglob`** emits the paths that match. -/
theorem mem_stdIglob {parts : List String} (hfree : m.fs.LinkFree (m.base a)) (hplain : Plain parts)
    (hne : parts ≠ []) (hstar : "**" ∉ parts) (path : PathName) :
    path ∈ (stdIglob m ⟨a, parts⟩).map PathName.normpath ↔
      ∃ q, path = ⟨a, q⟩ ∧ Matches m parts q ∧ Exists m a q := by
  have hplain' : Plain parts.reverse := fun p hp => hplain p (List.mem_reverse.mp hp)
  have hglob := globsTo_iglobRev false hfree hplain' (fun h => hne (List.reverse_eq_nil_iff.mp h))
  have hnorm : ∀ q, Exists m a q → PathName.normpath ⟨a, q⟩ = ⟨a, q⟩ := by
    intro q hex
    have hnames : PathName.names ⟨a, q⟩ = q := PathName.names_of_plain (plain_of_exists hex)
    have hq : q ≠ [] := by
      obtain ⟨d, n, e, rfl, -⟩ := hex
      exact List.append_ne_nil_of_right_ne_nil _ (List.cons_ne_nil _ _)
    rw [PathName.normpath, hnames, if_neg fun h => hq h.2]
  simp only [matches_iff_forall₂ hstar]
  constructor
  · intro hpath
    obtain ⟨path', hpath', rfl⟩ := List.mem_map.mp hpath
    obtain ⟨q, rfl, hq, hex⟩ := hglob.sound path' hpath'
    exact ⟨q, hnorm q hex, List.forall₂_reverse_iff.mp hq, hex⟩
  · rintro ⟨q, rfl, hq, hex⟩
    have hmem := hglob.complete q (List.forall₂_reverse_iff.mpr hq) hex fun h => by cases h
    exact List.mem_map.mpr ⟨⟨a, q⟩, hmem, hnorm q hex⟩

end Glob

/-! ## `iglob` -/

/-- No name has a glob character. -/
def NoGlobNames (m : Machine) : Prop := ∀ d n e, m.fs.HasEntry d n e → isGlobPattern n = false

/-- A path that matches and is in the tree, for a pattern without a wildcard before a `**`; a `**`
after the root stands for at least one name. -/
structure Emits (m : Machine) (a : Bool) (parts q : List String) : Prop where
  wildcardsLast : WildcardsLast parts
  exist : Exists m a q
  matched : Matches m parts q
  root : a = true → parts.head? = some "**" → ∃ n q', q = n :: q' ∧ Matches m parts q'

section Iglob

variable {m : Machine} {a : Bool} {parts pre suf suf' q rest : List String} {last : String}
  {depth fuel : ℕ} {run : Run}

theorem containsGlobstar_of_literal {part : String} (h : isGlobPattern part = false) :
    containsGlobstar part = false := by
  rw [isGlobPattern, List.any_eq_false] at h
  refine decide_eq_false fun hinfix => ?_
  have hstar : '*' ∈ part.toList := hinfix.subset List.mem_cons_self
  exact h '*' hstar (by decide)

theorem NoGlobNames.noGlobstarNames (h : NoGlobNames m) : NoGlobstarNames m := fun d n e hn =>
  containsGlobstar_of_literal (h d n e hn)

theorem literal_of_isDir (hnames : NoGlobNames m) {d rest : List String}
    (h : m.fs.IsDir (d ++ rest)) : ∀ part ∈ rest, isGlobPattern part = false :=
  FileSystem.forall_mem_of_resolve hnames (FileSystem.resolve_of_isDir h)

theorem head?_ne_globstar (hliteral : ∀ part ∈ pre, isGlobPattern part = false) (hne : pre ≠ []) :
    (pre ++ suf).head? ≠ some "**" := by
  cases pre with
  | nil => exact absurd rfl hne
  | cons part pre =>
    intro h
    exact ne_globstar_of_literal (hliteral part List.mem_cons_self) (Option.some_inj.mp h)

/-- The names that the first `**` stands for, after the root at least one, and those for the parts
behind it, which may be written in another way. -/
theorem Emits.exists_rest (h : Emits m a (pre ++ "**" :: suf) q)
    (hliteral : ∀ part ∈ pre, isGlobPattern part = false)
    (hsuf : ∀ names, Matches m ("**" :: suf) names ↔ Matches m ("**" :: suf') names) :
    ∃ rest q', q = pre ++ rest ++ q' ∧ Matches m suf' q' ∧ (a = true → pre ++ rest ≠ []) := by
  by_cases hnil : a = true ∧ pre = []
  · obtain ⟨ha, rfl⟩ := hnil
    obtain ⟨n, q₁, rfl, hq₁⟩ := h.root ha rfl
    obtain ⟨rest, q', rfl, hmatch⟩ := matches_globstar.mp ((hsuf q₁).mp hq₁)
    exact ⟨n :: rest, q', rfl, hmatch, fun _ => List.cons_ne_nil _ _⟩
  · obtain ⟨q₁, rfl, hq₁⟩ := (matches_append hliteral).mp h.matched
    obtain ⟨rest, q', rfl, hmatch⟩ := matches_globstar.mp ((hsuf q₁).mp hq₁)
    refine ⟨rest, q', (List.append_assoc ..).symm, hmatch, fun ha hempty => hnil ⟨ha, ?_⟩⟩
    exact (List.append_eq_nil_iff.mp hempty).1

/-- **A pattern is split at its first `**`**: what it emits is emitted from a directory that the `**`
leads to. -/
theorem emits_iff (hnames : NoGlobNames m) (hpre : "**" ∉ pre)
    (hcanon : canonicalizeFrom true (suf ++ [last]) = .ok suf') (hlast : last ≠ "**") :
    Emits m a (pre ++ "**" :: (suf ++ [last])) q ↔
      ∃ rest, m.fs.IsDir (m.base a ++ (pre ++ rest)) ∧ (a = true → pre ++ rest ≠ []) ∧
        Emits m a (pre ++ rest ++ suf') q := by
  have hsuf : ∀ names, Matches m ("**" :: (suf ++ [last])) names ↔ Matches m ("**" :: suf') names :=
    (matches_canonicalizeFrom hcanon).2
  have hwild := wildcardsLast_canonicalizeFrom hcanon
  constructor
  · intro h
    obtain ⟨hliteral, hwl⟩ := (wildcardsLast_append_globstar hpre).mp h.wildcardsLast
    obtain ⟨rest, q', rfl, hmatch, hroot⟩ := h.exists_rest hliteral hsuf
    obtain ⟨suf₀, rfl⟩ := canonicalizeFrom_concat hlast hcanon
    have hdir := isDir_of_exists_append (ne_nil_of_matches hlast hmatch) h.exist
    have hlit := literal_of_isDir hnames hdir
    refine ⟨rest, hdir, hroot, ?_, h.exist, ?_, fun ha hhead => ?_⟩
    · exact (wildcardsLast_append hlit).mpr (hwild.mpr hwl)
    · exact (matches_append hlit).mpr ⟨q', rfl, hmatch⟩
    · exact absurd hhead (head?_ne_globstar hlit (hroot ha))
  · rintro ⟨rest, hdir, hroot, h⟩
    have hlit := literal_of_isDir hnames hdir
    have hliteral : ∀ part ∈ pre, isGlobPattern part = false := fun part hpart =>
      hlit part (List.mem_append_left _ hpart)
    obtain ⟨q', rfl, hmatch⟩ := (matches_append hlit).mp h.matched
    refine ⟨?_, h.exist, ?_, fun ha hhead => ?_⟩
    · exact (wildcardsLast_append_globstar hpre).mpr
        ⟨hliteral, hwild.mp ((wildcardsLast_append hlit).mp h.wildcardsLast)⟩
    · refine (matches_append hliteral).mpr ⟨rest ++ q', List.append_assoc .., (hsuf _).mpr ?_⟩
      exact matches_globstar.mpr ⟨rest, q', rfl, hmatch⟩
    · cases pre with
      | nil => cases rest with
        | nil => exact absurd rfl (hroot ha)
        | cons n rest =>
          refine ⟨n, rest ++ q', rfl, (hsuf _).mpr ?_⟩
          exact matches_globstar.mpr ⟨rest, q', rfl, hmatch⟩
      | cons part pre =>
        cases hhead
        exact absurd List.mem_cons_self hpre

/-- Behind a `**`, the last part is still there. -/
theorem exists_concat_of_split {init : List String} (hlast : last ≠ "**")
    (h : init ++ [last] = pre ++ "**" :: suf) : ∃ suf₀, suf = suf₀ ++ [last] := by
  obtain rfl | ⟨suf₀, l, rfl⟩ := List.eq_nil_or_concat suf
  · obtain ⟨-, hl⟩ := List.append_inj' h rfl
    exact absurd (List.cons.inj hl).1 hlast
  · rw [List.concat_eq_append, ← List.cons_append, ← List.append_assoc] at h
    obtain ⟨-, hl⟩ := List.append_inj' h rfl
    exact ⟨suf₀, by rw [List.concat_eq_append, hl]⟩

/-- **What `iglob` emits** for a pattern whose last part is not `**`. The induction is on the calls in
each other; a call is for a directory of the expansion. -/
theorem mem_iglob {init : List String} (hfree : m.fs.LinkFree (m.base a)) (hnames : NoGlobNames m)
    (hplain : Plain (init ++ [last])) (haccepted : Accepted (init ++ [last])) (hlast : last ≠ "**")
    (h : iglob m depth fuel ⟨a, init ++ [last]⟩ = some run) (path : PathName) :
    path ∈ run.paths ↔ ∃ q, path = ⟨a, q⟩ ∧ Emits m a (init ++ [last]) q := by
  have hne : ∀ parts : List String, parts ++ [last] ≠ [] := fun parts =>
    List.append_ne_nil_of_right_ne_nil _ (List.cons_ne_nil _ _)
  induction fuel generalizing init run with
  | zero => cases h
  | succ fuel ih =>
    obtain ⟨hnot, -⟩ | ⟨hstar, hrun⟩ | ⟨pre, suf, suf', heq, hpre, hcanon, hrun⟩ :=
      iglob_cases m depth fuel a (init ++ [last])
    · exact absurd haccepted hnot
    · rw [hrun] at h
      cases h
      rw [mem_stdIglob hfree hplain (hne init) hstar]
      refine exists_congr fun q => and_congr_right fun _ => ?_
      constructor
      · exact fun h => ⟨wildcardsLast_of_notMem hstar, h.2, h.1,
          fun _ hhead => absurd (List.mem_of_mem_head? hhead) hstar⟩
      · exact fun h => ⟨h.matched, h.exist⟩
    · obtain ⟨suf₀, rfl⟩ := exists_concat_of_split hlast heq
      obtain ⟨suf₁, rfl⟩ := canonicalizeFrom_concat hlast hcanon
      rw [heq] at hplain haccepted ⊢
      rw [hrun] at h
      obtain ⟨items, hitems, hvisit⟩ := Option.bind_eq_some_iff.mp h
      have hmem := mem_expandFrom hplain.left hitems
      -- The call for a directory of the expansion.
      have hcall : ∀ rest c r, m.fs.resolve (m.base a) (pre ++ rest) = some c →
          iglob m depth fuel ((PathName.ofDir a (pre ++ rest)).join (suf₁ ++ [last])) = some r →
          (path ∈ r.paths ↔ ∃ q, path = ⟨a, q⟩ ∧ Emits m a (pre ++ rest ++ (suf₁ ++ [last])) q) := by
        intro rest c r hc hr
        have hplain' := plain_call hplain hcanon hc
        have haccepted' := accepted_call hnames.noGlobstarNames haccepted hcanon hc
        rw [PathName.join_ofDir] at hr
        rw [← List.append_assoc] at hplain' haccepted' hr ⊢
        exact ih hplain' haccepted' hr
      obtain ⟨-, -, hpaths⟩ := visit_complete hvisit
        (call_error_eq_none fuel hnames.noGlobstarNames hplain haccepted hcanon hitems)
      obtain ⟨hcalls, hpaths⟩ := hpaths (hne suf₁)
      rw [hpaths]
      simp only [emits_iff hnames hpre hcanon hlast]
      constructor
      · rintro ⟨⟨kind, p⟩, hit, rfl, -, r, hr, hpath⟩
        obtain ⟨rest, ⟨c, hc⟩, hroot, rfl⟩ := (hmem p).mp hit
        obtain ⟨q, rfl, hq⟩ := (hcall rest c r hc hr).mp hpath
        exact ⟨q, rfl, rest, ((resolve_base hfree).mp hc).1, hroot, hq⟩
      · rintro ⟨q, rfl, rest, hdir, hroot, hq⟩
        have hc := (resolve_base hfree).mpr ⟨hdir, rfl⟩
        have hit := (hmem _).mpr ⟨rest, ⟨_, hc⟩, hroot, rfl⟩
        obtain ⟨r, hr⟩ := hcalls _ hit rfl islink_ofDir
        exact ⟨_, hit, rfl, islink_ofDir, r, hr, (hcall rest _ r hc hr).mpr ⟨q, rfl, hq⟩⟩

end Iglob

/-- When the paths that `iglob` emits are all that match. -/
theorem forall_emits_iff {m : Machine} {a : Bool} {parts : List String} :
    (∀ q, Emits m a parts q ↔ Matches m parts q ∧ Exists m a q) ↔
      (WildcardsLast parts ∨ ∀ q, Exists m a q → ¬ Matches m parts q) ∧
      (a = true → parts.head? = some "**" → ∀ q, Exists m a q → Matches m parts q →
        ∃ n q', q = n :: q' ∧ Matches m parts q') := by
  constructor
  · intro h
    refine ⟨or_iff_not_imp_left.mpr fun hwild q hex hmatch => ?_, fun ha hhead q hex hmatch => ?_⟩
    · exact hwild ((h q).mpr ⟨hmatch, hex⟩).wildcardsLast
    · exact ((h q).mpr ⟨hmatch, hex⟩).root ha hhead
  · rintro ⟨hwild, hroot⟩ q
    constructor
    · exact fun h => ⟨h.matched, h.exist⟩
    · rintro ⟨hmatch, hex⟩
      obtain hwild | hnone := hwild
      · exact ⟨hwild, hex, hmatch, fun ha hhead => hroot ha hhead q hex hmatch⟩
      · exact absurd hmatch (hnone q hex)

/-- **`iglob` emits exactly the paths that match** iff no wildcard stands before a `**`, or no path
matches; and after the root, no path needs a leading `**` that stands for no name. -/
theorem glob_exact_iff (m : Machine) (hfree : m.fs.LinkFree []) (hnames : NoGlobNames m) (p : Pattern)
    (hlast : ∃ last ∈ p.parts.getLast?, last ≠ "**") :
    (∃ depth fuel run, iglob m depth fuel p.path = some run ∧ run.error = none ∧
      ∀ path, path ∈ run.paths ↔
        ∃ q, path = ⟨p.absolute, q⟩ ∧ Matches m p.parts q ∧ Exists m p.absolute q) ↔
      (WildcardsLast p.parts ∨ ∀ q, Exists m p.absolute q → ¬ Matches m p.parts q) ∧
      (p.absolute = true → p.parts.head? = some "**" →
        ∀ q, Exists m p.absolute q → Matches m p.parts q →
          ∃ n q', q = n :: q' ∧ Matches m p.parts q') := by
  obtain ⟨last, hmem, hlast⟩ := hlast
  have hparts : p.parts.dropLast ++ [last] = p.parts := List.dropLast_append_getLast? last hmem
  have hfree : ∀ d, m.fs.LinkFree d := fun d => hfree.below d
  have hruns : ∀ depth fuel run, iglob m depth fuel p.path = some run → ∀ path, path ∈ run.paths ↔
      ∃ q, path = ⟨p.absolute, q⟩ ∧ Emits m p.absolute p.parts q := by
    intro depth fuel run hrun path
    have hplain := p.plain
    have haccepted := p.accepted
    rw [Pattern.path, ← hparts] at hrun
    rw [← hparts] at hplain haccepted ⊢
    exact mem_iglob (hfree _) hnames hplain haccepted hlast hrun path
  rw [← forall_emits_iff]
  constructor
  · rintro ⟨depth, fuel, run, hrun, -, hpaths⟩ q
    have hpath := (hruns depth fuel run hrun ⟨p.absolute, q⟩).symm.trans (hpaths _)
    simpa using hpath
  · intro hemits
    obtain ⟨run, hrun, -⟩ := exists_iglob_stays (m := m) (a := p.absolute) p.plain
      (fun pre suf d _ _ _ => ⟨hfree d, hnames.noGlobstarNames.noStarDir d⟩) le_rfl
    refine ⟨_, _, run, hrun, ?_, fun path => ?_⟩
    · exact error_eq_none hnames.noGlobstarNames p.plain p.accepted hrun
    · simp only [hruns _ _ run hrun path, hemits]

/-! ## A wildcard before a `**` -/

/-- The directories of a file system with the file `src/f.js`. -/
def treeTable : Dict (List String) (Dict String (Entry String)) where
  items := [([], ⟨[("src", .dir)], by decide⟩), (["src"], ⟨[("f.js", .file)], by decide⟩)]
  nodup := by decide

/-- `fnmatch` for names without wildcards, and for `*`. -/
def tree : Machine where
  fs := .ofTable treeTable rfl (by decide) (by decide)
  cwd := []
  isDir_cwd := rfl
  valid := FileSystem.forall_entries (t := treeTable) rfl (by decide)
  fnmatch name pattern := decide (pattern = "*" ∨ name = pattern)

theorem linkFree_tree (d : List String) : tree.fs.LinkFree d :=
  FileSystem.linkFree_of_entries (t := treeTable) rfl (by decide)

theorem noGlobNames_tree : NoGlobNames tree :=
  FileSystem.forall_entries (t := treeTable) rfl (by decide)

/-- The pattern `*/**/f.js`. -/
def belowAny : Pattern where
  absolute := false
  parts := ["*", "**", "f.js"]
  valid := by decide
  accepted := by decide

theorem glob_exact_iff_tree : (∃ depth fuel run, iglob tree depth fuel belowAny.path = some run ∧
    run.error = none ∧ ∀ path, path ∈ run.paths ↔
      ∃ q, path = ⟨false, q⟩ ∧ Matches tree belowAny.parts q ∧ Exists tree false q) ↔
      (WildcardsLast belowAny.parts ∨ ∀ q, Exists tree false q → ¬ Matches tree belowAny.parts q) ∧
      (false = true → belowAny.parts.head? = some "**" →
        ∀ q, Exists tree false q → Matches tree belowAny.parts q →
          ∃ n q', q = n :: q' ∧ Matches tree belowAny.parts q') :=
  glob_exact_iff tree (linkFree_tree []) noGlobNames_tree belowAny ⟨"f.js", rfl, by decide⟩

/-- The file `src/f.js` matches `*/**/f.js`, and it is not emitted. -/
theorem wildcard_before_globstar : (Matches tree belowAny.parts ["src", "f.js"] ∧
    Exists tree false ["src", "f.js"]) ∧ ¬ ∃ depth fuel run,
      iglob tree depth fuel belowAny.path = some run ∧
      ∀ path, path ∈ run.paths ↔
        ∃ q, path = ⟨false, q⟩ ∧ Matches tree belowAny.parts q ∧ Exists tree false q := by
  have hmatch : Matches tree belowAny.parts ["src", "f.js"] := by
    have hany : PartMatches tree "*" "src" := by
      rw [PartMatches]
      decide
    have hname : PartMatches tree "f.js" "f.js" := by
      rw [PartMatches]
      decide
    exact .part (by decide) hany (.zero (.part (by decide) hname .nil))
  have hexists : Exists tree false ["src", "f.js"] := ⟨["src"], "f.js", .file, rfl, _, rfl, by decide⟩
  refine ⟨⟨hmatch, hexists⟩, ?_⟩
  rintro ⟨depth, fuel, run, hrun, hpaths⟩
  have hpath := (hpaths ⟨false, ["src", "f.js"]⟩).mpr ⟨_, rfl, hmatch, hexists⟩
  obtain ⟨q, -, hemits⟩ := (mem_iglob (linkFree_tree _) noGlobNames_tree
    (show Plain (["*", "**"] ++ ["f.js"]) from belowAny.plain) belowAny.accepted (by decide) hrun _).mp hpath
  exact hemits.wildcardsLast.1 (by decide) (by decide) (by decide)

end MongoTests.Globbing
