import MongoTests.Globbing.Globstar

/-!
# Globstars and links

An expansion lists every directory that names lead to, links included.

* `mem_expandFrom`: the directories that an expansion lists; `exists_expandFrom`: without links it
  comes to an end.
* `mem_listed_of_visit`, `mem_paths_of_visit`: what the loop over its items does.
* `Stays`: no listed directory is behind a link.
* **`links_not_followed_iff`**: when `iglob` comes to an end without following a link.
* `link_followed`: a directory with a link to its parent.
-/

namespace MongoTests.Globbing

open MongoTests.Lib MongoTests.Suites

/-! ## Path names -/

/-- All parts lead to another place. -/
def Plain (parts : List String) : Prop := ∀ part ∈ parts, part ≠ "" ∧ part ≠ "."

theorem Plain.append {parts parts' : List String} (h : Plain parts) (h' : Plain parts') :
    Plain (parts ++ parts') := by
  intro part hpart
  obtain hpart | hpart := List.mem_append.mp hpart
  · exact h part hpart
  · exact h' part hpart

theorem Plain.left {parts parts' : List String} (h : Plain (parts ++ parts')) : Plain parts :=
  fun part hpart => h part (List.mem_append_left _ hpart)

theorem Plain.right {parts parts' : List String} (h : Plain (parts ++ parts')) : Plain parts' :=
  fun part hpart => h part (List.mem_append_right _ hpart)

namespace PathName

variable {a : Bool} {parts : List String}

theorem names_of_plain (h : Plain parts) : names ⟨a, parts⟩ = parts :=
  List.filter_eq_self.mpr fun part hpart => decide_eq_true (h part hpart)

theorem names_append (parts' : List String) :
    names ⟨a, parts ++ parts'⟩ = names ⟨a, parts⟩ ++ names ⟨a, parts'⟩ := List.filter_append ..

theorem basename_concat (part : String) : basename ⟨a, parts ++ [part]⟩ = part := by
  rw [basename, List.getLast?_concat, Option.getD_some]

/-- A path name without a separator at the end, or an empty one. -/
theorem join_of_plain (h : Plain parts) (parts' : List String) :
    join ⟨a, parts⟩ parts' = ⟨a, parts ++ parts'⟩ := by
  rw [join]
  obtain rfl | ⟨init, part, rfl⟩ := List.eq_nil_or_concat parts
  · rfl
  · rw [List.concat_eq_append] at h ⊢
    rw [basename_concat, if_neg (h part (List.mem_append_right _ List.mem_cons_self)).1]

theorem basename_ne (h : Plain parts) : basename ⟨a, parts⟩ ≠ "" ↔ parts ≠ [] := by
  obtain rfl | ⟨init, part, rfl⟩ := List.eq_nil_or_concat parts
  · simp [basename]
  · rw [List.concat_eq_append] at h ⊢
    rw [basename_concat]
    simp [(h part (List.mem_append_right _ List.mem_cons_self)).1]

/-- The path name of a directory that an expansion lists. -/
def ofDir (a : Bool) (parts : List String) : PathName :=
  if parts = [] then ⟨a, []⟩ else ⟨a, parts ++ [""]⟩

theorem join_ofDir (parts' : List String) : (ofDir a parts).join parts' = ⟨a, parts ++ parts'⟩ := by
  rw [ofDir]
  split_ifs with h
  · subst h
    rfl
  · rw [join, basename_concat, if_pos rfl, List.dropLast_concat]

theorem basename_ofDir : (ofDir a parts).basename = "" := by
  rw [ofDir]
  split_ifs
  · rfl
  · exact basename_concat ""

theorem names_ofDir (h : Plain parts) : (ofDir a parts).names = parts := by
  rw [ofDir]
  split_ifs with hnil
  · subst hnil
    rfl
  · rw [names_append, names_of_plain h]
    exact List.append_nil _

end PathName

/-! ## Expansions -/

section Expand

variable {m : Machine} {a : Bool} {parts : List String} {d c rest : List String} {fuel : ℕ}

theorem locate_of_plain (h : Plain parts) :
    locate m ⟨a, parts⟩ = m.fs.resolve (m.base a) parts := by
  rw [locate, PathName.names_of_plain h]

theorem plain_of_resolve (h : m.fs.resolve d rest = some c) : Plain rest :=
  FileSystem.forall_mem_of_resolve (fun d n e hn => (m.valid d n e hn).imp_right And.left) h

theorem plain_of_cd {n : String} (h : m.fs.cd d n = some c) : Plain [n] :=
  plain_of_resolve (FileSystem.resolve_singleton.trans h)

theorem isDir_base : m.fs.IsDir (m.base a) := by
  cases a with
  | false => exact m.isDir_cwd
  | true => exact m.fs.isSome_root

theorem isDirEntry_iff {n : String} :
    (∃ e, m.fs.HasEntry d n e ∧ isDirEntry e = true) ↔ ∃ c, m.fs.cd d n = some c := by
  simp only [FileSystem.cd_eq_some]
  constructor
  · rintro ⟨e, he, hdir⟩
    cases e with
    | file => cases hdir
    | dir => exact ⟨_, .inl ⟨he, rfl⟩⟩
    | link t => cases t with
      | none => cases hdir
      | some t => exact ⟨t, .inr he⟩
  · rintro ⟨c, ⟨he, -⟩ | he⟩
    · exact ⟨_, he, rfl⟩
    · exact ⟨_, he, rfl⟩

/-- The directories of a directory are the names that lead somewhere. -/
theorem listDir_of_locate {p : PathName} (h : locate m p = some d) : ∃ dirs files,
    listDir m p = some (dirs, files) ∧ ∀ n, n ∈ dirs ↔ ∃ c, m.fs.cd d n = some c := by
  have hdir : m.fs.IsDir d := isDir_base.resolve h
  obtain ⟨es, hes⟩ := Option.isSome_iff_exists.mp hdir
  have hscan : scandir m p = some es.items := by
    rw [scandir, h, Option.bind_some, hes, Option.map_some]
  refine ⟨_, _, by rw [listDir, hscan, Option.map_some], fun n => ?_⟩
  rw [← isDirEntry_iff]
  simp only [List.mem_map, List.mem_filter, Prod.exists, exists_and_right, exists_eq_right]
  constructor
  · rintro ⟨e, hmem, hdir⟩
    exact ⟨e, ⟨es, hes, hmem⟩, hdir⟩
  · rintro ⟨e, ⟨es', hes', hmem⟩, hdir⟩
    rw [hes] at hes'
    cases hes'
    exact ⟨e, hmem, hdir⟩

theorem listDir_of_locate_none {p : PathName} (h : locate m p = none) : listDir m p = none := by
  rw [listDir, scandir, h]
  rfl

/-- The directories that are listed through the names of a directory. -/
theorem mem_flatten_subs {dirs : List String} {subs : List (List Item)} (path : PathName)
    {expandName : String → Option (List Item)} (hd : m.fs.resolve (m.base a) parts = some d)
    (hdirs : ∀ n, n ∈ dirs ↔ ∃ c, m.fs.cd d n = some c)
    (hsubs : dirs.mapM expandName = some subs)
    (hname : ∀ n c sub, m.fs.cd d n = some c → expandName n = some sub →
      (⟨.dir, path⟩ ∈ sub ↔ ∃ rest c, m.fs.resolve (m.base a) (parts ++ n :: rest) = some c ∧
        path = .ofDir a (parts ++ n :: rest))) :
    ⟨.dir, path⟩ ∈ subs.flatten ↔ ∃ n rest c,
      m.fs.resolve (m.base a) (parts ++ n :: rest) = some c ∧
        path = .ofDir a (parts ++ n :: rest) := by
  rw [List.mem_flatten]
  constructor
  · rintro ⟨sub, hsub, hmem⟩
    obtain ⟨n, hn, hsub⟩ := (mem_of_mapM_eq_some hsubs).mp hsub
    obtain ⟨c, hc⟩ := (hdirs n).mp hn
    exact ⟨n, (hname n c sub hc hsub).mp hmem⟩
  · rintro ⟨n, rest, c, hc, hpath⟩
    have hcd : ∃ c', m.fs.cd d n = some c' := by
      rw [FileSystem.resolve_append, hd, Option.bind_some, FileSystem.resolve] at hc
      obtain ⟨c', hc', -⟩ := Option.bind_eq_some_iff.mp hc
      exact ⟨c', hc'⟩
    obtain ⟨sub, hmem, hsub⟩ := exists_mem_of_mapM_eq_some hsubs ((hdirs n).mpr hcd)
    obtain ⟨c', hc'⟩ := hcd
    exact ⟨sub, hmem, (hname n c' sub hc' hsub).mpr ⟨rest, c, hc, hpath⟩⟩

/-- The rest of the names is empty, or it has a first name. -/
theorem exists_rest_iff {P : List String → Prop} :
    (∃ rest, P (parts ++ rest)) ↔ P parts ∨ ∃ n rest, P (parts ++ n :: rest) := by
  constructor
  · rintro ⟨rest, h⟩
    cases rest with
    | nil =>
      rw [List.append_nil] at h
      exact .inl h
    | cons n rest => exact .inr ⟨n, rest, h⟩
  · rintro (h | ⟨n, rest, h⟩)
    · exact ⟨[], by rwa [List.append_nil]⟩
    · exact ⟨n :: rest, h⟩

/-- The directories that `_expand` lists are those that names lead to. -/
theorem mem_expand {items : List Item} (hplain : Plain parts)
    (h : expand m fuel ⟨a, parts⟩ = some items) (path : PathName) :
    ⟨.dir, path⟩ ∈ items ↔ ∃ rest, (∃ c, m.fs.resolve (m.base a) (parts ++ rest) = some c) ∧
      parts ++ rest ≠ [] ∧ path = .ofDir a (parts ++ rest) := by
  induction fuel generalizing parts items with
  | zero => cases h
  | succ fuel ih =>
    rw [expand] at h
    cases hd : m.fs.resolve (m.base a) parts with
    | none =>
      rw [listDir_of_locate_none ((locate_of_plain hplain).trans hd)] at h
      cases h
      simp [FileSystem.resolve_append, hd]
    | some d =>
      obtain ⟨dirs, files, hlist, hdirs⟩ := listDir_of_locate ((locate_of_plain hplain).trans hd)
      rw [hlist] at h
      obtain ⟨subs, hsubs, rfl⟩ := Option.map_eq_some_iff.mp h
      have hzero : ⟨.dir, path⟩ ∈ (if PathName.basename ⟨a, parts⟩ ≠ "" then
          [(⟨.dir, PathName.join ⟨a, parts⟩ [""]⟩ : Item)] else []) ↔
          parts ≠ [] ∧ path = .ofDir a parts := by
        by_cases hnil : parts = []
        · rw [if_neg (not_not.mpr (by rw [hnil]; rfl))]
          simp [hnil]
        · rw [if_pos ((PathName.basename_ne hplain).mpr hnil), PathName.join_of_plain hplain,
            PathName.ofDir, if_neg hnil]
          simp [hnil]
      have hfiles : ⟨.dir, path⟩ ∉ files.map fun fname =>
          (⟨.file, PathName.join ⟨a, parts⟩ [fname]⟩ : Item) := by simp
      have hflat := mem_flatten_subs path hd hdirs hsubs fun n c sub hc hsub => by
        rw [PathName.join_of_plain hplain] at hsub
        rw [ih (hplain.append (plain_of_cd hc)) hsub]
        simp
      rw [List.mem_append, List.mem_append, hzero, or_iff_left hfiles, hflat, exists_rest_iff
        (P := fun q => (∃ c, m.fs.resolve (m.base a) q = some c) ∧ q ≠ [] ∧ path = .ofDir a q)]
      simp [hd]

/-- **The directories that an expansion lists** are those that names lead to from its start; the root
itself is left out. -/
theorem mem_expandFrom {items : List Item} (hplain : Plain parts)
    (h : expandFrom m fuel ⟨a, parts⟩ = some items) (path : PathName) :
    ⟨.dir, path⟩ ∈ items ↔ ∃ rest, (∃ c, m.fs.resolve (m.base a) (parts ++ rest) = some c) ∧
      (a = true → parts ++ rest ≠ []) ∧ path = .ofDir a (parts ++ rest) := by
  rw [expandFrom, startOf] at h
  split_ifs at h with hcur
  · obtain ⟨rfl, rfl⟩ : a = false ∧ parts = [] := by simpa using hcur
    rw [expandCurdir] at h
    have hd : m.fs.resolve (m.base false) [] = some m.cwd := rfl
    obtain ⟨dirs, files, hlist, hdirs⟩ :=
      listDir_of_locate (show locate m .curdir = some m.cwd from rfl)
    rw [hlist] at h
    obtain ⟨subs, hsubs, rfl⟩ := Option.map_eq_some_iff.mp h
    have hflat := mem_flatten_subs path hd hdirs hsubs fun n c sub hc hsub => by
      rw [mem_expand (plain_of_cd hc) hsub]
      simp
    have hfiles : ⟨.dir, path⟩ ∉ files.map fun fname => (⟨.file, ⟨false, [fname]⟩⟩ : Item) := by
      simp
    rw [List.mem_append, List.mem_append, or_iff_left hfiles, hflat, exists_rest_iff
      (P := fun q => (∃ c, m.fs.resolve (m.base false) q = some c) ∧ (false = true → q ≠ []) ∧
        path = .ofDir false q)]
    simp [hd, PathName.ofDir]
  · rw [mem_expand hplain h]
    refine exists_congr fun rest => and_congr_right fun _ => and_congr_left fun _ => ?_
    cases a with
    | true => simp
    | false =>
      have hne : parts ≠ [] := fun hnil => hcur (by rw [hnil])
      simp [hne]

/-- Without links to directories, `_expand` comes to an end. -/
theorem exists_expand (hplain : Plain parts) (hd : m.fs.resolve (m.base a) parts = some d)
    (hfree : m.fs.LinkFree d) (hfuel : m.fs.height < d.length + fuel) :
    ∃ items, expand m fuel ⟨a, parts⟩ = some items := by
  induction fuel generalizing parts d with
  | zero =>
    have hle := m.fs.length_le d (isDir_base.resolve hd)
    omega
  | succ fuel ih =>
    obtain ⟨dirs, files, hlist, hdirs⟩ := listDir_of_locate ((locate_of_plain hplain).trans hd)
    obtain ⟨subs, hsubs⟩ : ∃ subs, (dirs.mapM fun dname =>
        expand m fuel (PathName.join ⟨a, parts⟩ [dname])) = some subs := by
      refine exists_mapM_eq_some fun n hn => Option.isSome_iff_exists.mpr ?_
      obtain ⟨c, hc⟩ := (hdirs n).mp hn
      have hresolve : m.fs.resolve (m.base a) (parts ++ [n]) = some c := by
        rw [FileSystem.resolve_append, hd, Option.bind_some, FileSystem.resolve_singleton, hc]
      have hchild : c = d ++ [n] := by
        rw [← FileSystem.resolve_singleton] at hc
        exact ((FileSystem.resolve_of_linkFree hfree (isDir_base.resolve hd)).mp hc).2
      rw [PathName.join_of_plain hplain]
      refine ih (hplain.append (plain_of_cd hc)) hresolve ?_ ?_
      · rw [hchild]
        exact hfree.below [n]
      · rw [hchild, List.length_append, List.length_singleton]
        omega
    exact ⟨_, by rw [expand, hlist]; exact congrArg (Option.map _) hsubs⟩

theorem exists_expandFrom (hplain : Plain parts)
    (hfree : ∀ d, m.fs.resolve (m.base a) parts = some d → m.fs.LinkFree d) :
    ∃ items, expandFrom m (m.fs.height + 1) ⟨a, parts⟩ = some items := by
  rw [expandFrom, startOf]
  split_ifs with hcur
  · obtain ⟨rfl, rfl⟩ : a = false ∧ parts = [] := by simpa using hcur
    have hcwd : locate m .curdir = some m.cwd := rfl
    obtain ⟨dirs, files, hlist, hdirs⟩ := listDir_of_locate hcwd
    have hfree := hfree m.cwd rfl
    obtain ⟨subs, hsubs⟩ : ∃ subs, (dirs.mapM fun dname =>
        expand m (m.fs.height + 1) ⟨false, [dname]⟩) = some subs := by
      refine exists_mapM_eq_some fun n hn => Option.isSome_iff_exists.mpr ?_
      obtain ⟨c, hc⟩ := (hdirs n).mp hn
      rw [← FileSystem.resolve_singleton] at hc
      have hchild := ((FileSystem.resolve_of_linkFree hfree m.isDir_cwd).mp hc).2
      refine exists_expand (plain_of_resolve hc) hc ?_ (by omega)
      rw [hchild]
      exact hfree.below [n]
    exact ⟨_, by rw [expandCurdir, hlist]; exact congrArg (Option.map _) hsubs⟩
  · cases hd : m.fs.resolve (m.base a) parts with
    | none =>
      refine ⟨[], ?_⟩
      rw [expand, listDir_of_locate_none ((locate_of_plain hplain).trans hd)]
    | some d => exact exists_expand hplain hd (hfree d hd) (by omega)

theorem islink_ofDir : islink m (.ofDir a parts) = false := by
  rw [islink, lstat, if_pos (.inl PathName.basename_ofDir)]
  split_ifs <;> rfl

end Expand

/-! ## Patterns -/

/-- The parts that a pattern may have. -/
def Accepted (parts : List String) : Prop :=
  ∀ part ∈ parts, part = "**" ∨ containsGlobstar part = false

instance (parts : List String) : Decidable (Accepted parts) :=
  inferInstanceAs (Decidable (∀ part ∈ parts, part = "**" ∨ containsGlobstar part = false))

section Patterns

variable {parts parts' pre suf res : List String} {prev : Bool}

/-- A `**` is left out behind another one; the other parts stay. -/
theorem canonicalizeFrom_cons {part : String}
    (h : canonicalizeFrom prev (part :: parts) = .ok res) :
    (part = "**" ∧ prev = true ∧ canonicalizeFrom true parts = .ok res) ∨
    (part = "**" ∧ prev = false ∧ ∃ rest, res = "**" :: rest ∧
      canonicalizeFrom true parts = .ok rest) ∨
    part ≠ "**" ∧ ∃ rest, res = part :: rest ∧ canonicalizeFrom false parts = .ok rest := by
  rw [canonicalizeFrom] at h
  split_ifs at h with hstar hprev
  · exact .inl ⟨hstar, hprev, h⟩
  · obtain ⟨rest, hrest, rfl⟩ := map_eq_ok.mp h
    exact .inr (.inl ⟨hstar, Bool.not_eq_true _ ▸ hprev, rest, by rw [hstar], hrest⟩)
  · obtain ⟨rest, hrest, rfl⟩ := map_eq_ok.mp h
    exact .inr (.inr ⟨hstar, rest, rfl, hrest⟩)

theorem sublist_of_canonicalizeFrom (h : canonicalizeFrom prev parts = .ok res) :
    res.Sublist parts := by
  induction parts generalizing prev res with
  | nil =>
    cases h
    exact .slnil
  | cons part parts ih =>
    obtain ⟨-, -, hrest⟩ | ⟨rfl, -, rest, rfl, hrest⟩ | ⟨-, rest, rfl, hrest⟩ :=
      canonicalizeFrom_cons h
    · exact (ih hrest).cons part
    · exact (ih hrest).cons_cons "**"
    · exact (ih hrest).cons_cons part

theorem exists_canonicalizeFrom (h : Accepted parts) (prev : Bool) :
    ∃ res, canonicalizeFrom prev parts = .ok res := by
  induction parts generalizing prev with
  | nil => exact ⟨[], rfl⟩
  | cons part parts ih =>
    have hrest : Accepted parts := fun p hp => h p (List.mem_cons_of_mem _ hp)
    rw [canonicalizeFrom]
    obtain rfl | hmixed := h part List.mem_cons_self
    · obtain ⟨res, hres⟩ := ih hrest true
      rw [if_pos rfl, hres]
      split_ifs
      · exact ⟨res, rfl⟩
      · exact ⟨"**" :: res, rfl⟩
    · obtain ⟨res, hres⟩ := ih hrest false
      obtain ⟨res', hres'⟩ := ih hrest true
      simp only [hmixed, hres, hres', Bool.false_eq_true, if_false]
      split_ifs
      · exact ⟨res', rfl⟩
      · exact ⟨part :: res', rfl⟩
      · exact ⟨part :: res, rfl⟩

/-- The parts before the first `**` stay. -/
theorem canonicalizeFrom_append (hpre : "**" ∉ pre)
    (h : canonicalizeFrom false (pre ++ suf) = .ok res) :
    ∃ res', res = pre ++ res' ∧ canonicalizeFrom false suf = .ok res' := by
  induction pre generalizing res with
  | nil => exact ⟨res, rfl, h⟩
  | cons part pre ih =>
    obtain ⟨hne, hpre⟩ := not_or.mp (List.mem_cons.not.mp hpre)
    rw [List.cons_append, canonicalizeFrom, if_neg (Ne.symm hne)] at h
    split_ifs at h
    obtain ⟨rest, hrest, rfl⟩ := map_eq_ok.mp h
    obtain ⟨res', rfl, hres'⟩ := ih hpre hrest
    exact ⟨res', rfl, hres'⟩

theorem takeWhile_append_globstar (suf : List String) (hpre : "**" ∉ pre) :
    (pre ++ "**" :: suf).takeWhile (fun part => decide (part ≠ "**")) = pre := by
  rw [List.takeWhile_append_of_pos, List.takeWhile_cons_of_neg (by decide), List.append_nil]
  intro part hpart
  refine decide_eq_true ?_
  rintro rfl
  exact hpre hpart

theorem findGlobstar_append (hpre : "**" ∉ pre) :
    findGlobstar (pre ++ "**" :: suf) = some pre.length := by
  rw [findGlobstar, List.findIdx?_append]
  have hnone : pre.findIdx? (fun part => decide (part = "**")) = none := by
    refine List.findIdx?_eq_none_iff.mpr fun part hpart => decide_eq_false ?_
    rintro rfl
    exact hpre hpart
  rw [hnone]
  simp [List.findIdx?_cons]

theorem findGlobstar_of_notMem (h : "**" ∉ parts) : findGlobstar parts = none := by
  refine List.findIdx?_eq_none_iff.mpr fun part hpart => decide_eq_false ?_
  rintro rfl
  exact h hpart

/-- **What a call does**: it raises an exception, it has no `**`, or it visits an expansion. -/
theorem iglob_cases (m : Machine) (depth fuel : ℕ) (a : Bool) (parts : List String) :
    (¬ Accepted parts ∧ ∃ e, iglob m depth (fuel + 1) ⟨a, parts⟩ = some ⟨[], [], some e⟩) ∨
    ("**" ∉ parts ∧ iglob m depth (fuel + 1) ⟨a, parts⟩ =
      some ⟨(stdIglob m ⟨a, parts⟩).map PathName.normpath, [], none⟩) ∨
    ∃ pre suf suf', parts = pre ++ "**" :: suf ∧ "**" ∉ pre ∧ canonicalizeFrom true suf = .ok suf' ∧
      iglob m depth (fuel + 1) ⟨a, parts⟩ = (expandFrom m depth ⟨a, pre⟩).bind fun items =>
        visit m (iglob m depth fuel) (startOf ⟨a, pre⟩) suf' items := by
  cases hcanon : canonicalizeFrom false parts with
  | error e =>
    refine .inl ⟨fun h => ?_, e, by rw [iglob, canonicalize, hcanon]⟩
    obtain ⟨res, hres⟩ := exists_canonicalizeFrom h false
    rw [hcanon] at hres
    cases hres
  | ok res =>
    refine .inr ?_
    by_cases hstar : "**" ∈ parts
    · obtain ⟨pre, suf, rfl, hpre⟩ := List.eq_append_cons_of_mem hstar
      obtain ⟨res', rfl, hres'⟩ := canonicalizeFrom_append hpre hcanon
      rw [canonicalizeFrom, if_pos rfl, if_neg Bool.false_ne_true] at hres'
      obtain ⟨suf', hsuf', rfl⟩ := map_eq_ok.mp hres'
      refine .inr ⟨pre, suf, suf', rfl, hpre, hsuf', ?_⟩
      rw [iglob, canonicalize, hcanon]
      dsimp only
      rw [findGlobstar_append hpre]
      simp
    · have hres : res = parts := by
        rw [← List.append_nil parts] at hcanon
        obtain ⟨res', rfl, hres'⟩ := canonicalizeFrom_append hstar hcanon
        cases hres'
        exact List.append_nil parts
      refine .inl ⟨hstar, ?_⟩
      rw [iglob, canonicalize, hcanon]
      dsimp only
      rw [hres, findGlobstar_of_notMem hstar]

end Patterns

/-! ## The loop over the items -/

section Visit

variable {m : Machine} {call : PathName → Option Run} {start : PathName} {suffix : List String}
  {it : Item} {items : List Item} {r run : Run}

theorem andThen_eq_some {next : Option Run} (h : r.andThen next = some run) :
    r.error ≠ none ∧ run = r ∨ r.error = none ∧ ∃ s, next = some s ∧
      run = ⟨r.paths ++ s.paths, r.listed ++ s.listed, s.error⟩ := by
  rw [Run.andThen] at h
  split_ifs at h with herror
  · cases h
    exact .inl ⟨Option.isSome_iff_ne_none.mp herror, rfl⟩
  · obtain ⟨s, hs, rfl⟩ := Option.map_eq_some_iff.mp h
    exact .inr ⟨Option.not_isSome_iff_eq_none.mp herror, s, hs, rfl⟩

/-- What is done for an item: a directory is listed; it is searched for the rest of the pattern, if
there is any. -/
theorem visitItem_eq_some (h : visitItem m call start suffix it = some run) :
    ∃ r, run = ⟨r.paths, (if it.kind = .dir then [(start, it.path)] else []) ++ r.listed, r.error⟩ ∧
      (suffix = [] ∧ r = ⟨[it.path], [], none⟩ ∨
        suffix ≠ [] ∧ it.kind = .dir ∧ islink m it.path = false ∧ call (it.path.join suffix) = some r ∨
        suffix ≠ [] ∧ ¬ (it.kind = .dir ∧ islink m it.path = false) ∧ r = .empty) := by
  obtain ⟨hne, -⟩ | ⟨-, r, hr, rfl⟩ := andThen_eq_some h
  · exact absurd rfl hne
  · refine ⟨r, rfl, ?_⟩
    split_ifs at hr with hnil hdir
    · cases hr
      exact .inl ⟨hnil, rfl⟩
    · exact .inr (.inl ⟨hnil, hdir.1, hdir.2, hr⟩)
    · cases hr
      exact .inr (.inr ⟨hnil, hdir, rfl⟩)

theorem exists_visitItem (m : Machine) (start : PathName) (hcall : it.kind = .dir → suffix ≠ [] →
    ∃ r, call (it.path.join suffix) = some r) : ∃ r, visitItem m call start suffix it = some r := by
  by_cases hnil : suffix = []
  · exact ⟨_, by rw [visitItem, if_pos hnil]; rfl⟩
  · by_cases hdir : it.kind = .dir ∧ islink m it.path = false
    · obtain ⟨r, hr⟩ := hcall hdir.1 hnil
      exact ⟨_, by rw [visitItem, if_neg hnil, if_pos hdir, hr]; rfl⟩
    · exact ⟨_, by rw [visitItem, if_neg hnil, if_neg hdir]; rfl⟩

/-- The loop comes to an end if its calls do. -/
theorem exists_visit (m : Machine) (start : PathName)
    (hcall : ∀ it ∈ items, it.kind = .dir → suffix ≠ [] →
      ∃ r, call (it.path.join suffix) = some r) :
    ∃ run, visit m call start suffix items = some run := by
  induction items with
  | nil => exact ⟨.empty, rfl⟩
  | cons it items ih =>
    obtain ⟨r, hr⟩ := exists_visitItem m start (hcall it List.mem_cons_self)
    obtain ⟨run, hrun⟩ := ih fun it' hit' => hcall it' (List.mem_cons_of_mem _ hit')
    rw [visit, hr, Option.bind_some, hrun, Run.andThen]
    split_ifs
    · exact ⟨_, rfl⟩
    · exact ⟨_, rfl⟩

/-- What is listed is an item, or a call has listed it. -/
theorem mem_listed_of_visit (h : visit m call start suffix items = some run)
    {q : PathName × PathName} (hq : q ∈ run.listed) : ∃ it ∈ items, it.kind = .dir ∧
      (q = (start, it.path) ∨
        suffix ≠ [] ∧ ∃ r, call (it.path.join suffix) = some r ∧ q ∈ r.listed) := by
  induction items generalizing run with
  | nil =>
    cases h
    cases hq
  | cons it items ih =>
    obtain ⟨r, hr, hrest⟩ := Option.bind_eq_some_iff.mp h
    obtain ⟨r', rfl, hcases⟩ := visitItem_eq_some hr
    have hitem : q ∈ (if it.kind = .dir then [(start, it.path)] else []) ++ r'.listed →
        ∃ it' ∈ it :: items, it'.kind = .dir ∧ (q = (start, it'.path) ∨
          suffix ≠ [] ∧ ∃ r, call (it'.path.join suffix) = some r ∧ q ∈ r.listed) := by
      intro hq
      obtain hq | hq := List.mem_append.mp hq
      · split_ifs at hq with hdir
        · exact ⟨it, List.mem_cons_self, hdir, .inl (List.mem_singleton.mp hq)⟩
        · cases hq
      · obtain ⟨-, rfl⟩ | ⟨hnil, hdir, -, hcall⟩ | ⟨-, -, rfl⟩ := hcases
        · cases hq
        · exact ⟨it, List.mem_cons_self, hdir, .inr ⟨hnil, r', hcall, hq⟩⟩
        · cases hq
    obtain ⟨-, rfl⟩ | ⟨-, s, hs, rfl⟩ := andThen_eq_some hrest
    · exact hitem hq
    · obtain hq | hq := List.mem_append.mp hq
      · exact hitem hq
      · obtain ⟨it', hit', hq⟩ := ih hs hq
        exact ⟨it', List.mem_cons_of_mem _ hit', hq⟩

/-- Where no call raises an exception, the loop does not, and it lists all directories and makes all
calls. -/
theorem visit_complete (h : visit m call start suffix items = some run)
    (hcall : ∀ it ∈ items, it.kind = .dir → suffix ≠ [] →
      ∀ r, call (it.path.join suffix) = some r → r.error = none) :
    run.error = none ∧ (∀ it ∈ items, it.kind = .dir → (start, it.path) ∈ run.listed) ∧
      (suffix ≠ [] → (∀ it ∈ items, it.kind = .dir → islink m it.path = false →
        ∃ r, call (it.path.join suffix) = some r) ∧
        ∀ path, path ∈ run.paths ↔ ∃ it ∈ items, it.kind = .dir ∧
          islink m it.path = false ∧ ∃ r, call (it.path.join suffix) = some r ∧ path ∈ r.paths) := by
  induction items generalizing run with
  | nil =>
    cases h
    refine ⟨rfl, fun _ hit => absurd hit List.not_mem_nil, fun _ => ⟨fun _ hit => ?_, fun path => ?_⟩⟩
    · exact absurd hit List.not_mem_nil
    · simp [Run.empty]
  | cons it items ih =>
    obtain ⟨r, hr, hrest⟩ := Option.bind_eq_some_iff.mp h
    obtain ⟨r', rfl, hcases⟩ := visitItem_eq_some hr
    have herror : r'.error = none := by
      obtain ⟨-, rfl⟩ | ⟨hnil, hdir, -, hr'⟩ | ⟨-, -, rfl⟩ := hcases
      · rfl
      · exact hcall it List.mem_cons_self hdir hnil r' hr'
      · rfl
    obtain ⟨hne, -⟩ | ⟨-, s, hs, rfl⟩ := andThen_eq_some hrest
    · exact absurd herror hne
    · obtain ⟨herror', hlisted, hrests⟩ := ih hs fun it' hit' =>
        hcall it' (List.mem_cons_of_mem _ hit')
      refine ⟨herror', List.forall_mem_cons.mpr ⟨fun hdir => ?_, fun it' hit' hdir => ?_⟩,
        fun hnil => ?_⟩
      · refine List.mem_append_left _ (List.mem_append_left _ ?_)
        rw [if_pos hdir]
        exact List.mem_cons_self
      · exact List.mem_append_right _ (hlisted it' hit' hdir)
      · obtain ⟨hcalls, hpaths⟩ := hrests hnil
        have hfirst : (it.kind = .dir → islink m it.path = false →
            ∃ r, call (it.path.join suffix) = some r) ∧ ∀ path, path ∈ r'.paths ↔ it.kind = .dir ∧
              islink m it.path = false ∧ ∃ r, call (it.path.join suffix) = some r ∧ path ∈ r.paths := by
          obtain ⟨hnil', -⟩ | ⟨-, hdir, hlink, hr'⟩ | ⟨-, hnot, rfl⟩ := hcases
          · exact absurd hnil' hnil
          · exact ⟨fun _ _ => ⟨r', hr'⟩, fun path => by simp [hdir, hlink, hr']⟩
          · exact ⟨fun hdir hlink => absurd ⟨hdir, hlink⟩ hnot, fun path =>
              iff_of_false List.not_mem_nil fun hmem => hnot ⟨hmem.1, hmem.2.1⟩⟩
        refine ⟨List.forall_mem_cons.mpr ⟨hfirst.1, hcalls⟩, fun path => ?_⟩
        rw [List.mem_append, hfirst.2, hpaths path]
        simp

end Visit

/-! ## Links -/

/-- Every directory that an expansion has listed is in the tree of the directory in which it has
started: no link is on the way. -/
def Stays (m : Machine) (run : Run) : Prop :=
  ∀ q ∈ run.listed, ∃ d rest, locate m q.1 = some d ∧ q.2.names = q.1.names ++ rest ∧
    m.fs.IsDir (d ++ rest)

/-- No directory in the tree has the name `**`. -/
def NoStarDir (m : Machine) (d : List String) : Prop :=
  ∀ rest, m.fs.IsDir (d ++ rest) → "**" ∉ rest

/-- No name contains `**`. -/
def NoGlobstarNames (m : Machine) : Prop :=
  ∀ d n e, m.fs.HasEntry d n e → containsGlobstar n = false

section Links

variable {m : Machine} {a : Bool} {parts pre suf suf' : List String} {depth fuel : ℕ} {run : Run}

theorem names_startOf (hplain : Plain pre) : (startOf ⟨a, pre⟩).names = pre := by
  rw [startOf]
  split_ifs with h
  · obtain ⟨rfl, rfl⟩ : a = false ∧ pre = [] := by simpa using h
    rfl
  · exact PathName.names_of_plain hplain

theorem locate_startOf (hplain : Plain pre) :
    locate m (startOf ⟨a, pre⟩) = m.fs.resolve (m.base a) pre := by
  have habsolute : (startOf ⟨a, pre⟩).absolute = a := by
    rw [startOf]
    split_ifs with h
    · obtain ⟨rfl, rfl⟩ : a = false ∧ pre = [] := by simpa using h
      rfl
    · rfl
  rw [locate, names_startOf hplain, habsolute]

/-- The first `**` is not among parts without it. -/
theorem exists_split {pre₂ suf₂ : List String} (hpre : "**" ∉ pre)
    (h : pre ++ suf = pre₂ ++ "**" :: suf₂) : ∃ s, pre₂ = pre ++ s ∧ suf = s ++ "**" :: suf₂ := by
  obtain ⟨s, rfl, hs⟩ | ⟨s, hs, hs'⟩ := List.append_eq_append_iff.mp h
  · exact ⟨s, rfl, hs⟩
  · cases s with
    | nil =>
      rw [List.append_nil] at hs
      exact ⟨[], by rw [hs, List.append_nil], hs'.symm⟩
    | cons part s =>
      obtain ⟨rfl, -⟩ := List.cons.inj hs'
      refine absurd ?_ hpre
      rw [hs]
      exact List.mem_append_right _ List.mem_cons_self

/-! ### The calls for the directories of an expansion -/

theorem mem_of_canonicalizeFrom (hcanon : canonicalizeFrom true suf = .ok suf') {part : String}
    (hpart : part ∈ suf') : part ∈ pre ++ "**" :: suf :=
  List.mem_append_right _
    (List.mem_cons_of_mem _ ((sublist_of_canonicalizeFrom hcanon).subset hpart))

theorem plain_call {names c : List String} (hplain : Plain (pre ++ "**" :: suf))
    (hcanon : canonicalizeFrom true suf = .ok suf') (hc : m.fs.resolve (m.base a) names = some c) :
    Plain (names ++ suf') :=
  (plain_of_resolve hc).append fun part hpart => hplain part (mem_of_canonicalizeFrom hcanon hpart)

theorem accepted_call (hnames : NoGlobstarNames m) {names c : List String}
    (haccepted : Accepted (pre ++ "**" :: suf)) (hcanon : canonicalizeFrom true suf = .ok suf')
    (hc : m.fs.resolve (m.base a) names = some c) : Accepted (names ++ suf') := by
  intro part hpart
  obtain hpart | hpart := List.mem_append.mp hpart
  · exact .inr (FileSystem.forall_mem_of_resolve hnames hc part hpart)
  · exact haccepted part (mem_of_canonicalizeFrom hcanon hpart)

theorem NoGlobstarNames.noStarDir (hnames : NoGlobstarNames m) (d : List String) : NoStarDir m d := by
  intro rest hdir hmem
  have hname := FileSystem.forall_mem_of_resolve hnames (FileSystem.resolve_of_isDir hdir) _ hmem
  revert hname
  decide

/-- With accepted names, the patterns of the calls are accepted. -/
theorem error_eq_none (hnames : NoGlobstarNames m) (hplain : Plain parts) (haccepted : Accepted parts)
    (h : iglob m depth fuel ⟨a, parts⟩ = some run) : run.error = none := by
  induction fuel generalizing parts run with
  | zero => cases h
  | succ fuel ih =>
    obtain ⟨hnot, -⟩ | ⟨-, hrun⟩ | ⟨pre, suf, suf', rfl, -, hcanon, hrun⟩ :=
      iglob_cases m depth fuel a parts
    · exact absurd haccepted hnot
    · rw [hrun] at h
      cases h
      rfl
    · rw [hrun] at h
      obtain ⟨items, hitems, hvisit⟩ := Option.bind_eq_some_iff.mp h
      refine (visit_complete hvisit ?_).1
      rintro ⟨kind, path⟩ hit rfl - r hr
      obtain ⟨rest, ⟨c, hc⟩, -, rfl⟩ := (mem_expandFrom hplain.left hitems path).mp hit
      rw [PathName.join_ofDir] at hr
      exact ih (plain_call hplain hcanon hc) (accepted_call hnames haccepted hcanon hc) hr

theorem call_error_eq_none (fuel : ℕ) (hnames : NoGlobstarNames m) (hplain : Plain (pre ++ "**" :: suf))
    (haccepted : Accepted (pre ++ "**" :: suf)) (hcanon : canonicalizeFrom true suf = .ok suf')
    {items : List Item} (hitems : expandFrom m depth ⟨a, pre⟩ = some items) :
    ∀ it ∈ items, it.kind = .dir → suf' ≠ [] →
      ∀ r, iglob m depth fuel (it.path.join suf') = some r → r.error = none := by
  rintro ⟨kind, path⟩ hit rfl - r hr
  obtain ⟨rest, ⟨c, hc⟩, -, rfl⟩ := (mem_expandFrom hplain.left hitems path).mp hit
  rw [PathName.join_ofDir] at hr
  exact error_eq_none hnames (plain_call hplain hcanon hc)
    (accepted_call hnames haccepted hcanon hc) hr

/-! ### Without links -/

/-- Without links in the tree where the first `**` is expanded, the expansion lists directories of this
tree. -/
theorem isDir_of_item {d : List String} {items : List Item} (hplain : Plain pre)
    (hd : m.fs.resolve (m.base a) pre = some d) (hfree : m.fs.LinkFree d)
    (hitems : expandFrom m depth ⟨a, pre⟩ = some items) {path : PathName}
    (hit : ⟨.dir, path⟩ ∈ items) :
    ∃ rest, path = .ofDir a (pre ++ rest) ∧ m.fs.IsDir (d ++ rest) ∧
      m.fs.resolve (m.base a) (pre ++ rest) = some (d ++ rest) := by
  obtain ⟨rest, ⟨c, hc⟩, -, hpath⟩ := (mem_expandFrom hplain hitems path).mp hit
  have hrest := hc
  rw [FileSystem.resolve_append, hd, Option.bind_some] at hrest
  obtain ⟨hdir, rfl⟩ := (FileSystem.resolve_of_linkFree hfree (isDir_base.resolve hd)).mp hrest
  exact ⟨rest, hpath, hdir, hc⟩

/-- Without links in the tree where the first `**` is expanded, `iglob` comes to an end and stays in
the trees of its expansions. The induction is on the number of `**` that may be left. -/
theorem exists_iglob_stays (hplain : Plain parts)
    (hfree : ∀ pre suf d, parts = pre ++ "**" :: suf → "**" ∉ pre →
      m.fs.resolve (m.base a) pre = some d → m.fs.LinkFree d ∧ NoStarDir m d)
    (hcount : parts.count "**" ≤ fuel) :
    ∃ run, iglob m (m.fs.height + 1) (fuel + 1) ⟨a, parts⟩ = some run ∧ Stays m run := by
  induction fuel generalizing parts with
  | zero =>
    have hstar : "**" ∉ parts := List.count_eq_zero.mp (Nat.le_zero.mp hcount)
    obtain ⟨-, e, he⟩ | ⟨-, hrun⟩ | ⟨pre, suf, -, rfl, -⟩ :=
      iglob_cases m (m.fs.height + 1) 0 a parts
    · exact ⟨_, he, fun q hq => absurd hq List.not_mem_nil⟩
    · exact ⟨_, hrun, fun q hq => absurd hq List.not_mem_nil⟩
    · exact absurd (List.mem_append_right _ List.mem_cons_self) hstar
  | succ fuel ih =>
    obtain ⟨-, e, he⟩ | ⟨-, hrun⟩ | ⟨pre, suf, suf', rfl, hpre, hcanon, hrun⟩ :=
      iglob_cases m (m.fs.height + 1) (fuel + 1) a parts
    · exact ⟨_, he, fun q hq => absurd hq List.not_mem_nil⟩
    · exact ⟨_, hrun, fun q hq => absurd hq List.not_mem_nil⟩
    · obtain ⟨items, hitems⟩ := exists_expandFrom (m := m) (a := a) hplain.left
        fun d hd => (hfree pre suf d rfl hpre hd).1
      -- The directories of the expansion.
      have hdirs : ∀ it ∈ items, it.kind = .dir → ∃ rest d, it.path = .ofDir a (pre ++ rest) ∧
          m.fs.resolve (m.base a) pre = some d ∧ m.fs.IsDir (d ++ rest) ∧
          m.fs.resolve (m.base a) (pre ++ rest) = some (d ++ rest) := by
        rintro ⟨kind, path⟩ hit rfl
        obtain ⟨rest, ⟨c, hc⟩, -⟩ := (mem_expandFrom hplain.left hitems path).mp hit
        rw [FileSystem.resolve_append] at hc
        obtain ⟨d, hd, -⟩ := Option.bind_eq_some_iff.mp hc
        obtain ⟨rest', hitem⟩ :=
          isDir_of_item hplain.left hd (hfree pre suf d rfl hpre hd).1 hitems hit
        exact ⟨rest', d, hitem.1, hd, hitem.2⟩
      -- The call for each of them: its pattern has fewer `**`.
      have hcall : ∀ it ∈ items, it.kind = .dir →
          ∃ r, iglob m (m.fs.height + 1) (fuel + 1) (it.path.join suf') = some r ∧ Stays m r := by
        intro it hit hdir
        obtain ⟨rest, d, hpath, hd, hisDir, hrest⟩ := hdirs it hit hdir
        obtain ⟨hlink, hname⟩ := hfree pre suf d rfl hpre hd
        have hstar : "**" ∉ pre ++ rest := by
          rw [List.mem_append, not_or]
          exact ⟨hpre, hname rest hisDir⟩
        rw [hpath, PathName.join_ofDir]
        refine ih (plain_call hplain hcanon hrest) ?_ ?_
        · intro pre₂ suf₂ d₂ hsplit hpre₂ hd₂
          obtain ⟨s, rfl, -⟩ := exists_split hstar hsplit
          rw [List.append_assoc, FileSystem.resolve_append, hd, Option.bind_some] at hd₂
          obtain ⟨-, rfl⟩ :=
            (FileSystem.resolve_of_linkFree hlink (isDir_base.resolve hd)).mp hd₂
          refine ⟨hlink.below _, fun rest₂ hdir₂ hmem₂ => ?_⟩
          rw [List.append_assoc] at hdir₂
          exact hname _ hdir₂ (List.mem_append_right _ hmem₂)
        · rw [List.count_append, List.count_eq_zero.mpr hstar, Nat.zero_add]
          rw [List.count_append, List.count_cons_self] at hcount
          have hle := (sublist_of_canonicalizeFrom hcanon).count_le "**"
          omega
      obtain ⟨run, hvisit⟩ := exists_visit m (startOf ⟨a, pre⟩)
        fun it hit hdir _ => (hcall it hit hdir).imp fun r hr => hr.1
      refine ⟨run, by rw [hrun, hitems, Option.bind_some, hvisit], fun q hq => ?_⟩
      obtain ⟨it, hit, hdir, rfl | ⟨-, r, hr, hq⟩⟩ := mem_listed_of_visit hvisit hq
      · obtain ⟨rest, d, hpath, hd, hisDir, hrest⟩ := hdirs it hit hdir
        refine ⟨d, rest, (locate_startOf hplain.left).trans hd, ?_, hisDir⟩
        rw [names_startOf hplain.left, hpath, PathName.names_ofDir (plain_of_resolve hrest)]
      · obtain ⟨r', hr', hstays⟩ := hcall it hit hdir
        rw [hr] at hr'
        cases hr'
        exact hstays q hq

/-- **A link is followed**: an expansion that comes to an end and stays in its tree has met none. -/
theorem linkFree_of_stays (hnames : NoGlobstarNames m) (hplain : Plain (pre ++ "**" :: suf))
    (haccepted : Accepted (pre ++ "**" :: suf)) (hpre : "**" ∉ pre)
    (h : iglob m depth fuel ⟨a, pre ++ "**" :: suf⟩ = some run) (hstays : Stays m run)
    {d : List String} (hd : m.fs.resolve (m.base a) pre = some d) : m.fs.LinkFree d := by
  intro rest n t hlink
  cases fuel with
  | zero => cases h
  | succ fuel =>
    obtain ⟨hnot, -⟩ | ⟨hnot, -⟩ | ⟨pre', suf₁, suf', heq, hpre', hcanon, hrun⟩ :=
      iglob_cases m depth fuel a (pre ++ "**" :: suf)
    · exact absurd haccepted hnot
    · exact absurd (List.mem_append_right _ List.mem_cons_self) hnot
    · obtain rfl : pre = pre' := by
        rw [← takeWhile_append_globstar suf hpre, heq, takeWhile_append_globstar suf₁ hpre']
      obtain rfl : suf = suf₁ := (List.cons.inj (List.append_cancel_left heq)).2
      rw [hrun] at h
      obtain ⟨items, hitems, hvisit⟩ := Option.bind_eq_some_iff.mp h
      -- The link leads somewhere, so that its name is among the items.
      have hresolve : m.fs.resolve (m.base a) (pre ++ (rest ++ [n])) = some t := by
        rw [FileSystem.resolve_append, hd, Option.bind_some, FileSystem.resolve_append,
          FileSystem.resolve_of_isDir hlink.isDir, Option.bind_some, FileSystem.resolve_singleton]
        exact FileSystem.cd_eq_some.mpr (.inr hlink)
      have hitem : ⟨.dir, .ofDir a (pre ++ (rest ++ [n]))⟩ ∈ items :=
        (mem_expandFrom hplain.left hitems _).mpr ⟨rest ++ [n], ⟨t, hresolve⟩, fun _ => by simp, rfl⟩
      have hcall := call_error_eq_none fuel hnames hplain haccepted hcanon hitems
      have hlisted := (visit_complete hvisit hcall).2.1 _ hitem rfl
      obtain ⟨d', rest', hd', hnames', hdir⟩ := hstays _ hlisted
      rw [locate_startOf hplain.left, hd, Option.some_inj] at hd'
      subst hd'
      rw [names_startOf hplain.left, PathName.names_ofDir (plain_of_resolve hresolve)] at hnames'
      obtain rfl := List.append_cancel_left hnames'
      rw [← List.append_assoc, FileSystem.isDir_child] at hdir
      cases hdir.unique hlink

end Links

/-- A pattern that is accepted: its parts are names, wildcards or `**`. -/
structure Pattern where
  absolute : Bool
  parts : List String
  valid : ∀ part ∈ parts, part ≠ "" ∧ part ≠ "." ∧ part ≠ ".."
  accepted : Accepted parts

namespace Pattern

def path (p : Pattern) : PathName := ⟨p.absolute, p.parts⟩

/-- The parts before the first `**`. -/
def beforeGlobstar (p : Pattern) : PathName :=
  ⟨p.absolute, p.parts.takeWhile fun part => decide (part ≠ "**")⟩

theorem plain (p : Pattern) : Plain p.parts := fun part hpart =>
  (p.valid part hpart).imp_right And.left

end Pattern

/-- **`iglob` comes to an end and follows no link** if there is no link to a directory in the tree of
the directory before the first `**`, and no directory with the name `**`. Where no name contains `**`,
it does so iff there is no such link. -/
theorem links_not_followed_iff (m : Machine) (p : Pattern) (hstar : "**" ∈ p.parts) :
    ((∀ d, locate m p.beforeGlobstar = some d → m.fs.LinkFree d ∧ NoStarDir m d) →
      ∃ depth fuel run, iglob m depth fuel p.path = some run ∧ Stays m run) ∧
    (NoGlobstarNames m →
      ((∃ depth fuel run, iglob m depth fuel p.path = some run ∧ Stays m run) ↔
        ∀ d, locate m p.beforeGlobstar = some d → m.fs.LinkFree d)) := by
  have hlocate : ∀ pre suf, p.parts = pre ++ "**" :: suf → "**" ∉ pre →
      locate m p.beforeGlobstar = m.fs.resolve (m.base p.absolute) pre := by
    intro pre suf hparts hpre
    have hplain := p.plain
    rw [hparts] at hplain
    rw [Pattern.beforeGlobstar, hparts, takeWhile_append_globstar suf hpre, locate_of_plain hplain.left]
  have henough : (∀ d, locate m p.beforeGlobstar = some d → m.fs.LinkFree d ∧ NoStarDir m d) →
      ∃ depth fuel run, iglob m depth fuel p.path = some run ∧ Stays m run := by
    intro hfree
    obtain ⟨run, hrun, hstays⟩ := exists_iglob_stays (m := m) (a := p.absolute) p.plain
      (fun pre suf d hparts hpre hd => hfree d ((hlocate pre suf hparts hpre).trans hd)) le_rfl
    exact ⟨_, _, run, hrun, hstays⟩
  refine ⟨henough, fun hnames => ⟨?_, fun hfree =>
    henough fun d hd => ⟨hfree d hd, hnames.noStarDir d⟩⟩⟩
  · rintro ⟨depth, fuel, run, hrun, hstays⟩ d hd
    obtain ⟨pre, suf, hparts, hpre⟩ := List.eq_append_cons_of_mem hstar
    have hplain := p.plain
    have haccepted := p.accepted
    rw [hlocate pre suf hparts hpre] at hd
    rw [Pattern.path, hparts] at hrun
    rw [hparts] at hplain haccepted
    exact linkFree_of_stays hnames hplain haccepted hpre hrun hstays hd

/-- The directories of a file system with a link in `a`; the link leads to the root, or nowhere. -/
def linkedTable (toRoot : Bool) : Dict (List String) (Dict String (Entry String)) where
  items := [([], ⟨[("a", .dir)], by decide⟩),
    (["a"], ⟨[("f.js", .file), ("up", .link (if toRoot then some [] else none))],
      by cases toRoot <;> decide⟩)]
  nodup := by cases toRoot <;> decide

def linked (toRoot : Bool) : Machine where
  fs := .ofTable (linkedTable toRoot) rfl (by cases toRoot <;> decide) (by cases toRoot <;> decide)
  cwd := []
  isDir_cwd := rfl
  valid := FileSystem.forall_entries (t := linkedTable toRoot) rfl (by cases toRoot <;> decide)
  fnmatch name pattern := decide (name = pattern)

theorem noGlobstarNames_linked (toRoot : Bool) : NoGlobstarNames (linked toRoot) :=
  FileSystem.forall_entries (t := linkedTable toRoot) rfl (by cases toRoot <;> decide)

/-- The pattern `a/**/f.js`. -/
def belowA : Pattern where
  absolute := false
  parts := ["a", "**", "f.js"]
  valid := by decide
  accepted := by decide

/-- The link leads nowhere. -/
theorem links_not_followed_broken : (∃ depth fuel run,
    iglob (linked false) depth fuel belowA.path = some run ∧ Stays (linked false) run) ↔
      ∀ d, locate (linked false) belowA.beforeGlobstar = some d → (linked false).fs.LinkFree d :=
  (links_not_followed_iff (linked false) belowA (by decide)).2 (noGlobstarNames_linked false)

/-- **A link to the parent** is followed. -/
theorem link_followed : ¬ ∃ depth fuel run,
    iglob (linked true) depth fuel belowA.path = some run ∧ Stays (linked true) run := by
  rintro ⟨depth, fuel, run, hrun, hstays⟩
  have hfree := linkFree_of_stays (noGlobstarNames_linked true)
    (show Plain (["a"] ++ "**" :: ["f.js"]) from belowA.plain) belowA.accepted (by decide) hrun
    hstays (d := ["a"]) rfl
  exact hfree [] "up" [] ⟨_, rfl, by decide⟩

end MongoTests.Globbing
