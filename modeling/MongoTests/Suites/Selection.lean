import MongoTests.Suites.Selector

/-!
# What a selector selects

The meaning of a `selector` section, for tests that are files: which of its expanded roots are
selected, whatever filters it combines.

* `TagConf.Matches`: the meaning of a tag matching expression, by its grammar in `make_expression`.
  `eval_makeExpression`: the expression that is built has that meaning.
* `Section.TagsMatch`: the conjunction of the tag options.
* `Section.Selects`: the files and tags that a section asks for.
* `filterTests_eq_ok`: when the selection does not raise, and what it returns.
* **`selection_meaning`**: the selected and the excluded tests partition the expanded roots, in
  their order, and a root is selected if the section asks for it.
-/

namespace MongoTests.Suites

open MongoTests.Lib

/-! ## The meaning of tag expressions -/

mutual

/-- A file with these tags matches the configuration. -/
def TagConf.Matches (tags : List String) : TagConf → Prop
  | .str s => s ∈ tags
  | .dict [(key, value)] =>
    if key = "$allOf" then value.AllMatch tags
    else if key = "$anyOf" then value.AnyMatches tags
    else if key = "$not" then ¬ value.Matches tags
    else False
  | .dict _ => False
  | .list _ => False

/-- Everything that the value iterates over matches. -/
def TagConf.AllMatch (tags : List String) : TagConf → Prop
  | .str s => ∀ c ∈ s.toList, String.ofList [c] ∈ tags
  | .list l => allMatch tags l
  | .dict l => ∀ p ∈ l, p.1 ∈ tags

/-- Something that the value iterates over matches. -/
def TagConf.AnyMatches (tags : List String) : TagConf → Prop
  | .str s => ∃ c ∈ s.toList, String.ofList [c] ∈ tags
  | .list l => anyMatches tags l
  | .dict l => ∃ p ∈ l, p.1 ∈ tags

def allMatch (tags : List String) : List TagConf → Prop
  | [] => True
  | c :: cs => c.Matches tags ∧ allMatch tags cs

def anyMatches (tags : List String) : List TagConf → Prop
  | [] => False
  | c :: cs => c.Matches tags ∨ anyMatches tags cs

end

section Tags

variable {tags : List String}

theorem allMatch_iff {l : List TagConf} : allMatch tags l ↔ ∀ c ∈ l, c.Matches tags := by
  induction l with
  | nil => simp [allMatch]
  | cons c cs ih => rw [allMatch, ih, List.forall_mem_cons]

theorem anyMatches_iff {l : List TagConf} : anyMatches tags l ↔ ∃ c ∈ l, c.Matches tags := by
  induction l with
  | nil => simp [anyMatches]
  | cons c cs ih => rw [anyMatches, ih, List.exists_mem_cons_iff]

/-- `{"$allOf": [expr, ...]}`. -/
theorem TagConf.matches_allOf {l : List TagConf} :
    (TagConf.dict [("$allOf", .list l)]).Matches tags ↔ ∀ c ∈ l, c.Matches tags := by
  simp [TagConf.Matches, TagConf.AllMatch, allMatch_iff]

/-- `{"$anyOf": [expr, ...]}`. -/
theorem TagConf.matches_anyOf {l : List TagConf} :
    (TagConf.dict [("$anyOf", .list l)]).Matches tags ↔ ∃ c ∈ l, c.Matches tags := by
  simp [TagConf.Matches, TagConf.AnyMatches, anyMatches_iff]

/-- `{"$not": expr}`. -/
theorem TagConf.matches_not {c : TagConf} :
    (TagConf.dict [("$not", c)]).Matches tags ↔ ¬ c.Matches tags := by
  simp [TagConf.Matches]

theorem TagExpression.eval_allOf {es : List TagExpression} :
    (TagExpression.allOf es).eval tags = true ↔ ∀ e ∈ es, e.eval tags = true := by
  rw [TagExpression.eval]
  simp

theorem TagExpression.eval_anyOf {es : List TagExpression} :
    (TagExpression.anyOf es).eval tags = true ↔ ∃ e ∈ es, e.eval tags = true := by
  rw [TagExpression.eval]
  simp

theorem TagExpression.eval_not {e : TagExpression} :
    (TagExpression.not e).eval tags = true ↔ ¬ e.eval tags = true := by
  rw [TagExpression.eval]
  simp

theorem TagExpression.eval_matchTag {tag : String} :
    (TagExpression.matchTag tag).eval tags = true ↔ tag ∈ tags := by
  rw [TagExpression.eval]
  simp

end Tags

section MakeExpression

variable (tags : List String)

mutual

/-- **The tag expression that is built means what the configuration says.** -/
theorem eval_makeExpression :
    ∀ {conf : TagConf} {e : TagExpression}, makeExpression conf = .ok e →
      (e.eval tags = true ↔ conf.Matches tags)
  | .str s, e, h => by
    cases h
    exact TagExpression.eval_matchTag
  | .dict [(key, value)], e, h => by
    rw [makeExpression] at h
    rw [TagConf.Matches]
    split_ifs at h ⊢
    · obtain ⟨es, hes, h⟩ := bind_eq_ok.mp h
      cases h
      exact TagExpression.eval_allOf.trans (eval_makeExpressionList hes).1
    · obtain ⟨es, hes, h⟩ := bind_eq_ok.mp h
      cases h
      exact TagExpression.eval_anyOf.trans (eval_makeExpressionList hes).2
    · obtain ⟨e', he', h⟩ := bind_eq_ok.mp h
      cases h
      exact TagExpression.eval_not.trans (not_congr (eval_makeExpression he'))
  | .dict [], e, h => by
    rw [makeExpression] at h
    · cases h
    · simp
  | .dict (_ :: _ :: _), e, h => by
    rw [makeExpression] at h
    · cases h
    · simp
  | .list l, e, h => by
    rw [makeExpression] at h
    cases h

theorem eval_makeExpressionList :
    ∀ {conf : TagConf} {es : List TagExpression}, makeExpressionList conf = .ok es →
      ((∀ e ∈ es, e.eval tags = true) ↔ conf.AllMatch tags) ∧
        ((∃ e ∈ es, e.eval tags = true) ↔ conf.AnyMatches tags)
  | .str s, es, h => by
    rw [makeExpressionList] at h
    cases h
    simp [TagConf.AllMatch, TagConf.AnyMatches, TagExpression.eval_matchTag]
  | .list l, es, h => by
    rw [makeExpressionList] at h
    rw [TagConf.AllMatch, TagConf.AnyMatches]
    exact eval_makeExpressions h
  | .dict l, es, h => by
    rw [makeExpressionList] at h
    cases h
    rw [TagConf.AllMatch, TagConf.AnyMatches, List.forall_mem_map]
    simp only [List.mem_map, exists_exists_and_eq_and, TagExpression.eval_matchTag, and_self]

theorem eval_makeExpressions :
    ∀ {confs : List TagConf} {es : List TagExpression}, makeExpressions confs = .ok es →
      ((∀ e ∈ es, e.eval tags = true) ↔ allMatch tags confs) ∧
        ((∃ e ∈ es, e.eval tags = true) ↔ anyMatches tags confs)
  | [], es, h => by
    rw [makeExpressions] at h
    cases h
    simp [allMatch, anyMatches]
  | c :: cs, es, h => by
    rw [makeExpressions] at h
    obtain ⟨e, he, h⟩ := bind_eq_ok.mp h
    obtain ⟨es', hes, h⟩ := bind_eq_ok.mp h
    cases h
    have hc := eval_makeExpression he
    obtain ⟨hall, hany⟩ := eval_makeExpressions hes
    rw [allMatch, anyMatches, List.forall_mem_cons, List.exists_mem_cons_iff, hc, hall, hany]
    exact ⟨Iff.rfl, Iff.rfl⟩

end

end MakeExpression

/-! ## The tag options of a section -/

/-- The tags of `include_with_any_tags`, with the global ones. -/
def Section.includeAny (g : Globals) (c : Section) : List String :=
  c.includeWithAnyTags.getD [] ++ g.includeWithAnyTags.getD []

/-- The tags of `exclude_with_any_tags`, with the global ones. -/
def Section.excludeAny (g : Globals) (c : Section) : List String :=
  c.excludeWithAnyTags.getD [] ++ g.excludeWithAnyTags.getD []

/-- The tags of a file satisfy all of the tag options; an empty option is not given. -/
structure Section.TagsMatch (g : Globals) (c : Section) (tags : List String) : Prop where
  includeTags : ∀ conf ∈ given c.includeTags, conf.Matches tags
  excludeTags : ∀ conf ∈ given c.excludeTags, ¬ conf.Matches tags
  includeWithAnyTags : c.includeAny g ≠ [] → ∃ tag ∈ c.includeAny g, tag ∈ tags
  excludeWithAnyTags : ∀ tag ∈ c.excludeAny g, tag ∉ tags

section TagsExpression

variable {g : Globals} {c : Section} {tags : List String}

theorem eval_anyOfTags {any : List String} :
    (anyOfTags any).eval tags = true ↔ ∃ tag ∈ any, tag ∈ tags := by
  rw [anyOfTags, TagExpression.eval_anyOf]
  simp only [List.mem_map, exists_exists_and_eq_and, TagExpression.eval_matchTag]

/-- A list of tags that is merged and not empty becomes one conjunct. -/
theorem forall_mergeLists {a b : Option (List String)} {f : List String → TagExpression} :
    (∀ e ∈ ((mergeLists a b).map f).toList, e.eval tags = true) ↔
      (a.getD [] ++ b.getD [] ≠ [] → (f (a.getD [] ++ b.getD [])).eval tags = true) := by
  by_cases h : a.getD [] ++ b.getD [] = []
  · have hm : mergeLists a b = none := if_pos (by rw [h]; rfl)
    simp [hm, h]
  · have hm : mergeLists a b = some (a.getD [] ++ b.getD []) := if_neg (by simpa using h)
    rw [hm]
    simp only [Option.map_some, Option.toList_some, List.forall_mem_singleton, ne_eq, h,
      not_false_eq_true, true_imp_iff]

/-- The conjuncts: the first one comes from `include_tags` or from `exclude_tags`. -/
theorem makeTagsExpression_conjuncts {i x : Option TagConf} {a b : Option (List String)}
    (hix : ¬ ((given i).isSome ∧ (given x).isSome)) {o : Option TagExpression}
    (h : makeTagsExpression i x a b = .ok o) (tags : List String) :
    ∃ es : List TagExpression,
      ((∀ e ∈ es, e.eval tags = true) ↔
        (∀ conf ∈ given i, conf.Matches tags) ∧ ∀ conf ∈ given x, ¬ conf.Matches tags) ∧
      ∀ all, all = es ++ (a.map anyOfTags).toList ++
          (b.map fun any => TagExpression.not (anyOfTags any)).toList →
        o = if all.isEmpty then none else some (.allOf all) := by
  unfold makeTagsExpression at h
  cases hi : given i with
  | some conf =>
    have hx : given x = none := by simpa [hi] using hix
    rw [hi] at h
    obtain ⟨e, he, h⟩ := bind_eq_ok.mp h
    cases h
    refine ⟨[e], ?_, fun all hall => by rw [hall]⟩
    simp [hx, eval_makeExpression tags he]
  | none =>
    cases hx : given x with
    | some conf =>
      rw [hi, hx] at h
      obtain ⟨e, he, h⟩ := bind_eq_ok.mp h
      cases h
      refine ⟨[.not e], ?_, fun all hall => by rw [hall]⟩
      simp [TagExpression.eval_not, eval_makeExpression tags he]
    | none =>
      rw [hi, hx] at h
      cases h
      exact ⟨[], by simp, fun all hall => by rw [hall]⟩

/-- A conjunction without conjuncts is no expression. -/
theorem eval_conjunction {es : List TagExpression} :
    (∀ e ∈ (if es.isEmpty then none else some (.allOf es) : Option TagExpression),
      e.eval tags = true) ↔ ∀ e ∈ es, e.eval tags = true := by
  cases es with
  | nil => simp
  | cons e es => simp [TagExpression.eval_allOf]

theorem checkCompatible_eq_ok : checkCompatible c = .ok () ↔
    ¬ (c.root.getD "" ≠ "" ∧ c.roots.getD [] ≠ []) ∧
      ¬ ((given c.includeTags).isSome ∧ (given c.excludeTags).isSome) := by
  unfold checkCompatible
  split_ifs <;> simp_all

/-- The tags expression of a section matches the tags that satisfy all of its tag options. -/
theorem tagsExpression_selectorConfig {cfg : SelectorConfig} (h : selectorConfig g c = .ok cfg) :
    (∀ e ∈ cfg.tagsExpression, e.eval tags = true) ↔ c.TagsMatch g tags := by
  obtain ⟨u, hu, h⟩ := bind_eq_ok.mp h
  obtain ⟨o, ho, h⟩ := bind_eq_ok.mp h
  cases h
  obtain ⟨es, htags, ho⟩ := makeTagsExpression_conjuncts (checkCompatible_eq_ok.mp hu).2 ho tags
  rw [ho _ rfl, eval_conjunction, List.forall_mem_append, List.forall_mem_append, htags,
    forall_mergeLists, forall_mergeLists]
  rw [eval_anyOfTags, TagExpression.eval_not, eval_anyOfTags]
  constructor
  · rintro ⟨⟨⟨h1, h2⟩, h3⟩, h4⟩
    refine ⟨h1, h2, h3, fun tag ht htag => ?_⟩
    exact h4 (List.ne_nil_of_mem ht) ⟨tag, ht, htag⟩
  · rintro ⟨h1, h2, h3, h4⟩
    exact ⟨⟨⟨h1, h2⟩, h3⟩, fun _ ⟨tag, ht, htag⟩ => h4 tag ht htag⟩

end TagsExpression

/-! ## The filters -/

section Filters

variable {ex : TestFileExplorer} {g : Globals}

/-- An entry of `exclude_files` that does not raise. -/
def Excludable (roots : List String) (path : String) : Prop :=
  isGlobPattern path = true ∨ normpath path ∈ roots

/-- One entry of `exclude_files` takes the files that it stands for away. -/
theorem TestList.excludeFile_eq_ok {l l' : TestList} {path : String} :
    l.excludeFile ex path = .ok l' ↔ Excludable l.roots path ∧
      l' = { l with filtered := l.filtered \ (expandInclude ex path).toFinset } := by
  unfold excludeFile Excludable expandInclude
  split_ifs with h1 h2
  · simp [h1, eq_comm]
  · simp [h1, h2, eq_comm, Finset.erase_eq]
  · simp [h1, h2]

theorem TestList.foldlM_excludeFile {files : List String} {l l' : TestList} :
    files.foldlM (excludeFile ex) l = .ok l' ↔ (∀ f ∈ files, Excludable l.roots f) ∧
      l' = { l with filtered := l.filtered \ (files.flatMap (expandInclude ex)).toFinset } := by
  induction files generalizing l with
  | nil => simp [pure, Except.pure, eq_comm]
  | cons f fs ih =>
    rw [List.foldlM_cons, bind_eq_ok]
    simp only [excludeFile_eq_ok, ih, List.forall_mem_cons]
    have hsd : (l.filtered \ (expandInclude ex f).toFinset) \
          (fs.flatMap (expandInclude ex)).toFinset =
        l.filtered \ ((f :: fs).flatMap (expandInclude ex)).toFinset := by
      ext t
      simp [not_or, and_assoc]
    constructor
    · rintro ⟨m, ⟨hf, rfl⟩, hfs, rfl⟩
      exact ⟨⟨hf, hfs⟩, by rw [hsd]⟩
    · rintro ⟨⟨hf, hfs⟩, rfl⟩
      exact ⟨_, ⟨hf, rfl⟩, hfs, by rw [hsd]⟩

theorem applyExcludeFiles_eq_ok {cfg : SelectorConfig} {l l' : TestList}
    (hl : l.testsAreFiles = true) :
    applyExcludeFiles ex cfg l = .ok l' ↔ (∀ f ∈ cfg.excludeFiles, Excludable l.roots f) ∧
      l' = { l with
        filtered := l.filtered \ (cfg.excludeFiles.flatMap (TestList.expandInclude ex)).toFinset } := by
  unfold applyExcludeFiles TestList.excludeFiles
  by_cases hx : cfg.excludeFiles = []
  · rw [if_neg (by simp [hx]), hx]
    simpa using eq_comm
  · rw [if_pos ⟨hl, hx⟩, if_pos hl, TestList.foldlM_excludeFile]

theorem mem_applyTags {cfg : SelectorConfig} {l : TestList} {t : String} :
    t ∈ (applyTags ex cfg l).filtered ↔
      t ∈ l.filtered ∧ ∀ e ∈ cfg.tagsExpression, e.eval (ex.getTags t) = true := by
  unfold applyTags TestList.matchTagExpression
  cases cfg.tagsExpression <;> simp

theorem roots_applyTags {cfg : SelectorConfig} {l : TestList} :
    (applyTags ex cfg l).roots = l.roots := by
  unfold applyTags
  split <;> rfl

/-- The roots of a selector, expanded. -/
def expandedRoots (ex : TestFileExplorer) (cfg : SelectorConfig) :
    Except SelectorError (List String) :=
  findRoots ex cfg >>= TestList.expandFiles ex

/-- What the filters of a selector keep of its roots. -/
def SelectorConfig.Keeps (ex : TestFileExplorer) (cfg : SelectorConfig) (t : String) : Prop :=
  if cfg.includeFiles = [] then
    t ∉ cfg.excludeFiles.flatMap (TestList.expandInclude ex) ∧
      ∀ e ∈ cfg.tagsExpression, e.eval (ex.getTags t) = true
  else t ∈ cfg.includeFiles.flatMap (TestList.expandInclude ex)

instance (ex : TestFileExplorer) (cfg : SelectorConfig) (t : String) :
    Decidable (cfg.Keeps ex t) :=
  inferInstanceAs (Decidable (if cfg.includeFiles = [] then _ else _))

/-- Step 5 never raises on files, and leaves the roots that the selector keeps. -/
theorem applyIncludeFiles_keeps {cfg : SelectorConfig} {l : TestList}
    (hl : l.testsAreFiles = true)
    (hf : ∀ t ∈ l.roots, t ∈ l.filtered ↔
      t ∉ cfg.excludeFiles.flatMap (TestList.expandInclude ex) ∧
        ∀ e ∈ cfg.tagsExpression, e.eval (ex.getTags t) = true) :
    ∃ filtered, applyIncludeFiles ex cfg l = .ok { l with filtered := filtered } ∧
      ∀ t ∈ l.roots, t ∈ filtered ↔ cfg.Keeps ex t := by
  unfold applyIncludeFiles SelectorConfig.Keeps
  by_cases hi : cfg.includeFiles = []
  · refine ⟨l.filtered, by simp [hi], ?_⟩
    simpa only [hi, if_true] using hf
  · rw [if_pos ⟨hl, hi⟩, TestList.includeFiles, if_pos hl]
    refine ⟨_, rfl, fun t ht => ?_⟩
    rw [if_neg hi, if_pos rfl, Finset.mem_union, Finset.mem_inter, Finset.mem_inter,
      List.mem_toFinset, List.mem_toFinset]
    exact ⟨fun h => h.elim And.right And.right, fun h => .inr ⟨ht, h⟩⟩

theorem TestList.getTests_keeps {l : TestList} {p : String → Bool}
    (h : ∀ t ∈ l.roots, t ∈ l.filtered ↔ p t = true) :
    l.getTests = ((firsts l.roots).filter p, (firsts l.roots).filter fun t => !p t) := by
  rw [getTests_eq, ← firsts_filter, ← firsts_filter]
  congr 2
  · refine List.filter_congr fun t ht => ?_
    rw [Bool.eq_iff_iff, decide_eq_true_iff, h t ht]
  · refine List.filter_congr fun t ht => ?_
    rw [Bool.eq_iff_iff, decide_eq_true_iff, h t ht]
    simp

/-- Steps 4 and 5, on what the exclude files leave of the roots. -/
theorem getTests_applyIncludeFiles (ex : TestFileExplorer) (cfg : SelectorConfig)
    (expanded : List String) :
    ∃ l, applyIncludeFiles ex cfg (applyTags ex cfg ⟨true, expanded, expanded.toFinset \
        (cfg.excludeFiles.flatMap (TestList.expandInclude ex)).toFinset⟩) = .ok l ∧
      l.getTests = ((firsts expanded).filter fun t => decide (cfg.Keeps ex t),
        (firsts expanded).filter fun t => !decide (cfg.Keeps ex t)) := by
  obtain ⟨l, hl⟩ : ∃ l, l = applyTags ex cfg ⟨true, expanded, expanded.toFinset \
    (cfg.excludeFiles.flatMap (TestList.expandInclude ex)).toFinset⟩ := ⟨_, rfl⟩
  have hfiles : l.testsAreFiles = true := by rw [hl, testsAreFiles_applyTags]
  have hroots : l.roots = expanded := by rw [hl, roots_applyTags]
  have hfiltered : ∀ t ∈ l.roots, t ∈ l.filtered ↔
      t ∉ cfg.excludeFiles.flatMap (TestList.expandInclude ex) ∧
        ∀ e ∈ cfg.tagsExpression, e.eval (ex.getTags t) = true := by
    intro t ht
    rw [hroots] at ht
    rw [hl, mem_applyTags, Finset.mem_sdiff, List.mem_toFinset, List.mem_toFinset]
    exact and_congr_left' (and_iff_right ht)
  obtain ⟨filtered, hinc, hk⟩ := applyIncludeFiles_keeps hfiles hfiltered
  rw [← hl, ← hroots]
  exact ⟨_, hinc, TestList.getTests_keeps (by simpa using hk)⟩

/-- **When a selector raises, and what it returns otherwise.** -/
theorem select_eq_ok {cfg : SelectorConfig} {r : List String × List String} :
    select ex g true cfg = .ok r ↔ ∃ expanded, expandedRoots ex cfg = .ok expanded ∧
      (∀ f ∈ cfg.excludeFiles, Excludable expanded f) ∧
      r = sortTests g ((firsts expanded).filter fun t => decide (cfg.Keeps ex t),
        (firsts expanded).filter fun t => !decide (cfg.Keeps ex t)) := by
  constructor
  · intro h
    obtain ⟨roots, hroots, h⟩ := bind_eq_ok.mp h
    obtain ⟨l1, h1, h⟩ := bind_eq_ok.mp h
    obtain ⟨expanded, hexp, h1⟩ := bind_eq_ok.mp h1
    cases h1
    obtain ⟨l2, h2, h⟩ := bind_eq_ok.mp h
    obtain ⟨hx, rfl⟩ := (applyExcludeFiles_eq_ok rfl).mp h2
    obtain ⟨l, hl, hg⟩ := getTests_applyIncludeFiles ex cfg expanded
    obtain ⟨l3, h3, h⟩ := bind_eq_ok.mp h
    cases Except.ok.inj (h3.symm.trans hl)
    refine ⟨expanded, bind_eq_ok.mpr ⟨roots, hroots, hexp⟩, hx, ?_⟩
    rw [← hg]
    exact (Except.ok.inj h).symm
  · rintro ⟨expanded, hexp, hx, rfl⟩
    obtain ⟨roots, hroots, hexp⟩ := bind_eq_ok.mp hexp
    obtain ⟨l, hl, hg⟩ := getTests_applyIncludeFiles ex cfg expanded
    refine bind_eq_ok.mpr ⟨roots, hroots, bind_eq_ok.mpr ⟨_, bind_eq_ok.mpr ⟨expanded, hexp, rfl⟩, ?_⟩⟩
    refine bind_eq_ok.mpr ⟨_, (applyExcludeFiles_eq_ok rfl).mpr ⟨hx, rfl⟩, ?_⟩
    refine bind_eq_ok.mpr ⟨l, hl, ?_⟩
    rw [hg]
    rfl

theorem perm_sortTests (t : List String × List String) :
    (sortTests g t).1.Perm t.1 ∧ (sortTests g t).2.Perm t.2 := by
  unfold sortTests
  split_ifs
  · exact ⟨List.perm_insertionSort _ _, List.perm_insertionSort _ _⟩
  · exact ⟨.refl _, .refl _⟩

end Filters

/-! ## What a section selects -/

/-- The files that `exclude_files` stands for. -/
def Section.excluded (ex : TestFileExplorer) (c : Section) : List String :=
  (c.excludeFiles.getD []).flatMap (TestList.expandInclude ex)

/-- The roots of a section, expanded. -/
def Section.expandedRoots (ex : TestFileExplorer) (c : Section) :
    Except SelectorError (List String) :=
  match c.roots, c.root with
  | some roots, _ => TestList.expandFiles ex roots
  | none, some root => TestList.expandFiles ex (ex.readRootFile root)
  | none, none => .error .noRoot

/-- The section asks for the root `t`: `include_files` alone decide if there are any. -/
def Section.Selects (ex : TestFileExplorer) (g : Globals) (c : Section) (t : String) : Prop :=
  if c.includeFiles.getD [] = [] then t ∉ c.excluded ex ∧ c.TagsMatch g (ex.getTags t)
  else t ∈ c.included ex

section Meaning

variable {ex : TestFileExplorer} {g : Globals} {c : Section} {tests excluded : List String}

theorem expandedRoots_selectorConfig {cfg : SelectorConfig} (h : selectorConfig g c = .ok cfg) :
    expandedRoots ex cfg = c.expandedRoots ex := by
  obtain ⟨_, -, h⟩ := bind_eq_ok.mp h
  obtain ⟨_, -, h⟩ := bind_eq_ok.mp h
  cases h
  unfold expandedRoots Section.expandedRoots findRoots
  cases c.roots <;> cases c.root <;> rfl

theorem excludeFiles_selectorConfig {cfg : SelectorConfig} (h : selectorConfig g c = .ok cfg) :
    cfg.excludeFiles = c.excludeFiles.getD [] := by
  obtain ⟨_, -, h⟩ := bind_eq_ok.mp h
  obtain ⟨_, -, h⟩ := bind_eq_ok.mp h
  cases h
  rfl

theorem keeps_selectorConfig {cfg : SelectorConfig} (h : selectorConfig g c = .ok cfg)
    (t : String) : cfg.Keeps ex t ↔ c.Selects ex g t := by
  unfold SelectorConfig.Keeps Section.Selects Section.excluded Section.included
  rw [includeFiles_selectorConfig h, excludeFiles_selectorConfig h,
    tagsExpression_selectorConfig h]

/-- When `filter_tests` does not raise, and what it returns. -/
theorem filterTests_eq_ok {r : List String × List String} :
    filterTests ex g c = .ok r ↔ ∃ cfg expanded, selectorConfig g c = .ok cfg ∧
      c.expandedRoots ex = .ok expanded ∧ (∀ f ∈ c.excludeFiles.getD [], Excludable expanded f) ∧
      r = sortTests g ((firsts expanded).filter fun t => decide (cfg.Keeps ex t),
        (firsts expanded).filter fun t => !decide (cfg.Keeps ex t)) := by
  rw [filterTests, bind_eq_ok]
  constructor
  · rintro ⟨cfg, hcfg, h⟩
    obtain ⟨expanded, hexp, hx, hr⟩ := select_eq_ok.mp h
    rw [expandedRoots_selectorConfig hcfg] at hexp
    rw [excludeFiles_selectorConfig hcfg] at hx
    exact ⟨cfg, expanded, hcfg, hexp, hx, hr⟩
  · rintro ⟨cfg, expanded, hcfg, hexp, hx, hr⟩
    refine ⟨cfg, hcfg, select_eq_ok.mpr ⟨expanded, ?_, ?_, hr⟩⟩
    · rw [expandedRoots_selectorConfig hcfg, hexp]
    · rwa [excludeFiles_selectorConfig hcfg]

/-- The selected tests are the roots that the section asks for. -/
theorem mem_filterTests (h : filterTests ex g c = .ok (tests, excluded)) :
    ∃ expanded, c.expandedRoots ex = .ok expanded ∧
      (∀ t, t ∈ tests ↔ t ∈ expanded ∧ c.Selects ex g t) ∧
      (∀ t, t ∈ excluded ↔ t ∈ expanded ∧ ¬ c.Selects ex g t) ∧
      tests.Nodup ∧ excluded.Nodup := by
  obtain ⟨cfg, expanded, hcfg, hexp, -, hr⟩ := filterTests_eq_ok.mp h
  obtain ⟨h1, h2⟩ := perm_sortTests (g := g)
    ((firsts expanded).filter fun t => decide (cfg.Keeps ex t),
      (firsts expanded).filter fun t => !decide (cfg.Keeps ex t))
  rw [← hr] at h1 h2
  refine ⟨expanded, hexp, fun t => ?_, fun t => ?_, ?_, ?_⟩
  · rw [h1.mem_iff, List.mem_filter, mem_firsts, decide_eq_true_iff, keeps_selectorConfig hcfg]
  · rw [h2.mem_iff, List.mem_filter, mem_firsts, Bool.not_eq_true', decide_eq_false_iff_not,
      keeps_selectorConfig hcfg]
  · exact h1.nodup_iff.mpr ((nodup_firsts _).filter _)
  · exact h2.nodup_iff.mpr ((nodup_firsts _).filter _)

theorem filterTests_in_order (h : filterTests ex g c = .ok (tests, excluded))
    (ho : g.orderTestsByName = false) {expanded : List String}
    (hexp : c.expandedRoots ex = .ok expanded) :
    tests.Sublist (firsts expanded) ∧ excluded.Sublist (firsts expanded) := by
  obtain ⟨cfg, roots, -, hroots, -, hr⟩ := filterTests_eq_ok.mp h
  cases Except.ok.inj (hroots.symm.trans hexp)
  rw [sortTests, if_neg (by simp [ho])] at hr
  cases hr
  exact ⟨List.filter_sublist, List.filter_sublist⟩

/-- **What is selected.** Whenever the selection does not raise, the selected and the excluded tests
are the expanded roots, each once and on one side, in the order in which they first occur unless
they are sorted by name. Without `include_files` a root is selected if no entry of `exclude_files`
stands for it and its tags satisfy the tag options; otherwise if an entry of `include_files` stands
for it. -/
theorem selection_meaning (h : filterTests ex g c = .ok (tests, excluded)) :
    ∃ expanded, c.expandedRoots ex = .ok expanded ∧
      tests.Nodup ∧ excluded.Nodup ∧ tests.Disjoint excluded ∧
      (∀ t, t ∈ tests ∨ t ∈ excluded ↔ t ∈ expanded) ∧
      (g.orderTestsByName = false →
        tests.Sublist (firsts expanded) ∧ excluded.Sublist (firsts expanded)) ∧
      (c.includeFiles.getD [] = [] → ∀ t ∈ expanded, t ∈ tests ↔
        (∀ f ∈ c.excludeFiles.getD [], t ∉ TestList.expandInclude ex f) ∧
          c.TagsMatch g (ex.getTags t)) ∧
      (c.includeFiles.getD [] ≠ [] → ∀ t ∈ expanded, t ∈ tests ↔
        ∃ f ∈ c.includeFiles.getD [], t ∈ TestList.expandInclude ex f) := by
  obtain ⟨expanded, hexp, hsel, hexc, hn, hn'⟩ := mem_filterTests h
  refine ⟨expanded, hexp, hn, hn', ?_, ?_, fun ho => filterTests_in_order h ho hexp, ?_, ?_⟩
  · intro t ht ht'
    exact ((hexc t).mp ht').2 ((hsel t).mp ht).2
  · intro t
    rw [hsel, hexc, ← and_or_left, and_iff_left (em _)]
  · intro hi t ht
    rw [hsel, and_iff_right ht, Section.Selects, if_pos hi, Section.excluded, List.mem_flatMap]
    simp only [not_exists, not_and]
  · intro hi t ht
    rw [hsel, and_iff_right ht, Section.Selects, if_neg hi, Section.included, List.mem_flatMap]

end Meaning

/-- Two test files. -/
def coreTree : TestFileExplorer where
  iglob pattern := if pattern = "core/*.js" then ["core/a.js", "core/b.js"] else []
  isfile path := path ∈ ["core/a.js", "core/b.js", "./core/b.js"]
  readRootFile _ := []
  getTags _ := []

/-- Roots that repeat a test, and an excluded file. -/
def withoutA : Section :=
  ⟨none, some ["core/*.js", "./core/b.js"], none, some ["./core/a.js"], none, none, none, none⟩

theorem selection_withoutA :
    filterTests coreTree ⟨none, none, false, id⟩ withoutA = .ok (["core/b.js"], ["core/a.js"]) ∧
      ∃ expanded, withoutA.expandedRoots coreTree = .ok expanded ∧
        ∀ t, t ∈ ["core/b.js"] ∨ t ∈ ["core/a.js"] ↔ t ∈ expanded := by
  have h : filterTests coreTree ⟨none, none, false, id⟩ withoutA =
      .ok (["core/b.js"], ["core/a.js"]) := by decide +kernel
  obtain ⟨expanded, hexp, -, -, -, hall, -⟩ := selection_meaning h
  exact ⟨h, expanded, hexp, hall⟩

end MongoTests.Suites
