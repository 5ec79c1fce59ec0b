import MongoTests.Suites.Selection

/-!
# The include_tags option of a suite

`Suite.get_selector_config` of `resmokelib/testing/suite.py`: the `include_tags` of the suite options
are merged into the `include_tags` or the `exclude_tags` of the `selector` section.

* `getSelectorConfig`.
* `exists_selectorConfig_iff`: when a section can be interpreted.
* `filterTests_restricted`: a section whose tag options ask for more selects a part of the tests.
* `Restricts`: an option of a section that is given and false in Python is dropped without the
  option of the suite, but not with it.
* **`include_tags_restrict_iff`**: when exactly the tests that satisfy the option are left.
  `empty_option_ignored`: the empty tag as option.
-/

namespace MongoTests.Suites

open MongoTests.Lib

/-- A `selector` section without keys. -/
def Section.empty : Section := ⟨none, none, none, none, none, none, none, none⟩

/-- `get_selector_config`: `none` is a suite without a `selector` section, or an option that is not
given. -/
def getSelectorConfig (selector : Option Section) (includeTags : Option TagConf) : Section :=
  match selector, includeTags with
  | none, _ => .empty
  | some c, none => c
  | some c, some e =>
    match c.includeTags, c.excludeTags with
    | some i, _ => { c with includeTags := some (.dict [("$allOf", .list [i, e])]) }
    | none, some x =>
      { c with excludeTags := some (.dict [("$anyOf", .list [x, .dict [("$not", e)]])]) }
    | none, none => { c with includeTags := some e }

/-! ## When a section can be interpreted -/

/-- `make_expression` accepts the value. -/
def Accepted (conf : TagConf) : Prop := ∃ e, makeExpression conf = .ok e

section Accepted

variable {g : Globals} {c : Section}

theorem accepted_allOf {i e : TagConf} :
    Accepted (.dict [("$allOf", .list [i, e])]) ↔ Accepted i ∧ Accepted e := by
  simp only [Accepted, makeExpression, makeExpressionList, makeExpressions]
  cases makeExpression i <;> cases makeExpression e <;>
    simp [bind, Except.bind, pure, Except.pure]

theorem accepted_anyOf_not {x e : TagConf} :
    Accepted (.dict [("$anyOf", .list [x, .dict [("$not", e)]])]) ↔ Accepted x ∧ Accepted e := by
  simp only [Accepted, makeExpression, makeExpressionList, makeExpressions]
  cases makeExpression x <;> cases makeExpression e <;>
    simp [bind, Except.bind, pure, Except.pure]

/-- The only expression that is false in Python is the empty tag. -/
theorem eq_of_not_truthy {conf : TagConf} (h : Accepted conf) (hfalse : ¬ conf.truthy = true) :
    conf = .str "" := by
  obtain ⟨e, he⟩ := h
  cases conf with
  | str s =>
    have : s = "" := by simpa [TagConf.truthy] using hfalse
    rw [this]
  | list l =>
    rw [makeExpression] at he
    cases he
  | dict l =>
    have hl : l = [] := by simpa [TagConf.truthy] using hfalse
    rw [hl, makeExpression] at he
    · cases he
    · simp

theorem given_of_truthy {conf : TagConf} (h : conf.truthy = true) : given (some conf) = some conf := by
  simp [given, h]

theorem mem_given {i conf : TagConf} : conf ∈ given (some i) ↔ i = conf ∧ i.truthy = true := by
  rw [given, Option.mem_def, Option.filter_eq_some_iff, Option.some_inj]
  refine and_congr_right fun h => ?_
  rw [h]

theorem exists_makeTagsExpression_iff {i x : Option TagConf} {a b : Option (List String)} :
    (∃ o, makeTagsExpression i x a b = .ok o) ↔ (∀ conf ∈ given i, Accepted conf) ∧
      (given i = none → ∀ conf ∈ given x, Accepted conf) := by
  unfold makeTagsExpression
  cases hi : given i with
  | some conf =>
    simp only [Accepted]
    cases he : makeExpression conf <;> simp [he, bind, Except.bind, pure, Except.pure]
  | none =>
    cases hx : given x with
    | some conf =>
      simp only [Accepted]
      cases he : makeExpression conf <;> simp [he, bind, Except.bind, pure, Except.pure]
    | none => simp [bind, Except.bind, pure, Except.pure]

/-- When the tag options of a section can be interpreted. -/
theorem exists_selectorConfig_iff :
    (∃ cfg, selectorConfig g c = .ok cfg) ↔ checkCompatible c = .ok () ∧
      (∀ conf ∈ given c.includeTags, Accepted conf) ∧
        ∀ conf ∈ given c.excludeTags, Accepted conf := by
  have htags : (∃ cfg, selectorConfig g c = .ok cfg) ↔ checkCompatible c = .ok () ∧
      ∃ o, makeTagsExpression c.includeTags c.excludeTags
        (mergeLists c.includeWithAnyTags g.includeWithAnyTags)
        (mergeLists c.excludeWithAnyTags g.excludeWithAnyTags) = .ok o := by
    constructor
    · rintro ⟨cfg, h⟩
      obtain ⟨_, hcompatible, h⟩ := bind_eq_ok.mp h
      obtain ⟨o, ho, -⟩ := bind_eq_ok.mp h
      exact ⟨hcompatible, o, ho⟩
    · rintro ⟨hcompatible, o, ho⟩
      exact ⟨_, bind_eq_ok.mpr ⟨_, hcompatible, bind_eq_ok.mpr ⟨o, ho, rfl⟩⟩⟩
  rw [htags, exists_makeTagsExpression_iff]
  refine and_congr_right fun hcompatible => and_congr_right fun _ => ?_
  have hboth := (checkCompatible_eq_ok.mp hcompatible).2
  constructor
  · intro h conf hconf
    refine h ?_ conf hconf
    by_contra hi
    exact hboth ⟨Option.isSome_iff_ne_none.mpr hi, Option.isSome_iff_exists.mpr ⟨conf, hconf⟩⟩
  · exact fun h _ => h

end Accepted

/-! ## Sections that ask for more -/

section Restricted

theorem filter_orderedInsert {lower : String → String} (p : String → Bool) (a : String)
    {l : List String} (h : l.Pairwise fun a b => lower a ≤ lower b) :
    (l.orderedInsert (fun a b => lower a ≤ lower b) a).filter p =
      if p a then (l.filter p).orderedInsert (fun a b => lower a ≤ lower b) a else l.filter p := by
  induction l with
  | nil => cases hp : p a <;> simp [hp]
  | cons b l ih =>
    obtain ⟨hb, hl⟩ := List.pairwise_cons.mp h
    by_cases hle : lower a ≤ lower b
    · have hall : ∀ c ∈ (b :: l).filter p, lower a ≤ lower c := by
        intro c hc
        rcases List.mem_cons.mp (List.mem_of_mem_filter hc) with rfl | hc
        · exact hle
        · exact hle.trans (hb c hc)
      rw [List.orderedInsert_cons, if_pos hle, List.filter_cons]
      cases hf : (b :: l).filter p with
      | nil => rfl
      | cons c m =>
        have hac := hall c (hf ▸ List.mem_cons_self)
        rw [List.orderedInsert_cons, if_pos hac]
    · rw [List.orderedInsert_cons, if_neg hle, List.filter_cons, ih hl, List.filter_cons]
      cases p b with
      | false => rfl
      | true =>
        rw [if_pos rfl, if_pos rfl, List.orderedInsert_cons, if_neg hle]
        split_ifs <;> rfl

/-- Sorting keeps the order of names that are equal, so it commutes with a filter. -/
theorem filter_sortByName {lower : String → String} (p : String → Bool) (l : List String) :
    (sortByName lower l).filter p = sortByName lower (l.filter p) := by
  induction l with
  | nil => rfl
  | cons a l ih =>
    have hinsert := filter_orderedInsert p a (pairwise_sortByName lower l)
    unfold sortByName at ih hinsert ⊢
    rw [List.insertionSort_cons, hinsert, ih]
    cases hp : p a with
    | true => rw [if_pos rfl, List.filter_cons_of_pos hp, List.insertionSort_cons]
    | false => rw [if_neg (by simp), List.filter_cons_of_neg (by simp [hp])]

theorem filter_sortTests (g : Globals) (p : String → Bool) (a b b' : List String) :
    (sortTests g (a, b)).1.filter p = (sortTests g (a.filter p, b')).1 := by
  unfold sortTests
  split_ifs
  · exact filter_sortByName p a
  · rfl

/-- The section with other tag options. -/
def Section.withTags (c : Section) (i x : Option TagConf) : Section :=
  { c with includeTags := i, excludeTags := x }

variable {ex : TestFileExplorer} {g : Globals} {c : Section} {tests excluded : List String}

/-- **A section whose tag options ask for more** selects what is left, if it can be interpreted. -/
theorem filterTests_restricted (hbase : filterTests ex g c = .ok (tests, excluded))
    (hfiles : c.includeFiles.getD [] = []) {i x : Option TagConf} {p : List String → Bool}
    (hp : ∀ tags, (c.withTags i x).TagsMatch g tags ↔ c.TagsMatch g tags ∧ p tags = true)
    {r : List String} :
    (∃ r', filterTests ex g (c.withTags i x) = .ok (r, r')) ↔
      (∃ cfg, selectorConfig g (c.withTags i x) = .ok cfg) ∧
        r = tests.filter fun t => p (ex.getTags t) := by
  obtain ⟨cfg, expanded, hcfg, hexp, hx, hr⟩ := filterTests_eq_ok.mp hbase
  have hselects : ∀ t, (c.withTags i x).Selects ex g t ↔
      c.Selects ex g t ∧ p (ex.getTags t) = true := by
    intro t
    rw [Section.Selects, if_pos (show (c.withTags i x).includeFiles.getD [] = [] from hfiles), hp,
      Section.Selects, if_pos hfiles, and_assoc]
    rfl
  have hfilter : ∀ cfg' : SelectorConfig, selectorConfig g (c.withTags i x) = .ok cfg' →
      tests.filter (fun t => p (ex.getTags t)) =
        (sortTests g ((firsts expanded).filter fun t => decide (cfg'.Keeps ex t),
          (firsts expanded).filter fun t => !decide (cfg'.Keeps ex t))).1 := by
    intro cfg' hcfg'
    have htests : tests = _ := congrArg Prod.fst hr
    have hkeeps : ((firsts expanded).filter fun t => decide (cfg.Keeps ex t)).filter
        (fun t => p (ex.getTags t)) = (firsts expanded).filter fun t => decide (cfg'.Keeps ex t) := by
      rw [List.filter_filter]
      refine List.filter_congr fun t _ => ?_
      rw [Bool.eq_iff_iff, Bool.and_eq_true, decide_eq_true_iff, decide_eq_true_iff,
        keeps_selectorConfig hcfg, keeps_selectorConfig hcfg', hselects, and_comm]
    rw [htests, filter_sortTests g _ _ _ ((firsts expanded).filter fun t => !decide (cfg'.Keeps ex t)),
      hkeeps]
  constructor
  · rintro ⟨r', h⟩
    obtain ⟨cfg', expanded', hcfg', hexp', -, hr'⟩ := filterTests_eq_ok.mp h
    obtain rfl : expanded = expanded' := Except.ok.inj (hexp.symm.trans hexp')
    refine ⟨⟨cfg', hcfg'⟩, ?_⟩
    rw [hfilter cfg' hcfg', ← hr']
  · rintro ⟨⟨cfg', hcfg'⟩, rfl⟩
    rw [hfilter cfg' hcfg']
    exact ⟨_, filterTests_eq_ok.mpr ⟨cfg', expanded, hcfg', hexp, hx, rfl⟩⟩

end Restricted

/-! ## The merged section -/

section Merged

variable {ex : TestFileExplorer} {g : Globals} {c : Section} {tests excluded : List String}

theorem withTags_self {i x : Option TagConf} (hi : c.includeTags = i) (hx : c.excludeTags = x) :
    c.withTags i x = c := by
  subst hi hx
  rfl

theorem tagsMatch_includeTags {i : TagConf} {x : Option TagConf} {tags : List String} :
    (c.withTags (some i) x).TagsMatch g tags ↔
      (i.truthy = true → i.Matches tags) ∧ (c.withTags none x).TagsMatch g tags := by
  constructor
  · rintro ⟨h1, h2, h3, h4⟩
    exact ⟨fun hi => h1 i (given_of_truthy hi), by rintro conf ⟨⟩, h2, h3, h4⟩
  · rintro ⟨h1, -, h2, h3, h4⟩
    refine ⟨fun conf hconf => ?_, h2, h3, h4⟩
    obtain ⟨rfl, hi⟩ := mem_given.mp hconf
    exact h1 hi

theorem tagsMatch_excludeTags {i : Option TagConf} {x : TagConf} {tags : List String} :
    (c.withTags i (some x)).TagsMatch g tags ↔
      (x.truthy = true → ¬ x.Matches tags) ∧ (c.withTags i none).TagsMatch g tags := by
  constructor
  · rintro ⟨h1, h2, h3, h4⟩
    exact ⟨fun hx => h2 x (given_of_truthy hx), h1, by rintro conf ⟨⟩, h3, h4⟩
  · rintro ⟨h2, h1, -, h3, h4⟩
    refine ⟨h1, fun conf hconf => ?_, h3, h4⟩
    obtain ⟨rfl, hx⟩ := mem_given.mp hconf
    exact h2 hx

/-- What the suite's own tags do to the option. -/
def Restricts (ex : TestFileExplorer) (c : Section) (e : TagConf) (tests : List String) : Prop :=
  match c.includeTags, c.excludeTags with
  | some i, x => i.truthy = true ∨ i = .str "" ∧ given x = none ∧
      ∀ t ∈ tests, e.Matches (ex.getTags t) → "" ∈ ex.getTags t
  | none, some x => x.truthy = true ∨ x = .str "" ∧
      ∀ t ∈ tests, e.Matches (ex.getTags t) → "" ∉ ex.getTags t
  | none, none => e.truthy = true ∨ ∀ t ∈ tests, "" ∈ ex.getTags t

theorem filter_eq_filter_iff {l : List String} {p q : String → Bool} :
    l.filter p = l.filter q ↔ ∀ t ∈ l, (p t = true ↔ q t = true) := by
  constructor
  · intro h t ht
    have hmem : t ∈ l.filter p ↔ t ∈ l.filter q := by rw [h]
    simpa [List.mem_filter, ht] using hmem
  · intro h
    exact List.filter_congr fun t ht => Bool.eq_iff_iff.mpr (h t ht)

/-- When the section with other tag options can be interpreted. -/
theorem exists_withTags_iff (hbase : filterTests ex g c = .ok (tests, excluded))
    {i x : Option TagConf} :
    (∃ cfg, selectorConfig g (c.withTags i x) = .ok cfg) ↔
      ¬ ((given i).isSome ∧ (given x).isSome) ∧ (∀ conf ∈ given i, Accepted conf) ∧
        ∀ conf ∈ given x, Accepted conf := by
  obtain ⟨cfg, -, hcfg, -⟩ := filterTests_eq_ok.mp hbase
  have hroots := (checkCompatible_eq_ok.mp (exists_selectorConfig_iff.mp ⟨cfg, hcfg⟩).1).1
  rw [exists_selectorConfig_iff, checkCompatible_eq_ok]
  exact and_congr_left fun _ => and_iff_right hroots

/-- The tag options of a section that selects tests. -/
theorem accepted_of_filterTests (hbase : filterTests ex g c = .ok (tests, excluded)) :
    ¬ ((given c.includeTags).isSome ∧ (given c.excludeTags).isSome) ∧
      (∀ conf ∈ given c.includeTags, Accepted conf) ∧
        ∀ conf ∈ given c.excludeTags, Accepted conf := by
  obtain ⟨cfg, -, hcfg, -⟩ := filterTests_eq_ok.mp hbase
  exact (exists_withTags_iff hbase).mp ⟨cfg, hcfg⟩

variable (hbase : filterTests ex g c = .ok (tests, excluded))
  (hfiles : c.includeFiles.getD [] = []) {e : TagConf} {expr : TagExpression}
  (he : makeExpression e = .ok expr)

include hbase hfiles he

/-- When the tests that match the option are those that are left. -/
theorem restricted_iff {i x : Option TagConf} (p : List String → Prop)
    (hp : ∀ tags, (c.withTags i x).TagsMatch g tags ↔ c.TagsMatch g tags ∧ p tags) :
    (∃ r', filterTests ex g (c.withTags i x) =
        .ok (tests.filter fun t => expr.eval (ex.getTags t), r')) ↔
      (∃ cfg, selectorConfig g (c.withTags i x) = .ok cfg) ∧
        ∀ t ∈ tests, (e.Matches (ex.getTags t) ↔ p (ex.getTags t)) := by
  classical
  rw [filterTests_restricted hbase hfiles (p := fun tags => decide (p tags))
    (fun tags => by rw [hp, decide_eq_true_iff]), filter_eq_filter_iff]
  simp only [eval_makeExpression _ he, decide_eq_true_iff]

/-- The option next to one of the section, `o`, which means `M` to the tests; `A` is what else is
needed to interpret the merged section. If `o` is false in Python, the section does without it, but
the merged section does not. -/
theorem merged_iff {o : TagConf} {i x : Option TagConf} {M rest : List String → Prop} {A : Prop}
    (hself : ∀ tags, c.TagsMatch g tags ↔ (o.truthy = true → M tags) ∧ rest tags)
    (hmerged : ∀ tags, (c.withTags i x).TagsMatch g tags ↔
      (M tags ∧ e.Matches tags) ∧ rest tags)
    (hok : (∃ cfg, selectorConfig g (c.withTags i x) = .ok cfg) ↔ A ∧ Accepted o)
    (hgiven : o.truthy = true → A ∧ Accepted o) :
    (∃ r', filterTests ex g (c.withTags i x) =
        .ok (tests.filter fun t => expr.eval (ex.getTags t), r')) ↔
      o.truthy = true ∨ o = .str "" ∧ A ∧
        ∀ t ∈ tests, e.Matches (ex.getTags t) → M (ex.getTags t) := by
  by_cases htruthy : o.truthy = true
  · rw [restricted_iff hbase hfiles he (fun tags => e.Matches tags), hok]
    · exact iff_of_true ⟨hgiven htruthy, fun _ _ => Iff.rfl⟩ (.inl htruthy)
    · intro tags
      rw [hself, hmerged]
      tauto
  · rw [restricted_iff hbase hfiles he (fun tags => M tags ∧ e.Matches tags), hok,
      or_iff_right htruthy]
    · constructor
      · rintro ⟨⟨hA, ho⟩, h⟩
        exact ⟨eq_of_not_truthy ho htruthy, hA, fun t ht hmatches => ((h t ht).mp hmatches).1⟩
      · rintro ⟨rfl, hA, h⟩
        refine ⟨⟨hA, .matchTag "", rfl⟩, fun t ht => ⟨fun hmatches => ?_, And.right⟩⟩
        exact ⟨h t ht hmatches, hmatches⟩
    · intro tags
      rw [hself, hmerged]
      tauto

/-- The option next to `include_tags`. -/
theorem merged_includeTags {i : TagConf} (hi : c.includeTags = some i) :
    (∃ r', filterTests ex g (c.withTags (some (.dict [("$allOf", .list [i, e])])) c.excludeTags) =
        .ok (tests.filter fun t => expr.eval (ex.getTags t), r')) ↔
      i.truthy = true ∨ i = .str "" ∧ given c.excludeTags = none ∧
        ∀ t ∈ tests, e.Matches (ex.getTags t) → "" ∈ ex.getTags t := by
  have hself : ∀ tags, c.TagsMatch g tags ↔
      (i.truthy = true → i.Matches tags) ∧ (c.withTags none c.excludeTags).TagsMatch g tags := by
    intro tags
    rw [← tagsMatch_includeTags, withTags_self hi rfl]
  have hmerged : ∀ tags, (c.withTags (some (.dict [("$allOf", .list [i, e])]))
      c.excludeTags).TagsMatch g tags ↔ (i.Matches tags ∧ e.Matches tags) ∧
        (c.withTags none c.excludeTags).TagsMatch g tags := by
    intro tags
    rw [tagsMatch_includeTags, TagConf.matches_allOf]
    simp [TagConf.truthy]
  have hok : (∃ cfg, selectorConfig g
      (c.withTags (some (.dict [("$allOf", .list [i, e])])) c.excludeTags) = .ok cfg) ↔
        given c.excludeTags = none ∧ Accepted i := by
    have hexpr : Accepted e := ⟨expr, he⟩
    rw [exists_withTags_iff hbase, given_of_truthy rfl]
    cases given c.excludeTags <;> simp [accepted_allOf, hexpr]
  have hgiven : i.truthy = true → given c.excludeTags = none ∧ Accepted i := by
    intro htruthy
    obtain ⟨hboth, haccepted, -⟩ := accepted_of_filterTests hbase
    rw [hi, given_of_truthy htruthy] at hboth haccepted
    exact ⟨by simpa using hboth, haccepted i rfl⟩
  refine (merged_iff hbase hfiles he hself hmerged hok hgiven).trans
    (or_congr_right (and_congr_right ?_))
  rintro rfl
  exact Iff.rfl

/-- The option next to `exclude_tags`. -/
theorem merged_excludeTags (hi : c.includeTags = none) {x : TagConf} (hx : c.excludeTags = some x) :
    (∃ r', filterTests ex g (c.withTags none
        (some (.dict [("$anyOf", .list [x, .dict [("$not", e)]])]))) =
          .ok (tests.filter fun t => expr.eval (ex.getTags t), r')) ↔
      x.truthy = true ∨ x = .str "" ∧
        ∀ t ∈ tests, e.Matches (ex.getTags t) → "" ∉ ex.getTags t := by
  have hself : ∀ tags, c.TagsMatch g tags ↔
      (x.truthy = true → ¬ x.Matches tags) ∧ (c.withTags none none).TagsMatch g tags := by
    intro tags
    rw [← tagsMatch_excludeTags, withTags_self hi hx]
  have hmerged : ∀ tags, (c.withTags none
      (some (.dict [("$anyOf", .list [x, .dict [("$not", e)]])]))).TagsMatch g tags ↔
        (¬ x.Matches tags ∧ e.Matches tags) ∧ (c.withTags none none).TagsMatch g tags := by
    intro tags
    rw [tagsMatch_excludeTags, TagConf.matches_anyOf]
    simp [TagConf.truthy, TagConf.matches_not]
  have hok : (∃ cfg, selectorConfig g (c.withTags none
      (some (.dict [("$anyOf", .list [x, .dict [("$not", e)]])]))) = .ok cfg) ↔
        True ∧ Accepted x := by
    have hexpr : Accepted e := ⟨expr, he⟩
    rw [exists_withTags_iff hbase, @given_of_truthy (.dict _) rfl]
    simp [accepted_anyOf_not, hexpr, given]
  have hgiven : x.truthy = true → True ∧ Accepted x := by
    intro htruthy
    obtain ⟨-, -, haccepted⟩ := accepted_of_filterTests hbase
    rw [hx, given_of_truthy htruthy] at haccepted
    exact ⟨trivial, haccepted x rfl⟩
  refine (merged_iff hbase hfiles he hself hmerged hok hgiven).trans
    (or_congr_right (and_congr_right ?_))
  rintro rfl
  rw [true_and]
  exact Iff.rfl

/-- The option in the place of `include_tags`. -/
theorem merged_none (hi : c.includeTags = none) (hx : c.excludeTags = none) :
    (∃ r', filterTests ex g (c.withTags (some e) none) =
        .ok (tests.filter fun t => expr.eval (ex.getTags t), r')) ↔
      e.truthy = true ∨ ∀ t ∈ tests, "" ∈ ex.getTags t := by
  have hmerged : ∀ tags, (c.withTags (some e) none).TagsMatch g tags ↔
      c.TagsMatch g tags ∧ (e.truthy = true → e.Matches tags) := by
    intro tags
    rw [tagsMatch_includeTags, withTags_self hi hx, and_comm]
  have hok : ∃ cfg, selectorConfig g (c.withTags (some e) none) = .ok cfg := by
    rw [exists_withTags_iff hbase]
    refine ⟨?_, ?_, ?_⟩
    · rintro ⟨-, ⟨⟩⟩
    · intro conf hconf
      obtain ⟨rfl, -⟩ := mem_given.mp hconf
      exact ⟨expr, he⟩
    · rintro conf ⟨⟩
  rw [restricted_iff hbase hfiles he _ hmerged, and_iff_right hok]
  by_cases htruthy : e.truthy = true
  · exact iff_of_true (fun t _ => ⟨fun h _ => h, fun h => h htruthy⟩) (.inl htruthy)
  · obtain rfl := eq_of_not_truthy ⟨expr, he⟩ htruthy
    rw [or_iff_right htruthy]
    refine forall₂_congr fun t _ => ?_
    exact ⟨fun h => h.mpr fun h => absurd h htruthy, fun h => ⟨fun _ _ => h, fun _ => h⟩⟩

end Merged

section Main

variable {ex : TestFileExplorer} {g : Globals} {c : Section} {tests excluded : List String}
  {e : TagConf} {expr : TagExpression}

/-- **When the option only restricts.** For every section without `include_files` that selects
tests, and every expression that is given as option, the selection with the option returns the
tests that satisfy the expression, of those that are selected without it, if and only if no tag
option of the section or of the suite is false in Python, or the tests do not show the
difference. -/
theorem include_tags_restrict_iff
    (hbase : filterTests ex g (getSelectorConfig (some c) none) = .ok (tests, excluded))
    (hfiles : c.includeFiles.getD [] = []) (he : makeExpression e = .ok expr) :
    (∃ excluded', filterTests ex g (getSelectorConfig (some c) (some e)) =
        .ok (tests.filter fun t => expr.eval (ex.getTags t), excluded')) ↔
      Restricts ex c e tests := by
  change filterTests ex g c = _ at hbase
  cases hi : c.includeTags with
  | some i =>
    have hconfig : getSelectorConfig (some c) (some e) =
        c.withTags (some (.dict [("$allOf", .list [i, e])])) c.excludeTags := by
      simp only [getSelectorConfig, hi, Section.withTags]
    rw [hconfig, merged_includeTags hbase hfiles he hi, Restricts, hi]
  | none =>
    cases hx : c.excludeTags with
    | some x =>
      have hconfig : getSelectorConfig (some c) (some e) =
          c.withTags none (some (.dict [("$anyOf", .list [x, .dict [("$not", e)]])])) := by
        simp only [getSelectorConfig, hi, hx, Section.withTags]
      rw [hconfig, merged_excludeTags hbase hfiles he hi hx, Restricts, hi, hx]
    | none =>
      have hconfig : getSelectorConfig (some c) (some e) = c.withTags (some e) none := by
        simp only [getSelectorConfig, hi, hx, Section.withTags]
      rw [hconfig, merged_none hbase hfiles he hi hx, Restricts, hi, hx]

end Main

/-- Two test files with tags. -/
def taggedTree : TestFileExplorer where
  iglob _ := []
  isfile path := path ∈ ["core/a.js", "core/b.js"]
  readRootFile _ := []
  getTags path := if path = "core/a.js" then ["requires_replication"] else []

/-- Both files. -/
def bothFiles : Section :=
  ⟨none, some ["core/a.js", "core/b.js"], none, none, none, none, none, none⟩

/-- Of two files, one has the tag that the option asks for. -/
theorem include_tags_requires_replication :
    filterTests taggedTree ⟨none, none, false, id⟩ (getSelectorConfig (some bothFiles) none) =
        .ok (["core/a.js", "core/b.js"], []) ∧
      ∃ excluded', filterTests taggedTree ⟨none, none, false, id⟩
        (getSelectorConfig (some bothFiles) (some (.str "requires_replication"))) =
          .ok (["core/a.js", "core/b.js"].filter fun t =>
            (TagExpression.matchTag "requires_replication").eval (taggedTree.getTags t),
              excluded') := by
  have hbase : filterTests taggedTree ⟨none, none, false, id⟩
      (getSelectorConfig (some bothFiles) none) = .ok (["core/a.js", "core/b.js"], []) := by
    decide +kernel
  exact ⟨hbase, (include_tags_restrict_iff hbase rfl rfl).mpr (.inl rfl)⟩

/-- **The empty tag as option is ignored**: both files are selected, and neither has the empty
tag. -/
theorem empty_option_ignored :
    filterTests taggedTree ⟨none, none, false, id⟩ (getSelectorConfig (some bothFiles) none) =
        .ok (["core/a.js", "core/b.js"], []) ∧
      makeExpression (.str "") = .ok (.matchTag "") ∧
      filterTests taggedTree ⟨none, none, false, id⟩
        (getSelectorConfig (some bothFiles) (some (.str ""))) =
          .ok (["core/a.js", "core/b.js"], []) ∧
      (["core/a.js", "core/b.js"].filter fun t =>
        (TagExpression.matchTag "").eval (taggedTree.getTags t)) = [] := by
  refine ⟨by decide +kernel, rfl, by decide +kernel, ?_⟩
  simp only [TagExpression.eval]
  decide

end MongoTests.Suites
