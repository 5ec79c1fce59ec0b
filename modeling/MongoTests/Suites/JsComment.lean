import Mathlib.Data.List.TakeWhile
import Mathlib.Data.List.TakeDrop
import MongoTests.Lib.Checked
import MongoTests.Suites.Selector

/-!
# Tags of a test file

`get_tags` of `resmokelib/utils/jscomment.py`. The YAML library is a parameter.

* `tagsRe`: the regular expression; `tagsRe_eq_some_iff`: what it captures.
* `stripJscomments`, `getTags`.
* **`getTags_iff`**: the files for which the tags are strings or an error is raised.
* `matchTag_eval`: on tags that are strings, the test of a tag expression is the selector's.
-/

namespace MongoTests.Suites

open MongoTests.Lib

/-! ## The text of the annotation -/

section Annotation

/-- The characters of `\s`. -/
def isSpace (c : Char) : Bool :=
  9 ≤ c.toNat && c.toNat ≤ 13 || 28 ≤ c.toNat && c.toNat ≤ 32 || c.toNat = 0x85 || c.toNat = 0xa0 ||
    c.toNat = 0x1680 || 0x2000 ≤ c.toNat && c.toNat ≤ 0x200a || c.toNat = 0x2028 ||
    c.toNat = 0x2029 || c.toNat = 0x202f || c.toNat = 0x205f || c.toNat = 0x3000

/-- The ends of the lines of a text without carriage returns. -/
def isLineEnd (c : Char) : Bool :=
  10 ≤ c.toNat && c.toNat ≤ 12 || 28 ≤ c.toNat && c.toNat ≤ 30 || c.toNat = 0x85 ||
    c.toNat = 0x2028 || c.toNat = 0x2029

/-- What a file that is opened as text reads for its line ends. -/
def universalNewlines : List Char → List Char
  | [] => []
  | '\r' :: '\n' :: s => '\n' :: universalNewlines s
  | '\r' :: s => '\n' :: universalNewlines s
  | c :: s => c :: universalNewlines s

/-- `(\[[^\]]*\])` at the start of a text. -/
def bracketed : List Char → Option (List Char)
  | '[' :: s => if ']' ∈ s then some ('[' :: s.takeWhile (· ≠ ']') ++ [']']) else none
  | _ => none

/-- `@tags\s*:\s*(\[[^\]]*\])` at the start of a text. -/
def tagsAt : List Char → Option (List Char)
  | '@' :: 't' :: 'a' :: 'g' :: 's' :: s =>
    match s.dropWhile isSpace with
    | ':' :: s => bracketed (s.dropWhile isSpace)
    | _ => none
  | _ => none

/-- `_JSTEST_TAGS_RE.match(s)`: its first part takes as much as it can, so that the last annotation
is captured. -/
def tagsRe : List Char → Option (List Char)
  | [] => none
  | c :: s => (tagsRe s).or (tagsAt (c :: s))

/-- `splitlines()` of a text without carriage returns. -/
def splitlines (s : List Char) : List (List Char) :=
  let lines := s.splitOnP isLineEnd
  if lines.getLast? = some [] then lines.dropLast else lines

/-- `_strip_jscomments` -/
def stripJscomments (s : List Char) : List Char :=
  let yamlLines := (splitlines s).map fun line =>
    (line.dropWhile (· ∈ ['\t', ' '])).dropWhile (· ∈ ['*', '/'])
  ['\n'].intercalate yamlLines

end Annotation

/-! ## What is captured -/

section Captured

variable {s g : List Char} {p : Char → Bool} {c : Char}

/-- The rest after the characters that are skipped. -/
theorem dropWhile_eq_cons_iff {t : List Char} (hc : p c = false) :
    s.dropWhile p = c :: t ↔ ∃ sp, (∀ a ∈ sp, p a = true) ∧ s = sp ++ c :: t := by
  constructor
  · intro h
    refine ⟨s.takeWhile p, fun a ha => List.mem_takeWhile_imp ha, ?_⟩
    rw [← h, List.takeWhile_append_dropWhile]
  · rintro ⟨sp, hsp, rfl⟩
    rw [List.dropWhile_append_of_pos hsp, List.dropWhile_cons_of_neg (by rw [hc]; decide)]

theorem takeWhile_bracket {body : List Char} (h : ']' ∉ body) (rest : List Char) :
    (body ++ ']' :: rest).takeWhile (· ≠ ']') = body := by
  have hne : ∀ a ∈ body, decide (a ≠ ']') = true := by
    intro a ha
    rw [decide_eq_true_eq]
    rintro rfl
    exact h ha
  rw [List.takeWhile_append_of_pos hne, List.takeWhile_cons_of_neg (by decide), List.append_nil]

theorem bracketed_eq_some_iff : bracketed s = some g ↔
    ∃ body rest, ']' ∉ body ∧ s = '[' :: body ++ ']' :: rest ∧ g = '[' :: body ++ [']'] := by
  constructor
  · intro h
    unfold bracketed at h
    split at h
    · rename_i s
      split_ifs at h with hmem
      obtain ⟨body, rest, rfl, hbody⟩ := List.eq_append_cons_of_mem hmem
      rw [takeWhile_bracket hbody, Option.some_inj] at h
      exact ⟨body, rest, hbody, rfl, h.symm⟩
    · cases h
  · rintro ⟨body, rest, hbody, rfl, rfl⟩
    rw [List.cons_append, bracketed, if_pos (List.mem_append_right _ List.mem_cons_self),
      takeWhile_bracket hbody]

/-- **An annotation**: `@tags`, spaces, a colon, spaces and what is in brackets. -/
theorem tagsAt_eq_some_iff : tagsAt s = some g ↔
    ∃ sp sp' body rest, (∀ a ∈ sp ++ sp', isSpace a = true) ∧ ']' ∉ body ∧
      s = "@tags".toList ++ sp ++ ':' :: sp' ++ '[' :: body ++ ']' :: rest ∧
      g = '[' :: body ++ [']'] := by
  constructor
  · intro h
    unfold tagsAt at h
    split at h
    · rename_i s
      split at h
      · rename_i t hcolon
        obtain ⟨sp, hsp, rfl⟩ := (dropWhile_eq_cons_iff rfl).mp hcolon
        obtain ⟨body, rest, hbody, ht, rfl⟩ := bracketed_eq_some_iff.mp h
        rw [List.cons_append] at ht
        obtain ⟨sp', hsp', rfl⟩ := (dropWhile_eq_cons_iff rfl).mp ht
        refine ⟨sp, sp', body, rest, fun a ha => ?_, hbody, by simp, rfl⟩
        exact (List.mem_append.mp ha).elim (hsp a) (hsp' a)
      · cases h
    · cases h
  · rintro ⟨sp, sp', body, rest, hspace, hbody, rfl, rfl⟩
    have hs : "@tags".toList ++ sp ++ ':' :: sp' ++ '[' :: body ++ ']' :: rest =
        '@' :: 't' :: 'a' :: 'g' :: 's' :: (sp ++ ':' :: (sp' ++ '[' :: (body ++ ']' :: rest))) := by
      simp
    have hcolon : (sp ++ ':' :: (sp' ++ '[' :: (body ++ ']' :: rest))).dropWhile isSpace = _ :=
      (dropWhile_eq_cons_iff rfl).mpr ⟨sp, fun a ha => hspace a (List.mem_append_left _ ha), rfl⟩
    have hbracket : (sp' ++ '[' :: (body ++ ']' :: rest)).dropWhile isSpace = _ :=
      (dropWhile_eq_cons_iff rfl).mpr ⟨sp', fun a ha => hspace a (List.mem_append_right _ ha), rfl⟩
    rw [hs, tagsAt, hcolon]
    show bracketed ((sp' ++ '[' :: (body ++ ']' :: rest)).dropWhile isSpace) = _
    rw [hbracket]
    exact bracketed_eq_some_iff.mpr ⟨body, rest, hbody, rfl, rfl⟩

/-- **The last annotation** of a text is captured. -/
theorem tagsRe_eq_some_iff : tagsRe s = some g ↔
    ∃ t, t <:+ s ∧ tagsAt t = some g ∧ ∀ u, u <:+ t → u ≠ t → tagsAt u = none := by
  have hnone : ∀ s, tagsRe s = none ↔ ∀ u, u <:+ s → tagsAt u = none := by
    intro s
    induction s with
    | nil => simp [tagsRe, tagsAt]
    | cons c s ih =>
      rw [tagsRe, Option.or_eq_none_iff, ih]
      constructor
      · rintro ⟨hlater, hhere⟩ u hu
        obtain rfl | hu := List.suffix_cons_iff.mp hu
        · exact hhere
        · exact hlater u hu
      · intro h
        exact ⟨fun u hu => h u (hu.trans (List.suffix_cons c s)), h _ (List.suffix_refl _)⟩
  induction s with
  | nil =>
    refine iff_of_false (by simp [tagsRe]) ?_
    rintro ⟨t, ht, hg, -⟩
    rw [List.suffix_nil.mp ht] at hg
    cases hg
  | cons c s ih =>
    rw [tagsRe, Option.or_eq_some_iff, hnone]
    constructor
    · rintro (h | ⟨hlater, hg⟩)
      · obtain ⟨t, ht, hg, hlast⟩ := ih.mp h
        exact ⟨t, ht.trans (List.suffix_cons c s), hg, hlast⟩
      · refine ⟨c :: s, List.suffix_refl _, hg, fun u hu hne => ?_⟩
        exact hlater u ((List.suffix_cons_iff.mp hu).resolve_left hne)
    · rintro ⟨t, ht, hg, hlast⟩
      obtain rfl | ht := List.suffix_cons_iff.mp ht
      · refine .inr ⟨fun u hu => hlast u (hu.trans (List.suffix_cons c s)) ?_, hg⟩
        rintro rfl
        exact absurd hu.length_le (Nat.not_succ_le_self s.length)
      · exact .inl (ih.mpr ⟨t, ht, hg, hlast⟩)

end Captured

/-! ## `get_tags` -/

section Model

/-- What `yaml.safe_load` returns. A float and a date are given by their text. -/
inductive YamlValue
  | null
  | bool (b : Bool)
  | int (n : ℤ)
  | float (text : String)
  | date (text : String)
  | str (s : String)
  | list (items : List YamlValue)
  | mapping (items : List (YamlValue × YamlValue))

namespace YamlValue

def isStr : YamlValue → Bool
  | .str _ => true
  | _ => false

def isList : YamlValue → Bool
  | .list _ => true
  | _ => false

/-- `type(value).__name__` -/
def typeName : YamlValue → String
  | .null => "NoneType"
  | .bool _ => "bool"
  | .int _ => "int"
  | .float _ => "float"
  | .date _ => "datetime.date"
  | .str _ => "str"
  | .list _ => "list"
  | .mapping _ => "dict"

end YamlValue

/-- An exception of `yaml.safe_load`, with its text: one of the library, or a `ValueError` of the
constructor of a scalar. -/
inductive LoadError
  | yamlError (err : String)
  | valueError (err : String)

structure Yaml where
  safeLoad : List Char → Except LoadError YamlValue
  /-- `str(value)` -/
  str : YamlValue → String

/-- `UnicodeDecodeError` is a `ValueError`. -/
inductive TagsError
  | typeError (msg : String)
  | valueError (msg : String)
  | unicodeDecodeError

/-- What a loop over a value takes. -/
def iterItems : YamlValue → Except TagsError (List YamlValue)
  | .list items => .ok items
  | .str s => .ok (s.toList.map fun c => .str (String.singleton c))
  | .mapping items => .ok (items.map Prod.fst)
  | v => .error (.typeError ("'" ++ v.typeName ++ "' object is not iterable"))

/-- `fp.read()` -/
def readText (content : ByteArray) : Except TagsError (List Char) :=
  match String.fromUTF8? content with
  | some s => .ok (universalNewlines s.toList)
  | none => .error .unicodeDecodeError

/-- The check of the tags that `yaml.safe_load` has read. -/
def checkTags (yaml : Yaml) (tags : YamlValue) : Except TagsError YamlValue := do
  if !tags.isList then
    -- `not` binds stronger than `and`: a list is not looked into.
    let items ← iterItems tags
    if items.all YamlValue.isStr then
      .error (.typeError ("Expected a list of string tags, but got '" ++ yaml.str tags ++ "'"))
    else pure tags
  else pure tags

/-- What `get_tags` does with the text that is captured. -/
def loadTags (yaml : Yaml) (pathname : String) (group : List Char) : Except TagsError YamlValue :=
  match yaml.safeLoad (stripJscomments group) with
  | .ok tags => checkTags yaml tags
  | .error (.yamlError err) => .error (.valueError
      ("File '" ++ pathname ++ "' contained invalid tags (expected YAML): " ++ err))
  | .error (.valueError err) => .error (.valueError err)

def getTags (yaml : Yaml) (pathname : String) (content : ByteArray) : Except TagsError YamlValue := do
  let s ← readText content
  match tagsRe s with
  | none => pure (.list [])
  | some group => loadTags yaml pathname group

end Model

/-! ## Tags that are strings -/

section Strings

variable {yaml : Yaml} {pathname : String} {content : ByteArray} {v : YamlValue}

/-- A list of strings is returned, or a `TypeError` or a `ValueError` is raised. -/
def StringTags : Except TagsError YamlValue → Prop
  | .ok v => ∃ tags : List String, v = .list (tags.map .str)
  | .error _ => True

/-- What `yaml.safe_load` may read: a list of strings only, a mapping of strings only, or no
collection. -/
def AcceptedTags : YamlValue → Prop
  | .list items => ∀ x ∈ items, x.isStr = true
  | .mapping items => ∀ p ∈ items, p.1.isStr = true
  | _ => True

theorem YamlValue.isStr_iff : v.isStr = true ↔ ∃ s, v = .str s := by
  cases v <;> simp [isStr]

theorem exists_map_str {items : List YamlValue} :
    (∃ tags : List String, items = tags.map .str) ↔ ∀ x ∈ items, x.isStr = true := by
  constructor
  · rintro ⟨tags, rfl⟩ x hx
    obtain ⟨s, -, rfl⟩ := List.mem_map.mp hx
    rfl
  · intro h
    induction items with
    | nil => exact ⟨[], rfl⟩
    | cons x items ih =>
      obtain ⟨s, rfl⟩ := YamlValue.isStr_iff.mp (h x List.mem_cons_self)
      obtain ⟨tags, rfl⟩ := ih fun x hx => h x (List.mem_cons_of_mem _ hx)
      exact ⟨s :: tags, rfl⟩

theorem checkTags_iff : StringTags (checkTags yaml v) ↔ AcceptedTags v := by
  cases v with
  | list items =>
    have hcheck : checkTags yaml (.list items) = .ok (.list items) := rfl
    rw [hcheck, AcceptedTags, ← exists_map_str]
    exact exists_congr fun tags => YamlValue.list.injEq items _ ▸ Iff.rfl
  | mapping items =>
    have hcheck : checkTags yaml (.mapping items) =
        if (items.map Prod.fst).all YamlValue.isStr then
          .error (.typeError ("Expected a list of string tags, but got '" ++
            yaml.str (.mapping items) ++ "'"))
        else .ok (.mapping items) := rfl
    have hall : (items.map Prod.fst).all YamlValue.isStr = true ↔ AcceptedTags (.mapping items) := by
      simp [AcceptedTags]
    rw [hcheck, ← hall]
    split_ifs with h
    · exact iff_of_true trivial h
    · refine iff_of_false ?_ h
      rintro ⟨tags, htags⟩
      cases htags
  | str s =>
    have hall : (s.toList.map fun c => YamlValue.str (String.singleton c)).all YamlValue.isStr = true := by
      rw [List.all_map, List.all_eq_true]
      exact fun c _ => rfl
    have hcheck : checkTags yaml (.str s) =
        if (s.toList.map fun c => YamlValue.str (String.singleton c)).all YamlValue.isStr then
          .error (.typeError ("Expected a list of string tags, but got '" ++ yaml.str (.str s) ++ "'"))
        else .ok (.str s) := rfl
    rw [hcheck, if_pos hall]
    exact Iff.rfl
  | _ => exact Iff.rfl

theorem getTags_of_readText {s : List Char} (h : readText content = .ok s) :
    getTags yaml pathname content =
      match tagsRe s with
      | none => .ok (.list [])
      | some group => loadTags yaml pathname group := by
  rw [getTags, h]
  rfl

theorem loadTags_iff {group : List Char} : StringTags (loadTags yaml pathname group) ↔
    ∀ v, yaml.safeLoad (stripJscomments group) = .ok v → AcceptedTags v := by
  unfold loadTags
  cases yaml.safeLoad (stripJscomments group) with
  | ok tags =>
    rw [checkTags_iff]
    refine ⟨fun h v hv => ?_, fun h => h tags rfl⟩
    cases hv
    exact h
  | error e =>
    refine iff_of_true ?_ fun v hv => by cases hv
    cases e <;> trivial

/-- **Tags are strings**, or an error is raised, exactly for the files that cannot be read as text,
have no annotation, or of whose last annotation YAML reads a list of strings only, a mapping of
strings only, no collection, or nothing. -/
theorem getTags_iff (yaml : Yaml) (pathname : String) (content : ByteArray) :
    StringTags (getTags yaml pathname content) ↔
      ∀ s, readText content = .ok s → ∀ group, tagsRe s = some group →
        ∀ v, yaml.safeLoad (stripJscomments group) = .ok v → AcceptedTags v := by
  cases hread : readText content with
  | error e =>
    have htags : getTags yaml pathname content = .error e := by
      rw [getTags, hread]
      rfl
    rw [htags]
    exact iff_of_true trivial fun s hs => by cases hs
  | ok s =>
    rw [getTags_of_readText hread]
    cases hre : tagsRe s with
    | none =>
      refine iff_of_true ⟨[], rfl⟩ fun s' hs' group hgroup => ?_
      cases hs'
      cases hre.symm.trans hgroup
    | some group =>
      dsimp only
      rw [loadTags_iff]
      constructor
      · intro h s' hs' group' hgroup' v hv
        cases hs'
        cases hre.symm.trans hgroup'
        exact h v hv
      · intro h
        exact h s rfl group hre

/-- The test of `_MatchExpression` on the items that a file has for tags: only strings are equal to
a string. -/
def matchExpression (tag : String) (items : List YamlValue) : Bool :=
  items.any fun
    | .str s => s = tag
    | _ => false

/-- On tags that are strings the test is that of the selector. -/
theorem matchTag_eval (tag : String) (tags : List String) :
    matchExpression tag (tags.map .str) = (TagExpression.matchTag tag).eval tags := by
  rw [matchExpression, List.any_map, TagExpression.eval, Bool.eq_iff_iff, List.any_eq_true]
  simp

/-- Any other item is never matched. -/
theorem matchExpression_filter (tag : String) (items : List YamlValue) :
    matchExpression tag (items.filter YamlValue.isStr) = matchExpression tag items := by
  rw [matchExpression, List.any_filter, matchExpression]
  refine List.any_congr rfl fun v => ?_
  cases v <;> rfl

theorem readText_toUTF8 (s : String) : readText s.toUTF8 = .ok (universalNewlines s.toList) := by
  have h : String.fromUTF8? s.toUTF8 = some s := dif_pos s.isValidUTF8
  rw [readText, h]

/-- An unquoted tag that YAML reads as a number. -/
def numberTag : Yaml where
  safeLoad s := if s = "[requires_ssl, 44]".toList then .ok (.list [.str "requires_ssl", .int 44])
    else .error (.yamlError "")
  str _ := ""

/-- Its list is returned, and a selector that asks for the tag does not find it. -/
theorem getTags_number :
    ¬ StringTags (getTags numberTag "jstests/ssl.js" "/* @tags: [requires_ssl, 44] */".toUTF8) ∧
    matchExpression "44" [.str "requires_ssl", .int 44] = false := by
  have hre : tagsRe (universalNewlines "/* @tags: [requires_ssl, 44] */".toList) =
      some "[requires_ssl, 44]".toList := by decide +kernel
  have hstrip : stripJscomments "[requires_ssl, 44]".toList = "[requires_ssl, 44]".toList := by
    decide +kernel
  refine ⟨?_, by decide⟩
  rw [getTags_of_readText (readText_toUTF8 _), hre]
  dsimp only
  rw [loadTags_iff, hstrip]
  intro h
  exact absurd (h (.list [.str "requires_ssl", .int 44]) rfl (.int 44) (by simp)) (by decide)

end Strings

end MongoTests.Suites
