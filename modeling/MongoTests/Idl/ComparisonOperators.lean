import MongoTests.Idl.Generator
import MongoTests.Lib.Lexicographic

/-!
# The generated comparison operators

The operators that `generator.py` writes for a struct, on values whose required members are set.

* `getComparison`, `getComparisonLess`: the expressions, which may read an empty optional;
* `Value`: the values of a struct; `Comparisons`: the operators of the members;
* `Means`: what an expression says; `means_operatorLess`, `means_operatorEq`;
* **`operatorLess_isStrictWeakOrder`**: `<` is a strict weak order, and `==` is its equivalence;
* **`operatorNe_eq_not_iff`**: when `!=` is the negation of `==`.
-/

namespace MongoTests.Idl.Generator

open MongoTests.Lib

variable {M : Type}

/-- The operators that are written field by field. -/
inductive RelOp
  | eq
  | ne
  | less
  deriving DecidableEq

/-- The operators of the C++ types of the members. -/
structure Comparisons (M : Type) where
  eq : Ast.Field → M → M → Bool
  ne : Ast.Field → M → M → Bool
  less : Ast.Field → M → M → Bool
  /-- `SimpleBSONObjComparator::kInstance.compare` -/
  compare : M → M → ℤ

/-- `"BSONObj" in field.cpp_type` -/
def isBsonObj (f : Ast.Field) : Bool := f.cppType.any (containsText · "BSONObj")

/-- The fields that are compared, in their order. -/
def sortedFields (s : Ast.Struct) : List Ast.Field :=
  (s.fields.filter fun f => !f.ignore && f.comparisonOrder ≠ -1).mergeSort
    fun f g => f.comparisonOrder ≤ g.comparisonOrder

/-- A value of the class: each member that is not optional has a value. -/
structure Value (s : Ast.Struct) (M : Type) where
  members : String → Option M
  present : ∀ f ∈ s.fields, f.optional = false → (members f.name).isSome = true

/-! ## Expressions -/

/-- `a && b`; an expression has no value if it reads an empty optional. -/
def andThen (a b : Option Bool) : Option Bool :=
  match a with
  | some true => b
  | a => a

/-- `a || b` -/
def orElse (a b : Option Bool) : Option Bool :=
  match a with
  | some false => b
  | a => a

namespace Comparisons

variable (cmp : Comparisons M)

def rel (op : RelOp) (f : Ast.Field) : M → M → Bool :=
  match op with
  | .eq => cmp.eq f
  | .ne => cmp.ne f
  | .less => cmp.less f

/-- The operators of `boost::optional`. -/
def optionalRel (op : RelOp) (f : Ast.Field) (a b : Option M) : Bool :=
  match op with
  | .eq => equalPointees a b
  | .ne => !equalPointees a b
  | .less => match a, b with
    | _, none => false
    | none, some _ => true
    | some a, some b => cmp.less f a b
where
  equalPointees : Option M → Option M → Bool
    | some a, some b => cmp.eq f a b
    | none, none => true
    | _, _ => false

/-- `SimpleBSONObjComparator::kInstance.compare(left, right) op 0`, of the values of the members. -/
def compareBson (op : RelOp) (a b : Option M) : Option Bool :=
  match a, b with
  | some a, some b => some <| match op with
    | .eq => cmp.compare a b = 0
    | .ne => cmp.compare a b ≠ 0
    | .less => cmp.compare a b < 0
  | _, _ => none

/-- `_get_comparison` -/
def getComparison (f : Ast.Field) (op : RelOp) (a b : Option M) : Option Bool :=
  if !isBsonObj f then
    if f.optional then some (cmp.optionalRel op f a b)
    else match a, b with
      | some a, some b => some (cmp.rel op f a b)
      | _, _ => none
  else if f.optional then
    match op with
    | .eq => andThen (some (a.isSome == b.isSome)) (orElse (some !a.isSome) (cmp.compareBson op a b))
    | .ne => andThen (some (a.isSome != b.isSome)) (andThen (some a.isSome) (cmp.compareBson op a b))
    | .less => andThen (some b.isSome) (orElse (some !a.isSome) (cmp.compareBson op a b))
  else cmp.compareBson op a b

variable {s : Ast.Struct}

/-- The comparison of a member of two values. -/
def compareField (op : RelOp) (l r : Value s M) (f : Ast.Field) : Option Bool :=
  cmp.getComparison f op (l.members f.name) (r.members f.name)

/-- `_get_comparison_less`; without fields it raises. -/
def getComparisonLess (l r : Value s M) : List Ast.Field → Option Bool
  | [] => none
  | [f] => cmp.compareField .less l r f
  | f :: fs => orElse (cmp.compareField .less l r f)
      (andThen ((cmp.compareField .less r l f).map not) (getComparisonLess l r fs))

def operatorEq (l r : Value s M) : Option Bool :=
  (sortedFields s).foldr (fun f rest => andThen (cmp.compareField .eq l r f) rest) (some true)

def operatorNe (l r : Value s M) : Option Bool :=
  (sortedFields s).foldr (fun f rest => orElse (cmp.compareField .ne l r f) rest) (some false)

def operatorLess (l r : Value s M) : Option Bool := cmp.getComparisonLess l r (sortedFields s)

def operatorGreater (l r : Value s M) : Option Bool := cmp.operatorLess r l

def operatorLe (l r : Value s M) : Option Bool := (cmp.operatorLess r l).map not

def operatorGe (l r : Value s M) : Option Bool := (cmp.operatorLess l r).map not

/-- The operators of each type belong together. -/
structure Lawful : Prop where
  less : ∀ f, StrictWeak fun a b => cmp.less f a b = true
  eq : ∀ f a b, cmp.eq f a b = true ↔ ¬ cmp.less f a b = true ∧ ¬ cmp.less f b a = true
  ne : ∀ f a b, cmp.ne f a b = !cmp.eq f a b
  compare : StrictWeak fun a b => cmp.compare a b < 0
  compare_swap : ∀ a b, 0 < cmp.compare a b ↔ cmp.compare b a < 0

end Comparisons

/-- What an expression says. -/
def Means (x : Option Bool) (p : Prop) : Prop := ∃ b, x = some b ∧ (b = true ↔ p)

namespace Means

variable {x y : Option Bool} {p q : Prop}

theorem mk {b : Bool} (h : b = true ↔ p) : Means (some b) p := ⟨b, rfl, h⟩

theorem eq_some_true (h : Means x p) : x = some true ↔ p := by
  obtain ⟨b, rfl, hb⟩ := h
  rw [← hb, Option.some.injEq]

theorem congr (h : Means x p) (hpq : p ↔ q) : Means x q := by
  obtain ⟨b, hx, hb⟩ := h
  exact ⟨b, hx, hb.trans hpq⟩

theorem not (h : Means x p) : Means (x.map not) (¬ p) := by
  obtain ⟨b, rfl, hb⟩ := h
  refine mk ?_
  rw [← hb, Bool.not_eq_true', Bool.not_eq_true]

/-- The right side is read if the left one holds. -/
theorem andThen (hx : Means x p) (hy : p → Means y q) : Means (andThen x y) (p ∧ q) := by
  obtain ⟨b, rfl, hb⟩ := hx
  cases b with
  | false => exact mk ⟨fun h => (nomatch h), fun h => hb.mpr h.1⟩
  | true =>
    have hp := hb.mp rfl
    exact (hy hp).congr ⟨fun hq => ⟨hp, hq⟩, And.right⟩

theorem orElse (hx : Means x p) (hy : ¬ p → Means y q) : Means (orElse x y) (p ∨ q) := by
  obtain ⟨b, rfl, hb⟩ := hx
  cases b with
  | true => exact mk ⟨fun _ => .inl (hb.mp rfl), fun _ => rfl⟩
  | false =>
    have hp : ¬ p := fun h => nomatch hb.mpr h
    exact (hy hp).congr ⟨.inr, fun h => h.resolve_left hp⟩

end Means

namespace Comparisons

variable {cmp : Comparisons M} {s : Ast.Struct} {f : Ast.Field} {l r : Value s M}

/-! ## One field -/

/-- The order of the values of a field. -/
def before (cmp : Comparisons M) (f : Ast.Field) (a b : M) : Prop :=
  if isBsonObj f then cmp.compare a b < 0 else cmp.less f a b = true

/-- The order of the values of a struct by one field. -/
def Precedes (cmp : Comparisons M) (f : Ast.Field) (l r : Value s M) : Prop :=
  optionLess (cmp.before f) (l.members f.name) (r.members f.name)

theorem strictWeak_before (h : cmp.Lawful) (f : Ast.Field) : StrictWeak (cmp.before f) := by
  unfold before
  cases isBsonObj f with
  | true => exact h.compare
  | false => exact h.less f

theorem strictWeak_precedes (h : cmp.Lawful) (f : Ast.Field) :
    StrictWeak (cmp.Precedes f : Value s M → Value s M → Prop) :=
  (strictWeak_before h f).optionLess.onFun fun v : Value s M => v.members f.name

/-- The values of a field, which both are there unless the field is optional. -/
theorem optional_or_present (hf : f ∈ s.fields) (l r : Value s M) : f.optional = true ∨
    f.optional = false ∧ ∃ a b, l.members f.name = some a ∧ r.members f.name = some b := by
  cases hoptional : f.optional with
  | true => exact .inl rfl
  | false =>
    obtain ⟨a, ha⟩ := Option.isSome_iff_exists.mp (l.present f hf hoptional)
    obtain ⟨b, hb⟩ := Option.isSome_iff_exists.mp (r.present f hf hoptional)
    exact .inr ⟨rfl, a, b, ha, hb⟩

theorem means_less (hf : f ∈ s.fields) (l r : Value s M) :
    Means (cmp.compareField .less l r f) (cmp.Precedes f l r) := by
  unfold compareField getComparison Precedes before
  obtain hoptional | ⟨hoptional, a, b, ha, hb⟩ := optional_or_present hf l r
  · rw [hoptional]
    cases isBsonObj f <;> cases l.members f.name <;> cases r.members f.name <;>
      exact Means.mk (by simp [optionalRel, optionLess])
  · rw [hoptional, ha, hb]
    cases isBsonObj f <;> exact Means.mk (by simp [rel, optionLess])

/-- The values of a field are equivalent. -/
def Equivalent (cmp : Comparisons M) (f : Ast.Field) (l r : Value s M) : Prop :=
  ¬ cmp.Precedes f l r ∧ ¬ cmp.Precedes f r l

theorem compare_eq_zero (h : cmp.Lawful) (a b : M) :
    cmp.compare a b = 0 ↔ ¬ cmp.compare a b < 0 ∧ ¬ cmp.compare b a < 0 := by
  have hswap := h.compare_swap a b
  omega

theorem means_eq (h : cmp.Lawful) (hf : f ∈ s.fields) (l r : Value s M) :
    Means (cmp.compareField .eq l r f) (cmp.Equivalent f l r) := by
  unfold compareField getComparison Equivalent Precedes before
  obtain hoptional | ⟨hoptional, a, b, ha, hb⟩ := optional_or_present hf l r
  · rw [hoptional]
    cases isBsonObj f <;> cases l.members f.name <;> cases r.members f.name <;>
      exact Means.mk (by simp [optionalRel, optionalRel.equalPointees, optionLess, h.eq, compare_eq_zero h])
  · rw [hoptional, ha, hb]
    cases isBsonObj f <;> exact Means.mk (by simp [rel, optionLess, h.eq, compare_eq_zero h])

/-! ## The order -/

theorem mem_of_sortedFields (hf : f ∈ sortedFields s) : f ∈ s.fields :=
  List.mem_of_mem_filter (List.mem_mergeSort.mp hf)

/-- `<` compares field by field. -/
theorem means_getComparisonLess {fs : List Ast.Field} (hne : fs ≠ []) (hfs : ∀ f ∈ fs, f ∈ s.fields)
    (l r : Value s M) :
    Means (cmp.getComparisonLess l r fs) (lexLess (fs.map cmp.Precedes) l r) := by
  induction fs with
  | nil => exact absurd rfl hne
  | cons f fs ih =>
    obtain ⟨hf, hfs⟩ := List.forall_mem_cons.mp hfs
    cases fs with
    | nil =>
      refine (means_less hf l r).congr ⟨.inl, fun h => ?_⟩
      exact h.resolve_right fun h => h.2
    | cons g fs =>
      have hrest := ih (List.cons_ne_nil g fs) hfs
      exact (means_less hf l r).orElse fun _ => (means_less hf r l).not.andThen fun _ => hrest

theorem means_operatorLess (hne : sortedFields s ≠ []) (l r : Value s M) :
    Means (cmp.operatorLess l r) (lexLess ((sortedFields s).map cmp.Precedes) l r) :=
  means_getComparisonLess hne (fun _ => mem_of_sortedFields) l r

/-- `==` asks for equivalent values of each field. -/
theorem means_operatorEq (h : cmp.Lawful) (l r : Value s M) :
    Means (cmp.operatorEq l r) (∀ f ∈ sortedFields s, cmp.Equivalent f l r) := by
  unfold operatorEq
  have hfields : ∀ f ∈ sortedFields s, f ∈ s.fields := fun f => mem_of_sortedFields
  revert hfields
  induction sortedFields s with
  | nil => exact fun _ => Means.mk (by simp)
  | cons f fs ih =>
    intro hfields
    obtain ⟨hf, hfs⟩ := List.forall_mem_cons.mp hfields
    exact ((means_eq h hf l r).andThen fun _ => ih hfs).congr (by rw [List.forall_mem_cons])

/-- **The order of the values**: `<` reads no empty optional and is a strict weak order, and `==` holds
exactly if both `<=` and `>=` do. -/
theorem operatorLess_isStrictWeakOrder (h : cmp.Lawful) (hne : sortedFields s ≠ []) :
    (∀ l r : Value s M, ∃ b, cmp.operatorLess l r = some b) ∧
      IsStrictWeakOrder (Value s M) (fun l r => cmp.operatorLess l r = some true) ∧
      ∀ l r : Value s M, cmp.operatorLe l r = some true ∧ cmp.operatorGe l r = some true ↔
        cmp.operatorEq l r = some true := by
  have hless : ∀ l r : Value s M, Means (cmp.operatorLess l r)
      (lexLess ((sortedFields s).map cmp.Precedes) l r) := means_operatorLess hne
  refine ⟨fun l r => (hless l r).imp fun _ => And.left, ?_, fun l r => ?_⟩
  · have heq : (fun l r : Value s M => cmp.operatorLess l r = some true) =
        lexLess ((sortedFields s).map cmp.Precedes) := by
      funext l r
      exact propext (hless l r).eq_some_true
    rw [heq]
    refine (StrictWeak.lexLess fun p hp => ?_).isStrictWeakOrder
    obtain ⟨f, -, rfl⟩ := List.mem_map.mp hp
    exact strictWeak_precedes h f
  · unfold operatorLe operatorGe
    rw [(hless r l).not.eq_some_true, (hless l r).not.eq_some_true, and_comm, not_lexLess_iff,
      (means_operatorEq h l r).eq_some_true, List.forall_mem_map]
    rfl

/-- A struct with an optional `BSONObj` and a number. -/
def sampleQuery : Ast.Struct where
  loc := ⟨"sample.idl", 1, 1⟩
  name := "query"
  cppName := "query"
  description := none
  strict := true
  immutable := false
  inlineChainedStructs := false
  generateComparisonOperators := true
  fields := [
    { loc := ⟨"sample.idl", 2, 1⟩, name := "filter", optional := true,
      cppType := some "mongo::BSONObj", comparisonOrder := 0 },
    { loc := ⟨"sample.idl", 3, 1⟩, name := "n", cppType := some "std::int32_t",
      comparisonOrder := 1 }]

def sampleComparisons : Comparisons ℤ where
  eq _ a b := a = b
  ne _ a b := a ≠ b
  less _ a b := a < b
  compare a b := a - b

theorem sampleComparisons_lawful : sampleComparisons.Lawful where
  less _ := by
    constructor <;> simp only [sampleComparisons, decide_eq_true_eq] <;> omega
  eq _ a b := by
    simp only [sampleComparisons, decide_eq_true_eq]
    omega
  ne _ a b := by simp [sampleComparisons]
  compare := by
    constructor <;> simp only [sampleComparisons] <;> omega
  compare_swap a b := by
    simp only [sampleComparisons]
    omega

theorem sortedFields_sampleQuery : sortedFields sampleQuery = sampleQuery.fields := by
  unfold sortedFields
  rw [List.filter_eq_self.mpr (by decide)]
  exact List.mergeSort_of_pairwise (by decide)

theorem operatorLess_isStrictWeakOrder_sample :
    (∀ l r : Value sampleQuery ℤ, ∃ b, sampleComparisons.operatorLess l r = some b) ∧
      IsStrictWeakOrder (Value sampleQuery ℤ)
        (fun l r => sampleComparisons.operatorLess l r = some true) ∧
      ∀ l r : Value sampleQuery ℤ, sampleComparisons.operatorLe l r = some true ∧
        sampleComparisons.operatorGe l r = some true ↔
          sampleComparisons.operatorEq l r = some true :=
  operatorLess_isStrictWeakOrder sampleComparisons_lawful (by
    rw [sortedFields_sampleQuery]
    exact List.cons_ne_nil _ _)

/-! ## Inequality -/

/-- An optional `BSONObj`, whose operators the generator writes itself. -/
def isOptionalBsonObj (f : Ast.Field) : Bool := isBsonObj f && f.optional

/-- The comparison for `!=` reads an empty optional on the right. -/
def ReadsEmpty (f : Ast.Field) (l r : Value s M) : Prop :=
  isOptionalBsonObj f = true ∧ (l.members f.name).isSome = true ∧ r.members f.name = none

theorem means_ne (h : cmp.Lawful) (hf : f ∈ s.fields) (hplain : isOptionalBsonObj f = false)
    (l r : Value s M) : Means (cmp.compareField .ne l r f) (¬ cmp.Equivalent f l r) := by
  have heq : cmp.compareField .ne l r f = (cmp.compareField .eq l r f).map not := by
    unfold compareField getComparison
    unfold isOptionalBsonObj at hplain
    obtain hoptional | ⟨hoptional, a, b, ha, hb⟩ := optional_or_present hf l r
    · rw [hoptional, Bool.and_true] at hplain
      rw [hoptional, hplain]
      rfl
    · rw [hoptional, ha, hb]
      cases isBsonObj f
      · exact congrArg some (h.ne f a b)
      · simp [compareBson]
  rw [heq]
  exact (means_eq h hf l r).not

/-- An optional `BSONObj` never makes two values different. -/
theorem compareField_ne (cmp : Comparisons M) (hoptional : isOptionalBsonObj f = true) (l r : Value s M) :
    cmp.compareField .ne l r f = some false ∧ ¬ ReadsEmpty f l r ∨
      cmp.compareField .ne l r f = none ∧ ReadsEmpty f l r := by
  obtain ⟨hbson, hopt⟩ := Bool.and_eq_true_iff.mp hoptional
  unfold compareField getComparison ReadsEmpty
  rw [hbson, hopt, hoptional]
  cases l.members f.name <;> cases r.members f.name <;> simp [andThen, compareBson]

/-- A field before which no empty optional is read, and whose values differ. -/
def Decides (cmp : Comparisons M) (fs : List Ast.Field) (l r : Value s M) : Prop :=
  ∃ pre f post, fs = pre ++ f :: post ∧ isOptionalBsonObj f = false ∧ ¬ cmp.Equivalent f l r ∧
    ∀ g ∈ pre, ¬ ReadsEmpty g l r

theorem decides_cons {fs : List Ast.Field} : Decides cmp (f :: fs) l r ↔
    (isOptionalBsonObj f = false ∧ ¬ cmp.Equivalent f l r) ∨
      ¬ ReadsEmpty f l r ∧ Decides cmp fs l r := by
  constructor
  · rintro ⟨pre, g, post, heq, hplain, hne, hpre⟩
    cases pre with
    | nil =>
      cases heq
      exact .inl ⟨hplain, hne⟩
    | cons g' pre =>
      cases heq
      obtain ⟨hf, hpre⟩ := List.forall_mem_cons.mp hpre
      exact .inr ⟨hf, pre, g, post, rfl, hplain, hne, hpre⟩
  · rintro (⟨hplain, hne⟩ | ⟨hf, pre, g, post, rfl, hplain, hne, hpre⟩)
    · exact ⟨[], f, fs, rfl, hplain, hne, fun g hg => nomatch hg⟩
    · exact ⟨f :: pre, g, post, rfl, hplain, hne, List.forall_mem_cons.mpr ⟨hf, hpre⟩⟩

/-- `!=` holds if a field decides. -/
theorem foldr_ne_eq_true (h : cmp.Lawful) {fs : List Ast.Field} (hfs : ∀ f ∈ fs, f ∈ s.fields)
    (l r : Value s M) : fs.foldr (fun f rest => orElse (cmp.compareField .ne l r f) rest)
      (some false) = some true ↔ Decides cmp fs l r := by
  induction fs with
  | nil => exact ⟨fun h => (nomatch h), fun ⟨pre, f, post, h, _⟩ => absurd h (by simp)⟩
  | cons f fs ih =>
    obtain ⟨hf, hfs⟩ := List.forall_mem_cons.mp hfs
    rw [List.foldr_cons, decides_cons, ← ih hfs]
    cases hplain : isOptionalBsonObj f with
    | false =>
      have hempty : ¬ ReadsEmpty f l r := fun h => by
        rw [h.1] at hplain
        cases hplain
      obtain ⟨b, hb, hne⟩ := means_ne h hf hplain l r
      rw [hb, ← hne]
      cases b <;> simp [orElse, hempty]
    | true =>
      obtain ⟨hb, hempty⟩ | ⟨hb, hempty⟩ := compareField_ne cmp hplain l r
      · rw [hb]
        simp [orElse, hempty]
      · rw [hb]
        simp [orElse, hempty]

/-- Equal values are not unequal. -/
theorem operatorNe_of_eq (h : cmp.Lawful) (heq : ∀ f ∈ sortedFields s, cmp.Equivalent f l r) :
    cmp.operatorNe l r = some false := by
  have hfields : ∀ f ∈ sortedFields s, cmp.compareField .ne l r f = some false := by
    intro f hf
    cases hplain : isOptionalBsonObj f with
    | false =>
      obtain ⟨b, hb, hne⟩ := means_ne h (mem_of_sortedFields hf) hplain l r
      cases b with
      | false => exact hb
      | true => exact absurd (heq f hf) (hne.mp rfl)
    | true =>
      obtain ⟨hb, -⟩ | ⟨-, -, hl, hr⟩ := compareField_ne cmp hplain l r
      · exact hb
      · obtain ⟨a, ha⟩ := Option.isSome_iff_exists.mp hl
        refine absurd ?_ (heq f hf).2
        unfold Precedes
        rw [ha, hr]
        trivial
  unfold operatorNe
  revert hfields
  induction sortedFields s with
  | nil => exact fun _ => rfl
  | cons f fs ih =>
    intro hfields
    obtain ⟨hf, hfs⟩ := List.forall_mem_cons.mp hfields
    rw [List.foldr_cons, hf]
    exact ih hfs

/-- **When `!=` is the negation of `==`**: if the values are equal, or some field other than an
optional `BSONObj` differs and before it no optional `BSONObj` is set on the left only. -/
theorem operatorNe_eq_not_iff (h : cmp.Lawful) (l r : Value s M) :
    cmp.operatorNe l r = (cmp.operatorEq l r).map not ↔
      cmp.operatorEq l r = some true ∨ Decides cmp (sortedFields s) l r := by
  have htrue : cmp.operatorNe l r = some true ↔ Decides cmp (sortedFields s) l r :=
    foldr_ne_eq_true h (fun _ => mem_of_sortedFields) l r
  obtain ⟨b, hb, heq⟩ := means_operatorEq h l r
  cases b with
  | true =>
    rw [hb, operatorNe_of_eq h (heq.mp rfl)]
    exact ⟨fun _ => .inl rfl, fun _ => rfl⟩
  | false =>
    rw [hb]
    exact htrue.trans ⟨.inr, fun h => h.resolve_left fun h => nomatch h⟩

/-- A query with the filter. -/
def sampleValue (filter : ℤ) : Value sampleQuery ℤ where
  members name := if name = "filter" then some filter else some 0
  present f _ _ := by split_ifs <;> rfl

/-- Two different filters: neither operator holds. -/
theorem operatorNe_eq_not_iff_sample :
    sampleComparisons.operatorNe (sampleValue 1) (sampleValue 2) =
        (sampleComparisons.operatorEq (sampleValue 1) (sampleValue 2)).map not ↔
      sampleComparisons.operatorEq (sampleValue 1) (sampleValue 2) = some true ∨
        Decides sampleComparisons (sortedFields sampleQuery) (sampleValue 1) (sampleValue 2) :=
  operatorNe_eq_not_iff sampleComparisons_lawful _ _

end Comparisons

end MongoTests.Idl.Generator
