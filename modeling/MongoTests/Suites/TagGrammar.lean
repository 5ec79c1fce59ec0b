import MongoTests.Suites.Selection

/-!
# The grammar of tag expressions

What `make_expression` of `resmokelib/selector.py` accepts, against the grammar in its docstring.

* `Denotes`: the values that the grammar derives, with their meaning.
* `Sloppy`: the values that follow the grammar but for the operand of some `$allOf` or `$anyOf`,
  which is a string or a dictionary. The operand is iterated over, whatever it is.
* `denotes_or_sloppy`: what is accepted is derivable or sloppy.
* **`make_expression_correct_iff`**: acceptance, rejection and meaning are right unless the value is
  sloppy. `string_operand_accepted`: `{"$allOf": "ab"}`.
-/

namespace MongoTests.Suites

open MongoTests.Lib

/-- The grammar of the docstring, with the meaning of each expression. -/
inductive Denotes : TagConf → (List String → Bool) → Prop
  /-- `"<tagname>"` -/
  | tag (s : String) : Denotes (.str s) fun tags => decide (s ∈ tags)
  /-- `{"$allOf": [expr, ...]}` -/
  | allOf (l : List (TagConf × (List String → Bool))) : (∀ p ∈ l, Denotes p.1 p.2) →
      Denotes (.dict [("$allOf", .list (l.map Prod.fst))]) fun tags => l.all fun p => p.2 tags
  /-- `{"$anyOf": [expr, ...]}` -/
  | anyOf (l : List (TagConf × (List String → Bool))) : (∀ p ∈ l, Denotes p.1 p.2) →
      Denotes (.dict [("$anyOf", .list (l.map Prod.fst))]) fun tags => l.any fun p => p.2 tags
  /-- `{"$not": expr}` -/
  | not {c : TagConf} {f : List String → Bool} : Denotes c f →
      Denotes (.dict [("$not", c)]) fun tags => !f tags

/-- A value that the grammar derives. -/
def Derivable (conf : TagConf) : Prop := ∃ f, Denotes conf f

/-- The operators whose operand is a list. -/
def listOperators : List String := ["$allOf", "$anyOf"]

/-- A value that the grammar derives but for the operand of some `$allOf` or `$anyOf`, which is a
string or a dictionary. -/
inductive Sloppy : TagConf → Prop
  | str {op : String} (s : String) : op ∈ listOperators → Sloppy (.dict [(op, .str s)])
  | dict {op : String} (l : List (String × TagConf)) : op ∈ listOperators →
      Sloppy (.dict [(op, .dict l)])
  | list {op : String} (l : List TagConf) {c : TagConf} : op ∈ listOperators →
      (∀ c' ∈ l, ¬ Derivable c' → Sloppy c') → c ∈ l → Sloppy c → Sloppy (.dict [(op, .list l)])
  | not {c : TagConf} : Sloppy c → Sloppy (.dict [("$not", c)])

/-- The errors that are a `ValueError`. -/
def tagErrors : List SelectorError := [.tagsOneKey, .tagsInvalid]

/-- `make_expression` does with this value what its docstring says. -/
structure Correct (conf : TagConf) : Prop where
  accepts : (∃ e, makeExpression conf = .ok e) ↔ Derivable conf
  rejects : ¬ Derivable conf → ∃ err ∈ tagErrors, makeExpression conf = .error err
  means : ∀ e f, makeExpression conf = .ok e → Denotes conf f → ∀ tags, e.eval tags = f tags

/-! ## Derivable values -/

section Derivable

theorem TagExpression.allOf_eval (es : List TagExpression) (tags : List String) :
    (TagExpression.allOf es).eval tags = es.all fun e => e.eval tags := by
  rw [Bool.eq_iff_iff, TagExpression.eval_allOf, List.all_eq_true]

theorem TagExpression.anyOf_eval (es : List TagExpression) (tags : List String) :
    (TagExpression.anyOf es).eval tags = es.any fun e => e.eval tags := by
  rw [Bool.eq_iff_iff, TagExpression.eval_anyOf, List.any_eq_true]

/-- The expression that is built from a value has this meaning. -/
def Builds (conf : TagConf) (f : List String → Bool) : Prop :=
  ∃ e, makeExpression conf = .ok e ∧ ∀ tags, e.eval tags = f tags

/-- The operands of a list are built one by one. -/
theorem exists_makeExpressions {l : List (TagConf × (List String → Bool))}
    (h : ∀ p ∈ l, Builds p.1 p.2) :
    ∃ es, makeExpressions (l.map Prod.fst) = .ok es ∧
      ∀ tags, (es.map fun e => e.eval tags) = l.map fun p => p.2 tags := by
  induction l with
  | nil => exact ⟨[], rfl, fun _ => rfl⟩
  | cons p l ih =>
    obtain ⟨e, he, heval⟩ := h p List.mem_cons_self
    obtain ⟨es, hes, hevals⟩ := ih fun q hq => h q (List.mem_cons_of_mem p hq)
    refine ⟨e :: es, ?_, fun tags => ?_⟩
    · rw [List.map_cons, makeExpressions, he, hes]
      rfl
    · rw [List.map_cons, List.map_cons, heval, hevals]

/-- **Derivable values are accepted, with their meaning.** -/
theorem builds_of_denotes {conf : TagConf} {f : List String → Bool} (h : Denotes conf f) :
    Builds conf f := by
  induction h with
  | tag s => exact ⟨.matchTag s, rfl, fun tags => by rw [TagExpression.eval]⟩
  | allOf l _ ih =>
    obtain ⟨es, hes, hevals⟩ := exists_makeExpressions ih
    refine ⟨.allOf es, ?_, fun tags => ?_⟩
    · rw [makeExpression, if_pos rfl, makeExpressionList, hes]
      rfl
    · rw [TagExpression.allOf_eval]
      have := congrArg (fun l => l.all id) (hevals tags)
      simpa only [List.all_map, Function.comp_def, id] using this
  | anyOf l _ ih =>
    obtain ⟨es, hes, hevals⟩ := exists_makeExpressions ih
    refine ⟨.anyOf es, ?_, fun tags => ?_⟩
    · rw [makeExpression, if_neg (by decide), if_pos rfl, makeExpressionList, hes]
      rfl
    · rw [TagExpression.anyOf_eval]
      have := congrArg (fun l => l.any id) (hevals tags)
      simpa only [List.any_map, Function.comp_def, id] using this
  | not _ ih =>
    obtain ⟨e, he, heval⟩ := ih
    refine ⟨.not e, ?_, fun tags => ?_⟩
    · rw [makeExpression, if_neg (by decide), if_neg (by decide), if_pos rfl, he]
      rfl
    · rw [TagExpression.eval, heval]

end Derivable

/-! ## Sloppy values -/

section Sloppy

theorem makeExpression_operator {op : String} {value : TagConf} {es : List TagExpression}
    (hop : op ∈ listOperators) (h : makeExpressionList value = .ok es) :
    ∃ e, makeExpression (.dict [(op, value)]) = .ok e := by
  simp only [listOperators, List.mem_cons, List.not_mem_nil, or_false] at hop
  rcases hop with rfl | rfl
  · exact ⟨.allOf es, by rw [makeExpression, if_pos rfl, h]; rfl⟩
  · exact ⟨.anyOf es, by rw [makeExpression, if_neg (by decide), if_pos rfl, h]; rfl⟩

theorem exists_makeExpressions_of_forall {l : List TagConf}
    (h : ∀ c ∈ l, ∃ e, makeExpression c = .ok e) : ∃ es, makeExpressions l = .ok es := by
  induction l with
  | nil => exact ⟨[], rfl⟩
  | cons c l ih =>
    obtain ⟨e, he⟩ := h c List.mem_cons_self
    obtain ⟨es, hes⟩ := ih fun c' hc' => h c' (List.mem_cons_of_mem c hc')
    exact ⟨e :: es, by rw [makeExpressions, he, hes]; rfl⟩

/-- Sloppy values are accepted. -/
theorem Sloppy.accepted {conf : TagConf} (h : Sloppy conf) :
    ∃ e, makeExpression conf = .ok e := by
  induction h with
  | str s hop => exact makeExpression_operator hop (by rw [makeExpressionList])
  | dict l hop => exact makeExpression_operator hop (by rw [makeExpressionList])
  | list l hop _ _ _ ih _ =>
    obtain ⟨es, hes⟩ : ∃ es, makeExpressions l = .ok es := by
      refine exists_makeExpressions_of_forall fun c hc => ?_
      by_cases hd : Derivable c
      · obtain ⟨f, hf⟩ := hd
        obtain ⟨e, he, -⟩ := builds_of_denotes hf
        exact ⟨e, he⟩
      · exact ih c hc hd
    exact makeExpression_operator hop (by rw [makeExpressionList, hes])
  | not _ ih =>
    obtain ⟨e, he⟩ := ih
    refine ⟨.not e, ?_⟩
    rw [makeExpression, if_neg (by decide), if_neg (by decide), if_pos rfl, he]
    rfl

theorem derivable_of_not {c : TagConf} (h : Derivable (.dict [("$not", c)])) : Derivable c := by
  obtain ⟨f, hf⟩ := h
  generalize hconf : TagConf.dict [("$not", c)] = conf at hf
  cases hf with
  | tag s => cases hconf
  | allOf l _ => simp at hconf
  | anyOf l _ => simp at hconf
  | not hf =>
    cases hconf
    exact ⟨_, hf⟩

/-- The grammar does not derive them. -/
theorem Sloppy.not_derivable {conf : TagConf} (h : Sloppy conf) : ¬ Derivable conf := by
  induction h with
  | str s hop =>
    rintro ⟨f, hf⟩
    cases hf
    revert hop
    decide
  | dict l hop =>
    rintro ⟨f, hf⟩
    cases hf
    revert hop
    decide
  | list l hop _ hc _ _ ih =>
    rintro ⟨f, hf⟩
    cases hf with
    | allOf l' hl' =>
      obtain ⟨p, hp, rfl⟩ := List.mem_map.mp hc
      exact ih ⟨p.2, hl' p hp⟩
    | anyOf l' hl' =>
      obtain ⟨p, hp, rfl⟩ := List.mem_map.mp hc
      exact ih ⟨p.2, hl' p hp⟩
    | not => revert hop; decide
  | not _ ih => exact fun h => ih (derivable_of_not h)

end Sloppy

/-! ## What is accepted -/

section Accepted

/-- A list of derivable values comes with their meanings. -/
theorem exists_denotes_of_forall {l : List TagConf} (h : ∀ c ∈ l, Derivable c) :
    ∃ l' : List (TagConf × (List String → Bool)), l'.map Prod.fst = l ∧
      ∀ p ∈ l', Denotes p.1 p.2 := by
  induction l with
  | nil => exact ⟨[], rfl, by simp⟩
  | cons c l ih =>
    obtain ⟨f, hf⟩ := h c List.mem_cons_self
    obtain ⟨l', rfl, hl'⟩ := ih fun c' hc' => h c' (List.mem_cons_of_mem c hc')
    exact ⟨(c, f) :: l', rfl, List.forall_mem_cons.mpr ⟨hf, hl'⟩⟩

theorem derivable_operator {op : String} {l : List TagConf} (hop : op ∈ listOperators)
    (h : ∀ c ∈ l, Derivable c) : Derivable (.dict [(op, .list l)]) := by
  obtain ⟨l', rfl, hl'⟩ := exists_denotes_of_forall h
  simp only [listOperators, List.mem_cons, List.not_mem_nil, or_false] at hop
  rcases hop with rfl | rfl
  · exact ⟨_, .allOf l' hl'⟩
  · exact ⟨_, .anyOf l' hl'⟩

mutual

/-- **What is accepted is derivable or sloppy.** -/
theorem denotes_or_sloppy :
    ∀ {conf : TagConf} {e : TagExpression}, makeExpression conf = .ok e →
      Derivable conf ∨ Sloppy conf
  | .str s, _, _ => .inl ⟨_, .tag s⟩
  | .dict [(key, value)], e, h => by
    rw [makeExpression] at h
    split_ifs at h with h1 h2 h3
    · obtain ⟨es, hes, -⟩ := bind_eq_ok.mp h
      exact operand_of_makeExpressionList (by rw [h1]; decide) hes
    · obtain ⟨es, hes, -⟩ := bind_eq_ok.mp h
      exact operand_of_makeExpressionList (by rw [h2]; decide) hes
    · obtain ⟨e', he', -⟩ := bind_eq_ok.mp h
      rw [h3]
      rcases denotes_or_sloppy he' with ⟨f, hf⟩ | hs
      · exact .inl ⟨_, .not hf⟩
      · exact .inr (.not hs)
  | .dict [], e, h => by
    rw [makeExpression] at h
    · cases h
    · simp
  | .dict (_ :: _ :: _), e, h => by
    rw [makeExpression] at h
    · cases h
    · simp
  | .list l, e, h => by
    rw [makeExpression] at h
    cases h

theorem operand_of_makeExpressionList :
    ∀ {value : TagConf} {op : String} {es : List TagExpression}, op ∈ listOperators →
      makeExpressionList value = .ok es →
        Derivable (.dict [(op, value)]) ∨ Sloppy (.dict [(op, value)])
  | .str s, op, es, hop, h => .inr (.str s hop)
  | .dict l, op, es, hop, h => .inr (.dict l hop)
  | .list l, op, es, hop, h => by
    rw [makeExpressionList] at h
    have hl := operands_of_makeExpressions h
    by_cases hd : ∀ c ∈ l, Derivable c
    · exact .inl (derivable_operator hop hd)
    · push Not at hd
      obtain ⟨c, hc, hcd⟩ := hd
      refine .inr (.list l hop ?_ hc ((hl c hc).resolve_left hcd))
      exact fun c' hc' hd' => (hl c' hc').resolve_left hd'

theorem operands_of_makeExpressions :
    ∀ {l : List TagConf} {es : List TagExpression}, makeExpressions l = .ok es →
      ∀ c ∈ l, Derivable c ∨ Sloppy c
  | [], es, h => by simp
  | c :: cs, es, h => by
    rw [makeExpressions] at h
    obtain ⟨e, he, h⟩ := bind_eq_ok.mp h
    obtain ⟨es', hes, -⟩ := bind_eq_ok.mp h
    exact List.forall_mem_cons.mpr ⟨denotes_or_sloppy he, operands_of_makeExpressions hes⟩

end

end Accepted

/-! ## What is rejected -/

section Rejected

mutual

theorem error_of_makeExpression :
    ∀ {conf : TagConf} {err : SelectorError}, makeExpression conf = .error err → err ∈ tagErrors
  | .str s, err, h => by
    rw [makeExpression] at h
    cases h
  | .dict [(key, value)], err, h => by
    rw [makeExpression] at h
    split_ifs at h
    · rcases bind_eq_error.mp h with h | ⟨es, -, h⟩
      · exact error_of_makeExpressionList h
      · cases h
    · rcases bind_eq_error.mp h with h | ⟨es, -, h⟩
      · exact error_of_makeExpressionList h
      · cases h
    · rcases bind_eq_error.mp h with h | ⟨e, -, h⟩
      · exact error_of_makeExpression h
      · cases h
    · cases h
      decide
  | .dict [], err, h => by
    rw [makeExpression] at h
    · cases h
      decide
    · simp
  | .dict (_ :: _ :: _), err, h => by
    rw [makeExpression] at h
    · cases h
      decide
    · simp
  | .list l, err, h => by
    rw [makeExpression] at h
    cases h
    decide

theorem error_of_makeExpressionList :
    ∀ {value : TagConf} {err : SelectorError}, makeExpressionList value = .error err →
      err ∈ tagErrors
  | .str s, err, h => by
    rw [makeExpressionList] at h
    cases h
  | .list l, err, h => by
    rw [makeExpressionList] at h
    exact error_of_makeExpressions h
  | .dict l, err, h => by
    rw [makeExpressionList] at h
    cases h

theorem error_of_makeExpressions :
    ∀ {l : List TagConf} {err : SelectorError}, makeExpressions l = .error err → err ∈ tagErrors
  | [], err, h => by
    rw [makeExpressions] at h
    cases h
  | c :: cs, err, h => by
    rw [makeExpressions] at h
    rcases bind_eq_error.mp h with h | ⟨e, -, h⟩
    · exact error_of_makeExpression h
    · rcases bind_eq_error.mp h with h | ⟨es, -, h⟩
      · exact error_of_makeExpressions h
      · cases h

end

end Rejected

/-! ## The exact condition -/

/-- **When a value is treated as the grammar says.** For every value built from strings, lists and
dictionaries, `make_expression` accepts it if the grammar derives it and raises a `ValueError`
otherwise, and what it builds has the meaning of the value, if and only if the value is not
sloppy. -/
theorem make_expression_correct_iff (conf : TagConf) : Correct conf ↔ ¬ Sloppy conf := by
  constructor
  · intro h hs
    exact hs.not_derivable (h.accepts.mp hs.accepted)
  · intro hs
    refine ⟨⟨?_, ?_⟩, ?_, ?_⟩
    · rintro ⟨e, he⟩
      exact (denotes_or_sloppy he).resolve_right hs
    · rintro ⟨f, hf⟩
      obtain ⟨e, he, -⟩ := builds_of_denotes hf
      exact ⟨e, he⟩
    · intro hd
      cases hresult : makeExpression conf with
      | ok e => exact absurd ((denotes_or_sloppy hresult).resolve_right hs) hd
      | error err => exact ⟨err, error_of_makeExpression hresult, rfl⟩
    · intro e f he hf
      obtain ⟨e', he', heval⟩ := builds_of_denotes hf
      obtain rfl : e' = e := Except.ok.inj (he'.symm.trans he)
      exact heval

/-- **A string as operand**: `{"$allOf": "ab"}` is accepted, and asks for the tags `a` and `b`. -/
theorem string_operand_accepted :
    makeExpression (.dict [("$allOf", .str "ab")]) = .ok (.allOf [.matchTag "a", .matchTag "b"]) ∧
      ¬ Derivable (.dict [("$allOf", .str "ab")]) ∧ ¬ Correct (.dict [("$allOf", .str "ab")]) := by
  have hsloppy : Sloppy (.dict [("$allOf", .str "ab")]) := .str "ab" (by decide)
  refine ⟨?_, hsloppy.not_derivable, ?_⟩
  · rw [makeExpression, if_pos rfl, makeExpressionList]
    rfl
  · intro h
    exact hsloppy.not_derivable (h.accepts.mp hsloppy.accepted)

end MongoTests.Suites
