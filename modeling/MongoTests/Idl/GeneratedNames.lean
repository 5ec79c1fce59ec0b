import MongoTests.Idl.Generator

/-!
# Well-formed parsers

Whether the parsers that the generator writes compile.

* `wellFormed_genFieldDeserializer` and its kin: the pieces are well formed;
* `Symbol`, `declared`: what the header declares for the class;
* `uses`: the names that the code uses;
* **`wellFormed_iff`**, **`wellScoped_iff`**: when every `else` has an `if`, and when the parser names
  only what is declared.
-/

namespace MongoTests.Idl.Generator

open MongoTests.Lib

variable {d : Ast.Definition}

/-! ## Well-formed code -/

theorem wellFormed_predicate {c : Option Cond} {body : Lines} (h : body.WellFormed) :
    (predicate c false body).WellFormed := by
  cases c with
  | none => exact h
  | some c => exact Bool.and_eq_true_iff.mpr ⟨h, rfl⟩

theorem wellFormed_bitUsage (fast : Bool) (f : Ast.Field) : (bitUsage fast f).WellFormed := by
  cases fast <;> rfl

theorem wellFormed_hasUsage (f : Ast.Field) : (hasUsage f).WellFormed := by
  unfold hasUsage
  split_ifs <;> rfl

theorem wellFormed_genUsageCheck (f : Ast.Field) (checker : Option Checker) :
    (genUsageCheck f checker).1.WellFormed := by
  cases checker with
  | none => rfl
  | some checker =>
    rw [genUsageCheck_some]
    exact (wellFormed_bitUsage _ f).append (wellFormed_hasUsage f)

theorem wellFormed_genArrayDeserializer (f : Ast.Field) (x : Operand) :
    (genArrayDeserializer f x).WellFormed := by
  have hinner : ∀ b, (predicate (getBsonTypeCheck .arrayElement f) false
      (.line (.emplaceBack f))).wellFormedAfter b = true :=
    Code.wellFormedAfter_of (wellFormed_predicate rfl)
  unfold genArrayDeserializer Code.WellFormed
  simp only [Code.wellFormedAfter, hinner]
  cases f.chainedStructField <;> rfl

theorem wellFormed_genFieldDeserializer (f : Ast.Field) (x : Operand) (checker : Option Checker) :
    (genFieldDeserializer f x checker).1.WellFormed := by
  have husage := wellFormed_genUsageCheck f checker
  rw [genFieldDeserializer_fst]
  split_ifs
  · exact husage.append (wellFormed_genArrayDeserializer f x)
  · exact husage.append rfl
  · exact husage.append rfl
  · refine wellFormed_predicate (husage.append ?_)
    cases f.chainedStructField with
    | some outer => rfl
    | none =>
      unfold validateAndAssignOrUassert
      split_ifs <;> rfl

theorem wellFormed_fieldBody (fast : Bool) (f : Ast.Field) : (fieldBody fast f).WellFormed := by
  unfold fieldBody genField
  split_ifs
  · show ((Checker.add { fast } f).1 ++ _).WellFormed
    rw [add_eq]
    exact (wellFormed_bitUsage fast f).append rfl
  · exact wellFormed_genFieldDeserializer f .element _

theorem wellFormed_chainedParsers (fs : List Ast.Field) : (chainedParsers fs).WellFormed := by
  induction fs with
  | nil => rfl
  | cons f fs ih => exact (wellFormed_genFieldDeserializer f .element none).append ih

/-- A list of checks, one block each. -/
theorem wellFormed_foldr_checks (checker : Checker) (p : Ast.Field → Bool)
    (check : Ast.Field → Cond) (fs : List Ast.Field) :
    (fs.foldr (fun f rest => if p f then .block (.cond (check f)) (missing checker f) rest
      else rest) Code.nil).WellFormed := by
  induction fs with
  | nil => rfl
  | cons f fs ih =>
    rw [List.foldr_cons]
    split_ifs
    · have hmissing : (missing checker f).WellFormed := by
        unfold missing
        split_ifs
        · split <;> rfl
        · rfl
      exact Bool.and_eq_true_iff.mpr ⟨hmissing, Code.wellFormedAfter_of ih true⟩
    · exact ih

theorem wellFormed_finalChecks (d : Ast.Definition) : (finalChecks d).WellFormed := by
  unfold finalChecks Checker.addFinalChecks
  split_ifs
  · exact Bool.and_eq_true_iff.mpr ⟨wellFormed_foldr_checks _ _ _ _, rfl⟩
  · exact wellFormed_foldr_checks _ _ _ _

theorem wellFormed_genCommandDeserializer (d : Ast.Definition) :
    (genCommandDeserializer d).WellFormed := by
  unfold genCommandDeserializer
  split
  · exact Bool.and_eq_true_iff.mpr ⟨wellFormed_genFieldDeserializer _ _ _, rfl⟩
  · split_ifs <;> rfl

theorem wellFormed_declareBits (bit : ℕ) (fs : List Ast.Field) : (declareBits bit fs).WellFormed := by
  induction fs generalizing bit with
  | nil => rfl
  | cons f fs ih =>
    rw [declareBits]
    split_ifs
    · exact ih bit
    · exact ih (bit + 1)

theorem wellFormed_prologue (d : Ast.Definition) : (prologue d).WellFormed := by
  refine Code.WellFormed.append ?_ ?_
  · unfold getFieldUsageChecker
    split_ifs
    · exact wellFormed_declareBits 0 _
    · rfl
  · split_ifs <;> rfl

/-- The `else` of a strict parser needs a branch, or the block of a command, before it. -/
theorem wellFormed_loopBody : (loopBody d).WellFormed ↔
    (d.toStruct.strict = true → d.isCommand = true ∨ d.toStruct.own ≠ []) := by
  have hbranches : ∀ b, (Code.branches true (d.toStruct.own.map fun f =>
      (.nameIs f, fieldBody d.toStruct.strict f)) : Lines).wellFormedAfter b = true := by
    refine fun b => Code.wellFormedAfter_branches ?_ true b (.inl rfl)
    rintro c hc
    obtain ⟨f, -, rfl⟩ := List.mem_map.mp hc
    exact wellFormed_fieldBody _ f
  have hcheck : ∀ b, (genStrictCheck d).wellFormedAfter b = (!d.toStruct.strict || b) := by
    intro b
    unfold genStrictCheck
    cases hs : d.toStruct.strict with
    | false => rfl
    | true =>
      have hinner : (predicate (if d.isCommand then some .notGenericArgument else none) false
          (.line .throwUnknownField)).WellFormed := wellFormed_predicate rfl
      rw [if_pos rfl, Code.wrap, Code.wellFormedAfter, hinner]
      cases b <;> rfl
  have hfirst : ∀ b, (genFirstField d).wellFormedAfter b = true := by
    unfold genFirstField
    cases d.keepsElement <;> exact fun _ => rfl
  have hopens : ∀ b, (genFirstField d).opensAfter b = true := fun _ => rfl
  unfold loopBody Code.WellFormed
  rw [Code.wellFormedAfter_append, Code.wellFormedAfter_append, Code.wellFormedAfter_append,
    hbranches, hcheck, Code.opensAfter_branches]
  cases hs : d.toStruct.strict with
  | false => cases d.isCommand <;> simp [hfirst, Checker.addStore, Code.wellFormedAfter, Code.wrap,
      Code.line]
  | true =>
    cases d.isCommand with
    | true => simp [hfirst, hopens, Checker.addStore, Code.wellFormedAfter, Code.opensAfter]
    | false => simp [Checker.addStore, Code.wellFormedAfter, Code.opensAfter]

/-- **When the generated deserializer is well formed**: a strict struct needs a field of its own. -/
theorem wellFormed_iff (h : d.toStruct.Bound) : (genBsonDeserializerMethods d).WellFormed ↔
    (d.toStruct.strict = true → d.isCommand = true ∨ d.toStruct.own ≠ []) := by
  have hrest : (chainedParsers d.toStruct.parsedAfter ++
      (finalChecks d ++ genCommandDeserializer d)).WellFormed :=
    (wellFormed_chainedParsers _).append
      ((wellFormed_finalChecks d).append (wellFormed_genCommandDeserializer d))
  have hprologue : (prologue d).wellFormedAfter false = true := wellFormed_prologue d
  rw [genBsonDeserializerMethods_eq h, ← wellFormed_loopBody, Code.WellFormed,
    Code.wellFormedAfter_append, hprologue, Bool.true_and, Code.wellFormedAfter, hrest,
    Bool.and_true]
  rfl

/-! ## Names -/

/-- A name of the class, or of its parser. -/
inductive Symbol
  | member (name : String)
  | has (name : String)
  | validator (name : String)
  | bit (name : String)
  deriving DecidableEq

/-- The names that a line uses. -/
def Action.symbols : Action → List Symbol
  | .setBit f => [.bit f.name]
  | .setHas f => [.has f.name]
  | .assign f _ => [.member f.name]
  | .assignValidated f _ => [.validator f.name, .member f.name]
  | .assignChained f => [.member f.name]
  | .assignChainedValidated f => [.validator f.name, .member f.name]
  | .callSetter outer _ _ => [.member outer]
  | _ => []

/-- The names that a line declares. -/
def Action.declares : Action → List Symbol
  | .declareBit f _ => [.bit f.name]
  | _ => []

/-- What `generate` of the header writer declares for the class: members, flags and validators. -/
def declared (d : Ast.Definition) : List Symbol :=
  d.commandField.toList.map (fun f => .member f.name) ++
  ((d.toStruct.fields.filter fun f => !f.ignore && f.chainedStructField.isNone).map fun f =>
    .member f.name) ++
  ((d.toStruct.fields.filter Ast.Field.isRequiredSerializerField).map fun f => .has f.name) ++
  ((d.toStruct.fields.filter fun f => !f.ignore && !d.toStruct.immutable &&
    f.chainedStructField.isNone && f.validator.isSome).map fun f => .validator f.name)

/-- The parser names only what it or the header declares. -/
def WellScoped (d : Ast.Definition) : Prop :=
  ∀ a ∈ (genBsonDeserializerMethods d).acts, ∀ x ∈ a.symbols,
    x ∈ declared d ++ (genBsonDeserializerMethods d).acts.flatMap Action.declares

instance : DecidablePred WellScoped := fun _ => by unfold WellScoped; infer_instance

/-- The value of the field is validated before it is assigned. -/
def Validated (struct : Ast.Struct) (f : Ast.Field) : Prop :=
  f ∈ struct.fields ∧ f.ignore = false ∧ f.array = false ∧ f.chainedStructField = none ∧
    f.validator.isSome = true ∧ (f.chained = true → f ∈ struct.parsedAfter)

/-- The default of the field is assigned to a member that belongs to a chained struct. -/
def Misplaced (struct : Ast.Struct) (f : Ast.Field) : Prop :=
  f ∈ struct.own ∧ f.optional = false ∧ f.ignore = false ∧ f.hasDefault = true ∧
    f.chainedStructField.isSome = true

/-! ### What each part uses -/

/-- The names that the code uses. -/
def uses (c : Lines) : List Symbol := c.acts.flatMap Action.symbols

/-- The member that the value of a field is assigned to, or whose setter takes it. -/
def target (f : Ast.Field) : Symbol := .member (f.chainedStructField.getD f.name)

/-- The names in the deserializer of a field. -/
def Names (f : Ast.Field) (x : Symbol) : Prop :=
  x = target f ∨ f.array = false ∧ f.chainedStructField = none ∧ f.validator.isSome = true ∧
    x = .validator f.name

variable {f : Ast.Field} {x : Symbol}

@[simp] theorem uses_nil : uses .nil = [] := rfl

@[simp] theorem uses_append (c c' : Lines) : uses (c ++ c') = uses c ++ uses c' := by
  rw [uses, Code.acts_append, List.flatMap_append]
  rfl

@[simp] theorem uses_act (a : Action) (c : Lines) : uses (.act a c) = a.symbols ++ uses c := rfl

@[simp] theorem uses_line (a : Action) : uses (.line a) = a.symbols := List.append_nil _

@[simp] theorem uses_block (h : Head Cond Range) (body c : Lines) :
    uses (.block h body c) = uses body ++ uses c := List.flatMap_append

@[simp] theorem uses_wrap (h : Head Cond Range) (body : Lines) : uses (.wrap h body) = uses body :=
  (uses_block h body .nil).trans (List.append_nil _)

@[simp] theorem uses_predicate (c : Option Cond) (b : Bool) (body : Lines) :
    uses (predicate c b body) = uses body := by
  cases c with
  | none => rfl
  | some c => exact uses_wrap _ body

theorem mem_uses_bitUsage {fast : Bool} :
    x ∈ uses (bitUsage fast f) ↔ fast = true ∧ x = .bit f.name := by
  cases fast <;> simp [bitUsage, Action.symbols]

theorem mem_uses_hasUsage :
    x ∈ uses (hasUsage f) ↔ f.isRequiredSerializerField = true ∧ x = .has f.name := by
  unfold hasUsage
  cases f.isRequiredSerializerField <;> simp [Action.symbols]

theorem mem_uses_genArrayDeserializer {y : Operand} :
    x ∈ uses (genArrayDeserializer f y) ↔ x = target f := by
  unfold genArrayDeserializer target
  cases f.chainedStructField <;> simp [Action.symbols]

theorem mem_uses_genFieldDeserializer {y : Operand} {checker : Option Checker}
    (hf : f.chained = true → f.chainedStructField = none) :
    x ∈ uses (genFieldDeserializer f y checker).1 ↔
      x ∈ uses (genUsageCheck f checker).1 ∨ Names f x := by
  rw [genFieldDeserializer_fst, Names]
  cases harray : f.array with
  | true => simp [mem_uses_genArrayDeserializer]
  | false =>
    cases hc : f.chained with
    | true =>
      rw [if_neg Bool.false_ne_true, if_pos rfl, target, hf hc]
      cases f.validator <;> simp [Action.symbols, or_comm]
    | false =>
      rw [if_neg Bool.false_ne_true, if_neg Bool.false_ne_true, target]
      cases f.chainedStructField with
      | some outer => simp [Action.symbols]
      | none => cases hv : f.validator <;> simp [Action.symbols, validateAndAssignOrUassert, hv,
          or_comm]

theorem mem_uses_fieldBody {fast : Bool} (hf : f.chained = true → f.chainedStructField = none) :
    x ∈ uses (fieldBody fast f) ↔ (fast = true ∧ x = .bit f.name) ∨
      (f.ignore = false ∧ (f.isRequiredSerializerField = true ∧ x = .has f.name ∨ Names f x)) := by
  unfold fieldBody genField
  cases f.ignore with
  | true =>
    rw [if_pos rfl]
    show x ∈ uses ((Checker.add { fast } f).1 ++ _) ↔ _
    rw [add_eq]
    simp [mem_uses_bitUsage, Action.symbols]
  | false =>
    rw [if_neg Bool.false_ne_true]
    show x ∈ uses (genFieldDeserializer f .element (some { fast })).1 ↔ _
    rw [mem_uses_genFieldDeserializer hf, genUsageCheck_some]
    simp [mem_uses_bitUsage, mem_uses_hasUsage, or_assoc]

theorem mem_uses_branches {bs : List (Cond × Lines)} (first : Bool) :
    x ∈ uses (Code.branches first bs) ↔ ∃ b ∈ bs, x ∈ uses b.2 := by
  induction bs generalizing first with
  | nil => simp [Code.branches]
  | cons b bs ih => simp [Code.branches, ih]

theorem mem_uses_loopBody : x ∈ uses (loopBody d) ↔
    ∃ f ∈ d.toStruct.own, x ∈ uses (fieldBody d.toStruct.strict f) := by
  have hfirst : uses (genFirstField d) = [] := by
    unfold genFirstField
    cases d.keepsElement <;> rfl
  have hstore : uses ({ fast := d.toStruct.strict } : Checker).addStore = [] := by
    cases d.toStruct.strict <;> rfl
  have hcheck : uses (genStrictCheck d) = [] := by
    unfold genStrictCheck
    cases d.toStruct.strict
    · rfl
    · rw [if_pos rfl, uses_wrap, uses_predicate]
      rfl
  unfold loopBody
  cases d.isCommand <;> simp [hfirst, hstore, hcheck, mem_uses_branches]

theorem mem_uses_chainedParsers {fs : List Ast.Field}
    (hfs : ∀ f ∈ fs, f.chained = true → f.chainedStructField = none) :
    x ∈ uses (chainedParsers fs) ↔ ∃ f ∈ fs, Names f x := by
  induction fs with
  | nil => simp [chainedParsers]
  | cons f fs ih =>
    show x ∈ uses ((genFieldDeserializer f .element none).1 ++ chainedParsers fs) ↔ _
    rw [uses_append, List.mem_append, mem_uses_genFieldDeserializer (hfs f List.mem_cons_self),
      ih fun g hg => hfs g (List.mem_cons_of_mem f hg)]
    simp [genUsageCheck]

theorem mem_uses_missing {checker : Checker} : x ∈ uses (missing checker f) ↔
    f.hasDefault = true ∧ x = if checker.fast then target f else .member f.name := by
  unfold missing target
  cases f.hasDefault with
  | false => simp [Action.symbols]
  | true => cases checker.fast <;> cases f.chainedStructField <;> simp [Action.symbols]

theorem mem_uses_foldr_checks {checker : Checker} {p : Ast.Field → Bool}
    {check : Ast.Field → Cond} {fs : List Ast.Field} :
    x ∈ uses (fs.foldr (fun f rest => if p f then .block (.cond (check f)) (missing checker f) rest
      else rest) Code.nil) ↔ ∃ f ∈ fs, p f = true ∧ x ∈ uses (missing checker f) := by
  induction fs with
  | nil => simp
  | cons f fs ih =>
    rw [List.foldr_cons]
    cases hp : p f <;> simp [ih, hp]

theorem mem_uses_finalChecks : x ∈ uses (finalChecks d) ↔
    ∃ f ∈ d.toStruct.own, f.optional = false ∧ f.ignore = false ∧ f.hasDefault = true ∧
      x = if d.toStruct.strict then target f else .member f.name := by
  have hown : ∀ f ∈ d.toStruct.own, f.chained = false := fun f hf => by
    simpa using (List.mem_filter.mp hf).2
  unfold finalChecks Checker.addFinalChecks
  cases d.toStruct.strict with
  | true =>
    rw [if_pos rfl, uses_wrap, mem_uses_foldr_checks]
    simp [mem_uses_missing, and_assoc]
  | false =>
    rw [if_neg Bool.false_ne_true, mem_uses_foldr_checks]
    refine exists_congr fun f => and_congr_right fun hf => ?_
    simp [mem_uses_missing, hown f hf, and_assoc]

theorem mem_uses_genCommandDeserializer (h : d.Bound) : x ∈ uses (genCommandDeserializer d) ↔
    ∃ c, d.commandField = some c ∧ x = .member c.name := by
  unfold genCommandDeserializer
  cases hc : d.commandField with
  | none => simp [apply_ite uses, Action.symbols]
  | some c =>
    obtain ⟨hchained, hnone, hvalidator, -⟩ := h.commandField c hc
    rw [uses_wrap, mem_uses_genFieldDeserializer fun _ => hnone]
    simp [genUsageCheck, Names, target, hnone, hvalidator]

/-! ### What is declared -/

theorem member_mem_declared {name : String} : Symbol.member name ∈ declared d ↔
    (∃ c, d.commandField = some c ∧ c.name = name) ∨
      ∃ f ∈ d.toStruct.fields, (f.ignore = false ∧ f.chainedStructField = none) ∧ f.name = name := by
  simp [declared, and_assoc]

theorem has_mem_declared {name : String} : Symbol.has name ∈ declared d ↔
    ∃ f ∈ d.toStruct.fields, f.isRequiredSerializerField = true ∧ f.name = name := by
  simp [declared, and_assoc]

theorem validator_mem_declared {name : String} : Symbol.validator name ∈ declared d ↔
    ∃ f ∈ d.toStruct.fields, (f.ignore = false ∧ d.toStruct.immutable = false ∧
      f.chainedStructField = none ∧ f.validator.isSome = true) ∧ f.name = name := by
  simp [declared, and_assoc]

theorem bit_mem_declareBits {fs : List Ast.Field} (bit : ℕ) (hf : f ∈ fs)
    (hchained : f.chained = false) :
    Symbol.bit f.name ∈ (declareBits bit fs).acts.flatMap Action.declares := by
  induction fs generalizing bit with
  | nil => cases hf
  | cons g fs ih =>
    rw [declareBits]
    obtain rfl | hf := List.mem_cons.mp hf
    · rw [if_neg (by rw [hchained]; exact Bool.false_ne_true)]
      exact List.mem_cons_self
    · split_ifs
      · exact ih bit hf
      · exact List.mem_cons_of_mem _ (ih (bit + 1) hf)

/-- The parser itself declares nothing but bits. -/
theorem exists_bit_of_declares {a : Action} (hx : x ∈ a.declares) : ∃ name, x = .bit name := by
  cases a with
  | declareBit g bit => exact ⟨g.name, List.mem_singleton.mp hx⟩
  | _ => cases hx

theorem bit_mem_declares (h : d.Bound) (hs : d.toStruct.strict = true) (hf : f ∈ d.toStruct.own) :
    Symbol.bit f.name ∈ (genBsonDeserializerMethods d).acts.flatMap Action.declares := by
  obtain ⟨hf, hchained⟩ := List.mem_filter.mp hf
  have hbit := bit_mem_declareBits 0 hf (by simpa using hchained)
  rw [genBsonDeserializerMethods_eq h.struct, Code.acts_append, List.flatMap_append,
    List.mem_append, prologue, Code.acts_append, List.flatMap_append, List.mem_append]
  refine .inl (.inl ?_)
  unfold getFieldUsageChecker
  rw [if_pos hs]
  exact hbit

/-- The member of a field that is not ignored is declared, here or as a chained struct. -/
theorem target_mem_declared (h : d.Bound) (hf : f ∈ d.toStruct.fields) (hignore : f.ignore = false) :
    target f ∈ declared d := by
  unfold target
  cases ho : f.chainedStructField with
  | none => exact member_mem_declared.mpr (.inr ⟨f, hf, ⟨hignore, ho⟩, rfl⟩)
  | some outer =>
    obtain ⟨c, hc, hname, hchained⟩ := h.struct.outer f hf outer ho
    exact member_mem_declared.mpr (.inr ⟨c, hc, h.struct.chained c hc hchained, hname⟩)

theorem mem_uses_genBsonDeserializerMethods (h : d.Bound) :
    x ∈ uses (genBsonDeserializerMethods d) ↔
      (∃ f ∈ d.toStruct.own, x ∈ uses (fieldBody d.toStruct.strict f)) ∨
      (∃ f ∈ d.toStruct.parsedAfter, Names f x) ∨ x ∈ uses (finalChecks d) ∨
      ∃ c, d.commandField = some c ∧ x = .member c.name := by
  have hbits : ∀ bit fs, uses (declareBits bit fs) = [] := by
    intro bit fs
    induction fs generalizing bit with
    | nil => rfl
    | cons f fs ih =>
      rw [declareBits]
      split_ifs
      · exact ih bit
      · exact ih (bit + 1)
  have hprologue : uses (prologue d) = [] := by
    unfold prologue getFieldUsageChecker
    cases d.toStruct.strict <;> cases d.isCommand <;> simp [hbits, Action.symbols]
  have hchained : ∀ f ∈ d.toStruct.parsedAfter, f.chained = true → f.chainedStructField = none :=
    fun f hf hc => (h.struct.chained f (List.mem_of_mem_filter hf) hc).2
  rw [genBsonDeserializerMethods_eq h.struct, uses_append, hprologue, List.nil_append, uses_block,
    uses_append, uses_append, List.mem_append, List.mem_append, List.mem_append, mem_uses_loopBody,
    mem_uses_chainedParsers hchained, mem_uses_genCommandDeserializer h]

theorem names_mem_declared (h : d.Bound) (hf : f ∈ d.toStruct.fields) (hignore : f.ignore = false)
    (hafter : f.chained = true → f ∈ d.toStruct.parsedAfter)
    (himmutable : ∀ f, Validated d.toStruct f → d.toStruct.immutable = false) (hx : Names f x) :
    x ∈ declared d := by
  obtain rfl | ⟨harray, hnone, hvalidator, rfl⟩ := hx
  · exact target_mem_declared h hf hignore
  · have hvalid := himmutable f ⟨hf, hignore, harray, hnone, hvalidator, hafter⟩
    exact validator_mem_declared.mpr ⟨f, hf, ⟨hignore, hvalid, hnone, hvalidator⟩, rfl⟩

/-- **When the parser names only what is declared**: an immutable struct must not validate a field,
and a struct that is not strict must not have a default in a chained struct. -/
theorem wellScoped_iff (h : d.Bound) : WellScoped d ↔
    (∀ f, Validated d.toStruct f → d.toStruct.immutable = false) ∧
      (d.toStruct.strict = false → ∀ f, ¬ Misplaced d.toStruct f) := by
  have hscoped : WellScoped d ↔ ∀ x ∈ uses (genBsonDeserializerMethods d), x ∈ declared d ++
      (genBsonDeserializerMethods d).acts.flatMap Action.declares := by
    simp only [WellScoped, uses, List.mem_flatMap]
    exact ⟨fun hw x ⟨a, ha, hx⟩ => hw a ha x hx, fun hw a ha x hx => hw x ⟨a, ha, hx⟩⟩
  -- A name that is no bit is declared by the header.
  have hheader : WellScoped d → ∀ x ∈ uses (genBsonDeserializerMethods d),
      (∀ name, x ≠ .bit name) → x ∈ declared d := by
    intro hw x hx hbit
    refine (List.mem_append.mp (hscoped.mp hw x hx)).resolve_right fun hx => ?_
    obtain ⟨a, -, hx⟩ := List.mem_flatMap.mp hx
    obtain ⟨name, rfl⟩ := exists_bit_of_declares hx
    exact hbit name rfl
  have hown : ∀ f ∈ d.toStruct.own, f ∈ d.toStruct.fields ∧ f.chained = false := fun f hf =>
    ⟨List.mem_of_mem_filter hf, by simpa using (List.mem_filter.mp hf).2⟩
  constructor
  · intro hw
    constructor
    · rintro f ⟨hf, hignore, harray, hnone, hvalidator, hafter⟩
      have hnames : Names f (.validator f.name) := .inr ⟨harray, hnone, hvalidator, rfl⟩
      have huse : Symbol.validator f.name ∈ uses (genBsonDeserializerMethods d) := by
        rw [mem_uses_genBsonDeserializerMethods h]
        cases hc : f.chained with
        | true => exact .inr (.inl ⟨f, hafter hc, hnames⟩)
        | false =>
          have hmem : f ∈ d.toStruct.own := List.mem_filter.mpr ⟨hf, by rw [hc]; rfl⟩
          exact .inl ⟨f, hmem, (mem_uses_fieldBody fun _ => hnone).mpr
            (.inr ⟨hignore, .inr hnames⟩)⟩
      obtain ⟨_, -, ⟨-, himmutable, -⟩, -⟩ :=
        validator_mem_declared.mp (hheader hw _ huse fun _ => Symbol.noConfusion)
      exact himmutable
    · rintro hs f ⟨hf, hoptional, hignore, hdefault, hsome⟩
      have huse : Symbol.member f.name ∈ uses (genBsonDeserializerMethods d) := by
        rw [mem_uses_genBsonDeserializerMethods h, mem_uses_finalChecks, hs]
        exact .inr (.inr (.inl ⟨f, hf, hoptional, hignore, hdefault, rfl⟩))
      have hmem := (hown f hf).1
      obtain ⟨c, hc, hname⟩ | ⟨g, hg, ⟨-, hnone⟩, hname⟩ :=
        member_mem_declared.mp (hheader hw _ huse fun _ => Symbol.noConfusion)
      · exact (h.commandField c hc).2.2.2 (hname ▸ List.mem_map_of_mem hmem)
      · rw [List.inj_on_of_nodup_map h.struct.nodup hg hmem hname] at hnone
        rw [hnone] at hsome
        cases hsome
  · rintro ⟨himmutable, hdefault⟩
    rw [hscoped]
    intro x hx
    rw [mem_uses_genBsonDeserializerMethods h] at hx
    obtain ⟨f, hf, hx⟩ | ⟨f, hf, hx⟩ | hx | ⟨c, hc, rfl⟩ := hx
    · obtain ⟨hmem, hchained⟩ := hown f hf
      have hnotChained : ∀ {p : Prop}, f.chained = true → p := fun hc => by
        rw [hchained] at hc
        cases hc
      obtain ⟨hs, rfl⟩ | ⟨hignore, ⟨hrequired, rfl⟩ | hx⟩ := (mem_uses_fieldBody hnotChained).mp hx
      · exact List.mem_append_right _ (bit_mem_declares h hs hf)
      · exact List.mem_append_left _ (has_mem_declared.mpr ⟨f, hmem, hrequired, rfl⟩)
      · exact List.mem_append_left _
          (names_mem_declared h hmem hignore hnotChained himmutable hx)
    · have hmem := List.mem_of_mem_filter hf
      have hchained : f.chained = true := by
        have hp := (List.mem_filter.mp hf).2
        exact (Bool.and_eq_true_iff.mp hp).1
      exact List.mem_append_left _ (names_mem_declared h hmem
        (h.struct.chained f hmem hchained).1 (fun _ => hf) himmutable hx)
    · obtain ⟨f, hf, hoptional, hignore, hd, rfl⟩ := mem_uses_finalChecks.mp hx
      obtain ⟨hmem, -⟩ := hown f hf
      have htarget := target_mem_declared h hmem hignore
      refine List.mem_append_left _ ?_
      cases hs : d.toStruct.strict with
      | true => exact htarget
      | false =>
        have hnone : f.chainedStructField = none := by
          by_contra hsome
          exact hdefault hs f ⟨hf, hoptional, hignore, hd, Option.isSome_iff_ne_none.mpr hsome⟩
        rwa [target, hnone] at htarget
    · exact List.mem_append_left _ (member_mem_declared.mpr (.inl ⟨c, hc, rfl⟩))

/-- A strict struct with a field of its own and one of a chained struct. -/
def sampleStruct : Ast.Struct where
  loc := ⟨"sample.idl", 1, 1⟩
  name := "sample"
  cppName := "sample"
  description := none
  strict := true
  immutable := false
  inlineChainedStructs := true
  generateComparisonOperators := false
  fields := [
    { loc := ⟨"sample.idl", 2, 1⟩, name := "inner", chained := true, structType := some "inner",
      bsonSerializationType := some ["object"] },
    { loc := ⟨"sample.idl", 3, 1⟩, name := "a", chainedStructField := some "inner", default := some "1",
      bsonSerializationType := some ["int"] },
    { loc := ⟨"sample.idl", 4, 1⟩, name := "b", validator := some { loc := ⟨"sample.idl", 4, 5⟩ },
      bsonSerializationType := some ["int"] }]

theorem sampleStruct_bound : (Ast.Definition.struct sampleStruct).Bound where
  struct := by
    refine ⟨by decide, by decide, by decide, ?_⟩
    simp [Ast.Definition.toStruct, sampleStruct]
  commandField := fun _ h => nomatch h

end MongoTests.Idl.Generator
