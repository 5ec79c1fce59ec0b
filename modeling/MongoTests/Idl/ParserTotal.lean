import MongoTests.Idl.ParserComplete
import MongoTests.Lib.Checked

/-!
# The exceptions of the parser

A document makes `_parse` raise exactly when the value of a field, a chained type or a chained
struct is a sequence with items: `_parse_fields` and its kin hand every node that is no scalar to
the generic parser, which goes through its pairs.

* `firstEntries`: the entries that a loop over keys handles.
* `raises_forKeys`, `raises_genericParser`: the exceptions of a loop are those of its rounds.
* `Malformed`: the documents that make the parser raise.
* **`parseDocument_total_iff`**: all other documents give a spec or errors.
-/

namespace MongoTests.Idl

open MongoTests.Lib Report

/-! ## Loops -/

section Loops

variable {σ : Type} {ctxt : ParserContext}

/-- The entries whose key is neither in `seen` nor that of an earlier entry. -/
def firstEntries : List String → List (Key × Node) → List (Key × Node)
  | _, [] => []
  | seen, e :: rest =>
    if e.1.value ∈ seen then firstEntries seen rest
    else e :: firstEntries (e.1.value :: seen) rest

theorem raises_forKeys {f : σ → Key → Node → Pass σ} {R : Key → Node → Prop}
    (h : ∀ s k n, Raises (f s k n) ↔ R k n) (seen : List String) (s : σ) (l : List (Key × Node)) :
    Raises (forKeys ctxt f seen s l) ↔ ∃ e ∈ firstEntries seen l, R e.1 e.2 := by
  induction l generalizing seen s with
  | nil => simp [forKeys, firstEntries]
  | cons e rest ih =>
    obtain ⟨k, n⟩ := e
    rw [forKeys, firstEntries]
    split_ifs with hk
    · rw [raises_bind_right (not_raises_log _) fun _ => ih seen s]
    · rw [raises_bind_iff fun s' => ih (k.value :: seen) s', h]
      simp

end Loops

/-! ## The checks of the context -/

section Checks

variable {ctxt : ParserContext}

/-- A check that fails reports its error. -/
theorem not_raises_log_then {α : Type} (e : ParserError) (a : α) :
    ¬ Raises (do log e; pure a : Pass α) :=
  not_raises_bind (not_raises_log e) fun _ => not_raises_pure a

theorem not_raises_scalarNode (node : Node) (name : String) :
    ¬ Raises (ctxt.scalarNode node name) := by
  cases node with
  | scalar m v => exact not_raises_pure _
  | _ => exact not_raises_log_then _ _

theorem not_raises_boolNode (node : Node) (name : String) : ¬ Raises (ctxt.boolNode node name) := by
  unfold ParserContext.boolNode
  split
  · exact not_raises_pure _
  · exact not_raises_pure _
  · exact not_raises_log_then _ _
  · exact not_raises_log_then _ _

theorem not_raises_nonNegativeIntNode (node : Node) (name : String) :
    ¬ Raises (ctxt.nonNegativeIntNode node name) := by
  unfold ParserContext.nonNegativeIntNode
  split
  · split
    · exact not_raises_log_then _ _
    · split_ifs
      · exact not_raises_log_then _ _
      · exact not_raises_pure _
  · exact not_raises_log_then _ _

theorem not_raises_scalarItems (name : String) (items : List Node) :
    ¬ Raises (ctxt.scalarItems name items) := by
  induction items with
  | nil => exact not_raises_pure _
  | cons node rest ih =>
    refine not_raises_bind (not_raises_scalarNode node name) fun v => ?_
    cases v with
    | none => exact not_raises_pure _
    | some v => exact not_raises_bind ih fun _ => not_raises_pure _

theorem not_raises_scalarSequence (node : Node) (name : String) :
    ¬ Raises (ctxt.scalarSequence node name) := by
  cases node with
  | sequence m items => exact not_raises_scalarItems name items
  | _ => exact not_raises_log_then _ _

theorem not_raises_scalarOrSequence (node : Node) (name : String) :
    ¬ Raises (ctxt.scalarOrSequence node name) := by
  cases node with
  | scalar m v => exact not_raises_pure _
  | sequence m items => exact not_raises_scalarSequence (.sequence m items) name
  | mapping m es => exact not_raises_log_then _ _

end Checks

/-! ## The generic parser -/

section Generic

variable {σ : Type} {ctxt : ParserContext} {rules : Rules σ}

/-- The parser of a rule is called on the node, and raises. -/
def Rule.Raising (rule : Rule σ) (node : Node) : Prop :=
  match rule, node with
  | .scalarOrMapping parse, .scalar _ _ | .scalarOrMapping parse, .mapping _ _ => Raises (parse node)
  | .mapping parse, .mapping _ _ => Raises (parse node)
  | _, _ => False

theorem raises_apply (rule : Rule σ) (name : String) (node : Node) (s : σ) :
    Raises (rule.apply ctxt name node s) ↔ rule.Raising node := by
  cases rule with
  | scalar set =>
    exact iff_of_false (not_raises_bind (not_raises_scalarNode _ _) fun _ => not_raises_pure _) id
  | boolScalar set =>
    exact iff_of_false (not_raises_bind (not_raises_boolNode _ _) fun _ => not_raises_pure _) id
  | intScalar set =>
    exact iff_of_false (not_raises_bind (not_raises_nonNegativeIntNode _ _)
      fun _ => not_raises_pure _) id
  | scalarOrSequence set =>
    exact iff_of_false (not_raises_bind (not_raises_scalarOrSequence _ _)
      fun _ => not_raises_pure _) id
  | scalarOrMapping parse =>
    cases node with
    | sequence m items => exact iff_of_false (not_raises_log_then _ _) id
    | _ => exact raises_bind_left fun _ => not_raises_pure _
  | mapping parse =>
    cases node with
    | mapping m es => exact raises_bind_left fun _ => not_raises_pure _
    | _ => exact iff_of_false (not_raises_log_then _ _) id

/-- A rule for one of the keys raises. -/
def Rules.Raising (rules : Rules σ) (entries : List (Key × Node)) : Prop :=
  ∃ e ∈ firstEntries [] entries, ∃ desc, rules.lookup e.1.value = some desc ∧ desc.rule.Raising e.2

/-- The exceptions of the generic parser, once it has the pairs of the node. -/
theorem raises_rounds (m : Mark) (entries : List (Key × Node)) (name : String) (s : σ) :
    Raises (genericParser ctxt (.mapping m entries) name s rules) ↔ rules.Raising entries := by
  rw [genericParser, Node.entries, Report.pure_bind, raises_bind_left fun s => not_raises_of _]
  refine raises_forKeys
    (R := fun k n => ∃ desc, rules.lookup k.value = some desc ∧ desc.rule.Raising n) ?_ [] s entries
  intro s k n
  cases rules.lookup k.value with
  | none => simp [not_raises_log_then]
  | some desc => simp [raises_apply]

/-- A sequence with items, which has no pairs. -/
def Node.IsItems (node : Node) : Prop := ∃ m item items, node = .sequence m (item :: items)

/-- **The exceptions of the generic parser** on a node that is no scalar. -/
theorem raises_genericParser {node : Node} (hnode : ∀ m v, node ≠ .scalar m v) (name : String)
    (s : σ) : Raises (genericParser ctxt node name s rules) ↔
      node.IsItems ∨ ∃ m entries, node = .mapping m entries ∧ rules.Raising entries := by
  cases node with
  | scalar m v => exact absurd rfl (hnode m v)
  | mapping m entries =>
    rw [raises_rounds]
    constructor
    · exact fun h => .inr ⟨m, entries, rfl, h⟩
    · rintro (⟨_, _, _, h⟩ | ⟨_, _, h, hr⟩)
      · cases h
      · cases h
        exact hr
  | sequence m items =>
    cases items with
    | nil =>
      refine iff_of_false ?_ ?_
      · rw [genericParser, Node.entries, Report.pure_bind]
        exact not_raises_bind (not_raises_pure s) fun _ => not_raises_of _
      · rintro (⟨_, _, _, h⟩ | ⟨_, _, h, -⟩) <;> cases h
    | cons item items => exact iff_of_true ⟨_, rfl⟩ (.inl ⟨m, item, items, rfl⟩)

/-- A rule whose parser never raises. -/
def Rule.Total (rule : Rule σ) : Prop := ∀ node, ¬ rule.Raising node

/-- Rules whose parsers never raise. -/
def Rules.Total (rules : Rules σ) : Prop := ∀ e ∈ rules, e.2.rule.Total

@[simp] theorem Rule.total_scalar (set : String → σ → σ) : (Rule.scalar set).Total := fun _ => id

@[simp] theorem Rule.total_boolScalar (set : Bool → σ → σ) : (Rule.boolScalar set).Total :=
  fun _ => id

@[simp] theorem Rule.total_intScalar (set : Int → σ → σ) : (Rule.intScalar set).Total := fun _ => id

@[simp] theorem Rule.total_scalarOrSequence (set : List String → σ → σ) :
    (Rule.scalarOrSequence set).Total := fun _ => id

theorem Rule.total_ofScalarOrMapping {α : Type} {parse : Node → Pass α} (set : α → σ → σ)
    (hs : ∀ m v, ¬ Raises (parse (.scalar m v)))
    (hm : ∀ m entries, ¬ Raises (parse (.mapping m entries))) :
    (Rule.ofScalarOrMapping parse set).Total := by
  intro node
  cases node with
  | scalar m v => exact not_raises_bind (hs m v) fun _ => not_raises_pure _
  | sequence m items => exact id
  | mapping m entries => exact not_raises_bind (hm m entries) fun _ => not_raises_pure _

theorem Rule.total_ofMapping {α : Type} {parse : Node → Pass α} (set : α → σ → σ)
    (h : ∀ m entries, ¬ Raises (parse (.mapping m entries))) :
    (Rule.ofMapping parse set).Total := by
  intro node
  cases node with
  | mapping m entries => exact not_raises_bind (h m entries) fun _ => not_raises_pure _
  | _ => exact id

@[simp] theorem Rules.total_nil : Rules.Total ([] : Rules σ) := fun _ he => absurd he List.not_mem_nil

@[simp] theorem Rules.total_cons {name : String} {desc : RuleDesc σ} :
    Rules.Total ((name, desc) :: rules) ↔ desc.rule.Total ∧ Rules.Total rules :=
  List.forall_mem_cons

theorem Rules.Total.not_raising (h : Rules.Total rules) (entries : List (Key × Node)) :
    ¬ rules.Raising entries := by
  rintro ⟨e, -, desc, hdesc, hr⟩
  obtain ⟨l₁, l₂, rfl, -⟩ := List.lookup_eq_some_iff.mp hdesc
  exact h (e.1.value, desc) (List.mem_append_right _ List.mem_cons_self) e.2 hr

theorem Rules.Total.not_raises (h : Rules.Total rules) (m : Mark) (entries : List (Key × Node))
    (name : String) (s : σ) : ¬ Raises (genericParser ctxt (.mapping m entries) name s rules) := by
  rw [raises_rounds]
  exact h.not_raising entries

end Generic

/-! ## The parts that never raise -/

section Parts

variable {ctxt : ParserContext}

@[simp] theorem total_initializer {σ : Type} (set : GlobalInitializer → σ → σ) :
    (Rule.ofScalarOrMapping (parseInitializer ctxt) set).Total :=
  Rule.total_ofScalarOrMapping set (fun _ _ => not_raises_pure _)
    fun m entries => Rules.Total.not_raises (by simp) m entries _ _

@[simp] theorem total_expression {σ : Type} (set : Expression → σ → σ) :
    (Rule.ofScalarOrMapping (parseExpression ctxt) set).Total :=
  Rule.total_ofScalarOrMapping set (fun _ _ => not_raises_pure _)
    fun m entries => Rules.Total.not_raises (by simp) m entries _ _

@[simp] theorem total_serverParameterClass {σ : Type} (set : ServerParameterClass → σ → σ) :
    (Rule.ofScalarOrMapping (parseServerParameterClass ctxt) set).Total :=
  Rule.total_ofScalarOrMapping set (fun _ _ => not_raises_pure _)
    fun m entries => Rules.Total.not_raises (by simp) m entries _ _

@[simp] theorem total_validator {σ : Type} (set : Validator → σ → σ) :
    (Rule.ofMapping (parseValidator ctxt) set).Total :=
  Rule.total_ofMapping set fun m entries => Rules.Total.not_raises (by simp) m entries _ _

@[simp] theorem total_condition {σ : Type} (set : Condition → σ → σ) :
    (Rule.ofMapping (parseCondition ctxt) set).Total :=
  Rule.total_ofMapping set fun m entries => Rules.Total.not_raises (by simp) m entries _ _

@[simp] theorem total_configGlobal {σ : Type} (set : ConfigGlobal → σ → σ) :
    (Rule.ofMapping (parseConfigGlobal ctxt) set).Total :=
  Rule.total_ofMapping set fun m entries => Rules.Total.not_raises (by simp) m entries _ _

theorem not_raises_addEnumValue (node : Node) (values : List EnumValue) (k : Key) (second : Node) :
    ¬ Raises (addEnumValue ctxt node values k second) := by
  refine not_raises_bind (not_raises_scalarNode second k.value) fun v => ?_
  cases v <;> exact not_raises_pure _

@[simp] theorem total_enumValues {σ : Type} (set : List EnumValue → σ → σ) :
    (Rule.ofMapping (parseEnumValues ctxt) set).Total := by
  refine Rule.total_ofMapping set fun m entries => ?_
  rw [parseEnumValues, Node.entries, Report.pure_bind,
    raises_forKeys fun values k n => iff_false_intro (not_raises_addEnumValue _ values k n)]
  rintro ⟨-, -, h⟩
  exact h

theorem total_fieldRules : (fieldRules ctxt).Total := by
  simp [fieldRules]

theorem total_globalRules : (globalRules ctxt).Total := by
  simp [globalRules]

theorem total_typeRules : typeRules.Total := by
  simp [typeRules]

theorem total_enumRules : (enumRules ctxt).Total := by
  simp [enumRules]

theorem total_serverParameterRules : (serverParameterRules ctxt).Total := by
  simp [serverParameterRules]

theorem total_configOptionRules : (configOptionRules ctxt).Total := by
  simp [configOptionRules]

end Parts

/-! ## Lists of fields and of chained items -/

section Lists

variable {σ : Type} {ctxt : ParserContext}

/-- A mapping with a value that is a sequence with items. -/
def Node.HasItems (node : Node) : Prop :=
  ∃ m entries, node = .mapping m entries ∧ ∃ e ∈ firstEntries [] entries, e.2.IsItems

theorem Node.hasItems_mapping {m : Mark} {entries : List (Key × Node)} :
    (Node.mapping m entries).HasItems ↔ ∃ e ∈ firstEntries [] entries, e.2.IsItems := by
  constructor
  · rintro ⟨_, _, h, hitems⟩
    cases h
    exact hitems
  · exact fun h => ⟨m, entries, rfl, h⟩

/-- With total rules, the generic parser raises on a sequence with items only. -/
theorem Rules.Total.raises_iff {rules : Rules σ} (h : rules.Total) {node : Node}
    (hnode : ∀ m v, node ≠ .scalar m v) (name : String) (s : σ) :
    Raises (genericParser ctxt node name s rules) ↔ node.IsItems := by
  rw [raises_genericParser hnode]
  refine ⟨?_, Or.inl⟩
  rintro (hi | ⟨m, entries, -, hr⟩)
  · exact hi
  · exact absurd hr (h.not_raising entries)

theorem not_isItems_scalar (m : Mark) (v : String) : ¬ (Node.scalar m v).IsItems := by
  rintro ⟨_, _, _, h⟩
  cases h

theorem raises_addField (node : Node) (fields : List Field) (k : Key) (second : Node) :
    Raises (addField ctxt node fields k second) ↔ second.IsItems := by
  cases second with
  | scalar m v => exact iff_of_false (not_raises_pure _) (not_isItems_scalar m v)
  | _ =>
    refine (raises_bind_left fun _ => not_raises_pure _).trans ?_
    exact total_fieldRules.raises_iff (fun _ _ => Node.noConfusion) _ _

theorem raises_addChained (node : Node) (items : List Chained) (k : Key) (second : Node) :
    Raises (addChained ctxt node items k second) ↔ second.IsItems := by
  cases second with
  | scalar m v => exact iff_of_false (not_raises_pure _) (not_isItems_scalar m v)
  | _ =>
    refine (raises_bind_left fun _ => not_raises_pure _).trans ?_
    exact Rules.Total.raises_iff (by simp) (fun _ _ => Node.noConfusion) _ _

theorem raises_parseFields (m : Mark) (entries : List (Key × Node)) :
    Raises (parseFields ctxt (.mapping m entries)) ↔ (Node.mapping m entries).HasItems := by
  rw [parseFields, Node.entries, Report.pure_bind,
    raises_forKeys fun fields k n => raises_addField _ fields k n, Node.hasItems_mapping]

theorem raises_parseChainedItems (m : Mark) (entries : List (Key × Node)) :
    Raises (parseChainedItems ctxt (.mapping m entries)) ↔ (Node.mapping m entries).HasItems := by
  rw [parseChainedItems, Node.entries, Report.pure_bind,
    raises_forKeys fun items k n => raises_addChained _ items k n, Node.hasItems_mapping]

theorem raising_ofMapping {α : Type} {parse : Node → Pass α} {R : Node → Prop} (set : α → σ → σ)
    (hR : ∀ node, R node → ∃ m entries, node = .mapping m entries)
    (h : ∀ m entries, Raises (parse (.mapping m entries)) ↔ R (.mapping m entries)) (node : Node) :
    (Rule.ofMapping parse set).Raising node ↔ R node := by
  cases node with
  | mapping m entries => exact (raises_bind_left fun _ => not_raises_pure _).trans (h m entries)
  | _ =>
    refine iff_of_false id fun hr => ?_
    obtain ⟨_, _, h⟩ := hR _ hr
    cases h

theorem Node.HasItems.mapping {node : Node} (h : node.HasItems) :
    ∃ m entries, node = .mapping m entries := by
  obtain ⟨m, entries, rfl, -⟩ := h
  exact ⟨m, entries, rfl⟩

@[simp] theorem raising_fields (set : List Field → σ → σ) (node : Node) :
    (Rule.ofMapping (parseFields ctxt) set).Raising node ↔ node.HasItems :=
  raising_ofMapping set (fun _ => Node.HasItems.mapping) raises_parseFields node

@[simp] theorem raising_chainedItems (set : List Chained → σ → σ) (node : Node) :
    (Rule.ofMapping (parseChainedItems ctxt) set).Raising node ↔ node.HasItems :=
  raising_ofMapping set (fun _ => Node.HasItems.mapping) raises_parseChainedItems node

/-- The attributes of a struct or a command that are lists. -/
def listKeys : List String := ["fields", "chained_types", "chained_structs"]

/-- The rules of a struct or a command: those for the lists raise, the others do not. -/
structure Rules.Lists (rules : Rules σ) : Prop where
  raising : ∀ e ∈ rules, ∀ node, e.2.rule.Raising node ↔ e.1 ∈ listKeys ∧ node.HasItems
  lookup : ∀ k ∈ listKeys, ∃ desc, rules.lookup k = some desc

theorem Rules.Lists.raising_iff {rules : Rules σ} (h : rules.Lists) (entries : List (Key × Node)) :
    rules.Raising entries ↔
      ∃ e ∈ firstEntries [] entries, e.1.value ∈ listKeys ∧ e.2.HasItems := by
  have hmem : ∀ k desc, rules.lookup k = some desc → (k, desc) ∈ rules := by
    intro k desc hk
    obtain ⟨l₁, l₂, rfl, -⟩ := List.lookup_eq_some_iff.mp hk
    exact List.mem_append_right _ List.mem_cons_self
  constructor
  · rintro ⟨e, he, desc, hdesc, hr⟩
    exact ⟨e, he, (h.raising _ (hmem _ _ hdesc) _).mp hr⟩
  · rintro ⟨e, he, hkey, hitems⟩
    obtain ⟨desc, hdesc⟩ := h.lookup _ hkey
    exact ⟨e, he, desc, hdesc, (h.raising _ (hmem _ _ hdesc) _).mpr ⟨hkey, hitems⟩⟩

@[simp] theorem not_raising_scalar (set : String → σ → σ) (node : Node) :
    ¬ (Rule.scalar set).Raising node := id

@[simp] theorem not_raising_boolScalar (set : Bool → σ → σ) (node : Node) :
    ¬ (Rule.boolScalar set).Raising node := id

theorem structRules_lists : (structRules ctxt).Lists := by
  constructor
  · simp [structRules, listKeys]
  · simp [listKeys, structRules, List.lookup_cons]

theorem commandRules_lists : (commandRules ctxt).Lists := by
  constructor
  · simp [commandRules, listKeys]
  · simp [listKeys, commandRules, List.lookup_cons]

end Lists

/-! ## Documents -/

section Documents

variable {ctxt : ParserContext}

/-- A section parser that only looks at mappings. -/
theorem raises_ifMapping {α : Type} (node : Node) (name : String) (body : Pass α) (a : α) :
    Raises (do if ← ctxt.isMappingNode node name then body else pure a : Pass α) ↔
      (∃ m entries, node = .mapping m entries) ∧ Raises body := by
  cases node with
  | mapping m entries =>
    rw [ParserContext.isMappingNode, Report.pure_bind]
    exact ⟨fun h => ⟨⟨m, entries, rfl⟩, h⟩, fun h => h.2⟩
  | _ =>
    refine iff_of_false (not_raises_iff.mpr ⟨a, [ctxt.nodeTypeError _ name "mapping"], rfl⟩) ?_
    rintro ⟨⟨_, _, h⟩, -⟩
    cases h

theorem raises_parseMapping {func : IDLSpec → String → Node → Pass IDLSpec} {R : Node → Prop}
    (h : ∀ spec name node, Raises (func spec name node) ↔ R node) (name : String) (spec : IDLSpec)
    (node : Node) : Raises (parseMapping ctxt func name spec node) ↔
      ∃ m entries, node = .mapping m entries ∧ ∃ e ∈ entries, R e.2 := by
  cases node with
  | mapping m entries =>
    rw [parseMapping, raises_foldlM fun e _ spec => h spec e.1.value e.2]
    constructor
    · exact fun hr => ⟨m, entries, rfl, hr⟩
    · rintro ⟨_, _, heq, hr⟩
      cases heq
      exact hr
  | _ =>
    refine iff_of_false (not_raises_log_then _ _) ?_
    rintro ⟨_, _, h, -⟩
    cases h

/-- A struct or a command with a list that has an item where a field or its kin is expected. -/
def Node.HasList (node : Node) : Prop :=
  ∃ m attributes, node = .mapping m attributes ∧
    ∃ a ∈ firstEntries [] attributes, a.1.value ∈ listKeys ∧ a.2.HasItems

theorem raises_section {σ : Type} {rules : Rules σ} (h : rules.Lists) (node : Node)
    (check name : String) (s : σ) (spec : IDLSpec) {f : σ → Pass IDLSpec} (hf : ∀ s, ¬ Raises (f s)) :
    Raises (do
      if ← ctxt.isMappingNode node check then do
        let s ← genericParser ctxt node name s rules
        f s
      else pure spec) ↔ node.HasList := by
  rw [raises_ifMapping, raises_bind_left hf]
  constructor
  · rintro ⟨⟨m, entries, rfl⟩, hr⟩
    exact ⟨m, entries, rfl, (h.raising_iff entries).mp ((raises_rounds m entries name s).mp hr)⟩
  · rintro ⟨m, entries, rfl, hr⟩
    exact ⟨⟨m, entries, rfl⟩, (raises_rounds m entries name s).mpr ((h.raising_iff entries).mpr hr)⟩

theorem raises_parseStruct (spec : IDLSpec) (name : String) (node : Node) :
    Raises (parseStruct ctxt spec name node) ↔ node.HasList :=
  raises_section structRules_lists node _ _ _ spec
    fun _ => not_raises_bind (not_raises_of _) fun _ => not_raises_of _

theorem raises_parseCommand (spec : IDLSpec) (name : String) (node : Node) :
    Raises (parseCommand ctxt spec name node) ↔ node.HasList :=
  raises_section commandRules_lists node _ _ _ spec
    fun _ => not_raises_bind (not_raises_of _) fun _ => not_raises_of _

/-- A section with total rules. -/
theorem not_raises_section {σ : Type} {rules : Rules σ} (h : rules.Total) (node : Node)
    (check name : String) (s : σ) (spec : IDLSpec) {f : σ → Pass IDLSpec} (hf : ∀ s, ¬ Raises (f s)) :
    ¬ Raises (do
      if ← ctxt.isMappingNode node check then do
        let s ← genericParser ctxt node name s rules
        f s
      else pure spec) := by
  rw [raises_ifMapping, raises_bind_left hf]
  rintro ⟨⟨m, entries, rfl⟩, hr⟩
  exact h.not_raises m entries name s hr

theorem not_raises_parseImports (spec : IDLSpec) (node : Node) :
    ¬ Raises (parseImports ctxt spec node) := by
  refine not_raises_bind (not_raises_scalarSequence node "imports") fun v => ?_
  cases v <;> exact not_raises_pure _

/-- A mapping of structs or commands that make the parser raise. -/
def Node.HasLists (node : Node) : Prop :=
  ∃ m entries, node = .mapping m entries ∧ ∃ e ∈ entries, e.2.HasList

/-- **The exceptions of a section.** -/
theorem raises_parseSection (spec : IDLSpec) (k : Key) (node : Node) :
    Raises (parseSection ctxt spec k node) ↔
      (k.value = "structs" ∨ k.value = "commands") ∧ node.HasLists := by
  have hnone : ∀ {func : IDLSpec → String → Node → Pass IDLSpec} (name : String),
      (∀ spec name node, ¬ Raises (func spec name node)) →
        ¬ Raises (parseMapping ctxt func name spec node) := by
    intro func name h
    rw [raises_parseMapping fun spec name node => iff_false_intro (h spec name node)]
    rintro ⟨_, _, -, _, -, h⟩
    exact h
  have hkey : ∀ {key : String}, k.value = key → key ≠ "structs" → key ≠ "commands" →
      ¬ ((k.value = "structs" ∨ k.value = "commands") ∧ node.HasLists) := by
    rintro key rfl hs hc ⟨h | h, -⟩
    · exact hs h
    · exact hc h
  unfold parseSection
  split
  case h_1 hk =>
    exact iff_of_false (not_raises_section total_globalRules node _ _ _ spec
      fun _ => not_raises_pure _) (hkey hk (by decide) (by decide))
  case h_2 hk =>
    exact iff_of_false (not_raises_parseImports spec node) (hkey hk (by decide) (by decide))
  case h_3 hk =>
    exact iff_of_false (hnone _ fun spec _ node => not_raises_section total_enumRules node _ _ _ spec
      fun _ => not_raises_bind (not_raises_of _) fun _ => not_raises_of _)
      (hkey hk (by decide) (by decide))
  case h_4 hk =>
    exact iff_of_false (hnone _ fun spec _ node => not_raises_section total_typeRules node _ _ _ spec
      fun _ => not_raises_of _) (hkey hk (by decide) (by decide))
  case h_5 hk =>
    rw [raises_parseMapping raises_parseStruct]
    exact ⟨fun h => ⟨.inl hk, h⟩, fun h => h.2⟩
  case h_6 hk =>
    rw [raises_parseMapping raises_parseCommand]
    exact ⟨fun h => ⟨.inr hk, h⟩, fun h => h.2⟩
  case h_7 hk =>
    exact iff_of_false (hnone _ fun spec _ node =>
      not_raises_section total_serverParameterRules node _ _ _ spec fun _ => not_raises_pure _)
      (hkey hk (by decide) (by decide))
  case h_8 hk =>
    exact iff_of_false (hnone _ fun spec _ node =>
      not_raises_section total_configOptionRules node _ _ _ spec fun _ => not_raises_pure _)
      (hkey hk (by decide) (by decide))
  case h_9 hs hc _ _ =>
    exact iff_of_false (not_raises_log_then _ _) (hkey rfl hs hc)

/-- The documents that make the parser raise: in the first section of structs or of commands, an
entry has, where a list of fields, chained types or chained structs first occurs, an item whose
value is a sequence that is not empty. -/
def Malformed (entries : List (Key × Node)) : Prop :=
  ∃ e ∈ firstEntries [] entries, (e.1.value = "structs" ∨ e.1.value = "commands") ∧ e.2.HasLists

theorem raises_sections (ctxt : ParserContext) (entries : List (Key × Node)) :
    Raises (forKeys ctxt (parseSection ctxt) [] {} entries) ↔ Malformed entries :=
  raises_forKeys (fun spec k n => raises_parseSection spec k n) [] {} entries

/-- A complete document has a `cpp_type` to put the namespace before. -/
theorem propagateGlobals_eq_ok {spec : IDLSpec} (h : Complete spec) :
    ∃ spec', propagateGlobals spec = .ok spec' := by
  unfold propagateGlobals
  split
  · exact ⟨spec, rfl⟩
  · rename_i cppNamespace _
    have htypes : ∃ types, spec.symbols.types.mapM (propagateType cppNamespace) = .ok types := by
      refine exists_mapM_eq_ok fun t ht => ?_
      obtain ⟨cppType, hcpp⟩ := Option.isSome_iff_exists.mp (h.types t ht).1
      exact ⟨_, by rw [propagateType, hcpp]⟩
    obtain ⟨types, htypes⟩ := htypes
    exact ⟨_, Lib.bind_eq_ok.mpr ⟨types, htypes, rfl⟩⟩

/-- One of the two results of `_parse`. -/
def IDLParsedSpec.Valid (r : IDLParsedSpec) : Prop :=
  (∃ spec, r = ⟨some spec, none⟩) ∨ ∃ errors, errors ≠ [] ∧ r = ⟨none, some errors⟩

/-- **The parser and its exceptions.** A document that is a mapping gives a spec without errors or a
collection of errors that is not empty, exactly when it is not malformed. -/
theorem parseDocument_total_iff (ctxt : ParserContext) (m : Mark) (entries : List (Key × Node)) :
    (∃ r, parseDocument ctxt (some (.mapping m entries)) = .ok r ∧ r.Valid) ↔
      ¬ Malformed entries := by
  rw [← raises_sections ctxt, parseDocument]
  cases hrun : forKeys ctxt (parseSection ctxt) [] {} entries with
  | error e =>
    refine iff_of_false ?_ (not_not.mpr ⟨e, rfl⟩)
    rintro ⟨r, hr, -⟩
    cases hr
  | ok spec errors =>
    refine iff_of_true ?_ (not_raises_iff.mpr ⟨spec, errors, rfl⟩)
    cases errors with
    | nil =>
      obtain ⟨spec', hspec'⟩ := propagateGlobals_eq_ok (complete_of_quiet hrun)
      exact ⟨⟨some spec', none⟩, Lib.bind_eq_ok.mpr ⟨spec', hspec', rfl⟩, .inl ⟨spec', rfl⟩⟩
    | cons e errors =>
      exact ⟨⟨none, some (e :: errors)⟩, rfl, .inr ⟨e :: errors, List.cons_ne_nil _ _, rfl⟩⟩

end Documents

/-- A struct whose field `f` has a sequence with an item for its value. -/
def sequenceField : Node :=
  let m : Mark := ⟨0, 0⟩
  .mapping m [(⟨m, "structs"⟩, .mapping m [(⟨m, "s"⟩, .mapping m [
    (⟨m, "description"⟩, .scalar m "a struct"),
    (⟨m, "fields"⟩, .mapping m [(⟨m, "f"⟩, .sequence m [.scalar m "string"])])])])]

/-- The parser raises a `TypeError` on it. -/
theorem sequenceField_raises :
    parseDocument ⟨"a.idl", fun _ => .error ""⟩ (some sequenceField) = .error .typeError := by
  rfl

end MongoTests.Idl
