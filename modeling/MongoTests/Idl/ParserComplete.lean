import MongoTests.Lib.Checked
import MongoTests.Idl.Parser

/-!
# Documents without errors

A document for which the parser reports no error has all attributes that its rules require.

* `forKeys_inv`, `genericParser_inv`: invariants of the loops, for runs without errors.
* `Complete`: the attributes that the later passes rely on.
* `complete_of_quiet`, **`complete_of_parseDocument`**: a document without errors is complete.
-/

namespace MongoTests.Idl

open MongoTests.Lib Report

/-! ## Runs without errors -/

section Loops

variable {σ : Type} {ctxt : ParserContext} {I : σ → Prop} {rules : Rules σ}

theorem forKeys_inv {f : σ → Key → Node → Pass σ}
    (hf : ∀ s k n s', I s → f s k n = .ok s' [] → I s') {seen : List String} {s s' : σ}
    {l : List (Key × Node)} (hs : I s) (h : forKeys ctxt f seen s l = .ok s' []) : I s' := by
  induction l generalizing seen s with
  | nil =>
    cases h
    exact hs
  | cons e rest ih =>
    obtain ⟨k, n⟩ := e
    rw [forKeys] at h
    split_ifs at h with hk
    · obtain ⟨_, hlog, -⟩ := bind_eq_quiet.mp h
      cases hlog
    · obtain ⟨s₁, hs₁, h⟩ := bind_eq_quiet.mp h
      exact ih (hf s k n s₁ hs hs₁) h

theorem foldlM_inv {α : Type} {f : σ → α → Pass σ} (hf : ∀ s a s', I s → f s a = .ok s' [] → I s')
    {s s' : σ} {l : List α} (hs : I s) (h : l.foldlM f s = .ok s' []) : I s' := by
  induction l generalizing s with
  | nil =>
    cases h
    exact hs
  | cons a rest ih =>
    rw [List.foldlM_cons] at h
    obtain ⟨s₁, hs₁, h⟩ := bind_eq_quiet.mp h
    exact ih (hf s a s₁ hs hs₁) h

/-- A rule that keeps an invariant when it reports no error. -/
def Rule.Keeps (I : σ → Prop) : Rule σ → Prop
  | .scalar set => ∀ v s, I s → I (set v s)
  | .boolScalar set => ∀ v s, I s → I (set v s)
  | .intScalar set => ∀ v s, I s → I (set v s)
  | .scalarOrSequence set => ∀ v s, I s → I (set v s)
  | .scalarOrMapping parse => ∀ node set, parse node = .ok set [] → ∀ s, I s → I (set s)
  | .mapping parse => ∀ node set, parse node = .ok set [] → ∀ s, I s → I (set s)

/-- A value that was read without an error, or none. -/
theorem elim_inv {α : Type} {m : Pass (Option α)} {set : α → σ → σ} {s s' : σ}
    (hset : ∀ v s, I s → I (set v s)) (hs : I s)
    (h : (do let v ← m; pure (v.elim s (set · s)) : Pass σ) = .ok s' []) : I s' := by
  obtain ⟨v, -, h⟩ := bind_eq_quiet.mp h
  cases h
  cases v with
  | none => exact hs
  | some v => exact hset v s hs

theorem apply_inv {rule : Rule σ} (hr : rule.Keeps I) {name : String} {node : Node} {s s' : σ}
    (hs : I s) (h : rule.apply ctxt name node s = .ok s' []) : I s' := by
  have hset : ∀ {parse : Node → Pass (σ → σ)},
      (∀ node set, parse node = .ok set [] → ∀ s, I s → I (set s)) →
      (do let set ← parse node; pure (set s) : Pass σ) = .ok s' [] → I s' := by
    intro parse hparse h
    obtain ⟨set, hset, h⟩ := bind_eq_quiet.mp h
    cases h
    exact hparse node set hset s hs
  have hlog : ∀ e, (do log e; pure s : Pass σ) = .ok s' [] → I s' := by
    intro e h
    cases h
  cases rule with
  | scalar set => exact elim_inv hr hs h
  | boolScalar set => exact elim_inv hr hs h
  | intScalar set => exact elim_inv hr hs h
  | scalarOrSequence set => exact elim_inv hr hs h
  | scalarOrMapping parse =>
    cases node with
    | sequence m items => exact hlog _ h
    | _ => exact hset hr h
  | mapping parse =>
    cases node with
    | mapping m entries => exact hset hr h
    | _ => exact hlog _ h

/-- **The generic parser without errors**: an invariant of its rules holds, and no required
attribute is missing. -/
theorem genericParser_inv (hr : ∀ e ∈ rules, e.2.rule.Keeps I) {node : Node} {name : String}
    {s s' : σ} (hs : I s) (h : genericParser ctxt node name s rules = .ok s' []) :
    I s' ∧ ∀ e ∈ rules, ∀ isNone ∈ e.2.isNone, isNone s' = false := by
  obtain ⟨entries, -, h⟩ := bind_eq_quiet.mp h
  obtain ⟨s₁, hloop, h⟩ := bind_eq_quiet.mp h
  simp only [of, Report.ok.injEq] at h
  obtain ⟨rfl, hmissing⟩ := h
  constructor
  · refine forKeys_inv (fun s₂ k n s₃ hs₂ hround => ?_) hs hloop
    cases hk : rules.lookup k.value with
    | none =>
      rw [hk] at hround
      cases hround
    | some desc =>
      rw [hk] at hround
      have hmem : (k.value, desc) ∈ rules := by
        obtain ⟨l₁, l₂, hl, -⟩ := List.lookup_eq_some_iff.mp hk
        rw [hl]
        exact List.mem_append_right _ List.mem_cons_self
      exact apply_inv (hr _ hmem) hs₂ hround
  · intro e he isNone hnone
    rw [missingRequired, List.map_eq_nil_iff, List.filter_eq_nil_iff] at hmissing
    have hany := hmissing e he
    rw [Option.mem_def.mp hnone, Option.any_some] at hany
    exact Bool.eq_false_iff.mpr hany

end Loops

/-! ## Complete documents -/

/-- All fields have a type. -/
def Struct.Typed (s : Struct) : Prop := ∀ f ∈ s.fields.getD [], f.type.isSome

/-- The attributes that the later passes read without a test, and the names of the symbols. -/
structure Complete (spec : IDLSpec) : Prop where
  types : ∀ t ∈ spec.symbols.types, t.cppType.isSome ∧ t.bsonSerializationType.isSome
  enums : ∀ e ∈ spec.symbols.enums, e.type.isSome ∧ e.values.isSome
  structs : ∀ s ∈ spec.symbols.structs, s.Typed
  commands : ∀ c ∈ spec.symbols.commands, c.toStruct.Typed ∧ c.fields.isSome
  serverParameters : ∀ p ∈ spec.serverParameters, p.setAt.isSome
  configs : ∀ o ∈ spec.configs, o.description.isSome
  names : spec.symbols.names.Nodup

section Sections

variable {ctxt : ParserContext}

theorem genericParser_required {σ : Type} {rules : Rules σ} {node : Node} {name : String}
    {s s' : σ} (h : genericParser ctxt node name s rules = .ok s' []) :
    ∀ e ∈ rules, ∀ isNone ∈ e.2.isNone, isNone s' = false := by
  refine (genericParser_inv (I := fun _ => True) (fun e _ => ?_) trivial h).2
  cases e.2.rule <;> simp [Rule.Keeps]

theorem parseField_typed {name : String} {node : Node} {f : Field}
    (h : parseField ctxt name node = .ok f []) : f.type.isSome := by
  simpa [fieldRules] using genericParser_required h

theorem parseFields_typed {node : Node} {fields : List Field}
    (h : parseFields ctxt node = .ok fields []) : ∀ f ∈ fields, f.type.isSome := by
  obtain ⟨entries, -, h⟩ := bind_eq_quiet.mp h
  refine forKeys_inv (I := fun fields : List Field => ∀ f ∈ fields, f.type.isSome)
    (fun fields k n fields' hfields hadd => ?_) (fun _ hf => absurd hf List.not_mem_nil) h
  have happend : ∀ field : Field, field.type.isSome →
      ∀ f ∈ fields ++ [field], f.type.isSome := by
    intro field hfield f hf
    obtain hf | hf := List.mem_append.mp hf
    · exact hfields f hf
    · rw [List.mem_singleton.mp hf]
      exact hfield
  cases n with
  | scalar m v =>
    cases hadd
    exact happend _ rfl
  | _ =>
    obtain ⟨field, hfield, hadd⟩ := bind_eq_quiet.mp hadd
    cases hadd
    exact happend _ (parseField_typed hfield)

/-- A mapping rule keeps what all lists that it can read have. -/
theorem keeps_ofMapping {σ α : Type} {I : σ → Prop} {parse : Node → Pass α} {set : α → σ → σ}
    (h : ∀ node v, parse node = .ok v [] → ∀ s, I s → I (set v s)) :
    (Rule.ofMapping parse set).Keeps I := by
  intro node f hf
  obtain ⟨v, hv, hf⟩ := bind_eq_quiet.mp hf
  cases hf
  exact h node v hv

theorem structRules_typed : ∀ e ∈ structRules ctxt, e.2.rule.Keeps Struct.Typed := by
  have hchained : ∀ {parse : Node → Pass (List Chained)} {set : List Chained → Struct → Struct},
      (∀ v s, (set v s).fields = s.fields) → (Rule.ofMapping parse set).Keeps Struct.Typed := by
    intro parse set hset
    refine keeps_ofMapping fun node v _ s hs => ?_
    rwa [Struct.Typed, hset]
  simp only [structRules, List.forall_mem_cons]
  exact ⟨fun _ _ h => h, keeps_ofMapping fun node v hv s _ => parseFields_typed hv,
    hchained fun _ _ => rfl, hchained fun _ _ => rfl, fun _ _ h => h, fun _ _ h => h,
    fun _ _ h => h, fun _ _ h => h, fun _ h => absurd h List.not_mem_nil⟩

theorem commandRules_typed :
    ∀ e ∈ commandRules ctxt, e.2.rule.Keeps fun c => c.toStruct.Typed := by
  have hchained : ∀ {parse : Node → Pass (List Chained)} {set : List Chained → Command → Command},
      (∀ v c, (set v c).fields = c.fields) →
        (Rule.ofMapping parse set).Keeps fun c => c.toStruct.Typed := by
    intro parse set hset
    refine keeps_ofMapping fun node v _ c hc => ?_
    rwa [Struct.Typed, hset]
  simp only [commandRules, List.forall_mem_cons]
  exact ⟨fun _ _ h => h, hchained fun _ _ => rfl, hchained fun _ _ => rfl,
    keeps_ofMapping fun node v hv s _ => parseFields_typed hv, fun _ _ h => h, fun _ _ h => h,
    fun _ _ h => h, fun _ _ h => h, fun _ _ h => h, fun _ _ h => h, fun _ _ h => h,
    fun _ h => absurd h List.not_mem_nil⟩

/-- A symbol with all its attributes. -/
def Symbol.Complete : Symbol → Prop
  | .command c => c.toStruct.Typed ∧ c.fields.isSome
  | .enum e => e.type.isSome ∧ e.values.isSome
  | .struct s => s.Typed
  | .type t => t.cppType.isSome ∧ t.bsonSerializationType.isSome

theorem Complete.symbol_mem {spec : IDLSpec} (h : Complete spec) {s : Symbol}
    (hs : s ∈ spec.symbols.symbols) : s.Complete := by
  simp only [SymbolTable.symbols, List.mem_append, List.mem_map] at hs
  obtain ⟨c, hc, rfl⟩ | ⟨e, he, rfl⟩ | ⟨s, hs, rfl⟩ | ⟨t, ht, rfl⟩ := hs
  · exact h.commands c hc
  · exact h.enums e he
  · exact h.structs s hs
  · exact h.types t ht

/-- A document whose symbols are complete. -/
theorem complete_of_symbols {spec : IDLSpec} (hs : ∀ s ∈ spec.symbols.symbols, s.Complete)
    (hp : ∀ p ∈ spec.serverParameters, p.setAt.isSome)
    (ho : ∀ o ∈ spec.configs, o.description.isSome) (hn : spec.symbols.names.Nodup) :
    Complete spec := by
  simp only [SymbolTable.symbols, List.mem_append, List.mem_map] at hs
  exact ⟨fun t ht => hs (.type t) (.inr (.inr (.inr ⟨t, ht, rfl⟩))),
    fun e he => hs (.enum e) (.inr (.inl ⟨e, he, rfl⟩)),
    fun s h => hs (.struct s) (.inr (.inr (.inl ⟨s, h, rfl⟩))),
    fun c hc => hs (.command c) (.inl ⟨c, hc, rfl⟩), hp, ho, hn⟩

theorem forall_mem_append_singleton {α : Type} {p : α → Prop} {l : List α} {a : α}
    (hl : ∀ b ∈ l, p b) (ha : p a) : ∀ b ∈ l ++ [a], p b := by
  intro b hb
  obtain hb | hb := List.mem_append.mp hb
  · exact hl b hb
  · rw [List.mem_singleton.mp hb]
    exact ha

theorem Complete.add {spec spec' : IDLSpec} {s : Symbol} (h : Complete spec)
    (hadd : spec.add s = .ok spec' []) (hs : s.Complete) : Complete spec' := by
  simp only [IDLSpec.add, of, Report.ok.injEq] at hadd
  obtain ⟨rfl, herr⟩ := hadd
  by_cases hname : s.name ∈ spec.symbols.names
  · obtain ⟨e, he⟩ := SymbolTable.add_of_mem hname
    rw [he] at herr
    cases herr
  · rw [SymbolTable.add_of_notMem hname]
    obtain ⟨ht, he, hst, hc, hp, ho, hn⟩ := h
    have hn' : (spec.symbols.append s).names.Nodup :=
      (SymbolTable.names_append _ s).nodup_iff.mpr (List.nodup_cons.mpr ⟨hname, hn⟩)
    cases s with
    | command c => exact ⟨ht, he, hst, forall_mem_append_singleton hc hs, hp, ho, hn'⟩
    | enum e => exact ⟨ht, forall_mem_append_singleton he hs, hst, hc, hp, ho, hn'⟩
    | struct s => exact ⟨ht, he, forall_mem_append_singleton hst hs, hc, hp, ho, hn'⟩
    | type t => exact ⟨forall_mem_append_singleton ht hs, he, hst, hc, hp, ho, hn'⟩

/-- A section that only looks at mappings. -/
theorem Complete.ifMapping {spec spec' : IDLSpec} {node : Node} {name : String}
    {body : Pass IDLSpec} (h : Complete spec) (hbody : body = .ok spec' [] → Complete spec')
    (hrun : (do if ← ctxt.isMappingNode node name then body else pure spec : Pass IDLSpec) =
      .ok spec' []) : Complete spec' := by
  obtain ⟨b, -, hrun⟩ := bind_eq_quiet.mp hrun
  cases b with
  | true => exact hbody hrun
  | false =>
    cases hrun
    exact h

theorem Complete.parseGlobal {spec spec' : IDLSpec} {node : Node} (h : Complete spec)
    (hrun : Idl.parseGlobal ctxt spec node = .ok spec' []) : Complete spec' := by
  refine h.ifMapping (fun hbody => ?_) hrun
  obtain ⟨g, -, hbody⟩ := bind_eq_quiet.mp hbody
  cases hbody
  exact ⟨h.types, h.enums, h.structs, h.commands, h.serverParameters, h.configs, h.names⟩

theorem Complete.parseImports {spec spec' : IDLSpec} {node : Node} (h : Complete spec)
    (hrun : Idl.parseImports ctxt spec node = .ok spec' []) : Complete spec' := by
  obtain ⟨v, -, hrun⟩ := bind_eq_quiet.mp hrun
  cases v <;> cases hrun
  · exact h
  · exact ⟨h.types, h.enums, h.structs, h.commands, h.serverParameters, h.configs, h.names⟩

theorem Complete.parseType {spec spec' : IDLSpec} {name : String} {node : Node} (h : Complete spec)
    (hrun : Idl.parseType ctxt spec name node = .ok spec' []) : Complete spec' := by
  refine h.ifMapping (fun hbody => ?_) hrun
  obtain ⟨t, ht, hbody⟩ := bind_eq_quiet.mp hbody
  have hreq : t.description.isSome ∧ t.cppType.isSome ∧ t.bsonSerializationType.isSome := by
    simpa [typeRules] using genericParser_required ht
  exact h.add hbody ⟨hreq.2.1, hreq.2.2⟩

theorem Complete.parseEnum {spec spec' : IDLSpec} {name : String} {node : Node} (h : Complete spec)
    (hrun : Idl.parseEnum ctxt spec name node = .ok spec' []) : Complete spec' := by
  refine h.ifMapping (fun hbody => ?_) hrun
  obtain ⟨e, he, hbody⟩ := bind_eq_quiet.mp hbody
  obtain ⟨e', hempty, hbody⟩ := bind_eq_quiet.mp hbody
  have hreq : e.description.isSome ∧ e.type.isSome := by
    simpa [enumRules] using genericParser_required he
  simp only [of, Report.ok.injEq] at hempty
  obtain ⟨rfl, hempty⟩ := hempty
  have hvalues : e.values.isSome := by
    rw [emptyEnum] at hempty
    split_ifs at hempty with hnone
    simpa [Option.isSome_iff_ne_none] using hnone
  exact h.add hbody ⟨hreq.2, hvalues⟩

theorem Complete.parseStruct {spec spec' : IDLSpec} {name : String} {node : Node}
    (h : Complete spec) (hrun : Idl.parseStruct ctxt spec name node = .ok spec' []) :
    Complete spec' := by
  refine h.ifMapping (fun hbody => ?_) hrun
  obtain ⟨s, hs, hbody⟩ := bind_eq_quiet.mp hbody
  obtain ⟨s', hempty, hbody⟩ := bind_eq_quiet.mp hbody
  simp only [of, Report.ok.injEq] at hempty
  obtain ⟨rfl, -⟩ := hempty
  have htyped := (genericParser_inv structRules_typed (fun _ hf => absurd hf List.not_mem_nil) hs).1
  exact h.add hbody htyped

theorem Complete.parseCommand {spec spec' : IDLSpec} {name : String} {node : Node}
    (h : Complete spec) (hrun : Idl.parseCommand ctxt spec name node = .ok spec' []) :
    Complete spec' := by
  refine h.ifMapping (fun hbody => ?_) hrun
  obtain ⟨c, hc, hbody⟩ := bind_eq_quiet.mp hbody
  obtain ⟨c', herrors, hbody⟩ := bind_eq_quiet.mp hbody
  simp only [of, Report.ok.injEq] at herrors
  obtain ⟨rfl, -⟩ := herrors
  have htyped := (genericParser_inv commandRules_typed (fun _ hf => absurd hf List.not_mem_nil) hc).1
  exact h.add hbody ⟨htyped, rfl⟩

theorem Complete.parseServerParameter {spec spec' : IDLSpec} {name : String} {node : Node}
    (h : Complete spec) (hrun : Idl.parseServerParameter ctxt spec name node = .ok spec' []) :
    Complete spec' := by
  refine h.ifMapping (fun hbody => ?_) hrun
  obtain ⟨p, hp, hbody⟩ := bind_eq_quiet.mp hbody
  have hreq : p.setAt.isSome ∧ p.description.isSome := by
    simpa [serverParameterRules] using genericParser_required hp
  cases hbody
  exact ⟨h.types, h.enums, h.structs, h.commands,
    forall_mem_append_singleton h.serverParameters hreq.1, h.configs, h.names⟩

theorem Complete.parseConfigOption {spec spec' : IDLSpec} {name : String} {node : Node}
    (h : Complete spec) (hrun : Idl.parseConfigOption ctxt spec name node = .ok spec' []) :
    Complete spec' := by
  refine h.ifMapping (fun hbody => ?_) hrun
  obtain ⟨o, ho, hbody⟩ := bind_eq_quiet.mp hbody
  have hreq : o.description.isSome ∧ o.argVartype.isSome := by
    simpa [configOptionRules] using genericParser_required ho
  cases hbody
  exact ⟨h.types, h.enums, h.structs, h.commands, h.serverParameters,
    forall_mem_append_singleton h.configs hreq.1, h.names⟩

theorem Complete.parseMapping {spec spec' : IDLSpec} {name : String} {node : Node}
    {func : IDLSpec → String → Node → Pass IDLSpec}
    (hfunc : ∀ spec name node spec', Complete spec → func spec name node = .ok spec' [] →
      Complete spec')
    (h : Complete spec) (hrun : Idl.parseMapping ctxt func name spec node = .ok spec' []) :
    Complete spec' := by
  cases node with
  | mapping m entries => exact foldlM_inv (fun spec e spec' => hfunc spec _ _ spec') h hrun
  | _ => cases hrun

/-- **A document without errors is complete.** -/
theorem complete_of_quiet {entries : List (Key × Node)} {spec : IDLSpec}
    (h : forKeys ctxt (parseSection ctxt) [] {} entries = .ok spec []) : Complete spec := by
  have hempty : Complete {} := by
    constructor <;> simp [SymbolTable.names, SymbolTable.symbols]
  refine forKeys_inv (fun spec k n spec' hspec hrun => ?_) hempty h
  unfold parseSection at hrun
  split at hrun
  · exact hspec.parseGlobal hrun
  · exact hspec.parseImports hrun
  · exact hspec.parseMapping (fun _ _ _ _ h => h.parseEnum) hrun
  · exact hspec.parseMapping (fun _ _ _ _ h => h.parseType) hrun
  · exact hspec.parseMapping (fun _ _ _ _ h => h.parseStruct) hrun
  · exact hspec.parseMapping (fun _ _ _ _ h => h.parseCommand) hrun
  · exact hspec.parseMapping (fun _ _ _ _ h => h.parseServerParameter) hrun
  · exact hspec.parseMapping (fun _ _ _ _ h => h.parseConfigOption) hrun
  · cases hrun

end Sections

theorem Complete.propagateGlobals {spec spec' : IDLSpec} (h : Complete spec)
    (hrun : Idl.propagateGlobals spec = .ok spec') : Complete spec' := by
  unfold Idl.propagateGlobals at hrun
  split at hrun
  · cases hrun
    exact h
  · rename_i cppNamespace _
    obtain ⟨types, htypes, hrun⟩ := Lib.bind_eq_ok.mp hrun
    cases hrun
    have htype : ∀ t t', propagateType cppNamespace t = .ok t' →
        t'.name = t.name ∧ t'.cppType.isSome ∧
          t'.bsonSerializationType = t.bsonSerializationType := by
      intro t t' ht
      unfold propagateType at ht
      split at ht
      · cases ht
      · cases ht
        exact ⟨rfl, rfl, rfl⟩
    refine ⟨fun t' ht' => ?_, ?_, ?_, ?_, h.serverParameters, h.configs, ?_⟩
    · obtain ⟨t, ht, hprop⟩ := exists_of_mem_mapM htypes ht'
      obtain ⟨-, hcpp, hbson⟩ := htype t t' hprop
      exact ⟨hcpp, hbson ▸ (h.types t ht).2⟩
    · exact List.forall_mem_map.mpr h.enums
    · exact List.forall_mem_map.mpr h.structs
    · exact List.forall_mem_map.mpr h.commands
    · have hnames := map_eq_of_mapM (fun t t' ht => (htype t t' ht).1) htypes
      have heq : ∀ t : SymbolTable, t.names = t.commands.map (·.name) ++ (t.enums.map (·.name) ++
          (t.structs.map (·.name) ++ t.types.map (·.name))) := by
        intro t
        simp [SymbolTable.names, SymbolTable.symbols, Symbol.name, Function.comp_def]
      have hn := h.names
      rw [heq] at hn ⊢
      simpa [hnames, Function.comp_def] using hn

/-- **What the parser returns without errors is complete.** -/
theorem complete_of_parseDocument {ctxt : ParserContext} {root : Option Node} {spec : IDLSpec}
    {errors : Option (List ParserError)}
    (h : parseDocument ctxt root = .ok ⟨some spec, errors⟩) : Complete spec := by
  unfold parseDocument at h
  split at h
  · cases h
    constructor <;> simp [SymbolTable.names, SymbolTable.symbols]
  · split at h
    · cases h
    · rename_i spec₀ hrun
      obtain ⟨spec', hspec', h⟩ := Lib.bind_eq_ok.mp h
      cases h
      exact (complete_of_quiet hrun).propagateGlobals hspec'
    · cases h
  · cases h

end MongoTests.Idl
