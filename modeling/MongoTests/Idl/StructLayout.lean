import MongoTests.Idl.BinderTotal

/-!
# The fields of a bound struct

Where the fields of a struct or a command come from, when it is bound without errors.

* `IsBound`, `IsChainedType`, `IsChainedStruct`: what a field, a chained type and a chained struct
  of the document become.
* `Layout`: the fields in order; `InComparisonOrder`: their comparison orders.
* `layout_of_bindStructCommon`: the loops of `_bind_struct_common`.
* **`struct_layout`**: every struct and every command of a document without errors.
-/

namespace MongoTests.Idl

open MongoTests.Lib Report

/-- What tells where a field stands: its name, its marks and its order. -/
def Ast.Field.placement (f : Ast.Field) : String × Bool × Bool × Option String × ℤ :=
  (f.name, f.ignore, f.chained, f.chainedStructField, f.comparisonOrder)

/-- The field as `_bind_field` binds it without errors. -/
structure IsBound (py : Python) (spec : IDLSpec) (field : Field) (f : Ast.Field) : Prop where
  bound : bindField py spec field = .ok (some f) []
  placement : f.placement = (field.name, field.ignore, false, none, field.comparisonOrder)

/-- The field of a chained type, which has the name of the type. -/
structure IsChainedType (spec : IDLSpec) (struct : Struct) (chained : Chained) (f : Ast.Field) :
    Prop where
  bound : bindChainedType spec struct.loc chained = .ok (some f) []
  type : ∃ t, spec.symbols.resolveFieldType struct.loc chained.name chained.name = .ok (.type t) ∧
    f.placement = (t.name, false, true, none, -1)

/-- A field of a chained struct: tagged with the field of the struct, or ignored. -/
def mergedField (struct s : Struct) (f : Ast.Field) : Ast.Field :=
  if struct.inlineChainedStructs then { f with chainedStructField := some s.name }
  else { f with ignore := true }

def IsMerged (py : Python) (spec : IDLSpec) (struct s : Struct) (field : Field) (g : Ast.Field) :
    Prop :=
  ∃ f, IsBound py spec field f ∧ g = mergedField struct s f

/-- The field of a chained struct and one for each of its fields. -/
def IsChainedStruct (py : Python) (spec : IDLSpec) (struct : Struct) (chained : Chained)
    (group : List Ast.Field) : Prop :=
  ∃ s merged, spec.symbols.resolveFieldType struct.loc chained.name chained.name = .ok (.struct s) ∧
    List.Forall₂ (IsMerged py spec struct s) (s.fields.getD []) merged ∧
    group = chainedStructField struct s chained :: merged

/-- Chained types, chained structs and own fields, in this order. -/
structure Layout (py : Python) (spec : IDLSpec) (struct : Struct) (fields : List Ast.Field) :
    Prop where
  parts : ∃ types structs own, fields = types ++ structs.flatten ++ own ∧
    List.Forall₂ (IsChainedType spec struct) (struct.chainedTypes.getD []) types ∧
    List.Forall₂ (IsChainedStruct py spec struct) (struct.chainedStructs.getD []) structs ∧
    List.Forall₂ (IsBound py spec) (struct.fields.getD []) own
  nodup : (fields.map (·.name)).Nodup

/-- The comparison orders are those of the document, which are distinct, or the positions. -/
def InComparisonOrder (struct : Struct) (fields ordered : List Ast.Field) : Prop :=
  if struct.generateComparisonOperators then
    if ∀ f ∈ fields, f.comparisonOrder = -1 then
      ordered = fields.mapIdx fun i f => { f with comparisonOrder := i }
    else
      ordered = fields ∧ ((fields.map (·.comparisonOrder)).filter (· ≠ -1)).Nodup
  else ordered = fields

/-- The bound struct has the fields of the layout, with their orders. -/
def Ast.Struct.LaidOut (py : Python) (spec : IDLSpec) (struct : Idl.Struct) (b : Ast.Struct) : Prop :=
  (b.fields.map (·.name)).Nodup ∧
    ∃ fields, Layout py spec struct fields ∧ InComparisonOrder struct fields b.fields

section Fields

variable {py : Python} {spec : IDLSpec} {field : Field} {f g : Ast.Field} {ws : List ParserError}

/-! ## One field -/

theorem placement_of_kept (h : g.kept = f.kept) : g.placement = f.placement := by
  simp only [Ast.Field.kept, Prod.mk.injEq] at h
  obtain ⟨hname, -, hignore, hchained, hstruct, horder⟩ := h
  rw [Ast.Field.placement, hname, hignore, hchained, hstruct, horder, Ast.Field.placement]

theorem bindField_placement (h : bindField py spec field = .ok (some f) ws) :
    f.placement = (field.name, field.ignore, false, none, field.comparisonOrder) := by
  obtain ⟨_, _, _, -, h, -⟩ := bind_eq_ok.mp h
  split_ifs at h with hignore
  · obtain ⟨_, _, _, -, h, -⟩ := bind_eq_ok.mp h
    obtain ⟨_, _, _, -, h, -⟩ := bind_eq_ok.mp h
    cases h
    rw [hignore]
    rfl
  · rw [Bool.not_eq_true] at hignore
    rw [hignore]
    split at h
    · cases h
    · split at h
      · cases h
      · rename_i type _ symbol _
        by_cases hcommand : ∃ c, symbol = .command c
        · obtain ⟨c, rfl⟩ := hcommand
          cases h
        · rw [bindResolvedField_eq (not_exists.mp hcommand)] at h
          split_ifs at h
          · obtain ⟨_, _, _, -, h, -⟩ := bind_eq_ok.mp h
            rw [placement_of_kept (bindTyped_kept h)]
            rfl
          · cases h
          · rw [placement_of_kept (bindTyped_kept h)]
            rfl

theorem isBound_of_quiet {o : Option Ast.Field} (h : bindField py spec field = .ok o []) :
    ∃ f, o = some f ∧ IsBound py spec field f := by
  obtain ⟨-, hquiet, -⟩ := bindField_eq_ok h
  obtain ⟨f, rfl⟩ := Option.isSome_iff_exists.mp (hquiet rfl)
  exact ⟨f, rfl, h, bindField_placement h⟩

end Fields

/-! ## The loops -/

section Loops

variable {py : Python} {spec : IDLSpec} {struct : Struct} {fields fields' : List Ast.Field}

theorem nodup_append_field {f : Ast.Field} (h : (fields.map (·.name)).Nodup)
    (hnew : f.name ∉ fields.map (·.name)) : ((fields ++ [f]).map (·.name)).Nodup := by
  rw [List.map_append, List.map_singleton]
  exact h.append (List.nodup_singleton _) (List.disjoint_singleton.mpr hnew)

theorem appendField_quiet {container : String} {f : Ast.Field} (h : (fields.map (·.name)).Nodup)
    (hrun : appendField container fields f = .ok fields' []) :
    (fields'.map (·.name)).Nodup ∧ fields' = fields ++ [f] := by
  unfold appendField at hrun
  split at hrun
  · cases hrun
  · rename_i hnone
    cases hrun
    exact ⟨nodup_append_field h (isDuplicateField_eq_none.mp hnone), rfl⟩

theorem addChainedType_quiet {chained : Chained} (h : (fields.map (·.name)).Nodup)
    (hrun : addChainedType spec struct fields chained = .ok fields' []) :
    (fields'.map (·.name)).Nodup ∧
      ∃ f, fields' = fields ++ [f] ∧ IsChainedType spec struct chained f := by
  obtain ⟨o, hbind, hrun⟩ := bind_eq_quiet.mp hrun
  have hchained : ∃ f, o = some f ∧ ∃ t,
      spec.symbols.resolveFieldType struct.loc chained.name chained.name = .ok (.type t) ∧
        f.placement = (t.name, false, true, none, -1) := by
    have hbind := hbind
    unfold bindChainedType at hbind
    split at hbind
    · cases hbind
    · rename_i t hresolve
      split at hbind
      · cases hbind
      · split_ifs at hbind
        · cases hbind
          exact ⟨_, rfl, t, hresolve, rfl⟩
        · split at hbind <;> cases hbind
    · cases hbind
  obtain ⟨f, rfl, htype⟩ := hchained
  obtain ⟨hnodup, rfl⟩ := appendField_quiet h hrun
  exact ⟨hnodup, f, rfl, hbind, htype⟩

theorem mergeField_quiet {s : Struct} {chained : Chained} {field : Field}
    (h : (fields.map (·.name)).Nodup)
    (hrun : mergeField py spec struct s chained fields field = .ok fields' []) :
    (fields'.map (·.name)).Nodup ∧
      ∃ g, fields' = fields ++ [g] ∧ IsMerged py spec struct s field g := by
  obtain ⟨o, hbind, hrun⟩ := bind_eq_quiet.mp hrun
  obtain ⟨f, rfl, hbound⟩ := isBound_of_quiet hbind
  dsimp only at hrun
  split at hrun
  · cases hrun
  · rename_i hnone
    cases hrun
    have hname : (mergedField struct s f).name = f.name := by
      unfold mergedField
      split_ifs <;> rfl
    have hnew : (mergedField struct s f).name ∉ fields.map (·.name) := by
      rw [hname]
      exact isDuplicateField_eq_none.mp hnone
    exact ⟨nodup_append_field h hnew, _, rfl, f, hbound, rfl⟩

theorem bindChainedStruct_quiet {chained : Chained} (h : (fields.map (·.name)).Nodup)
    (hrun : bindChainedStruct py spec struct fields chained = .ok fields' []) :
    (fields'.map (·.name)).Nodup ∧
      ∃ group, fields' = fields ++ group ∧ IsChainedStruct py spec struct chained group := by
  unfold bindChainedStruct at hrun
  split at hrun
  · cases hrun
  · rename_i s hresolve
    obtain ⟨-, -, hrun⟩ := bind_eq_quiet.mp hrun
    obtain ⟨-, -, hrun⟩ := bind_eq_quiet.mp hrun
    unfold mergeStruct at hrun
    dsimp only at hrun
    split at hrun
    · cases hrun
    · rename_i hnone
      have hstart := nodup_append_field h (isDuplicateField_eq_none.mp hnone)
      obtain ⟨hnodup, merged, rfl, hmerged⟩ :=
        items_of_foldlM (fun _ _ _ h hrun => mergeField_quiet h hrun) hstart hrun
      refine ⟨hnodup, chainedStructField struct s chained :: merged, ?_, s, merged, hresolve,
        hmerged, rfl⟩
      rw [List.append_assoc]
      rfl
  · cases hrun

theorem addOwnField_quiet {isCommand : Bool} {field : Field} (h : (fields.map (·.name)).Nodup)
    (hrun : addOwnField py spec isCommand struct fields field = .ok fields' []) :
    (fields'.map (·.name)).Nodup ∧ ∃ f, fields' = fields ++ [f] ∧ IsBound py spec field f := by
  obtain ⟨o, hbind, hrun⟩ := bind_eq_quiet.mp hrun
  obtain ⟨f, rfl, hbound⟩ := isBound_of_quiet hbind
  obtain ⟨-, -, hrun⟩ := bind_eq_quiet.mp hrun
  obtain ⟨-, -, hrun⟩ := bind_eq_quiet.mp hrun
  obtain ⟨hnodup, rfl⟩ := appendField_quiet h hrun
  exact ⟨hnodup, f, rfl, hbound⟩

/-! ## Comparison orders -/

theorem nodup_of_comparisonOrderErrors {seen : List ℤ}
    (h : comparisonOrderErrors struct seen fields = []) :
    ((fields.map (·.comparisonOrder)).filter (· ≠ -1)).Nodup ∧
      ∀ k ∈ seen, k ∉ (fields.map (·.comparisonOrder)).filter (· ≠ -1) := by
  induction fields generalizing seen with
  | nil => simp
  | cons f fields ih =>
    rw [comparisonOrderErrors] at h
    rw [List.map_cons]
    split_ifs at h with hdefault hseen
    · rw [List.filter_cons_of_neg (by simpa using hdefault)]
      exact ih h
    · cases h
    · rw [List.filter_cons_of_pos (by simpa using hdefault)]
      obtain ⟨hnodup, hdisjoint⟩ := ih h
      refine ⟨List.nodup_cons.mpr ⟨hdisjoint _ List.mem_cons_self, hnodup⟩, fun k hk => ?_⟩
      rw [List.mem_cons, not_or]
      exact ⟨fun he => hseen (he ▸ hk), hdisjoint k (List.mem_cons_of_mem _ hk)⟩

theorem ordered_of_orderFields (h : (orderFields struct fields).2 = []) :
    InComparisonOrder struct fields (orderFields struct fields).1 := by
  have hall : (fields.all (·.comparisonOrder = -1)) = true ↔ ∀ f ∈ fields, f.comparisonOrder = -1 := by
    simp
  unfold orderFields at h ⊢
  unfold InComparisonOrder
  split_ifs at h ⊢ with hgenerate hdefault hdefault' hdefault'
  · rfl
  · exact absurd (hall.mpr hdefault) hdefault'
  · exact absurd (hall.mp hdefault') hdefault
  · exact ⟨rfl, (nodup_of_comparisonOrderErrors h).1⟩
  · rfl

/-! ## Structs -/

theorem layout_of_bindStructCommon {isCommand : Bool} {b : Ast.Struct}
    (h : bindStructCommon py spec isCommand struct = .ok b []) : b.LaidOut py spec struct := by
  obtain ⟨-, -, h⟩ := bind_eq_quiet.mp h
  obtain ⟨-, -, h⟩ := bind_eq_quiet.mp h
  obtain ⟨fields₁, htypes, h⟩ := bind_eq_quiet.mp h
  obtain ⟨fields₂, hstructs, h⟩ := bind_eq_quiet.mp h
  obtain ⟨fields₃, hown, h⟩ := bind_eq_quiet.mp h
  obtain ⟨fields₄, horder, h⟩ := bind_eq_quiet.mp h
  cases h
  have hempty : (([] : List Ast.Field).map (·.name)).Nodup := List.nodup_nil
  obtain ⟨hnodup₁, types, heq₁, hpart₁⟩ :=
    items_of_foldlM (fun _ _ _ h hrun => addChainedType_quiet h hrun) hempty htypes
  obtain ⟨hnodup₂, groups, heq₂, hpart₂⟩ :=
    groups_of_foldlM (fun _ _ _ h hrun => bindChainedStruct_quiet h hrun) hnodup₁ hstructs
  obtain ⟨hnodup₃, own, heq₃, hpart₃⟩ :=
    items_of_foldlM (fun _ _ _ h hrun => addOwnField_quiet h hrun) hnodup₂ hown
  have hparts : fields₃ = types ++ groups.flatten ++ own := by rw [heq₃, heq₂, heq₁, List.nil_append]
  obtain ⟨hfields, herrors⟩ := Report.ok.inj horder
  subst hfields
  refine ⟨?_, fields₃, ⟨⟨types, groups, own, hparts, hpart₁, hpart₂, hpart₃⟩, hnodup₃⟩,
    ordered_of_orderFields herrors⟩
  show ((orderFields struct fields₃).1.map (·.name)).Nodup
  rwa [names_orderFields]

theorem layout_of_bindCommand {c : Command} {b : Ast.Command}
    (h : bindCommand py spec c = .ok b []) : b.toStruct.LaidOut py spec c.withDb := by
  obtain ⟨c', hinject, h⟩ := bind_eq_quiet.mp h
  obtain ⟨struct, hstruct, h⟩ := bind_eq_quiet.mp h
  obtain ⟨o, -, h⟩ := bind_eq_quiet.mp h
  obtain ⟨-, -, h⟩ := bind_eq_quiet.mp h
  cases h
  have hc' : c'.toStruct = c.withDb := by
    unfold injectHiddenCommandFields at hinject
    split at hinject
    · cases hinject
    · rename_i fields hfields
      cases hinject
      rw [Command.withDb, hfields]
      rfl
  rw [hc'] at hstruct
  exact layout_of_bindStructCommon hstruct

end Loops

theorem bindSpec_of_bind {py : Python} {spec : IDLSpec} {bound : IDLAST}
    (h : bind py spec = .ok ⟨some bound, none⟩) : bindSpec py spec = .ok bound [] := by
  unfold bind at h
  split at h
  · cases h
  · rename_i hbound
    cases h
    exact hbound
  · cases h

/-- **The layout of the structs and the commands** of a document that is bound without errors. A
command has the field `$db` after its own fields. -/
theorem struct_layout {py : Python} {spec : IDLSpec} {bound : IDLAST}
    (h : bind py spec = .ok ⟨some bound, none⟩) :
    List.Forall₂ (fun s b => Ast.Struct.LaidOut py spec s b)
      (spec.symbols.structs.filter (!·.imported)) bound.structs ∧
    List.Forall₂ (fun c b => Ast.Struct.LaidOut py spec (Command.withDb c) (Ast.Command.toStruct b))
      (spec.symbols.commands.filter (!·.imported)) bound.commands := by
  obtain ⟨-, -, h⟩ := bind_eq_quiet.mp (bindSpec_of_bind h)
  obtain ⟨enums, -, h⟩ := bind_eq_quiet.mp h
  obtain ⟨commands, hcommands, h⟩ := bind_eq_quiet.mp h
  obtain ⟨structs, hstructs, h⟩ := bind_eq_quiet.mp h
  obtain ⟨parameters, -, h⟩ := bind_eq_quiet.mp h
  obtain ⟨configs, -, h⟩ := bind_eq_quiet.mp h
  cases h
  exact ⟨(bindEach_eq_quiet hstructs).imp fun _ _ h => layout_of_bindStructCommon h,
    (bindEach_eq_quiet hcommands).imp fun _ _ h => layout_of_bindCommand h⟩

/-! ## A document -/

/-- A struct with a chained type, a chained struct and a field, and a command. -/
def chainedSpec : IDLSpec :=
  let loc : SourceLocation := ⟨"a.idl", 0, 0⟩
  { symbols := {
      types := [{
        loc, name := "Chain", description := some "a chain", cppType := some "mongo::Chain"
        bsonSerializationType := some ["chain"], serializer := some "mongo::Chain::write"
        deserializer := some "mongo::Chain::read" }, {
        loc, name := "string", description := some "a string", cppType := some "std::string"
        bsonSerializationType := some ["string"]
        deserializer := some "mongo::BSONElement::str" }]
      structs := [{
        loc, name := "Inner", description := some "inner"
        fields := some [{ loc, name := "x", ignore := true }] }, {
        loc, name := "Outer", description := some "outer", strict := false
        generateComparisonOperators := true
        chainedTypes := some [⟨loc, "Chain", some "chain"⟩]
        chainedStructs := some [⟨loc, "Inner", some "inner"⟩]
        fields := some [{ loc, name := "y", ignore := true }] }]
      commands := [{
        loc, name := "setLevel", description := some "set it", fields := some []
        commandNamespace := some "ignored" }] } }

theorem struct_layout_chained :
    ∃ bound, bind asciiPython chainedSpec = .ok ⟨some bound, none⟩ ∧
      List.Forall₂ (fun s b => Ast.Struct.LaidOut asciiPython chainedSpec s b)
        (chainedSpec.symbols.structs.filter (!·.imported)) bound.structs ∧
      List.Forall₂
        (fun c b => Ast.Struct.LaidOut asciiPython chainedSpec (Command.withDb c)
          (Ast.Command.toStruct b))
        (chainedSpec.symbols.commands.filter (!·.imported)) bound.commands :=
  ⟨_, rfl, struct_layout rfl⟩

end MongoTests.Idl
