import MongoTests.Idl.Import

/-!
# The include list

`parse` asks for an include of each file that the root document imports and that defines a struct.
The paths are resolved after the loop, against the file whose import was followed last.

* `directIncludes`: the names to be included, in the order of the imports.
* `lastBase`: the file of the last import that a search follows.
* `Ordered`: what the rounds know of the two.
* **`resolved_imports_iff`**: when the paths are those of the root document.
-/

namespace MongoTests.Idl

open MongoTests.Lib Report

/-! ## What should be included -/

section Includes

variable (r : Resolver)

def definesStruct (fileName : String) : Bool :=
  (document r fileName).any fun doc => doc.symbols.structs ≠ []

/-- The imported names whose file defines a struct and was not seen earlier. -/
def includesFrom (seen : List String) : List FileImport → List String
  | [] => []
  | i :: imports =>
    match (graph r).target i with
    | none => includesFrom seen imports
    | some fileName =>
      if fileName ∈ seen then includesFrom seen imports
      else if definesStruct r fileName then
        i.importedFileName :: includesFrom (seen ++ [fileName]) imports
      else includesFrom (seen ++ [fileName]) imports

variable (inputFileName : String) (stream : Except Raised (Option Node))

/-- The direct imports of the root document that need an include. -/
def directIncludes : List String := includesFrom r [] (rootImports r inputFileName stream)

/-- The file of the last import, when these are the files in breadth-first order. -/
def lastBase (files : List String) : String :=
  (((rootImports r inputFileName stream ++ files.flatMap (graph r).out).getLast?).map
    FileImport.baseFileName).getD inputFileName

end Includes

def IDLSpec.resolvedImports (spec : IDLSpec) : List (Option String) :=
  (spec.imports.map Import.resolvedImports).getD []

/-! ## The parser -/

section Fresh

variable {ctxt : ParserContext} {spec spec' : IDLSpec}

/-- Only `parse` puts paths into the include list. -/
def Fresh (spec : IDLSpec) : Prop := spec.resolvedImports = []

theorem Fresh.of_imports_eq (h : Fresh spec) (heq : spec'.imports = spec.imports) : Fresh spec' := by
  rw [Fresh, IDLSpec.resolvedImports, heq]
  exact h

/-- A part of the parser that does not look at the imports. -/
def KeepsImports (spec : IDLSpec) (x : Pass IDLSpec) : Prop :=
  ∀ spec', x = .ok spec' [] → spec'.imports = spec.imports

theorem keepsImports_pure (h : spec'.imports = spec.imports) : KeepsImports spec (pure spec') := by
  rintro _ hrun
  cases hrun
  exact h

theorem keepsImports_bind {α : Type} {x : Pass α} {f : α → Pass IDLSpec}
    (h : ∀ a, KeepsImports spec (f a)) : KeepsImports spec (x >>= f) := by
  intro spec' hrun
  obtain ⟨a, -, hrun⟩ := bind_eq_quiet.mp hrun
  exact h a spec' hrun

theorem keepsImports_add (symbol : Symbol) : KeepsImports spec (spec.add symbol) := by
  intro spec' hrun
  simp only [IDLSpec.add, of, Report.ok.injEq] at hrun
  rw [← hrun.1]

/-- A section that only looks at mappings. -/
theorem keepsImports_ifMapping {node : Node} {name : String} {body : Pass IDLSpec}
    (h : KeepsImports spec body) :
    KeepsImports spec (do if ← ctxt.isMappingNode node name then body else pure spec) := by
  refine keepsImports_bind fun b => ?_
  cases b with
  | true => exact h
  | false => exact keepsImports_pure rfl

theorem keepsImports_parseMapping {func : IDLSpec → String → Node → Pass IDLSpec}
    (h : ∀ spec name node, KeepsImports spec (func spec name node)) (name : String) (node : Node) :
    KeepsImports spec (parseMapping ctxt func name spec node) := by
  intro spec' hrun
  cases node with
  | mapping m entries =>
    exact foldlM_inv (I := fun t => t.imports = spec.imports)
      (fun t e t' ht hrun => (h t _ _ t' hrun).trans ht) rfl hrun
  | _ => cases hrun

theorem Fresh.parseImports {node : Node} (h : Fresh spec)
    (hrun : Idl.parseImports ctxt spec node = .ok spec' []) : Fresh spec' := by
  obtain ⟨v, -, hrun⟩ := bind_eq_quiet.mp hrun
  cases v <;> cases hrun
  · exact h
  · rfl

theorem Fresh.parseSection {k : Key} {node : Node} (h : Fresh spec)
    (hrun : Idl.parseSection ctxt spec k node = .ok spec' []) : Fresh spec' := by
  unfold Idl.parseSection at hrun
  split at hrun
  · refine h.of_imports_eq (keepsImports_ifMapping ?_ spec' hrun)
    exact keepsImports_bind fun _ => keepsImports_pure rfl
  · exact h.parseImports hrun
  · refine h.of_imports_eq (keepsImports_parseMapping (fun spec name node => ?_) _ _ spec' hrun)
    exact keepsImports_ifMapping (keepsImports_bind fun _ => keepsImports_bind fun _ =>
      keepsImports_add _)
  · refine h.of_imports_eq (keepsImports_parseMapping (fun spec name node => ?_) _ _ spec' hrun)
    exact keepsImports_ifMapping (keepsImports_bind fun _ => keepsImports_add _)
  · refine h.of_imports_eq (keepsImports_parseMapping (fun spec name node => ?_) _ _ spec' hrun)
    exact keepsImports_ifMapping (keepsImports_bind fun _ => keepsImports_bind fun _ =>
      keepsImports_add _)
  · refine h.of_imports_eq (keepsImports_parseMapping (fun spec name node => ?_) _ _ spec' hrun)
    exact keepsImports_ifMapping (keepsImports_bind fun _ => keepsImports_bind fun _ =>
      keepsImports_add _)
  · refine h.of_imports_eq (keepsImports_parseMapping (fun spec name node => ?_) _ _ spec' hrun)
    exact keepsImports_ifMapping (keepsImports_bind fun _ => keepsImports_pure rfl)
  · refine h.of_imports_eq (keepsImports_parseMapping (fun spec name node => ?_) _ _ spec' hrun)
    exact keepsImports_ifMapping (keepsImports_bind fun _ => keepsImports_pure rfl)
  · cases hrun

theorem Fresh.propagateGlobals (h : Fresh spec) (hrun : Idl.propagateGlobals spec = .ok spec') :
    Fresh spec' := by
  unfold Idl.propagateGlobals at hrun
  split at hrun
  · cases hrun
    exact h
  · obtain ⟨types, -, hrun⟩ := Lib.bind_eq_ok.mp hrun
    cases hrun
    exact h

theorem fresh_of_parseDocument {root : Option Node} {errors : Option (List ParserError)}
    (h : parseDocument ctxt root = .ok ⟨some spec, errors⟩) : Fresh spec := by
  unfold parseDocument at h
  split at h
  · cases h
    rfl
  · split at h
    · cases h
    · rename_i spec₀ hrun
      obtain ⟨spec', hspec', h⟩ := Lib.bind_eq_ok.mp h
      cases h
      have hempty : Fresh {} := rfl
      exact (forKeys_inv (fun _ _ _ _ ht hrun => ht.parseSection hrun) hempty hrun).propagateGlobals
        hspec'
    · cases h
  · cases h

theorem fresh_of_documentOf {r : Resolver} {stream : Except Raised (Option Node)} {fileName : String}
    (h : documentOf r stream fileName = some spec) : Fresh spec := by
  obtain ⟨node, -, hnode⟩ := Lib.bind_eq_ok.mp (documentOf_eq_some.mp h)
  exact fresh_of_parseDocument hnode

end Fresh

/-! ## The loop -/

section Rounds

variable {r : Resolver} {inputFileName : String} {stream : Except Raised (Option Node)}
  {doc spec : IDLSpec} {s s' : Locals} {exit : Exit}

variable (r inputFileName stream) in
/-- The file of the import that was followed last. -/
structure Based (s : Locals) : Prop where
  search : Relation.ReflTransGen (Worklist.Step (graph r))
    ⟨rootImports r inputFileName stream, []⟩ s.search
  followed : ∃ followed,
    Worklist.Followed (graph r) (rootImports r inputFileName stream) s.search followed ∧
    s.baseFileName = ((followed.getLast?).map FileImport.baseFileName).getD inputFileName

theorem Based.start (h : documentOf r stream inputFileName = some doc) :
    Based r inputFileName stream (.start inputFileName doc) where
  search := by
    rw [Locals.search, Locals.start, ← rootImports_eq h]
  followed := by
    refine ⟨[], ?_, rfl⟩
    rw [Worklist.Followed, Locals.search, Locals.start, ← rootImports_eq h]
    exact (List.append_nil _).symm

theorem Based.round (h : Based r inputFileName stream s)
    (hround : Idl.round r inputFileName s = (s', none)) : Based r inputFileName stream s' := by
  obtain ⟨followed, hfollowed, -⟩ := h.followed
  have hstep := step_of_round hround
  obtain ⟨i, rest, fileName, himports, -, hcases⟩ := round_next hround
  have hbase : s'.baseFileName = i.baseFileName := by
    obtain ⟨-, rfl⟩ | ⟨-, _, _, _, -, -, -, rfl⟩ := hcases <;> rfl
  refine ⟨h.search.tail hstep, followed ++ [i], ?_, ?_⟩
  · rw [Locals.search, himports] at hfollowed hstep
    exact hfollowed.step hstep
  · rw [hbase, List.getLast?_append]
    rfl

/-- At the end all imports were followed. -/
theorem Based.done (h : Based r inputFileName stream s) (hdone : s.imports = []) :
    Worklist.Search (graph r) (rootImports r inputFileName stream) s.resolvedFileNames ∧
      s.baseFileName = lastBase r inputFileName stream s.resolvedFileNames := by
  obtain ⟨followed, hfollowed, hbase⟩ := h.followed
  have hsearch := h.search
  rw [Worklist.Followed, Locals.search, hdone, List.append_nil] at hfollowed
  rw [Locals.search, hdone] at hsearch
  exact ⟨hsearch, by rw [hbase, hfollowed, lastBase]⟩

variable (r inputFileName stream) in
/-- The direct imports are followed first. What comes after them asks for no include: a root file
that is imported again brings nothing but its own imports. -/
structure Ordered (s : Locals) : Prop where
  split : ∃ rest later, s.imports = rest ++ later ∧
    s.needsInclude ++ includesFrom r s.resolvedFileNames rest =
      directIncludes r inputFileName stream ∧
    (∀ i ∈ rest, i.baseFileName = inputFileName) ∧
    (∀ i ∈ later, i.baseFileName = inputFileName → i ∈ rootImports r inputFileName stream) ∧
    ∀ i ∈ rootImports r inputFileName stream, i ∈ rest ∨
      ∃ fileName ∈ s.resolvedFileNames, (graph r).target i = some fileName

theorem baseFileName_of_mem_importsOf {fileName : String} {i : FileImport}
    (h : i ∈ importsOf fileName doc) : i.baseFileName = fileName := by
  unfold importsOf at h
  split at h
  · cases h
  · obtain ⟨name, -, rfl⟩ := List.mem_map.mp h
    rfl

theorem Ordered.start (h : documentOf r stream inputFileName = some doc) :
    Ordered r inputFileName stream (.start inputFileName doc) where
  split := by
    refine ⟨importsOf inputFileName doc, [], (List.append_nil _).symm, ?_, ?_, ?_, ?_⟩
    · rw [directIncludes, rootImports_eq h]
      rfl
    · exact fun i hi => baseFileName_of_mem_importsOf hi
    · exact fun _ hi => absurd hi List.not_mem_nil
    · exact fun i hi => .inl (rootImports_eq h ▸ hi)

theorem definesStruct_eq {fileName : String} (h : document r fileName = some doc) :
    definesStruct r fileName = decide (doc.symbols.structs ≠ []) := by
  rw [definesStruct, h]
  rfl

/-- The imports of a file that was found, also when it is the root file. -/
theorem mem_rootImports {fileName : String} {i : FileImport}
    (hroot : Imported r inputFileName stream inputFileName → r.openFile inputFileName = stream)
    (hf : Imported r inputFileName stream fileName) (hdoc : document r fileName = some doc)
    (hi : i ∈ importsOf fileName doc) (hbase : i.baseFileName = inputFileName) :
    i ∈ rootImports r inputFileName stream := by
  have hname : fileName = inputFileName := (baseFileName_of_mem_importsOf hi).symm.trans hbase
  subst hname
  rw [document, hroot hf] at hdoc
  rw [rootImports_eq hdoc]
  exact hi

/-- The imports that come later, after the imports of a file that was found. -/
theorem mem_rootImports_append {fileName : String} {later : List FileImport}
    (hroot : Imported r inputFileName stream inputFileName → r.openFile inputFileName = stream)
    (hf : Imported r inputFileName stream fileName) (hdoc : document r fileName = some doc)
    (hlater : ∀ i ∈ later, i.baseFileName = inputFileName → i ∈ rootImports r inputFileName stream) :
    ∀ i ∈ later ++ importsOf fileName doc, i.baseFileName = inputFileName →
      i ∈ rootImports r inputFileName stream := by
  intro i hi hbase
  obtain hi | hi := List.mem_append.mp hi
  · exact hlater i hi hbase
  · exact mem_rootImports hroot hf hdoc hi hbase

theorem Ordered.round (h : Ordered r inputFileName stream s)
    (hinv : LoopInv r inputFileName stream doc s)
    (hroot : Imported r inputFileName stream inputFileName → r.openFile inputFileName = stream)
    (hround : Idl.round r inputFileName s = (s', none)) : Ordered r inputFileName stream s' := by
  obtain ⟨rest, later, himports, hneeds, hrest, hlater, hhandled⟩ := h.split
  obtain ⟨i, pending, fileName, hpending, htarget, hcases⟩ := round_next hround
  have hf : Imported r inputFileName stream fileName :=
    (hinv.search.pending i (by rw [Locals.search, hpending]; exact List.mem_cons_self)).reached
      htarget
  rw [himports] at hpending
  cases rest with
  | cons i' rest =>
    -- The import is one of the root document.
    rw [List.cons_append, List.cons.injEq] at hpending
    obtain ⟨rfl, rfl⟩ := hpending
    have hrest' : ∀ j ∈ rest, j.baseFileName = inputFileName :=
      fun j hj => hrest j (List.mem_cons_of_mem _ hj)
    rw [includesFrom, htarget] at hneeds
    dsimp only at hneeds
    obtain ⟨hmem, rfl⟩ | ⟨hmem, imported, _, _, himported, -, -, rfl⟩ := hcases
    · rw [if_pos hmem] at hneeds
      refine ⟨rest, later, rfl, hneeds, hrest', hlater, fun j hj => ?_⟩
      obtain hj | hj := hhandled j hj
      · obtain rfl | hj := List.mem_cons.mp hj
        · exact .inr ⟨fileName, hmem, htarget⟩
        · exact .inl hj
      · exact .inr hj
    · rw [if_neg hmem, definesStruct_eq himported] at hneeds
      refine ⟨rest, later ++ importsOf fileName imported, List.append_assoc _ _ _, ?_, hrest',
        mem_rootImports_append hroot hf himported hlater, fun j hj => ?_⟩
      · rw [← hneeds, hrest i' List.mem_cons_self]
        dsimp only
        by_cases hstructs : imported.symbols.structs = []
        · simp [hstructs]
        · simp [hstructs]
      · obtain hj | ⟨g, hg, hj⟩ := hhandled j hj
        · obtain rfl | hj := List.mem_cons.mp hj
          · exact .inr ⟨fileName, List.mem_append_right _ (List.mem_singleton.mpr rfl), htarget⟩
          · exact .inl hj
        · exact .inr ⟨g, List.mem_append_left _ hg, hj⟩
  | nil =>
    -- All imports of the root document were followed.
    rw [List.nil_append] at hpending
    subst hpending
    have hseen : ∀ j ∈ rootImports r inputFileName stream,
        ∃ g ∈ s.resolvedFileNames, (graph r).target j = some g :=
      fun j hj => (hhandled j hj).resolve_left List.not_mem_nil
    have hlater' : ∀ j ∈ pending, j.baseFileName = inputFileName →
        j ∈ rootImports r inputFileName stream :=
      fun j hj => hlater j (List.mem_cons_of_mem _ hj)
    obtain ⟨hmem, rfl⟩ | ⟨hmem, imported, _, _, himported, -, -, rfl⟩ := hcases
    · exact ⟨[], pending, rfl, hneeds, hrest, hlater', fun j hj => .inr (hseen j hj)⟩
    · have hbase : i.baseFileName ≠ inputFileName := by
        intro hbase
        obtain ⟨g, hg, htarget'⟩ := hseen i (hlater i List.mem_cons_self hbase)
        rw [htarget] at htarget'
        cases htarget'
        exact hmem hg
      refine ⟨[], pending ++ importsOf fileName imported, rfl, ?_, hrest,
        mem_rootImports_append hroot hf himported hlater', fun j hj => .inr ?_⟩
      · dsimp only
        rw [if_neg fun hi => hbase hi.1]
        exact hneeds
      · obtain ⟨g, hg, hj⟩ := hseen j hj
        exact ⟨g, List.mem_append_left _ hg, hj⟩

/-- The names that the loop collects are the direct imports to be included. -/
theorem Ordered.done (h : Ordered r inputFileName stream s) (hdone : s.imports = []) :
    s.needsInclude = directIncludes r inputFileName stream := by
  obtain ⟨rest, later, himports, hneeds, -⟩ := h.split
  rw [hdone] at himports
  rw [← hneeds, (List.append_eq_nil_iff.mp himports.symm).1, includesFrom, List.append_nil]

end Rounds

/-! ## The paths -/

section Paths

variable {r : Resolver} {inputFileName : String} {stream : Except Raised (Option Node)}
  {parsed : List String} {doc spec : IDLSpec} {fuel : ℕ}

/-- Without imports there is nothing to include. -/
theorem directIncludes_of_imports_eq_none (h : documentOf r stream inputFileName = some doc)
    (himports : doc.imports = none) : directIncludes r inputFileName stream = [] := by
  rw [directIncludes, rootImports_eq h, importsOf, himports]
  rfl

/-- **The include list of a parse that succeeds.** -/
theorem exists_lastBase
    (hroot : Imported r inputFileName stream inputFileName → r.openFile inputFileName = stream)
    (h : parse r inputFileName fuel stream = some (parsed, .ok ⟨some spec, none⟩)) :
    ∃ files, Worklist.Search (graph r) (rootImports r inputFileName stream) files ∧
      (directIncludes r inputFileName stream).mapM
        (r.resolve (lastBase r inputFileName stream files)) = .ok spec.resolvedImports := by
  unfold parse at h
  split at h
  · cases h
  · cases h
  · cases h
  · rename_i doc hparse
    have hdoc : documentOf r stream inputFileName = some doc := documentOf_eq_some.mpr hparse
    obtain ⟨⟨s', exit⟩, hloop, hexit⟩ := Option.map_eq_some_iff.mp h
    cases hexit
    obtain ⟨s, ⟨hinv, hbased, hordered⟩, hlast⟩ := loop_inv
      (I := fun s => LoopInv r inputFileName stream doc s ∧ Based r inputFileName stream s ∧
        Ordered r inputFileName stream s)
      (fun s s' hs hround => ⟨hs.1.round hround, hs.2.1.round hround,
        hs.2.2.round hs.1 hroot hround⟩)
      ⟨.start hdoc, .start hdoc, .start hdoc⟩ hloop
    obtain ⟨hdone, -, hfinish⟩ | ⟨hfail, -⟩ := round_exit hlast
    · obtain ⟨hsearch, hbase⟩ := hbased.done hdone
      obtain ⟨resolved, hresolved, hspec⟩ := bind_eq_ok.mp hfinish
      refine ⟨s.resolvedFileNames, hsearch, ?_⟩
      rw [hordered.done hdone, hbase] at hresolved
      rw [hresolved]
      cases hspec
      have hfresh := fresh_of_documentOf hdoc
      rw [Fresh, IDLSpec.resolvedImports] at hfresh
      rw [IDLSpec.resolvedImports, hinv.merged.imports]
      cases himports : doc.imports with
      | none =>
        rw [directIncludes_of_imports_eq_none hdoc himports] at hresolved
        cases hresolved
        rfl
      | some imports =>
        rw [himports] at hfresh
        simp only [Option.map_some, Option.getD_some] at hfresh ⊢
        rw [hfresh, List.nil_append]
    · exact absurd rfl (hfail spec)

/-- **When the include list is that of the root document.** In every parse that succeeds, the list of
the resolved imports consists of the paths that the resolver gives, for the root file, to the direct
imports that define a struct and were not seen earlier, exactly when it gives the same paths for the
file of the last import in breadth-first order. -/
theorem resolved_imports_iff (r : Resolver) (inputFileName : String)
    (stream : Except Raised (Option Node)) (fuel : ℕ) (parsed : List String) (spec : IDLSpec)
    (hroot : Imported r inputFileName stream inputFileName → r.openFile inputFileName = stream)
    (h : parse r inputFileName fuel stream = some (parsed, .ok ⟨some spec, none⟩)) :
    (directIncludes r inputFileName stream).mapM (r.resolve inputFileName) =
        .ok spec.resolvedImports ↔
      ∃ files, Worklist.Search (graph r) (rootImports r inputFileName stream) files ∧
        ∀ name ∈ directIncludes r inputFileName stream,
          r.resolve (lastBase r inputFileName stream files) name = r.resolve inputFileName name := by
  obtain ⟨files, hsearch, hresolved⟩ := exists_lastBase hroot h
  rw [mapM_eq_ok] at hresolved ⊢
  rw [← hresolved, List.map_inj_left]
  constructor
  · exact fun heq => ⟨files, hsearch, fun name hname => (heq name hname).symm⟩
  · rintro ⟨files', hsearch', heq⟩ name hname
    cases hsearch.unique hsearch'
    exact (heq name hname).symm

end Paths

/-! ## Relative imports -/

/-- A document with imports and a struct. -/
def structDocument (imports : List String) (structName : String) : Node :=
  let m : Mark := ⟨0, 0⟩
  .mapping m [
    (⟨m, "imports"⟩, .sequence m (imports.map (.scalar m))),
    (⟨m, "structs"⟩, .mapping m [(⟨m, structName⟩, .mapping m [
      (⟨m, "description"⟩, .scalar m "a struct"),
      (⟨m, "fields"⟩, .mapping m [(⟨m, "x"⟩, .scalar m "int")])])])]

/-- Names are relative to the directory of the file that imports them. `root.idl` imports
`lib/a.idl`, and this imports the files `libImports` of its directory. -/
def relativeFiles (libImports : List String) : Resolver where
  resolve base name :=
    let path := if base = "root.idl" then name else "lib/" ++ name
    .ok (if path ∈ ["lib/a.idl", "lib/b.idl"] then some path else none)
  openFile name :=
    match name with
    | "root.idl" => .ok (some (structDocument ["lib/a.idl"] "root"))
    | "lib/a.idl" => .ok (some (structDocument libImports "a"))
    | "lib/b.idl" => .ok (some (structDocument [] "b"))
    | _ => .error .osError
  int _ := .error ""

/-- The struct of such a document. -/
def structOf (fileName structName : String) (imported : Bool) : Struct where
  loc := ⟨fileName, 0, 0⟩
  name := structName
  description := some "a struct"
  fields := some [{ loc := ⟨fileName, 0, 0⟩, name := "x", type := some "int" }]
  imported := imported

/-- What `parse` returns for `root.idl`. -/
def relativeSpec (structs : List Struct) (resolvedImports : List (Option String))
    (dependencies : List String) : IDLSpec where
  symbols := { structs := structOf "root.idl" "root" false :: structs }
  imports := some {
    loc := ⟨"root.idl", 0, 0⟩
    imports := ["lib/a.idl"]
    resolvedImports
    dependencies }

/-- **An import below a direct import.** `lib/a.idl` imports a file, and the name `lib/a.idl` is then
looked for in the directory of `lib/a.idl`, where it does not exist. -/
theorem resolved_imports_relative :
    let r := relativeFiles ["b.idl"]
    ∃ spec, parse r "root.idl" 3 (r.openFile "root.idl") =
        some (["lib/a.idl", "lib/b.idl"], .ok ⟨some spec, none⟩) ∧
      (directIncludes r "root.idl" (r.openFile "root.idl")).mapM (r.resolve "root.idl") =
        .ok [some "lib/a.idl"] ∧
      spec.resolvedImports = [none] := by
  intro r
  refine ⟨relativeSpec [structOf "lib/a.idl" "a" true, structOf "lib/b.idl" "b" true] [none]
    ["lib/a.idl", "lib/b.idl"], ?_, ?_, ?_⟩
  · decide
  · decide
  · decide

/-- Without it the path is right. -/
theorem resolved_imports_flat :
    let r := relativeFiles []
    let spec := relativeSpec [structOf "lib/a.idl" "a" true] [some "lib/a.idl"] ["lib/a.idl"]
    (directIncludes r "root.idl" (r.openFile "root.idl")).mapM (r.resolve "root.idl") =
        .ok spec.resolvedImports ↔
      ∃ files, Worklist.Search (graph r) (rootImports r "root.idl" (r.openFile "root.idl")) files ∧
        ∀ name ∈ directIncludes r "root.idl" (r.openFile "root.idl"),
          r.resolve (lastBase r "root.idl" (r.openFile "root.idl") files) name =
            r.resolve "root.idl" name := by
  intro r spec
  have hparse : parse r "root.idl" 2 (r.openFile "root.idl") =
      some (["lib/a.idl"], .ok ⟨some spec, none⟩) := by decide
  exact resolved_imports_iff r "root.idl" (r.openFile "root.idl") 2 ["lib/a.idl"] spec
    (fun _ => rfl) hparse

end MongoTests.Idl
