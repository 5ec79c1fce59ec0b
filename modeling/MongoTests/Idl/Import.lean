import Mathlib.Data.List.Dedup
import MongoTests.Idl.ParserComplete
import MongoTests.Lib.Loop
import MongoTests.Lib.Worklist

/-!
# Imports

`parse` of `parser.py`: the root document and, breadth first, the documents that it imports. The
resolver and the files behind it are parameters.

* `round`: a round of the `while` loop, with its local variables; `parse`.
* `graph`: the files and their imports; `step_of_round`: the loop is a search of this graph.
* `Merged`: what the rounds have put together; `LoopInv.success`: a parse that succeeds.
* `complete_of_parse`: the document that `parse` returns is complete.
* **`parse_once_iff`**: every finite graph of files, and when each of them is parsed once.
-/

namespace MongoTests.Idl

open MongoTests.Lib

/-! ## The resolver -/

/-- An `ImportResolverBase`, the composed documents of its files, and Python's `int`. -/
structure Resolver where
  resolve : String → String → Except Raised (Option String)
  /-- `open`, then `yaml.compose`. -/
  openFile : String → Except Raised (Option Node)
  int : String → Except String Int

/-- A tuple of the worklist. -/
structure FileImport where
  importLocation : SourceLocation
  baseFileName : String
  importedFileName : String
  deriving DecidableEq

def importsOf (fileName : String) (spec : IDLSpec) : List FileImport :=
  match spec.imports with
  | none => []
  | some imports => imports.imports.map fun name => ⟨imports.loc, fileName, name⟩

def cannotFindImportError (i : FileImport) : ParserError where
  errorId := "ID0025"
  msg := "Could not resolve import '" ++ i.importedFileName ++ "', file not found"
  loc := i.importLocation

/-! ## The loop -/

/-- The local variables of `parse`. -/
structure Locals where
  /-- `root_doc.spec`. -/
  spec : IDLSpec
  imports : List FileImport
  /-- It has no value before the first round, and nothing reads it then. -/
  baseFileName : String
  needsInclude : List String := []
  resolvedFileNames : List String := []
  /-- The imported files that were parsed, in order. -/
  parsed : List String := []

/-- What `parse` returns or raises. -/
abbrev Exit := Except Raised IDLParsedSpec

/-- `_parse` on a stream. -/
def parseStream (r : Resolver) (stream : Except Raised (Option Node)) (fileName : String) : Exit := do
  let root ← stream
  parseDocument ⟨fileName, r.int⟩ root

/-- Merge the `cpp_includes`. The list of a set has no order that one could rely on. -/
def mergeIncludes (root doc : IDLSpec) : Except Raised IDLSpec :=
  match doc.globals.map Global.cppIncludes with
  | none | some [] => .ok root
  | some includes =>
    match root.globals with
    | none => .error .attributeError
    | some globals =>
      let cppIncludes := (globals.cppIncludes ++ includes).dedup
      .ok { root with globals := some { globals with cppIncludes } }

section Parse

variable (r : Resolver) (inputFileName : String)

/-- The end of a round: what the root document takes from the imported one. -/
def addDocument (s : Locals) (i : FileImport) (fileName : String) (doc : IDLSpec) :
    Locals × Option Exit :=
  let needsInclude :=
    if i.baseFileName = inputFileName ∧ doc.symbols.structs ≠ [] then
      s.needsInclude ++ [i.importedFileName]
    else s.needsInclude
  let s := { s with needsInclude, imports := s.imports ++ importsOf fileName doc }
  match mergeIncludes s.spec doc with
  | .error e => (s, some (.error e))
  | .ok spec =>
    match spec.symbols.addImported doc.symbols with
    | (symbols, []) => ({ s with spec := { spec with symbols } }, none)
    | (symbols, errors) =>
      ({ s with spec := { spec with symbols } }, some (.ok ⟨none, some errors⟩))

/-- Parse an imported file that was not parsed before. -/
def addFile (s : Locals) (i : FileImport) (fileName : String) : Locals × Option Exit :=
  let s := { s with
    resolvedFileNames := s.resolvedFileNames ++ [fileName]
    parsed := s.parsed ++ [fileName] }
  match parseStream r (r.openFile fileName) fileName with
  | .error e => (s, some (.error e))
  | .ok ⟨spec, some errors⟩ => (s, some (.ok ⟨spec, some errors⟩))
  | .ok ⟨none, none⟩ => (s, some (.error .attributeError))
  | .ok ⟨some doc, none⟩ => addDocument inputFileName s i fileName doc

/-- The code after the loop. It resolves the names against the file of the last round. A root
document without imports has nothing to include. -/
def finish (s : Locals) : Exit := do
  let resolved ← s.needsInclude.mapM (r.resolve s.baseFileName)
  let imports := s.spec.imports.map fun imports => { imports with
    resolvedImports := imports.resolvedImports ++ resolved
    dependencies := s.resolvedFileNames }
  pure ⟨some { s.spec with imports }, none⟩

/-- One test of the loop's condition, with the round or the code after the loop. -/
def round (s : Locals) : Locals × Option Exit :=
  match s.imports with
  | [] => (s, some (finish r s))
  | i :: imports =>
    let s := { s with imports, baseFileName := i.baseFileName }
    match r.resolve i.baseFileName i.importedFileName with
    | .error e => (s, some (.error e))
    | .ok resolved =>
      match resolved.filter (· ≠ "") with
      | none => (s, some (.ok ⟨none, some [cannotFindImportError i]⟩))
      | some fileName =>
        if fileName ∈ s.resolvedFileNames then (s, none)
        else addFile r inputFileName s i fileName

/-- The variables before the loop. -/
def Locals.start (spec : IDLSpec) : Locals where
  spec := spec
  imports := importsOf inputFileName spec
  baseFileName := inputFileName

/-- `parse`: the imported files that it parses, in order, and what it returns or raises. -/
def parse (fuel : ℕ) (stream : Except Raised (Option Node)) : Option (List String × Exit) :=
  match parseStream r stream inputFileName with
  | .error e => some ([], .error e)
  | .ok ⟨spec, some errors⟩ => some ([], .ok ⟨spec, some errors⟩)
  | .ok ⟨none, none⟩ => some ([], .error .attributeError)
  | .ok ⟨some spec, none⟩ =>
    (loop (round r inputFileName) fuel (.start inputFileName spec)).map fun x => (x.1.parsed, x.2)

end Parse

/-! ## The graph of the files -/

/-- The document of a stream that parses without errors. -/
def documentOf (r : Resolver) (stream : Except Raised (Option Node)) (fileName : String) :
    Option IDLSpec :=
  match parseStream r stream fileName with
  | .ok ⟨some doc, none⟩ => some doc
  | _ => none

theorem documentOf_eq_some {r : Resolver} {stream : Except Raised (Option Node)} {fileName : String}
    {doc : IDLSpec} :
    documentOf r stream fileName = some doc ↔ parseStream r stream fileName = .ok ⟨some doc, none⟩ := by
  unfold documentOf
  split
  · rename_i doc' h
    rw [h]
    simp
  · rename_i h
    simp only [reduceCtorEq, false_iff]
    exact h doc

/-- The document of an imported file. -/
def document (r : Resolver) (fileName : String) : Option IDLSpec :=
  documentOf r (r.openFile fileName) fileName

/-- The imports of the files, and the files that the resolver finds for them. -/
def graph (r : Resolver) : Worklist String FileImport where
  target i :=
    match r.resolve i.baseFileName i.importedFileName with
    | .ok resolved => resolved.filter (· ≠ "")
    | .error _ => none
  out fileName := ((document r fileName).map (importsOf fileName)).getD []

/-- The worklist and the files that were resolved. -/
def Locals.search (s : Locals) : Worklist.State String FileImport := ⟨s.imports, s.resolvedFileNames⟩

section Rounds

variable {r : Resolver} {inputFileName : String} {s s' : Locals} {exit : Exit}

theorem target_of_resolve {i : FileImport} {resolved : Option String}
    (h : r.resolve i.baseFileName i.importedFileName = .ok resolved) :
    (graph r).target i = resolved.filter (· ≠ "") := by
  rw [graph]
  dsimp only
  rw [h]

theorem resolve_of_target {i : FileImport} {fileName : String}
    (h : (graph r).target i = some fileName) :
    ∃ resolved, r.resolve i.baseFileName i.importedFileName = .ok resolved ∧
      resolved.filter (· ≠ "") = some fileName := by
  rw [graph] at h
  dsimp only at h
  split at h
  · rename_i resolved hresolve
    exact ⟨resolved, hresolve, h⟩
  · cases h

/-- **What a round does that goes on.** -/
theorem round_next (h : round r inputFileName s = (s', none)) :
    ∃ i rest fileName, s.imports = i :: rest ∧ (graph r).target i = some fileName ∧
      ((fileName ∈ s.resolvedFileNames ∧
          s' = { s with imports := rest, baseFileName := i.baseFileName }) ∨
        (fileName ∉ s.resolvedFileNames ∧ ∃ doc spec symbols,
          document r fileName = some doc ∧ mergeIncludes s.spec doc = .ok spec ∧
          spec.symbols.addImported doc.symbols = (symbols, []) ∧
          s' =
            { spec := { spec with symbols }
              imports := rest ++ importsOf fileName doc
              baseFileName := i.baseFileName
              needsInclude :=
                if i.baseFileName = inputFileName ∧ doc.symbols.structs ≠ [] then
                  s.needsInclude ++ [i.importedFileName]
                else s.needsInclude
              resolvedFileNames := s.resolvedFileNames ++ [fileName]
              parsed := s.parsed ++ [fileName] })) := by
  unfold round at h
  split at h
  · cases h
  · rename_i i rest himports
    dsimp only at h
    split at h
    · cases h
    · rename_i resolved hresolve
      split at h
      · cases h
      · rename_i fileName hfile
        refine ⟨i, rest, fileName, himports, (target_of_resolve hresolve).trans hfile, ?_⟩
        split_ifs at h with hmem
        · cases h
          exact .inl ⟨hmem, rfl⟩
        · refine .inr ⟨hmem, ?_⟩
          unfold addFile at h
          dsimp only at h
          split at h
          · cases h
          · cases h
          · cases h
          · rename_i doc hdoc
            have hdocument : document r fileName = some doc := documentOf_eq_some.mpr hdoc
            unfold addDocument at h
            dsimp only at h
            split at h
            · cases h
            · rename_i spec hmerge
              split at h
              · rename_i symbols hadd
                cases h
                exact ⟨doc, spec, symbols, hdocument, hmerge, hadd, rfl⟩
              · cases h

/-- A round that goes on is a step of the search. -/
theorem step_of_round (h : round r inputFileName s = (s', none)) :
    Worklist.Step (graph r) s.search s'.search := by
  obtain ⟨i, rest, fileName, himports, htarget, hcases⟩ := round_next h
  rw [Locals.search, himports]
  obtain ⟨hmem, rfl⟩ | ⟨hmem, doc, spec, symbols, hdoc, -, -, rfl⟩ := hcases
  · exact .skip htarget hmem
  · have hout : (graph r).out fileName = importsOf fileName doc := by simp [graph, hdoc]
    rw [Locals.search, ← hout]
    exact .visit htarget hmem

/-- A round that fails in an imported file has parsed it. -/
theorem addFile_exit {i : FileImport} {fileName : String}
    (h : addFile r inputFileName s i fileName = (s', some exit)) :
    s'.parsed = s.parsed ++ [fileName] ∧ ∀ spec, exit ≠ .ok ⟨some spec, none⟩ := by
  unfold addFile at h
  dsimp only at h
  split at h
  · cases h
    exact ⟨rfl, (fun _ he => by cases he)⟩
  · cases h
    exact ⟨rfl, (fun _ he => by cases he)⟩
  · cases h
    exact ⟨rfl, (fun _ he => by cases he)⟩
  · unfold addDocument at h
    dsimp only at h
    split at h
    · cases h
      exact ⟨rfl, (fun _ he => by cases he)⟩
    · split at h
      · cases h
      · cases h
        exact ⟨rfl, (fun _ he => by cases he)⟩

/-- **What a round does that leaves the loop.** It ends the parse when no import is pending, or it
fails, with at most one more file parsed. -/
theorem round_exit (h : round r inputFileName s = (s', some exit)) :
    (s.imports = [] ∧ s' = s ∧ finish r s = exit) ∨
    ((∀ spec, exit ≠ .ok ⟨some spec, none⟩) ∧
      (s'.parsed = s.parsed ∨ ∃ i rest fileName, s.imports = i :: rest ∧
        (graph r).target i = some fileName ∧ fileName ∉ s.resolvedFileNames ∧
        s'.parsed = s.parsed ++ [fileName])) := by
  unfold round at h
  split at h
  · rename_i himports
    cases h
    exact .inl ⟨himports, rfl, rfl⟩
  · rename_i i rest himports
    dsimp only at h
    split at h
    · cases h
      exact .inr ⟨(fun _ he => by cases he), .inl rfl⟩
    · rename_i resolved hresolve
      split at h
      · cases h
        exact .inr ⟨(fun _ he => by cases he), .inl rfl⟩
      · rename_i fileName hfile
        split_ifs at h with hmem
        · cases h
        · obtain ⟨hparsed, hexit⟩ := addFile_exit h
          exact .inr ⟨hexit, .inr ⟨i, rest, fileName, himports,
            (target_of_resolve hresolve).trans hfile, hmem, hparsed⟩⟩

end Rounds

/-! ## What the rounds put together -/

/-- The symbols that an imported file contributes. -/
def importedSymbols (r : Resolver) (fileName : String) : List Symbol :=
  ((document r fileName).map fun doc => doc.symbols.importedSymbols).getD []

/-- The `cpp_includes` of a file. -/
def includesOf (r : Resolver) (fileName : String) : List String :=
  (((document r fileName).bind IDLSpec.globals).map Global.cppIncludes).getD []

/-- The root document after some rounds, with what its parts come from. -/
structure Merged (r : Resolver) (start : List FileImport) (root : IDLSpec) (s : Locals) : Prop where
  parsed : s.parsed = s.resolvedFileNames
  imports : s.spec.imports = root.imports
  globals : s.spec.globals.isSome = root.globals.isSome
  includes : ∀ f ∈ s.resolvedFileNames, includesOf r f ≠ [] → root.globals.isSome
  names : s.spec.symbols.names.Nodup
  symbols : s.spec.symbols.symbols.Perm
    (root.symbols.symbols ++ s.resolvedFileNames.flatMap (importedSymbols r))
  needsInclude : ∀ name ∈ s.needsInclude, ∃ i j, Worklist.Item (graph r) start i ∧
    Worklist.Item (graph r) start j ∧ i.baseFileName = s.baseFileName ∧ j.importedFileName = name

theorem Merged.start (r : Resolver) (inputFileName : String) (start : List FileImport)
    {root : IDLSpec} (h : root.symbols.names.Nodup) :
    Merged r start root (.start inputFileName root) where
  parsed := rfl
  imports := rfl
  globals := rfl
  includes _ hf := absurd hf List.not_mem_nil
  names := h
  symbols := by
    rw [Locals.start, List.flatMap_nil, List.append_nil]
  needsInclude _ hname := absurd hname List.not_mem_nil

/-- The includes are merged when the root document has globals, or there is nothing to merge. -/
theorem mergeIncludes_eq_ok {root doc spec : IDLSpec} (h : mergeIncludes root doc = .ok spec) :
    spec.imports = root.imports ∧ spec.globals.isSome = root.globals.isSome ∧
      spec.symbols = root.symbols ∧
      ((doc.globals.map Global.cppIncludes).getD [] ≠ [] → root.globals.isSome) := by
  unfold mergeIncludes at h
  split at h
  · rename_i hnone
    cases h
    exact ⟨rfl, rfl, rfl, fun hne => absurd (by rw [hnone]; rfl) hne⟩
  · rename_i hnil
    cases h
    exact ⟨rfl, rfl, rfl, fun hne => absurd (by rw [hnil]; rfl) hne⟩
  · split at h
    · cases h
    · rename_i globals hglobals
      cases h
      exact ⟨rfl, by rw [hglobals]; rfl, rfl, fun _ => by rw [hglobals]; rfl⟩

theorem exists_mergeIncludes {root doc : IDLSpec}
    (h : (doc.globals.map Global.cppIncludes).getD [] ≠ [] → root.globals.isSome) :
    ∃ spec, mergeIncludes root doc = .ok spec := by
  unfold mergeIncludes
  split
  · exact ⟨root, rfl⟩
  · exact ⟨root, rfl⟩
  · rename_i includes hnil hincludes
    have hne : (doc.globals.map Global.cppIncludes).getD [] ≠ [] := by
      rw [hincludes]
      exact hnil
    obtain ⟨globals, hglobals⟩ := Option.isSome_iff_exists.mp (h hne)
    rw [hglobals]
    exact ⟨_, rfl⟩

section Rounds

variable {r : Resolver} {inputFileName : String} {start : List FileImport} {root : IDLSpec}
  {s s' : Locals} {exit : Exit}

theorem Merged.round (h : Merged r start root s) (hinv : Worklist.Inv (graph r) start s.search)
    (hround : Idl.round r inputFileName s = (s', none)) : Merged r start root s' := by
  obtain ⟨i, rest, fileName, himports, htarget, hcases⟩ := round_next hround
  have hitem : Worklist.Item (graph r) start i :=
    hinv.pending i (by rw [Locals.search, himports]; exact List.mem_cons_self)
  -- The names were asked for by some file, and the base is now that of this round.
  have hneeds : ∀ name ∈ s.needsInclude, ∃ i' j, Worklist.Item (graph r) start i' ∧
      Worklist.Item (graph r) start j ∧ i'.baseFileName = i.baseFileName ∧
      j.importedFileName = name := by
    intro name hname
    obtain ⟨-, j, -, hj, -, hname⟩ := h.needsInclude name hname
    exact ⟨i, j, hitem, hj, rfl, hname⟩
  obtain ⟨hmem, rfl⟩ | ⟨hmem, doc, spec, symbols, hdoc, hmerge, hadd, rfl⟩ := hcases
  · exact ⟨h.parsed, h.imports, h.globals, h.includes, h.names, h.symbols, hneeds⟩
  · obtain ⟨hspecImports, hspecGlobals, hspecSymbols, hincludes⟩ := mergeIncludes_eq_ok hmerge
    obtain ⟨hnodup, -, hperm⟩ :=
      SymbolTable.addAll_spec (hspecSymbols ▸ h.names) doc.symbols.importedSymbols
    rw [SymbolTable.addImported] at hadd
    rw [hadd] at hnodup hperm
    have hcontrib : importedSymbols r fileName = doc.symbols.importedSymbols := by
      simp [importedSymbols, hdoc]
    refine ⟨by rw [h.parsed], hspecImports.trans h.imports, hspecGlobals.trans h.globals, ?_,
      hnodup, ?_, ?_⟩
    · refine forall_mem_append_singleton h.includes fun hne => ?_
      rw [← h.globals]
      refine hincludes ?_
      simpa [includesOf, hdoc] using hne
    · rw [List.flatMap_append, List.flatMap_singleton, hcontrib, ← List.append_assoc]
      refine (hperm rfl).trans (List.Perm.append_right _ ?_)
      rw [hspecSymbols]
      exact h.symbols
    · dsimp only
      split_ifs
      · exact forall_mem_append_singleton hneeds ⟨i, i, hitem, hitem, rfl, rfl⟩
      · exact hneeds

end Rounds

/-! ## Complete documents -/

theorem Complete.importedSymbols {doc : IDLSpec} (h : Complete doc) :
    ∀ s ∈ doc.symbols.importedSymbols, s.Complete := by
  simp only [SymbolTable.importedSymbols, List.mem_map, List.mem_append]
  rintro _ ⟨_, ⟨c, hc, rfl⟩ | ⟨s, hs, rfl⟩ | ⟨e, he, rfl⟩ | ⟨t, ht, rfl⟩, rfl⟩
  · exact h.commands c hc
  · exact h.structs s hs
  · exact h.enums e he
  · exact h.types t ht

section Rounds

variable {r : Resolver} {inputFileName : String} {stream : Except Raised (Option Node)}
  {doc : IDLSpec}

theorem complete_of_documentOf (h : documentOf r stream inputFileName = some doc) :
    Complete doc := by
  obtain ⟨node, -, hnode⟩ := bind_eq_ok.mp (documentOf_eq_some.mp h)
  exact complete_of_parseDocument hnode

/-- The imported symbols are complete too. -/
theorem Complete.round {s s' : Locals} (h : Complete s.spec)
    (hround : Idl.round r inputFileName s = (s', none)) : Complete s'.spec := by
  obtain ⟨i, rest, fileName, -, -, ⟨-, rfl⟩ | ⟨-, doc, spec, symbols, hdoc, hmerge, hadd, rfl⟩⟩ :=
    round_next hround
  · exact h
  · obtain ⟨hsymbols, hparameters, hconfigs⟩ : spec.symbols = s.spec.symbols ∧
        spec.serverParameters = s.spec.serverParameters ∧ spec.configs = s.spec.configs := by
      unfold mergeIncludes at hmerge
      split at hmerge
      · cases hmerge
        exact ⟨rfl, rfl, rfl⟩
      · cases hmerge
        exact ⟨rfl, rfl, rfl⟩
      · split at hmerge
        · cases hmerge
        · cases hmerge
          exact ⟨rfl, rfl, rfl⟩
    obtain ⟨hnodup, -, hperm⟩ :=
      SymbolTable.addAll_spec (hsymbols ▸ h.names) doc.symbols.importedSymbols
    rw [SymbolTable.addImported] at hadd
    rw [hadd] at hnodup hperm
    refine complete_of_symbols (fun symbol hsymbol => ?_) ?_ ?_ hnodup
    · obtain hsymbol | hsymbol := List.mem_append.mp ((hperm rfl).mem_iff.mp hsymbol)
      · rw [hsymbols] at hsymbol
        exact h.symbol_mem hsymbol
      · exact (complete_of_documentOf hdoc).importedSymbols symbol hsymbol
    · dsimp only
      rw [hparameters]
      exact h.serverParameters
    · dsimp only
      rw [hconfigs]
      exact h.configs

/-- **What `parse` returns without errors is complete.** -/
theorem complete_of_parse {fuel : ℕ} {parsed : List String} {spec : IDLSpec}
    (h : parse r inputFileName fuel stream = some (parsed, .ok ⟨some spec, none⟩)) :
    Complete spec := by
  unfold parse at h
  split at h
  · cases h
  · cases h
  · cases h
  · rename_i doc hdoc
    obtain ⟨⟨s', exit⟩, hloop, hexit⟩ := Option.map_eq_some_iff.mp h
    cases hexit
    have hround : ∀ s s', Complete s.spec → Idl.round r inputFileName s = (s', none) →
        Complete s'.spec := fun s s' hs hround => hs.round hround
    obtain ⟨s, hs, hlast⟩ :=
      loop_inv hround (complete_of_documentOf (documentOf_eq_some.mpr hdoc)) hloop
    obtain ⟨-, -, hfinish⟩ | ⟨hfail, -⟩ := round_exit hlast
    · obtain ⟨resolved, -, hspec⟩ := bind_eq_ok.mp hfinish
      cases hspec
      exact ⟨hs.types, hs.enums, hs.structs, hs.commands, hs.serverParameters, hs.configs, hs.names⟩
    · exact absurd rfl (hfail spec)

end Rounds

/-! ## Graphs of files -/

section Graph

variable (r : Resolver) (inputFileName : String) (stream : Except Raised (Option Node))

/-- The imports of the root document. -/
def rootImports : List FileImport :=
  ((documentOf r stream inputFileName).map (importsOf inputFileName)).getD []

/-- The files that the root document or one of these files imports. -/
def Imported (f : String) : Prop :=
  Worklist.Reached (graph r) (rootImports r inputFileName stream) f

/-- An import of one of these files, or of the root. -/
def ImportItem (i : FileImport) : Prop :=
  Worklist.Item (graph r) (rootImports r inputFileName stream) i

/-- All files are found and parse, and no two of them share the name of a symbol. The resolver knows
the root file as `root`. It does not raise on a name that is imported, whatever the base. -/
structure Clean (root : String) (doc : IDLSpec) : Prop where
  rootDocument : documentOf r stream inputFileName = some doc
  found : ∀ i, ImportItem r inputFileName stream i → (graph r).target i ≠ none
  parses : ∀ f, Imported r inputFileName stream f → document r f ≠ none
  answers : ∀ i j e, ImportItem r inputFileName stream i → ImportItem r inputFileName stream j →
    r.resolve i.baseFileName j.importedFileName ≠ .error e
  distinctRoot : ∀ f, Imported r inputFileName stream f → f ≠ root →
    doc.symbols.names.Disjoint ((importedSymbols r f).map Symbol.name)
  distinct : ∀ f g, Imported r inputFileName stream f → Imported r inputFileName stream g → f ≠ g →
    ((importedSymbols r f).map Symbol.name).Disjoint ((importedSymbols r g).map Symbol.name)

/-- The dependencies that a document lists. -/
def IDLSpec.dependencies (spec : IDLSpec) : List String :=
  (spec.imports.map Import.dependencies).getD []

/-- The spec that a parse should return: the imported files are its dependencies, and its symbols are
those of the root document and of these files. -/
structure AllImported (doc spec : IDLSpec) : Prop where
  nodup : spec.dependencies.Nodup
  dependencies : ∀ f, f ∈ spec.dependencies ↔ Imported r inputFileName stream f
  names : spec.symbols.names.Nodup
  symbols : spec.symbols.symbols.Perm
    (doc.symbols.symbols ++ spec.dependencies.flatMap (importedSymbols r))

/-- Each file is parsed once, also the root, and the parse succeeds. -/
structure ParsedOnce (root : String) (doc : IDLSpec) (parsed : List String) (exit : Exit) :
    Prop where
  nodup : (root :: parsed).Nodup
  files : ∀ f, f ∈ root :: parsed ↔ f = root ∨ Imported r inputFileName stream f
  success : ∃ spec, exit = .ok ⟨some spec, none⟩ ∧ AllImported r inputFileName stream doc spec

end Graph

section Runs

variable {r : Resolver} {inputFileName : String} {stream : Except Raised (Option Node)}
  {root : String} {doc spec : IDLSpec} {s s' : Locals} {exit : Exit}

variable (r inputFileName stream doc) in
/-- The invariant of the loop. -/
structure LoopInv (s : Locals) : Prop where
  search : Worklist.Inv (graph r) (rootImports r inputFileName stream) s.search
  merged : Merged r (rootImports r inputFileName stream) doc s

theorem rootImports_eq (h : documentOf r stream inputFileName = some doc) :
    rootImports r inputFileName stream = importsOf inputFileName doc := by
  rw [rootImports, h]
  rfl

theorem names_nodup (h : documentOf r stream inputFileName = some doc) :
    doc.symbols.names.Nodup :=
  (complete_of_documentOf h).names

theorem LoopInv.start (h : documentOf r stream inputFileName = some doc) :
    LoopInv r inputFileName stream doc (.start inputFileName doc) where
  search := by
    rw [Locals.search, Locals.start, ← rootImports_eq h]
    exact .init
  merged := .start r inputFileName _ (names_nodup h)

theorem LoopInv.round (h : LoopInv r inputFileName stream doc s)
    (hround : Idl.round r inputFileName s = (s', none)) :
    LoopInv r inputFileName stream doc s' :=
  ⟨h.search.step (step_of_round hround), h.merged.round h.search hround⟩

/-- A root document with errors ends the parse. -/
theorem parse_of_none (h : documentOf r stream inputFileName = none) :
    ∃ exit, (∀ fuel, parse r inputFileName fuel stream = some ([], exit)) ∧
      ∀ spec, exit ≠ .ok ⟨some spec, none⟩ := by
  unfold parse
  split
  · exact ⟨_, fun _ => rfl, fun _ he => by cases he⟩
  · exact ⟨_, fun _ => rfl, fun _ he => by cases he⟩
  · exact ⟨_, fun _ => rfl, fun _ he => by cases he⟩
  · rename_i spec hspec
    rw [documentOf_eq_some.mpr hspec] at h
    cases h

/-- **The loop terminates**, in a round that starts in a state with the invariant. -/
theorem exists_run (hdoc : documentOf r stream inputFileName = some doc)
    (hfinite : {f | Imported r inputFileName stream f}.Finite) :
    ∃ s s' exit, LoopInv r inputFileName stream doc s ∧
      Idl.round r inputFileName s = (s', some exit) ∧
      ∃ n, ∀ fuel, n ≤ fuel → parse r inputFileName fuel stream = some (s'.parsed, exit) := by
  have hcost : ∀ s s', LoopInv r inputFileName stream doc s →
      Idl.round r inputFileName s = (s', none) →
      (graph r).cost hfinite.toFinset s'.search < (graph r).cost hfinite.toFinset s.search :=
    fun s s' hs hround =>
      Worklist.cost_lt (fun f hf => hfinite.mem_toFinset.mpr hf) hs.search (step_of_round hround)
  obtain ⟨s', exit, hloop⟩ :=
    exists_loop_eq (fun s s' hs hround => hs.round hround) hcost (LoopInv.start hdoc)
  obtain ⟨s, hs, hround⟩ := loop_inv (fun s s' hs hround => LoopInv.round hs hround)
    (LoopInv.start hdoc) (hloop _ (Nat.lt_succ_self _))
  refine ⟨s, s', exit, hs, hround,
    (graph r).cost hfinite.toFinset (Locals.start inputFileName doc).search + 1,
    fun fuel hfuel => ?_⟩
  rw [parse, documentOf_eq_some.mp hdoc]
  dsimp only
  rw [hloop fuel hfuel]
  rfl

/-- However the loop is left, each imported file was parsed at most once. -/
theorem LoopInv.parsed_nodup (h : LoopInv r inputFileName stream doc s)
    (hround : Idl.round r inputFileName s = (s', some exit)) :
    s'.parsed.Nodup ∧ ∀ f ∈ s'.parsed, Imported r inputFileName stream f := by
  have hbefore : s.parsed.Nodup ∧ ∀ f ∈ s.parsed, Imported r inputFileName stream f := by
    rw [h.merged.parsed]
    exact ⟨h.search.nodup, h.search.reached⟩
  obtain ⟨-, rfl, -⟩ | ⟨-, hparsed | ⟨i, rest, f, himports, htarget, hf, hparsed⟩⟩ :=
    round_exit hround
  · exact hbefore
  · rw [hparsed]
    exact hbefore
  · have hitem := h.search.pending i (by rw [Locals.search, himports]; exact List.mem_cons_self)
    rw [hparsed]
    refine ⟨?_, forall_mem_append_singleton hbefore.2 (hitem.reached htarget)⟩
    rw [← List.concat_eq_append]
    exact hbefore.1.concat (h.merged.parsed ▸ hf)

/-- Nothing is imported into a root document without imports. -/
theorem not_imported (hdoc : documentOf r stream inputFileName = some doc)
    (h : doc.imports = none) (f : String) : ¬ Imported r inputFileName stream f := by
  intro hf
  have hnil : rootImports r inputFileName stream = [] := by
    rw [rootImports_eq hdoc, importsOf, h]
  induction hf with
  | start hi => simp [hnil] at hi
  | next _ _ _ ih => exact ih

/-- **A parse that succeeds** has parsed all files that are imported. -/
theorem LoopInv.success (hdoc : documentOf r stream inputFileName = some doc)
    (h : LoopInv r inputFileName stream doc s)
    (hround : Idl.round r inputFileName s = (s', some (.ok ⟨some spec, none⟩))) :
    s'.parsed = s.resolvedFileNames ∧
      (∀ f, f ∈ s.resolvedFileNames ↔ Imported r inputFileName stream f) ∧
      AllImported r inputFileName stream doc spec := by
  obtain ⟨hdone, rfl, hfinish⟩ | ⟨hfail, -⟩ := round_exit hround
  · have hfiles : ∀ f, f ∈ s'.resolvedFileNames ↔ Imported r inputFileName stream f :=
      fun f => h.search.mem_visited_iff hdone
    obtain ⟨resolved, -, hspec⟩ := bind_eq_ok.mp hfinish
    cases hspec
    have hdeps : IDLSpec.dependencies { s'.spec with
        imports := s'.spec.imports.map fun imports => { imports with
          resolvedImports := imports.resolvedImports ++ resolved
          dependencies := s'.resolvedFileNames } } = s'.resolvedFileNames := by
      rw [IDLSpec.dependencies, h.merged.imports]
      cases himports : doc.imports with
      | none =>
        refine (List.eq_nil_iff_forall_not_mem.mpr fun f hf => ?_).symm
        exact not_imported hdoc himports f ((hfiles f).mp hf)
      | some imports => rfl
    refine ⟨h.merged.parsed, hfiles, ?_, ?_, h.merged.names, ?_⟩
    · rw [hdeps]
      exact h.search.nodup
    · rw [hdeps]
      exact hfiles
    · rw [hdeps]
      exact h.merged.symbols
  · exact absurd rfl (hfail spec)

/-- The symbols of an imported file find their names free. -/
theorem Clean.addImported (hc : Clean r inputFileName stream root doc)
    (hroot : ¬ Imported r inputFileName stream root) (h : LoopInv r inputFileName stream doc s)
    {f : String} {imported : IDLSpec} (hf : Imported r inputFileName stream f)
    (hnew : f ∉ s.resolvedFileNames) (himported : document r f = some imported)
    (hspec : spec.symbols = s.spec.symbols) :
    ∃ symbols, spec.symbols.addImported imported.symbols = (symbols, []) := by
  have hcontrib : importedSymbols r f = imported.symbols.importedSymbols := by
    simp [importedSymbols, himported]
  have hnodup : (imported.symbols.importedSymbols.map Symbol.name).Nodup :=
    (SymbolTable.names_importedSymbols _).nodup_iff.mpr (names_nodup himported)
  have hdisjoint : spec.symbols.names.Disjoint
      (imported.symbols.importedSymbols.map Symbol.name) := by
    rw [← hcontrib, hspec]
    intro name hname
    rw [SymbolTable.names, (h.merged.symbols.map Symbol.name).mem_iff, List.map_append,
      List.mem_append] at hname
    obtain hname | hname := hname
    · exact hc.distinctRoot f hf (fun heq => hroot (heq ▸ hf)) hname
    · obtain ⟨symbol, hsymbol, rfl⟩ := List.mem_map.mp hname
      obtain ⟨g, hg, hsymbol⟩ := List.mem_flatMap.mp hsymbol
      exact hc.distinct g f (h.search.reached g hg) hf (fun heq => hnew (heq ▸ hg))
        (List.mem_map_of_mem hsymbol)
  obtain ⟨-, htaken, -⟩ := SymbolTable.addAll_spec (hspec ▸ h.merged.names)
    imported.symbols.importedSymbols
  refine ⟨(spec.symbols.addImported imported.symbols).1, Prod.ext rfl ?_⟩
  by_contra herrors
  exact SymbolTable.not_taken hnodup hdisjoint (htaken.mp herrors)

variable (r inputFileName stream doc) in
/-- The root document can take the `cpp_includes` of the imported files. -/
def IncludesFit : Prop :=
  doc.globals.isSome ∨ ∀ f, Imported r inputFileName stream f → includesOf r f = []

/-- While an import is pending, a round goes on. -/
theorem Clean.exists_round (hc : Clean r inputFileName stream root doc)
    (hroot : ¬ Imported r inputFileName stream root)
    (hincludes : IncludesFit r inputFileName stream doc)
    (h : LoopInv r inputFileName stream doc s) (hpending : s.imports ≠ []) :
    ∃ s', Idl.round r inputFileName s = (s', none) := by
  obtain ⟨i, rest, himports⟩ := List.exists_cons_of_ne_nil hpending
  have hitem : ImportItem r inputFileName stream i :=
    h.search.pending i (by rw [Locals.search, himports]; exact List.mem_cons_self)
  obtain ⟨f, htarget⟩ := Option.ne_none_iff_exists'.mp (hc.found i hitem)
  have hf : Imported r inputFileName stream f := hitem.reached htarget
  obtain ⟨imported, himported⟩ := Option.ne_none_iff_exists'.mp (hc.parses f hf)
  obtain ⟨resolved, hresolve, hfile⟩ := resolve_of_target htarget
  rw [Idl.round, himports]
  dsimp only
  rw [hresolve]
  dsimp only
  rw [hfile]
  dsimp only
  split_ifs with hmem
  · exact ⟨_, rfl⟩
  · rw [addFile, documentOf_eq_some.mp himported]
    dsimp only
    have hfit : (imported.globals.map Global.cppIncludes).getD [] ≠ [] → s.spec.globals.isSome := by
      intro hne
      rw [h.merged.globals]
      refine hincludes.resolve_right fun hnone => hne ?_
      simpa [includesOf, himported] using hnone f hf
    obtain ⟨spec, hmerge⟩ := exists_mergeIncludes hfit
    obtain ⟨symbols, hadd⟩ :=
      hc.addImported hroot h hf hmem himported (mergeIncludes_eq_ok hmerge).2.2.1
    rw [addDocument]
    dsimp only
    rw [hmerge]
    dsimp only
    rw [hadd]
    exact ⟨_, rfl⟩

/-- The code after the loop finds its files. -/
theorem Clean.exists_finish (hc : Clean r inputFileName stream root doc)
    (h : LoopInv r inputFileName stream doc s) :
    ∃ spec, finish r s = .ok ⟨some spec, none⟩ := by
  have hresolve : ∃ resolved, s.needsInclude.mapM (r.resolve s.baseFileName) = .ok resolved := by
    refine exists_mapM_eq_ok fun name hname => ?_
    obtain ⟨i, j, hi, hj, hbase, rfl⟩ := h.merged.needsInclude name hname
    rw [← hbase]
    cases hresolve : r.resolve i.baseFileName j.importedFileName with
    | error e => exact absurd hresolve (hc.answers i j e hi hj)
    | ok resolved => exact ⟨resolved, rfl⟩
  obtain ⟨resolved, hresolved⟩ := hresolve
  exact ⟨_, bind_eq_ok.mpr ⟨resolved, hresolved, rfl⟩⟩

/-- **Imports are parsed once.** For every finite graph of files, `parse` terminates, it parses no
imported file twice, and a parse that succeeds has parsed all of them. When all files parse and their
symbols are distinct, each file is parsed once, the root included, and the parse succeeds with all
symbols and dependencies, exactly when the root is not imported and has globals for the
`cpp_includes` of the files, if there are any. -/
theorem parse_once_iff (r : Resolver) (inputFileName root : String)
    (stream : Except Raised (Option Node))
    (hfinite : {f | Imported r inputFileName stream f}.Finite) :
    ∃ parsed exit,
      (∃ n, ∀ fuel, n ≤ fuel → parse r inputFileName fuel stream = some (parsed, exit)) ∧
      parsed.Nodup ∧ (∀ f ∈ parsed, Imported r inputFileName stream f) ∧
      (∀ spec, exit = .ok ⟨some spec, none⟩ →
        ∀ f, Imported r inputFileName stream f → f ∈ parsed) ∧
      ∀ doc, Clean r inputFileName stream root doc →
        (ParsedOnce r inputFileName stream root doc parsed exit ↔
          ¬ Imported r inputFileName stream root ∧ IncludesFit r inputFileName stream doc) := by
  cases hdoc : documentOf r stream inputFileName with
  | none =>
    obtain ⟨exit, hparse, hfail⟩ := parse_of_none hdoc
    refine ⟨[], exit, ⟨0, fun fuel _ => hparse fuel⟩, List.nodup_nil,
      fun _ hf => absurd hf List.not_mem_nil, fun spec hspec => absurd hspec (hfail spec),
      fun doc hc => ?_⟩
    rw [hc.rootDocument] at hdoc
    cases hdoc
  | some doc =>
    obtain ⟨s, s', exit, hs, hround, hparse⟩ := exists_run hdoc hfinite
    obtain ⟨hnodup, himported⟩ := hs.parsed_nodup hround
    refine ⟨s'.parsed, exit, hparse, hnodup, himported, ?_, fun doc' hc => ?_⟩
    · rintro spec rfl f hf
      obtain ⟨hparsed, hfiles, -⟩ := hs.success hdoc hround
      rw [hparsed]
      exact (hfiles f).mpr hf
    · have heq := hc.rootDocument
      rw [hdoc] at heq
      cases heq
      constructor
      · intro honce
        obtain ⟨spec, rfl, -⟩ := honce.success
        obtain ⟨hparsed, hfiles, -⟩ := hs.success hdoc hround
        refine ⟨fun hroot => ?_, or_iff_not_imp_left.mpr fun hnone f hf => ?_⟩
        · refine (List.nodup_cons.mp honce.nodup).1 ?_
          rw [hparsed]
          exact (hfiles root).mpr hroot
        · by_contra hne
          exact hnone (hs.merged.includes f ((hfiles f).mpr hf) hne)
      · rintro ⟨hroot, hincludes⟩
        have hdone : s.imports = [] := by
          by_contra hpending
          obtain ⟨t, ht⟩ := hc.exists_round hroot hincludes hs hpending
          rw [ht] at hround
          cases hround
        obtain ⟨spec, hfinish⟩ := hc.exists_finish hs
        have hexit : exit = .ok ⟨some spec, none⟩ := by
          rw [round, hdone] at hround
          cases hround
          exact hfinish
        subst hexit
        obtain ⟨hparsed, hfiles, hall⟩ := hs.success hdoc hround
        refine ⟨List.nodup_cons.mpr ⟨fun hmem => hroot (himported root hmem), hnodup⟩, fun f => ?_,
          spec, rfl, hall⟩
        rw [List.mem_cons, hparsed, hfiles f]

end Runs

/-! ## Two files -/

/-- A check of a graph whose files are listed. -/
theorem clean_of_closed {r : Resolver} {inputFileName root : String}
    {stream : Except Raised (Option Node)} {doc : IDLSpec} {files : List String}
    (hdoc : documentOf r stream inputFileName = some doc)
    (hclosed : ∀ i ∈ rootImports r inputFileName stream ++ files.flatMap (graph r).out,
      ((graph r).target i).any (· ∈ files) = true)
    (hparses : ∀ f ∈ files, document r f ≠ none)
    (hanswers : ∀ base name e, r.resolve base name ≠ .error e)
    (hroot : ∀ f ∈ files, f ≠ root →
      ∀ s ∈ importedSymbols r f, s.name ∉ doc.symbols.names)
    (hdistinct : ∀ f ∈ files, ∀ g ∈ files, f ≠ g →
      ∀ s ∈ importedSymbols r f, ∀ s' ∈ importedSymbols r g, s.name ≠ s'.name) :
    Clean r inputFileName stream root doc ∧
      ∀ f, Imported r inputFileName stream f → f ∈ files := by
  have htarget : ∀ i ∈ rootImports r inputFileName stream ++ files.flatMap (graph r).out,
      ∃ f ∈ files, (graph r).target i = some f := by
    intro i hi
    obtain ⟨f, hf, hmem⟩ := (Option.any_eq_true _ _).mp (hclosed i hi)
    exact ⟨f, of_decide_eq_true hmem, hf⟩
  obtain ⟨hfiles, hitems⟩ := Worklist.reached_of_closed (G := graph r) fun i hi f hf => by
    obtain ⟨g, hg, htarget⟩ := htarget i hi
    rw [hf] at htarget
    cases htarget
    exact hg
  refine ⟨⟨hdoc, fun i hi => ?_, fun f hf => hparses f (hfiles f hf),
    fun i j e _ _ => hanswers _ _ e, fun f hf hne name hname hname' => ?_,
    fun f g hf hg hne name hname hname' => ?_⟩, hfiles⟩
  · obtain ⟨f, -, hf⟩ := htarget i (hitems i hi)
    rw [hf]
    exact Option.some_ne_none f
  · obtain ⟨s, hs, rfl⟩ := List.mem_map.mp hname'
    exact hroot f (hfiles f hf) hne s hs hname
  · obtain ⟨s, hs, rfl⟩ := List.mem_map.mp hname
    obtain ⟨s', hs', heq⟩ := List.mem_map.mp hname'
    exact hdistinct f (hfiles f hf) g (hfiles g hg) hne s hs s' hs' heq.symm

/-- A document with one import and one type. -/
def importingDocument (imported typeName : String) : Node :=
  let m : Mark := ⟨0, 0⟩
  .mapping m [
    (⟨m, "imports"⟩, .sequence m [.scalar m imported]),
    (⟨m, "types"⟩, .mapping m [(⟨m, typeName⟩, .mapping m [
      (⟨m, "description"⟩, .scalar m "a type"),
      (⟨m, "cpp_type"⟩, .scalar m "int"),
      (⟨m, "bson_serialization_type"⟩, .scalar m "int")])])]

/-- `root.idl` imports `lib.idl`, which imports the file `libImport`. -/
def twoFiles (libImport : String) : Resolver where
  resolve _ name := .ok (if name ∈ ["root.idl", "lib.idl"] then some name else none)
  openFile name :=
    match name with
    | "root.idl" => .ok (some (importingDocument "lib.idl" "a"))
    | "lib.idl" => .ok (some (importingDocument libImport "b"))
    | _ => .error .osError
  int _ := .error ""

/-- The document of `root.idl`. -/
def rootSpec : IDLSpec where
  symbols := { types := [{
    loc := ⟨"root.idl", 0, 0⟩
    name := "a"
    description := some "a type"
    cppType := some "int"
    bsonSerializationType := some ["int"] }] }
  imports := some { loc := ⟨"root.idl", 0, 0⟩, imports := ["lib.idl"] }

/-- **A cycle through the root.** The two files import each other and share no name. The root file is
parsed a second time, and its symbol is reported as a duplicate. -/
theorem root_parsed_twice :
    let r := twoFiles "root.idl"
    Clean r "root.idl" (r.openFile "root.idl") "root.idl" rootSpec ∧
    parse r "root.idl" 3 (r.openFile "root.idl") =
      some (["lib.idl", "root.idl"], .ok ⟨none, some [⟨"ID0002",
        "type 'a' is a duplicate symbol of an existing type", ⟨"root.idl", 0, 0⟩⟩]⟩) := by
  intro r
  have hclean : Clean r "root.idl" (r.openFile "root.idl") "root.idl" rootSpec ∧
      ∀ f, Imported r "root.idl" (r.openFile "root.idl") f → f ∈ ["lib.idl", "root.idl"] := by
    refine clean_of_closed ?_ ?_ ?_ ?_ ?_ ?_
    · decide
    · decide
    · decide
    · exact fun _ _ _ he => by cases he
    · decide
    · decide
  exact ⟨hclean.1, by decide⟩

/-- A file that imports itself is parsed once. -/
theorem parse_once_self_import :
    let r := twoFiles "lib.idl"
    ∃ parsed exit,
      (∃ n, ∀ fuel, n ≤ fuel →
        parse r "root.idl" fuel (r.openFile "root.idl") = some (parsed, exit)) ∧
      ParsedOnce r "root.idl" (r.openFile "root.idl") "root.idl" rootSpec parsed exit := by
  intro r
  obtain ⟨hclean, himported⟩ : Clean r "root.idl" (r.openFile "root.idl") "root.idl" rootSpec ∧
      ∀ f, Imported r "root.idl" (r.openFile "root.idl") f → f ∈ ["lib.idl"] := by
    refine clean_of_closed ?_ ?_ ?_ ?_ ?_ ?_
    · decide
    · decide
    · decide
    · exact fun _ _ _ he => by cases he
    · decide
    · decide
  have hfinite : {f | Imported r "root.idl" (r.openFile "root.idl") f}.Finite :=
    (List.finite_toSet ["lib.idl"]).subset himported
  obtain ⟨parsed, exit, hparse, -, -, -, honce⟩ :=
    parse_once_iff r "root.idl" "root.idl" (r.openFile "root.idl") hfinite
  refine ⟨parsed, exit, hparse, (honce rootSpec hclean).mpr ⟨fun hroot => ?_, .inr fun f hf => ?_⟩⟩
  · exact absurd (himported _ hroot) (by decide)
  · rw [List.mem_singleton.mp (himported f hf)]
    decide

end MongoTests.Idl
