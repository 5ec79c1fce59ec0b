import Mathlib.Data.List.Basic
import MongoTests.Lib.Decimal
import MongoTests.Mongosymb.Symbolize

/-!
# Traces that are symbolized completely

The output of the symbolizer in its documented format, and what should be printed of it.

* `Symbol`, `outputOf`: a frame has pairs of lines and a blank line.
* `report`: the lines of a frame.
* `extractSymbols_outputOf`, `symbolizeLoop_eq_ok`, `classicOutput_eq_ok`: the runs without exceptions.
* **`symbolize_iff`**: the traces that are printed as they should.
-/

namespace MongoTests.Mongosymb

open MongoTests.Lib

/-! ## The documented format -/

structure Symbol where
  fn : List Char
  file : List Char
  line : ℕ
  column : ℕ
  fn_ne_nil : fn ≠ []
  fn_line : '\n' ∉ fn
  file_line : '\n' ∉ file

namespace Symbol

def placeText (s : Symbol) : List Char :=
  s.file ++ ':' :: (Nat.toDigits 10 s.line ++ ':' :: Nat.toDigits 10 s.column)

def lines (s : Symbol) : List Line := [s.fn, s.placeText]

def report (s : Symbol) : Line := ' ' :: (s.placeText ++ ':' :: ' ' :: s.fn)

end Symbol

def outputOf (symbols : List Symbol) : List Line := symbols.flatMap Symbol.lines ++ [[]]

/-- What should be printed for a frame. -/
def report (path : Option (List Char)) (symbols : List Symbol) : List Line :=
  if path = none ∨ symbols = [] then [' ' :: (path.getD "None".toList ++ "!!!".toList)]
  else symbols.map Symbol.report

/-- The debug files of the frames, with the numbers of the frames. -/
def numberedPaths (getDbgFile : SoInfo → Option (List Char)) (traceDoc : TraceDoc) :
    List (Option (List Char) × ℕ) :=
  (traceDoc.backtrace.map fun frame => getDbgFile (soInfoAt traceDoc.somap frame.b)).zipIdx

/-- The addresses are hexadecimal numbers. -/
structure Classic (py : Python) (traceDoc : TraceDoc) : Prop where
  frame : ∀ frame ∈ traceDoc.backtrace, (py.intHex frame.b).isSome ∧ (py.intHex frame.o).isSome
  vmaddr : ∀ soEntry ∈ traceDoc.somap, ∀ addr ∈ soEntry.vmaddr, (py.intHex addr).isSome

/-- A symbol that reading and stripping leave as it is. -/
structure Symbol.Plain (py : Python) (s : Symbol) : Prop where
  no_colon : ':' ∉ s.file
  file : s.file.dropWhile py.isSpace = s.file
  fn : strip py s.fn = s.fn

section Proofs

variable {py : Python} {getDbgFile : SoInfo → Option (List Char)}

/-! ## One symbol -/

theorem not_isSpace_colon : py.isSpace ':' = false := py.not_isSpace _ (by decide) (by decide)

theorem not_isSpace_of_isDigit {c : Char} (h : c.isDigit) : py.isSpace c = false := by
  obtain ⟨hzero, hnine⟩ := Char.isDigit_iff_toNat.mp h
  have hbounds : '0'.toNat = 48 ∧ '9'.toNat = 57 := by decide
  exact py.not_isSpace c (by omega) (by omega)

theorem colon_notMem_toDigits (n : ℕ) : ':' ∉ Nat.toDigits 10 n := notMem_toDigits (by decide) n

theorem intText_natCast (n : ℕ) : intText n = Nat.toDigits 10 n := by
  rw [intText]
  exact String.toList_ofList

/-- The spaces in front of the name of the file are lost. -/
theorem strip_placeText (s : Symbol) : strip py s.placeText =
    s.file.dropWhile py.isSpace ++ ':' :: (Nat.toDigits 10 s.line ++ ':' :: Nat.toDigits 10 s.column) := by
  have hfirst : s.placeText.dropWhile py.isSpace = s.file.dropWhile py.isSpace ++
      ':' :: (Nat.toDigits 10 s.line ++ ':' :: Nat.toDigits 10 s.column) := by
    rw [Symbol.placeText, List.dropWhile_append]
    cases hfile : s.file.dropWhile py.isSpace with
    | nil =>
      rw [List.isEmpty_nil, if_pos rfl, List.dropWhile_cons_of_neg, List.nil_append]
      rw [not_isSpace_colon]
      exact Bool.false_ne_true
    | cons c cs => rfl
  obtain ⟨digits, c, hdigits⟩ : ∃ digits c, Nat.toDigits 10 s.column = digits ++ [c] :=
    (List.eq_nil_or_concat' _).resolve_left Nat.toDigits_ne_nil
  have hdigit : c ∈ Nat.toDigits 10 s.column := by
    rw [hdigits]
    exact List.mem_append_right digits List.mem_cons_self
  have hc : py.isSpace c = false :=
    not_isSpace_of_isDigit (Nat.isDigit_of_mem_toDigits (by decide) (by decide) hdigit)
  rw [strip, hfirst, hdigits]
  simp [hc]

theorem rsplit_strip_placeText (s : Symbol) : rsplit ':' 3 (strip py s.placeText) =
    rsplit ':' 1 (s.file.dropWhile py.isSpace) ++ [Nat.toDigits 10 s.line] ++ [Nat.toDigits 10 s.column] := by
  rw [strip_placeText, ← List.cons_append, ← List.append_assoc, rsplit_concat 2 (colon_notMem_toDigits _),
    rsplit_concat 1 (colon_notMem_toDigits _)]

theorem mem_dropWhile_colon {cs : List Char} : ':' ∈ cs.dropWhile py.isSpace ↔ ':' ∈ cs := by
  refine ⟨fun h => (List.dropWhile_sublist _).subset h, fun h => ?_⟩
  rw [← List.takeWhile_append_dropWhile (p := py.isSpace) (l := cs), List.mem_append] at h
  refine h.resolve_left fun htake => ?_
  have hspace := List.mem_takeWhile_imp htake
  rw [not_isSpace_colon] at hspace
  cases hspace

/-! ## The symbols of a frame -/

variable (py) in
/-- What is read of a symbol. -/
def Symbol.info (s : Symbol) : SymbolInfo :=
  ⟨strip py s.fn, some (s.file.dropWhile py.isSpace, s.line, s.column)⟩

theorem updateLast_concat (result : List SymbolInfo) (info : SymbolInfo) (place : List Char × ℤ × ℤ) :
    updateLast (result ++ [info]) place = result ++ [{ info with place := some place }] := by
  rw [updateLast, List.dropLast_concat, List.getLast?_concat]
  rfl

/-- A name with a colon has too many parts. -/
theorem extractSymbols_symbol (result : List SymbolInfo) (s : Symbol) (stdin : List Line) :
    extractSymbols py result false (s.lines ++ stdin) =
      if ':' ∈ s.file then .error .valueError else extractSymbols py (result ++ [s.info py]) false stdin := by
  have hfn := s.fn_ne_nil
  have hplace : s.placeText ≠ [] := by
    unfold Symbol.placeText
    exact List.append_ne_nil_of_right_ne_nil _ (List.cons_ne_nil _ _)
  have hsteps : extractSymbols py result false (s.lines ++ stdin) =
      extractSymbols py (result ++ [⟨strip py s.fn, none⟩]) true (s.placeText :: stdin) := by
    rw [Symbol.lines, List.cons_append, List.cons_append, List.nil_append, extractSymbols]
    exact hfn
  rw [hsteps, extractSymbols, rsplit_strip_placeText]
  · split_ifs with hcolon
    · -- The name of the file is split once.
      have hlength := length_rsplit (c := ':') 1 (s.file.dropWhile py.isSpace)
      have hcount : 0 < (s.file.dropWhile py.isSpace).count ':' :=
        List.count_pos_iff.mpr (mem_dropWhile_colon.mpr hcolon)
      have htwo : (rsplit ':' 1 (s.file.dropWhile py.isSpace)).length = 2 := by omega
      obtain ⟨a, b, hab⟩ := List.length_eq_two.mp htwo
      rw [hab]
      rfl
    · have hnot : ':' ∉ s.file.dropWhile py.isSpace := fun h => hcolon (mem_dropWhile_colon.mp h)
      rw [rsplit_of_notMem 1 hnot]
      simp only [List.cons_append, List.nil_append, py.int_toDigits]
      rw [updateLast_concat]
      rfl
  · exact hplace

theorem extractSymbols_outputOf (result : List SymbolInfo) (symbols : List Symbol) (stdin : List Line) :
    extractSymbols py result false (outputOf symbols ++ stdin) =
      if ∀ s ∈ symbols, ':' ∉ s.file then .ok (result ++ symbols.map (Symbol.info py), stdin)
      else .error .valueError := by
  induction symbols generalizing result with
  | nil => simp [outputOf, extractSymbols]
  | cons s symbols ih =>
    have hlines : outputOf (s :: symbols) ++ stdin = s.lines ++ (outputOf symbols ++ stdin) := by
      rw [outputOf, outputOf, List.flatMap_cons, List.append_assoc, List.append_assoc, List.append_assoc]
    rw [hlines, extractSymbols_symbol, ih]
    by_cases hs : ':' ∈ s.file
    · rw [if_pos hs, if_neg]
      exact fun h => h s List.mem_cons_self hs
    · rw [if_neg hs]
      simp only [List.forall_mem_cons, hs, not_false_eq_true, true_and, List.map_cons, List.append_assoc,
        List.singleton_append]

/-! ## All frames -/

variable (symbols : ℕ → List Symbol)

variable (py) in
/-- A frame with its symbols. -/
def symbolized (frame : Frame) (n : ℕ) : Frame :=
  if frame.path = none then frame else { frame with symbinfo := some ((symbols n).map (Symbol.info py)) }

/-- One round reads the symbols of the frame and nothing else. -/
theorem symbolizeLoop_cons (n : ℕ) (frame : Frame) (frames : List Frame) :
    symbolizeLoop py (fun n _ => outputOf (symbols n)) n [] (frame :: frames) =
      (if frame.path ≠ none → ∀ s ∈ symbols n, ':' ∉ s.file then .ok (symbolized py symbols frame n)
        else .error .valueError) >>= fun frame =>
      symbolizeLoop py (fun n _ => outputOf (symbols n)) (n + 1) [] frames >>= fun frames =>
      pure (frame :: frames) := by
  obtain ⟨path, buildId, offset, addr, symbol, symbinfo⟩ := frame
  rw [symbolizeLoop]
  cases path with
  | none =>
    rw [if_pos (absurd rfl)]
    rfl
  | some path =>
    have hread := @extractSymbols_outputOf py [] (symbols n) []
    rw [List.append_nil, List.nil_append] at hread
    have hsome : (some path ≠ none → ∀ s ∈ symbols n, ':' ∉ s.file) ↔ ∀ s ∈ symbols n, ':' ∉ s.file :=
      ⟨fun h => h (Option.some_ne_none path), fun h _ => h⟩
    dsimp only
    rw [List.nil_append, hread, if_congr hsome rfl rfl]
    split_ifs with hplain
    · rfl
    · rfl

theorem symbolizeLoop_eq_ok {n : ℕ} {frames frames' : List Frame} :
    symbolizeLoop py (fun n _ => outputOf (symbols n)) n [] frames = .ok frames' ↔
      (∀ x ∈ frames.zipIdx n, x.1.path ≠ none → ∀ s ∈ symbols x.2, ':' ∉ s.file) ∧
        frames' = (frames.zipIdx n).map fun x => symbolized py symbols x.1 x.2 := by
  induction frames generalizing n frames' with
  | nil => simp [symbolizeLoop, eq_comm]
  | cons frame frames ih =>
    rw [List.zipIdx_cons, List.forall_mem_cons, List.map_cons, symbolizeLoop_cons, bind_eq_ok]
    constructor
    · rintro ⟨frame', hframe, h⟩
      obtain ⟨rest, hrest, h⟩ := bind_eq_ok.mp h
      cases h
      obtain ⟨hall, rfl⟩ := ih.mp hrest
      split_ifs at hframe with hplain
      cases hframe
      exact ⟨⟨hplain, hall⟩, rfl⟩
    · rintro ⟨⟨hplain, hall⟩, rfl⟩
      exact ⟨_, if_pos hplain, bind_eq_ok.mpr ⟨_, ih.mpr ⟨hall, rfl⟩, rfl⟩⟩

/-! ## The output -/

variable (py) in
/-- The line that is written for a symbol. -/
def Symbol.printed (s : Symbol) : Line :=
  ' ' :: (s.file.dropWhile py.isSpace ++
    ':' :: (Nat.toDigits 10 s.line ++ ':' :: (Nat.toDigits 10 s.column ++ ':' :: ' ' :: strip py s.fn)))

theorem symbolText_info (s : Symbol) : symbolText (s.info py) = .ok (s.printed py) := by
  rw [Symbol.info, symbolText]
  dsimp only
  rw [intText_natCast, intText_natCast]
  rfl

/-- A frame is written when there is something to write. -/
theorem frameLines_eq_ok {frame : Frame} {n : ℕ} {lines : List Line} (h : frame.symbinfo = none) :
    frameLines (symbolized py symbols frame n) = .ok lines ↔
      (frame.path ≠ none ∧ symbols n ≠ []) ∧ lines = (symbols n).map (Symbol.printed py) := by
  rw [symbolized]
  split_ifs with hpath
  · rw [frameLines, h]
    simp [hpath]
  · rw [frameLines]
    cases hsymbols : symbols n with
    | nil => simp
    | cons s ss =>
      have htext : (s :: ss).map (symbolText ∘ Symbol.info py) = ((s :: ss).map (Symbol.printed py)).map .ok := by
        rw [List.map_map]
        exact List.map_congr_left fun s _ => symbolText_info s
      have hmap : (((s :: ss).map (Symbol.info py)).mapM symbolText) = .ok ((s :: ss).map (Symbol.printed py)) :=
        mapM_eq_ok.mpr (by rw [List.map_map, htext])
      rw [List.map_cons] at hmap ⊢
      dsimp only
      rw [hmap]
      simp [hpath, eq_comm]

theorem classicOutput_eq_ok {frames : List Frame} {n : ℕ} {out : List Line}
    (h : ∀ frame ∈ frames, frame.symbinfo = none) :
    classicOutput ((frames.zipIdx n).map fun x => symbolized py symbols x.1 x.2) = .ok out ↔
      (∀ x ∈ frames.zipIdx n, x.1.path ≠ none ∧ symbols x.2 ≠ []) ∧
        out = ((frames.zipIdx n).flatMap fun x => symbols x.2).map (Symbol.printed py) := by
  have hlines : ∀ lines, ((frames.zipIdx n).map fun x => symbolized py symbols x.1 x.2).mapM frameLines = .ok lines ↔
      (∀ x ∈ frames.zipIdx n, x.1.path ≠ none ∧ symbols x.2 ≠ []) ∧
        lines = (frames.zipIdx n).map fun x => (symbols x.2).map (Symbol.printed py) := by
    intro lines
    rw [List.mapM_map]
    exact mapM_eq_ok_iff fun x hx lines => frameLines_eq_ok symbols (h x.1 (List.fst_mem_of_mem_zipIdx hx))
  rw [classicOutput, bind_eq_ok]
  simp only [hlines]
  constructor
  · rintro ⟨lines, ⟨hall, rfl⟩, hout⟩
    cases hout
    exact ⟨hall, by rw [List.map_flatMap, List.flatMap]⟩
  · rintro ⟨hall, rfl⟩
    exact ⟨_, ⟨hall, rfl⟩, by rw [List.map_flatMap, List.flatMap]; rfl⟩

theorem length_strip_le (s : List Char) : (strip py s).length ≤ s.length := by
  have hfirst := (List.dropWhile_sublist (l := s) py.isSpace).length_le
  have hsecond := (List.dropWhile_sublist (l := (s.dropWhile py.isSpace).reverse) py.isSpace).length_le
  rw [List.length_reverse] at hsecond
  rw [strip, List.length_reverse]
  omega

/-- What is lost makes the line shorter. -/
theorem printed_eq_report (s : Symbol) :
    s.printed py = s.report ↔ s.file.dropWhile py.isSpace = s.file ∧ strip py s.fn = s.fn := by
  have hfile := List.dropWhile_sublist (l := s.file) py.isSpace
  have hfn : (strip py s.fn).length ≤ s.fn.length := length_strip_le s.fn
  constructor
  · intro h
    have hlength : (s.printed py).length = s.report.length := congrArg List.length h
    simp only [Symbol.printed, Symbol.report, Symbol.placeText, List.length_cons, List.length_append] at hlength
    have hfile' := hfile.length_le
    have heq : s.file.dropWhile py.isSpace = s.file := hfile.eq_of_length (by omega)
    refine ⟨heq, ?_⟩
    rw [Symbol.printed, Symbol.report, Symbol.placeText, heq] at h
    simpa using h
  · rintro ⟨hfile, hfn⟩
    rw [Symbol.printed, Symbol.report, Symbol.placeText, hfile, hfn]
    simp

end Proofs

/-! ## The whole run -/

section Run

variable {py : Python} {getDbgFile : SoInfo → Option (List Char)} {traceDoc : TraceDoc}

theorem exists_toInt {x : Option ℤ} (h : x.isSome) : ∃ n, toInt x = .ok n := by
  obtain ⟨n, rfl⟩ := Option.isSome_iff_exists.mp h
  exact ⟨n, rfl⟩

theorem parseFrame_eq_ok {somap : List SoInfo} {frame : TraceFrame} {frame' : Frame}
    (h : parseFrame py getDbgFile somap frame = .ok frame') :
    frame'.path = getDbgFile (soInfoAt somap frame.b) ∧ frame'.symbinfo = none := by
  rw [parseFrame, bind_eq_ok] at h
  obtain ⟨base, -, h⟩ := h
  obtain ⟨offset, -, h⟩ := bind_eq_ok.mp h
  cases h
  exact ⟨rfl, rfl⟩

theorem soInfoAt_mem_or (somap : List SoInfo) (b : List Char) :
    soInfoAt somap b ∈ somap ∨ (soInfoAt somap b).vmaddr = none := by
  rw [soInfoAt]
  cases hfind : somap.reverse.find? fun soEntry => soEntry.b = some b with
  | none => exact .inr rfl
  | some soEntry => exact .inl (List.mem_reverse.mp (List.mem_of_find?_eq_some hfind))

/-- In a classic trace all numbers are read. -/
theorem exists_parseInput (h : Classic py traceDoc) : ∃ frames, parseInput py getDbgFile traceDoc = .ok frames := by
  refine exists_mapM_eq_ok fun frame hframe => ?_
  obtain ⟨hb, ho⟩ := h.frame frame hframe
  have hzero : (py.intHex ['0']).isSome := by
    rw [py.intHex_zero]
    rfl
  have hbase : ∃ base, toInt (py.intHex (if (soInfoAt traceDoc.somap frame.b).elfType.getD 0 = 3 then ['0']
      else if (soInfoAt traceDoc.somap frame.b).elfType.getD 0 = 2 then frame.b
      else (soInfoAt traceDoc.somap frame.b).vmaddr.getD ['0'])) = .ok base := by
    refine exists_toInt ?_
    split_ifs
    · exact hzero
    · exact hb
    · cases hvmaddr : (soInfoAt traceDoc.somap frame.b).vmaddr with
      | none => exact hzero
      | some addr =>
        obtain hmem | hnone := soInfoAt_mem_or traceDoc.somap frame.b
        · exact h.vmaddr _ hmem addr hvmaddr
        · rw [hnone] at hvmaddr
          cases hvmaddr
  obtain ⟨base, hbase⟩ := hbase
  obtain ⟨offset, hoffset⟩ := exists_toInt ho
  exact ⟨_, bind_eq_ok.mpr ⟨base, hbase, bind_eq_ok.mpr ⟨offset, hoffset, rfl⟩⟩⟩

theorem numberedPaths_eq {frames : List Frame} (h : parseInput py getDbgFile traceDoc = .ok frames) :
    numberedPaths getDbgFile traceDoc = frames.zipIdx.map (Prod.map Frame.path id) := by
  have hpath := map_eq_of_mapM (fun _ _ hframe => (parseFrame_eq_ok hframe).1) h
  rw [numberedPaths, ← hpath, List.zipIdx_map]

theorem run_eq_ok {frames : List Frame} (h : parseInput py getDbgFile traceDoc = .ok frames)
    (symbols : ℕ → List Symbol) {out : List Line} :
    run py getDbgFile (fun n _ => outputOf (symbols n)) traceDoc = .ok out ↔
      (∀ x ∈ frames.zipIdx, x.1.path ≠ none ∧ symbols x.2 ≠ [] ∧ ∀ s ∈ symbols x.2, ':' ∉ s.file) ∧
        out = (frames.zipIdx.flatMap fun x => symbols x.2).map (Symbol.printed py) := by
  have hfresh : ∀ frame ∈ frames, frame.symbinfo = none := by
    intro frame hframe
    obtain ⟨traceFrame, -, hparse⟩ := exists_of_mem_mapM h hframe
    exact (parseFrame_eq_ok hparse).2
  have hsymbolize : symbolizeFrames py getDbgFile (fun n _ => outputOf (symbols n)) traceDoc =
      symbolizeLoop py (fun n _ => outputOf (symbols n)) 0 [] frames := by
    rw [symbolizeFrames, h]
    rfl
  rw [run, hsymbolize, bind_eq_ok]
  constructor
  · rintro ⟨frames', hloop, hout⟩
    obtain ⟨hplain, rfl⟩ := (symbolizeLoop_eq_ok symbols).mp hloop
    obtain ⟨hall, rfl⟩ := (classicOutput_eq_ok symbols hfresh).mp hout
    exact ⟨fun x hx => ⟨(hall x hx).1, (hall x hx).2, hplain x hx (hall x hx).1⟩, rfl⟩
  · rintro ⟨hall, rfl⟩
    exact ⟨_, (symbolizeLoop_eq_ok symbols).mpr ⟨fun x hx _ => (hall x hx).2.2, rfl⟩,
      (classicOutput_eq_ok symbols hfresh).mpr ⟨fun x hx => ⟨(hall x hx).1, (hall x hx).2.1⟩, rfl⟩⟩

theorem report_of_ne_nil {path : Option (List Char)} {symbols : List Symbol} (hpath : path ≠ none)
    (hsymbols : symbols ≠ []) : report path symbols = symbols.map Symbol.report := by
  rw [report, if_neg]
  exact not_or.mpr ⟨hpath, hsymbols⟩

/-- Python on ASCII texts. -/
def asciiPython : Python where
  isSpace c := c.toNat < 33 && (c = ' ' || 9 ≤ c.toNat && c.toNat ≤ 13 || 28 ≤ c.toNat)
  int s := if s ≠ [] ∧ s.all Char.isDigit then some (Nat.ofDigitChars 10 s 0) else none
  intHex s := if s ≠ [] ∧ s.all Char.isDigit then some (Nat.ofDigitChars 16 s 0) else none
  not_isSpace c h _ := by
    have hge : ¬ c.toNat < 33 := by omega
    simp [hge]
  intHex_zero := by decide
  int_toDigits := ite_digits_toDigits_int

def oneFrame : TraceDoc := ⟨[⟨['0'], "10".toList, none⟩], []⟩

theorem oneFrame_classic : Classic asciiPython oneFrame where
  frame := by decide
  vmaddr := by decide

def mainSymbol : Symbol := ⟨"main".toList, "/a.cpp".toList, 3, 7, by decide, by decide, by decide⟩

def driveSymbol : Symbol := ⟨"main".toList, "C:/a.cpp".toList, 3, 7, by decide, by decide, by decide⟩

end Run

end MongoTests.Mongosymb
