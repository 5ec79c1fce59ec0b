import MongoTests.Lib.Checked
import MongoTests.Lib.Split

/-!
# Symbolizing stack traces

`mongosymb.py` on traces in the classic format. Texts are lists of characters, and a text that is read
or written line by line is the list of its lines, without the characters that end them.

* `Python`: `strip` and `int`.
* `parseInput`: the frames of a trace.
* `extractSymbols`, `symbolizeFrames`: what is read from the symbolizer.
* `classicOutput`: what is written.
-/

namespace MongoTests.Mongosymb

open MongoTests.Lib

abbrev Line := List Char

structure Python where
  isSpace : Char → Bool
  /-- `int(s)` -/
  int : List Char → Option ℤ
  /-- `int(s, 16)` -/
  intHex : List Char → Option ℤ
  not_isSpace : ∀ c, 33 ≤ c.toNat → c.toNat < 127 → isSpace c = false
  intHex_zero : intHex ['0'] = some 0
  int_toDigits : ∀ n : ℕ, int (Nat.toDigits 10 n) = some (n : ℤ)

inductive Raised where
  | valueError
  | keyError
  | typeError
  deriving DecidableEq

/-! ## The trace -/

/-- An entry of `somap`. -/
structure SoInfo where
  b : Option (List Char)
  path : Option (List Char)
  buildId : Option (List Char)
  elfType : Option ℤ
  vmaddr : Option (List Char)

structure TraceFrame where
  b : List Char
  o : List Char
  s : Option (List Char)

structure TraceDoc where
  backtrace : List TraceFrame
  somap : List SoInfo

/-- An entry of `symbinfo`. -/
structure SymbolInfo where
  fn : List Char
  /-- `file`, `line` and `column` -/
  place : Option (List Char × ℤ × ℤ)

structure Frame where
  path : Option (List Char)
  buildId : Option (List Char)
  offset : List Char
  addr : List Char
  symbol : Option (List Char)
  symbinfo : Option (List SymbolInfo)

def hexText (n : ℤ) : List Char :=
  if n < 0 then "-0x".toList ++ Nat.toDigits 16 n.natAbs else "0x".toList ++ Nat.toDigits 16 n.natAbs

section Code

variable (py : Python) (getDbgFile : SoInfo → Option (List Char))

/-- The library at a load address, the last one of those that have it. -/
def soInfoAt (somap : List SoInfo) (b : List Char) : SoInfo :=
  (somap.reverse.find? fun soEntry => soEntry.b = some b).getD ⟨none, none, none, none, none⟩

def toInt (x : Option ℤ) : Except Raised ℤ :=
  match x with
  | some n => .ok n
  | none => .error .valueError

def parseFrame (somap : List SoInfo) (frame : TraceFrame) : Except Raised Frame := do
  let soinfo := soInfoAt somap frame.b
  let elfType := soinfo.elfType.getD 0
  let addrBase := if elfType = 3 then ['0'] else if elfType = 2 then frame.b else soinfo.vmaddr.getD ['0']
  let base ← toInt (py.intHex addrBase)
  let offset ← toInt (py.intHex frame.o)
  pure {
    path := getDbgFile soinfo
    buildId := soinfo.buildId
    offset := frame.o
    addr := hexText (base + offset - 1)
    symbol := frame.s
    symbinfo := none }

def parseInput (traceDoc : TraceDoc) : Except Raised (List Frame) :=
  traceDoc.backtrace.mapM (parseFrame py getDbgFile traceDoc.somap)

/-! ## The symbolizer -/

def strip (s : List Char) : List Char :=
  ((s.dropWhile py.isSpace).reverse.dropWhile py.isSpace).reverse

/-- `result[-1].update(…)` -/
def updateLast (result : List SymbolInfo) (place : List Char × ℤ × ℤ) : List SymbolInfo :=
  result.dropLast ++ (result.getLast?.map fun info => { info with place := some place }).toList

/-- The symbols up to a blank line, and the lines after it. `step` tells whether the name of a function
was read. At the end of the output the empty text is read again and again. -/
def extractSymbols : List SymbolInfo → Bool → List Line → Except Raised (List SymbolInfo × List Line)
  | _, _, [] => .error .valueError
  | result, _, [] :: stdin => .ok (result, stdin)
  | result, false, line :: stdin => extractSymbols (result ++ [⟨strip py line, none⟩]) true stdin
  | result, true, line :: stdin =>
    match rsplit ':' 3 (strip py line) with
    | [fileName, line, column] =>
      match py.int column, py.int line with
      | some column, some line => extractSymbols (updateLast result (fileName, line, column)) false stdin
      | _, _ => .error .valueError
    | _ => .error .valueError

def symbolLine (path addr : List Char) : Line := "CODE ".toList ++ (path ++ ' ' :: addr)

/-- The symbolizer writes lines for the n-th frame when its line is written. -/
def symbolizeLoop (symbolizer : ℕ → Line → List Line) : ℕ → List Line → List Frame → Except Raised (List Frame)
  | _, _, [] => .ok []
  | n, stdout, frame :: frames =>
    match frame.path with
    | none => do
      let frames ← symbolizeLoop symbolizer (n + 1) stdout frames
      pure (frame :: frames)
    | some path => do
      let (symbinfo, stdout) ← extractSymbols py [] false (stdout ++ symbolizer n (symbolLine path frame.addr))
      let frames ← symbolizeLoop symbolizer (n + 1) stdout frames
      pure ({ frame with symbinfo := some symbinfo } :: frames)

def symbolizeFrames (symbolizer : ℕ → Line → List Line) (traceDoc : TraceDoc) : Except Raised (List Frame) := do
  let frames ← parseInput py getDbgFile traceDoc
  symbolizeLoop py symbolizer 0 [] frames

/-! ## The output -/

def intText (n : ℤ) : List Char := (toString n).toList

def symbolText (sframe : SymbolInfo) : Except Raised Line :=
  match sframe.place with
  | some (file, line, column) =>
    .ok (' ' :: (file ++ ':' :: (intText line ++ ':' :: (intText column ++ ':' :: ' ' :: sframe.fn))))
  | none => .error .keyError

/-- A frame without symbols is written with a format for a dictionary, applied to a list. -/
def frameLines (frame : Frame) : Except Raised (List Line) :=
  match frame.symbinfo with
  | none => .error .keyError
  | some [] => .error .typeError
  | some symbinfo => symbinfo.mapM symbolText

def classicOutput (frames : List Frame) : Except Raised (List Line) := do
  let lines ← frames.mapM frameLines
  pure lines.flatten

/-- `symbolize_frames`, then `classic_output`. -/
def run (symbolizer : ℕ → Line → List Line) (traceDoc : TraceDoc) : Except Raised (List Line) := do
  let frames ← symbolizeFrames py getDbgFile symbolizer traceDoc
  classicOutput frames

end Code

end MongoTests.Mongosymb
