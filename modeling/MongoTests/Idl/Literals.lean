import Mathlib.Data.Rat.Defs
import MongoTests.Idl.EnumInt
import MongoTests.Lib.Decimal

/-!
# Literals

What `_bind_expression` makes of a literal of a document, and what C++ reads in it. Python tries an
integer of 32 bits, then a floating literal, then a text.

* `decimalInteger`, `decimalNumber`: decimal literals and their values.
* `CppValue`, `cppExpression`: what an expression denotes in C++.
* `Numerals`: what `int`, `float` and `repr` do with decimal literals.
* **`bind_expression_literal`**: the literals that keep their value.
-/

namespace MongoTests.Idl

open MongoTests.Lib Report

/-! ## Decimal literals -/

def signed {α : Type} [Neg α] (read : List Char → Option α) : List Char → Option α
  | '-' :: cs => (read cs).map fun x => -x
  | '+' :: cs => read cs
  | cs => read cs

def signedDigits : List Char → Option ℤ := signed fun cs => (readDigits 10 cs).map Nat.cast

def decimalInteger (s : String) : Option ℤ := signedDigits s.toList

/-- Digits with a point or without one. -/
def mantissa (cs : List Char) : Option ℚ :=
  let whole := cs.takeWhile Char.isDigit
  match cs.dropWhile Char.isDigit with
  | [] => (readDigits 10 whole).map fun n : ℕ => (n : ℚ)
  | '.' :: fraction =>
    (readDigits 10 (whole ++ fraction)).map fun n : ℕ => (n : ℚ) / ((10 ^ fraction.length : ℕ) : ℚ)
  | _ => none

def exponent : List Char → Option ℤ
  | [] => some 0
  | _ :: cs => signedDigits cs

def isExponentMark (c : Char) : Bool := c = 'e' || c = 'E'

/-- The value of an integer or of a floating literal. -/
def decimalNumber (s : String) : Option ℚ :=
  signed (fun cs => do
    let m ← mantissa (cs.takeWhile (!isExponentMark ·))
    let e ← exponent (cs.dropWhile (!isExponentMark ·))
    pure (m * ((10 ^ e.toNat : ℕ) : ℚ) / ((10 ^ (-e).toNat : ℕ) : ℚ))) s.toList

/-! ## Expressions in C++ -/

inductive CppValue where
  | boolean (b : Bool)
  | integer (z : ℤ)
  | floating (q : ℚ)
  | text (cs : List Char)
  deriving DecidableEq

def simpleEscape : Char → Option Char
  | '\'' => some '\''
  | '"' => some '"'
  | '?' => some '?'
  | '\\' => some '\\'
  | 'a' => some (Char.ofNat 7)
  | 'b' => some (Char.ofNat 8)
  | 'f' => some (Char.ofNat 12)
  | 'n' => some '\n'
  | 'r' => some '\r'
  | 't' => some '\t'
  | 'v' => some (Char.ofNat 11)
  | _ => none

def isLineBreak (c : Char) : Bool := c = '\n' || c = '\r'

/-- The contents of a string literal, after its first quote. -/
def readText : List Char → Option (List Char)
  | [] => none
  | '"' :: cs => if cs = [] then some [] else none
  | '\\' :: c :: cs =>
    match simpleEscape c with
    | some c => (readText cs).map fun text => c :: text
    | none => none
  | c :: cs => if isLineBreak c then none else (readText cs).map fun text => c :: text

/-- An integer literal has 64 bits, and a sign is an operator. -/
def cppNumber (s : String) : Option CppValue :=
  match (readSigned s.toList).filter fun z => decide (z.natAbs < 2 ^ 63) with
  | some z => some (.integer z)
  | none => if (decimalInteger s).isSome then none else (decimalNumber s).map .floating

def cppExpression (s : String) : Option CppValue :=
  match s.toList with
  | '"' :: cs => (readText cs).map .text
  | _ =>
    if s = "true" then some (.boolean true)
    else if s = "false" then some (.boolean false)
    else cppNumber s

/-! ## Numbers in Python -/

/-- The documented behaviour of `int`, `float` and `repr` on decimal literals. `round` is the nearest
number of double precision, for Python and C++, and `none` beyond the largest one. -/
structure Numerals (py : Python) (Double : Type) where
  round : ℚ → Option Double
  repr : Double → String
  int_decimal : ∀ s z, decimalInteger s = some z → py.int s = .ok z
  int_floating : ∀ s q, decimalInteger s = none → decimalNumber s = some q → ∃ m, py.int s = .error m
  float_decimal : ∀ s q d, decimalNumber s = some q → round q = some d → py.float s = some (repr d)
  /-- `float(repr(d)) == d`, and `repr(d)` has a point or an exponent. -/
  round_repr : ∀ d, decimalInteger (repr d) = none ∧ ∃ q, decimalNumber (repr d) = some q ∧ round q = some d

/-- The value in C++ of the expression for a literal. -/
def emitted (py : Python) (expr : Expression) (allowLiteralString : Bool) : Option CppValue :=
  ((bindExpression py expr allowLiteralString).bind fun e => e.expr).bind cppExpression

/-- A text that Python does not take for something else. -/
structure IsText (py : Python) (s : String) : Prop where
  ne_bool : ∀ b : Bool, s ≠ toString b
  int : ∃ m, py.int s = .error m
  float : py.float s = none

section Literals

variable {py : Python} {Double : Type} {expr : Expression} {s : String}

/-! ## Integers -/

theorem eq_zero_of_head?_toDigits {n : ℕ} (h : (Nat.toDigits 10 n).head? = some '0') : n = 0 := by
  induction n using Nat.strongRecOn with
  | ind n ih =>
    by_cases hn : n < 10
    · rw [Nat.toDigits_of_lt_base hn] at h
      simpa using h
    · rw [Nat.toDigits_of_base_le (by decide) (by omega), List.head?_append_of_ne_nil _ Nat.toDigits_ne_nil] at h
      have := ih (n / 10) (by omega) h
      omega

theorem readDigits_toDigits (n : ℕ) : readDigits 10 (Nat.toDigits 10 n) = some n := by
  have hdigits : (Nat.toDigits 10 n).all fun c => c.isDigit && c.toNat - '0'.toNat < 10 := by
    rw [List.all_eq_true]
    intro c hc
    have hdigit := Nat.isDigit_of_mem_toDigits (by decide) (by decide) hc
    have hle : c.toNat ≤ '9'.toNat := (Char.isDigit_iff_toNat.mp hdigit).2
    rw [hdigit, Bool.true_and, decide_eq_true_eq]
    exact Nat.lt_succ_of_le (Nat.sub_le_sub_right hle _)
  rw [readDigits, if_pos ⟨Nat.toDigits_ne_nil, hdigits⟩, ← Nat.ofDigitChars_eq_foldl,
    Nat.ofDigitChars_ten_toDigits]

/-- No digits of an integer are taken for an octal literal. -/
theorem readLiteral_toDigits (n : ℕ) : readLiteral (Nat.toDigits 10 n) = some n := by
  unfold readLiteral
  split
  · rename_i c cs hdigits
    have hzero : n = 0 := eq_zero_of_head?_toDigits (by rw [hdigits]; rfl)
    rw [hzero] at hdigits
    cases hdigits
  · exact readDigits_toDigits n

theorem readSigned_toString (z : ℤ) : readSigned (toString z).toList = some z := by
  cases z with
  | ofNat n =>
    have htext : (toString (Int.ofNat n)).toList = Nat.toDigits 10 n := Nat.toList_repr
    rw [htext, readSigned]
    · rw [readLiteral_toDigits]
      rfl
    · intro cs hcs
      exact notMem_toDigits (c := '-') (by decide) n (by rw [hcs]; exact List.mem_cons_self)
    · intro cs hcs
      exact notMem_toDigits (c := '+') (by decide) n (by rw [hcs]; exact List.mem_cons_self)
  | negSucc n =>
    have htext : (toString (Int.negSucc n)).toList = '-' :: Nat.toDigits 10 (n + 1) := by
      rw [← Nat.toList_repr]
      exact String.toList_append
    rw [htext, readSigned, readLiteral_toDigits]
    rfl

/-! ## Expressions -/

theorem cppNumber_quote {cs : List Char} (h : s.toList = '"' :: cs) : cppNumber s = none := by
  have hsigned : readSigned ('"' :: cs) = none := by
    have hread : readDigits 10 ('"' :: cs) = none := if_neg fun hdigits => by simp at hdigits
    rw [readSigned, readLiteral, hread]
    · rfl
    all_goals simp
  have hmantissa : ∀ cs', mantissa ('"' :: cs') = none := fun cs' => by
    rw [mantissa, List.dropWhile_cons_of_neg (by decide)]
    simp
  have hnumber : decimalNumber s = none := by
    rw [decimalNumber, h, signed, List.takeWhile_cons_of_pos (by decide), hmantissa]
    · rfl
    all_goals simp
  rw [cppNumber, h, hsigned, hnumber, Option.filter_none]
  exact ite_self _

theorem cppExpression_of_cppNumber {v : CppValue} (h : cppNumber s = some v) :
    cppExpression s = some v := by
  unfold cppExpression
  split
  · rename_i cs hcs
    rw [cppNumber_quote hcs] at h
    cases h
  · split_ifs with htrue hfalse
    · subst htrue
      have hnone : cppNumber "true" = none := by decide
      rw [hnone] at h
      cases h
    · subst hfalse
      have hnone : cppNumber "false" = none := by decide
      rw [hnone] at h
      cases h
    · exact h

theorem cppExpression_toString {z : ℤ} (h : isInt32 z) :
    cppExpression (toString z) = some (.integer z) := by
  have hbits : z.natAbs < 2 ^ 63 := by
    rw [isInt32, Bool.and_eq_true, decide_eq_true_eq, decide_eq_true_eq] at h
    omega
  refine cppExpression_of_cppNumber ?_
  rw [cppNumber, readSigned_toString, Option.filter_some, if_pos (by simpa using hbits)]

theorem readDigits_of_readLiteral {cs : List Char} {n : ℕ} (h : readLiteral cs = some n) :
    (readDigits 10 cs).isSome := by
  have hdigits : ∀ cs' : List Char, (readDigits 10 cs').isSome ↔
      cs' ≠ [] ∧ cs'.all fun c => c.isDigit && c.toNat - '0'.toNat < 10 := by
    intro cs'
    rw [readDigits]
    split_ifs with hall
    · exact iff_of_true rfl hall
    · exact iff_of_false (by simp) hall
  unfold readLiteral at h
  split at h
  · rename_i c cs
    rw [readDigits, Option.ite_none_right_eq_some] at h
    refine (hdigits _).mpr ⟨List.cons_ne_nil _ _, ?_⟩
    rw [List.all_cons, Bool.and_eq_true]
    refine ⟨by decide, List.all_eq_true.mpr fun d hd => ?_⟩
    have hoctal := List.all_eq_true.mp h.1.2 d hd
    rw [Bool.and_eq_true, decide_eq_true_eq] at hoctal ⊢
    exact ⟨hoctal.1, hoctal.2.trans (by decide)⟩
  · rw [h, Option.isSome_some]

/-- What follows the sign is read. -/
theorem exists_signed (cs : List Char) :
    ∃ cs', ∀ read : List Char → Option ℤ, (signed read cs).isSome = (read cs').isSome := by
  unfold signed
  split
  · exact ⟨_, fun read => Option.isSome_map⟩
  · exact ⟨_, fun read => rfl⟩
  · exact ⟨_, fun read => rfl⟩

theorem readSigned_eq_signed (cs : List Char) :
    readSigned cs = signed (fun cs => (readLiteral cs).map Nat.cast) cs := by
  unfold readSigned
  split
  · rw [signed, Option.map_map]
    rfl
  · rfl
  · rename_i hminus hplus
    rw [signed]
    · exact hminus
    · exact hplus

/-- A text that is not a decimal integer is not an integer literal either. -/
theorem readSigned_eq_none (h : decimalInteger s = none) : readSigned s.toList = none := by
  obtain ⟨cs, hcs⟩ := exists_signed s.toList
  rw [decimalInteger, signedDigits, ← Option.not_isSome_iff_eq_none, hcs, Option.isSome_map] at h
  rw [readSigned_eq_signed, ← Option.not_isSome_iff_eq_none, hcs, Option.isSome_map]
  cases hread : readLiteral cs with
  | none => exact Bool.false_ne_true
  | some n => exact absurd (readDigits_of_readLiteral hread) h

theorem cppExpression_floating {q : ℚ} (hinteger : decimalInteger s = none)
    (hnumber : decimalNumber s = some q) : cppExpression s = some (.floating q) := by
  refine cppExpression_of_cppNumber ?_
  rw [cppNumber, readSigned_eq_none hinteger, hinteger, hnumber, Option.filter_none]
  rfl

/-! ## Texts -/

/-- What `_bind_expression` writes for a character. -/
def escaped (c : Char) : List Char := if c ∈ ['\\', '"', '\''] then ['\\', c] else [c]

theorem foldl_escapeChar (s : String) :
    (['\\', '"', '\''].foldl escapeChar s).toList = s.toList.flatMap escaped := by
  simp only [List.foldl_cons, List.foldl_nil, escapeChar, String.toList_ofList, List.flatMap_assoc]
  refine congrArg (fun f => s.toList.flatMap f) (funext fun c => ?_)
  by_cases hslash : c = '\\'
  · subst hslash
    decide
  · by_cases hquote : c = '"'
    · subst hquote
      decide
    · by_cases happos : c = '\''
      · subst happos
        decide
      · simp [escaped, hslash, hquote, happos]

theorem readText_escaped {cs : List Char} (h : ∀ c ∈ cs, ¬isLineBreak c) :
    readText (cs.flatMap escaped ++ ['"']) = some cs := by
  induction cs with
  | nil => rfl
  | cons c cs ih =>
    obtain ⟨hc, hcs⟩ := List.forall_mem_cons.mp h
    rw [List.flatMap_cons, List.append_assoc, escaped]
    split_ifs with hmem
    · have hescape : simpleEscape c = some c := by
        simp only [List.mem_cons, List.not_mem_nil, or_false] at hmem
        rcases hmem with rfl | rfl | rfl <;> rfl
      rw [List.cons_append, List.cons_append, List.nil_append, readText, hescape]
      dsimp only
      rw [ih hcs, Option.map_some]
    · rw [List.singleton_append, readText, if_neg hc, ih hcs, Option.map_some]
      · rintro rfl
        simp at hmem
      · rintro _ _ rfl
        simp at hmem

theorem cppExpression_of_quote {cs : List Char} (h : s.toList = '"' :: cs) :
    cppExpression s = (readText cs).map .text := by
  unfold cppExpression
  split
  · rename_i cs' hcs
    rw [h] at hcs
    cases hcs
    rfl
  · rename_i hne
    exact absurd h (hne cs)

theorem cppExpression_quoted (h : ∀ c ∈ s.toList, ¬isLineBreak c) :
    cppExpression ("\"" ++ ['\\', '"', '\''].foldl escapeChar s ++ "\"") = some (.text s.toList) := by
  have htext : ("\"" ++ ['\\', '"', '\''].foldl escapeChar s ++ "\"").toList =
      '"' :: (s.toList.flatMap escaped ++ ['"']) := by
    rw [String.toList_append, String.toList_append, foldl_escapeChar]
    rfl
  rw [cppExpression_of_quote htext, readText_escaped h, Option.map_some]

/-! ## What is emitted -/

theorem bindExpression_bool {b : Bool} (h : expr.literal = some (toString b)) (allow : Bool) :
    emitted py expr allow = some (.boolean b) := by
  unfold emitted bindExpression
  rw [h]
  cases b <;> rfl

/-- What reads numbers reads no boolean. -/
theorem ne_bool_of_read {α : Type} {read : String → Option α} {a : α} (htrue : read "true" = none)
    (hfalse : read "false" = none) (h : read s = some a) : ¬(s = "true" ∨ s = "false") := by
  rintro (rfl | rfl)
  · rw [htrue] at h
    cases h
  · rw [hfalse] at h
    cases h

theorem emitted_integer (num : Numerals py Double) {z : ℤ} (h : expr.literal = some s)
    (hz : decimalInteger s = some z) (hbits : isInt32 z) (allow : Bool) :
    emitted py expr allow = some (.integer z) := by
  unfold emitted bindExpression
  rw [h]
  dsimp only
  have hne : ¬(s = "true" ∨ s = "false") := ne_bool_of_read (by decide) (by decide) hz
  rw [if_neg hne, num.int_decimal s z hz, Except.toOption, Option.filter_some,
    if_pos hbits]
  exact cppExpression_toString hbits

theorem emitted_floating (num : Numerals py Double) {q : ℚ} {d : Double} (h : expr.literal = some s)
    (hq : decimalNumber s = some q) (hbits : ∀ z, decimalInteger s = some z → ¬isInt32 z)
    (hd : num.round q = some d) (allow : Bool) :
    ∃ q', emitted py expr allow = some (.floating q') ∧ num.round q' = some d := by
  obtain ⟨hinteger, q', hq', hround⟩ := num.round_repr d
  have hint : (py.int s).toOption.filter isInt32 = none := by
    cases hz : decimalInteger s with
    | none =>
      obtain ⟨m, hm⟩ := num.int_floating s q hz hq
      rw [hm]
      rfl
    | some z => rw [num.int_decimal s z hz, Except.toOption, Option.filter_some, if_neg (hbits z hz)]
  refine ⟨q', ?_, hround⟩
  unfold emitted bindExpression
  rw [h]
  dsimp only
  have hne : ¬(s = "true" ∨ s = "false") := ne_bool_of_read (by decide) (by decide) hq
  rw [if_neg hne, hint, num.float_decimal s q d hq hd]
  exact cppExpression_floating hinteger hq'

theorem bindExpression_text (h : expr.literal = some s) (hs : IsText py s) (allow : Bool) :
    bindExpression py expr allow = if allow then
      some { loc := expr.loc, expr := some ("\"" ++ ['\\', '"', '\''].foldl escapeChar s ++ "\""),
             validateConstexpr := false, exported := true }
      else none := by
  obtain ⟨m, hm⟩ := hs.int
  have hne : ¬(s = "true" ∨ s = "false") := not_or.mpr ⟨hs.ne_bool true, hs.ne_bool false⟩
  unfold bindExpression
  rw [h]
  dsimp only
  rw [if_neg hne, hm, hs.float]
  rfl

/-- **A literal keeps its value**: booleans; integers of 32 bits; other decimal numbers in the range
of double precision, as the nearest floating literal; and texts without line breaks. Where texts are not
allowed, as in a validator, they are refused with an error. -/
theorem bind_expression_literal (num : Numerals py Double) (h : expr.literal = some s) :
    (∀ (b : Bool) (allow : Bool), s = toString b → emitted py expr allow = some (.boolean b)) ∧
    (∀ (z : ℤ) (allow : Bool), decimalInteger s = some z → isInt32 z →
      emitted py expr allow = some (.integer z)) ∧
    (∀ (q : ℚ) (d : Double) (allow : Bool), decimalNumber s = some q →
      (∀ z, decimalInteger s = some z → ¬isInt32 z) → num.round q = some d →
      ∃ q', emitted py expr allow = some (.floating q') ∧ num.round q' = some d) ∧
    (IsText py s → (∀ c ∈ s.toList, ¬isLineBreak c) →
      emitted py expr true = some (.text s.toList)) ∧
    (IsText py s → ∀ loc pred, bindPredicate py loc pred (some expr) =
      .ok none [valueNotNumericError loc pred expr.loc]) := by
  refine ⟨?_, fun z allow hz hbits => emitted_integer num h hz hbits allow,
    fun q d allow hq hbits hd => emitted_floating num h hq hbits hd allow, fun hs hbreak => ?_,
    fun hs loc pred => ?_⟩
  · rintro b allow rfl
    exact bindExpression_bool h allow
  · have hnode := bindExpression_text h hs true
    rw [if_pos rfl] at hnode
    rw [emitted, hnode, Option.bind_some, Option.bind_some]
    exact cppExpression_quoted hbreak
  · rw [bindPredicate, bindExpression_text h hs, if_neg Bool.false_ne_true]
    rfl

end Literals

/-! ## One number of double precision -/

/-- The numbers that are rounded to `2 ^ 53`. -/
def roundTo (q : ℚ) : Option Unit :=
  if 9007199254740991.5 ≤ q ∧ q ≤ 9007199254740993 then some () else none

/-- `int` on decimal literals. -/
def decimalInt (s : String) : Except String ℤ :=
  match decimalInteger s with
  | some z => .ok z
  | none => .error ("invalid literal for int() with base 10: '" ++ s ++ "'")

def roundingPython : Python :=
  { asciiPython with
    int := decimalInt
    float := fun s => ((decimalNumber s).bind roundTo).map fun _ => "9007199254740992.0" }

def roundingNumerals : Numerals roundingPython Unit where
  round := roundTo
  repr _ := "9007199254740992.0"
  int_decimal s z h := by
    change decimalInt s = .ok z
    rw [decimalInt, h]
  int_floating s q h _ := by
    refine ⟨"invalid literal for int() with base 10: '" ++ s ++ "'", ?_⟩
    change decimalInt s = _
    rw [decimalInt, h]
  float_decimal s q d hq hd := by
    change ((decimalNumber s).bind roundTo).map _ = _
    rw [hq, Option.bind_some, hd, Option.map_some]
  round_repr := by
    rintro ⟨⟩
    exact ⟨by decide, 9007199254740992, by decide +kernel, by decide +kernel⟩

def literal (s : String) : Expression where
  loc := ⟨"a.idl", 0, 0⟩
  literal := some s

theorem bind_expression_literal_half :
    ∃ q, emitted roundingPython (literal "9007199254740992.5") true = some (.floating q) ∧
      roundTo q = some () :=
  (bind_expression_literal roundingNumerals rfl).2.2.1 9007199254740992.5 () true
    (by decide +kernel) (fun z hz => by
      have hnone : decimalInteger "9007199254740992.5" = none := by decide
      rw [hnone] at hz
      cases hz) (by decide +kernel)

/-- **An integer of 64 bits.** It becomes a floating literal of another value. -/
theorem wide_integer_rounded :
    decimalInteger "9007199254740993" = some 9007199254740993 ∧
    emitted roundingPython (literal "9007199254740993") true = some (.floating 9007199254740992) := by
  refine ⟨by decide, ?_⟩
  decide +kernel

end MongoTests.Idl
