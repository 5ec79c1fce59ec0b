import Mathlib.Data.List.Infix
import Mathlib.Data.List.TakeWhile
import MongoTests.Lib.Dict
import MongoTests.Lib.Scan

/-!
# Assertion codes in source files

`parse_source_files` of `errorcodes.py`. A text is the list of its characters.

* `Unicode`: the spaces and the decimal digits of Python.
* `units`, `readText`: a file is read with universal newlines.
* `patterns`: words, an opening bracket and a code; `parseSourceFiles`: the locations of the codes.
* `CodeAt`: a code is all the digits from its offset on.
* **`codeAt_of_mem`**, `offset_injective`: what the locations are.
-/

namespace MongoTests.ErrorCodes

open MongoTests.Lib

/-! ## Characters -/

structure Unicode where
  /-- `\s`: that of `re` and that of `regex` differ in some control characters. -/
  isSpace : Char → Bool
  /-- The value of a character of `\d`. -/
  digit? : Char → Option ℕ
  isSpace_of_ascii : ∀ c, 9 ≤ c.toNat ∧ c.toNat ≤ 13 ∨ c = ' ' → isSpace c
  not_isSpace : ∀ c, 33 ≤ c.toNat → c.toNat < 127 → isSpace c = false
  digit?_ascii : ∀ c, c.toNat < 128 → digit? c = if c.isDigit then some (c.toNat - '0'.toNat) else none
  digit?_of_isSpace : ∀ c, isSpace c → digit? c = none

def Unicode.ascii : Unicode where
  isSpace c := 9 ≤ c.toNat && c.toNat ≤ 13 || c = ' '
  digit? c := if c.isDigit then some (c.toNat - '0'.toNat) else none
  isSpace_of_ascii c h := by
    rw [Bool.or_eq_true, Bool.and_eq_true, decide_eq_true_eq, decide_eq_true_eq, decide_eq_true_eq]
    exact h
  not_isSpace c h _ := by
    have hspace : ' '.toNat = 32 := rfl
    rw [Bool.or_eq_false_iff, Bool.and_eq_false_iff, decide_eq_false_iff_not, decide_eq_false_iff_not,
      decide_eq_false_iff_not]
    refine ⟨.inr (by omega), ?_⟩
    rintro rfl
    omega
  digit?_ascii _ _ := rfl
  digit?_of_isSpace c h := by
    have hspace : ' '.toNat = 32 := rfl
    refine if_neg fun hdigit => ?_
    have hzero : 48 ≤ c.toNat := (Char.isDigit_iff_toNat.mp hdigit).1
    rw [Bool.or_eq_true, Bool.and_eq_true, decide_eq_true_eq, decide_eq_true_eq, decide_eq_true_eq] at h
    obtain h | rfl := h <;> omega

def Unicode.isDigit (uni : Unicode) (c : Char) : Bool := (uni.digit? c).isSome

/-- `int` of decimal digits. -/
def Unicode.int (uni : Unicode) (code : List Char) : ℕ :=
  code.foldl (fun n c => 10 * n + (uni.digit? c).getD 0) 0

/-! ## Reading a file -/

/-- The characters that are read as one: `\r\n` is a newline. -/
def units : List Char → List (List Char)
  | [] => []
  | '\r' :: '\n' :: cs => ['\r', '\n'] :: units cs
  | c :: cs => [c] :: units cs

def unitChar : List Char → Char
  | c :: _ => if c = '\r' then '\n' else c
  | [] => '\n'

def readText (raw : List Char) : List Char := (units raw).map unitChar

theorem flatten_units (raw : List Char) : (units raw).flatten = raw := by
  fun_induction units raw with
  | case1 => rfl
  | case2 cs ih => rw [List.flatten_cons, ih]; rfl
  | case3 c cs _ ih => rw [List.flatten_cons, ih]; rfl

theorem units_of_notMem {raw : List Char} (h : '\r' ∉ raw) : units raw = raw.map fun c => [c] := by
  fun_induction units raw with
  | case1 => rfl
  | case2 cs ih => exact absurd List.mem_cons_self h
  | case3 c cs _ ih =>
    rw [ih fun hcs => h (List.mem_cons_of_mem c hcs)]
    rfl

theorem readText_of_notMem {raw : List Char} (h : '\r' ∉ raw) : readText raw = raw := by
  rw [readText, units_of_notMem h, List.map_map]
  refine (List.map_congr_left fun c hc => ?_).trans (List.map_id raw)
  exact if_neg fun hr : c = '\r' => h (hr ▸ hc)

theorem units_append {s : List Char} (h : '\r' ∉ s) (t : List Char) :
    units (s ++ t) = s.map (fun c => [c]) ++ units t := by
  induction s with
  | nil => rfl
  | cons c s ih =>
    rw [List.mem_cons, not_or] at h
    rw [List.cons_append, units, ih h.2, List.map_cons, List.cons_append]
    rintro _ rfl
    exact absurd rfl h.1

/-- The first carriage return is read as a newline. -/
theorem exists_readText_append {s : List Char} (h : '\r' ∉ s) (t : List Char) :
    ∃ t', readText (s ++ '\r' :: t) = s ++ '\n' :: t' := by
  have hfirst : ∃ t', readText ('\r' :: t) = '\n' :: t' := by
    rw [readText]
    cases t with
    | nil => exact ⟨_, rfl⟩
    | cons c t =>
      by_cases hc : c = '\n'
      · subst hc
        exact ⟨_, rfl⟩
      · rw [units, List.map_cons]
        · exact ⟨_, rfl⟩
        · rintro _ - hc'
          exact hc (List.cons.inj hc').1
  obtain ⟨t', ht'⟩ := hfirst
  have hmap : (s.map fun c => [c]).map unitChar = s := by
    have hread := readText_of_notMem h
    rwa [readText, units_of_notMem h] at hread
  refine ⟨t', ?_⟩
  rw [readText, units_append h, List.map_append, hmap, ← ht', readText]

/-- Each carriage return is in a unit of its own. -/
theorem countP_units (raw : List Char) : (units raw).countP (fun u => '\r' ∈ u) = raw.count '\r' := by
  fun_induction units raw with
  | case1 => rfl
  | case2 cs ih =>
    rw [List.countP_cons_of_pos (by decide), ih, List.count_cons_self, List.count_cons_of_ne (by decide)]
  | case3 c cs _ ih =>
    by_cases hc : c = '\r'
    · subst hc
      rw [List.countP_cons_of_pos (by decide), ih, List.count_cons_self]
    · rw [List.countP_cons_of_neg (by simpa using Ne.symm hc), ih, List.count_cons_of_ne hc]

theorem mem_units {raw u : List Char} (h : u ∈ units raw) : u = ['\r', '\n'] ∨ ∃ c, u = [c] := by
  fun_induction units raw with
  | case1 => exact absurd h List.not_mem_nil
  | case2 cs ih =>
    obtain rfl | h := List.mem_cons.mp h
    · exact .inl rfl
    · exact ih h
  | case3 c cs _ ih =>
    obtain rfl | h := List.mem_cons.mp h
    · exact .inr ⟨c, rfl⟩
    · exact ih h

theorem notMem_readText (raw : List Char) : '\r' ∉ readText raw := by
  intro h
  obtain ⟨u, -, hu⟩ := List.mem_map.mp h
  cases u with
  | nil => exact absurd hu (by decide)
  | cons c u =>
    rw [unitChar] at hu
    split_ifs at hu with hc
    · exact absurd hu (by decide)
    · exact hc hu

/-! ## Patterns -/

/-- A pattern `(?:head|…)\s*[open…]\s*(\d+)`. -/
structure AssertPattern where
  heads : List (List Char)
  opens : List Char

/-- The alternatives in their order. -/
def alternatives (parts : List (List String)) : List (List Char) :=
  parts.foldr (fun part rest => part.flatMap fun s => rest.map fun t => s.toList ++ t) [[]]

def patterns : List AssertPattern := [
  ⟨alternatives [["u", "msg", "m"], ["asser"], ["t", "ted"], ["NoTrace", ""]], ['(']⟩,
  ⟨alternatives [["DB", "Assertion"], ["Exception"]], ['(', '{']⟩,
  ⟨alternatives [["fassert"], ["Failed", ""], ["WithStatus", ""], ["NoTrace", ""], ["StatusOK", ""]], ['(']⟩,
  ⟨alternatives [["ErrorCodes::Error"]], ['(', '{']⟩]

/-- `match.start(1)`, from the start of the match on, and `match.group(1)`. -/
structure CodeMatch where
  codeOffset : ℕ
  code : List Char

variable (uni : Unicode)

/-- `\s*[open…]\s*(\d+)` -/
def matchCode (opens : List Char) (cs : List Char) : Option CodeMatch :=
  match cs.dropWhile uni.isSpace with
  | [] => none
  | c :: rest =>
    let code := (rest.dropWhile uni.isSpace).takeWhile uni.isDigit
    if c ∈ opens ∧ code ≠ [] then
      some ⟨(cs.takeWhile uni.isSpace).length + 1 + (rest.takeWhile uni.isSpace).length, code⟩
    else none

def matchHead (opens : List Char) (cs head : List Char) : Option CodeMatch :=
  if head <+: cs then
    (matchCode uni opens (cs.drop head.length)).map fun m => ⟨head.length + m.codeOffset, m.code⟩
  else none

/-- The parts of a match, and what comes after it. -/
structure Match (p : AssertPattern) (cs : List Char) (m : CodeMatch) where
  head : List Char
  spaces : List Char
  openChar : Char
  spaces' : List Char
  after : List Char
  eq : cs = head ++ (spaces ++ openChar :: spaces') ++ (m.code ++ after)
  head_mem : head ∈ p.heads
  isSpace : ∀ c ∈ spaces, uni.isSpace c
  open_mem : openChar ∈ p.opens
  isSpace' : ∀ c ∈ spaces', uni.isSpace c
  codeOffset : m.codeOffset = (head ++ (spaces ++ openChar :: spaces')).length
  code_ne_nil : m.code ≠ []
  isDigit : ∀ c ∈ m.code, uni.isDigit c
  not_isDigit : ∀ c, after.head? = some c → uni.isDigit c = false

variable {uni}

theorem exists_match {p : AssertPattern} {cs : List Char} {m : CodeMatch}
    (h : p.heads.findSome? (matchHead uni p.opens cs) = some m) : Nonempty (Match uni p cs m) := by
  obtain ⟨head, hhead, hm⟩ := List.exists_of_findSome?_eq_some h
  rw [matchHead, Option.ite_none_right_eq_some] at hm
  obtain ⟨⟨rest, rfl⟩, hm⟩ := hm
  obtain ⟨m', hm', rfl⟩ := Option.map_eq_some_iff.mp hm
  rw [List.drop_left] at hm'
  unfold matchCode at hm'
  split at hm'
  · cases hm'
  · rename_i c rest' hrest'
    rw [Option.ite_none_right_eq_some] at hm'
    obtain ⟨⟨hopen, hcode⟩, hm'⟩ := hm'
    cases hm'
    have hrest : rest = rest.takeWhile uni.isSpace ++ c :: rest' := by
      rw [← hrest', List.takeWhile_append_dropWhile]
    refine ⟨{
      head, spaces := rest.takeWhile uni.isSpace, openChar := c, spaces' := rest'.takeWhile uni.isSpace
      after := (rest'.dropWhile uni.isSpace).dropWhile uni.isDigit
      eq := ?_
      head_mem := hhead
      isSpace := fun _ => List.mem_takeWhile_imp
      open_mem := hopen
      isSpace' := fun _ => List.mem_takeWhile_imp
      codeOffset := ?_
      code_ne_nil := hcode
      isDigit := fun _ => List.mem_takeWhile_imp
      not_isDigit := ?_ }⟩
    · rw [List.append_assoc, List.takeWhile_append_dropWhile, List.append_assoc, List.cons_append,
        List.takeWhile_append_dropWhile, ← hrest]
    · simp only [List.length_append, List.length_cons]
      omega
    · intro d hd
      have hnot := List.head?_dropWhile_not uni.isDigit (rest'.dropWhile uni.isSpace)
      rw [hd] at hnot
      exact hnot

variable (uni)

def AssertPattern.toPattern (p : AssertPattern) : Pattern Char CodeMatch where
  match? cs := p.heads.findSome? (matchHead uni p.opens cs)
  size m := m.codeOffset + m.code.length
  size_pos cs m h := by
    obtain ⟨hm⟩ := exists_match h
    have hpos := List.length_pos_iff.mpr hm.code_ne_nil
    omega
  size_le cs m h := by
    obtain ⟨hm⟩ := exists_match h
    have hlength := congrArg List.length hm.eq
    rw [List.length_append, ← hm.codeOffset, List.length_append] at hlength
    omega

/-! ## Locations -/

structure AssertLocation where
  sourceFile : String
  byteOffset : ℕ
  lines : List Char
  code : List Char
  deriving DecidableEq

/-- The texts that a file needs to be searched. -/
def quick : List (List Char) := ["assert".toList, "Exception".toList, "ErrorCodes::Error".toList]

/-- The locations in a file, pattern by pattern. -/
def parseText (sourceFile : String) (text : List Char) : List AssertLocation :=
  patterns.flatMap fun p => ((p.toPattern uni).finditer text).map fun (i, m) =>
    ⟨sourceFile, i + m.codeOffset, (text.drop i).take (m.codeOffset + m.code.length), m.code⟩

/-- The locations, in the order of the callbacks. -/
def parseSourceFiles (files : Dict String (List Char)) : List AssertLocation :=
  files.items.flatMap fun (sourceFile, raw) =>
    let text := readText raw
    if quick.any fun zz => zz <:+: text then parseText uni sourceFile text else []

/-- The code is all the digits from the offset on, and a character that is no digit comes before it. -/
structure CodeAt (text : List Char) (offset : ℕ) (code : List Char) : Prop where
  code_prefix : code <+: text.drop offset
  code_ne_nil : code ≠ []
  isDigit : ∀ c ∈ code, uni.isDigit c
  head?_after : ∀ c, (text.drop (offset + code.length)).head? = some c → uni.isDigit c = false
  getLast?_before : ∃ c, (text.take offset).getLast? = some c ∧ uni.isDigit c = false

variable {uni}

section Match

variable {p p' : AssertPattern} {cs text : List Char} {m m' : CodeMatch} {i i' : ℕ}

/-- What is in front of the code. -/
theorem Match.take_codeOffset (hm : Match uni p cs m) :
    cs.take m.codeOffset = hm.head ++ (hm.spaces ++ hm.openChar :: hm.spaces') := by
  refine (congrArg (List.take m.codeOffset) hm.eq).trans ?_
  rw [hm.codeOffset, List.take_left]

theorem Match.drop_codeOffset (hm : Match uni p cs m) : cs.drop m.codeOffset = m.code ++ hm.after := by
  refine (congrArg (List.drop m.codeOffset) hm.eq).trans ?_
  rw [hm.codeOffset, List.drop_left]

theorem not_isDigit_of_isSpace {c : Char} (h : uni.isSpace c) : uni.isDigit c = false := by
  rw [Unicode.isDigit, uni.digit?_of_isSpace c h, Option.isSome_none]

theorem ascii_of_mem_opens (hp : p ∈ patterns) {c : Char} (hc : c ∈ p.opens) : c = '(' ∨ c = '{' := by
  simp only [patterns, List.mem_cons, List.not_mem_nil, or_false] at hp
  rcases hp with rfl | rfl | rfl | rfl
  all_goals
    simp only [List.mem_cons, List.not_mem_nil, or_false] at hc
    tauto

theorem not_isDigit_of_mem_opens (hp : p ∈ patterns) {c : Char} (hc : c ∈ p.opens) :
    uni.isDigit c = false := by
  rcases ascii_of_mem_opens hp hc with rfl | rfl
  · rw [Unicode.isDigit, uni.digit?_ascii _ (by decide)]
    rfl
  · rw [Unicode.isDigit, uni.digit?_ascii _ (by decide)]
    rfl

theorem Match.codeAt (hm : Match uni p (text.drop i) m) (hp : p ∈ patterns) :
    CodeAt uni text (i + m.codeOffset) m.code where
  code_prefix := by
    rw [← List.drop_drop, hm.drop_codeOffset]
    exact List.prefix_append _ _
  code_ne_nil := hm.code_ne_nil
  isDigit := hm.isDigit
  head?_after c hc := by
    rw [← List.drop_drop, ← List.drop_drop, hm.drop_codeOffset, List.drop_left] at hc
    exact hm.not_isDigit c hc
  getLast?_before := by
    have hne : hm.head ++ (hm.spaces ++ hm.openChar :: hm.spaces') ≠ [] := by simp
    rw [List.take_add, hm.take_codeOffset, List.getLast?_append_of_ne_nil _ hne,
      List.getLast?_append_of_ne_nil _ (by simp), List.getLast?_append_of_ne_nil _ (List.cons_ne_nil _ _),
      List.getLast?_eq_some_getLast (List.cons_ne_nil _ _)]
    refine ⟨_, rfl, ?_⟩
    obtain heq | hmem := List.mem_cons.mp (List.getLast_mem (List.cons_ne_nil hm.openChar hm.spaces'))
    · rw [heq]
      exact not_isDigit_of_mem_opens hp hm.open_mem
    · exact not_isDigit_of_isSpace (hm.isSpace' _ hmem)

theorem heads_isAlpha : ∀ p ∈ patterns, ∀ head ∈ p.heads, head.getLast?.any Char.isAlpha = true := by
  decide

/-- No head of a pattern ends with one of another pattern. -/
theorem pairwise_heads : patterns.Pairwise fun p p' => ∀ head ∈ p.heads, ∀ head' ∈ p'.heads,
    ¬head <:+ head' ∧ ¬head' <:+ head := by
  decide

theorem not_isSpace_of_isAlpha {c : Char} (h : c.isAlpha = true) : uni.isSpace c = false := by
  have hbounds : 65 ≤ c.toNat ∧ c.toNat ≤ 122 := by
    have hletter : (decide (c.val ≥ 'A'.val ∧ c.val ≤ 'Z'.val) ||
        decide (c.val ≥ 'a'.val) && decide (c.val ≤ 'z'.val)) = true := h
    rw [Bool.or_eq_true, Bool.and_eq_true, decide_eq_true_eq, decide_eq_true_eq, decide_eq_true_eq, ge_iff_le, ge_iff_le, UInt32.le_iff_toNat_le,
      UInt32.le_iff_toNat_le, UInt32.le_iff_toNat_le, UInt32.le_iff_toNat_le] at hletter
    change 65 ≤ c.val.toNat ∧ c.val.toNat ≤ 122
    have hletters : 'A'.val.toNat = 65 ∧ 'Z'.val.toNat = 90 ∧ 'a'.val.toNat = 97 ∧ 'z'.val.toNat = 122 := by
      decide
    omega
  exact uni.not_isSpace c (by omega) (by omega)

theorem not_isSpace_of_mem_opens (hp : p ∈ patterns) {c : Char} (hc : c ∈ p.opens) :
    uni.isSpace c = false := by
  rcases ascii_of_mem_opens hp hc with rfl | rfl
  · exact uni.not_isSpace _ (by decide) (by decide)
  · exact uni.not_isSpace _ (by decide) (by decide)

variable (uni) in
/-- A text, from its end, without spaces, a bracket and spaces. -/
def strip (s : List Char) : List Char :=
  ((s.reverse.dropWhile uni.isSpace).drop 1).dropWhile uni.isSpace

theorem Match.strip_take (hm : Match uni p (text.drop i) m) (hp : p ∈ patterns) :
    strip uni (text.take (i + m.codeOffset)) = (text.take i ++ hm.head).reverse := by
  have hreverse : (text.take (i + m.codeOffset)).reverse =
      hm.spaces'.reverse ++ hm.openChar :: (hm.spaces.reverse ++ (text.take i ++ hm.head).reverse) := by
    rw [List.take_add, hm.take_codeOffset]
    simp
  have hspaces : ∀ c ∈ hm.spaces.reverse, uni.isSpace c := fun c hc => hm.isSpace c (List.mem_reverse.mp hc)
  have hspaces' : ∀ c ∈ hm.spaces'.reverse, uni.isSpace c :=
    fun c hc => hm.isSpace' c (List.mem_reverse.mp hc)
  rw [strip, hreverse, List.dropWhile_append_of_pos hspaces', List.dropWhile_cons_of_neg, List.drop_one,
    List.tail_cons, List.dropWhile_append_of_pos hspaces]
  · have hhead := heads_isAlpha p hp hm.head hm.head_mem
    rw [List.reverse_append]
    cases hlast : hm.head.reverse with
    | nil =>
      rw [List.reverse_eq_nil_iff.mp hlast] at hhead
      cases hhead
    | cons c head =>
      rw [← List.head?_reverse, hlast, List.head?_cons, Option.any_some] at hhead
      rw [List.cons_append, List.dropWhile_cons_of_neg]
      rw [not_isSpace_of_isAlpha hhead]
      exact Bool.false_ne_true
  · rw [not_isSpace_of_mem_opens hp hm.open_mem]
    exact Bool.false_ne_true

/-- Matches of two patterns have different codes. -/
theorem Match.codeOffset_ne (hm : Match uni p (text.drop i) m) (hm' : Match uni p' (text.drop i') m')
    (hp : p ∈ patterns) (hp' : p' ∈ patterns)
    (hheads : ∀ head ∈ p.heads, ∀ head' ∈ p'.heads, ¬head <:+ head' ∧ ¬head' <:+ head) :
    i + m.codeOffset ≠ i' + m'.codeOffset := by
  intro heq
  have hstrip := hm.strip_take hp
  rw [heq, hm'.strip_take hp', List.reverse_inj] at hstrip
  have hsuffix : hm.head <:+ text.take i ++ hm.head := List.suffix_append _ _
  have hsuffix' : hm'.head <:+ text.take i' ++ hm'.head := List.suffix_append _ _
  rw [hstrip] at hsuffix'
  obtain ⟨hne, hne'⟩ := hheads hm.head hm.head_mem hm'.head hm'.head_mem
  exact (List.suffix_or_suffix_of_suffix hsuffix hsuffix').elim hne hne'

theorem exists_match_of_mem (h : (i, m) ∈ (p.toPattern uni).finditer text) :
    Nonempty (Match uni p (text.drop i) m) :=
  exists_match (Pattern.mem_finditer h)

end Match

section Locations

variable {files : Dict String (List Char)} {sourceFile : String} {text : List Char} {l l' : AssertLocation}

theorem mem_parseText : l ∈ parseText uni sourceFile text ↔ ∃ p ∈ patterns, ∃ i m,
    (i, m) ∈ (p.toPattern uni).finditer text ∧
      l = ⟨sourceFile, i + m.codeOffset, (text.drop i).take (m.codeOffset + m.code.length), m.code⟩ := by
  simp only [parseText, List.mem_flatMap, List.mem_map, Prod.exists, eq_comm (a := l)]

theorem codeAt_of_mem_parseText (h : l ∈ parseText uni sourceFile text) :
    l.sourceFile = sourceFile ∧ CodeAt uni text l.byteOffset l.code := by
  obtain ⟨p, hp, i, m, hmem, rfl⟩ := mem_parseText.mp h
  obtain ⟨hm⟩ := exists_match_of_mem hmem
  exact ⟨rfl, hm.codeAt hp⟩

/-- The offsets in a file differ. -/
theorem pairwise_parseText (sourceFile : String) (text : List Char) :
    (parseText uni sourceFile text).Pairwise fun l l' => l.byteOffset ≠ l'.byteOffset := by
  rw [parseText, List.pairwise_flatMap]
  refine ⟨fun p _ => ?_, ?_⟩
  · rw [List.pairwise_map]
    refine (Pattern.pairwise_finditer text).imp_of_mem fun {x y} hx hy hle => ?_
    obtain ⟨i, m⟩ := x
    obtain ⟨i', m'⟩ := y
    obtain ⟨hm⟩ := exists_match_of_mem hx
    have hpos := List.length_pos_iff.mpr hm.code_ne_nil
    have hsize : i + (m.codeOffset + m.code.length) ≤ i' := hle
    dsimp only
    omega
  · refine pairwise_heads.imp_of_mem fun {p p'} hp hp' hheads l hl l' hl' => ?_
    obtain ⟨⟨i, m⟩, hmem, rfl⟩ := List.mem_map.mp hl
    obtain ⟨⟨i', m'⟩, hmem', rfl⟩ := List.mem_map.mp hl'
    obtain ⟨hm⟩ := exists_match_of_mem hmem
    obtain ⟨hm'⟩ := exists_match_of_mem hmem'
    exact hm.codeOffset_ne hm' hp hp' hheads

theorem mem_parseSourceFiles (h : l ∈ parseSourceFiles uni files) :
    ∃ raw, files.get l.sourceFile = some raw ∧ l ∈ parseText uni l.sourceFile (readText raw) := by
  obtain ⟨⟨sourceFile, raw⟩, hfile, hl⟩ := List.mem_flatMap.mp h
  dsimp only at hl
  split_ifs at hl
  · have hsource := (codeAt_of_mem_parseText hl).1
    rw [hsource]
    exact ⟨raw, Dict.mem_items.mp hfile, hl⟩
  · exact absurd hl List.not_mem_nil

/-- **What a location is.** -/
theorem codeAt_of_mem (h : l ∈ parseSourceFiles uni files) :
    ∃ raw, files.get l.sourceFile = some raw ∧ CodeAt uni (readText raw) l.byteOffset l.code := by
  obtain ⟨raw, hget, hl⟩ := mem_parseSourceFiles h
  exact ⟨raw, hget, (codeAt_of_mem_parseText hl).2⟩

/-- The file and the offset of a location. -/
def AssertLocation.place (l : AssertLocation) : String × ℕ := (l.sourceFile, l.byteOffset)

theorem nodup_place (files : Dict String (List Char)) :
    ((parseSourceFiles uni files).map AssertLocation.place).Nodup := by
  rw [List.Nodup, List.pairwise_map, parseSourceFiles, List.pairwise_flatMap]
  constructor
  · rintro ⟨sourceFile, raw⟩ -
    dsimp only
    split_ifs
    · exact (pairwise_parseText sourceFile (readText raw)).imp fun hne heq => hne (Prod.ext_iff.mp heq).2
    · exact List.Pairwise.nil
  · refine (List.pairwise_map.mp files.nodup).imp fun {f f'} hne l hl l' hl' heq => ?_
    dsimp only at hl hl'
    split_ifs at hl hl'
    · have hsource := (codeAt_of_mem_parseText hl).1
      have hsource' := (codeAt_of_mem_parseText hl').1
      exact hne (hsource.symm.trans ((Prod.ext_iff.mp heq).1.trans hsource'))
    all_goals simp_all

/-! ## Codes in a text -/

theorem CodeAt.offset_lt {offset offset' : ℕ} {code code' : List Char} (h : CodeAt uni text offset code)
    (h' : CodeAt uni text offset' code') (hlt : offset < offset') : offset + code.length < offset' := by
  by_contra hle
  obtain ⟨after, hafter⟩ := h.code_prefix
  obtain ⟨k, rfl⟩ : ∃ k, offset' = offset + k + 1 := ⟨offset' - offset - 1, by omega⟩
  have hk : k < code.length := by omega
  have hget : text[offset + k]? = some code[k] := by
    rw [← List.getElem?_drop, ← hafter, List.getElem?_append_left hk, List.getElem?_eq_getElem hk]
  obtain ⟨c, hc, hdigit⟩ := h'.getLast?_before
  rw [List.getLast?_take, if_neg (Nat.succ_ne_zero _), Nat.add_sub_cancel, hget, Option.some_or] at hc
  cases hc
  rw [h.isDigit _ (List.getElem_mem hk)] at hdigit
  cases hdigit

theorem CodeAt.drop_take {offset : ℕ} {code : List Char} (h : CodeAt uni text offset code) :
    (text.drop offset).take code.length = code :=
  (List.prefix_iff_eq_take.mp h.code_prefix).symm

theorem CodeAt.length_pos {offset : ℕ} {code : List Char} (h : CodeAt uni text offset code) :
    0 < code.length :=
  List.length_pos_iff.mpr h.code_ne_nil

theorem CodeAt.add_length_le {offset : ℕ} {code : List Char} (h : CodeAt uni text offset code) :
    offset + code.length ≤ text.length := by
  have hle := h.code_prefix.length_le
  have hpos := h.length_pos
  rw [List.length_drop] at hle
  omega

variable (uni) in
theorem not_isDigit_newline : uni.isDigit '\r' = false ∧ uni.isDigit '\n' = false := by
  constructor
  all_goals
    rw [Unicode.isDigit, uni.digit?_ascii _ (by decide)]
    rfl

/-- A unit of digits is read as it is. -/
theorem all_isDigit_unit {raw u : List Char} (h : u ∈ units raw) :
    u.all uni.isDigit = uni.isDigit (unitChar u) ∧ (uni.isDigit (unitChar u) → u = [unitChar u]) := by
  obtain ⟨hr, hn⟩ := not_isDigit_newline uni
  obtain rfl | ⟨c, rfl⟩ := mem_units h
  · have hread : unitChar ['\r', '\n'] = '\n' := rfl
    rw [hread, hn, List.all_cons, hr]
    exact ⟨rfl, fun hd => by cases hd⟩
  · rw [List.all_cons, List.all_nil, Bool.and_true, unitChar]
    split_ifs with hc
    · rw [hc, hr, hn]
      exact ⟨rfl, fun hd => by cases hd⟩
    · exact ⟨rfl, fun _ => rfl⟩

theorem CodeAt.units_drop_take {raw : List Char} {offset : ℕ} {code : List Char}
    (h : CodeAt uni (readText raw) offset code) :
    ((units raw).drop offset).take code.length = code.map fun c => [c] := by
  have hmap : (((units raw).drop offset).take code.length).map unitChar = code := by
    rw [List.map_take, List.map_drop, ← readText]
    exact h.drop_take
  conv_rhs => rw [← hmap, List.map_map]
  rw [eq_comm]
  refine (List.map_congr_left fun u hu => ?_).trans (List.map_id _)
  have hdigit : uni.isDigit (unitChar u) := by
    refine h.isDigit _ ?_
    rw [← hmap]
    exact List.mem_map_of_mem hu
  exact ((all_isDigit_unit (List.mem_of_mem_drop (List.mem_of_mem_take hu))).2 hdigit).symm

theorem CodeAt.head?_units {raw : List Char} {offset : ℕ} {code u : List Char}
    (h : CodeAt uni (readText raw) offset code)
    (hu : ((units raw).drop (offset + code.length)).head? = some u) : u.all uni.isDigit = false := by
  rw [(all_isDigit_unit (List.mem_of_mem_drop (List.mem_of_head? hu))).1]
  refine h.head?_after _ ?_
  rw [readText, ← List.map_drop, List.head?_map, hu, Option.map_some]

theorem CodeAt.notMem_of_ascii {offset : ℕ} {code : List Char} {c : Char} (h : CodeAt uni text offset code)
    (hc : c.toNat < 128) (hdigit : c.isDigit = false) : c ∉ code := by
  intro hmem
  have := h.isDigit c hmem
  rw [Unicode.isDigit, uni.digit?_ascii c hc, hdigit] at this
  cases this

end Locations

end MongoTests.ErrorCodes
