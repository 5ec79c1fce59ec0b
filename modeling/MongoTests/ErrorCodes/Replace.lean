import Mathlib.Algebra.GroupWithZero.Nat
import Mathlib.Data.List.Sort
import Mathlib.Data.String.Basic
import MongoTests.ErrorCodes.Check
import MongoTests.Lib.Checked
import MongoTests.Lib.Decimal
import MongoTests.Lib.Splice

/-!
# Replacing the zero codes

`replace_bad_codes`, which writes the next code over the first digit of each zero code, the last one
first. What is printed is left out, but not the exceptions that printing a line raises.

* `splitlines`, `readlines`: they end lines at different characters.
* `overwrite`: a file that is written again from its start keeps what is left of it.
* `replaceRaw`, `replaceRaws`: one location of a file, and all of them.
* **`replaceRaws_eq_ok`**: what becomes of a file without carriage returns; `count_of_replaceRaws`: of a
  file with some.
-/

namespace MongoTests.ErrorCodes

open MongoTests.Lib Dict

/-! ## Lines -/

/-- The lines of a text, each with the character that ends it. -/
def splitAfter (isEnd : Char → Bool) : List Char → List (List Char)
  | [] => []
  | c :: cs =>
    if isEnd c then [c] :: splitAfter isEnd cs
    else match splitAfter isEnd cs with
      | [] => [[c]]
      | line :: lines => (c :: line) :: lines

/-- The line boundaries of Python, in a text without carriage returns. -/
def isLineBoundary (c : Char) : Bool :=
  10 ≤ c.toNat && c.toNat ≤ 12 || 28 ≤ c.toNat && c.toNat ≤ 30 || c.toNat = 0x85 || c.toNat = 0x2028 ||
    c.toNat = 0x2029

/-- `text.splitlines(True)` -/
def splitlines : List Char → List (List Char) := splitAfter isLineBoundary

/-- `fh.readlines()` -/
def readlines : List Char → List (List Char) := splitAfter fun c => c = '\n'

/-- The offsets of the lines, and that of the end, from `n` on. -/
def offsetsFrom (n : ℕ) (lines : List (List Char)) : List ℕ := lines.scanl (fun n line => n + line.length) n

/-- `bisect.bisect` on a sorted list. -/
def bisect (offsets : List ℕ) (x : ℕ) : ℕ := (offsets.takeWhile fun n => n ≤ x).length

/-- The line of `get_line_and_column_for_position`. -/
def getLine (text : List Char) (byteOffset : ℕ) : ℕ := bisect (offsetsFrom 0 (splitlines text)) byteOffset

theorem bisect_cons (n x : ℕ) (offsets : List ℕ) :
    bisect (n :: offsets) x = if n ≤ x then bisect offsets x + 1 else 0 := by
  unfold bisect
  rw [List.takeWhile_cons]
  by_cases h : n ≤ x <;> simp [h]

theorem bisect_offsetsFrom_of_lt {n x : ℕ} (h : x < n) (lines : List (List Char)) :
    bisect (offsetsFrom n lines) x = 0 := by
  unfold offsetsFrom
  cases lines with
  | nil => rw [List.scanl_nil, bisect_cons, if_neg (Nat.not_le_of_lt h)]
  | cons line lines => rw [List.scanl_cons, bisect_cons, if_neg (Nat.not_le_of_lt h)]

theorem bisect_offsetsFrom_cons {n x : ℕ} (h : n ≤ x) (line : List Char) (lines : List (List Char)) :
    bisect (offsetsFrom n (line :: lines)) x = bisect (offsetsFrom (n + line.length) lines) x + 1 := by
  rw [offsetsFrom, List.scanl_cons, bisect_cons, if_pos h, offsetsFrom]

theorem splitAfter_ne_nil (isEnd : Char → Bool) (c : Char) (text : List Char) :
    splitAfter isEnd (c :: text) ≠ [] := by
  rw [splitAfter]
  split_ifs
  · exact List.cons_ne_nil _ _
  · split
    · exact List.cons_ne_nil _ _
    · exact List.cons_ne_nil _ _

theorem bisect_splitAfter (isEnd : Char → Bool) (text : List Char) {n x : ℕ} (hn : n ≤ x)
    (hx : x < n + text.length) :
    bisect (offsetsFrom n (splitAfter isEnd text)) x = (text.take (x - n)).countP isEnd + 1 := by
  induction text generalizing n with
  | nil =>
    rw [List.length_nil] at hx
    omega
  | cons c text ih =>
    rw [List.length_cons] at hx
    obtain rfl | hlt := hn.eq_or_lt
    · -- The offset is that of the first character.
      rw [Nat.sub_self, List.take_zero, List.countP_nil, splitAfter]
      split_ifs
      · rw [bisect_offsetsFrom_cons hn, bisect_offsetsFrom_of_lt (by simp)]
      · split
        · rw [bisect_offsetsFrom_cons hn, bisect_offsetsFrom_of_lt (by simp)]
        · rw [bisect_offsetsFrom_cons hn, bisect_offsetsFrom_of_lt (by simp)]
    · obtain ⟨k, hk⟩ : ∃ k, x - n = k + 1 := ⟨x - n - 1, by omega⟩
      have hsub : x - (n + 1) = k := by omega
      have ih := ih (n := n + 1) hlt (by omega)
      rw [hsub] at ih
      rw [hk, List.take_succ_cons, splitAfter]
      split_ifs with hend
      · rw [bisect_offsetsFrom_cons hn, List.length_singleton, ih, List.countP_cons_of_pos hend]
      · rw [List.countP_cons_of_neg hend]
        split
        · rename_i hnil
          cases text with
          | nil =>
            rw [List.length_nil] at hx
            omega
          | cons d text => exact absurd hnil (splitAfter_ne_nil isEnd d text)
        · rename_i line lines hlines
          rw [hlines, bisect_offsetsFrom_cons hlt] at ih
          rw [← ih, bisect_offsetsFrom_cons hn, List.length_cons, Nat.add_right_comm n 1, Nat.add_assoc]

/-- The line is found by the boundaries in front of the offset. -/
theorem getLine_eq {text : List Char} {byteOffset : ℕ} (h : byteOffset < text.length) :
    getLine text byteOffset = (text.take byteOffset).countP isLineBoundary + 1 := by
  rw [getLine, splitlines, bisect_splitAfter isLineBoundary text (Nat.zero_le _) (by omega), Nat.sub_zero]

theorem length_splitAfter (isEnd : Char → Bool) (text : List Char) : (splitAfter isEnd text).length =
    text.countP isEnd + if text.getLast?.all isEnd then 0 else 1 := by
  induction text with
  | nil => rfl
  | cons c text ih =>
    cases text with
    | nil =>
      rw [splitAfter]
      by_cases hend : isEnd c <;> simp [hend, splitAfter]
    | cons d text =>
      rw [List.getLast?_cons_cons, splitAfter]
      by_cases hend : isEnd c
      · rw [if_pos hend, List.length_cons, ih, List.countP_cons_of_pos hend, Nat.add_right_comm]
      · rw [if_neg hend, List.countP_cons_of_neg hend, ← ih]
        split
        · rename_i hnil
          exact absurd hnil (splitAfter_ne_nil isEnd d text)
        · rename_i line lines hlines
          rw [hlines, List.length_cons, List.length_cons]

theorem getLast?_append_append {α : Type} (s : List α) {d : List α} (t : List α) (hd : d ≠ []) :
    (s ++ (d ++ t)).getLast? = t.getLast?.or d.getLast? := by
  obtain ⟨a, ha⟩ := Option.isSome_iff_exists.mp (List.getLast?_isSome.mpr hd)
  rw [List.getLast?_append, List.getLast?_append, ha]
  cases t.getLast? <;> rfl

/-- A replacement without line breaks does not change the number of lines. -/
theorem length_readlines_replace {s t d d' : List Char} (hd : '\n' ∉ d) (hne : d ≠ []) (hd' : '\n' ∉ d')
    (hne' : d' ≠ []) : (readlines (s ++ (d ++ t))).length = (readlines (s ++ (d' ++ t))).length := by
  have hcount : ∀ {d : List Char}, '\n' ∉ d → d.countP (fun c => decide (c = '\n')) = 0 := by
    intro d hd
    rw [List.countP_eq_zero]
    intro a ha
    rw [decide_eq_true_eq]
    rintro rfl
    exact hd ha
  have hlast : ∀ {d : List Char}, '\n' ∉ d → d ≠ [] →
      (t.getLast?.or d.getLast?).all (fun c => decide (c = '\n')) =
        t.getLast?.any fun c => decide (c = '\n') := by
    intro d hd hne
    obtain ⟨a, ha⟩ := Option.isSome_iff_exists.mp (List.getLast?_isSome.mpr hne)
    have hmem : a ≠ '\n' := fun h => hd (h ▸ List.mem_of_getLast? ha)
    rw [ha]
    cases t.getLast? with
    | none => exact decide_eq_false hmem
    | some b => rfl
  rw [readlines, length_splitAfter, length_splitAfter, getLast?_append_append s t hne,
    getLast?_append_append s t hne', hlast hd hne, hlast hd' hne', List.countP_append, List.countP_append,
    List.countP_append, List.countP_append, hcount hd, hcount hd']

/-- Edits within lines do not change the number of lines. -/
theorem length_readlines_splice {es : List (Edit Char)} {text : List Char}
    (hes : es.Pairwise fun e e' => e.stop ≤ e'.start) (hstop : ∀ e ∈ es, e.stop ≤ text.length)
    (hold : ∀ e ∈ es, 0 < e.length ∧ '\n' ∉ (text.drop e.start).take e.length)
    (hnew : ∀ e ∈ es, e.new ≠ [] ∧ '\n' ∉ e.new) :
    (readlines (splice 0 es text)).length = (readlines text).length := by
  induction es with
  | nil => rfl
  | cons e es ih =>
    obtain ⟨hfirst, hes⟩ := List.pairwise_cons.mp hes
    obtain ⟨hestop, hstop⟩ := List.forall_mem_cons.mp hstop
    obtain ⟨⟨hlength, heold⟩, hold⟩ := List.forall_mem_cons.mp hold
    obtain ⟨⟨hne, henew⟩, hnew⟩ := List.forall_mem_cons.mp hnew
    have hpart : ((splice 0 es text).drop e.start).take e.length = (text.drop e.start).take e.length :=
      take_drop_splice hfirst hestop
    have hsplit : splice 0 es text = (splice 0 es text).take e.start ++
        ((text.drop e.start).take e.length ++ (splice 0 es text).drop e.stop) := by
      rw [← hpart, Edit.stop, ← List.drop_drop, List.take_append_drop, List.take_append_drop]
    have hpartne : (text.drop e.start).take e.length ≠ [] := by
      rw [← List.length_pos_iff, List.length_take, List.length_drop]
      unfold Edit.stop at hestop
      omega
    rw [← replaceAt_splice hfirst hestop, replaceAt, ← ih hes hstop hold hnew]
    conv_rhs => rw [hsplit]
    exact length_readlines_replace henew hne heold hpartne

/-! ## One location -/

def byteLength (cs : List Char) : ℕ := (cs.map Char.utf8Size).sum

/-- What is left after so many bytes, unless a character is cut. -/
def dropBytes : ℕ → List Char → Option (List Char)
  | 0, cs => some cs
  | _ + 1, [] => some []
  | n + 1, c :: cs => if c.utf8Size ≤ n + 1 then dropBytes (n + 1 - c.utf8Size) cs else none

/-- Write a text from the start of a file, which is not truncated, and read the file. -/
def overwrite (raw text : List Char) : Except Raised (List Char) :=
  match dropBytes (byteLength text) raw with
  | some rest => .ok (text ++ rest)
  | none => .error .unicodeDecodeError

/-- The body of the loop of `replace_bad_codes`, for the contents of the file. -/
def replaceRaw (nextCode : ℕ) (assertLoc : AssertLocation) (raw : List Char) :
    Except Raised (List Char) := do
  let text := readText raw
  let ln := getLine text assertLoc.byteOffset - 1
  ensure (ln < (readlines text).length) .indexError
  ensure (assertLoc.byteOffset < text.length) .indexError
  ensure (text[assertLoc.byteOffset]? = some '0') .assertionError
  let raw' ← overwrite raw (text.take assertLoc.byteOffset ++
    (Nat.toDigits 10 nextCode ++ text.drop (assertLoc.byteOffset + 1)))
  ensure (ln < (readlines (readText raw')).length) .indexError
  pure raw'

theorem dropBytes_of_le {n : ℕ} {raw : List Char} (h : byteLength raw ≤ n) : dropBytes n raw = some [] := by
  induction raw generalizing n with
  | nil =>
    cases n with
    | zero => rfl
    | succ n => rfl
  | cons c raw ih =>
    have hlength : byteLength (c :: raw) = c.utf8Size + byteLength raw := by
      rw [byteLength, List.map_cons, List.sum_cons, byteLength]
    have hpos := c.utf8Size_pos
    cases n with
    | zero => omega
    | succ n =>
      rw [dropBytes, if_pos (by omega), ih (by omega)]

theorem byteLength_append (s t : List Char) : byteLength (s ++ t) = byteLength s + byteLength t := by
  rw [byteLength, List.map_append, List.sum_append, byteLength, byteLength]

/-- A digit has one byte. -/
theorem le_byteLength_toDigits (n : ℕ) : 1 ≤ byteLength (Nat.toDigits 10 n) := by
  cases hdigits : Nat.toDigits 10 n with
  | nil => exact absurd hdigits Nat.toDigits_ne_nil
  | cons c cs =>
    have hpos := c.utf8Size_pos
    rw [byteLength, List.map_cons, List.sum_cons]
    omega

/-- The text with the next code for the character at the offset. -/
def withNext (nextCode offset : ℕ) (text : List Char) : List Char :=
  text.take offset ++ (Nat.toDigits 10 nextCode ++ text.drop (offset + 1))

section Raw

variable {uni : Unicode} {raw raw' text : List Char} {nextCode offset : ℕ} {loc l : AssertLocation}

theorem eq_append_of_getElem? (h : text[offset]? = some '0') :
    text = text.take offset ++ '0' :: text.drop (offset + 1) := by
  obtain ⟨hlt, hget⟩ := List.getElem?_eq_some_iff.mp h
  rw [← hget, ← List.drop_eq_getElem_cons hlt, List.take_append_drop]

theorem byteLength_le_withNext (h : text[offset]? = some '0') :
    byteLength text ≤ byteLength (withNext nextCode offset text) := by
  have hdigits := le_byteLength_toDigits nextCode
  have hzero : byteLength ['0'] = 1 := by decide
  conv_lhs => rw [eq_append_of_getElem? h, ← List.singleton_append]
  rw [withNext, byteLength_append, byteLength_append, byteLength_append, byteLength_append]
  omega

theorem notMem_withNext (h : '\r' ∉ text) : '\r' ∉ withNext nextCode offset text := by
  rw [withNext, List.mem_append, List.mem_append, not_or, not_or]
  exact ⟨fun hr => h (List.mem_of_mem_take hr), notMem_toDigits (by decide) _,
    fun hr => h (List.mem_of_mem_drop hr)⟩

theorem length_readlines_withNext (h : text[offset]? = some '0') :
    (readlines (withNext nextCode offset text)).length = (readlines text).length := by
  conv_rhs => rw [eq_append_of_getElem? h, ← List.singleton_append]
  exact length_readlines_replace (notMem_toDigits (by decide) _) Nat.toDigits_ne_nil
    (by decide) (List.cons_ne_nil _ _)

/-- What the checks of one location have made sure of. -/
theorem replaceRaw_eq_ok : replaceRaw nextCode loc raw = .ok raw' ↔
    ((readText raw).take loc.byteOffset).countP isLineBoundary < (readlines (readText raw)).length ∧
    (readText raw)[loc.byteOffset]? = some '0' ∧
    overwrite raw (withNext nextCode loc.byteOffset (readText raw)) = .ok raw' ∧
    ((readText raw).take loc.byteOffset).countP isLineBoundary < (readlines (readText raw')).length := by
  have hline : ∀ {n : ℕ}, loc.byteOffset < (readText raw).length →
      (getLine (readText raw) loc.byteOffset - 1 < n ↔
        ((readText raw).take loc.byteOffset).countP isLineBoundary < n) := by
    intro n hlt
    rw [getLine_eq hlt, Nat.add_sub_cancel]
  constructor
  · intro h
    obtain ⟨_, hlines, h⟩ := bind_eq_ok.mp h
    obtain ⟨_, hlt, h⟩ := bind_eq_ok.mp h
    obtain ⟨_, hzero, h⟩ := bind_eq_ok.mp h
    obtain ⟨raw'', hraw, h⟩ := bind_eq_ok.mp h
    obtain ⟨_, hlines', h⟩ := bind_eq_ok.mp h
    cases h
    rw [ensure_eq_ok] at hlines hlt hzero hlines'
    exact ⟨(hline hlt).mp hlines, hzero, hraw, (hline hlt).mp hlines'⟩
  · rintro ⟨hlines, hzero, hraw, hlines'⟩
    have hlt := (List.getElem?_eq_some_iff.mp hzero).1
    exact bind_eq_ok.mpr ⟨(), ensure_eq_ok.mpr ((hline hlt).mpr hlines), bind_eq_ok.mpr ⟨(),
      ensure_eq_ok.mpr hlt, bind_eq_ok.mpr ⟨(), ensure_eq_ok.mpr hzero, bind_eq_ok.mpr ⟨raw', hraw,
        bind_eq_ok.mpr ⟨(), ensure_eq_ok.mpr ((hline hlt).mpr hlines'), rfl⟩⟩⟩⟩⟩

/-- A file without carriage returns is read as it is, and overwritten as a whole. -/
theorem replaceRaw_eq_ok_of_notMem (hr : '\r' ∉ raw) : replaceRaw nextCode loc raw = .ok raw' ↔
    (raw.take loc.byteOffset).countP isLineBoundary < (readlines raw).length ∧
    raw[loc.byteOffset]? = some '0' ∧ raw' = withNext nextCode loc.byteOffset raw := by
  rw [replaceRaw_eq_ok, readText_of_notMem hr]
  refine and_congr_right fun hlines => and_congr_right fun hzero => ?_
  rw [overwrite, dropBytes_of_le (byteLength_le_withNext hzero)]
  dsimp only
  rw [List.append_nil]
  constructor
  · rintro ⟨hraw, -⟩
    cases hraw
    rfl
  · rintro rfl
    rw [readText_of_notMem (notMem_withNext hr), length_readlines_withNext hzero]
    exact ⟨rfl, hlines⟩

/-! ## All locations of a file -/

/-- The locations of one file, each with its next code. -/
def replaceRaws (nextCode : AssertLocation → ℕ) (locs : List AssertLocation) (raw : List Char) :
    Except Raised (List Char) :=
  locs.foldlM (fun raw loc => replaceRaw (nextCode loc) loc raw) raw

/-- The code that is replaced, where the digits after its first one stay. -/
def replacement (nextCode : AssertLocation → ℕ) (l : AssertLocation) : List Char :=
  Nat.toDigits 10 (nextCode l) ++ l.code.tail

def editOf (new : AssertLocation → List Char) (l : AssertLocation) : Edit Char :=
  ⟨l.byteOffset, l.code.length, new l⟩

variable {next : AssertLocation → ℕ} {locs : List AssertLocation}

theorem pairwise_editOf {new : AssertLocation → List Char}
    (hlocs : ∀ l ∈ locs, CodeAt uni text l.byteOffset l.code)
    (hsorted : locs.Pairwise fun l l' => l.byteOffset < l'.byteOffset) :
    (locs.map (editOf new)).Pairwise fun e e' => e.stop ≤ e'.start := by
  rw [List.pairwise_map]
  exact hsorted.imp_of_mem fun {l l'} hl hl' hlt => ((hlocs l hl).offset_lt (hlocs l' hl') hlt).le

theorem replacement_ne_nil : replacement next l ≠ [] :=
  List.append_ne_nil_of_left_ne_nil Nat.toDigits_ne_nil _

theorem notMem_replacement {c : Char} (h : CodeAt uni text l.byteOffset l.code) (hc : c.toNat < 128)
    (hdigit : c.isDigit = false) : c ∉ replacement next l := by
  rw [replacement, List.mem_append, not_or]
  exact ⟨notMem_toDigits hdigit _, fun hmem => h.notMem_of_ascii hc hdigit (List.mem_of_mem_tail hmem)⟩

section Edits

variable (hlocs : ∀ l ∈ locs, CodeAt uni raw l.byteOffset l.code)

include hlocs in
theorem notMem_splice_editOf {c : Char} (hc : c.toNat < 128) (hdigit : c.isDigit = false) (hraw : c ∉ raw) :
    c ∉ splice 0 (locs.map (editOf (replacement next))) raw := by
  intro hmem
  obtain hmem | ⟨e, he, hnew⟩ := mem_splice hmem
  · exact hraw hmem
  · obtain ⟨l, hl, rfl⟩ := List.mem_map.mp he
    exact notMem_replacement (hlocs l hl) hc hdigit hnew

include hlocs in
theorem length_readlines_splice_editOf (hsorted : locs.Pairwise fun l l' => l.byteOffset < l'.byteOffset) :
    (readlines (splice 0 (locs.map (editOf (replacement next))) raw)).length = (readlines raw).length := by
  refine length_readlines_splice (pairwise_editOf hlocs hsorted) ?_ ?_ ?_
  all_goals
    intro e he
    obtain ⟨l, hl, rfl⟩ := List.mem_map.mp he
  · exact (hlocs l hl).add_length_le
  · refine ⟨(hlocs l hl).length_pos, ?_⟩
    have hpart : (raw.drop (editOf (replacement next) l).start).take (editOf (replacement next) l).length =
        l.code := (hlocs l hl).drop_take
    rw [hpart]
    exact (hlocs l hl).notMem_of_ascii (by decide) (by decide)
  · exact ⟨replacement_ne_nil, notMem_replacement (hlocs l hl) (by decide) (by decide)⟩

variable (hl : CodeAt uni raw l.byteOffset l.code) (hlt : ∀ l' ∈ locs, l.byteOffset < l'.byteOffset)
include hl hlocs hlt

theorem stop_le_start_editOf {new : AssertLocation → List Char} :
    ∀ e ∈ locs.map (editOf new), (editOf new l).stop ≤ e.start := by
  intro e he
  obtain ⟨l', hl', rfl⟩ := List.mem_map.mp he
  exact (hl.offset_lt (hlocs l' hl') (hlt l' hl')).le

/-- A code in front of the edits is still there. -/
theorem drop_splice_editOf : (splice 0 (locs.map (editOf (replacement next))) raw).drop l.byteOffset =
    l.code ++ (splice 0 (locs.map (editOf (replacement next))) raw).drop (l.byteOffset + l.code.length) := by
  set text := splice 0 (locs.map (editOf (replacement next))) raw
  have hpart : (text.drop l.byteOffset).take l.code.length = l.code :=
    (take_drop_splice (stop_le_start_editOf hlocs hl hlt) hl.add_length_le).trans hl.drop_take
  conv_lhs => rw [← List.take_append_drop l.code.length (text.drop l.byteOffset), hpart, List.drop_drop]

theorem withNext_splice_editOf :
    withNext (next l) l.byteOffset (splice 0 (locs.map (editOf (replacement next))) raw) =
      splice 0 ((l :: locs).map (editOf (replacement next))) raw := by
  rw [List.map_cons, ← replaceAt_splice (stop_le_start_editOf hlocs hl hlt) hl.add_length_le, replaceAt, withNext,
    ← List.drop_drop, drop_splice_editOf hlocs hl hlt, List.drop_append_of_le_length hl.length_pos,
    List.drop_one]
  exact congrArg (_ ++ ·) (List.append_assoc _ _ _).symm

/-- One location, in front of those that are done. -/
theorem replaceRaw_splice_eq_ok (hr : '\r' ∉ raw)
    (hsorted : locs.Pairwise fun l l' => l.byteOffset < l'.byteOffset) :
    replaceRaw (next l) l (splice 0 (locs.map (editOf (replacement next))) raw) = .ok raw' ↔
      ((raw.take l.byteOffset).countP isLineBoundary < (readlines raw).length ∧ l.code.head? = some '0') ∧
      raw' = splice 0 ((l :: locs).map (editOf (replacement next))) raw := by
  have hbefore : (splice 0 (locs.map (editOf (replacement next))) raw).take l.byteOffset =
      raw.take l.byteOffset := by
    refine take_splice (fun e he => ?_) ((Nat.le_add_right _ _).trans hl.add_length_le)
    exact (Edit.start_le_stop _).trans (stop_le_start_editOf hlocs hl hlt e he)
  have hhead : (splice 0 (locs.map (editOf (replacement next))) raw)[l.byteOffset]? = l.code.head? := by
    rw [← Nat.add_zero l.byteOffset, ← List.getElem?_drop, ← List.head?_eq_getElem?,
      drop_splice_editOf hlocs hl hlt, List.head?_append_of_ne_nil _ hl.code_ne_nil]
  rw [replaceRaw_eq_ok_of_notMem (notMem_splice_editOf hlocs (by decide) (by decide) hr), hbefore, hhead,
    length_readlines_splice_editOf hlocs hsorted, withNext_splice_editOf hlocs hl hlt, and_assoc]

end Edits

theorem replaceRaws_concat : replaceRaws next (locs ++ [l]) raw =
    replaceRaws next locs raw >>= fun raw => replaceRaw (next l) l raw := by
  rw [replaceRaws, List.foldlM_append]
  refine congrArg (_ >>= ·) (funext fun raw => ?_)
  rw [List.foldlM_cons]
  exact bind_pure _

/-- The last location comes first. -/
theorem replaceRaws_eq_ok (hr : '\r' ∉ raw) (hlocs : ∀ l ∈ locs, CodeAt uni raw l.byteOffset l.code)
    (hsorted : locs.Pairwise fun l l' => l'.byteOffset < l.byteOffset) :
    replaceRaws next locs raw = .ok raw' ↔
      (∀ l ∈ locs, (raw.take l.byteOffset).countP isLineBoundary < (readlines raw).length ∧
        l.code.head? = some '0') ∧
      raw' = splice 0 (locs.reverse.map (editOf (replacement next))) raw := by
  induction locs using List.reverseRecOn generalizing raw' with
  | nil => simp [replaceRaws, splice, pure, Except.pure, eq_comm]
  | append_singleton locs l ih =>
    obtain ⟨hlocs, hl⟩ := List.forall_mem_append.mp hlocs
    obtain ⟨hsorted, -, hlast⟩ := List.pairwise_append.mp hsorted
    have hdone : ∀ l' ∈ locs.reverse, CodeAt uni raw l'.byteOffset l'.code :=
      fun l' hl' => hlocs l' (List.mem_reverse.mp hl')
    have hlt : ∀ l' ∈ locs.reverse, l.byteOffset < l'.byteOffset :=
      fun l' hl' => hlast l' (List.mem_reverse.mp hl') l List.mem_cons_self
    rw [List.forall_mem_singleton] at hl
    rw [replaceRaws_concat, List.forall_mem_append, List.forall_mem_singleton, List.reverse_append,
      List.reverse_singleton, List.singleton_append]
    constructor
    · intro h
      obtain ⟨text, hrun, h⟩ := bind_eq_ok.mp h
      obtain ⟨hchecks, rfl⟩ := (ih hlocs hsorted).mp hrun
      obtain ⟨hcheck, hnew⟩ :=
        (replaceRaw_splice_eq_ok hdone hl hlt hr (List.pairwise_reverse.mpr hsorted)).mp h
      exact ⟨⟨hchecks, hcheck⟩, hnew⟩
    · rintro ⟨⟨hchecks, hcheck⟩, hnew⟩
      exact bind_eq_ok.mpr ⟨_, (ih hlocs hsorted).mpr ⟨hchecks, rfl⟩,
        (replaceRaw_splice_eq_ok hdone hl hlt hr (List.pairwise_reverse.mpr hsorted)).mpr ⟨hcheck, hnew⟩⟩

/-! ## Carriage returns -/

theorem dropBytes_suffix {n : ℕ} {rest : List Char} (h : dropBytes n raw = some rest) : rest <:+ raw := by
  induction raw generalizing n with
  | nil =>
    cases n <;> cases h <;> exact List.suffix_refl _
  | cons c raw ih =>
    cases n with
    | zero =>
      cases h
      exact List.suffix_refl _
    | succ n =>
      rw [dropBytes, Option.ite_none_right_eq_some] at h
      exact (ih h.2).trans (List.suffix_cons c raw)

theorem dropBytes_append {n : ℕ} {s t : List Char} (h : byteLength s ≤ n) :
    dropBytes n (s ++ t) = dropBytes (n - byteLength s) t := by
  induction s generalizing n with
  | nil => rfl
  | cons c s ih =>
    have hlength : byteLength (c :: s) = c.utf8Size + byteLength s := byteLength_append [c] s
    have hpos := c.utf8Size_pos
    cases n with
    | zero => omega
    | succ n =>
      rw [List.cons_append, dropBytes, if_pos (by omega), ih (by omega), hlength, Nat.sub_sub]

/-- The file loses a carriage return, if it has one. -/
theorem count_of_replaceRaw (h : replaceRaw nextCode loc raw = .ok raw') :
    raw'.count '\r' ≤ raw.count '\r' ∧ ('\r' ∈ raw → raw'.count '\r' < raw.count '\r') := by
  obtain ⟨-, hzero, hraw, -⟩ := replaceRaw_eq_ok.mp h
  have hnew : (withNext nextCode loc.byteOffset (readText raw)).count '\r' = 0 :=
    List.count_eq_zero.mpr (notMem_withNext (notMem_readText raw))
  unfold overwrite at hraw
  split at hraw
  · rename_i rest hrest
    cases hraw
    rw [List.count_append, hnew, Nat.zero_add]
    refine ⟨(dropBytes_suffix hrest).sublist.count_le _, fun hr => ?_⟩
    obtain ⟨s, t, rfl, hs⟩ := List.eq_append_cons_of_mem hr
    obtain ⟨t', ht'⟩ := exists_readText_append hs t
    have hlength : byteLength s + 1 ≤
        byteLength (withNext nextCode loc.byteOffset (readText (s ++ '\r' :: t))) := by
      calc byteLength s + 1 ≤ byteLength s + (byteLength ['\n'] + byteLength t') := by
            have hnewline : byteLength ['\n'] = 1 := by decide
            omega
        _ = byteLength (readText (s ++ '\r' :: t)) := by
            rw [ht', byteLength_append]
            exact congrArg (byteLength s + ·) (byteLength_append ['\n'] t').symm
        _ ≤ byteLength (withNext nextCode loc.byteOffset (readText (s ++ '\r' :: t))) :=
            byteLength_le_withNext hzero
    obtain ⟨k, hk⟩ := Nat.exists_eq_add_of_le hlength
    have hsize : ('\r').utf8Size = 1 := by decide
    rw [hk, dropBytes_append (by omega), Nat.add_assoc, Nat.add_sub_cancel_left, Nat.add_comm, dropBytes,
      hsize, if_pos (by omega), Nat.add_sub_cancel] at hrest
    have hle := (dropBytes_suffix hrest).sublist.count_le '\r'
    rw [List.count_append, List.count_cons_self]
    omega
  · cases hraw

theorem count_of_replaceRaws (h : replaceRaws next locs raw = .ok raw') :
    raw'.count '\r' ≤ raw.count '\r' ∧ (locs ≠ [] → '\r' ∈ raw → raw'.count '\r' < raw.count '\r') := by
  induction locs generalizing raw with
  | nil =>
    cases h
    exact ⟨le_refl _, fun hne => absurd rfl hne⟩
  | cons l locs ih =>
    rw [replaceRaws, List.foldlM_cons] at h
    obtain ⟨raw₁, hstep, h⟩ := bind_eq_ok.mp h
    have hfirst := count_of_replaceRaw hstep
    have hrest := (ih h).1
    exact ⟨hrest.trans hfirst.1, fun _ hr => hrest.trans_lt (hfirst.2 hr)⟩

end Raw

end MongoTests.ErrorCodes
