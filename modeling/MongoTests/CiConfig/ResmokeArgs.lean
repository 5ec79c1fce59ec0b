import Mathlib.Data.List.Infix
import Mathlib.Data.List.TakeWhile
import MongoTests.Lib.Scan

/-!
# Arguments of resmoke

`ResmokeArgs` of `ciconfig/evergreen.py`. An option of an argument string is found and replaced with a
regular expression, whose class for the value has the characters of a word, `(`, `)`, `+` and `,`.
Texts are lists of characters; the tables of the regular expressions are a parameter.

* `argRegex`, `getArg`, `getUpdatedArg`: the methods.
* `Occurs`, `Updated`: where an option is, and the text with another value for it.
* `Readable`: the old and the new value consist of characters of the class.
* **`updated_arg_round_trip_iff`**: when an updated option is read back.
* `updated_arg_cut`: a suite file name, and an old value with a dot.
-/

namespace MongoTests.CiConfig.ResmokeArgs

open MongoTests.Lib

/-! ## The methods -/

/-- What `\w` and `\s` stand for. -/
structure CharTables where
  word : Char → Bool
  space : Char → Bool
  word_ascii : ∀ c : Char, c.toNat < 128 → word c = (c.isAlphanum || c == '_')
  space_ascii : ∀ c : Char, c.toNat < 128 →
    space c = decide (c.toNat ∈ [9, 10, 11, 12, 13, 28, 29, 30, 31, 32])
  disjoint : ∀ c, word c = true → space c = false

/-- The name of an option, whose characters stand for themselves in a regular expression. -/
structure OptionName (t : CharTables) where
  chars : List Char
  literal : ∀ c ∈ chars, t.word c = true ∨ c = '-'

section Methods

variable (t : CharTables)

/-- The class of the value. -/
def valueChar (c : Char) : Bool := t.word c || c ∈ ['(', ')', '+', ',']

/-- The class before the value. -/
def separator (c : Char) : Bool := c = '=' || t.space c

/-- The groups of a match. -/
structure Groups where
  nameValue : List Char
  value : List Char
  deriving DecidableEq, Repr

def flag (name : List Char) : List Char := '-' :: '-' :: name

def matchArg (name s : List Char) : Option Groups :=
  if flag name <+: s then
    match s.drop (flag name).length with
    | [] => none
    | sep :: rest =>
      let value := rest.takeWhile (valueChar t)
      if separator t sep ∧ value ≠ [] then some ⟨flag name ++ sep :: value, value⟩ else none
  else none

theorem matchArg_eq_some {name s : List Char} {m : Groups} :
    matchArg t name s = some m ↔ ∃ sep rest, s = flag name ++ sep :: rest ∧ separator t sep = true ∧
      rest.takeWhile (valueChar t) ≠ [] ∧
      m = ⟨flag name ++ sep :: rest.takeWhile (valueChar t), rest.takeWhile (valueChar t)⟩ := by
  constructor
  · intro h
    rw [matchArg] at h
    split_ifs at h with hflag
    obtain ⟨tail, rfl⟩ := hflag
    rw [List.drop_left] at h
    cases tail with
    | nil => cases h
    | cons sep rest =>
      dsimp only at h
      split_ifs at h with hsep
      exact ⟨sep, rest, rfl, hsep.1, hsep.2, (Option.some_inj.mp h).symm⟩
  · rintro ⟨sep, rest, rfl, hsep, hvalue, rfl⟩
    rw [matchArg, if_pos (List.prefix_append _ _), List.drop_left]
    exact if_pos ⟨hsep, hvalue⟩

def argRegex (name : List Char) : Pattern Char Groups where
  match? := matchArg t name
  size m := m.nameValue.length
  size_pos s m h := by
    obtain ⟨sep, rest, -, -, -, rfl⟩ := (matchArg_eq_some t).mp h
    exact Nat.succ_pos _
  size_le s m h := by
    obtain ⟨sep, rest, rfl, -, -, rfl⟩ := (matchArg_eq_some t).mp h
    have hle := (List.takeWhile_prefix (valueChar t) (l := rest)).length_le
    simp only [List.length_append, List.length_cons]
    omega

def getFirstMatch (args name : List Char) : Except String (Option Groups) :=
  let found := (argRegex t name).findall args
  if found.isEmpty then .ok none
  else if found.length > 1 then
    .error ("More than one match for --" ++ String.ofList name ++ " discovered in " ++
      String.ofList args)
  else .ok ((argRegex t name).search args)

def getArg (args name : List Char) : Except String (Option (List Char)) :=
  (getFirstMatch t args name).map fun m => m.map Groups.value

def getUpdatedArg (args name value : List Char) : Except String (List Char) :=
  (getFirstMatch t args name).map fun m =>
    let nameValue := (m.map Groups.nameValue).getD []
    if h : nameValue ≠ [] then
      (Pattern.literal nameValue h).replace (flag name ++ '=' :: value) args
    else args ++ ' ' :: (flag name ++ '=' :: value)

end Methods

/-! ## Updates -/

section Updates

variable (t : CharTables)

/-- The option is in the text, followed by `=`, by white space or by nothing. -/
def Occurs (name before rest args : List Char) : Prop :=
  args = before ++ (flag name ++ rest) ∧ ∀ c ∈ rest.head?, separator t c = true

/-- The option is in the text at most once. -/
def Once (name args : List Char) : Prop := ∀ before rest before' rest',
  Occurs t name before rest args → Occurs t name before' rest' args → before = before'

/-- What follows the value of an option: the value is the rest of the word, or the next word. -/
def optionEnd (rest : List Char) : List Char := (rest.dropWhile t.space).dropWhile fun c => !t.space c

/-- The text with this value for the option, and with nothing else changed. -/
def Updated (name value args args' : List Char) : Prop :=
  (∃ before rest, Occurs t name before rest args ∧
    args' = before ++ (flag name ++ '=' :: (value ++ optionEnd t rest))) ∨
  ((∀ before rest, ¬ Occurs t name before rest args) ∧
    args' = args ++ ' ' :: (flag name ++ '=' :: value))

/-- The updated option is read back, and nothing else is changed. -/
def RoundTrip (name value args : List Char) : Prop :=
  ∃ args', getUpdatedArg t args name value = .ok args' ∧
    getArg t args' name = .ok (some value) ∧ Updated t name value args args'

/-- A value of the class. -/
def IsValue (value : List Char) : Prop := value ≠ [] ∧ ∀ c ∈ value, valueChar t c = true

/-- **The condition**: the new value is of the class; and if the option is in the text, one separator
and an old value of the class are all that belongs to it. -/
def Readable (name value args : List Char) : Prop :=
  IsValue t value ∧ ∀ before rest, Occurs t name before rest args →
    ∃ sep old, rest = sep :: (old ++ optionEnd t rest) ∧ separator t sep = true ∧ IsValue t old

end Updates

/-! ## Matches -/

variable {t : CharTables} {name value args before s rest : List Char} {m : Groups}

theorem valueChar_eq_false_of_space {c : Char} (h : t.space c = true) : valueChar t c = false := by
  have hword : t.word c = false := by
    by_contra hword
    rw [t.disjoint c (by simpa using hword)] at h
    cases h
  have hmem : c ∉ ['(', ')', '+', ','] := by
    intro hmem
    have hspace : ∀ c ∈ ['(', ')', '+', ','],
        c.toNat < 128 ∧ c.toNat ∉ [9, 10, 11, 12, 13, 28, 29, 30, 31, 32] := by simp
    obtain ⟨hascii, hnot⟩ := hspace c hmem
    rw [t.space_ascii c hascii] at h
    exact hnot (of_decide_eq_true h)
  rw [valueChar, hword, decide_eq_false hmem]
  rfl

theorem separator_equals : separator t '=' = true := rfl

theorem space_blank : t.space ' ' = true := t.space_ascii ' ' (by decide)

theorem isValue_of_matchArg (h : matchArg t name s = some m) : IsValue t m.value := by
  obtain ⟨sep, rest, -, -, hvalue, rfl⟩ := (matchArg_eq_some t).mp h
  exact ⟨hvalue, fun c hc => List.mem_takeWhile_imp hc⟩

/-- A match is at an occurrence of the option. -/
theorem occurs_of_matchArg (h : matchArg t name s = some m) :
    ∃ rest, s = flag name ++ rest ∧ ∀ before, Occurs t name before rest (before ++ s) := by
  obtain ⟨sep, rest, rfl, hsep, -, -⟩ := (matchArg_eq_some t).mp h
  refine ⟨sep :: rest, rfl, fun before => ⟨rfl, fun c hc => ?_⟩⟩
  obtain rfl : sep = c := Option.some_inj.mp hc
  exact hsep

/-- The match of an option with a value of the class. -/
theorem matchArg_of_isValue (name : List Char) {sep : Char} (hsep : separator t sep = true)
    (hvalue : IsValue t value) (hrest : ∀ c ∈ rest.head?, valueChar t c = false) :
    matchArg t name (flag name ++ sep :: (value ++ rest)) =
      some ⟨flag name ++ sep :: value, value⟩ := by
  have htake : (value ++ rest).takeWhile (valueChar t) = value := by
    rw [List.takeWhile_append_of_pos hvalue.2]
    cases rest with
    | nil => exact List.append_nil _
    | cons c rest => rw [List.takeWhile_cons_of_neg (by rw [hrest c rfl]; exact Bool.false_ne_true),
        List.append_nil]
  refine (matchArg_eq_some t).mpr ⟨sep, value ++ rest, rfl, hsep, ?_, ?_⟩
  · rw [htake]
    exact hvalue.1
  · rw [htake]

/-- The only match. -/
theorem getFirstMatch_of_match (hm : matchArg t name s = some m)
    (hbefore : ∀ b c, before = b ++ c → c ≠ [] → matchArg t name (c ++ s) = none)
    (hafter : ∀ b c, s.drop m.nameValue.length = b ++ c → c ≠ [] → matchArg t name c = none) :
    getFirstMatch t (before ++ s) name = .ok (some m) := by
  have hfound : (argRegex t name).findall (before ++ s) = [m] := by
    rw [Pattern.findall_append_of_none hbefore, Pattern.findall_of_some hm]
    exact congrArg _ (Pattern.findall_eq_nil hafter)
  rw [getFirstMatch, Pattern.search_eq_head?, hfound]
  rfl

theorem getFirstMatch_of_none (h : ∀ b c, args = b ++ c → c ≠ [] → matchArg t name c = none) :
    getFirstMatch t args name = .ok none := by
  rw [getFirstMatch, Pattern.findall_eq_nil (p := argRegex t name) h]
  rfl

/-- What `get_arg` returns is of the class. -/
theorem isValue_of_getArg (h : getArg t args name = .ok (some value)) : IsValue t value := by
  rw [getArg, getFirstMatch] at h
  split_ifs at h
  · cases h
  · cases h
  · cases hsearch : (argRegex t name).search args with
    | none =>
      rw [hsearch] at h
      cases h
    | some m =>
      rw [hsearch] at h
      cases h
      obtain ⟨s, hs⟩ := Pattern.exists_match?_of_search hsearch
      exact isValue_of_matchArg hs

/-! ## One occurrence -/

/-- A match that begins before an occurrence of the name has its name and its separator before the
end of it. -/
theorem prefix_of_matchArg {c rest' : List Char} (hc : c ≠ [])
    (h : matchArg t name (c ++ (flag name ++ rest')) = some m) :
    ∃ sep, separator t sep = true ∧ flag name ++ [sep] <+: c ++ flag name := by
  obtain ⟨sep, tail, heq, hsep, -, -⟩ := (matchArg_eq_some t).mp h
  have hpre : flag name ++ [sep] <+: c ++ (flag name ++ rest') := by
    rw [heq]
    exact (List.prefix_append_right_inj _).mpr ⟨tail, rfl⟩
  have hend : c ++ flag name <+: c ++ (flag name ++ rest') := ⟨rest', by rw [List.append_assoc]⟩
  refine ⟨sep, hsep, List.prefix_of_prefix_length_le hpre hend ?_⟩
  have hpos := List.length_pos_iff.mpr hc
  simp only [List.length_append, List.length_singleton]
  omega

section Once

variable (honce : Once t name args) (hocc : Occurs t name before rest args)
include honce hocc

/-- No match begins before the occurrence, whatever follows the name there. -/
theorem matchArg_before {b c rest' : List Char} (hbc : before = b ++ c) (hc : c ≠ []) :
    matchArg t name (c ++ (flag name ++ rest')) = none := by
  refine Option.eq_none_iff_forall_ne_some.mpr fun m hm => ?_
  obtain ⟨sep, hsep, u, hu⟩ := prefix_of_matchArg hc hm
  have hother : Occurs t name b (sep :: (u ++ rest)) args := by
    refine ⟨?_, fun c hc => ?_⟩
    · rw [hocc.1, hbc, List.append_assoc, ← List.append_assoc c, ← hu]
      simp only [List.append_assoc, List.cons_append, List.nil_append]
    · obtain rfl : sep = c := Option.some_inj.mp hc
      exact hsep
  have hb := honce _ _ _ _ hother hocc
  rw [hbc, List.self_eq_append_right] at hb
  exact hc hb

/-- No match begins after the occurrence. -/
theorem matchArg_after {b c : List Char} (hbc : rest = b ++ c) : matchArg t name c = none := by
  refine Option.eq_none_iff_forall_ne_some.mpr fun m hm => ?_
  obtain ⟨rest', rfl, hrest⟩ := occurs_of_matchArg hm
  have hother : Occurs t name (before ++ (flag name ++ b)) rest' args := by
    refine ⟨?_, (hrest []).2⟩
    rw [hocc.1, hbc]
    simp only [List.append_assoc]
  have hb := honce _ _ _ _ hocc hother
  rw [List.self_eq_append_right, List.append_eq_nil_iff] at hb
  cases hb.1

end Once

/-! ## The round trip -/

theorem matchArg_ne_none {sep : Char} {old : List Char} (hsep : separator t sep = true)
    (hold : IsValue t old) (hpre : flag name ++ sep :: old <+: s) : matchArg t name s ≠ none := by
  obtain ⟨u, rfl⟩ := hpre
  refine Option.ne_none_iff_exists'.mpr ⟨_, (matchArg_eq_some t).mpr
    ⟨sep, old ++ u, List.append_assoc _ _ _, hsep, ?_, rfl⟩⟩
  rw [List.takeWhile_append_of_pos hold.2]
  exact fun h => hold.1 (List.append_eq_nil_iff.mp h).1

/-- An option with a value of the class is replaced. -/
theorem getUpdatedArg_of_occurs {sep : Char} {old after : List Char} (value : List Char)
    (honce : Once t name args) (hocc : Occurs t name before (sep :: (old ++ after)) args)
    (hold : IsValue t old) (hafter : ∀ c ∈ after.head?, valueChar t c = false) :
    getUpdatedArg t args name value = .ok (before ++ (flag name ++ '=' :: (value ++ after))) := by
  have hsep : separator t sep = true := hocc.2 sep rfl
  have hargs : args = before ++ ((flag name ++ sep :: old) ++ after) := by
    rw [hocc.1, List.append_assoc, List.cons_append]
  have hm := matchArg_of_isValue name hsep hold hafter
  have hfirst : getFirstMatch t args name = .ok (some ⟨flag name ++ sep :: old, old⟩) := by
    rw [hocc.1]
    refine getFirstMatch_of_match hm (fun b c hbc hc => matchArg_before honce hocc hbc hc)
      fun b c hbc _ => matchArg_after honce hocc (b := sep :: (old ++ b)) ?_
    have hdrop : (flag name ++ sep :: (old ++ after)).drop (flag name ++ sep :: old).length =
        after := by
      rw [← List.cons_append, ← List.append_assoc, List.drop_left]
    rw [← hdrop, hbc, List.cons_append, List.append_assoc]
  have hreplace : (Pattern.literal (flag name ++ sep :: old) (List.cons_ne_nil _ _)).replace
      (flag name ++ '=' :: value) (before ++ ((flag name ++ sep :: old) ++ after)) =
        before ++ ((flag name ++ '=' :: value) ++ after) := by
    refine Pattern.replace_literal _ ?_ ?_
    · intro b c hbc hc hpre
      refine matchArg_ne_none hsep hold hpre ?_
      rw [List.append_assoc, List.cons_append]
      exact matchArg_before honce hocc hbc hc
    · intro b c hbc _ hpre
      refine matchArg_ne_none hsep hold hpre (matchArg_after honce hocc (b := sep :: (old ++ b)) ?_)
      rw [hbc, List.cons_append, List.append_assoc]
  rw [getUpdatedArg, hfirst, hargs]
  refine congrArg Except.ok (hreplace.trans ?_)
  rw [List.append_assoc, List.cons_append]

/-- Without a match the option is appended. -/
theorem getUpdatedArg_of_none (value : List Char)
    (h : ∀ b c, args = b ++ c → c ≠ [] → matchArg t name c = none) :
    getUpdatedArg t args name value = .ok (args ++ ' ' :: (flag name ++ '=' :: value)) := by
  rw [getUpdatedArg, getFirstMatch_of_none h]
  rfl

theorem space_optionEnd : ∀ c ∈ (optionEnd t rest).head?, t.space c = true := by
  intro c hc
  have hnot := List.head?_dropWhile_not (fun c => !t.space c) (rest.dropWhile t.space)
  rw [optionEnd] at hc
  rw [Option.mem_def.mp hc] at hnot
  simpa using hnot

/-- The new option is read back where the old one was. -/
theorem getArg_replaced (honce : Once t name args) (hocc : Occurs t name before rest args)
    (hvalue : IsValue t value) :
    getArg t (before ++ (flag name ++ '=' :: (value ++ optionEnd t rest))) name =
      .ok (some value) := by
  have hend : ∀ c ∈ (optionEnd t rest).head?, valueChar t c = false := fun c hc =>
    valueChar_eq_false_of_space (space_optionEnd c hc)
  have hm := matchArg_of_isValue name separator_equals hvalue hend
  have hsuffix : optionEnd t rest <:+ rest :=
    (List.dropWhile_suffix _).trans (List.dropWhile_suffix _)
  rw [getArg, getFirstMatch_of_match hm]
  · rfl
  · exact fun b c hbc hc => matchArg_before honce hocc hbc hc
  · intro b c hbc _
    have hdrop : (flag name ++ '=' :: (value ++ optionEnd t rest)).drop
        (flag name ++ '=' :: value).length = optionEnd t rest := by
      rw [← List.cons_append, ← List.append_assoc, List.drop_left]
    obtain ⟨u, hu⟩ := hsuffix
    refine matchArg_after honce hocc (b := u ++ b) ?_
    rw [← hu, List.append_assoc, ← hbc]
    exact congrArg _ hdrop.symm

theorem space_notMem_flag (name : OptionName t) : ' ' ∉ flag name.chars := by
  intro hmem
  have hname : ' ' ∈ name.chars := by simpa [flag] using hmem
  obtain hword | hdash := name.literal ' ' hname
  · have hspace := t.disjoint ' ' hword
    rw [space_blank] at hspace
    cases hspace
  · cases hdash

/-- A match that begins before a blank has its name before it. -/
theorem occurs_of_prefix_blank (name : OptionName t) {b c s : List Char} {sep : Char}
    (hsep : separator t sep = true) (hpre : flag name.chars ++ [sep] <+: c ++ [' '] ++ s) :
    ∃ rest, Occurs t name.chars b rest (b ++ c) := by
  by_cases hlen : c.length < (flag name.chars).length
  · -- The blank would be a character of the name.
    have hblank : c ++ [' '] <+: flag name.chars :=
      List.prefix_of_prefix_length_le (List.prefix_append _ _)
        ((List.prefix_append _ _).trans hpre) (by simpa using Nat.succ_le_of_lt hlen)
    have hmem := hblank.subset (List.mem_append_right _ List.mem_cons_self)
    exact absurd hmem (space_notMem_flag name)
  · have hname : flag name.chars <+: c :=
      List.prefix_of_prefix_length_le ((List.prefix_append _ _).trans hpre)
        ((List.prefix_append _ _).trans (List.prefix_append _ _)) (not_lt.mp hlen)
    obtain ⟨u, rfl⟩ := hname
    refine ⟨u, rfl, fun d hd => ?_⟩
    cases u with
    | nil => cases hd
    | cons d' u =>
      cases hd
      simp only [List.append_assoc, List.prefix_append_right_inj] at hpre
      rw [List.cons_append, List.cons_prefix_cons] at hpre
      rw [← hpre.1]
      exact hsep

/-- The new option is read back at the end. -/
theorem getArg_appended (name : OptionName t)
    (hnone : ∀ before rest, ¬ Occurs t name.chars before rest args) (hvalue : IsValue t value) :
    getArg t (args ++ ' ' :: (flag name.chars ++ '=' :: value)) name.chars = .ok (some value) := by
  have hm := matchArg_of_isValue name.chars separator_equals hvalue
    (show ∀ c ∈ ([] : List Char).head?, valueChar t c = false from fun _ h => by cases h)
  rw [List.append_nil] at hm
  have hargs : args ++ ' ' :: (flag name.chars ++ '=' :: value) =
      (args ++ [' ']) ++ (flag name.chars ++ '=' :: value) := List.append_cons ..
  rw [hargs, getArg, getFirstMatch_of_match hm]
  · rfl
  · intro b c hbc hc
    refine Option.eq_none_iff_forall_ne_some.mpr fun m hm => ?_
    obtain ⟨sep, hsep, hpre⟩ := prefix_of_matchArg hc hm
    obtain rfl | ⟨c', x, rfl⟩ := List.eq_nil_or_concat c
    · exact hc rfl
    · obtain ⟨rfl, hx⟩ : args = b ++ c' ∧ [' '] = [x] := by
        rw [List.concat_eq_append, ← List.append_assoc] at hbc
        exact List.append_inj' hbc rfl
      cases hx
      rw [List.concat_eq_append] at hpre
      obtain ⟨rest, hocc⟩ := occurs_of_prefix_blank name (b := b) hsep hpre
      exact hnone b rest hocc
  · intro b c hbc hc
    have hdrop : (flag name.chars ++ '=' :: value).drop (flag name.chars ++ '=' :: value).length =
        [] := List.drop_length
    rw [hdrop] at hbc
    exact absurd (List.append_eq_nil_iff.mp hbc.symm).2 hc

/-- An option that is replaced had a value of the class, with nothing behind it. -/
theorem isValue_of_updated {args' : List Char} (honce : Once t name args)
    (hocc : Occurs t name before rest args) (hget : getUpdatedArg t args name value = .ok args')
    (hargs' : args' = before ++ (flag name ++ '=' :: (value ++ optionEnd t rest))) :
    ∃ sep old, rest = sep :: (old ++ optionEnd t rest) ∧ separator t sep = true ∧ IsValue t old := by
  cases hm : matchArg t name (flag name ++ rest) with
  | some m =>
    obtain ⟨sep, tail, heq, hsep, hne, -⟩ := (matchArg_eq_some t).mp hm
    obtain rfl := List.append_cancel_left heq
    have hold : IsValue t (tail.takeWhile (valueChar t)) :=
      ⟨hne, fun c hc => List.mem_takeWhile_imp hc⟩
    have hsplit : tail.takeWhile (valueChar t) ++ tail.dropWhile (valueChar t) = tail :=
      List.takeWhile_append_dropWhile
    have hafter : ∀ c ∈ (tail.dropWhile (valueChar t)).head?, valueChar t c = false := by
      intro c hc
      have hnot := List.head?_dropWhile_not (valueChar t) tail
      rw [Option.mem_def.mp hc] at hnot
      simpa using hnot
    rw [← hsplit] at hocc
    have hreplaced := getUpdatedArg_of_occurs value honce hocc hold hafter
    rw [hget, hargs'] at hreplaced
    have hrest := List.append_cancel_left (Except.ok.inj hreplaced)
    have hend := List.append_cancel_left (List.cons.inj (List.append_cancel_left hrest)).2
    refine ⟨sep, _, ?_, hsep, hold⟩
    rw [hend, hsplit]
  | none =>
    have hnone : ∀ b c, args = b ++ c → c ≠ [] → matchArg t name c = none := by
      intro b c hbc _
      refine Option.eq_none_iff_forall_ne_some.mpr fun m hm' => ?_
      obtain ⟨rest', rfl, hother⟩ := occurs_of_matchArg hm'
      obtain rfl := honce _ _ _ _ hocc (hbc ▸ hother b)
      have hsame := List.append_cancel_left (hocc.1.symm.trans hbc)
      rw [hsame, hm'] at hm
      cases hm
    -- The text with the new option appended is too long.
    rw [getUpdatedArg_of_none value hnone, hargs', hocc.1] at hget
    have hlength := congrArg List.length (Except.ok.inj hget)
    have hle : (optionEnd t rest).length ≤ rest.length :=
      ((List.dropWhile_suffix _).trans (List.dropWhile_suffix _)).length_le
    simp only [List.length_append, List.length_cons] at hlength
    omega

/-- **The round trip.** For every text in which the option occurs at most once, and for every value:
the updated option is read back, and nothing else was changed, iff the value consists of characters
of the class, and so does the old value, if there is one, behind one separator. -/
theorem updated_arg_round_trip_iff (name : OptionName t) (value args : List Char)
    (honce : Once t name.chars args) :
    RoundTrip t name.chars value args ↔ Readable t name.chars value args := by
  constructor
  · rintro ⟨args', hget, hread, hupdated⟩
    refine ⟨isValue_of_getArg hread, fun before rest hocc => ?_⟩
    obtain ⟨before', rest', hocc', hargs'⟩ | ⟨hnone, -⟩ := hupdated
    · obtain rfl := honce _ _ _ _ hocc hocc'
      obtain rfl : rest = rest' :=
        List.append_cancel_left (List.append_cancel_left (hocc.1.symm.trans hocc'.1))
      exact isValue_of_updated honce hocc hget hargs'
    · exact absurd hocc (hnone before rest)
  · rintro ⟨hvalue, hold⟩
    by_cases hocc : ∃ before rest, Occurs t name.chars before rest args
    · obtain ⟨before, rest, hocc⟩ := hocc
      obtain ⟨sep, old, hrest, -, hold⟩ := hold before rest hocc
      have hend : ∀ c ∈ (optionEnd t rest).head?, valueChar t c = false := fun c hc =>
        valueChar_eq_false_of_space (space_optionEnd c hc)
      exact ⟨_, getUpdatedArg_of_occurs value honce (hrest ▸ hocc) hold hend,
        getArg_replaced honce hocc hvalue, .inl ⟨before, rest, hocc, rfl⟩⟩
    · have hnone : ∀ before rest, ¬ Occurs t name.chars before rest args :=
        fun before rest h => hocc ⟨before, rest, h⟩
      refine ⟨_, getUpdatedArg_of_none value fun b c hbc _ => ?_, getArg_appended name hnone hvalue,
        .inr ⟨hnone, rfl⟩⟩
      refine Option.eq_none_iff_forall_ne_some.mpr fun m hm => ?_
      obtain ⟨rest, -, hother⟩ := occurs_of_matchArg hm
      exact hnone b rest (hbc ▸ hother b)

/-- The tables, for texts in ASCII. -/
def CharTables.ascii : CharTables where
  word c := c.isAlphanum || c == '_'
  space c := decide (c.toNat ∈ [9, 10, 11, 12, 13, 28, 29, 30, 31, 32])
  word_ascii _ _ := rfl
  space_ascii _ _ := rfl
  disjoint c h := by
    have hspaces : ∀ n ∈ [9, 10, 11, 12, 13, 28, 29, 30, 31, 32],
        ((Char.ofNat n).isAlphanum || Char.ofNat n == '_') = false := by decide
    refine decide_eq_false fun hmem => ?_
    have hword := hspaces c.toNat hmem
    rw [Char.ofNat_toNat, h] at hword
    cases hword

def suites : OptionName CharTables.ascii where
  chars := "suites".toList
  literal := by simp [CharTables.ascii]

/-- The name is at one place of the text. -/
theorem once_of_forall_drop (k : ℕ)
    (h : ∀ i ≤ args.length, flag name <+: args.drop i → i = k) : Once t name args := by
  have hlength : ∀ before rest, Occurs t name before rest args →
      before = args.take before.length ∧ before.length = k := by
    rintro before rest ⟨rfl, -⟩
    refine ⟨List.take_left.symm, h _ ?_ ⟨rest, ?_⟩⟩
    · rw [List.length_append]
      exact Nat.le_add_right _ _
    · rw [List.drop_left]
  intro before rest before' rest' hocc hocc'
  obtain ⟨htake, hk⟩ := hlength _ _ hocc
  obtain ⟨htake', hk'⟩ := hlength _ _ hocc'
  rw [htake, htake', hk, hk']

/-- The option stands between two others. -/
theorem updated_arg_round_trip_between :
    RoundTrip CharTables.ascii suites.chars "smoke".toList "-n --suites core --jobs=1".toList ↔
      Readable CharTables.ascii suites.chars "smoke".toList "-n --suites core --jobs=1".toList :=
  updated_arg_round_trip_iff suites _ _ (once_of_forall_drop 3 (by decide))

/-- **A suite file name.** It is read back up to its dot; and of an old one, what follows the dot
stays behind the new value. -/
theorem updated_arg_cut :
    (Once CharTables.ascii suites.chars "--suites=core".toList ∧
      getUpdatedArg CharTables.ascii "--suites=core".toList suites.chars "smoke.yml".toList =
        .ok "--suites=smoke.yml".toList ∧
      getArg CharTables.ascii "--suites=smoke.yml".toList suites.chars = .ok (some "smoke".toList)) ∧
    (Once CharTables.ascii suites.chars "--suites=core.yml".toList ∧
      getUpdatedArg CharTables.ascii "--suites=core.yml".toList suites.chars "smoke".toList =
        .ok "--suites=smoke.yml".toList) ∧
    ¬ RoundTrip CharTables.ascii suites.chars "smoke.yml".toList "--suites=core".toList := by
  refine ⟨⟨once_of_forall_drop 0 (by decide), by decide, by decide⟩,
    ⟨once_of_forall_drop 0 (by decide), by decide⟩, ?_⟩
  rintro ⟨args', -, hread, -⟩
  have hdot := (isValue_of_getArg hread).2 '.' (by decide)
  cases hdot

end MongoTests.CiConfig.ResmokeArgs
