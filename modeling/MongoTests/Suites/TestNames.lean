import MongoTests.Suites.TestStats

/-!
# Spellings of a test file

`denormalize_test_file` of `buildscripts/util/testname.py`, which lists a test file as a POSIX path
and as a Windows path. It puts `.exe` behind a path without extension; `normalizeTestFile` drops
that extension from every Windows path.

* `splitext_append`, `any_of_splitext_ne`: what is split off a path.
* `normalizeTestFile_toWindows`, `normalizeTestFile_toWindows_exe`: the Windows spelling read back.
* **`normalizeTestFile_denormalizeTestFile_iff`**: the paths whose spellings are all read back.
-/

namespace MongoTests.Suites

section Model

/-- `replace("/", "\\")` -/
def toWindows (testFile : String) : String :=
  String.ofList (testFile.toList.map fun c => if c = '/' then '\\' else c)

def denormalizeTestFile (testFile : String) : List String :=
  let testFile := normalizeTestFile testFile
  if '/' ∈ testFile.toList then
    let windowsTestFile := toWindows testFile
    if (splitext testFile).2 = "" then [testFile, windowsTestFile ++ ".exe"]
    else [testFile, windowsTestFile]
  else [testFile]

end Model

/-! ## Extensions -/

section Extensions

variable {p : String}

/-- The last component is more than dots. -/
def HasName (p : String) : Prop := (basename p).toList.any (· ≠ '.') = true

instance (p : String) : Decidable (HasName p) := inferInstanceAs (Decidable (_ = true))

/-- A list with something behind its first dot from the front of the reversed name. -/
theorem eq_takeWhile_append {l : List Char}
    (h : l.drop ((l.takeWhile (· ≠ '.')).length + 1) ≠ []) :
    l = l.takeWhile (· ≠ '.') ++ '.' :: l.drop ((l.takeWhile (· ≠ '.')).length + 1) := by
  induction l with
  | nil => exact absurd rfl h
  | cons c l ih =>
    by_cases hc : c = '.'
    · subst hc
      rfl
    · have htake : (c :: l).takeWhile (· ≠ '.') = c :: l.takeWhile (· ≠ '.') :=
        List.takeWhile_cons_of_pos (decide_eq_true hc)
      rw [htake] at h ⊢
      rw [List.length_cons, List.drop_succ_cons] at h ⊢
      rw [List.cons_append]
      exact congrArg _ (ih h)

/-- Nothing of a path is lost. -/
theorem splitext_append (p : String) : (splitext p).1 ++ (splitext p).2 = p := by
  unfold splitext
  dsimp only
  split_ifs with h
  · generalize hbase : p.toList.reverse.takeWhile (· ≠ '/') = base at h ⊢
    generalize hext : base.takeWhile (· ≠ '.') = ext at h ⊢
    obtain ⟨c, hc, -⟩ := List.any_eq_true.mp h
    have hsplit : base = ext ++ '.' :: base.drop (ext.length + 1) := by
      rw [← hext]
      exact eq_takeWhile_append (by rw [hext]; exact List.ne_nil_of_mem hc)
    have hpath : p.toList.reverse =
        ext ++ '.' :: (base.drop (ext.length + 1) ++ p.toList.reverse.dropWhile (· ≠ '/')) := by
      calc p.toList.reverse
          = p.toList.reverse.takeWhile (· ≠ '/') ++ p.toList.reverse.dropWhile (· ≠ '/') :=
            List.takeWhile_append_dropWhile.symm
        _ = ext ++ '.' :: base.drop (ext.length + 1) ++ p.toList.reverse.dropWhile (· ≠ '/') := by
            rw [hbase, ← hsplit]
        _ = _ := by rw [List.append_assoc, List.cons_append]
    generalize base.drop (ext.length + 1) ++ p.toList.reverse.dropWhile (· ≠ '/') = rest at hpath
    have hlist : p.toList = rest.reverse ++ '.' :: ext.reverse := by
      rw [List.reverse_eq_iff.mp hpath]
      simp
    have hlen : p.toList.length - (ext.length + 1) = rest.reverse.length := by
      rw [hlist]
      simp
    rw [hlen, ← String.ofList_append, hlist, List.take_left, ← hlist, String.ofList_toList]
  · exact String.append_empty

theorem splitext_eq_of_exe (h : (splitext p).2 = ".exe") : p = (splitext p).1 ++ ".exe" := by
  rw [← h]
  exact (splitext_append p).symm

/-- What is left of a path without its extension has a name. -/
theorem hasName_of_exe (h : (splitext p).2 = ".exe") : HasName (splitext p).1 := by
  have hp := splitext_append_exe (splitext p).1
  rw [← splitext_eq_of_exe h] at hp
  by_contra hname
  unfold HasName at hname
  rw [if_neg hname] at hp
  rw [hp] at h
  exact absurd (show "" = ".exe" from h) (by decide)

end Extensions

/-! ## The Windows spelling -/

section Windows

variable {t : String}

theorem toPosix_append (p q : String) : toPosix (p ++ q) = toPosix p ++ toPosix q := by
  rw [toPosix, String.toList_append, List.map_append, String.ofList_append, toPosix, toPosix]

/-- The separators come back. -/
theorem toPosix_toWindows (h : '\\' ∉ t.toList) : toPosix (toWindows t) = t := by
  rw [toPosix, toWindows, String.toList_ofList, List.map_map]
  refine (congrArg String.ofList ?_).trans String.ofList_toList
  refine (List.map_congr_left fun c hc => ?_).trans t.toList.map_id
  have hback : c ≠ '\\' := by
    rintro rfl
    exact h hc
  by_cases hslash : c = '/'
  · subst hslash
    rfl
  · rw [Function.comp_apply, if_neg hslash, if_neg hback, id]

theorem backslash_mem_toWindows (h : '/' ∈ t.toList) : '\\' ∈ (toWindows t).toList := by
  rw [toWindows, String.toList_ofList]
  exact List.mem_map.mpr ⟨'/', h, rfl⟩

theorem normalizeTestFile_of_mem {w : String} (h : '\\' ∈ w.toList) :
    normalizeTestFile w =
      if (splitext (toPosix w)).2 = ".exe" then (splitext (toPosix w)).1 else toPosix w := by
  unfold normalizeTestFile
  dsimp only
  rw [if_pos h]

/-- A path without the extension is read back from its Windows spelling. -/
theorem normalizeTestFile_toWindows (hback : '\\' ∉ t.toList) (hslash : '/' ∈ t.toList) :
    normalizeTestFile (toWindows t) = t ↔ (splitext t).2 ≠ ".exe" := by
  rw [normalizeTestFile_of_mem (backslash_mem_toWindows hslash), toPosix_toWindows hback]
  split_ifs with hexe
  · refine iff_of_false (fun h => ?_) (not_not_intro hexe)
    have hp := splitext_append t
    rw [h, hexe] at hp
    have hlen := congrArg String.length hp
    rw [String.length_append] at hlen
    exact absurd hlen (Nat.ne_of_gt (Nat.lt_add_of_pos_right (by decide)))
  · exact iff_of_true rfl hexe

/-- A path that has a name is read back from its Windows spelling with `.exe`. -/
theorem normalizeTestFile_toWindows_exe (hback : '\\' ∉ t.toList) (hslash : '/' ∈ t.toList) :
    normalizeTestFile (toWindows t ++ ".exe") = t ↔ HasName t := by
  have hmem : '\\' ∈ (toWindows t ++ ".exe").toList := by
    rw [String.toList_append]
    exact List.mem_append_left _ (backslash_mem_toWindows hslash)
  have hexe : toPosix ".exe" = ".exe" := toPosix_eq_self (by decide)
  rw [normalizeTestFile_of_mem hmem, toPosix_append, toPosix_toWindows hback, hexe,
    splitext_append_exe, HasName]
  split_ifs with hname h
  · exact iff_of_true rfl hname
  · exact absurd rfl h
  · rename_i h
    exact absurd (show "" = ".exe" from h) (by decide)
  · refine iff_of_false (fun h => ?_) hname
    have hlen := congrArg String.length h
    rw [String.length_append] at hlen
    exact absurd hlen.symm (Nat.ne_of_lt (Nat.lt_add_of_pos_right (by decide)))

end Windows

/-! ## Reading spellings back -/

section RoundTrip

variable {f t : String}

/-- A path with a separator whose last component has an extension or more than dots, and the
extension `.exe` only once and in a Windows spelling. -/
def Readable (f : String) : Prop :=
  '/' ∈ (toPosix f).toList →
    ((splitext (toPosix f)).2 = "" → HasName (toPosix f)) ∧
    ((splitext (toPosix f)).2 = ".exe" →
      '\\' ∈ f.toList ∧ (splitext (splitext (toPosix f)).1).2 ≠ ".exe")

instance (f : String) : Decidable (Readable f) := by
  unfold Readable
  infer_instance

/-- What makes a POSIX path readable. -/
def PosixReadable (t : String) : Prop :=
  '/' ∈ t.toList → ((splitext t).2 = "" → HasName t) ∧ (splitext t).2 ≠ ".exe"

theorem readable_iff : Readable f ↔ PosixReadable (normalizeTestFile f) := by
  by_cases hback : '\\' ∈ f.toList
  · rw [normalizeTestFile_of_mem hback, Readable]
    by_cases hexe : (splitext (toPosix f)).2 = ".exe"
    · have hmem : '/' ∈ (toPosix f).toList ↔ '/' ∈ (splitext (toPosix f)).1.toList := by
        conv_lhs => rw [splitext_eq_of_exe hexe, String.toList_append, List.mem_append]
        exact or_iff_left (by decide)
      have hne : (splitext (toPosix f)).2 ≠ "" := by
        rw [hexe]
        decide
      rw [if_pos hexe, PosixReadable, hmem]
      refine imp_congr_right fun _ => ?_
      rw [and_iff_right fun h => absurd h hne, and_iff_right fun _ => hasName_of_exe hexe]
      exact ⟨fun h => (h hexe).2, fun h _ => ⟨hback, h⟩⟩
    · rw [if_neg hexe, PosixReadable]
      refine imp_congr_right fun _ => and_congr_right fun _ => ?_
      exact iff_of_true (fun h => absurd h hexe) hexe
  · rw [normalizeTestFile_eq_self hback, Readable, PosixReadable, toPosix_eq_self hback]
    refine imp_congr_right fun _ => and_congr_right fun _ => ?_
    exact ⟨fun h hexe => hback (h hexe).1, fun h hexe => absurd hexe h⟩

theorem normalizeTestFile_idem (f : String) :
    normalizeTestFile (normalizeTestFile f) = normalizeTestFile f :=
  normalizeTestFile_eq_self (backslash_not_mem_normalizeTestFile f)

/-- A POSIX path with a separator has two spellings. -/
theorem forall_mem_denormalizeTestFile {P : String → Prop} :
    (∀ x ∈ denormalizeTestFile f, P x) ↔
      P (normalizeTestFile f) ∧ ('/' ∈ (normalizeTestFile f).toList →
        ((splitext (normalizeTestFile f)).2 = "" → P (toWindows (normalizeTestFile f) ++ ".exe")) ∧
        ((splitext (normalizeTestFile f)).2 ≠ "" → P (toWindows (normalizeTestFile f)))) := by
  unfold denormalizeTestFile
  dsimp only
  split_ifs with hslash hext
  · simp [hslash, hext]
  · simp [hslash, hext]
  · simp [hslash]

/-- **Spellings are read back.** Each spelling of a test file is normalized to the same path, and
normalizing it again changes nothing, exactly for a path that has no separator, or a name without
the extension `.exe`, apart from the one that a Windows path loses. -/
theorem normalizeTestFile_denormalizeTestFile_iff (f : String) :
    ((∀ x ∈ denormalizeTestFile f, normalizeTestFile x = normalizeTestFile f) ∧
      normalizeTestFile (normalizeTestFile f) = normalizeTestFile f) ↔ Readable f := by
  have hback := backslash_not_mem_normalizeTestFile f
  rw [and_iff_left (normalizeTestFile_idem f), readable_iff, PosixReadable,
    forall_mem_denormalizeTestFile, and_iff_right (normalizeTestFile_idem f)]
  refine imp_congr_right fun hslash => ?_
  rw [normalizeTestFile_toWindows hback hslash, normalizeTestFile_toWindows_exe hback hslash]
  refine and_congr_right fun _ => ?_
  constructor
  · intro h hexe
    exact h (by rw [hexe]; decide) hexe
  · intro h _
    exact h

/-- A POSIX path with the extension loses it on the way through Windows. -/
theorem denormalizeTestFile_exe :
    "build\\test.exe" ∈ denormalizeTestFile "build/test.exe" ∧
    normalizeTestFile "build\\test.exe" ≠ normalizeTestFile "build/test.exe" := by
  decide +kernel

example : ¬ Readable "a/" ∧ ¬ Readable "a/.." ∧ Readable "a/.hidden" ∧ Readable "a\\b.exe" ∧
    ¬ Readable "a\\b.exe.exe" := by
  decide +kernel

end RoundTrip

end MongoTests.Suites
