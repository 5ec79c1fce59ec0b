import Mathlib.Algebra.Group.Nat.Defs

/-!
# Decimals of equal width

Numbers written with leading zeros, so that they sort as text in the order of the numbers.

* `zfill`: a text of at least the given width; `decimal`: the last digits of a number.
* `zfill_toDigits`: a number below `10 ^ w`, filled up to the width `w`, is its last `w` digits.
* `decimal_lt`: smaller numbers come first.
* `toDigits_injective`, `notMem_toDigits`: numbers without leading zeros.
* `ite_digits_toDigits`: such a number is read again.
-/

namespace MongoTests.Lib

/-- Zeros in front, up to a width. -/
def zfill (width : ℕ) (s : List Char) : List Char := List.replicate (width - s.length) '0' ++ s

/-- The last `width` decimal digits. -/
def decimal : ℕ → ℕ → List Char
  | 0, _ => []
  | width + 1, n => decimal width (n / 10) ++ [Nat.digitChar (n % 10)]

@[simp] theorem length_decimal (width n : ℕ) : (decimal width n).length = width := by
  induction width generalizing n with
  | zero => rfl
  | succ width ih => rw [decimal, List.length_append, ih, List.length_singleton]

theorem decimal_zero (width : ℕ) : decimal width 0 = List.replicate width '0' := by
  induction width with
  | zero => rfl
  | succ width ih =>
    rw [decimal, Nat.zero_div, ih, List.replicate_succ']
    rfl

theorem zfill_concat {width : ℕ} (s : List Char) (c : Char) :
    zfill (width + 1) (s ++ [c]) = zfill width s ++ [c] := by
  have hlen : width + 1 - (s ++ [c]).length = width - s.length := by
    rw [List.length_append, List.length_singleton]
    omega
  rw [zfill, hlen, zfill, List.append_assoc]

/-- A text that is not empty has the width 1 at least. -/
theorem zfill_max_one (width : ℕ) {s : List Char} (hs : s ≠ []) :
    zfill width s = zfill (max width 1) s := by
  have hpos := List.length_pos_iff.mpr hs
  have hlen : width - s.length = max width 1 - s.length := by omega
  rw [zfill, hlen, zfill]

theorem zfill_toDigits {width n : ℕ} (h : n < 10 ^ (width + 1)) :
    zfill (width + 1) (Nat.toDigits 10 n) = decimal (width + 1) n := by
  induction width generalizing n with
  | zero =>
    have hn : n < 10 := by simpa using h
    rw [Nat.toDigits_of_lt_base hn, decimal, Nat.mod_eq_of_lt hn]
    rfl
  | succ width ih =>
    by_cases hn : n < 10
    · rw [Nat.toDigits_of_lt_base hn, decimal, Nat.mod_eq_of_lt hn, Nat.div_eq_of_lt hn,
        decimal_zero]
      rfl
    · have hdiv : n / 10 < 10 ^ (width + 1) := by
        rw [Nat.div_lt_iff_lt_mul (by decide), ← Nat.pow_succ]
        exact h
      rw [Nat.toDigits_of_base_le (by decide) (by omega), zfill_concat, ih hdiv]
      rfl

theorem digitChar_lt {m n : ℕ} (h : m < n) (hn : n < 10) : Nat.digitChar m < Nat.digitChar n := by
  rw [Char.lt_def, UInt32.lt_iff_toNat_lt]
  show (Nat.digitChar m).toNat < (Nat.digitChar n).toNat
  rw [Nat.toNat_digitChar_of_lt_ten (by omega), Nat.toNat_digitChar_of_lt_ten hn]
  omega

/-- Texts of equal length that differ are not brought back together by what follows. -/
theorem append_lt_append {s t : List Char} (h : s < t) (hlen : s.length = t.length)
    (u v : List Char) : s ++ u < t ++ v := by
  induction s generalizing t with
  | nil =>
    rw [List.eq_nil_of_length_eq_zero hlen.symm] at h
    exact absurd h (List.lt_irrefl _)
  | cons c s ih =>
    cases t with
    | nil => cases hlen
    | cons d t =>
      rw [List.cons_append, List.cons_append, List.cons_lt_cons_iff]
      rcases List.cons_lt_cons_iff.mp h with hlt | ⟨heq, hlt⟩
      · exact .inl hlt
      · exact .inr ⟨heq, ih hlt (Nat.succ.inj hlen)⟩

/-- Numbers of equal width sort as text like numbers. -/
theorem decimal_lt {width m n : ℕ} (h : m < n) (hn : n < 10 ^ width) :
    decimal width m < decimal width n := by
  induction width generalizing m n with
  | zero =>
    rw [Nat.pow_zero] at hn
    omega
  | succ width ih =>
    have hdiv : n / 10 < 10 ^ width := by
      rw [Nat.div_lt_iff_lt_mul (by decide), ← Nat.pow_succ]
      exact hn
    rw [decimal, decimal]
    by_cases hq : m / 10 < n / 10
    · exact append_lt_append (ih hq hdiv) (by simp) _ _
    · -- the last digits decide
      have heq : m / 10 = n / 10 := by omega
      rw [heq]
      refine List.append_left_lt (List.cons_lt_cons_iff.mpr (.inl ?_))
      exact digitChar_lt (by omega) (Nat.mod_lt n (by decide))

theorem toDigits_injective {m n : ℕ} (h : Nat.toDigits 10 m = Nat.toDigits 10 n) : m = n := by
  have hvalue : ∀ k, Nat.ofDigitChars 10 (Nat.toDigits 10 k) 0 = k :=
    fun k => Nat.ofDigitChars_toDigits (by decide) (by decide)
  rw [← hvalue m, h, hvalue n]

theorem notMem_toDigits {c : Char} (hc : c.isDigit = false) (n : ℕ) : c ∉ Nat.toDigits 10 n := by
  intro hmem
  rw [Nat.isDigit_of_mem_toDigits (by decide) (by decide) hmem] at hc
  cases hc

/-- Two texts with their last separators. -/
theorem append_cons_inj {α : Type*} {c : α} {s t u v : List α} (hu : c ∉ u) (hv : c ∉ v)
    (h : s ++ c :: u = t ++ c :: v) : s = t ∧ u = v := by
  obtain ⟨w, rfl, hw⟩ | ⟨w, rfl, hw⟩ := List.append_eq_append_iff.mp h
  · cases w with
    | nil => exact ⟨(List.append_nil s).symm, (List.cons.inj hw).2⟩
    | cons d w =>
      have hmem : c ∈ u := by
        rw [(List.cons.inj hw).2]
        exact List.mem_append_right _ List.mem_cons_self
      exact absurd hmem hu
  · cases w with
    | nil => exact ⟨List.append_nil t, (List.cons.inj hw).2.symm⟩
    | cons d w =>
      have hmem : c ∈ v := by
        rw [(List.cons.inj hw).2]
        exact List.mem_append_right _ List.mem_cons_self
      exact absurd hmem hv

/-- Reading decimal digits, and nothing else. -/
theorem ite_digits_toDigits {β : Type*} (f : ℕ → β) (n : ℕ) :
    (if Nat.toDigits 10 n ≠ [] ∧ (Nat.toDigits 10 n).all Char.isDigit then
      some (f (Nat.ofDigitChars 10 (Nat.toDigits 10 n) 0)) else none) = some (f n) := by
  have hdigits : (Nat.toDigits 10 n).all Char.isDigit :=
    List.all_eq_true.mpr fun c hc => Nat.isDigit_of_mem_toDigits (by decide) (by decide) hc
  rw [if_pos ⟨Nat.toDigits_ne_nil, hdigits⟩, Nat.ofDigitChars_toDigits (by decide) (by decide)]

theorem ite_digits_toDigits_int (n : ℕ) :
    (if Nat.toDigits 10 n ≠ [] ∧ (Nat.toDigits 10 n).all Char.isDigit then
      some ((Nat.ofDigitChars 10 (Nat.toDigits 10 n) 0 : ℕ) : ℤ) else none) = some (n : ℤ) :=
  ite_digits_toDigits (fun n => (n : ℤ)) n

end MongoTests.Lib
