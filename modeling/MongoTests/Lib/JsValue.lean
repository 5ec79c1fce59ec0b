import Mathlib.Algebra.Order.Field.Rat

/-!
# JavaScript values

The values that a script can pass around, as far as their type, their truth and
their properties go. Arithmetic is exact: a number is a rational, an infinity or `NaN`.

* `Number`, with `+`, `*`, `<` and `<=` as the language defines them on the infinities and `NaN`.
* `Value`: an object is the list of its own properties in the order of `Object.keys`.
-/

namespace MongoTests.Lib.Js

inductive Number
  | nan
  | posInf
  | negInf
  | fin (x : ℚ)
  deriving DecidableEq, Repr

namespace Number

def add : Number → Number → Number
  | .fin x, .fin y => .fin (x + y)
  | .posInf, .posInf | .posInf, .fin _ | .fin _, .posInf => .posInf
  | .negInf, .negInf | .negInf, .fin _ | .fin _, .negInf => .negInf
  | _, _ => .nan

/-- The product of a rational and a number. -/
def scale (x : ℚ) : Number → Number
  | .fin y => .fin (x * y)
  | .posInf => if x = 0 then .nan else if 0 < x then .posInf else .negInf
  | .negInf => if x = 0 then .nan else if 0 < x then .negInf else .posInf
  | .nan => .nan

/-- `x < y`; every comparison with `NaN` is false. -/
def lt : Number → Number → Bool
  | .fin x, .fin y => decide (x < y)
  | .negInf, .fin _ | .negInf, .posInf | .fin _, .posInf => true
  | _, _ => false

/-- `x <= y`. -/
def le (x y : Number) : Bool := lt x y || (decide (x = y) && decide (x ≠ .nan))

/-- `Number.isInteger`. -/
def isInteger : Number → Bool
  | .fin x => decide (x.den = 1)
  | _ => false

theorem scale_zero_of_ne_fin {x : Number} (h : ∀ y, x ≠ .fin y) : scale 0 x = .nan := by
  cases x with
  | fin y => exact absurd rfl (h y)
  | _ => rfl

@[simp] theorem nan_lt (x : Number) : lt .nan x = false := by
  cases x <;> rfl

@[simp] theorem fin_lt_fin {x y : ℚ} : lt (.fin x) (.fin y) = true ↔ x < y := decide_eq_true_iff

/-- Numbers other than `NaN` are in a line. -/
theorem le_eq_false_iff {x y : Number} :
    le x y = false ↔ x = .nan ∨ y = .nan ∨ lt y x = true := by
  cases x with
  | fin x =>
    cases y with
    | fin y =>
      have h : x < y ∨ x = y ↔ x ≤ y := le_iff_lt_or_eq.symm
      simp [le, lt, ← not_le, ← h]
    | _ => simp [le, lt]
  | _ => cases y <;> simp [le, lt]

theorem lt_trans {x y z : Number} (h : lt x y = true) (h' : lt y z = true) : lt x z = true := by
  cases x <;> cases y <;> cases z <;> simp_all [lt]
  exact h.trans h'

end Number

inductive Value
  | undefined
  | null
  | boolean (b : Bool)
  | number (x : Number)
  | string (s : String)
  /-- A function and the number of its parameters, its `length`. -/
  | function (length : ℕ)
  | object (properties : List (String × Value))
  deriving Repr

/-- An object, as the list of its own properties. -/
abbrev Object := List (String × Value)

namespace Value

/-- Whether `if (v)` takes the branch. -/
def truthy : Value → Bool
  | .undefined | .null => false
  | .boolean b => b
  | .number x => decide (x ≠ .nan ∧ x ≠ .fin 0)
  | .string s => decide (s ≠ "")
  | .function _ | .object _ => true

/-- `v || w`. -/
def or (v w : Value) : Value := if v.truthy then v else w

end Value

/-- `o[key]`. -/
def Object.get (o : Object) (key : String) : Value := (o.lookup key).getD .undefined

end MongoTests.Lib.Js
