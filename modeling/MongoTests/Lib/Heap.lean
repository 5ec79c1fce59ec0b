import Mathlib.Data.Nat.Notation
import Mathlib.Logic.Function.Basic

/-!
# Heaps

Objects behind addresses. An address is in use if it is below `next`; a new object or a copy of one
gets the first one that is not.

* `alloc`, `copy`, `write`, with what they leave at every address;
* `Extends`: no object in use has changed; `Extends.map_cell`: what lists of addresses stand for.
-/

namespace MongoTests.Lib

variable {α : Type*}

structure Heap (α : Type*) where
  cell : ℕ → α
  next : ℕ

namespace Heap

/-- A new object, at the address `next`. -/
def alloc (h : Heap α) (x : α) : Heap α where
  cell := Function.update h.cell h.next x
  next := h.next + 1

/-- A copy of the object at `a`, at the address `next`. -/
def copy (h : Heap α) (a : ℕ) : Heap α where
  cell := Function.update h.cell h.next (h.cell a)
  next := h.next + 1

/-- Change the object at `a`. -/
def write (h : Heap α) (a : ℕ) (f : α → α) : Heap α where
  cell := Function.update h.cell a (f (h.cell a))
  next := h.next

variable {h h' h'' : Heap α} {a : ℕ} {f : α → α}

@[simp] theorem next_alloc {x : α} : (h.alloc x).next = h.next + 1 := rfl

@[simp] theorem cell_alloc_next {x : α} : (h.alloc x).cell h.next = x := Function.update_self ..

theorem cell_alloc_of_lt {x : α} (ha : a < h.next) : (h.alloc x).cell a = h.cell a :=
  Function.update_of_ne (Nat.ne_of_lt ha) ..

@[simp] theorem next_copy : (h.copy a).next = h.next + 1 := rfl

@[simp] theorem next_write : (h.write a f).next = h.next := rfl

@[simp] theorem cell_copy_next : (h.copy a).cell h.next = h.cell a := Function.update_self ..

@[simp] theorem cell_write_self : (h.write a f).cell a = f (h.cell a) := Function.update_self ..

theorem cell_write_of_ne {b : ℕ} (hb : b ≠ a) : (h.write a f).cell b = h.cell b :=
  Function.update_of_ne hb ..

/-- A conditional change changes the object, if only to what it is. -/
theorem ite_write (c : Prop) [Decidable c] :
    (if c then h.write a f else h) = h.write a fun x => if c then f x else x := by
  by_cases hc : c
  · simp only [hc, if_true]
  · simp only [hc, if_false, write, Function.update_eq_self]

/-- The objects in use have not changed. -/
structure Extends (h h' : Heap α) : Prop where
  next_le : h.next ≤ h'.next
  cell : ∀ a, a < h.next → h'.cell a = h.cell a

namespace Extends

theorem refl (h : Heap α) : h.Extends h := ⟨Nat.le_refl _, fun _ _ => rfl⟩

theorem trans (hh' : h.Extends h') (hh'' : h'.Extends h'') : h.Extends h'' where
  next_le := Nat.le_trans hh'.next_le hh''.next_le
  cell a ha := (hh''.cell a (Nat.lt_of_lt_of_le ha hh'.next_le)).trans (hh'.cell a ha)

theorem copy (hh' : h.Extends h') (a : ℕ) : h.Extends (h'.copy a) where
  next_le := by
    have := hh'.next_le
    rw [next_copy]
    omega
  cell b hb := by
    have hne : b ≠ h'.next := by
      have := hh'.next_le
      omega
    exact (Function.update_of_ne hne ..).trans (hh'.cell b hb)

/-- An object that is new may be changed. -/
theorem write (hh' : h.Extends h') (ha : h.next ≤ a) (f : α → α) : h.Extends (h'.write a f) where
  next_le := hh'.next_le
  cell b hb := by
    have hne : b ≠ a := by omega
    exact (Function.update_of_ne hne ..).trans (hh'.cell b hb)

theorem map_cell (hh' : h.Extends h') {as : List ℕ} (has : ∀ a ∈ as, a < h.next) :
    as.map h'.cell = as.map h.cell :=
  List.map_congr_left fun a ha => hh'.cell a (has a ha)

end Extends

end Heap

end MongoTests.Lib
