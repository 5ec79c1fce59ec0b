import Mathlib.Order.Defs.Unbundled
import Mathlib.Data.List.Basic

/-!
# Comparing part by part

Strict weak orders in the form that a comparison in several parts keeps.

* `StrictWeak`: asymmetric and cotransitive; `StrictWeak.isStrictWeakOrder`;
* `lexLess`, `StrictWeak.lexLess`: the first part that differs decides;
* `optionLess`, `StrictWeak.optionLess`: no value comes first;
* `not_lexLess_iff`: equivalent in every part.
-/

namespace MongoTests.Lib

universe u

variable {α β : Type u}

/-- A strict weak order: an element stands before or after each element between two others. -/
structure StrictWeak (r : α → α → Prop) : Prop where
  asymm : ∀ a b, r a b → ¬ r b a
  cotrans : ∀ a b c, r a c → r a b ∨ r b c

theorem StrictWeak.trans {r : α → α → Prop} (h : StrictWeak r) {a b c : α} (hab : r a b)
    (hbc : r b c) : r a c :=
  (h.cotrans a c b hab).resolve_right fun hcb => h.asymm b c hbc hcb

/-- Equivalent elements stand in the same places. -/
theorem StrictWeak.incomp {r : α → α → Prop} (h : StrictWeak r) {a b c : α} (hab : ¬ r a b)
    (hbc : ¬ r b c) : ¬ r a c :=
  fun hac => (h.cotrans a b c hac).elim hab hbc

theorem StrictWeak.isStrictWeakOrder {r : α → α → Prop} (h : StrictWeak r) :
    IsStrictWeakOrder α r where
  irrefl a ha := h.asymm a a ha ha
  trans _ _ _ := h.trans
  incomp_trans _ _ _ hab hbc := ⟨h.incomp hab.1 hbc.1, h.incomp hbc.2 hab.2⟩

theorem StrictWeak.onFun {r : β → β → Prop} (h : StrictWeak r) (f : α → β) :
    StrictWeak fun a b => r (f a) (f b) :=
  ⟨fun a b => h.asymm (f a) (f b), fun a b c => h.cotrans (f a) (f b) (f c)⟩

/-- The first part that differs decides. -/
def lexLess : List (α → α → Prop) → α → α → Prop
  | [], _, _ => False
  | r :: rs, a, b => r a b ∨ ¬ r b a ∧ lexLess rs a b

theorem StrictWeak.lexLess {rs : List (α → α → Prop)} (h : ∀ r ∈ rs, StrictWeak r) :
    StrictWeak (lexLess rs) := by
  induction rs with
  | nil => exact ⟨fun _ _ h => h.elim, fun _ _ _ h => h.elim⟩
  | cons r rs ih =>
    obtain ⟨hr, hrs⟩ := List.forall_mem_cons.mp h
    have hrest := ih hrs
    constructor
    · rintro a b (hab | ⟨hba, hab⟩) (hba' | ⟨hab', hba'⟩)
      · exact hr.asymm a b hab hba'
      · exact hab' hab
      · exact hba hba'
      · exact hrest.asymm a b hab hba'
    · rintro a b c (hac | ⟨hca, hac⟩)
      · exact (hr.cotrans a b c hac).imp .inl .inl
      · by_cases hab : r a b
        · exact .inl (.inl hab)
        by_cases hbc : r b c
        · exact .inr (.inl hbc)
        have hba : ¬ r b a := hr.incomp hbc hca
        have hcb : ¬ r c b := hr.incomp hca hab
        exact (hrest.cotrans a b c hac).imp (fun h => .inr ⟨hba, h⟩) fun h => .inr ⟨hcb, h⟩

/-- Neither comes first if they are equivalent in every part. -/
theorem not_lexLess_iff {rs : List (α → α → Prop)} {a b : α} :
    ¬ lexLess rs a b ∧ ¬ lexLess rs b a ↔ ∀ r ∈ rs, ¬ r a b ∧ ¬ r b a := by
  induction rs with
  | nil => simp [lexLess]
  | cons r rs ih =>
    rw [List.forall_mem_cons, ← ih]
    simp only [lexLess]
    tauto

/-- No value comes first. -/
def optionLess (r : α → α → Prop) : Option α → Option α → Prop
  | _, none => False
  | none, some _ => True
  | some a, some b => r a b

theorem StrictWeak.optionLess {r : α → α → Prop} (h : StrictWeak r) :
    StrictWeak (optionLess r) := by
  constructor
  · rintro (_ | a) (_ | b) hab
    · exact fun h => h
    · exact fun h => h
    · exact hab.elim
    · exact h.asymm a b hab
  · rintro (_ | a) (_ | b) (_ | c) hac
    · exact hac.elim
    · exact .inr hac
    · exact hac.elim
    · exact .inl trivial
    · exact hac.elim
    · exact .inr trivial
    · exact hac.elim
    · exact h.cotrans a b c hac

end MongoTests.Lib
