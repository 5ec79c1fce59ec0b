import MongoTests.Lib.JsValue
import Mathlib.Data.List.Basic
import Mathlib.Data.List.Nodup
import Mathlib.Tactic.SplitIfs

/-!
# Command documents

Values without functions, where an object has its properties in the order of their insertion.

* `Value`, `Obj`: values and the properties of an object;
* `Value.get`, `Obj.get?`, `Obj.has`, `Obj.set`, `Obj.assign`, `Obj.firstKey`: the operations of the language;
* `get?_set`, `set_set_of_get?`, `set_comm`: properties after assignments;
* `assign_assign`: assigning the same properties again.
-/

namespace MongoTests.Lib.Doc

inductive Value
  | undefined
  | null
  | boolean (b : Bool)
  | number (x : Js.Number)
  | string (s : String)
  | array (vs : List Value)
  | object (ps : List (String × Value))

/-- The properties of an object. -/
abbrev Obj := List (String × Value)

/-- The value as a condition. -/
def Value.truthy : Value → Bool
  | .undefined | .null => false
  | .boolean b => b
  | .number x => x ≠ .nan ∧ x ≠ .fin 0
  | .string s => s ≠ ""
  | .array _ | .object _ => true

/-- `typeof v === "object" && v !== null` -/
def Value.isObject : Value → Bool
  | .array _ | .object _ => true
  | _ => false

/-- The own properties that `Object.assign` copies and `Object.keys` names. -/
def Value.entries : Value → Obj
  | .object ps => ps
  | .array vs => vs.mapIdx fun i v => (toString i, v)
  | .string s => s.toList.mapIdx fun i c => (toString i, .string c.toString)
  | _ => []

namespace Obj

/-- `o.hasOwnProperty(k)` -/
def has (o : Obj) (k : String) : Bool := o.any (·.1 = k)

/-- `o[k]`, if there is such a property. -/
def get? : Obj → String → Option Value
  | [], _ => none
  | (k', v) :: o, k => if k' = k then some v else get? o k

/-- `o[k]` -/
def get (o : Obj) (k : String) : Value := (o.get? k).getD .undefined

/-- `o[k] = v`: a new property comes last. -/
def set : Obj → String → Value → Obj
  | [], k, v => [(k, v)]
  | (k', v') :: o, k, v => if k' = k then (k', v) :: o else (k', v') :: set o k v

/-- `Object.assign(o, ps)` -/
def assign (o ps : Obj) : Obj := ps.foldl (fun o p => o.set p.1 p.2) o

/-- `Object.keys(o)[0]` -/
def firstKey (o : Obj) : Option String := o.head?.map Prod.fst

/-- `Object.keys(o)` -/
def keys (o : Obj) : List String := o.map Prod.fst

end Obj

/-- `v[k]`, for the name of a property. -/
def Value.get (v : Value) (k : String) : Value :=
  match v with
  | .object ps => Obj.get ps k
  | _ => .undefined

namespace Obj

variable {o ps : Obj} {k k' : String} {v v' : Value}

theorem get_eq_object : o.get k = .object ps ↔ o.get? k = some (.object ps) := by
  unfold get
  cases o.get? k <;> simp

@[simp] theorem get?_set_self (o : Obj) (k : String) (v : Value) : (o.set k v).get? k = some v := by
  induction o with
  | nil => simp [set, get?]
  | cons p o ih =>
    obtain ⟨k', v'⟩ := p
    unfold set
    split_ifs with h
    · simp [get?, h]
    · simp [get?, h, ih]

theorem get?_set_of_ne (h : k ≠ k') (o : Obj) (v : Value) : (o.set k v).get? k' = o.get? k' := by
  induction o with
  | nil => simp [set, get?, h]
  | cons p o ih =>
    obtain ⟨k'', v''⟩ := p
    unfold set
    split_ifs with hk
    · subst hk
      simp [get?, h]
    · simp [get?, ih]

theorem has_eq_isSome (o : Obj) (k : String) : o.has k = (o.get? k).isSome := by
  induction o with
  | nil => rfl
  | cons p o ih =>
    obtain ⟨k', v⟩ := p
    rw [has, List.any_cons, get?]
    split_ifs with h
    · simp [h]
    · rw [← ih]
      simp [h, has]

theorem has_set_of_ne (h : k ≠ k') (o : Obj) (v : Value) : (o.set k v).has k' = o.has k' := by
  rw [has_eq_isSome, has_eq_isSome, get?_set_of_ne h]

@[simp] theorem has_set_self (o : Obj) (k : String) (v : Value) : (o.set k v).has k = true := by
  rw [has_eq_isSome, get?_set_self]
  rfl

/-- The first property stays the first. -/
theorem firstKey_set (h : o.firstKey = some k') (k : String) (v : Value) :
    (o.set k v).firstKey = some k' := by
  cases o with
  | nil => cases h
  | cons p o =>
    unfold set
    split_ifs
    · exact h
    · exact h

/-- Setting a property to the value that it has. -/
theorem set_of_get? (h : o.get? k = some v) : o.set k v = o := by
  induction o with
  | nil => cases h
  | cons p o ih =>
    obtain ⟨k', v'⟩ := p
    unfold get? at h
    unfold set
    split_ifs at h ⊢ with hk
    · cases h
      rfl
    · rw [ih h]

/-- The second of two assignments counts. -/
theorem set_set (o : Obj) (k : String) (v v' : Value) : (o.set k v).set k v' = o.set k v' := by
  induction o with
  | nil => simp [set]
  | cons p o ih =>
    obtain ⟨k', v''⟩ := p
    by_cases hk : k' = k
    · simp [set, hk]
    · simp [set, hk, ih]

/-- Two assignments commute if one of the properties is there already. -/
theorem set_comm (h : k ≠ k') (hk : o.has k = true) (v v' : Value) :
    (o.set k v).set k' v' = (o.set k' v').set k v := by
  induction o with
  | nil => cases hk
  | cons p o ih =>
    obtain ⟨l, w⟩ := p
    by_cases hl : l = k
    · subst hl
      simp [set, h]
    · have hrest : has o k = true := by simpa [has, hl] using hk
      by_cases hl' : l = k'
      · subst hl'
        simp [set, hl]
      · simp [set, hl, hl', ih hrest]

theorem assign_cons (o : Obj) (p : String × Value) (ps : Obj) :
    o.assign (p :: ps) = (o.set p.1 p.2).assign ps := rfl

/-- A property that is not assigned. -/
theorem get?_assign_of_notMem (h : k ∉ keys ps) : (o.assign ps).get? k = o.get? k := by
  induction ps generalizing o with
  | nil => rfl
  | cons p ps ih =>
    rw [keys, List.map_cons, List.mem_cons, not_or] at h
    rw [assign_cons, ih h.2, get?_set_of_ne (Ne.symm h.1)]

/-- A property that is assigned. -/
theorem get?_assign_of_mem (hnodup : (keys ps).Nodup) {p : String × Value} (h : p ∈ ps) :
    (o.assign ps).get? p.1 = some p.2 := by
  induction ps generalizing o with
  | nil => cases h
  | cons q ps ih =>
    rw [keys, List.map_cons, List.nodup_cons] at hnodup
    rw [assign_cons]
    obtain rfl | hmem := List.mem_cons.mp h
    · rw [get?_assign_of_notMem hnodup.1, get?_set_self]
    · exact ih hnodup.2 hmem

theorem get?_of_mem (hnodup : (keys ps).Nodup) {p : String × Value} (h : p ∈ ps) :
    ps.get? p.1 = some p.2 := by
  induction ps with
  | nil => cases h
  | cons q ps ih =>
    rw [keys, List.map_cons, List.nodup_cons] at hnodup
    obtain rfl | hmem := List.mem_cons.mp h
    · exact if_pos rfl
    · have hne : q.1 ≠ p.1 := fun heq => hnodup.1 (heq ▸ List.mem_map_of_mem hmem)
      exact (if_neg hne).trans (ih hnodup.2 hmem)

/-- Assigning properties that are there. -/
theorem assign_of_get? (h : ∀ p ∈ ps, o.get? p.1 = some p.2) : o.assign ps = o := by
  induction ps with
  | nil => rfl
  | cons p ps ih =>
    rw [assign_cons, set_of_get? (h p List.mem_cons_self)]
    exact ih fun q hq => h q (List.mem_cons_of_mem p hq)

/-- Assigning the same properties again. -/
theorem assign_assign (hnodup : (keys ps).Nodup) (o : Obj) :
    (o.assign ps).assign ps = o.assign ps :=
  assign_of_get? fun _ hp => get?_assign_of_mem hnodup hp

end Obj

end MongoTests.Lib.Doc
