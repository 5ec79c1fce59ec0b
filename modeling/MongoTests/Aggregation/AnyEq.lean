import MongoTests.Lib.Checked
import MongoTests.Lib.JsValue
import MongoTests.Lib.Matching

/-!
# Unordered comparison of results

`anyEq`, `documentEq` and `arrayEq` of `jstests/aggregation/extras/utils.js`, without a
`valueComparator`. Names of properties are data here: an object with a property `hasOwnProperty` hides
the method that the comparison calls.

* `Value`; `anyEq`, `documentEq`, `arrayEq`.
* `Plain`: no object hides the method; `EqualUpTo`: equal up to the order of elements, the values of
  `_id` and, if that is asked for, the dates.
* `exists_matches`, `matchElements_total`: the greedy search for matches.
* `equal_of_anyEq`, `decided_of_plain`, `anyEq_eq_true_iff`: what the comparison decides.
* **`anyEq_accepts_iff`**: when values that are found to be equal are.
-/

namespace MongoTests.Aggregation

open MongoTests.Lib

/-! ## The functions -/

section Model

/-- An object has the names of its own properties, in the order of `for-in`, and their values; a date
has none. -/
inductive Value
  | null
  | boolean (b : Bool)
  | number (x : Js.Number)
  | string (s : String)
  | date (time : ℤ)
  | array (elements : List Value)
  | object (names : List String) (value : String → Value)

/-- `al === ar` where `al` is not an object. -/
def strictEq : Value → Value → Bool
  | .null, .null => true
  | .boolean b, .boolean b' => decide (b = b')
  | .number x, .number y => decide (x = y) && decide (x ≠ .nan)
  | .string s, .string s' => decide (s = s')
  | _, _ => false

/-- '… is not a function' -/
inductive NotAFunction
  | dlHasOwnProperty
  | drHasOwnProperty
  deriving DecidableEq, Repr

/-- `hasOwnProperty(propertyName)` of an object with properties `names`. -/
def hasOwnProperty (e : NotAFunction) (names : List String) (propertyName : String) :
    Except NotAFunction Bool :=
  if "hasOwnProperty" ∈ names then .error e else .ok (decide (propertyName ∈ names))

/-- The loop over the properties of `dl`; `eq` compares their values. -/
def compareProperties (eq : String → Value → Except NotAFunction Bool) (dl : List String)
    (dr : List String) (drValue : String → Value) : List String → Except NotAFunction Bool
  | [] => .ok true
  | propertyName :: names => do
    if !(← hasOwnProperty .dlHasOwnProperty dl propertyName) then
      compareProperties eq dl dr drValue names
    else if !(← hasOwnProperty .drHasOwnProperty dr propertyName) then pure false
    else if propertyName = "_id" then compareProperties eq dl dr drValue names
    else if !(← eq propertyName (drValue propertyName)) then pure false
    else compareProperties eq dl dr drValue names

/-- The loop over the properties of `dr`. -/
def noExtras (dl dr : List String) : List String → Except NotAFunction Bool
  | [] => .ok true
  | propertyName :: names => do
    if !(← hasOwnProperty .drHasOwnProperty dr propertyName) then noExtras dl dr names
    else if !(← hasOwnProperty .dlHasOwnProperty dl propertyName) then pure false
    else noExtras dl dr names

def compareDocuments (eq : String → Value → Except NotAFunction Bool) (dl : List String)
    (dr : List String) (drValue : String → Value) : Except NotAFunction Bool := do
  if !(← compareProperties eq dl dr drValue dl) then pure false else noExtras dl dr dr

/-- The loop over the elements of `ar`: the index of the match. -/
def findMatch (eq : Value → Except NotAFunction Bool) (matchedElementsInRight : List ℕ) :
    ℕ → List Value → Except NotAFunction (Option ℕ)
  | _, [] => .ok none
  | i, rightElem :: ar => do
    if i ∈ matchedElementsInRight then findMatch eq matchedElementsInRight (i + 1) ar
    else if ← eq rightElem then pure (some i)
    else findMatch eq matchedElementsInRight (i + 1) ar

/-- The own properties of an object that is not an array, with their values. -/
def documentOf : Value → Option (List String × (String → Value))
  | .object names value => some (names, value)
  | .date _ => some ([], fun _ => .null)
  | _ => none

mutual

def anyEq : Value → Value → Except NotAFunction Bool
  | .array al, right =>
    match right with
    | .array ar => if al.length ≠ ar.length then .ok false else matchElements al ar []
    | _ => .ok false
  | .object dl dlValue, right =>
    match documentOf right with
    | some (dr, drValue) => compareDocuments (fun p v => anyEq (dlValue p) v) dl dr drValue
    | none => .ok false
  | .date _, right =>
    match documentOf right with
    | some (dr, drValue) => compareDocuments (fun _ _ => .ok false) [] dr drValue
    | none => .ok false
  | left, right => .ok (strictEq left right)

/-- The loop over the elements of `al`. -/
def matchElements : List Value → List Value → List ℕ → Except NotAFunction Bool
  | [], _, _ => .ok true
  | leftElem :: al, ar, matchedElementsInRight => do
    match ← findMatch (anyEq leftElem) matchedElementsInRight 0 ar with
    | some i => matchElements al ar (i :: matchedElementsInRight)
    | none => pure false

end

def arrayEq : Value → Value → Except NotAFunction Bool
  | .array al, .array ar => if al.length ≠ ar.length then .ok false else matchElements al ar []
  | _, _ => .ok false

/-- `documentEq` of two objects that are not arrays. -/
def documentEq (dl : List String) (dlValue : String → Value) (dr : List String)
    (drValue : String → Value) : Except NotAFunction Bool :=
  compareDocuments (fun p => anyEq (dlValue p)) dl dr drValue

end Model

/-! ## One loop at a time -/

section Loops

variable {eq : String → Value → Except NotAFunction Bool} {dl dr names : List String}
  {drValue : String → Value}

variable (dl dr) in
/-- Neither object hides the method. -/
def Callable : Prop := "hasOwnProperty" ∉ dl ∧ "hasOwnProperty" ∉ dr

theorem hasOwnProperty_of_not_mem {e : NotAFunction} (h : "hasOwnProperty" ∉ names) (p : String) :
    hasOwnProperty e names p = .ok (decide (p ∈ names)) := if_neg h

theorem hasOwnProperty_of_mem {e : NotAFunction} (h : "hasOwnProperty" ∈ names) (p : String) :
    hasOwnProperty e names p = .error e := if_pos h

theorem compareProperties_cons (h : Callable dl dr) {p : String} (hp : p ∈ dl) :
    compareProperties eq dl dr drValue (p :: names) =
      if p ∈ dr then
        if p = "_id" then compareProperties eq dl dr drValue names
        else eq p (drValue p) >>= fun b =>
          if b = false then .ok false else compareProperties eq dl dr drValue names
      else .ok false := by
  rw [compareProperties, hasOwnProperty_of_not_mem h.1, hasOwnProperty_of_not_mem h.2]
  by_cases hr : p ∈ dr
  · simp [hp, hr]
    rfl
  · simp [hp, hr]
    rfl

theorem noExtras_cons (h : Callable dl dr) {p : String} (hp : p ∈ dr) :
    noExtras dl dr (p :: names) = if p ∉ dl then .ok false else noExtras dl dr names := by
  rw [noExtras, hasOwnProperty_of_not_mem h.1, hasOwnProperty_of_not_mem h.2]
  by_cases hl : p ∈ dl
  · simp [hp, hl]
    rfl
  · simp [hp, hl]
    rfl

variable (eq dr drValue) in
/-- What the first loop checks for a name. -/
def PropertyEq (p : String) : Prop := p ∈ dr ∧ (p ≠ "_id" → eq p (drValue p) = .ok true)

variable (eq drValue) in
theorem compareProperties_eq_true (h : Callable dl dr) (hnames : ∀ p ∈ names, p ∈ dl) :
    compareProperties eq dl dr drValue names = .ok true ↔
      ∀ p ∈ names, PropertyEq eq dr drValue p := by
  induction names with
  | nil => simp [compareProperties]
  | cons p names ih =>
    obtain ⟨hp, hrest⟩ := List.forall_mem_cons.mp hnames
    rw [compareProperties_cons h hp, List.forall_mem_cons, ← ih hrest, PropertyEq]
    by_cases hr : p ∈ dr
    · rw [if_pos hr]
      by_cases hid : p = "_id"
      · rw [if_pos hid, and_iff_right ⟨hr, fun hne => absurd hid hne⟩]
      · rw [if_neg hid, bind_eq_ok]
        simp only [hr, true_and, ne_eq, hid, not_false_eq_true, forall_const]
        constructor
        · rintro ⟨b, hb, h⟩
          cases b with
          | false => cases h
          | true => exact ⟨hb, h⟩
        · exact fun ⟨hb, h⟩ => ⟨true, hb, h⟩
    · simp [hr]

theorem compareProperties_total (h : Callable dl dr) (hnames : ∀ p ∈ names, p ∈ dl)
    (heq : ∀ p ∈ names, p ∈ dr → p ≠ "_id" → ∃ b, eq p (drValue p) = .ok b) :
    ∃ b, compareProperties eq dl dr drValue names = .ok b := by
  induction names with
  | nil => exact ⟨true, rfl⟩
  | cons p names ih =>
    obtain ⟨hp, hrest⟩ := List.forall_mem_cons.mp hnames
    obtain ⟨hpeq, heq⟩ := List.forall_mem_cons.mp heq
    have hgo := ih hrest heq
    rw [compareProperties_cons h hp]
    split_ifs with hr hid
    · exact hgo
    · obtain ⟨b, hb⟩ := hpeq hr hid
      rw [hb]
      cases b with
      | false => exact ⟨false, rfl⟩
      | true => exact hgo
    · exact ⟨false, rfl⟩

theorem noExtras_eq (h : Callable dl dr) (hnames : ∀ p ∈ names, p ∈ dr) :
    noExtras dl dr names = .ok (decide (∀ p ∈ names, p ∈ dl)) := by
  induction names with
  | nil => simp [noExtras]
  | cons p names ih =>
    obtain ⟨hp, hrest⟩ := List.forall_mem_cons.mp hnames
    rw [noExtras_cons h hp, ih hrest]
    by_cases hl : p ∈ dl
    · simp [hl]
    · simp [hl]

variable (eq drValue) in
/-- The method is called on both objects, unless both are empty. -/
theorem compareDocuments_error (h : ¬ Callable dl dr) :
    ∃ e, compareDocuments eq dl dr drValue = .error e := by
  by_cases hl : "hasOwnProperty" ∈ dl
  · cases dl with
    | nil => exact absurd hl List.not_mem_nil
    | cons p dl =>
      refine ⟨.dlHasOwnProperty, ?_⟩
      rw [compareDocuments, compareProperties, hasOwnProperty_of_mem hl]
      rfl
  · have hr : "hasOwnProperty" ∈ dr := by
      by_contra hr
      exact h ⟨hl, hr⟩
    cases dl with
    | nil =>
      cases dr with
      | nil => exact absurd hr List.not_mem_nil
      | cons p dr =>
        refine ⟨.drHasOwnProperty, ?_⟩
        rw [compareDocuments, compareProperties, noExtras, hasOwnProperty_of_mem hr]
        rfl
    | cons p dl =>
      refine ⟨.drHasOwnProperty, ?_⟩
      rw [compareDocuments, compareProperties, hasOwnProperty_of_not_mem hl,
        hasOwnProperty_of_mem hr, decide_eq_true List.mem_cons_self]
      rfl

theorem compareDocuments_eq_true :
    compareDocuments eq dl dr drValue = .ok true ↔
      Callable dl dr ∧ (∀ p, p ∈ dl ↔ p ∈ dr) ∧
        ∀ p ∈ dl, p ≠ "_id" → eq p (drValue p) = .ok true := by
  by_cases h : Callable dl dr
  · have hprops := compareProperties_eq_true eq drValue h fun _ hp => hp
    have hextras := noExtras_eq h fun _ hp => hp
    rw [compareDocuments, hextras, bind_eq_ok]
    constructor
    · rintro ⟨b, hb, hrest⟩
      cases b with
      | false => cases hrest
      | true =>
        have hprops := hprops.mp hb
        have hextras : ∀ p ∈ dr, p ∈ dl := decide_eq_true_iff.mp (Except.ok.inj hrest)
        exact ⟨h, fun p => ⟨fun hp => (hprops p hp).1, hextras p⟩, fun p hp => (hprops p hp).2⟩
    · rintro ⟨-, hnames, hvalues⟩
      refine ⟨true, hprops.mpr fun p hp => ⟨(hnames p).mp hp, hvalues p hp⟩, ?_⟩
      exact congrArg Except.ok (decide_eq_true fun p hp => (hnames p).mpr hp)
  · obtain ⟨e, he⟩ := compareDocuments_error eq drValue h
    rw [he]
    exact iff_of_false (fun h' => by cases h') fun h' => h h'.1

variable (eq drValue) in
theorem compareDocuments_total (h : Callable dl dr)
    (heq : ∀ p ∈ dl, p ∈ dr → p ≠ "_id" → ∃ b, eq p (drValue p) = .ok b) :
    ∃ b, compareDocuments eq dl dr drValue = .ok b := by
  obtain ⟨b, hb⟩ := compareProperties_total h (fun _ hp => hp) heq
  rw [compareDocuments, hb]
  cases b with
  | false => exact ⟨false, rfl⟩
  | true => exact ⟨_, noExtras_eq h fun _ hp => hp⟩

end Loops

/-! ## Equal values -/

section Equal

/-- No object hides the method, except below an `_id`. -/
inductive Plain : Value → Prop
  | null : Plain .null
  | boolean (b : Bool) : Plain (.boolean b)
  | number (x : Js.Number) : Plain (.number x)
  | string (s : String) : Plain (.string s)
  | date (time : ℤ) : Plain (.date time)
  | array {l : List Value} (h : ∀ v ∈ l, Plain v) : Plain (.array l)
  | object {names : List String} {value : String → Value} (h : "hasOwnProperty" ∉ names)
      (hvalue : ∀ p ∈ names, p ≠ "_id" → Plain (value p)) : Plain (.object names value)

/-- The values that are compared by their properties; dates are if `dates` holds. -/
def documentIf (dates : Bool) (v : Value) : Option (List String × (String → Value)) :=
  match v, dates with
  | .date _, false => none
  | v, _ => documentOf v

/-- Equal up to the order of elements and the values of `_id`. Dates are equal if they denote the same
time; if `dates` holds, they are taken for objects without properties. -/
inductive EqualUpTo (dates : Bool) : Value → Value → Prop
  | primitive {v w : Value} (h : strictEq v w = true) : EqualUpTo dates v w
  | date (time : ℤ) : EqualUpTo dates (.date time) (.date time)
  | array {l r : List Value} (σ : Fin l.length ≃ Fin r.length)
      (h : ∀ i, EqualUpTo dates (l.get i) (r.get (σ i))) : EqualUpTo dates (.array l) (.array r)
  | document {v w : Value} {dl dr : List String} {dlValue drValue : String → Value}
      (hv : documentIf dates v = some (dl, dlValue)) (hw : documentIf dates w = some (dr, drValue))
      (hnames : ∀ p, p ∈ dl ↔ p ∈ dr)
      (h : ∀ p ∈ dl, p ≠ "_id" → EqualUpTo dates (dlValue p) (drValue p)) : EqualUpTo dates v w

variable {dates : Bool} {u v w : Value}

theorem documentIf_true : documentIf true v = documentOf v := by
  cases v <;> rfl

/-- A value that is compared by its properties is an object. -/
theorem strictEq_of_document {d : List String × (String → Value)} (h : documentIf dates v = some d) :
    strictEq v w = false ∧ strictEq w v = false := by
  cases v with
  | object names value => cases w <;> exact ⟨rfl, rfl⟩
  | date time => cases w <;> exact ⟨rfl, rfl⟩
  | _ => cases h

theorem strictEq_eq (h : strictEq v w = true) : v = w := by
  cases v <;> cases w <;> simp_all [strictEq]

namespace EqualUpTo

theorem symm (h : EqualUpTo dates v w) : EqualUpTo dates w v := by
  induction h with
  | primitive h =>
    obtain rfl := strictEq_eq h
    exact .primitive h
  | date time => exact .date time
  | @array l r σ _ ih =>
    refine .array σ.symm fun i => ?_
    have hi := ih (σ.symm i)
    rwa [σ.apply_symm_apply] at hi
  | document hv hw hnames _ ih =>
    exact .document hw hv (fun p => (hnames p).symm) fun p hp hid => ih p ((hnames p).mpr hp) hid

theorem trans (h : EqualUpTo dates u v) (h' : EqualUpTo dates v w) : EqualUpTo dates u w := by
  induction h generalizing w with
  | primitive h =>
    rw [strictEq_eq h]
    exact h'
  | date time => exact h'
  | @array l r σ h ih =>
    cases h' with
    | primitive h' => cases h'
    | array σ' h' => exact .array (σ.trans σ') fun i => ih i (h' (σ i))
    | document hv _ _ _ => cases hv
  | @document u v dl dr dlValue drValue hu hv hnames h ih =>
    cases h' with
    | primitive h' =>
      rw [(strictEq_of_document hv).1] at h'
      cases h'
    | date time => exact .document hu hv hnames h
    | array σ' h' => cases hv
    | document hv' hw hnames' h' =>
      cases hv.symm.trans hv'
      exact .document hu hw (fun p => (hnames p).trans (hnames' p)) fun p hp hid =>
        ih p hp hid (h' p ((hnames p).mp hp) hid)

theorem array_left {l : List Value} (h : EqualUpTo dates (.array l) w) :
    ∃ r, w = .array r ∧ ∃ σ : Fin l.length ≃ Fin r.length,
      ∀ i, EqualUpTo dates (l.get i) (r.get (σ i)) := by
  cases h with
  | primitive h => cases h
  | array σ h => exact ⟨_, rfl, σ, h⟩
  | document hv hw hnames h => cases hv

theorem document_left {dl : List String} {dlValue : String → Value}
    (hv : documentIf dates v = some (dl, dlValue)) (h : EqualUpTo dates v w) :
    ∃ dr drValue, documentIf dates w = some (dr, drValue) ∧ (∀ p, p ∈ dl ↔ p ∈ dr) ∧
      ∀ p ∈ dl, p ≠ "_id" → EqualUpTo dates (dlValue p) (drValue p) := by
  cases h with
  | primitive h =>
    rw [(strictEq_of_document hv).1] at h
    cases h
  | date time =>
    cases dates with
    | false => cases hv
    | true =>
      cases hv
      exact ⟨_, _, rfl, fun _ => Iff.rfl, fun p hp => absurd hp List.not_mem_nil⟩
  | array σ h => cases hv
  | document hv' hw hnames h =>
    cases hv.symm.trans hv'
    exact ⟨_, _, hw, hnames, h⟩

end EqualUpTo

end Equal

/-! ## The search for matches -/

section Matches

variable {eq : Value → Except NotAFunction Bool} {Q : Value → Prop} {matched : List ℕ} {i j : ℕ}
  {ar : List Value}

theorem findMatch_cons (v : Value) :
    findMatch eq matched i (v :: ar) =
      if i ∈ matched then findMatch eq matched (i + 1) ar
      else eq v >>= fun b => if b then .ok (some i) else findMatch eq matched (i + 1) ar := by
  rw [findMatch]
  rfl

/-- The match is one. -/
theorem findMatch_eq_some (h : findMatch eq matched i ar = .ok (some j)) :
    j ∉ matched ∧ ∃ k v, j = i + k ∧ ar[k]? = some v ∧ eq v = .ok true := by
  induction ar generalizing i with
  | nil => cases h
  | cons v ar ih =>
    have hgo : findMatch eq matched (i + 1) ar = .ok (some j) →
        j ∉ matched ∧ ∃ k w, j = i + k ∧ (v :: ar)[k]? = some w ∧ eq w = .ok true := by
      intro h
      obtain ⟨hj, k, w, hk, hw, heq⟩ := ih h
      exact ⟨hj, k + 1, w, by omega, hw, heq⟩
    rw [findMatch_cons] at h
    split_ifs at h with hi
    · exact hgo h
    · obtain ⟨b, hb, h⟩ := bind_eq_ok.mp h
      cases b with
      | true =>
        cases h
        exact ⟨hi, 0, v, rfl, rfl, hb⟩
      | false => exact hgo h

variable (matched) in
/-- The search returns, and a position that it could take is not missed. -/
theorem findMatch_total (heq : ∀ v ∈ ar, ∃ b, eq v = .ok b ∧ (b = true ↔ Q v)) :
    ∃ o, findMatch eq matched i ar = .ok o ∧
      ∀ k v, ar[k]? = some v → i + k ∉ matched → Q v → o ≠ none := by
  induction ar generalizing i with
  | nil => exact ⟨none, rfl, fun k v hv => by cases hv⟩
  | cons v ar ih =>
    obtain ⟨⟨b, hb, hQ⟩, hrest⟩ := List.forall_mem_cons.mp heq
    obtain ⟨o, ho, hfound⟩ := ih (i := i + 1) hrest
    rw [findMatch_cons]
    split_ifs with hi
    · refine ⟨o, ho, fun k w hw hk hq => ?_⟩
      cases k with
      | zero => exact absurd hi hk
      | succ k => exact hfound k w hw (by rwa [Nat.add_assoc, Nat.add_comm 1]) hq
    · rw [hb]
      cases b with
      | true => exact ⟨some i, rfl, fun _ _ _ _ _ => Option.some_ne_none i⟩
      | false =>
        refine ⟨o, ho, fun k w hw hk hq => ?_⟩
        cases k with
        | zero =>
          cases hw
          cases hQ.mpr hq
        | succ k => exact hfound k w hw (by rwa [Nat.add_assoc, Nat.add_comm 1]) hq

variable {al : List Value}

theorem matchElements_cons (v : Value) :
    matchElements (v :: al) ar matched =
      findMatch (anyEq v) matched 0 ar >>= fun o =>
        match o with
        | some j => matchElements al ar (j :: matched)
        | none => .ok false := by
  rw [matchElements]
  rfl

/-- **The matches that were found**: every element of `al` has one, at distinct positions. -/
theorem exists_matches (h : matchElements al ar matched = .ok true) :
    ∃ js, Matches (fun v w => anyEq v w = .ok true) al ar js ∧ ∀ j ∈ js, j ∉ matched := by
  induction al generalizing matched with
  | nil => exact ⟨[], ⟨List.nodup_nil, .nil⟩, fun j hj => absurd hj List.not_mem_nil⟩
  | cons v al ih =>
    rw [matchElements_cons] at h
    obtain ⟨o, ho, h⟩ := bind_eq_ok.mp h
    cases o with
    | none => cases h
    | some j =>
      obtain ⟨hj, k, w, rfl, hw, heq⟩ := findMatch_eq_some ho
      rw [Nat.zero_add] at hj h
      obtain ⟨js, hjs, hnew⟩ := ih h
      refine ⟨k :: js, ⟨List.nodup_cons.mpr ⟨fun hmem => ?_, hjs.nodup⟩, .cons ⟨w, hw, heq⟩ hjs.related⟩,
        List.forall_mem_cons.mpr ⟨hj, fun j' hj' => ?_⟩⟩
      · exact hnew k hmem List.mem_cons_self
      · exact fun hmem => hnew j' hj' (List.mem_cons_of_mem _ hmem)

variable (matched) in
/-- **No matching is missed**: the search returns, with `true` if there is a matching that avoids the
positions that are taken. -/
theorem matchElements_total {R : Value → Value → Prop}
    (hR : ∀ a a' b b', R a b → R a' b → R a b' → R a' b')
    (heq : ∀ v ∈ al, ∀ w ∈ ar, ∃ b, anyEq v w = .ok b ∧ (b = true ↔ R v w)) :
    ∃ b, matchElements al ar matched = .ok b ∧
      ∀ js, Matches R al ar js → (∀ j ∈ js, j ∉ matched) → b = true := by
  induction al generalizing matched with
  | nil => exact ⟨true, rfl, fun _ _ _ => rfl⟩
  | cons v al ih =>
    obtain ⟨hv, hrest⟩ := List.forall_mem_cons.mp heq
    obtain ⟨o, ho, hfound⟩ := findMatch_total matched (i := 0) hv
    rw [matchElements_cons, ho]
    cases o with
    | none =>
      refine ⟨false, rfl, fun js hjs hnew => ?_⟩
      cases js with
      | nil => cases hjs.related
      | cons j₀ js =>
        obtain ⟨⟨w, hw, hvw⟩, -⟩ := List.forall₂_cons.mp hjs.related
        have hj₀ := hnew j₀ List.mem_cons_self
        exact absurd rfl (hfound j₀ w hw (by rwa [Nat.zero_add]) hvw)
    | some j =>
      obtain ⟨hj, k, w, rfl, hw, htrue⟩ := findMatch_eq_some ho
      rw [Nat.zero_add] at hj ⊢
      obtain ⟨b, hb, hall⟩ := ih (k :: matched) hrest
      refine ⟨b, hb, fun js hjs hnew => ?_⟩
      cases js with
      | nil => cases hjs.related
      | cons j₀ js =>
        have hvw : R v w := by
          obtain ⟨b', hb', hiff⟩ := hv w (List.mem_of_getElem? hw)
          cases hb'.symm.trans htrue
          exact hiff.mp rfl
        obtain ⟨hexchange, hk⟩ := hjs.exchange hR ⟨w, hw, hvw⟩
        refine hall _ hexchange fun j' hj' => ?_
        rw [List.mem_cons, not_or]
        refine ⟨fun heq => hk (heq ▸ hj'), ?_⟩
        -- the new positions are `k` and those of the old matching
        obtain ⟨j'', hj'', rfl⟩ := List.mem_map.mp hj'
        by_cases hjk : j'' = k
        · rw [hjk, Equiv.swap_apply_left]
          exact hnew j₀ List.mem_cons_self
        · by_cases hjj₀ : j'' = j₀
          · rw [hjj₀, Equiv.swap_apply_right]
            exact hj
          · rw [Equiv.swap_apply_of_ne_of_ne hjk hjj₀]
            exact hnew j'' (List.mem_cons_of_mem _ hj'')

end Matches

/-! ## What the comparison decides -/

section AnyEq

variable {v w : Value}

/-- Induction on the parts of a value: the elements of an array, and the values of properties. -/
theorem Value.induction {P : Value → Prop}
    (h : ∀ v, (∀ l, v = .array l → ∀ a ∈ l, P a) →
      (∀ names value, documentOf v = some (names, value) → ∀ p ∈ names, P (value p)) → P v)
    (v : Value) : P v := by
  have hleaf : ∀ v, (∀ l, v ≠ .array l) → documentOf v = none → P v := fun v harray hdoc =>
    h v (fun l heq => absurd heq (harray l)) fun _ _ hsome => by cases hdoc.symm.trans hsome
  refine @Value.rec P (fun l => ∀ a ∈ l, P a) ?_ (fun b => ?_) (fun x => ?_) (fun s => ?_)
    (fun time => ?_) (fun l hl => ?_) (fun names value hvalue => ?_) ?_ (fun a l ha hl => ?_) v
  · exact hleaf _ (fun _ heq => by cases heq) rfl
  · exact hleaf _ (fun _ heq => by cases heq) rfl
  · exact hleaf _ (fun _ heq => by cases heq) rfl
  · exact hleaf _ (fun _ heq => by cases heq) rfl
  · refine h _ (fun _ heq => by cases heq) fun _ _ hdoc p hp => ?_
    cases hdoc
    exact absurd hp List.not_mem_nil
  · refine h _ (fun l' heq => ?_) fun _ _ hdoc => by cases hdoc
    cases heq
    exact hl
  · refine h _ (fun _ heq => by cases heq) fun _ _ hdoc p _ => ?_
    cases hdoc
    exact hvalue p
  · exact fun a ha => absurd ha List.not_mem_nil
  · exact List.forall_mem_cons.mpr ⟨ha, hl⟩

theorem anyEq_array {al ar : List Value} :
    anyEq (.array al) (.array ar) =
      if al.length ≠ ar.length then .ok false else matchElements al ar [] := by
  rw [anyEq]

theorem Plain.of_document {names : List String} {value : String → Value}
    (hdoc : documentOf v = some (names, value)) (h : "hasOwnProperty" ∉ names)
    (hvalue : ∀ p ∈ names, p ≠ "_id" → Plain (value p)) : Plain v := by
  cases v with
  | date time => exact .date time
  | object names value =>
    cases hdoc
    exact .object h hvalue
  | _ => cases hdoc

theorem Plain.document (h : Plain v) {names : List String} {value : String → Value}
    (hdoc : documentOf v = some (names, value)) :
    "hasOwnProperty" ∉ names ∧ ∀ p ∈ names, p ≠ "_id" → Plain (value p) := by
  cases h with
  | date time =>
    cases hdoc
    exact ⟨List.not_mem_nil, fun p hp => absurd hp List.not_mem_nil⟩
  | object h hvalue =>
    cases hdoc
    exact ⟨h, hvalue⟩
  | _ => cases hdoc

/-- Two objects that are not arrays. -/
theorem anyEq_document {dl dr : List String} {dlValue drValue : String → Value}
    (hv : documentOf v = some (dl, dlValue)) (hw : documentOf w = some (dr, drValue)) :
    ∃ eq : String → Value → Except NotAFunction Bool, (∀ p ∈ dl, eq p = anyEq (dlValue p)) ∧
      anyEq v w = compareDocuments eq dl dr drValue := by
  cases v with
  | object names value =>
    cases hv
    exact ⟨fun p => anyEq (dlValue p), fun _ _ => rfl, by simp only [anyEq, hw]⟩
  | date time =>
    cases hv
    exact ⟨fun _ _ => .ok false, fun p hp => absurd hp List.not_mem_nil, by simp only [anyEq, hw]⟩
  | _ => cases hv

theorem anyEq_primitive (harray : ∀ l, v ≠ .array l) (hv : documentOf v = none) :
    anyEq v w = .ok (strictEq v w) := by
  cases v with
  | array l => exact absurd rfl (harray l)
  | date time => cases hv
  | object names value => cases hv
  | _ => simp only [anyEq]

theorem plain_of_strictEq (h : strictEq v w = true) : Plain v := by
  cases v with
  | null => exact .null
  | boolean b => exact .boolean b
  | number x => exact .number x
  | string s => exact .string s
  | _ => cases w <;> cases h

/-- The ways to find two values equal. -/
theorem anyEq_cases (h : anyEq v w = .ok true) :
    strictEq v w = true ∨
    (∃ al ar, v = .array al ∧ w = .array ar ∧ al.length = ar.length ∧
      matchElements al ar [] = .ok true) ∨
    ∃ dl dlValue dr drValue, documentOf v = some (dl, dlValue) ∧
      documentOf w = some (dr, drValue) := by
  cases v with
  | array al =>
    cases w with
    | array ar =>
      rw [anyEq_array] at h
      by_cases hlen : al.length = ar.length
      · rw [if_neg (not_not.mpr hlen)] at h
        exact .inr (.inl ⟨al, ar, rfl, rfl, hlen, h⟩)
      · rw [if_pos hlen] at h
        cases h
    | _ => simp [anyEq] at h
  | object dl dlValue =>
    cases hw : documentOf w with
    | none => simp [anyEq, hw] at h
    | some d => exact .inr (.inr ⟨_, _, d.1, d.2, rfl, rfl⟩)
  | date time =>
    cases hw : documentOf w with
    | none => simp [anyEq, hw] at h
    | some d => exact .inr (.inr ⟨_, _, d.1, d.2, rfl, rfl⟩)
  | _ =>
    simp only [anyEq, Except.ok.injEq] at h
    exact .inl h

/-- **Soundness**: values that are found to be equal are, with dates taken for empty objects. -/
theorem equal_of_anyEq (h : anyEq v w = .ok true) :
    Plain v ∧ Plain w ∧ EqualUpTo true v w := by
  induction v using Value.induction generalizing w with
  | h v harray hdocument =>
    obtain hstrict | ⟨al, ar, rfl, rfl, hlen, hmatch⟩ | ⟨dl, dlValue, dr, drValue, hv, hw⟩ :=
      anyEq_cases h
    · have hplain := plain_of_strictEq hstrict
      exact ⟨hplain, strictEq_eq hstrict ▸ hplain, .primitive hstrict⟩
    · obtain ⟨js, hjs, -⟩ := exists_matches hmatch
      obtain ⟨σ, hσ⟩ := hjs.exists_equiv hlen
      have hall := fun i => harray al rfl (al.get i) (al.get_mem i) (hσ i)
      refine ⟨.array fun a ha => ?_, .array fun b hb => ?_, .array σ fun i => (hall i).2.2⟩
      · obtain ⟨i, rfl⟩ := List.get_of_mem ha
        exact (hall i).1
      · obtain ⟨i, rfl⟩ := List.get_of_mem hb
        have hi := (hall (σ.symm i)).2.1
        rwa [σ.apply_symm_apply] at hi
    · obtain ⟨eq, heq, hanyEq⟩ := anyEq_document hv hw
      rw [hanyEq, compareDocuments_eq_true] at h
      obtain ⟨⟨hl, hr⟩, hnames, hvalues⟩ := h
      have hall : ∀ p ∈ dl, p ≠ "_id" →
          Plain (dlValue p) ∧ Plain (drValue p) ∧ EqualUpTo true (dlValue p) (drValue p) :=
        fun p hp hid => hdocument dl dlValue hv p hp (heq p hp ▸ hvalues p hp hid)
      refine ⟨.of_document hv hl fun p hp hid => (hall p hp hid).1,
        .of_document hw hr fun p hp hid => (hall p ((hnames p).mpr hp) hid).2.1,
        .document (documentIf_true.trans hv) (documentIf_true.trans hw) hnames fun p hp hid =>
          (hall p hp hid).2.2⟩

/-- The function returns `true` if `p` holds, and `false` otherwise. -/
def Returns (r : Except NotAFunction Bool) (p : Prop) : Prop := ∃ b, r = .ok b ∧ (b = true ↔ p)

def Decided (v w : Value) : Prop := Returns (anyEq v w) (EqualUpTo true v w)

theorem Decided.of_total {b : Bool} (h : anyEq v w = .ok b) (hequal : EqualUpTo true v w → b = true) :
    Decided v w :=
  ⟨b, h, fun htrue => (equal_of_anyEq (htrue ▸ h)).2.2, hequal⟩

theorem decided_documents {dl dr : List String} {dlValue drValue : String → Value}
    (hv : documentOf v = some (dl, dlValue)) (hw : documentOf w = some (dr, drValue))
    (hcall : Callable dl dr)
    (hall : ∀ p ∈ dl, p ∈ dr → p ≠ "_id" → Decided (dlValue p) (drValue p)) : Decided v w := by
  obtain ⟨eq, heq, hanyEq⟩ := anyEq_document hv hw
  obtain ⟨b, hb⟩ := compareDocuments_total eq drValue hcall
    fun p hp hp' hid => by
      rw [heq p hp]
      exact (hall p hp hp' hid).imp fun _ h => h.1
  refine Decided.of_total (hanyEq.trans hb) fun hequal => ?_
  obtain ⟨_, _, hw', hnames, hvalues⟩ := hequal.document_left (documentIf_true.trans hv)
  cases (documentIf_true.trans hw).symm.trans hw'
  refine Except.ok.inj (hb.symm.trans (compareDocuments_eq_true.mpr ⟨hcall, hnames, ?_⟩))
  intro p hp hid
  obtain ⟨b', hb', hiff⟩ := hall p hp ((hnames p).mp hp) hid
  rw [heq p hp, hb', hiff.mpr (hvalues p hp hid)]

theorem decided_arrays {al ar : List Value} (hall : ∀ a ∈ al, ∀ b ∈ ar, Decided a b) :
    Decided (.array al) (.array ar) := by
  by_cases hlen : al.length = ar.length
  · obtain ⟨b, hb, hmatch⟩ := matchElements_total []
      (fun a a' b b' hab hab' hab'' => hab'.trans (hab.symm.trans hab'')) hall
    refine Decided.of_total (by rw [anyEq_array, if_neg (not_not.mpr hlen), hb]) fun hequal => ?_
    obtain ⟨_, hr, σ, hσ⟩ := hequal.array_left
    cases hr
    exact hmatch _ (matches_of_equiv hσ) fun _ _ => List.not_mem_nil
  · refine Decided.of_total (by rw [anyEq_array, if_pos hlen]) fun hequal => ?_
    obtain ⟨_, hr, σ, -⟩ := hequal.array_left
    cases hr
    exact absurd (Fin.equiv_iff_eq.mp ⟨σ⟩) hlen

/-- **Completeness**: where no method is hidden, the comparison returns with the right answer. -/
theorem decided_of_plain (hv : Plain v) (hw : Plain w) : Decided v w := by
  induction v using Value.induction generalizing w with
  | h v harray hdocument =>
    cases hdoc : documentOf v with
    | some d =>
      obtain ⟨dl, dlValue⟩ := d
      obtain ⟨hl, hlValue⟩ := hv.document hdoc
      cases hdoc' : documentOf w with
      | some d' =>
        obtain ⟨dr, drValue⟩ := d'
        obtain ⟨hr, hrValue⟩ := hw.document hdoc'
        exact decided_documents hdoc hdoc' ⟨hl, hr⟩ fun p hp hp' hid =>
          hdocument dl dlValue hdoc p hp (hlValue p hp hid) (hrValue p hp' hid)
      | none =>
        have hfalse : anyEq v w = .ok false := by
          cases v with
          | object names value => simp only [anyEq, hdoc']
          | date time => simp only [anyEq, hdoc']
          | _ => cases hdoc
        refine Decided.of_total hfalse fun hequal => ?_
        obtain ⟨_, _, hdoc'', -⟩ := hequal.document_left (documentIf_true.trans hdoc)
        cases (documentIf_true.trans hdoc').symm.trans hdoc''
    | none =>
      cases hv with
      | @array al hal =>
        by_cases hw' : ∃ ar, w = .array ar
        · obtain ⟨ar, rfl⟩ := hw'
          cases hw with
          | array har => exact decided_arrays fun a ha b hb => harray al rfl a ha (hal a ha) (har b hb)
        · have hfalse : anyEq (.array al) w = .ok false := by
            cases w with
            | array ar => exact absurd ⟨ar, rfl⟩ hw'
            | _ => simp only [anyEq]
          exact Decided.of_total hfalse fun hequal => absurd (hequal.array_left.imp fun _ h => h.1) hw'
      | date time => cases hdoc
      | object h hvalue => cases hdoc
      | _ =>
        refine Decided.of_total (anyEq_primitive (fun _ heq => by cases heq) hdoc) fun hequal => ?_
        cases hequal with
        | primitive h => exact h
        | document hv hw hnames h => cases hv

theorem anyEq_eq_true_iff :
    anyEq v w = .ok true ↔ Plain v ∧ Plain w ∧ EqualUpTo true v w := by
  refine ⟨equal_of_anyEq, fun ⟨hv, hw, hequal⟩ => ?_⟩
  obtain ⟨b, hb, hiff⟩ := decided_of_plain hv hw
  rw [hb, hiff.mpr hequal]

example : anyEq (.array [.null, .boolean true]) (.array [.boolean true, .null]) = .ok true := by rfl

/-- **Dates are not compared.** Values that are found to be equal are, except where they only differ in
dates, or in a date and an empty object. -/
theorem anyEq_accepts_iff (v w : Value) :
    (anyEq v w = .ok true → EqualUpTo false v w) ↔
      (Plain v → Plain w → EqualUpTo true v w → EqualUpTo false v w) := by
  rw [anyEq_eq_true_iff]
  exact ⟨fun h hv hw hequal => h ⟨hv, hw, hequal⟩, fun h ⟨hv, hw, hequal⟩ => h hv hw hequal⟩

theorem anyEq_dates :
    anyEq (.date 0) (.date 1) = .ok true ∧ ¬ EqualUpTo false (.date 0) (.date 1) := by
  refine ⟨rfl, fun h => ?_⟩
  cases h with
  | primitive h => cases h
  | document hv hw hnames h => cases hv

end AnyEq

end MongoTests.Aggregation
