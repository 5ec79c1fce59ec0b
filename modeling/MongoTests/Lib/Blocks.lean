import MongoTests.Lib.Related
import Mathlib.Data.List.Basic

/-!
# Block-structured code

A small target language for code generators: actions, conditional blocks that chain with `else`,
loops over the items of a collection, and `continue`. The conditions, the actions and the
collections are parameters.

* `Code`, with `++` and `Code.acts`: the actions that occur in the code;
* `Code.WellFormed`: every `else` stands right after a conditional block;
* `branches`: a chain of conditional blocks;
* `Interp`, `exec`: the meaning, in `Except`;
* `exec_append`: the meaning of code that is written part by part;
* **`exec_branches_append`**: a chain runs the first block whose condition holds, or what follows;
* `Refines`: code that refines a computation on another state, with a rule for each construct.
-/

namespace MongoTests.Lib

/-- What opens a block. -/
inductive Head (κ ℓ : Type)
  | cond (c : κ)
  | elseCond (c : κ)
  | otherwise
  | loop (collection : ℓ)
  | scope
  deriving DecidableEq

inductive Code (κ τ ℓ : Type)
  | nil
  | act (a : τ) (rest : Code κ τ ℓ)
  /-- `continue;` -/
  | next (rest : Code κ τ ℓ)
  | block (head : Head κ ℓ) (body rest : Code κ τ ℓ)
  deriving DecidableEq

namespace Code

variable {κ τ ℓ : Type}

def append : Code κ τ ℓ → Code κ τ ℓ → Code κ τ ℓ
  | nil, d => d
  | act a rest, d => act a (rest.append d)
  | next rest, d => next (rest.append d)
  | block h body rest, d => block h body (rest.append d)

instance : Append (Code κ τ ℓ) := ⟨append⟩

def line (a : τ) : Code κ τ ℓ := act a nil

def wrap (h : Head κ ℓ) (body : Code κ τ ℓ) : Code κ τ ℓ := block h body nil

@[simp] theorem nil_append (d : Code κ τ ℓ) : nil ++ d = d := rfl

@[simp] theorem act_append (a : τ) (c d : Code κ τ ℓ) : act a c ++ d = act a (c ++ d) := rfl

@[simp] theorem next_append (c d : Code κ τ ℓ) : next c ++ d = next (c ++ d) := rfl

@[simp] theorem block_append (h : Head κ ℓ) (body c d : Code κ τ ℓ) :
    block h body c ++ d = block h body (c ++ d) := rfl

@[simp] theorem append_nil (c : Code κ τ ℓ) : c ++ nil = c := by
  induction c with
  | nil => rfl
  | act a c ih => rw [act_append, ih]
  | next c ih => rw [next_append, ih]
  | block h body c _ ih => rw [block_append, ih]

theorem append_assoc (c d e : Code κ τ ℓ) : c ++ d ++ e = c ++ (d ++ e) := by
  induction c with
  | nil => rfl
  | act a c ih => rw [act_append, act_append, ih, act_append]
  | next c ih => rw [next_append, next_append, ih, next_append]
  | block h body c _ ih => rw [block_append, block_append, ih, block_append]

/-- A chain of conditional blocks; the first one begins it, or goes on with one. -/
def branches : Bool → List (κ × Code κ τ ℓ) → Code κ τ ℓ
  | _, [] => nil
  | first, b :: bs => block (if first then .cond b.1 else .elseCond b.1) b.2 (branches false bs)

/-- The actions of the code, in any block. -/
def acts : Code κ τ ℓ → List τ
  | nil => []
  | act a rest => a :: rest.acts
  | next rest => rest.acts
  | block _ body rest => body.acts ++ rest.acts

@[simp] theorem acts_append (c d : Code κ τ ℓ) : (c ++ d).acts = c.acts ++ d.acts := by
  induction c with
  | nil => rfl
  | act a c ih => rw [act_append, acts, acts, ih, List.cons_append]
  | next c ih => rw [next_append, acts, acts, ih]
  | block h body c _ ih => rw [block_append, acts, acts, ih, List.append_assoc]

/-- The code is well formed after a conditional block (`true`), or after anything else. -/
def wellFormedAfter : Bool → Code κ τ ℓ → Bool
  | _, nil => true
  | _, act _ rest => rest.wellFormedAfter false
  | _, next rest => rest.wellFormedAfter false
  | _, block (.cond _) body rest => body.wellFormedAfter false && rest.wellFormedAfter true
  | b, block (.elseCond _) body rest => b && body.wellFormedAfter false && rest.wellFormedAfter true
  | b, block .otherwise body rest => b && body.wellFormedAfter false && rest.wellFormedAfter false
  | _, block (.loop _) body rest => body.wellFormedAfter false && rest.wellFormedAfter false
  | _, block .scope body rest => body.wellFormedAfter false && rest.wellFormedAfter false

/-- Every `else` belongs to an `if`. -/
def WellFormed (c : Code κ τ ℓ) : Prop := c.wellFormedAfter false = true

instance (c : Code κ τ ℓ) : Decidable c.WellFormed := inferInstanceAs (Decidable (_ = _))

/-- An `else` may stand after the code. -/
def opensAfter : Bool → Code κ τ ℓ → Bool
  | b, nil => b
  | _, act _ rest => rest.opensAfter false
  | _, next rest => rest.opensAfter false
  | _, block (.cond _) _ rest => rest.opensAfter true
  | _, block (.elseCond _) _ rest => rest.opensAfter true
  | _, block .otherwise _ rest => rest.opensAfter false
  | _, block (.loop _) _ rest => rest.opensAfter false
  | _, block .scope _ rest => rest.opensAfter false

theorem wellFormedAfter_append (c d : Code κ τ ℓ) (b : Bool) :
    (c ++ d).wellFormedAfter b = (c.wellFormedAfter b && d.wellFormedAfter (c.opensAfter b)) := by
  induction c generalizing b with
  | nil => rfl
  | act a c ih => exact ih false
  | next c ih => exact ih false
  | block h body c _ ih =>
    rw [block_append]
    cases h <;> simp only [wellFormedAfter, opensAfter, ih, Bool.and_assoc]

/-- Code that is well formed on its own stands anywhere. -/
theorem wellFormedAfter_of {c : Code κ τ ℓ} (h : c.WellFormed) (b : Bool) :
    c.wellFormedAfter b = true := by
  rw [WellFormed] at h
  cases c with
  | nil => rfl
  | act a c => exact h
  | next c => exact h
  | block head body c =>
    cases head with
    | cond _ => exact h
    | elseCond _ => exact absurd h (by simp [wellFormedAfter])
    | otherwise => exact absurd h (by simp [wellFormedAfter])
    | loop _ => exact h
    | scope => exact h

theorem WellFormed.append {c d : Code κ τ ℓ} (hc : c.WellFormed) (hd : d.WellFormed) :
    (c ++ d).WellFormed := by
  rw [WellFormed, wellFormedAfter_append, hc, wellFormedAfter_of hd, Bool.and_self]

theorem wellFormedAfter_branches {bs : List (κ × Code κ τ ℓ)} (h : ∀ b ∈ bs, b.2.WellFormed)
    (first b : Bool) (hb : first = true ∨ b = true) : (branches first bs).wellFormedAfter b = true := by
  induction bs generalizing first b with
  | nil => rfl
  | cons c bs ih =>
    have hrest := ih (fun c' hc' => h c' (List.mem_cons_of_mem c hc')) false true (.inr rfl)
    have hbody : c.2.wellFormedAfter false = true := h c List.mem_cons_self
    cases first with
    | true => rw [branches, if_pos rfl, wellFormedAfter, hbody, hrest, Bool.and_self]
    | false =>
      rw [branches, if_neg Bool.false_ne_true, wellFormedAfter, hbody, hrest,
        hb.resolve_left Bool.false_ne_true]
      rfl

theorem opensAfter_branches (bs : List (κ × Code κ τ ℓ)) (first b : Bool) :
    (branches first bs).opensAfter b = (b || !bs.isEmpty) := by
  induction bs generalizing first b with
  | nil => exact (Bool.or_false b).symm
  | cons c bs ih => cases first <;> simp [branches, opensAfter, ih]

end Code

/-- How a run of a piece of code ends. -/
inductive Flow
  /-- At its end, where an `else` would run or not. -/
  | next (otherwise : Bool)
  /-- With `continue`. -/
  | continued
  deriving DecidableEq

/-- The meaning of the conditions, of the actions and of the collections that loops go over. -/
structure Interp (κ τ ℓ ι σ ε : Type) where
  test : κ → σ → Except ε Bool
  run : τ → σ → Except ε σ
  /-- The range of a loop, evaluated before the loop. -/
  items : ℓ → σ → Except ε (List ι)
  /-- The loop variable. -/
  enter : ℓ → ι → σ → σ

namespace Interp

variable {κ τ ℓ ι σ ε : Type} (I : Interp κ τ ℓ ι σ ε)

/-- Go on after a piece of code, unless it has ended with `continue`. -/
def resume (k : Bool → σ → Except ε (Flow × σ)) : Flow × σ → Except ε (Flow × σ)
  | (.next o, s) => k o s
  | (.continued, s) => .ok (.continued, s)

/-- **The meaning of code**, where an `else` would run or not. An `else` without an `if` always
runs: `Code.WellFormed` rules it out. -/
def exec : Code κ τ ℓ → Bool → σ → Except ε (Flow × σ)
  | .nil, o, s => .ok (.next o, s)
  | .act a rest, _, s => I.run a s >>= exec rest true
  | .next _, _, s => .ok (.continued, s)
  | .block (.cond c) body rest, _, s => do
    if ← I.test c s then exec body true s >>= resume fun _ => exec rest false else exec rest true s
  | .block (.elseCond c) body rest, o, s =>
    if o then do
      if ← I.test c s then exec body true s >>= resume fun _ => exec rest false
      else exec rest true s
    else exec rest false s
  | .block .otherwise body rest, o, s =>
    if o then exec body true s >>= resume fun _ => exec rest true else exec rest true s
  | .block (.loop l) body rest, _, s =>
    I.items l s >>= fun is =>
      is.foldlM (fun s i => Prod.snd <$> exec body true (I.enter l i s)) s >>= exec rest true
  | .block .scope body rest, _, s => exec body true s >>= resume fun _ => exec rest true

/-- The state at the end of a run. -/
def result (c : Code κ τ ℓ) (s : σ) : Except ε σ := Prod.snd <$> I.exec c true s

variable {I} {c d : Code κ τ ℓ} {s s' : σ} {o : Bool}

theorem bind_ok (r : Except ε σ) : (r >>= Except.ok) = r := by
  cases r <;> rfl

theorem bind_resume {x : Except ε (Flow × σ)} {f g : Bool → σ → Except ε (Flow × σ)} :
    ((x >>= resume f) >>= resume g) = x >>= resume fun o s => f o s >>= resume g := by
  match x with
  | .error e => rfl
  | .ok (.continued, s) => rfl
  | .ok (.next o, s) => rfl

theorem exec_append (c d : Code κ τ ℓ) (o : Bool) (s : σ) :
    I.exec (c ++ d) o s = I.exec c o s >>= resume (I.exec d) := by
  induction c generalizing o s with
  | nil => rfl
  | act a c ih =>
    rw [Code.act_append, exec, exec]
    cases I.run a s with
    | error e => rfl
    | ok s' => exact ih true s'
  | next c _ => rfl
  | block h body c _ ih =>
    rw [Code.block_append]
    have hrest : ∀ o', (fun _ : Bool => I.exec (c ++ d) o') =
        fun _ s => I.exec c o' s >>= resume (I.exec d) := fun o' => funext fun _ => funext (ih o')
    cases h with
    | cond t =>
      rw [exec, exec, hrest]
      match I.test t s with
      | .error e => rfl
      | .ok true => exact bind_resume.symm
      | .ok false => exact ih true s
    | elseCond t =>
      rw [exec, exec, hrest]
      cases o with
      | false => exact ih false s
      | true =>
        match I.test t s with
        | .error e => rfl
        | .ok true => exact bind_resume.symm
        | .ok false => exact ih true s
    | otherwise =>
      rw [exec, exec, hrest]
      cases o with
      | false => exact ih true s
      | true => exact bind_resume.symm
    | loop l =>
      rw [exec, exec]
      cases I.items l s with
      | error e => rfl
      | ok is =>
        show (is.foldlM (fun s i => Prod.snd <$> I.exec body true (I.enter l i s)) s >>= _) =
          (is.foldlM (fun s i => Prod.snd <$> I.exec body true (I.enter l i s)) s >>= _) >>= _
        cases is.foldlM (fun s i => Prod.snd <$> I.exec body true (I.enter l i s)) s with
        | error e => rfl
        | ok s' => exact ih true s'
    | scope =>
      rw [exec, exec, hrest]
      exact bind_resume.symm

/-- A chain that has run one of its blocks is passed. -/
theorem exec_branches_of_taken (bs : List (κ × Code κ τ ℓ)) (d : Code κ τ ℓ) (s : σ) :
    I.exec (Code.branches false bs ++ d) false s = I.exec d false s := by
  induction bs with
  | nil => rfl
  | cons b bs ih => rw [Code.branches, Code.block_append, if_neg Bool.false_ne_true, exec,
      if_neg Bool.false_ne_true, ih]

/-- **A chain of conditions without effects**: the first block whose condition holds, or what
follows the chain, as an `else`. -/
theorem exec_branches_append {p : κ → Bool} (bs : List (κ × Code κ τ ℓ)) (d : Code κ τ ℓ)
    (first : Bool) (hp : ∀ b ∈ bs, I.test b.1 s = .ok (p b.1)) :
    I.exec (Code.branches first bs ++ d) true s =
      match bs.find? fun b => p b.1 with
      | some b => I.exec b.2 true s >>= resume fun _ => I.exec d false
      | none => I.exec d true s := by
  induction bs generalizing first with
  | nil => rfl
  | cons b bs ih =>
    have htest : I.test b.1 s = .ok (p b.1) := hp b List.mem_cons_self
    have hrest := ih false fun b' hb' => hp b' (List.mem_cons_of_mem b hb')
    have htaken : (fun _ : Bool => I.exec (Code.branches false bs ++ d) false) =
        fun _ => I.exec d false := funext fun _ => funext (exec_branches_of_taken bs d)
    rw [Code.branches, Code.block_append, List.find?_cons]
    cases first with
    | true =>
      rw [if_pos rfl, exec, htest, htaken]
      cases p b.1 with
      | true => rfl
      | false => exact hrest
    | false =>
      rw [if_neg Bool.false_ne_true, exec, if_pos rfl, htest, htaken]
      cases p b.1 with
      | true => rfl
      | false => exact hrest

/-! ### Refinement -/

variable {π : Type} {R : σ → π → Prop} {g k u : π → Except ε π} {body : Code κ τ ℓ}

/-- The end of a piece of code, with the state in the relation. -/
def AtEnd (R : σ → π → Prop) (r : Flow × σ) (p : π) : Prop := (∃ o, r.1 = .next o) ∧ R r.2 p

variable (I R) in
/-- The code refines the computation `g`: it raises the same errors, and gets to its end with the
relation restored. -/
def Refines (c : Code κ τ ℓ) (g : π → Except ε π) : Prop :=
  ∀ o s p, R s p → Related (AtEnd R) (I.exec c o s) (g p)

theorem Refines.congr (h : I.Refines R c g) (hg : ∀ p, g p = k p) : I.Refines R c k := by
  rwa [← funext hg]

theorem Refines.nil : I.Refines R .nil .ok := fun o _ _ h => .ok ⟨⟨o, rfl⟩, h⟩

theorem Refines.act {a : τ} (ha : ∀ s p, R s p → Related R (I.run a s) (g p))
    (hc : I.Refines R c k) : I.Refines R (.act a c) fun p => g p >>= k :=
  fun _ s p h => (ha s p h).bind fun s' p' h' => hc true s' p' h'

theorem Refines.line {a : τ} (ha : ∀ s p, R s p → Related R (I.run a s) (g p)) :
    I.Refines R (.line a) g :=
  (Refines.act ha Refines.nil).congr fun p => bind_ok (g p)

/-- Go on with code that refines the rest. -/
theorem Refines.goOn {k : Bool → σ → Except ε (Flow × σ)} {x : Except ε (Flow × σ)}
    {y : Except ε π} (hx : Related (AtEnd R) x y)
    (hk : ∀ o s p, R s p → Related (AtEnd R) (k o s) (g p)) :
    Related (AtEnd R) (x >>= resume k) (y >>= g) := by
  refine hx.bind fun r p h => ?_
  obtain ⟨r, s⟩ := r
  obtain ⟨⟨o, rfl⟩, hs⟩ := h
  exact hk o s p hs

theorem Refines.append (hc : I.Refines R c g) (hd : I.Refines R d k) :
    I.Refines R (c ++ d) fun p => g p >>= k := by
  intro o s p h
  rw [exec_append]
  exact Refines.goOn (hc o s p h) hd

theorem Refines.cond {t : κ} {q : π → Except ε Bool} (ht : ∀ s p, R s p → I.test t s = q p)
    (hbody : I.Refines R body g) (hc : I.Refines R c k) :
    I.Refines R (.block (.cond t) body c) fun p =>
      q p >>= fun b => if b then g p >>= k else k p := by
  intro o s p h
  beta_reduce
  rw [exec, ht s p h]
  match q p with
  | .error e => exact .error e
  | .ok true => exact Refines.goOn (hbody true s p h) fun _ => hc false
  | .ok false => exact hc true s p h

theorem Refines.ifElse {t : κ} {q : π → Except ε Bool} (ht : ∀ s p, R s p → I.test t s = q p)
    (hbody : I.Refines R body g) (hd : I.Refines R d u) (hc : I.Refines R c k) :
    I.Refines R (.block (.cond t) body (.block .otherwise d c)) fun p =>
      q p >>= fun b => (if b then g p else u p) >>= k := by
  intro o s p h
  beta_reduce
  rw [exec, ht s p h]
  match q p with
  | .error e => exact .error e
  | .ok true =>
    refine Refines.goOn (hbody true s p h) fun _ s' p' h' => ?_
    rw [exec, if_neg Bool.false_ne_true]
    exact hc true s' p' h'
  | .ok false =>
    show Related (AtEnd R) (I.exec (.block .otherwise d c) true s) (u p >>= k)
    rw [exec, if_pos rfl]
    exact Refines.goOn (hd true s p h) fun _ => hc true

theorem Refines.scope (hbody : I.Refines R body g) : I.Refines R (.wrap .scope body) g := by
  intro o s p h
  rw [Code.wrap, exec, ← bind_ok (g p)]
  exact Refines.goOn (hbody true s p h) fun _ _ _ h => .ok ⟨⟨true, rfl⟩, h⟩

/-- The state at the end of a run to its end. -/
theorem related_result {y : Except ε π} (h : Related (AtEnd R) (I.exec c true s) y) :
    Related R (I.result c s) y := by
  unfold result
  rw [← id_map y]
  exact h.map fun _ _ hr => hr.2

theorem Refines.result_of (h : I.Refines R c g) {p : π} (hs : R s p) :
    Related R (I.result c s) (g p) :=
  related_result (h true s p hs)

/-- A loop: every round keeps the relation, from the state that its item is entered in. -/
theorem Refines.loop {l : ℓ} {q : π → Except ε (List ι)} {step : π → ι → Except ε π}
    (hitems : ∀ s p, R s p → I.items l s = q p)
    (hbody : ∀ s p i, R s p → Related R (I.result body (I.enter l i s)) (step p i))
    (hc : I.Refines R c k) :
    I.Refines R (.block (.loop l) body c) fun p =>
      q p >>= fun is => is.foldlM step p >>= k := by
  intro o s p h
  beta_reduce
  rw [exec, hitems s p h]
  cases q p with
  | error e => exact .error e
  | ok is =>
    show Related (AtEnd R)
      (is.foldlM (fun s i => I.result body (I.enter l i s)) s >>= I.exec c true)
      (is.foldlM step p >>= k)
    refine Related.bind (Related.foldlM (fun s p i _ h => hbody s p i h) h) fun s' p' h' => ?_
    exact hc true s' p' h'

end Interp

end MongoTests.Lib
