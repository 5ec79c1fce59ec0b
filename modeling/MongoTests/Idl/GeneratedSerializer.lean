import MongoTests.Idl.FieldCheckers
import Mathlib.Data.List.Flatten
import Mathlib.Data.List.Nodup

/-!
# The generated serializers

What the generated serializer of a struct appends, and the way back through the parser.

* `Writer`: what the serializer takes from elsewhere; `Writer.genSerializerMethodsCommon`: the
  elements, if the flags of the required fields are set;
* `Serializable`: objects whose values can be written and read back one by one;
* `parseValues_numbered`, `use_of_written`: an array and an element are read as they were written;
* `filter_flatMap_eq`, `members_foldl`: the elements of a chained field, and the members after a loop;
* **`parse_serialize`**: the parser gives back every object that has been serialized.
-/

namespace MongoTests.Idl.Generator

open MongoTests.Lib

variable {V M ε : Type}

/-- What the serializer takes from elsewhere. -/
structure Writer (V M : Type) where
  /-- The value of a field, or of an element of its array. -/
  serialize : Ast.Field → M → V
  items : M → List M
  /-- The array with the numbered elements. -/
  array : List (String × V) → V
  /-- What the serializer of a chained field appends. -/
  serializeChained : Ast.Field → M → List (String × V)
  /-- The value of a member after the constructor. -/
  initial : Ast.Field → M

/-- The fields that the serializer writes. -/
def isSerialized (f : Ast.Field) : Bool :=
  !f.ignore && f.chainedStructField.isNone && !f.serializeOpMsgRequestOnly

/-- The elements of a `BSONArrayBuilder`, numbered from the start. -/
def numbered (n : ℕ) : List V → List (String × V)
  | [] => []
  | v :: vs => (toString n, v) :: numbered (n + 1) vs

namespace Writer

variable (wr : Writer V M)

/-- The value of the member; an optional one may have none. -/
def member (o : Object M) (f : Ast.Field) : Option M :=
  match o.members f.name with
  | some m => some m
  | none => if f.optional then none else some (wr.initial f)

/-- `_gen_serializer_method_common`: what is appended for a field. -/
def serializeField (o : Object M) (f : Ast.Field) : List (String × V) :=
  match wr.member o f with
  | none => []
  | some m =>
    if f.chained then wr.serializeChained f m
    else if f.array then [(f.name, wr.array (numbered 0 ((wr.items m).map (wr.serialize f))))]
    else [(f.name, wr.serialize f m)]

/-- `_gen_serializer_methods_common` for a struct: the invariant, and the fields in order. -/
def genSerializerMethodsCommon (s : Ast.Struct) (o : Object M) : Option (List (String × V)) :=
  if (s.fields.filter Ast.Field.isRequiredSerializerField).all fun f => o.has f.name then
    some ((s.fields.filter isSerialized).flatMap (wr.serializeField o))
  else none

end Writer

/-- The names that the serializer of a field may write. -/
def writtenNames (chainedNames : Ast.Field → List String) (f : Ast.Field) : List String :=
  if f.chained then chainedNames f else [f.name]

/-- The value of a field of the own document. -/
def Writer.written (wr : Writer V M) (f : Ast.Field) (m : M) : V :=
  if f.array then wr.array (numbered 0 ((wr.items m).map (wr.serialize f))) else wr.serialize f m

/-- An object that can be written and read back part by part, where `chainedNames` are the names
that a chained field reads and writes. -/
structure Serializable (rt : Runtime V M ε) (wr : Writer V M)
    (chainedNames : Ast.Field → List String) (s : Ast.Struct) (o : Object M) : Prop where
  nss : o.nss = none
  flags : ∀ name, o.has name = true ↔
    ∃ f ∈ s.fields, f.isRequiredSerializerField = true ∧ f.name = name
  members : ∀ name m, o.members name = some m →
    ∃ f ∈ s.fields, isSerialized f = true ∧ f.name = name
  present : ∀ f ∈ s.fields, isSerialized f = true → f.optional = false →
    ∃ m, o.members f.name = some m
  /-- A value is read as it has been written. -/
  value : ∀ f ∈ s.own, f.array = false → ∀ m, o.members f.name = some m →
    rt.typeCheck f (wr.serialize f m) = .ok true ∧
      rt.deserialize f (wr.serialize f m) = .ok m ∧ rt.check f m = .ok ()
  array : ∀ f ∈ s.own, f.array = true → ∀ m, o.members f.name = some m →
    rt.vector (wr.items m) = m ∧ (wr.items m).length ≤ 2 ^ 32 ∧ rt.check f m = .ok () ∧
      ∀ i ∈ wr.items m, rt.typeCheck f (wr.serialize f i) = .ok true ∧
        rt.deserialize f (wr.serialize f i) = .ok i
  obj : ∀ es, rt.obj (wr.array es) = .ok es
  number : ∀ n < 2 ^ 32, rt.numberParser (toString n) = some n
  /-- The names in a document are different. -/
  names : ((s.fields.filter isSerialized).flatMap (writtenNames chainedNames)).Nodup
  /-- A chained field reads its own elements, wherever they stand. -/
  chained : ∀ f ∈ s.fields, f.chained = true → ∃ m, o.members f.name = some m ∧
    ((wr.serializeChained f m).map Prod.fst).Sublist (chainedNames f) ∧
      ∀ doc : List (String × V), (doc.map Prod.fst).Nodup →
        (doc.filter fun e => e.1 ∈ chainedNames f) = wr.serializeChained f m →
        rt.chainedValue doc f = .ok m
  /-- Its names are those of ignored fields, or unknown to a struct that is not strict. -/
  chainedKnown : ∀ f ∈ s.fields, f.chained = true → ∀ name ∈ chainedNames f,
    (∃ g ∈ s.own, g.name = name ∧ g.ignore = true) ∨
      s.strict = false ∧ name ∉ s.own.map (·.name)

/-! ## Lists of parts -/

/-- The part of an element, by its key. -/
theorem filter_flatMap_eq {α β κ : Type} [DecidableEq κ] {l : List α} {part : α → List β}
    {key : β → κ} {keys : α → List κ} (hkeys : ∀ a ∈ l, ∀ b ∈ part a, key b ∈ keys a)
    (hnodup : (l.flatMap keys).Nodup) {a : α} (ha : a ∈ l) :
    ((l.flatMap part).filter fun b => key b ∈ keys a) = part a := by
  have hother : ∀ l : List α, (∀ c ∈ l, ∀ b ∈ part c, key b ∈ keys c) →
      (∀ c ∈ l, (keys a).Disjoint (keys c)) →
      ((l.flatMap part).filter fun b => key b ∈ keys a) = [] := by
    intro l hkeys hdisjoint
    refine List.filter_eq_nil_iff.mpr fun b hb hin => ?_
    obtain ⟨c, hc, hb⟩ := List.mem_flatMap.mp hb
    exact hdisjoint c hc (of_decide_eq_true hin) (hkeys c hc b hb)
  induction l with
  | nil => cases ha
  | cons c l ih =>
    rw [List.flatMap_cons, List.nodup_append'] at hnodup
    obtain ⟨-, htail, hdisjoint⟩ := hnodup
    rw [List.flatMap_cons, List.filter_append]
    have hkeysTail : ∀ c ∈ l, ∀ b ∈ part c, key b ∈ keys c := fun c hc =>
      hkeys c (List.mem_cons_of_mem _ hc)
    obtain rfl | hmem := List.mem_cons.mp ha
    · have hself : ((part a).filter fun b => key b ∈ keys a) = part a :=
        List.filter_eq_self.mpr fun b hb => decide_eq_true (hkeys a List.mem_cons_self b hb)
      rw [hself, hother l hkeysTail fun c hc k hk hk' =>
        hdisjoint hk (List.mem_flatMap.mpr ⟨c, hc, hk'⟩), List.append_nil]
    · have hfirst : ((part c).filter fun b => key b ∈ keys a) = [] :=
        List.filter_eq_nil_iff.mpr fun b hb hin =>
          hdisjoint (hkeys c List.mem_cons_self b hb)
            (List.mem_flatMap.mpr ⟨a, hmem, of_decide_eq_true hin⟩)
      rw [hfirst, List.nil_append]
      exact ih hkeysTail htail hmem

/-- The keys of the elements that are kept. -/
theorem map_filterMap_sublist {α β κ : Type} {a : α → Option β} {key : α → κ} {keyOf : β → κ}
    (ha : ∀ x p, a x = some p → keyOf p = key x) (l : List α) :
    ((l.filterMap a).map keyOf).Sublist (l.map key) := by
  induction l with
  | nil => exact List.Sublist.slnil
  | cons x l ih =>
    cases hx : a x with
    | none =>
      rw [List.filterMap_cons_none hx, List.map_cons]
      exact ih.cons _
    | some p =>
      rw [List.filterMap_cons_some hx, List.map_cons, List.map_cons, ha x p hx]
      exact ih.cons_cons _

/-- A loop of assignments with different names. -/
theorem members_foldl {α : Type} {g : Object M → α → Object M} {a : α → Option (String × M)}
    {l : List α} (hg : ∀ o, ∀ x ∈ l, (g o x).members = match a x with
      | some (n, m) => Function.update o.members n (some m)
      | none => o.members) (hnodup : ((l.filterMap a).map Prod.fst).Nodup) {o : Object M}
    {name : String} {m : M} :
    (l.foldl g o).members name = some m ↔ (name, m) ∈ l.filterMap a ∨
      name ∉ (l.filterMap a).map Prod.fst ∧ o.members name = some m := by
  induction l generalizing o with
  | nil => simp
  | cons x l ih =>
    have htail := fun o y hy => hg o y (List.mem_cons_of_mem x hy)
    rw [List.foldl_cons]
    cases hx : a x with
    | none =>
      rw [List.filterMap_cons_none hx] at hnodup ⊢
      rw [ih htail hnodup, hg o x List.mem_cons_self, hx]
    | some p =>
      obtain ⟨n, m'⟩ := p
      rw [List.filterMap_cons_some hx] at hnodup ⊢
      rw [List.map_cons, List.nodup_cons] at hnodup
      rw [ih htail hnodup.2, hg o x List.mem_cons_self, hx]
      dsimp only
      by_cases hn : name = n
      · subst hn
        have hnot : ∀ m, (name, m) ∉ l.filterMap a := fun m hm =>
          hnodup.1 (List.mem_map.mpr ⟨_, hm, rfl⟩)
        simp [hnot, hnodup.1, eq_comm]
      · rw [Function.update_of_ne hn]
        simp [hn]

/-! ## Reading what has been written -/

variable {rt : Runtime V M ε} {wr : Writer V M} {chainedNames : Ast.Field → List String}
  {s : Ast.Struct} {o : Object M} {f : Ast.Field} {m : M} {e : String × V}

/-- The elements of an array are read in order. -/
theorem parseValues_numbered (hnumber : ∀ n < 2 ^ 32, rt.numberParser (toString n) = some n)
    {ms : List M} (hread : ∀ i ∈ ms, rt.typeCheck f (wr.serialize f i) = .ok true ∧
      rt.deserialize f (wr.serialize f i) = .ok i) {n : ℕ} (hn : n + ms.length ≤ 2 ^ 32) :
    rt.parseValues f (n % 2 ^ 32) (numbered n (ms.map (wr.serialize f))) = .ok ms := by
  induction ms generalizing n with
  | nil => rfl
  | cons i ms ih =>
    have hlt : n < 2 ^ 32 := by
      rw [List.length_cons] at hn
      omega
    obtain ⟨htype, hvalue⟩ := hread i List.mem_cons_self
    have hrest : rt.parseValues f ((n + 1) % 2 ^ 32)
        (numbered (n + 1) (ms.map (wr.serialize f))) = .ok ms :=
      ih (fun i hi => hread i (List.mem_cons_of_mem _ hi)) (by
        rw [List.length_cons] at hn
        omega)
    rw [List.map_cons, numbered, Runtime.parseValues, Nat.mod_eq_of_lt hlt, hnumber n hlt]
    dsimp only
    rw [if_neg (not_not.mpr rfl), htype, hrest, hvalue]
    rfl

theorem valueOf_written (h : Serializable rt wr chainedNames s o) (hf : f ∈ s.own)
    (hm : o.members f.name = some m) : rt.valueOf f (wr.written f m) = .ok (some m) := by
  unfold Runtime.valueOf Writer.written
  cases harray : f.array with
  | false =>
    obtain ⟨htype, hvalue, hcheck⟩ := h.value f hf harray m hm
    rw [if_neg Bool.false_ne_true, if_neg Bool.false_ne_true, htype, hvalue]
    show (rt.check f m >>= fun _ => _) = _
    rw [hcheck]
    rfl
  | true =>
    obtain ⟨hvector, hlength, hcheck, hitems⟩ := h.array f hf harray m hm
    have hvalues := parseValues_numbered h.number hitems (n := 0) (by omega)
    rw [Nat.zero_mod] at hvalues
    rw [if_pos rfl, if_pos rfl, h.obj]
    show (rt.parseValues f 0 _ >>= fun ms => _) = _
    rw [hvalues]
    show (rt.check f (rt.vector (wr.items m)) >>= fun _ => .ok (some (rt.vector (wr.items m)))) = _
    rw [hvector, hcheck]
    rfl

/-- The elements of a field that is not chained. -/
theorem serializeField_of_own (h : Serializable rt wr chainedNames s o) (hf : f ∈ s.fields)
    (hserialized : isSerialized f = true) (hchained : f.chained = false) :
    wr.serializeField o f = ((o.members f.name).map fun m => (f.name, wr.written f m)).toList := by
  unfold Writer.serializeField Writer.member Writer.written
  cases hm : o.members f.name with
  | none =>
    have hoptional : f.optional = true := by
      by_contra hoptional
      obtain ⟨m, hm'⟩ := h.present f hf hserialized (Bool.eq_false_iff.mpr hoptional)
      rw [hm] at hm'
      cases hm'
    rw [hoptional]
    rfl
  | some m =>
    rw [hchained]
    cases f.array <;> rfl

theorem serializeField_of_chained (h : Serializable rt wr chainedNames s o) (hf : f ∈ s.fields)
    (hchained : f.chained = true) : ∃ m, o.members f.name = some m ∧
      wr.serializeField o f = wr.serializeChained f m := by
  obtain ⟨m, hm, -⟩ := h.chained f hf hchained
  refine ⟨m, hm, ?_⟩
  unfold Writer.serializeField Writer.member
  rw [hm]
  dsimp only
  rw [if_pos hchained]

theorem isSerialized_of_member (hbound : s.Bound) (h : Serializable rt wr chainedNames s o)
    (hf : f ∈ s.fields) (hm : o.members f.name = some m) : isSerialized f = true := by
  obtain ⟨g, hg, hserialized, hname⟩ := h.members f.name m hm
  obtain rfl : g = f := List.inj_on_of_nodup_map hbound.nodup hg hf hname
  exact hserialized

theorem find?_own (hbound : s.Bound) (hf : f ∈ s.own) :
    s.own.find? (·.name = f.name) = some f := by
  obtain ⟨g, hg, hname, hfind⟩ := Runtime.find?_of_known (e := (f.name, ())) ⟨f, hf, rfl⟩
  obtain rfl : g = f := List.inj_on_of_nodup_map hbound.nodup (List.mem_of_mem_filter hg)
    (List.mem_of_mem_filter hf) hname
  exact hfind

/-- An element of the own document is used for its field. -/
theorem use_of_written (hbound : s.Bound) (h : Serializable rt wr chainedNames s o) (hf : f ∈ s.own)
    (hm : o.members f.name = some m) :
    rt.use (.struct s) (f.name, wr.written f m) = .ok (some (f, some m)) := by
  have hserialized := isSerialized_of_member hbound h (List.mem_of_mem_filter hf) hm
  have hignore : f.ignore = false := by
    unfold isSerialized at hserialized
    rw [Bool.and_eq_true, Bool.and_eq_true, Bool.not_eq_true'] at hserialized
    exact hserialized.1.1
  exact (Runtime.valueOf_of_use (d := .struct s) (find?_own hbound hf) hignore).mpr
    ⟨some m, valueOf_written h hf hm, rfl⟩

/-- An element of a chained field has no value in the own document. -/
theorem use_of_chained (hbound : s.Bound) (h : Serializable rt wr chainedNames s o)
    (hf : f ∈ s.fields) (hchained : f.chained = true) (he : e.1 ∈ chainedNames f) :
    ∃ u, rt.use (.struct s) e = .ok u ∧ ∀ g m, u ≠ some (g, some m) := by
  obtain ⟨g, hg, hname, hignore⟩ | ⟨hs, hunknown⟩ := h.chainedKnown f hf hchained e.1 he
  · refine ⟨some (g, none), ?_, fun _ _ h => (nomatch h)⟩
    have hfind : (Ast.Definition.struct s).toStruct.own.find? (·.name = e.1) = some g :=
      hname ▸ find?_own hbound hg
    unfold Runtime.use
    rw [hfind]
    dsimp only
    rw [if_pos hignore]
    rfl
  · exact ⟨none, Runtime.use_of_unknown hs hunknown, fun _ _ h => (nomatch h)⟩

/-! ## The document -/

/-- The elements that the serializer appends. -/
def Writer.document (wr : Writer V M) (s : Ast.Struct) (o : Object M) : List (String × V) :=
  (s.fields.filter isSerialized).flatMap (wr.serializeField o)

theorem mem_writtenNames (h : Serializable rt wr chainedNames s o) (hf : f ∈ s.fields)
    (hserialized : isSerialized f = true) :
    ((wr.serializeField o f).map Prod.fst).Sublist (writtenNames chainedNames f) := by
  unfold writtenNames
  cases hchained : f.chained with
  | true =>
    obtain ⟨m, hm, hnames, -⟩ := h.chained f hf hchained
    obtain ⟨m', hm', hfield⟩ := serializeField_of_chained h hf hchained
    obtain rfl : m = m' := Option.some.inj (hm.symm.trans hm')
    rw [hfield]
    exact hnames
  | false =>
    rw [serializeField_of_own h hf hserialized hchained]
    cases o.members f.name with
    | none => exact List.nil_sublist _
    | some m => exact List.Sublist.refl _

theorem nodup_document (h : Serializable rt wr chainedNames s o) :
    ((wr.document s o).map Prod.fst).Nodup := by
  unfold Writer.document
  rw [List.map_flatMap]
  refine h.names.sublist (List.Sublist.flatMap_right _ fun f hf => ?_)
  obtain ⟨hf, hserialized⟩ := List.mem_filter.mp hf
  exact mem_writtenNames h hf hserialized

/-- An element of the document belongs to a field of its own, or to a chained one. -/
theorem use_of_mem_document (hbound : s.Bound) (h : Serializable rt wr chainedNames s o)
    (he : e ∈ wr.document s o) :
    (∃ f ∈ s.own, ∃ m, o.members f.name = some m ∧ e = (f.name, wr.written f m) ∧
      rt.use (.struct s) e = .ok (some (f, some m))) ∨
    ∃ u, rt.use (.struct s) e = .ok u ∧ ∀ g m, u ≠ some (g, some m) := by
  obtain ⟨f, hf, he⟩ := List.mem_flatMap.mp he
  obtain ⟨hf, hserialized⟩ := List.mem_filter.mp hf
  cases hchained : f.chained with
  | true =>
    refine .inr (use_of_chained hbound h hf hchained ?_)
    have hmem := (mem_writtenNames h hf hserialized).subset (List.mem_map_of_mem he)
    rw [writtenNames, if_pos hchained] at hmem
    exact hmem
  | false =>
    have hown : f ∈ s.own := List.mem_filter.mpr ⟨hf, by rw [hchained]; rfl⟩
    rw [serializeField_of_own h hf hserialized hchained, Option.mem_toList,
      Option.map_eq_some_iff] at he
    obtain ⟨m, hm, rfl⟩ := he
    exact .inl ⟨f, hown, m, hm, rfl, use_of_written hbound h hown hm⟩

/-- A field with a value has its element. -/
theorem mem_document (hbound : s.Bound) (h : Serializable rt wr chainedNames s o) (hf : f ∈ s.own)
    (hm : o.members f.name = some m) : (f.name, wr.written f m) ∈ wr.document s o := by
  obtain ⟨hfield, hchained⟩ := List.mem_filter.mp hf
  have hserialized := isSerialized_of_member hbound h hfield hm
  refine List.mem_flatMap.mpr ⟨f, List.mem_filter.mpr ⟨hfield, hserialized⟩, ?_⟩
  rw [serializeField_of_own h hfield hserialized ((Bool.not_eq_true' _).mp hchained), hm]
  exact List.mem_singleton_self _

/-- A chained field reads its own elements again. -/
theorem chainedValue_document (hbound : s.Bound) (h : Serializable rt wr chainedNames s o)
    (hf : f ∈ s.fields) (hchained : f.chained = true) :
    ∃ m, o.members f.name = some m ∧ rt.chainedValue (wr.document s o) f = .ok m := by
  obtain ⟨m, hm, -, hread⟩ := h.chained f hf hchained
  obtain ⟨m', hm', hfield⟩ := serializeField_of_chained h hf hchained
  obtain rfl : m = m' := Option.some.inj (hm.symm.trans hm')
  have hnames : writtenNames chainedNames f = chainedNames f := if_pos hchained
  refine ⟨m, hm, hread _ (nodup_document h) ?_⟩
  rw [← hfield, ← hnames]
  refine filter_flatMap_eq (fun g hg e he => ?_) h.names
    (List.mem_filter.mpr ⟨hf, isSerialized_of_member hbound h hf hm⟩)
  obtain ⟨hg, hserialized⟩ := List.mem_filter.mp hg
  exact (mem_writtenNames h hg hserialized).subset (List.mem_map_of_mem he)

/-! ## The round trip -/

theorem markOf_eq {d : Ast.Definition} {name : String} (h : rt.markOf d e = some name) :
    name = e.1 := by
  unfold Runtime.markOf at h
  split_ifs at h
  · obtain ⟨u, hu, rfl⟩ := Option.map_eq_some_iff.mp h
    exact (Runtime.name_of_use (Runtime.use_of_used hu)).2
  · exact (Option.some.inj h).symm

/-- The member that an element sets. -/
def assigned (rt : Runtime V M ε) (s : Ast.Struct) (e : String × V) : Option (String × M) :=
  match rt.used (.struct s) e with
  | some (f, some m) => some (f.name, m)
  | _ => none

theorem assigned_eq_some {name : String} : assigned rt s e = some (name, m) ↔
    ∃ f, rt.used (.struct s) e = some (f, some m) ∧ f.name = name := by
  unfold assigned
  match rt.used (.struct s) e with
  | none => simp
  | some (f, none) => simp
  | some (f, some m') => simp [and_comm]

theorem members_put (hnone : f.chainedStructField = none) (m : M) (o : Object M) :
    (rt.put f m o).members = Function.update o.members f.name (some m) := by
  unfold Runtime.put
  rw [hnone]
  rfl

theorem members_advance (hnone : ∀ f ∈ s.fields, f.chainedStructField = none) (o : Object M)
    (e : String × V) : (rt.advance (.struct s) o e).members = match assigned rt s e with
      | some (n, m) => Function.update o.members n (some m)
      | none => o.members := by
  unfold Runtime.advance assigned
  match hu : rt.used (.struct s) e with
  | none => rfl
  | some (f, none) => rfl
  | some (f, some m) =>
    have hf : f ∈ s.own := (Runtime.name_of_use (Runtime.use_of_used hu)).1
    dsimp only
    rw [members_put (hnone f (List.mem_of_mem_filter hf))]
    split_ifs <;> rfl

/-- The member that a chained field sets. -/
def assignedChained (rt : Runtime V M ε) (doc : List (String × V)) (f : Ast.Field) :
    Option (String × M) :=
  match rt.chainedValue doc f with
  | .ok m => some (f.name, m)
  | .error _ => none

theorem members_putChained {doc : List (String × V)} (hnone : f.chainedStructField = none)
    (o : Object M) : (rt.putChained doc o f).members = match assignedChained rt doc f with
      | some (n, m) => Function.update o.members n (some m)
      | none => o.members := by
  unfold Runtime.putChained assignedChained
  cases rt.chainedValue doc f with
  | error e => rfl
  | ok m => exact members_put hnone m o

/-- No field is missing, whether it has a default or not. -/
theorem asksFor_document (hbound : s.Bound) (h : Serializable rt wr chainedNames s o)
    (hnone : ∀ f ∈ s.fields, f.chainedStructField = none)
    (hrequest : ∀ f ∈ s.fields, f.serializeOpMsgRequestOnly = false) (hf : f ∈ s.own) :
    Runtime.asksFor (rt.marks (.struct s) (wr.document s o)) f = false := by
  have hfield := List.mem_of_mem_filter hf
  by_contra hasks
  rw [Bool.not_eq_false, Runtime.asksFor, Bool.and_eq_true, Bool.and_eq_true, Bool.not_eq_true',
    Bool.not_eq_true', decide_eq_true_eq] at hasks
  obtain ⟨⟨hoptional, hignore⟩, hmark⟩ := hasks
  have hserialized : isSerialized f = true := by
    unfold isSerialized
    rw [hignore, hnone f hfield, hrequest f hfield]
    rfl
  obtain ⟨m, hm⟩ := h.present f hfield hserialized hoptional
  refine hmark (List.mem_filterMap.mpr ⟨_, mem_document hbound h hf hm, ?_⟩)
  exact Runtime.markOf_of_use (use_of_written hbound h hf hm)

/-- The document is accepted. -/
theorem accepts_document (hbound : s.Bound) (h : Serializable rt wr chainedNames s o)
    (hnone : ∀ f ∈ s.fields, f.chainedStructField = none)
    (hrequest : ∀ f ∈ s.fields, f.serializeOpMsgRequestOnly = false) :
    rt.Accepts (.struct s) (wr.document s o) where
  read := by
    intro e he
    obtain ⟨f, -, m, -, -, huse⟩ | ⟨u, huse, -⟩ := use_of_mem_document hbound h he
    · exact ⟨_, huse⟩
    · exact ⟨u, huse⟩
  once := by
    have hsublist := map_filterMap_sublist (a := rt.markOf (.struct s))
      (fun e name hname => show id name = e.1 from markOf_eq hname) (wr.document s o)
    rw [List.map_id] at hsublist
    exact (nodup_document h).sublist hsublist
  chained := by
    intro f hf
    obtain ⟨hfield, hchained⟩ := List.mem_filter.mp hf
    obtain ⟨m, -, hm⟩ := chainedValue_document hbound h hfield (Bool.and_eq_true_iff.mp hchained).1
    exact ⟨m, hm⟩
  complete := by
    intro f hf hasks
    rw [asksFor_document hbound h hnone hrequest hf] at hasks
    cases hasks

/-- The members that the elements set. -/
theorem assigned_document (hbound : s.Bound) (h : Serializable rt wr chainedNames s o)
    (name : String) : (name, m) ∈ (wr.document s o).filterMap (assigned rt s) ↔
      o.members name = some m ∧ ∃ f ∈ s.own, f.name = name := by
  rw [List.mem_filterMap]
  constructor
  · rintro ⟨e, he, ha⟩
    obtain ⟨f, hused, rfl⟩ := assigned_eq_some.mp ha
    have huse := Runtime.use_of_used hused
    obtain ⟨g, hg, m', hm, -, huse'⟩ | ⟨u, huse', hu⟩ := use_of_mem_document hbound h he
    · rw [huse] at huse'
      cases huse'
      exact ⟨hm, f, hg, rfl⟩
    · rw [huse] at huse'
      cases huse'
      exact absurd rfl (hu f m)
  · rintro ⟨hm, f, hf, rfl⟩
    refine ⟨_, mem_document hbound h hf hm, assigned_eq_some.mpr ⟨f, ?_, rfl⟩⟩
    rw [Runtime.used, use_of_written hbound h hf hm]

/-- The members that the chained fields set. -/
theorem assignedChained_document (hbound : s.Bound) (h : Serializable rt wr chainedNames s o)
    (hinline : s.inlineChainedStructs = false) (name : String) :
    (name, m) ∈ s.parsedAfter.filterMap (assignedChained rt (wr.document s o)) ↔
      o.members name = some m ∧ ∃ f ∈ s.fields, f.chained = true ∧ f.name = name := by
  rw [List.mem_filterMap]
  constructor
  · rintro ⟨f, hf, ha⟩
    obtain ⟨hfield, hchained⟩ := List.mem_filter.mp hf
    obtain ⟨m', hm, hvalue⟩ := chainedValue_document hbound h hfield
      (Bool.and_eq_true_iff.mp hchained).1
    rw [assignedChained, hvalue] at ha
    cases ha
    exact ⟨hm, f, hfield, (Bool.and_eq_true_iff.mp hchained).1, rfl⟩
  · rintro ⟨hm, f, hfield, hchained, rfl⟩
    obtain ⟨m', hm', hvalue⟩ := chainedValue_document hbound h hfield hchained
    obtain rfl : m' = m := Option.some.inj (hm'.symm.trans hm)
    refine ⟨f, List.mem_filter.mpr ⟨hfield, ?_⟩, ?_⟩
    · rw [hchained, hinline, Bool.and_false]
      rfl
    · rw [assignedChained, hvalue]

/-- No default is set. -/
theorem objectOf_document (hbound : s.Bound) (h : Serializable rt wr chainedNames s o)
    (hnone : ∀ f ∈ s.fields, f.chainedStructField = none)
    (hrequest : ∀ f ∈ s.fields, f.serializeOpMsgRequestOnly = false) :
    rt.objectOf (.struct s) (wr.document s o) =
      s.parsedAfter.foldl (rt.putChained (wr.document s o))
        ((wr.document s o).foldl (rt.advance (.struct s)) {}) := by
  refine (Runtime.foldl_congr_of_mem fun o' f hf => ?_).trans
    (Runtime.foldl_unchanged (g := fun o _ => o) (p := id) (fun _ _ => rfl) s.own _)
  rw [Runtime.putDefault, asksFor_document hbound h hnone hrequest hf]
  rfl

theorem nss_put (f : Ast.Field) (m : M) (o : Object M) : (rt.put f m o).nss = o.nss := by
  unfold Runtime.put
  split <;> rfl

theorem nss_advance (o : Object M) (e : String × V) :
    (rt.advance (.struct s) o e).nss = o.nss := by
  unfold Runtime.advance
  split
  · rw [nss_put]
    split_ifs <;> rfl
  · rfl

theorem nss_putChained {doc : List (String × V)} (o : Object M) (f : Ast.Field) :
    (rt.putChained doc o f).nss = o.nss := by
  unfold Runtime.putChained
  split
  · exact nss_put f _ o
  · rfl

/-- The members are those of the object that was written. -/
theorem members_objectOf (hbound : s.Bound) (h : Serializable rt wr chainedNames s o)
    (hinline : s.inlineChainedStructs = false)
    (hnone : ∀ f ∈ s.fields, f.chainedStructField = none) :
    (s.parsedAfter.foldl (rt.putChained (wr.document s o))
      ((wr.document s o).foldl (rt.advance (.struct s)) {})).members = o.members := by
  have hkey : ∀ e : String × V, ∀ p : String × M, assigned rt s e = some p → p.1 = e.1 := by
    rintro e ⟨n, m⟩ ha
    obtain ⟨f, hused, rfl⟩ := assigned_eq_some.mp ha
    exact (Runtime.name_of_use (Runtime.use_of_used hused)).2
  have hchainedKey : ∀ f : Ast.Field, ∀ p : String × M,
      assignedChained rt (wr.document s o) f = some p → p.1 = f.name := by
    intro f p ha
    unfold assignedChained at ha
    split at ha <;> cases ha
    rfl
  have hnodup : (((wr.document s o).filterMap (assigned rt s)).map Prod.fst).Nodup :=
    (nodup_document h).sublist (map_filterMap_sublist hkey _)
  have hchainedNodup :
      ((s.parsedAfter.filterMap (assignedChained rt (wr.document s o))).map Prod.fst).Nodup :=
    hbound.nodup.sublist ((map_filterMap_sublist hchainedKey _).trans (List.filter_sublist.map _))
  funext name
  refine Option.ext fun m => ?_
  rw [members_foldl (l := s.parsedAfter) (g := rt.putChained (wr.document s o))
      (fun o f hf => members_putChained (hnone f (List.mem_of_mem_filter hf)) o) hchainedNodup,
    members_foldl (g := rt.advance (.struct s)) (fun o e _ => members_advance hnone o e) hnodup,
    assigned_document hbound h, assignedChained_document hbound h hinline]
  constructor
  · rintro (⟨hm, -⟩ | ⟨-, ⟨hm, -⟩ | ⟨-, hm⟩⟩)
    · exact hm
    · exact hm
    · cases hm
  · intro hm
    obtain ⟨f, hf, -, rfl⟩ := h.members name m hm
    cases hchained : f.chained with
    | true => exact .inl ⟨hm, f, hf, hchained, rfl⟩
    | false =>
      refine .inr ⟨fun hmem => ?_, .inl ⟨hm, f, List.mem_filter.mpr ⟨hf, by rw [hchained]; rfl⟩, rfl⟩⟩
      obtain ⟨⟨_, m'⟩, hp, rfl⟩ := List.mem_map.mp hmem
      obtain ⟨-, g, hg, hgchained, hname⟩ :=
        (assignedChained_document hbound h hinline _).mp hp
      obtain rfl : g = f := List.inj_on_of_nodup_map hbound.nodup hg hf hname
      rw [hchained] at hgchained
      cases hgchained

/-- The flags are those of the object that was written. -/
theorem has_of_document (hbound : s.Bound) (h : Serializable rt wr chainedNames s o)
    (hrequest : ∀ f ∈ s.fields, f.serializeOpMsgRequestOnly = false) {o' : Object M}
    (hparse : rt.parseProtected (.struct s) (wr.document s o) = .ok o') : o'.has = o.has := by
  funext name
  rw [Bool.eq_iff_iff, Runtime.has_iff (Runtime.bound_struct hbound) hparse, h.flags]
  constructor
  · rintro ⟨e, -, f, m, hused, hrequired, hname⟩
    exact ⟨f, List.mem_of_mem_filter (Runtime.name_of_use (Runtime.use_of_used hused)).1, hrequired, hname⟩
  · rintro ⟨f, hfield, hrequired, rfl⟩
    obtain ⟨hignore, hoptional, -, hchained, hchainedStruct⟩ := Runtime.parts_of_required hrequired
    have hserialized : isSerialized f = true := by
      unfold isSerialized
      rw [hignore, hchainedStruct, hrequest f hfield]
      rfl
    have hf : f ∈ s.own := List.mem_filter.mpr ⟨hfield, by rw [hchained]; rfl⟩
    obtain ⟨m, hm⟩ := h.present f hfield hserialized hoptional
    refine ⟨_, mem_document hbound h hf hm, f, m, ?_, hrequired, rfl⟩
    rw [Runtime.used, use_of_written hbound h hf hm]

/-- **The parser gives back what was written**: an object that can be written and read back part by
part is serialized, and the document is accepted as that object. -/
theorem parse_serialize (hbound : s.Bound) (hinline : s.inlineChainedStructs = false)
    (hnone : ∀ f ∈ s.fields, f.chainedStructField = none)
    (hrequest : ∀ f ∈ s.fields, f.serializeOpMsgRequestOnly = false)
    (h : Serializable rt wr chainedNames s o) :
    ∃ doc, wr.genSerializerMethodsCommon s o = some doc ∧
      rt.parseProtected (.struct s) doc = .ok o := by
  have hinvariant : ((s.fields.filter Ast.Field.isRequiredSerializerField).all
      fun f => o.has f.name) = true := by
    refine List.all_eq_true.mpr fun f hf => (h.flags f.name).mpr ?_
    obtain ⟨hf, hrequired⟩ := List.mem_filter.mp hf
    exact ⟨f, hf, hrequired, rfl⟩
  refine ⟨wr.document s o, if_pos hinvariant, ?_⟩
  have haccepts := accepts_document hbound h hnone hrequest
  have hparse : rt.parseProtected (.struct s) (wr.document s o) =
      .ok (rt.objectOf (.struct s) (wr.document s o)) :=
    (Runtime.parseProtected_eq_ok (Runtime.bound_struct hbound)).mpr ⟨haccepts, rfl⟩
  rw [hparse]
  refine congrArg Except.ok (Object.ext ?_ ?_ ?_)
  · rw [objectOf_document hbound h hnone hrequest]
    exact members_objectOf hbound h hinline hnone
  · exact has_of_document hbound h hrequest hparse
  · rw [objectOf_document hbound h hnone hrequest, h.nss,
      Runtime.foldl_unchanged (p := Object.nss) fun o f => nss_putChained o f,
      Runtime.foldl_unchanged (p := Object.nss) fun o e => nss_advance o e]

/-! ## A sample -/

/-- The sample request with a chained type that reads and writes the element `x`. -/
def sampleChained : Ast.Struct :=
  { Runtime.lax Runtime.sampleRequest with
    fields := { loc := ⟨"sample.idl", 5, 1⟩, name := "tail", chained := true } ::
      Runtime.sampleRequest.fields }

def sampleWriter : Writer Bson (List Bson) where
  serialize _ m := m.headD .null
  items m := m.map fun v => [v]
  array := .document
  serializeChained _ m := match m with
    | [.document es] => es
    | _ => []
  initial _ := []

def sampleObject : Object (List Bson) :=
  ({} : Object (List Bson)).setHas "n" |>.assign "tail" [.document [("x", .number 1)]]
    |>.assign "n" [.number 2] |>.assign "ns" [.number 3, .number 4]

theorem sampleChained_bound : sampleChained.Bound := by
  refine ⟨by decide, by decide, by decide, ?_⟩
  simp [sampleChained, Runtime.lax, Runtime.sampleRequest]

theorem members_sample (name : String) : sampleObject.members name =
    if name = "ns" then some [.number 3, .number 4]
    else if name = "n" then some [.number 2]
    else if name = "tail" then some [.document [("x", .number 1)]] else none := by
  simp only [sampleObject, Object.assign, Object.setHas, Function.update_apply]

theorem serializable_sample :
    Serializable sampleRuntime sampleWriter (fun _ => ["x"]) sampleChained sampleObject where
  nss := rfl
  flags := by
    intro name
    have hhas : sampleObject.has name = true ↔ name = "n" := by
      simp [sampleObject, Object.assign, Object.setHas, Function.update_apply]
    rw [hhas]
    constructor
    · rintro rfl
      exact (by decide : ∃ f ∈ sampleChained.fields, f.isRequiredSerializerField = true ∧
        f.name = "n")
    · rintro ⟨f, hf, hrequired, rfl⟩
      exact (by decide : ∀ f ∈ sampleChained.fields, f.isRequiredSerializerField = true →
        f.name = "n") f hf hrequired
  members := by
    intro name m hm
    rw [members_sample] at hm
    split_ifs at hm with h₁ h₂ h₃
    · subst h₁
      decide
    · subst h₂
      decide
    · subst h₃
      decide
  present := by
    intro f hf hserialized _
    have hname := (by decide : ∀ f ∈ sampleChained.fields, isSerialized f = true →
      f.name = "ns" ∨ f.name = "n" ∨ f.name = "tail") f hf hserialized
    obtain h | h | h := hname <;>
    · rw [h]
      exact ⟨_, rfl⟩
  value := by
    intro f hf harray m hm
    obtain ⟨htype, hvalidator, hname⟩ := (by decide : ∀ f ∈ sampleChained.own, f.array = false →
      bsonTypeCheck f = some (.type "int") ∧ f.validator.isSome = false ∧
        (f.name = "n" ∨ f.name = "old")) f hf harray
    have hcheck : sampleRuntime.check f m = .ok () := by
      unfold Runtime.check
      rw [hvalidator]
      rfl
    obtain h | h := hname
    · rw [h] at hm
      cases hm
      refine ⟨?_, rfl, hcheck⟩
      unfold Runtime.typeCheck
      rw [htype]
      rfl
    · rw [h] at hm
      cases hm
  array := by
    intro f hf harray m hm
    obtain ⟨htype, hvalidator, hname⟩ := (by decide : ∀ f ∈ sampleChained.own, f.array = true →
      bsonTypeCheck f = some (.type "int") ∧ f.validator.isSome = false ∧ f.name = "ns") f hf harray
    rw [hname] at hm
    cases hm
    refine ⟨rfl, by decide, ?_, fun i hi => ?_⟩
    · unfold Runtime.check
      rw [hvalidator]
      rfl
    · obtain rfl | rfl : i = [.number 3] ∨ i = [.number 4] := by simpa [sampleWriter] using hi
      all_goals
        refine ⟨?_, rfl⟩
        unfold Runtime.typeCheck
        rw [htype]
        rfl
  obj _ := rfl
  number n _ := by
    show (if n.repr.toList.all Char.isDigit then some (Nat.ofDigitChars 10 n.repr.toList 0)
      else none) = some n
    rw [Nat.toList_repr, Nat.ofDigitChars_ten_toDigits, if_pos]
    exact List.all_eq_true.mpr fun c hc =>
      Nat.isDigit_of_mem_toDigits (by decide) (by decide) hc
  names := by decide
  chained := by
    intro f hf hchained
    have hname := (by decide : ∀ f ∈ sampleChained.fields, f.chained = true → f.name = "tail" ∧
      f.validator.isSome = false) f hf hchained
    refine ⟨[.document [("x", .number 1)]], by rw [hname.1]; rfl, List.Sublist.refl _, ?_⟩
    intro doc _ hdoc
    unfold Runtime.chainedValue Runtime.check
    rw [hname.2]
    have hread : doc.filter (fun e => e.1 = "x") =
        sampleWriter.serializeChained f [.document [("x", .number 1)]] := by simpa using hdoc
    show Except.ok [Bson.document (doc.filter fun e => e.1 = "x")] = _
    rw [hread]
    rfl
  chainedKnown := by
    intro f _ _ name hname
    rw [List.mem_singleton] at hname
    subst hname
    exact .inr ⟨rfl, by decide⟩

theorem parse_serialize_sample : ∃ doc,
    sampleWriter.genSerializerMethodsCommon sampleChained sampleObject = some doc ∧
      sampleRuntime.parseProtected (.struct sampleChained) doc = .ok sampleObject :=
  parse_serialize sampleChained_bound rfl (by decide) (by decide) serializable_sample

end MongoTests.Idl.Generator
