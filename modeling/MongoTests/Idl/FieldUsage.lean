import MongoTests.Idl.ParserRefinement
import MongoTests.Lib.Checked

/-!
# Which documents a generated parser accepts

The parser reads each element on its own; what it remembers are the marks: the names that a strict
parser has used, or all names that another one has seen.

* `Runtime.valueOf`, `Runtime.use`: what an element is read as; `Runtime.markOf`: what it marks;
* `parseElement_eq_ok`, `foldlM_parseElement_eq_ok`: one element and all of them;
* `Accepts`, `Runtime.objectOf`: the condition for acceptance, and the object;
* **`parseProtected_eq_ok`**: the parser accepts a document exactly if every element can be read, no
  mark repeats and nothing required is missing.
-/

namespace MongoTests.Idl.Generator

open MongoTests.Lib

variable {V M ε : Type}

namespace Runtime

variable (rt : Runtime V M ε)

/-- The validation of a value, where the assignment makes one. -/
def check (f : Ast.Field) (m : M) : Except (ParseError ε) Unit :=
  if f.validator.isSome && (f.chainedStructField.isSome || !f.array) then call (rt.validate f m)
  else pure ()

/-- The value of a field in the object, or in the chained struct. -/
def put (f : Ast.Field) (m : M) (o : Object M) : Object M :=
  match f.chainedStructField with
  | some outer => o.assign outer (rt.set f m (o.members outer))
  | none => o.assign f.name m

/-- The value of an element for a field, unless the check of its type has it skipped. -/
def valueOf (f : Ast.Field) (v : V) : Except (ParseError ε) (Option M) :=
  if f.array then do
    let items ← call (rt.obj v)
    let ms ← rt.parseValues f 0 items
    rt.check f (rt.vector ms)
    return some (rt.vector ms)
  else do
    if ← rt.typeCheck f v then
      let m ← call (rt.deserialize f v)
      rt.check f m
      return some m
    else return none

/-- The field that an element is used for, with its value; an ignored field has none. -/
def use (d : Ast.Definition) (e : String × V) :
    Except (ParseError ε) (Option (Ast.Field × Option M)) :=
  match d.toStruct.own.find? (·.name = e.1) with
  | none =>
    if d.toStruct.strict && !(d.isCommand && rt.isGenericArgument e.1) then
      throw (.unknownField e.1)
    else return none
  | some f =>
    if f.ignore then return some (f, none)
    else (fun m => m.map fun m => (f, some m)) <$> rt.valueOf f e.2

/-- What an element that can be read is used for. -/
def used (d : Ast.Definition) (e : String × V) : Option (Ast.Field × Option M) :=
  match rt.use d e with
  | .ok u => u
  | .error _ => none

/-- The name that an element marks: that of the field it is used for, or any. -/
def markOf (d : Ast.Definition) (e : String × V) : Option String :=
  if d.toStruct.strict then (rt.used d e).map fun u => u.1.name else some e.1

/-- The object with the value of an element. -/
def advance (d : Ast.Definition) (o : Object M) (e : String × V) : Object M :=
  match rt.used d e with
  | some (f, some m) =>
    rt.put f m (if f.isRequiredSerializerField then o.setHas f.name else o)
  | _ => o

variable {rt} {d : Ast.Definition} {f : Ast.Field} {v : V} {p p' : Progress V M} {e : String × V}

theorem store_eq (f : Ast.Field) (m : M) (o : Object M) :
    rt.store f m o = rt.check f m >>= fun _ => pure (rt.put f m o) := by
  unfold store check put setIn
  cases f.chainedStructField with
  | none => simp
  | some outer => cases f.validator.isSome <;> simp

theorem storeIn_eq_ok {m : M} : rt.storeIn f m p = .ok p' ↔
    rt.check f m = .ok () ∧ p' = { p with object := rt.put f m p.object } := by
  rw [storeIn, store_eq]
  refine (map_eq_ok (f := fun o => { p with object := o })).trans ⟨?_, ?_⟩
  · rintro ⟨o, ho, rfl⟩
    obtain ⟨u, hu, ho⟩ := bind_eq_ok.mp ho
    cases ho
    exact ⟨hu, rfl⟩
  · rintro ⟨hu, rfl⟩
    exact ⟨_, bind_eq_ok.mpr ⟨(), hu, rfl⟩, rfl⟩

/-- What parsing a field does: a value is stored once the field is used. -/
theorem parseField_eq_ok {use : Progress V M → Except (ParseError ε) (Progress V M)} :
    rt.parseField f v use p = .ok p' ↔ (rt.valueOf f v = .ok none ∧ p' = p) ∨
      ∃ m q, rt.valueOf f v = .ok (some m) ∧ use p = .ok q ∧
        p' = { q with object := rt.put f m q.object } := by
  unfold parseField valueOf
  cases f.array with
  | true =>
    constructor
    · intro h
      obtain ⟨q, hq, h⟩ := bind_eq_ok.mp h
      obtain ⟨items, hitems, h⟩ := bind_eq_ok.mp h
      obtain ⟨ms, hms, h⟩ := bind_eq_ok.mp h
      obtain ⟨hcheck, rfl⟩ := storeIn_eq_ok.mp h
      refine .inr ⟨_, q, ?_, hq, rfl⟩
      exact bind_eq_ok.mpr ⟨items, hitems, bind_eq_ok.mpr ⟨ms, hms, bind_eq_ok.mpr ⟨(), hcheck, rfl⟩⟩⟩
    · rintro (⟨h, -⟩ | ⟨m, q, h, hq, rfl⟩)
      · obtain ⟨items, -, h⟩ := bind_eq_ok.mp h
        obtain ⟨ms, -, h⟩ := bind_eq_ok.mp h
        obtain ⟨u, -, h⟩ := bind_eq_ok.mp h
        cases h
      · obtain ⟨items, hitems, h⟩ := bind_eq_ok.mp h
        obtain ⟨ms, hms, h⟩ := bind_eq_ok.mp h
        obtain ⟨u, hu, h⟩ := bind_eq_ok.mp h
        cases h
        exact bind_eq_ok.mpr ⟨q, hq, bind_eq_ok.mpr ⟨items, hitems, bind_eq_ok.mpr ⟨ms, hms,
          storeIn_eq_ok.mpr ⟨hu, rfl⟩⟩⟩⟩
  | false =>
    rw [if_neg Bool.false_ne_true, if_neg Bool.false_ne_true]
    match rt.typeCheck f v with
    | .error e =>
      constructor
      · exact fun h => nomatch h
      · rintro (⟨h, -⟩ | ⟨m, q, h, -⟩)
        · exact nomatch h
        · exact nomatch h
    | .ok false =>
      constructor
      · intro h
        cases h
        exact .inl ⟨rfl, rfl⟩
      · rintro (⟨-, rfl⟩ | ⟨m, q, h, -⟩)
        · rfl
        · exact nomatch h
    | .ok true =>
      show (use p >>= fun q => call (rt.deserialize f v) >>= fun m => rt.storeIn f m q) = .ok p' ↔ _
      have hvalue : ∀ w, (call (rt.deserialize f v) >>= fun m => rt.check f m >>= fun _ =>
          (pure (some m) : Except (ParseError ε) (Option M))) = .ok w ↔
          ∃ m, call (rt.deserialize f v) = .ok m ∧ rt.check f m = .ok () ∧ some m = w := by
        intro w
        rw [bind_eq_ok]
        refine exists_congr fun m => and_congr_right fun _ => ?_
        rw [bind_eq_ok]
        exact ⟨fun ⟨_, hu, h⟩ => ⟨hu, Except.ok.inj h⟩, fun ⟨hu, h⟩ => ⟨(), hu, congrArg _ h⟩⟩
      constructor
      · intro h
        obtain ⟨q, hq, h⟩ := bind_eq_ok.mp h
        obtain ⟨m, hm, h⟩ := bind_eq_ok.mp h
        obtain ⟨hcheck, rfl⟩ := storeIn_eq_ok.mp h
        exact .inr ⟨m, q, (hvalue _).mpr ⟨m, hm, hcheck, rfl⟩, hq, rfl⟩
      · rintro (⟨h, -⟩ | ⟨m, q, h, hq, rfl⟩)
        · obtain ⟨m, -, -, h⟩ := (hvalue _).mp h
          cases h
        · obtain ⟨m', hm, hcheck, h⟩ := (hvalue _).mp h
          cases h
          exact bind_eq_ok.mpr ⟨q, hq, bind_eq_ok.mpr ⟨m, hm, storeIn_eq_ok.mpr ⟨hcheck, rfl⟩⟩⟩

theorem mark_eq_ok {name : String} : (p.mark name : Except (ParseError ε) _) = .ok p' ↔
    name ∉ p.marks ∧ p' = { p with marks := name :: p.marks } := by
  unfold Progress.mark
  by_cases h : name ∈ p.marks
  · rw [if_pos h]
    exact ⟨fun h => (nomatch h), fun h' => absurd h h'.1⟩
  · rw [if_neg h]
    exact ⟨fun h' => ⟨h, (Except.ok.inj h').symm⟩, fun h' => congrArg Except.ok h'.2.symm⟩

/-- The object in which a required field is flagged. -/
def flagged (f : Ast.Field) (o : Object M) : Object M :=
  if f.isRequiredSerializerField then o.setHas f.name else o

theorem use_eq_ok {strict : Bool} {q : Progress V M} :
    (p.use strict f : Except (ParseError ε) _) = .ok q ↔ (strict = true → f.name ∉ p.marks) ∧
      q = { p with
        marks := if strict then f.name :: p.marks else p.marks
        object := flagged f p.object } := by
  have hflag : ∀ p : Progress V M, (if f.isRequiredSerializerField then
      { p with object := p.object.setHas f.name } else p) =
      { p with object := flagged f p.object } := by
    intro p
    unfold flagged
    split_ifs <;> rfl
  unfold Progress.use
  cases strict with
  | false =>
    show (.ok _ : Except (ParseError ε) _) = .ok q ↔ _
    rw [hflag]
    exact ⟨fun h => ⟨fun hs => (nomatch hs), (Except.ok.inj h).symm⟩,
      fun h => congrArg Except.ok h.2.symm⟩
  | true =>
    show (p.mark f.name >>= _) = .ok q ↔ _
    rw [bind_eq_ok]
    constructor
    · rintro ⟨p₁, hp, h⟩
      obtain ⟨hnew, rfl⟩ := mark_eq_ok.mp hp
      refine ⟨fun _ => hnew, ?_⟩
      rw [← Except.ok.inj h, hflag]
      rfl
    · rintro ⟨hnew, rfl⟩
      refine ⟨_, mark_eq_ok.mpr ⟨hnew rfl, rfl⟩, ?_⟩
      rw [hflag]
      rfl

/-- The value of a field that is not ignored. -/
theorem valueOf_of_use (hfind : d.toStruct.own.find? (·.name = e.1) = some f)
    (hignore : f.ignore = false) {u : Option (Ast.Field × Option M)} : rt.use d e = .ok u ↔
      ∃ w, rt.valueOf f e.2 = .ok w ∧ w.map (fun m => (f, some m)) = u := by
  unfold use
  rw [hfind]
  simp only [hignore, Bool.false_eq_true, if_false]
  exact map_eq_ok (f := fun w : Option M => w.map fun m => (f, some m))

/-- Parsing an element, apart from the mark that a parser makes of any name. -/
theorem parseKnown_eq_ok : rt.parseKnown d p e = .ok p' ↔ (∃ u, rt.use d e = .ok u) ∧
    (d.toStruct.strict = true → ∀ name ∈ rt.markOf d e, name ∉ p.marks) ∧
    p' = { p with
      marks := if d.toStruct.strict then (rt.markOf d e).toList ++ p.marks else p.marks
      object := rt.advance d p.object e } := by
  unfold parseKnown
  cases hfind : d.toStruct.own.find? (·.name = e.1) with
  | none =>
    have huse : rt.use d e = if d.toStruct.strict && !(d.isCommand && rt.isGenericArgument e.1) then
        .error (.unknownField e.1) else .ok none := by
      unfold use
      rw [hfind]
      rfl
    dsimp only
    by_cases hunknown : (d.toStruct.strict && !(d.isCommand && rt.isGenericArgument e.1)) = true
    · rw [if_pos hunknown] at huse ⊢
      rw [huse]
      exact ⟨fun h => (nomatch h), fun ⟨⟨_, h⟩, _⟩ => (nomatch h)⟩
    · rw [if_neg hunknown] at huse ⊢
      have hused : rt.used d e = none := by rw [used, huse]
      have hmark : d.toStruct.strict = true → rt.markOf d e = none := fun hs => by
        rw [markOf, hused, if_pos hs]
        rfl
      have hnext : ({ p with
          marks := if d.toStruct.strict then (rt.markOf d e).toList ++ p.marks else p.marks
          object := rt.advance d p.object e } : Progress V M) = p := by
        rw [advance, hused]
        by_cases hs : d.toStruct.strict = true
        · rw [if_pos hs, hmark hs]
          rfl
        · rw [if_neg hs]
      rw [hnext, huse]
      constructor
      · intro h
        refine ⟨⟨none, rfl⟩, fun hs name hname => ?_, (Except.ok.inj h).symm⟩
        rw [hmark hs] at hname
        cases hname
      · rintro ⟨-, -, rfl⟩
        rfl
  | some f =>
    have hname : f.name = e.1 := by
      have hf := List.find?_some hfind
      exact of_decide_eq_true hf
    dsimp only
    cases hignore : f.ignore with
    | true =>
      have huse : rt.use d e = .ok (some (f, none)) := by
        unfold use
        rw [hfind]
        simp only [hignore, if_true]
        rfl
      have hused : rt.used d e = some (f, none) := by rw [used, huse]
      have hadvance : rt.advance d p.object e = p.object := by rw [advance, hused]
      rw [if_pos rfl, hadvance, huse, markOf, hused]
      cases d.toStruct.strict with
      | false => exact ⟨fun h => ⟨⟨_, rfl⟩, fun hs => (nomatch hs), (Except.ok.inj h).symm⟩,
          fun ⟨_, _, h⟩ => congrArg Except.ok h.symm⟩
      | true =>
        rw [if_pos rfl, mark_eq_ok, if_pos rfl, if_pos rfl, ← hname]
        simp
    | false =>
      have huse : ∀ u, rt.use d e = .ok u ↔
          ∃ w, rt.valueOf f e.2 = .ok w ∧ w.map (fun m => (f, some m)) = u :=
        fun u => valueOf_of_use hfind hignore
      rw [if_neg Bool.false_ne_true, parseField_eq_ok]
      constructor
      · rintro (⟨hvalue, rfl⟩ | ⟨m, q, hvalue, hq, rfl⟩)
        · have hu : rt.use d e = .ok none := (huse none).mpr ⟨none, hvalue, rfl⟩
          have hused : rt.used d e = none := by rw [used, hu]
          rw [markOf, hused, advance, hused]
          refine ⟨⟨none, hu⟩, fun hs name hn => ?_, ?_⟩
          · rw [if_pos hs] at hn
            cases hn
          · by_cases hs : d.toStruct.strict = true
            · rw [if_pos hs, if_pos hs]
              rfl
            · rw [if_neg hs]
        · have hu : rt.use d e = .ok (some (f, some m)) := (huse _).mpr ⟨some m, hvalue, rfl⟩
          have hused : rt.used d e = some (f, some m) := by rw [used, hu]
          obtain ⟨hnew, rfl⟩ := use_eq_ok.mp hq
          rw [markOf, hused, advance, hused]
          refine ⟨⟨_, hu⟩, fun hs name hn => ?_, ?_⟩
          · rw [if_pos hs] at hn
            cases hn
            exact hnew hs
          · by_cases hs : d.toStruct.strict = true
            · rw [if_pos hs, if_pos hs, if_pos hs]
              rfl
            · rw [if_neg hs, if_neg hs]
              rfl
      · rintro ⟨⟨u, hu⟩, hnew, rfl⟩
        obtain ⟨w, hvalue, rfl⟩ := (huse u).mp hu
        have hused : rt.used d e = w.map fun m => (f, some m) := by rw [used, hu]
        cases w with
        | none =>
          refine .inl ⟨hvalue, ?_⟩
          rw [markOf, hused, advance, hused]
          by_cases hs : d.toStruct.strict = true
          · rw [if_pos hs, if_pos hs]
            rfl
          · rw [if_neg hs]
            rfl
        | some m =>
          refine .inr ⟨m, _, hvalue, use_eq_ok.mpr ⟨fun hs => hnew hs f.name ?_, rfl⟩, ?_⟩
          · rw [markOf, hused, if_pos hs]
            rfl
          · rw [markOf, hused, advance, hused]
            by_cases hs : d.toStruct.strict = true
            · rw [if_pos hs, if_pos hs, if_pos hs]
              rfl
            · rw [if_neg hs, if_neg hs]
              rfl

/-- **One element**: it can be read, its mark is new, and the object goes on. -/
theorem parseElement_eq_ok (hfirst : d.isCommand = true → p.firstFieldFound = true) :
    rt.parseElement d p e = .ok p' ↔ (∃ u, rt.use d e = .ok u) ∧
      (∀ name ∈ rt.markOf d e, name ∉ p.marks) ∧
      p' = { p with
        marks := (rt.markOf d e).toList ++ p.marks
        object := rt.advance d p.object e } := by
  have hskip : (d.isCommand && !p.firstFieldFound) = false := by
    cases hc : d.isCommand with
    | false => rfl
    | true => rw [hfirst hc]; rfl
  unfold parseElement
  rw [hskip, if_neg Bool.false_ne_true, bind_eq_ok]
  by_cases hs : d.toStruct.strict = true
  · rw [if_pos hs]
    constructor
    · rintro ⟨_, ⟨⟩, h⟩
      rw [parseKnown_eq_ok, if_pos hs] at h
      exact ⟨h.1, h.2.1 hs, h.2.2⟩
    · rintro ⟨hread, hnew, rfl⟩
      refine ⟨p, rfl, parseKnown_eq_ok.mpr ⟨hread, fun _ => hnew, ?_⟩⟩
      rw [if_pos hs]
  · have hmark : rt.markOf d e = some e.1 := if_neg hs
    rw [if_neg hs, hmark]
    constructor
    · rintro ⟨q, hq, h⟩
      obtain ⟨hnew, rfl⟩ := mark_eq_ok.mp hq
      rw [parseKnown_eq_ok, if_neg hs] at h
      refine ⟨h.1, fun name hname => ?_, h.2.2⟩
      cases hname
      exact hnew
    · rintro ⟨hread, hnew, rfl⟩
      refine ⟨_, mark_eq_ok.mpr ⟨hnew e.1 rfl, rfl⟩, parseKnown_eq_ok.mpr ⟨hread, fun h => absurd h hs, ?_⟩⟩
      rw [if_neg hs]
      rfl

/-- **All elements**: each can be read, and no mark repeats. -/
theorem foldlM_parseElement_eq_ok {es : List (String × V)}
    (hfirst : d.isCommand = true → p.firstFieldFound = true) :
    es.foldlM (rt.parseElement d) p = .ok p' ↔ (∀ e ∈ es, ∃ u, rt.use d e = .ok u) ∧
      (es.filterMap (rt.markOf d)).Nodup ∧ (∀ name ∈ es.filterMap (rt.markOf d), name ∉ p.marks) ∧
      p' = { p with
        marks := (es.filterMap (rt.markOf d)).reverse ++ p.marks
        object := es.foldl (rt.advance d) p.object } := by
  induction es generalizing p with
  | nil =>
    simp only [List.foldlM_nil, List.filterMap_nil, List.nodup_nil, List.not_mem_nil,
      false_imp_iff, implies_true, true_and, List.reverse_nil, List.nil_append, List.foldl_nil]
    exact ⟨fun h => (Except.ok.inj h).symm, fun h => congrArg Except.ok h.symm⟩
  | cons e es ih =>
    have hmem : ∀ name, name ∈ (e :: es).filterMap (rt.markOf d) ↔
        name ∈ rt.markOf d e ∨ name ∈ es.filterMap (rt.markOf d) := fun name => by
      rw [List.filterMap_cons]
      cases rt.markOf d e <;> simp [eq_comm]
    have hnodup : ((e :: es).filterMap (rt.markOf d)).Nodup ↔
        (∀ name ∈ rt.markOf d e, name ∉ es.filterMap (rt.markOf d)) ∧
          (es.filterMap (rt.markOf d)).Nodup := by
      rw [List.filterMap_cons]
      cases rt.markOf d e <;> simp
    have hmarks : ∀ q : List String, ((e :: es).filterMap (rt.markOf d)).reverse ++ q =
        (es.filterMap (rt.markOf d)).reverse ++ ((rt.markOf d e).toList ++ q) := fun q => by
      rw [List.filterMap_cons]
      cases rt.markOf d e <;> simp
    have hrest := ih (p := { p with
      marks := (rt.markOf d e).toList ++ p.marks
      object := rt.advance d p.object e }) hfirst
    rw [List.foldlM_cons, bind_eq_ok]
    constructor
    · rintro ⟨q, hq, h⟩
      obtain ⟨hread, hnew, rfl⟩ := (parseElement_eq_ok hfirst).mp hq
      obtain ⟨hreads, hdistinct, hnews, rfl⟩ := hrest.mp h
      refine ⟨List.forall_mem_cons.mpr ⟨hread, hreads⟩, hnodup.mpr ⟨fun name hname hin => ?_,
        hdistinct⟩, fun name hname => ?_, ?_⟩
      · exact hnews name hin (List.mem_append_left _ (Option.mem_toList.mpr hname))
      · obtain hname | hname := (hmem name).mp hname
        · exact hnew name hname
        · exact fun hin => hnews name hname (List.mem_append_right _ hin)
      · rw [hmarks]
        rfl
    · rintro ⟨hreads, hdistinct, hnews, rfl⟩
      obtain ⟨hread, hreads⟩ := List.forall_mem_cons.mp hreads
      obtain ⟨hhead, hdistinct⟩ := hnodup.mp hdistinct
      refine ⟨_, (parseElement_eq_ok hfirst).mpr ⟨hread, fun name hname =>
        hnews name ((hmem name).mpr (.inl hname)), rfl⟩, hrest.mpr ⟨hreads, hdistinct,
        fun name hname hin => ?_, ?_⟩⟩
      · obtain hin | hin := List.mem_append.mp hin
        · exact hhead name (Option.mem_toList.mp hin) hname
        · exact hnews name ((hmem name).mpr (.inr hname)) hin
      · rw [hmarks]
        rfl

/-! ## The document -/

variable (rt)

/-- The elements after that of the command. -/
def elements (d : Ast.Definition) (doc : List (String × V)) : List (String × V) :=
  if d.isCommand then doc.tail else doc

/-- The element of the command, where the parser keeps it. -/
def commandElement (d : Ast.Definition) (doc : List (String × V)) : V :=
  match doc with
  | e :: _ => if d.keepsElement then e.2 else rt.eoo
  | [] => rt.eoo

/-- The names that the elements of a document mark. -/
def marks (d : Ast.Definition) (doc : List (String × V)) : List String :=
  (elements d doc).filterMap (rt.markOf d)

/-- The value of a chained field. -/
def chainedValue (doc : List (String × V)) (f : Ast.Field) : Except (ParseError ε) M := do
  let m ← call (rt.parseChained f doc)
  rt.check f m
  return m

def putChained (doc : List (String × V)) (o : Object M) (f : Ast.Field) : Object M :=
  match rt.chainedValue doc f with
  | .ok m => rt.put f m o
  | .error _ => o

/-- A field that the final check asks for. -/
def asksFor (ms : List String) (f : Ast.Field) : Bool := !f.optional && !f.ignore && f.name ∉ ms

/-- The default is validated where a setter takes it. -/
def checkDefault (d : Ast.Definition) (f : Ast.Field) : Except (ParseError ε) Unit :=
  if d.toStruct.strict && f.chainedStructField.isSome && f.validator.isSome then
    call (rt.validate f (rt.default f))
  else pure ()

def putDefault (d : Ast.Definition) (ms : List String) (o : Object M) (f : Ast.Field) : Object M :=
  if asksFor ms f then
    if d.toStruct.strict then rt.put f (rt.default f) o else o.assign f.name (rt.default f)
  else o

/-- The object with the elements, the chained fields and the defaults. -/
def objectOf (d : Ast.Definition) (doc : List (String × V)) : Object M :=
  d.toStruct.own.foldl (rt.putDefault d (rt.marks d doc))
    (d.toStruct.parsedAfter.foldl (rt.putChained doc) ((elements d doc).foldl (rt.advance d) {}))

/-- The object with the value of the command element. -/
def commandObject (d : Ast.Definition) (v : V) (o : Object M) : Except (ParseError ε) (Object M) :=
  match d.commandField with
  | some f => (fun w => w.elim o fun m => rt.put f m o) <$> rt.valueOf f v
  | none =>
    if d.isCommand && d.keepsElement then
      (fun m => { o with nss := some m }) <$> call (rt.parseNamespace (o.members "$db") v)
    else pure o

/-- The condition for a document, apart from the command element. -/
structure Accepts (d : Ast.Definition) (doc : List (String × V)) : Prop where
  /-- Every element can be read. -/
  read : ∀ e ∈ elements d doc, ∃ u, rt.use d e = .ok u
  once : (rt.marks d doc).Nodup
  chained : ∀ f ∈ d.toStruct.parsedAfter, ∃ m, rt.chainedValue doc f = .ok m
  complete : ∀ f ∈ d.toStruct.own, asksFor (rt.marks d doc) f = true →
    f.hasDefault = true ∧ rt.checkDefault d f = .ok ()

variable {rt}

theorem foldlM_document_eq_ok {doc : List (String × V)} :
    doc.foldlM (rt.parseElement d) { commandElement := rt.eoo } = .ok p ↔
      (∀ e ∈ elements d doc, ∃ u, rt.use d e = .ok u) ∧ (rt.marks d doc).Nodup ∧
      p = {
        commandElement := if d.isCommand then rt.commandElement d doc else rt.eoo
        firstFieldFound := d.isCommand && !doc.isEmpty
        marks := (rt.marks d doc).reverse
        object := (elements d doc).foldl (rt.advance d) {} } := by
  unfold marks elements
  cases hc : d.isCommand with
  | false =>
    have hfirst : d.isCommand = true → ({ commandElement := rt.eoo } : Progress V M).firstFieldFound =
        true := fun h => by
      rw [hc] at h
      cases h
    have h : doc.foldlM (rt.parseElement d) _ = .ok p ↔ _ := foldlM_parseElement_eq_ok hfirst
    simpa using h
  | true =>
    cases doc with
    | nil => simp [commandElement, pure, Except.pure, eq_comm]
    | cons e es =>
      have hstep : rt.parseElement d { commandElement := rt.eoo } e = .ok {
          commandElement := rt.commandElement d (e :: es)
          firstFieldFound := true } := by
        unfold parseElement
        rw [hc]
        rfl
      have hfirst : d.isCommand = true → ({
          commandElement := rt.commandElement d (e :: es)
          firstFieldFound := true } : Progress V M).firstFieldFound = true := fun _ => rfl
      have h : es.foldlM (rt.parseElement d) _ = .ok p ↔ _ := foldlM_parseElement_eq_ok hfirst
      rw [List.foldlM_cons, hstep]
      show es.foldlM (rt.parseElement d) _ = .ok p ↔ _
      simpa using h

theorem foldlM_parseAfter_eq_ok {doc : List (String × V)} {fs : List Ast.Field} :
    fs.foldlM (rt.parseAfter doc) p = .ok p' ↔ (∀ f ∈ fs, ∃ m, rt.chainedValue doc f = .ok m) ∧
      p' = { p with object := fs.foldl (rt.putChained doc) p.object } := by
  have hstep : ∀ p : Progress V M, ∀ f, rt.parseAfter doc p f =
      (fun m => { p with object := rt.put f m p.object }) <$> rt.chainedValue doc f := by
    intro p f
    unfold parseAfter chainedValue storeIn
    simp only [store_eq]
    cases call (ε := ε) (rt.parseChained f doc) with
    | error e => rfl
    | ok m =>
      show (_ <$> (rt.check f m >>= _)) = _ <$> (rt.check f m >>= _)
      cases rt.check f m <;> rfl
  induction fs generalizing p with
  | nil =>
    constructor
    · intro h
      exact ⟨fun _ h => (nomatch h), (Except.ok.inj h).symm⟩
    · rintro ⟨-, rfl⟩
      rfl
  | cons f fs ih =>
    rw [List.foldlM_cons, hstep, List.forall_mem_cons, List.foldl_cons, putChained]
    cases hv : rt.chainedValue doc f with
    | error e => exact ⟨fun h => (nomatch h), fun ⟨⟨⟨_, h⟩, _⟩, _⟩ => (nomatch h)⟩
    | ok m =>
      refine (ih (p := { p with object := rt.put f m p.object })).trans ?_
      exact and_congr_left fun _ => ⟨fun h => ⟨⟨m, rfl⟩, h⟩, fun h => h.2⟩

theorem setDefault_eq (o : Object M) : rt.setDefault d f o =
    (fun _ => if d.toStruct.strict then rt.put f (rt.default f) o
      else o.assign f.name (rt.default f)) <$> rt.checkDefault d f := by
  unfold setDefault checkDefault put setIn
  cases d.toStruct.strict with
  | false => rfl
  | true =>
    cases f.chainedStructField with
    | none => rfl
    | some outer => cases f.validator <;> rfl

theorem checkField_eq : rt.checkField d p f =
    if asksFor p.marks f then
      if f.hasDefault then
        (fun _ => { p with object := rt.putDefault d p.marks p.object f }) <$> rt.checkDefault d f
      else .error (.missingField f.name)
    else .ok p := by
  have hasks : (f.optional || f.ignore || decide (f.name ∈ p.marks)) = !asksFor p.marks f := by
    unfold asksFor
    cases f.optional <;> cases f.ignore <;> simp
  unfold checkField putDefault
  rw [hasks, setDefault_eq]
  cases asksFor p.marks f with
  | false => rfl
  | true =>
    cases f.hasDefault with
    | false => rfl
    | true => cases rt.checkDefault d f <;> rfl

theorem foldlM_checkField_eq_ok {fs : List Ast.Field} :
    fs.foldlM (rt.checkField d) p = .ok p' ↔
      (∀ f ∈ fs, asksFor p.marks f = true → f.hasDefault = true ∧ rt.checkDefault d f = .ok ()) ∧
      p' = { p with object := fs.foldl (rt.putDefault d p.marks) p.object } := by
  induction fs generalizing p with
  | nil =>
    constructor
    · intro h
      exact ⟨fun _ h => (nomatch h), (Except.ok.inj h).symm⟩
    · rintro ⟨-, rfl⟩
      rfl
  | cons f fs ih =>
    rw [List.foldlM_cons, checkField_eq, List.forall_mem_cons, List.foldl_cons]
    cases ha : asksFor p.marks f with
    | false =>
      have hput : rt.putDefault d p.marks p.object f = p.object := by
        rw [putDefault, ha]
        rfl
      rw [hput]
      refine (ih (p := p)).trans (and_congr_left fun _ => ?_)
      exact ⟨fun h => ⟨fun h => (nomatch h), h⟩, fun h => h.2⟩
    | true =>
      cases hd : f.hasDefault with
      | false => exact ⟨fun h => (nomatch h), fun h => nomatch (h.1.1 rfl).1⟩
      | true =>
        cases hv : rt.checkDefault d f with
        | error e => exact ⟨fun h => (nomatch h), fun h => nomatch (h.1.1 rfl).2⟩
        | ok u =>
          refine (ih (p := { p with object := rt.putDefault d p.marks p.object f })).trans ?_
          exact and_congr_left fun _ => ⟨fun h => ⟨fun _ => ⟨rfl, rfl⟩, h⟩, fun h => h.2⟩

theorem parseCommand_eq_ok : rt.parseCommand d p = .ok p' ↔
    ∃ o, rt.commandObject d p.commandElement p.object = .ok o ∧ p' = { p with object := o } := by
  unfold parseCommand commandObject
  cases d.commandField with
  | none =>
    dsimp only
    split_ifs
    · cases call (ε := ε) (rt.parseNamespace (p.object.members "$db") p.commandElement) with
      | error e => exact ⟨fun h => (nomatch h), fun ⟨_, h, _⟩ => (nomatch h)⟩
      | ok m =>
        refine ⟨fun h => ⟨_, rfl, (Except.ok.inj h).symm⟩, ?_⟩
        rintro ⟨_, ⟨⟩, rfl⟩
        rfl
    · refine ⟨fun h => ⟨_, rfl, (Except.ok.inj h).symm⟩, ?_⟩
      rintro ⟨_, ⟨⟩, rfl⟩
      rfl
  | some f =>
    have hobject : ∀ o, (fun w : Option M => w.elim p.object fun m => rt.put f m p.object) <$>
        rt.valueOf f p.commandElement = .ok o ↔ ∃ w, rt.valueOf f p.commandElement = .ok w ∧
          w.elim p.object (fun m => rt.put f m p.object) = o := fun o => map_eq_ok
    dsimp only
    rw [parseField_eq_ok]
    constructor
    · rintro (⟨hvalue, rfl⟩ | ⟨m, q, hvalue, hq, rfl⟩)
      · exact ⟨_, (hobject _).mpr ⟨none, hvalue, rfl⟩, rfl⟩
      · cases hq
        exact ⟨_, (hobject _).mpr ⟨some m, hvalue, rfl⟩, rfl⟩
    · rintro ⟨o, ho, rfl⟩
      obtain ⟨w, hvalue, rfl⟩ := (hobject o).mp ho
      cases w with
      | none => exact .inl ⟨hvalue, rfl⟩
      | some m => exact .inr ⟨m, p, hvalue, rfl, rfl⟩

/-- **Which documents the generated parser accepts**: every element can be read, no name is marked
twice, the chained fields can be read and nothing required is missing; the command element comes
last. -/
theorem parseProtected_eq_ok (h : d.Bound) {doc : List (String × V)} {o : Object M} :
    rt.parseProtected d doc = .ok o ↔ rt.Accepts d doc ∧
      rt.commandObject d (rt.commandElement d doc) (rt.objectOf d doc) = .ok o := by
  have helement : (if d.isCommand then rt.commandElement d doc else rt.eoo) =
      rt.commandElement d doc := by
    cases d with
    | command c => rfl
    | struct s => cases doc <;> rfl
  have hasks : asksFor (rt.marks d doc).reverse = asksFor (rt.marks d doc) := by
    funext f
    simp [asksFor]
  have hput : rt.putDefault d (rt.marks d doc).reverse = rt.putDefault d (rt.marks d doc) := by
    funext o f
    rw [putDefault, putDefault, hasks]
  rw [parseProtected, Related.map_eq (related_parseDocument h doc)]
  refine (map_eq_ok (f := Progress.object)).trans ?_
  constructor
  · rintro ⟨p, hp, rfl⟩
    obtain ⟨p₁, h₁, hp⟩ := bind_eq_ok.mp hp
    obtain ⟨p₂, h₂, hp⟩ := bind_eq_ok.mp hp
    obtain ⟨p₃, h₃, hp⟩ := bind_eq_ok.mp hp
    obtain ⟨hread, honce, rfl⟩ := foldlM_document_eq_ok.mp h₁
    obtain ⟨hchained, rfl⟩ := foldlM_parseAfter_eq_ok.mp h₂
    obtain ⟨hcomplete, rfl⟩ := foldlM_checkField_eq_ok.mp h₃
    obtain ⟨o, ho, rfl⟩ := parseCommand_eq_ok.mp hp
    simp only [hasks, hput, helement] at hcomplete ho
    exact ⟨⟨hread, honce, hchained, hcomplete⟩, ho⟩
  · rintro ⟨haccepts, ho⟩
    refine ⟨_, bind_eq_ok.mpr ⟨_, foldlM_document_eq_ok.mpr ⟨haccepts.read, haccepts.once, rfl⟩,
      bind_eq_ok.mpr ⟨_, foldlM_parseAfter_eq_ok.mpr ⟨haccepts.chained, rfl⟩,
      bind_eq_ok.mpr ⟨_, foldlM_checkField_eq_ok.mpr ⟨?_, rfl⟩,
      parseCommand_eq_ok.mpr ⟨o, ?_, rfl⟩⟩⟩⟩, rfl⟩
    · simp only [hasks]
      exact haccepts.complete
    · simp only [hput, helement]
      exact ho

end Runtime

end MongoTests.Idl.Generator
