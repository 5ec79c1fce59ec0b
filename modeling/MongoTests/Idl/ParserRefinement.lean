import MongoTests.Idl.GeneratedParser
import MongoTests.Idl.GeneratedNames

/-!
# The generated code refines its parser

Each piece of the generated code does to the store what the parser does to the marks and the object.

* `Frame`: relations of stores and progress; `refines_genFieldDeserializer`: one field;
* `Tracks`: the set or the bits of the store are the marks; `related_loopBody`: one element;
* `refines_finalChecks`: the checks, for the set and for the bits;
* **`parseProtected_eq`**: the generated code is the parser, errors included.
-/

namespace MongoTests.Idl.Generator.Runtime

open MongoTests.Lib

variable {V M ε : Type}

variable {rt : Runtime V M ε} {d : Ast.Definition} {f : Ast.Field} {v : V} {x : Operand}
  {doc : List (String × V)} {R : Store V M → Progress V M → Prop}

/-- A relation of stores and progress that does not see the variables of an array. -/
structure Frame (R : Store V M → Progress V M → Prop) : Prop where
  object : ∀ {s p}, R s p → s.object = p.object
  setObject : ∀ {s p}, R s p → ∀ o, R { s with object := o } { p with object := o }
  setArray : ∀ {s p}, R s p → ∀ a k n ms,
    R { s with arrayElement := a, fieldNumber := k, expectedFieldNumber := n, values := ms } p

theorem refines_predicate {body : Lines}
    {g : Progress V M → Except (ParseError ε) (Progress V M)}
    (hx : ∀ s p, R s p → s.operand x = v) (hbody : (rt.interp doc).Refines R body g) :
    (rt.interp doc).Refines R (predicate (getBsonTypeCheck x f) false body) fun p =>
      rt.typeCheck f v >>= fun b => if b then g p else pure p := by
  unfold getBsonTypeCheck typeCheck
  cases bsonTypeCheck f with
  | none => exact hbody
  | some check =>
    refine (Interp.Refines.cond (q := fun _ => call (rt.checkAndAssertType check v))
      (fun s p h => ?_) hbody .nil).congr fun p => ?_
    · show call (rt.checkAndAssertType check (s.operand x)) = _
      rw [hx s p h]
    · simp only [Interp.bind_ok]
      rfl

/-- The lines that store a value. -/
def storeLines (f : Ast.Field) (src : Source) : Lines :=
  match f.chainedStructField with
  | some outer => .line (.callSetter outer f src)
  | none => if f.validator.isSome && !f.array then .line (.assignValidated f src)
    else .line (.assign f src)

section Store

variable {s : Store V M} {p : Progress V M} {src : Source} {y : Except (ParseError ε) M}

theorem related_assign (hR : Frame R) (h : R s p) (hy : rt.value f s src = y) :
    Related R (rt.run doc (.assign f src) s)
      (y >>= fun m => pure { p with object := p.object.assign f.name m }) := by
  show Related R (rt.value f s src >>= _) _
  rw [hy]
  refine (Related.refl y).bind ?_
  rintro m _ rfl
  rw [hR.object h]
  exact hR.setObject h _

variable (doc) in
theorem related_assignValidated (hR : Frame R) (h : R s p) (hy : rt.value f s src = y) :
    Related R (rt.run doc (.assignValidated f src) s)
      (y >>= fun m => call (rt.validate f m) >>= fun _ =>
        pure { p with object := p.object.assign f.name m }) := by
  show Related R (rt.value f s src >>= _) _
  rw [hy]
  refine (Related.refl y).bind ?_
  rintro m _ rfl
  refine (Related.refl (call (rt.validate f m))).bind fun _ _ _ => ?_
  rw [hR.object h]
  exact hR.setObject h _

theorem related_callSetter {outer : String} (hR : Frame R) (h : R s p)
    (hy : rt.value f s src = y) :
    Related R (rt.run doc (.callSetter outer f src) s)
      (y >>= fun m => (fun o => { p with object := o }) <$> rt.setIn f outer m p.object) := by
  show Related R (rt.value f s src >>= _) _
  rw [hy]
  refine (Related.refl y).bind ?_
  rintro m _ rfl
  rw [hR.object h, map_eq_pure_bind]
  refine (Related.refl (rt.setIn f outer m p.object)).bind ?_
  rintro o _ rfl
  exact hR.setObject h o

/-- One line from a state. -/
theorem related_line {a : Action} {y : Except (ParseError ε) (Progress V M)} (o : Bool)
    (h : Related R (rt.run doc a s) y) :
    Related (Interp.AtEnd R) ((rt.interp doc).exec (.line a) o s) y := by
  rw [← Interp.bind_ok y]
  exact h.bind fun _ _ h => .ok ⟨⟨true, rfl⟩, h⟩

/-- The value of the source is stored. -/
theorem related_store (hR : Frame R) (h : R s p) (hy : rt.value f s src = y) (o : Bool) :
    Related (Interp.AtEnd R) ((rt.interp doc).exec (storeLines f src) o s)
      (y >>= fun m => rt.storeIn f m p) := by
  unfold storeLines storeIn store
  cases f.chainedStructField with
  | some outer => exact related_line o (related_callSetter hR h hy)
  | none =>
    cases f.validator.isSome && !f.array with
    | true =>
      have hline := related_line o (related_assignValidated doc hR h hy)
      have heq : ∀ m, (call (rt.validate f m) >>= fun _ =>
          (pure { p with object := p.object.assign f.name m } :
            Except (ParseError ε) (Progress V M))) =
          (fun o => { p with object := o }) <$>
            (call (rt.validate f m) >>= fun _ => pure (p.object.assign f.name m)) := fun m => by
        cases rt.validate f m <;> rfl
      rwa [bind_congr heq] at hline
    | false => exact related_line o (related_assign hR h hy)

end Store

/-! ### Arrays -/

/-- At the progress `p`, with the expected number and the values so far. -/
def InArray (R : Store V M → Progress V M → Prop) (p : Progress V M) (s : Store V M)
    (q : ℕ × List M) : Prop :=
  R s p ∧ s.expectedFieldNumber = q.1 ∧ s.values = q.2

/-- One element of an array, after the values so far. -/
def parseItem (rt : Runtime V M ε) (f : Ast.Field) (q : ℕ × List M) (e : String × V) :
    Except (ParseError ε) (ℕ × List M) :=
  match rt.numberParser e.1 with
  | none => .error (.badArrayFieldNumberValue e.1)
  | some number =>
    if number ≠ q.1 then .error (.badArrayFieldNumberSequence number q.1)
    else rt.typeCheck f e.2 >>= fun b =>
      (fun ms => ((q.1 + 1) % 2 ^ 32, ms)) <$>
        if b then (fun m => q.2 ++ [m]) <$> call (rt.deserialize f e.2) else pure q.2

theorem foldlM_parseItem (n : ℕ) (ms : List M) (items : List (String × V)) :
    (fun q => q.2) <$> items.foldlM (rt.parseItem f) (n, ms) =
      (fun ms' => ms ++ ms') <$> rt.parseValues f n items := by
  induction items generalizing n ms with
  | nil => exact congrArg Except.ok (List.append_nil ms).symm
  | cons e items ih =>
    obtain ⟨name, v⟩ := e
    rw [List.foldlM_cons, parseItem, parseValues]
    cases rt.numberParser name with
    | none => rfl
    | some number =>
      dsimp only
      by_cases hn : number = n
      · simp only [hn, ne_eq, not_true_eq_false, if_false, bind_assoc]
        cases rt.typeCheck f v with
        | error e => rfl
        | ok b =>
          cases b with
          | false => exact ih ((n + 1) % 2 ^ 32) ms
          | true =>
            cases call (ε := ε) (rt.deserialize f v) with
            | error e => rfl
            | ok m =>
              refine (ih ((n + 1) % 2 ^ 32) (ms ++ [m])).trans ?_
              cases rt.parseValues f ((n + 1) % 2 ^ 32) items with
              | error e => rfl
              | ok ms' => exact congrArg Except.ok (List.append_assoc ms [m] ms')
      · simp only [hn, ne_eq, not_false_eq_true, if_true]
        rfl

variable {p : Progress V M}

/-- At an element of the array, with its number parsed. -/
def AtItem (rt : Runtime V M ε) (R : Store V M → Progress V M → Prop) (p : Progress V M)
    (e : String × V) (s : Store V M) (q : ℕ × List M) : Prop :=
  InArray R p s q ∧ s.arrayElement = e ∧ s.fieldNumber = rt.numberParser e.1

theorem refines_emplaceBack (hR : Frame R) (e : String × V) :
    (rt.interp doc).Refines (AtItem rt R p e) (.line (.emplaceBack f)) fun q =>
      (fun m => (q.1, q.2 ++ [m])) <$> call (rt.deserialize f e.2) := by
  refine .line fun s q h => ?_
  obtain ⟨⟨hs, hn, hms⟩, he, hk⟩ := h
  show Related _ (call (rt.deserialize f s.arrayElement.2) >>= _) _
  rw [he, map_eq_pure_bind]
  refine (Related.refl (call (rt.deserialize f e.2))).bind ?_
  rintro m _ rfl
  exact ⟨⟨hR.setArray hs e s.fieldNumber s.expectedFieldNumber _, hn, congrArg (· ++ [m]) hms⟩,
    rfl, hk⟩

/-- The check of the type of an element, around its deserializer. -/
theorem refines_item (hR : Frame R) (e : String × V) :
    (rt.interp doc).Refines (AtItem rt R p e)
      (predicate (getBsonTypeCheck .arrayElement f) false (.line (.emplaceBack f))) fun q =>
      rt.typeCheck f e.2 >>= fun b =>
        if b then (fun m => (q.1, q.2 ++ [m])) <$> call (rt.deserialize f e.2) else pure q := by
  have hline : (rt.interp doc).Refines (AtItem rt R p e) _ _ := refines_emplaceBack (f := f) hR e
  unfold getBsonTypeCheck typeCheck
  cases bsonTypeCheck f with
  | none => exact hline
  | some check =>
    refine (Interp.Refines.cond (q := fun _ => call (rt.checkAndAssertType check e.2))
      (fun s p h => ?_) hline .nil).congr fun p => ?_
    · show call (rt.checkAndAssertType check s.arrayElement.2) = _
      rw [h.2.1]
    · simp only [Interp.bind_ok]
      rfl

/-- The check of the number of an element, before that of its type. -/
theorem refines_number (hR : Frame R) (e : String × V) :
    (rt.interp doc).Refines (AtItem rt R p e)
      (.block (.cond .notExpected) (.line .throwBadArrayFieldNumberSequence)
        (predicate (getBsonTypeCheck .arrayElement f) false (.line (.emplaceBack f)))) fun q =>
      if rt.numberParser e.1 ≠ some q.1 then
        .error (.badArrayFieldNumberSequence ((rt.numberParser e.1).getD 0) q.1)
      else rt.typeCheck f e.2 >>= fun b =>
        if b then (fun m => (q.1, q.2 ++ [m])) <$> call (rt.deserialize f e.2) else pure q := by
  refine (Interp.Refines.cond (q := fun q => .ok (rt.numberParser e.1 ≠ some q.1))
    (g := fun q => .error (.badArrayFieldNumberSequence ((rt.numberParser e.1).getD 0) q.1))
    (fun s q h => ?_) (.line fun s q h => ?_) (refines_item hR e)).congr fun q => ?_
  · show Except.ok (decide (s.fieldNumber ≠ some s.expectedFieldNumber)) = _
    rw [h.2.2, h.1.2.1]
  · show Related _ (Except.error (ParseError.badArrayFieldNumberSequence _ _)) _
    rw [h.2.2, h.1.2.1]
    exact .error _
  · by_cases hn : rt.numberParser e.1 ≠ some q.1
    · rw [if_pos hn]
      show (if decide _ = true then _ else _) = _
      rw [decide_eq_true hn, if_pos rfl]
      rfl
    · rw [if_neg hn]
      show (if decide _ = true then _ else _) = _
      rw [decide_eq_false hn, if_neg Bool.false_ne_true]

variable (rt doc f) in
/-- The body of the loop over the array. -/
theorem related_item (hR : Frame R) (s : Store V M) (q : ℕ × List M) (e : String × V) (x : Operand)
    (h : InArray R p s q) :
    Related (InArray R p) ((rt.interp doc).result
      (.act .parseNumber <|
        .block (.cond .statusOk)
          (.block (.cond .notExpected) (.line .throwBadArrayFieldNumberSequence)
            (predicate (getBsonTypeCheck .arrayElement f) false (.line (.emplaceBack f)))) <|
        .block .otherwise (.line .throwBadArrayFieldNumberValue) <|
        .line .incrementExpected)
      ((rt.interp doc).enter (.arrayObject x) e s)) (rt.parseItem f q e) := by
  have hrest := Interp.Refines.ifElse (I := rt.interp doc) (R := AtItem rt R p e) (t := .statusOk)
    (q := fun _ => .ok (rt.numberParser e.1).isSome)
    (u := fun _ => .error (.badArrayFieldNumberValue e.1))
    (k := fun q => .ok ((q.1 + 1) % 2 ^ 32, q.2)) (d := .line .throwBadArrayFieldNumberValue)
    (c := .line .incrementExpected) ?_ (refines_number (f := f) hR e) (.line fun s q h => ?_)
    (.line fun s q h => ?_)
  · have hstart : AtItem rt R p e { s with
        arrayElement := e
        fieldNumber := rt.numberParser e.1 } q :=
      ⟨⟨hR.setArray h.1 e _ s.expectedFieldNumber s.values, h.2⟩, rfl, rfl⟩
    have hitem := hrest.congr (k := fun q => rt.parseItem f q e) fun q => ?_
    · exact (hitem.result_of hstart).mono fun _ _ h => h.1
    · unfold parseItem
      cases rt.numberParser e.1 with
      | none => rfl
      | some number =>
        show ((if some number ≠ some q.1 then _ else _ : Except (ParseError ε) (ℕ × List M)) >>= _) =
          if number ≠ q.1 then _ else _
        by_cases hn : number = q.1
        · rw [hn, if_neg (not_not_intro rfl), if_neg (not_not_intro rfl)]
          cases rt.typeCheck f e.2 with
          | error e => rfl
          | ok b =>
            cases b with
            | false => rfl
            | true => cases call (ε := ε) (rt.deserialize f e.2) <;> rfl
        · rw [if_pos hn, if_pos (by simpa using hn)]
          rfl
  · intro s q h
    show Except.ok s.fieldNumber.isSome = _
    rw [h.2.2]
  · show Related _ (Except.error (ParseError.badArrayFieldNumberValue _)) _
    rw [h.2.1]
    exact .error _
  · obtain ⟨⟨hs, hn, hms⟩, he, hk⟩ := h
    exact ⟨⟨hR.setArray hs s.arrayElement s.fieldNumber _ s.values,
      congrArg (fun n => (n + 1) % 2 ^ 32) hn, hms⟩, he, hk⟩

/-- The deserializer of an array. -/
theorem refines_genArrayDeserializer (hR : Frame R) (hx : ∀ s p, R s p → s.operand x = v)
    (harray : f.array = true) :
    (rt.interp doc).Refines R (genArrayDeserializer f x) fun p =>
      call (rt.obj v) >>= fun items => rt.parseValues f 0 items >>= fun ms =>
        rt.storeIn f (rt.vector ms) p := by
  intro o s p h
  have hstart : InArray R p { s with expectedFieldNumber := 0, values := [] } (0, []) :=
    ⟨hR.setArray h s.arrayElement s.fieldNumber 0 [], rfl, rfl⟩
  have hoperand : ({ s with expectedFieldNumber := 0, values := [] } : Store V M).operand x = v :=
    hx _ p hstart.1
  show Related _ ((rt.interp doc).exec (.block (.loop (.arrayObject x)) _ _) true
    { s with expectedFieldNumber := 0, values := [] }) _
  rw [Interp.exec]
  show Related _ (call (rt.obj (Store.operand _ x)) >>= _) _
  rw [hoperand]
  refine (Related.refl (call (rt.obj v))).bind ?_
  rintro items _ rfl
  have hloop := Related.foldlM (l := items)
    (fun s q e _ h => related_item rt f doc hR s q e x h) hstart
  have hvalues : rt.parseValues f 0 items =
      (fun q => q.2) <$> items.foldlM (rt.parseItem f) (0, []) := by
    rw [foldlM_parseItem]
    cases rt.parseValues f 0 items <;> rfl
  have htail : (match f.chainedStructField with
      | some outer => .line (.callSetter outer f .values)
      | none => .line (.assign f .values) : Lines) = storeLines f .values := by
    rw [storeLines, harray]
    cases f.chainedStructField <;> cases f.validator <;> rfl
  rw [hvalues, bind_map_left]
  refine hloop.bind fun s' q hq => ?_
  obtain ⟨hs', -, hms⟩ := hq
  show Related _ (Interp.exec _ (match f.chainedStructField with
      | some outer => .line (.callSetter outer f .values)
      | none => .line (.assign f .values) : Lines) true s') _
  rw [htail]
  exact related_store (y := .ok (rt.vector q.2)) hR hs' (by rw [value, hms]) true

/-! ### One field -/

/-- The deserializer of a field that is not chained, after lines that refine `use`. -/
theorem refines_genFieldDeserializer (hR : Frame R) (hx : ∀ s p, R s p → s.operand x = v)
    (hc : f.chained = false) {checker : Option Checker}
    {use : Progress V M → Except (ParseError ε) (Progress V M)}
    (husage : (rt.interp doc).Refines R (genUsageCheck f checker).1 use) :
    (rt.interp doc).Refines R (genFieldDeserializer f x checker).1 (rt.parseField f v use) := by
  rw [genFieldDeserializer_fst]
  unfold parseField
  cases harray : f.array with
  | true => exact husage.append (refines_genArrayDeserializer hR hx harray)
  | false =>
    have hstore : (match f.chainedStructField with
        | some outer => .line (.callSetter outer f (.parsed x))
        | none => validateAndAssignOrUassert f (.parsed x) : Lines) = storeLines f (.parsed x) := by
      rw [storeLines, harray, validateAndAssignOrUassert]
      cases f.chainedStructField <;> cases f.validator <;> rfl
    rw [if_neg Bool.false_ne_true, hc, if_neg Bool.false_ne_true]
    refine refines_predicate hx (husage.append fun o s p h => ?_)
    show Related _ (Interp.exec _ (match f.chainedStructField with
        | some outer => .line (.callSetter outer f (.parsed x))
        | none => validateAndAssignOrUassert f (.parsed x) : Lines) o s) _
    rw [hstore]
    exact related_store hR h (by rw [value, hx s p h]) o

/-- The deserializer of a chained field. -/
theorem refines_genFieldDeserializer_chained (hR : Frame R) (hc : f.chained = true)
    (harray : f.array = false) (hnone : f.chainedStructField = none) :
    (rt.interp doc).Refines R (genFieldDeserializer f x none).1 fun p => rt.parseAfter doc p f := by
  rw [genFieldDeserializer_fst, harray, if_neg Bool.false_ne_true, if_pos hc]
  refine fun o s p h => ?_
  show Related _ ((rt.interp doc).exec (if f.validator.isNone then .line (.assignChained f)
    else .line (.assignChainedValidated f)) o s) _
  unfold parseAfter storeIn store
  rw [hnone, harray]
  have hassign : ∀ m, R { s with object := s.object.assign f.name m }
      { p with object := p.object.assign f.name m } := fun m => by
    rw [hR.object h]
    exact hR.setObject h _
  cases f.validator with
  | none =>
    refine related_line o ((Related.refl (call (rt.parseChained f doc))).bind ?_)
    rintro m _ rfl
    exact hassign m
  | some validator =>
    refine related_line o ((Related.refl (call (rt.parseChained f doc))).bind ?_)
    rintro m _ rfl
    show Related R (call (rt.validate f m) >>= _) _
    cases rt.validate f m with
    | error e => exact .error _
    | ok u => exact hassign m

/-! ### The marks -/

/-- The constants of a strict parser. -/
def bitConstants (struct : Ast.Struct) : List (String × ℕ) :=
  ((struct.own.map (·.name)).zipIdx 0).reverse

/-- The store of a parser at some progress: its set, or its bits, are the marks. -/
structure Tracks (d : Ast.Definition) (s : Store V M) (p : Progress V M) : Prop where
  object : s.object = p.object
  commandElement : s.commandElement = p.commandElement
  first : s.firstFieldFound = p.firstFieldFound
  size : d.toStruct.strict = true → s.size = d.toStruct.fields.length
  constants : d.toStruct.strict = true → s.constants = bitConstants d.toStruct
  bits : d.toStruct.strict = true → ∀ f ∈ d.toStruct.own, (s.bitOf f ∈ s.bits ↔ f.name ∈ p.marks)
  used : d.toStruct.strict = false → ∀ name, name ∈ s.used ↔ name ∈ p.marks

theorem frame_tracks : Frame (V := V) (M := M) (Tracks d) where
  object h := h.object
  setObject h _ := ⟨rfl, h.commandElement, h.first, h.size, h.constants, h.bits, h.used⟩
  setArray h _ _ _ _ := ⟨h.object, h.commandElement, h.first, h.size, h.constants, h.bits, h.used⟩

/-- At an element of the document. -/
def AtElement (d : Ast.Definition) (e : String × V) (s : Store V M) (p : Progress V M) : Prop :=
  Tracks d s p ∧ s.element = e

theorem frame_atElement (e : String × V) : Frame (V := V) (M := M) (AtElement d e) where
  object h := h.1.object
  setObject h o := ⟨frame_tracks.setObject h.1 o, h.2⟩
  setArray h a k n ms := ⟨frame_tracks.setArray h.1 a k n ms, h.2⟩

/-- The bit of a field is its position. -/
theorem getElem?_bitOf {s : Store V M} (hs : s.constants = bitConstants d.toStruct)
    (hf : f ∈ d.toStruct.own) : (d.toStruct.own.map (·.name))[s.bitOf f]? = some f.name := by
  obtain ⟨i, hi⟩ : ∃ i, (bitConstants d.toStruct).lookup f.name = some i := by
    rw [← Option.isSome_iff_exists, List.lookup_isSome_iff]
    obtain ⟨i, hi, hname⟩ := List.mem_iff_getElem.mp (List.mem_map_of_mem (f := (·.name)) hf)
    refine ⟨(f.name, i), List.mem_reverse.mpr ?_, beq_self_eq_true _⟩
    exact List.mk_mem_zipIdx_iff_getElem?.mpr (List.getElem?_eq_some_iff.mpr ⟨hi, hname⟩)
  have hbit : s.bitOf f = i := by rw [Store.bitOf, hs, hi]; rfl
  obtain ⟨_, _, hsplit, -⟩ := List.lookup_eq_some_iff.mp hi
  have hmem : (f.name, i) ∈ bitConstants d.toStruct := by
    rw [hsplit]
    exact List.mem_append_right _ List.mem_cons_self
  rw [hbit]
  exact List.mk_mem_zipIdx_iff_getElem?.mp (List.mem_reverse.mp hmem)

/-- Fields have different bits, if their names differ. -/
theorem name_eq_of_bitOf_eq {s : Store V M} (hs : s.constants = bitConstants d.toStruct)
    {g : Ast.Field} (hf : f ∈ d.toStruct.own) (hg : g ∈ d.toStruct.own)
    (h : s.bitOf f = s.bitOf g) : f.name = g.name := by
  have hf' := getElem?_bitOf hs hf
  rw [h, getElem?_bitOf hs hg] at hf'
  exact (Option.some.inj hf').symm

theorem bitOf_lt {s : Store V M} (hs : s.constants = bitConstants d.toStruct)
    (hf : f ∈ d.toStruct.own) : s.bitOf f < d.toStruct.fields.length := by
  obtain ⟨hlt, -⟩ := List.getElem?_eq_some_iff.mp (getElem?_bitOf hs hf)
  rw [List.length_map] at hlt
  exact hlt.trans_le (List.length_filter_le ..)

variable (rt doc) in
/-- A strict parser marks a field with its bit. -/
theorem refines_bitUsage {e : String × V} (hf : f ∈ d.toStruct.own) (he : e.1 = f.name) :
    (rt.interp doc).Refines (AtElement d e) (bitUsage d.toStruct.strict f) fun p =>
      if d.toStruct.strict then p.mark f.name else pure p := by
  cases hs : d.toStruct.strict with
  | false => exact .nil
  | true =>
    refine (Interp.Refines.cond (q := fun p => .ok (f.name ∈ p.marks))
      (g := fun _ => .error (.duplicateField f.name))
      (k := fun p => .ok { p with marks := f.name :: p.marks })
      (fun s p h => ?_) (.line fun s p h => ?_) (.line fun s p h => ?_)).congr fun p => ?_
    · exact congrArg Except.ok (decide_eq_decide.mpr (h.1.bits hs f hf))
    · show Related _ (Except.error (ParseError.duplicateField s.element.1)) _
      rw [h.2, he]
      exact .error _
    · obtain ⟨ht, hel⟩ := h
      refine ⟨⟨ht.object, ht.commandElement, ht.first, ht.size, ht.constants, fun _ g hg => ?_,
        fun hs' => ?_⟩, hel⟩
      · show s.bitOf g ∈ s.bitOf f :: s.bits ↔ g.name ∈ f.name :: p.marks
        rw [List.mem_cons, List.mem_cons, ht.bits hs g hg]
        refine or_congr_left ⟨name_eq_of_bitOf_eq (ht.constants hs) hg hf, fun hname => ?_⟩
        rw [Store.bitOf, Store.bitOf, hname]
      · rw [hs] at hs'
        cases hs'
    · unfold Progress.mark
      by_cases hm : f.name ∈ p.marks
      · simp [hm]
        rfl
      · simp [hm]
        rfl

theorem refines_hasUsage (hR : Frame R) :
    (rt.interp doc).Refines R (hasUsage f) fun p =>
      pure (if f.isRequiredSerializerField then { p with object := p.object.setHas f.name } else p) := by
  unfold hasUsage
  cases f.isRequiredSerializerField with
  | false => exact .nil
  | true =>
    refine .line fun s p h => ?_
    show R { s with object := s.object.setHas f.name } _
    rw [hR.object h]
    exact hR.setObject h _

theorem refines_ignoreField : (rt.interp doc).Refines R (.line .ignoreField) .ok :=
  .line fun s p h => show Related R (.ok s) (.ok p) from h

variable (rt doc) in
/-- The lines in the branch of a field. -/
theorem refines_fieldBody {e : String × V} (hf : f ∈ d.toStruct.own) (he : e.1 = f.name) :
    (rt.interp doc).Refines (AtElement d e) (fieldBody d.toStruct.strict f) fun p =>
      if f.ignore then (if d.toStruct.strict then p.mark e.1 else pure p)
      else rt.parseField f e.2 (Progress.use d.toStruct.strict f) p := by
  have husage := refines_bitUsage rt doc hf he
  unfold fieldBody genField
  cases f.ignore with
  | true =>
    show (rt.interp doc).Refines _ ((Checker.add { fast := d.toStruct.strict } f).1 ++
      .line .ignoreField) _
    rw [add_eq, he]
    exact (husage.append refines_ignoreField).congr fun p => Interp.bind_ok _
  | false =>
    show (rt.interp doc).Refines _ (genFieldDeserializer f .element
      (some { fast := d.toStruct.strict })).1 _
    have hc : f.chained = false := by simpa using (List.mem_filter.mp hf).2
    refine refines_genFieldDeserializer (frame_atElement e) (fun s p h => ?_) hc ?_
    · show s.element.2 = e.2
      rw [h.2]
    · rw [genUsageCheck_some]
      exact husage.append (refines_hasUsage (frame_atElement e))

/-! ### The loop -/

variable (rt doc) in
/-- The check for extraneous fields, after a branch that has run or without one. -/
theorem related_genStrictCheck {e : String × V} {s : Store V M} {p : Progress V M}
    (h : AtElement d e s p) (o : Bool) :
    Related (Interp.AtEnd (AtElement d e)) ((rt.interp doc).exec (genStrictCheck d) o s)
      (if o && (d.toStruct.strict && !(d.isCommand && rt.isGenericArgument e.1)) then
        .error (.unknownField e.1) else pure p) := by
  unfold genStrictCheck
  have hend : Related (Interp.AtEnd (AtElement d e)) (.ok (.next true, s))
      (pure p : Except (ParseError ε) (Progress V M)) := ⟨⟨true, rfl⟩, h⟩
  cases d.toStruct.strict with
  | false =>
    rw [Bool.false_and, Bool.and_false]
    exact ⟨⟨o, rfl⟩, h⟩
  | true =>
    cases o with
    | false => exact hend
    | true =>
      have hthrow : (rt.interp doc).run .throwUnknownField s = .error (.unknownField e.1) := by
        rw [← h.2]
        rfl
      have hline : ∀ o, (rt.interp doc).exec (.line .throwUnknownField) o s =
          .error (.unknownField e.1) := fun o => by
        rw [Code.line, Interp.exec, hthrow]
        rfl
      cases d.isCommand with
      | false =>
        show Related _ ((rt.interp doc).exec (.line .throwUnknownField) true s >>= _) _
        rw [hline]
        exact .error _
      | true =>
        show Related _ (((do
          if !rt.isGenericArgument s.element.1 then
            (rt.interp doc).exec (.line .throwUnknownField) true s >>= _
          else _) : Except (ParseError ε) (Flow × Store V M)) >>= _) _
        rw [h.2, hline]
        cases rt.isGenericArgument e.1 with
        | true => exact hend
        | false => exact .error _

/-- The condition of a branch, for an element with the name. -/
def holdsAt (name : String) : Cond → Bool
  | .nameIs f => f.name = name
  | _ => false

/-- The branches of the fields, and the check after them. -/
theorem related_branches {e : String × V} {s : Store V M} {p : Progress V M}
    (h : AtElement d e s p) :
    Related (Interp.AtEnd (AtElement d e))
      ((rt.interp doc).exec (Code.branches true (d.toStruct.own.map fun f =>
        (.nameIs f, fieldBody d.toStruct.strict f)) ++ genStrictCheck d) true s)
      (rt.parseKnown d p e) := by
  have htest : ∀ b ∈ (d.toStruct.own.map fun f => (Cond.nameIs f, fieldBody d.toStruct.strict f)),
      (rt.interp doc).test b.1 s = .ok (holdsAt e.1 b.1) := by
    intro b hb
    obtain ⟨f, -, rfl⟩ := List.mem_map.mp hb
    show Except.ok (decide (s.element.1 = f.name)) = _
    rw [h.2]
    exact congrArg Except.ok (decide_eq_decide.mpr eq_comm)
  have hfind : ((d.toStruct.own.map fun f => (Cond.nameIs f, fieldBody d.toStruct.strict f)).find?
      fun b => holdsAt e.1 b.1) =
      (d.toStruct.own.find? (·.name = e.1)).map fun f =>
        (Cond.nameIs f, fieldBody d.toStruct.strict f) := by
    rw [List.find?_map]
    rfl
  rw [Interp.exec_branches_append _ _ _ htest, hfind, parseKnown]
  cases hf : d.toStruct.own.find? (·.name = e.1) with
  | none => exact related_genStrictCheck rt doc h true
  | some f =>
    have hname : e.1 = f.name := by
      have := List.find?_some hf
      exact (of_decide_eq_true this).symm
    have hbody := refines_fieldBody rt doc (List.mem_of_find?_eq_some hf) hname
    have hall := Interp.Refines.goOn (hbody true s p h) fun _ s' p' h' =>
      related_genStrictCheck rt doc h' false
    exact (congrArg (Related _ _) (Interp.bind_ok
      (if f.ignore then (if d.toStruct.strict then p.mark e.1 else pure p)
        else rt.parseField f e.2 (Progress.use d.toStruct.strict f) p))).mp hall

variable (rt doc) in
/-- The store of a parser that is not strict, before the branches. -/
theorem related_addStore {e : String × V} {s : Store V M} {p : Progress V M}
    (h : AtElement d e s p) {c : Lines} {g : Progress V M → Except (ParseError ε) (Progress V M)}
    (hc : ∀ s p, AtElement d e s p →
      Related (Interp.AtEnd (AtElement d e)) ((rt.interp doc).exec c true s) (g p)) :
    Related (Interp.AtEnd (AtElement d e))
      ((rt.interp doc).exec (({ fast := d.toStruct.strict } : Checker).addStore ++ c) true s)
      ((if d.toStruct.strict then pure p else p.mark e.1) >>= g) := by
  cases hs : d.toStruct.strict with
  | true => exact hc s p h
  | false =>
    obtain ⟨ht, he⟩ := h
    have hexec : (rt.interp doc).exec (({ fast := false } : Checker).addStore ++ c) true s =
        if !decide (s.element.1 ∉ s.used) then .error (.duplicateField s.element.1)
        else (rt.interp doc).exec c true
          { s with pushed := decide (s.element.1 ∉ s.used), used := s.element.1 :: s.used } := rfl
    have hused := ht.used hs e.1
    rw [hexec, if_neg Bool.false_ne_true, Progress.mark, he]
    by_cases hm : e.1 ∈ p.marks
    · rw [if_pos hm, decide_eq_false (not_not_intro (hused.mpr hm))]
      exact .error _
    · rw [if_neg hm, decide_eq_true (mt hused.mp hm)]
      refine hc _ { p with marks := e.1 :: p.marks } ⟨⟨ht.object, ht.commandElement, ht.first,
        ht.size, ht.constants, fun hs' => ?_, fun _ name => ?_⟩, rfl⟩
      · rw [hs] at hs'
        cases hs'
      · show name ∈ e.1 :: s.used ↔ name ∈ e.1 :: p.marks
        rw [List.mem_cons, List.mem_cons, ht.used hs name]

/-- The body of the loop, for an element. -/
theorem related_loopBody (s : Store V M) (p : Progress V M) (e : String × V) (h : Tracks d s p) :
    Related (Tracks d)
      ((rt.interp doc).result (loopBody d) ((rt.interp doc).enter .bsonObject e s))
      (rt.parseElement d p e) := by
  have hstart : AtElement d e { s with element := e } p :=
    ⟨⟨h.object, h.commandElement, h.first, h.size, h.constants, h.bits, h.used⟩, rfl⟩
  have hrest := related_addStore rt doc hstart
    (c := Code.branches true (d.toStruct.own.map fun f => (.nameIs f,
      fieldBody d.toStruct.strict f)) ++ genStrictCheck d) fun s p h => related_branches h
  have hbody := (Interp.related_result hrest).mono fun _ _ hr => hr.1
  unfold parseElement
  cases hc : d.isCommand with
  | false =>
    rw [loopBody, hc]
    exact hbody
  | true =>
    have hexec : (rt.interp doc).exec (loopBody d) true { s with element := e } =
        if !s.firstFieldFound then .ok (.continued, { s with
          element := e
          commandElement := if d.keepsElement then e.2 else s.commandElement
          firstFieldFound := true })
        else (rt.interp doc).exec (({ fast := d.toStruct.strict } : Checker).addStore ++
          (Code.branches true (d.toStruct.own.map fun f => (.nameIs f,
            fieldBody d.toStruct.strict f)) ++ genStrictCheck d)) true { s with element := e } := by
      rw [loopBody, hc, if_pos rfl, genFirstField]
      cases d.keepsElement <;> cases s.firstFieldFound <;>
        simp [Code.wrap, Interp.exec, interp, test] <;> rfl
    show Related _ (Prod.snd <$> (rt.interp doc).exec (loopBody d) true { s with element := e }) _
    rw [hexec, ← h.first]
    have hboth : (true && !s.firstFieldFound) = !s.firstFieldFound := Bool.true_and _
    rw [hboth]
    by_cases hf : (!s.firstFieldFound) = true
    · rw [if_pos hf, if_pos hf]
      refine ⟨h.object, ?_, rfl, h.size, h.constants, h.bits, h.used⟩
      show (if d.keepsElement then e.2 else s.commandElement) = _
      rw [h.commandElement]
    · rw [if_neg hf, if_neg hf]
      exact hbody

/-! ### After the loop -/

variable (rt doc) in
theorem refines_chainedParsers {fs : List Ast.Field} (hfs : ∀ f ∈ fs, f.chained = true ∧
    f.array = false ∧ f.chainedStructField = none) (hR : Frame R) :
    (rt.interp doc).Refines R (chainedParsers fs) fun p => fs.foldlM (rt.parseAfter doc) p := by
  induction fs with
  | nil => exact .nil
  | cons f fs ih =>
    obtain ⟨hc, harray, hnone⟩ := hfs f List.mem_cons_self
    exact (refines_genFieldDeserializer_chained hR hc harray hnone).append
      (ih fun g hg => hfs g (List.mem_cons_of_mem f hg))

theorem refines_missing (hR : Frame R) {checker : Checker} (hfast : checker.fast = d.toStruct.strict) :
    (rt.interp doc).Refines R (missing checker f) fun p =>
      if f.hasDefault then (fun o => { p with object := o }) <$> rt.setDefault d f p.object
      else .error (.missingField f.name) := by
  have hassign : (rt.interp doc).Refines R (.line (.assign f .default)) fun p =>
      pure { p with object := p.object.assign f.name (rt.default f) } := fun o s p h =>
    related_line o (related_assign hR h rfl)
  unfold missing setDefault
  rw [hfast]
  cases f.hasDefault with
  | false => exact .line fun s p h => .error _
  | true =>
    cases d.toStruct.strict with
    | false => exact hassign
    | true =>
      cases f.chainedStructField with
      | none => exact hassign
      | some outer => exact fun o s p h => related_line o (related_callSetter hR h rfl)

/-- The checks of the fields, one after the other, where `check` tells that a mark is missing. -/
theorem refines_checks {checker : Checker} (hfast : checker.fast = d.toStruct.strict)
    {check : Ast.Field → Cond} {fs : List Ast.Field} {q : Ast.Field → Bool}
    (hq : ∀ f ∈ fs, q f = (!f.optional && !f.ignore))
    (hcheck : ∀ f ∈ fs, ∀ s p, Tracks d s p →
      rt.test (check f) s = .ok (decide (f.name ∉ p.marks))) :
    (rt.interp doc).Refines (Tracks d)
      (fs.foldr (fun f rest => if q f then .block (.cond (check f)) (missing checker f) rest
        else rest) .nil) fun p => fs.foldlM (rt.checkField d) p := by
  induction fs with
  | nil => exact .nil
  | cons f fs ih =>
    have hrest := ih (fun g hg => hq g (List.mem_cons_of_mem f hg))
      fun g hg => hcheck g (List.mem_cons_of_mem f hg)
    have hhead : ∀ p : Progress V M, (f :: fs).foldlM (rt.checkField d) p =
        rt.checkField d p f >>= fun p => fs.foldlM (rt.checkField d) p := fun _ => rfl
    rw [List.foldr_cons, hq f List.mem_cons_self]
    simp only [hhead]
    by_cases hskip : (!f.optional && !f.ignore) = true
    · rw [if_pos hskip]
      refine (Interp.Refines.cond (hcheck f List.mem_cons_self)
        (refines_missing frame_tracks hfast) hrest).congr fun p => ?_
      rw [Bool.and_eq_true, Bool.not_eq_true', Bool.not_eq_true'] at hskip
      unfold checkField
      rw [hskip.1, hskip.2]
      by_cases hm : f.name ∈ p.marks <;> simp [hm] <;> rfl
    · rw [if_neg hskip]
      refine hrest.congr fun p => ?_
      have hpass : rt.checkField d p f = .ok p := by
        unfold checkField
        rw [if_pos]
        · rfl
        · cases ho : f.optional <;> cases hi : f.ignore <;> simp [ho, hi] at hskip ⊢
      rw [hpass]
      rfl

/-- Where every bit is set there is nothing to check. -/
theorem foldlM_checkField_of_marked {fs : List Ast.Field} {p : Progress V M}
    (h : ∀ f ∈ fs, f.name ∈ p.marks) : fs.foldlM (rt.checkField d) p = .ok p := by
  induction fs with
  | nil => rfl
  | cons f fs ih =>
    have hpass : rt.checkField d p f = .ok p := by
      unfold checkField
      rw [if_pos (by simp [h f List.mem_cons_self])]
      rfl
    rw [List.foldlM_cons, hpass]
    exact ih fun g hg => h g (List.mem_cons_of_mem f hg)

theorem refines_finalChecks : (rt.interp doc).Refines (Tracks d) (finalChecks d) fun p =>
    d.toStruct.own.foldlM (rt.checkField d) p := by
  have hchained : ∀ f ∈ d.toStruct.own, f.chained = false := fun f hf => by
    simpa using (List.mem_filter.mp hf).2
  unfold finalChecks Checker.addFinalChecks
  cases hs : d.toStruct.strict with
  | true =>
    have hbody : (rt.interp doc).Refines (Tracks d)
        (d.toStruct.own.foldr (fun f rest => if !f.optional && !f.ignore then
          .block (.cond (.notBit f)) (missing { fast := true, tracked := d.toStruct.own } f) rest
          else rest) .nil) fun p => d.toStruct.own.foldlM (rt.checkField d) p :=
      refines_checks hs.symm (fun f _ => rfl) fun f hf s p h =>
        congrArg Except.ok (decide_eq_decide.mpr (not_congr (h.bits hs f hf)))
    intro o s p h
    show Related _ ((rt.interp doc).exec (.block (.cond .notAll) _ .nil) o s) _
    rw [Interp.exec]
    show Related _ ((if !(List.range s.size).all (· ∈ s.bits) then _ else _ :
      Except (ParseError ε) (Flow × Store V M))) (d.toStruct.own.foldlM (rt.checkField d) p)
    by_cases hall : (List.range s.size).all (· ∈ s.bits) = true
    · rw [hall, if_neg (by simp), foldlM_checkField_of_marked]
      · exact ⟨⟨true, rfl⟩, h⟩
      · intro f hf
        rw [← h.bits hs f hf]
        have hlt : s.bitOf f ∈ List.range s.size := by
          rw [List.mem_range, h.size hs]
          exact bitOf_lt (h.constants hs) hf
        exact of_decide_eq_true (List.all_eq_true.mp hall _ hlt)
    · rw [Bool.not_eq_true] at hall
      rw [hall, if_pos (show (!false) = true from rfl)]
      have hgo := Interp.Refines.goOn (hbody true s p h) (g := .ok)
        (k := fun _ => (rt.interp doc).exec .nil false) fun _ s p h => ⟨⟨false, rfl⟩, h⟩
      rwa [Interp.bind_ok] at hgo
  | false =>
    refine refines_checks hs.symm (fun f hf => ?_) fun f hf s p h => ?_
    · rw [hchained f hf, Bool.not_false, Bool.and_true]
    · exact congrArg Except.ok (decide_eq_decide.mpr (not_congr (h.used hs f.name)))

theorem refines_genCommandDeserializer (h : d.Bound) :
    (rt.interp doc).Refines (Tracks d) (genCommandDeserializer d) fun p => rt.parseCommand d p := by
  unfold genCommandDeserializer parseCommand
  cases hc : d.commandField with
  | none =>
    by_cases hk : (d.isCommand && d.keepsElement) = true
    · rw [if_pos hk]
      simp only [if_pos hk]
      refine .line fun s p ht => ?_
      have hcall : call (ε := ε) (rt.parseNamespace (s.object.members "$db") s.commandElement) =
          call (rt.parseNamespace (p.object.members "$db") p.commandElement) := by
        rw [ht.object, ht.commandElement]
      show Related _ (call (rt.parseNamespace (s.object.members "$db") s.commandElement) >>= _) _
      rw [hcall]
      refine (Related.refl _).bind ?_
      rintro m _ rfl
      exact ⟨congrArg (fun o : Object M => { o with nss := some m }) ht.object, ht.commandElement,
        ht.first, ht.size, ht.constants, ht.bits, ht.used⟩
    · rw [if_neg hk]
      simp only [if_neg hk]
      exact .nil
  | some f =>
    refine .scope fun o s p ht => ?_
    have hR : Frame (V := V) (M := M) fun s q => Tracks d s q ∧ s.commandElement = p.commandElement :=
      ⟨fun h => h.1.object, fun h o => ⟨frame_tracks.setObject h.1 o, h.2⟩,
        fun h a k n ms => ⟨frame_tracks.setArray h.1 a k n ms, h.2⟩⟩
    have hfield : (rt.interp doc).Refines _ (genFieldDeserializer f .commandElement none).1
        (rt.parseField f p.commandElement .ok) :=
      refines_genFieldDeserializer hR
        (fun s q h => show s.operand .commandElement = p.commandElement from h.2)
        (h.commandField f hc).1 .nil
    exact (hfield o s p ⟨ht, ht.commandElement⟩).mono fun _ _ hr => ⟨hr.1, hr.2.1⟩

/-! ### The parser -/

theorem exec_declareBits (fs : List Ast.Field) (bit : ℕ) (s : Store V M) (c : Lines) :
    (rt.interp doc).exec (declareBits bit fs ++ c) true s = (rt.interp doc).exec c true
      { s with constants := (((fs.filter fun f => !f.chained).map (·.name)).zipIdx bit).reverse ++
        s.constants } := by
  induction fs generalizing bit s with
  | nil => rfl
  | cons f fs ih =>
    rw [declareBits, List.filter_cons]
    cases f.chained with
    | true => exact ih bit s
    | false =>
      show (rt.interp doc).exec (declareBits (bit + 1) fs ++ c) true
        { s with constants := (f.name, bit) :: s.constants } = _
      rw [ih, if_pos (show (!false) = true from rfl), List.map_cons, List.zipIdx_cons,
        List.reverse_cons, List.append_assoc]
      rfl

variable (rt d doc) in
/-- The first lines, on a new store. -/
theorem exec_prologue (c : Lines) : ∃ s, Tracks (V := V) (M := M) d s { commandElement := rt.eoo } ∧
    (rt.interp doc).exec (prologue d ++ c) true (.initial rt.eoo) = (rt.interp doc).exec c true s := by
  have hcommand : ∀ s : Store V M, s.commandElement = rt.eoo → s.firstFieldFound = false →
      (rt.interp doc).exec ((if d.isCommand then .line .declareCommandElement else .nil) ++ c) true s =
        (rt.interp doc).exec c true s := by
    intro s he hf
    cases d.isCommand with
    | false => rfl
    | true =>
      show (rt.interp doc).exec c true { s with
        commandElement := rt.eoo
        firstFieldFound := false } = _
      rw [← he, ← hf]
  unfold prologue getFieldUsageChecker
  cases hs : d.toStruct.strict with
  | false =>
    refine ⟨_, ?_, hcommand { Store.initial rt.eoo with used := [] } rfl rfl⟩
    refine ⟨rfl, rfl, rfl, fun h => ?_, fun h => ?_, fun h => ?_, fun _ _ => Iff.rfl⟩ <;>
    · rw [hs] at h
      cases h
  | true =>
    rw [Code.append_assoc]
    show ∃ s, _ ∧ (rt.interp doc).exec (declareBits 0 d.toStruct.fields ++ _) true
      { Store.initial rt.eoo with size := d.toStruct.fields.length } = _
    rw [exec_declareBits]
    refine ⟨_, ?_, hcommand _ rfl rfl⟩
    refine ⟨rfl, rfl, rfl, fun _ => rfl, fun _ => List.append_nil _, fun _ f _ => ?_, fun h => ?_⟩
    · exact iff_of_false List.not_mem_nil List.not_mem_nil
    · rw [hs] at h
      cases h

/-- The code and the parser on marks and members raise the same errors and build the same object. -/
theorem related_parseDocument (h : d.Bound) (doc : List (String × V)) :
    Related (fun s p => s.object = p.object)
      ((rt.interp doc).result (genBsonDeserializerMethods d) (.initial rt.eoo))
      (rt.parseDocument d doc) := by
  have hchained : ∀ f ∈ d.toStruct.parsedAfter, f.chained = true ∧ f.array = false ∧
      f.chainedStructField = none := fun f hf => by
    have hmem := List.mem_of_mem_filter hf
    have hc : f.chained = true := (Bool.and_eq_true_iff.mp (List.mem_filter.mp hf).2).1
    exact ⟨hc, h.struct.chained_array f hmem hc, (h.struct.chained f hmem hc).2⟩
  have hafter := (refines_chainedParsers rt doc hchained frame_tracks).append
    (refines_finalChecks.append (refines_genCommandDeserializer h))
  have hloop := Interp.Refines.loop (I := rt.interp doc) (l := .bsonObject)
    (q := fun _ => .ok doc) (fun _ _ _ => rfl)
    (show ∀ s p e, Tracks d s p → Related (Tracks d)
      ((rt.interp doc).result (loopBody d) ((rt.interp doc).enter .bsonObject e s))
      (rt.parseElement d p e) from fun s p e ht => related_loopBody s p e ht) hafter
  obtain ⟨s, hs, hexec⟩ := exec_prologue rt d doc
    (.block (.loop .bsonObject) (loopBody d) (chainedParsers d.toStruct.parsedAfter ++
      (finalChecks d ++ genCommandDeserializer d)))
  rw [Interp.result, genBsonDeserializerMethods_eq h.struct, hexec]
  exact (Interp.related_result (hloop true s _ hs)).mono fun _ _ ht => ht.object

/-- **The generated code is the parser on marks and members**, errors included. -/
theorem parseProtected_eq (h : d.Bound) (doc : List (String × V)) :
    rt.parseProtected d doc = Progress.object <$> rt.parseDocument d doc :=
  Related.map_eq (related_parseDocument h doc)

/-- The parser of the sample struct, which is strict and has a chained struct. -/
theorem parseProtected_eq_sample :
    sampleRuntime.parseProtected (.struct sampleStruct) [("b", .number 2), ("b", .number 3)] =
      Progress.object <$> sampleRuntime.parseDocument (.struct sampleStruct)
        [("b", .number 2), ("b", .number 3)] :=
  parseProtected_eq sampleStruct_bound _

end MongoTests.Idl.Generator.Runtime
