import MongoTests.Idl.FieldUsage
import MongoTests.Idl.GeneratedNames

/-!
# The two field usage checkers

A strict struct is parsed with a bit for each field, another one with the set of all names.

* `lax`: the struct with the other checker; **`strict_agrees`**: both accept the same documents, with
  the same objects, if every element is known and none is skipped;
* **`has_iff`**: which required fields the object has; `has_of_strict`: all, after a strict parser;
* **`lax_ignores_unknown`**: elements of other names make no difference, if no name repeats.
-/

namespace MongoTests.Idl.Generator.Runtime

open MongoTests.Lib

variable {V M ε : Type} {rt : Runtime V M ε} {d : Ast.Definition} {s : Ast.Struct}
  {f : Ast.Field} {doc : List (String × V)} {e : String × V} {o : Object M}

/-- The struct that is not strict. -/
def lax (s : Ast.Struct) : Ast.Struct := { s with strict := false }

theorem bound_lax (h : s.Bound) : (lax s).Bound := ⟨h.nodup, h.chained, h.chained_array, h.outer⟩

theorem bound_struct (h : s.Bound) : (Ast.Definition.struct s).Bound := ⟨h, fun _ h => nomatch h⟩

/-- The element has the name of a field of the document. -/
def Known (s : Ast.Struct) (e : String × V) : Prop := ∃ f ∈ s.own, f.name = e.1

theorem find?_of_known (h : Known s e) : ∃ f ∈ s.own, f.name = e.1 ∧
    s.own.find? (·.name = e.1) = some f := by
  obtain ⟨g, hg, hname⟩ := h
  cases hfind : s.own.find? (·.name = e.1) with
  | none => exact absurd (decide_eq_true hname) (List.find?_eq_none.mp hfind g hg)
  | some f => exact ⟨f, List.mem_of_find?_eq_some hfind, of_decide_eq_true (List.find?_some hfind :),
      rfl⟩

/-- A known element is read in the same way. -/
theorem use_lax (h : Known s e) : rt.use (.struct (lax s)) e = rt.use (.struct s) e := by
  obtain ⟨f, -, -, hfind⟩ := find?_of_known h
  have hlax : (lax s).own.find? (·.name = e.1) = some f := hfind
  unfold use
  rw [show (Ast.Definition.struct (lax s)).toStruct.own.find? (·.name = e.1) = some f from hlax,
    show (Ast.Definition.struct s).toStruct.own.find? (·.name = e.1) = some f from hfind]

/-- The field of an element that is used has its name. -/
theorem name_of_use {u : Ast.Field × Option M} (h : rt.use d e = .ok (some u)) :
    u.1 ∈ d.toStruct.own ∧ u.1.name = e.1 := by
  unfold use at h
  cases hfind : d.toStruct.own.find? (·.name = e.1) with
  | none =>
    rw [hfind] at h
    dsimp only at h
    split_ifs at h
    cases h
  | some f =>
    have hf : f ∈ d.toStruct.own ∧ f.name = e.1 :=
      ⟨List.mem_of_find?_eq_some hfind, of_decide_eq_true (List.find?_some hfind :)⟩
    rw [hfind] at h
    dsimp only at h
    split_ifs at h with hignore
    · cases h
      exact hf
    · obtain ⟨w, -, hw⟩ := (map_eq_ok (f := fun w : Option M => w.map fun m => (f, some m))).mp h
      cases w with
      | none => cases hw
      | some m =>
        cases hw
        exact hf

theorem use_of_used {u : Ast.Field × Option M} (h : rt.used d e = some u) :
    rt.use d e = .ok (some u) := by
  unfold used at h
  split at h
  · next hu => rw [hu, h]
  · cases h

/-! ## Agreement -/

/-- Each element is known, and none is skipped by the check of its type. -/
def Plain (rt : Runtime V M ε) (s : Ast.Struct) (doc : List (String × V)) : Prop :=
  ∀ e ∈ doc, Known s e ∧ rt.use (.struct s) e ≠ .ok none

theorem markOf_of_use {u : Ast.Field × Option M} (h : rt.use d e = .ok (some u)) :
    rt.markOf d e = some e.1 := by
  unfold markOf used
  rw [h]
  split_ifs
  · exact congrArg some (name_of_use h).2
  · rfl

theorem markOf_lax (h : Plain rt s doc) (hread : ∀ e ∈ doc, ∃ u, rt.use (.struct s) e = .ok u)
    (he : e ∈ doc) : rt.markOf (.struct (lax s)) e = rt.markOf (.struct s) e := by
  obtain ⟨hknown, hnone⟩ := h e he
  obtain ⟨u, hu⟩ := hread e he
  cases u with
  | none => exact absurd hu hnone
  | some u =>
    have hlax : rt.use (.struct (lax s)) e = .ok (some u) := (use_lax hknown).trans hu
    rw [markOf_of_use hu, markOf_of_use hlax]

theorem marks_lax (h : Plain rt s doc) (hread : ∀ e ∈ doc, ∃ u, rt.use (.struct s) e = .ok u) :
    rt.marks (.struct (lax s)) doc = rt.marks (.struct s) doc :=
  List.filterMap_congr fun _ he => markOf_lax h hread he

theorem advance_lax (hknown : Known s e) :
    rt.advance (.struct (lax s)) o e = rt.advance (.struct s) o e := by
  unfold advance used
  rw [use_lax hknown]

/-- A field without a misplaced default gets the same default. -/
theorem putDefault_lax (hplaced : ∀ f, ¬ Misplaced s f) {ms : List String} (hf : f ∈ s.own)
    (hdefault : asksFor ms f = true → f.hasDefault = true) :
    rt.putDefault (.struct (lax s)) ms o f = rt.putDefault (.struct s) ms o f := by
  unfold putDefault
  by_cases ha : asksFor ms f = true
  · have hnone : f.chainedStructField = none := by
      by_contra hsome
      have hparts : (!f.optional && !f.ignore) = true := (Bool.and_eq_true_iff.mp ha).1
      rw [Bool.and_eq_true, Bool.not_eq_true', Bool.not_eq_true'] at hparts
      exact hplaced f ⟨hf, hparts.1, hparts.2, hdefault ha, Option.isSome_iff_ne_none.mpr hsome⟩
    have hput : rt.put f (rt.default f) o = o.assign f.name (rt.default f) := by
      rw [put, hnone]
    rw [if_pos ha, if_pos ha, hput, ite_self, ite_self]
  · rw [if_neg ha, if_neg ha]

theorem checkDefault_lax (hplaced : ∀ f, ¬ Misplaced s f) {ms : List String} (hf : f ∈ s.own)
    (ha : asksFor ms f = true) (hdefault : f.hasDefault = true) :
    rt.checkDefault (.struct (lax s)) f = rt.checkDefault (.struct s) f := by
  have hparts : (!f.optional && !f.ignore) = true := (Bool.and_eq_true_iff.mp ha).1
  rw [Bool.and_eq_true, Bool.not_eq_true', Bool.not_eq_true'] at hparts
  have hnone : f.chainedStructField.isSome = false := by
    cases hsome : f.chainedStructField.isSome with
    | false => rfl
    | true => exact absurd ⟨hf, hparts.1, hparts.2, hdefault, hsome⟩ (hplaced f)
  unfold checkDefault
  rw [hnone, Bool.and_false, Bool.and_false]

theorem foldl_congr_of_mem {α β : Type} {g g' : β → α → β} {l : List α} {b : β}
    (h : ∀ b, ∀ a ∈ l, g b a = g' b a) : l.foldl g b = l.foldl g' b := by
  induction l generalizing b with
  | nil => rfl
  | cons a l ih =>
    rw [List.foldl_cons, List.foldl_cons, h b a List.mem_cons_self]
    exact ih fun b a' ha' => h b a' (List.mem_cons_of_mem a ha')

theorem objectOf_lax (h : Plain rt s doc) (hplaced : ∀ f, ¬ Misplaced s f)
    (hmarks : rt.marks (.struct (lax s)) doc = rt.marks (.struct s) doc)
    (hdefault : ∀ f ∈ s.own, asksFor (rt.marks (.struct s) doc) f = true → f.hasDefault = true) :
    rt.objectOf (.struct (lax s)) doc = rt.objectOf (.struct s) doc := by
  have hadvance : (elements (.struct (lax s)) doc).foldl (rt.advance (.struct (lax s))) {} =
      (elements (.struct s) doc).foldl (rt.advance (.struct s)) {} :=
    foldl_congr_of_mem fun _ e he => advance_lax (h e he).1
  unfold objectOf
  rw [hmarks, hadvance]
  exact foldl_congr_of_mem fun _ f hf => putDefault_lax hplaced hf (hdefault f hf)

/-- **Where the two checkers agree**: on documents whose elements are all known and never skipped by
the check of their type, if no default is misplaced. -/
theorem strict_agrees (h : s.Bound) (hplaced : ∀ f, ¬ Misplaced s f) (hplain : Plain rt s doc) :
    rt.parseProtected (.struct s) doc = .ok o ↔
      rt.parseProtected (.struct (lax s)) doc = .ok o := by
  have hread : (∀ e ∈ doc, ∃ u, rt.use (.struct (lax s)) e = .ok u) ↔
      ∀ e ∈ doc, ∃ u, rt.use (.struct s) e = .ok u :=
    forall₂_congr fun e he => by rw [use_lax (hplain e he).1]
  rw [parseProtected_eq_ok (bound_struct h), parseProtected_eq_ok (bound_struct (bound_lax h))]
  constructor
  · rintro ⟨haccepts, ho⟩
    have hmarks := marks_lax hplain haccepts.read
    have hobject := objectOf_lax hplain hplaced hmarks fun f hf ha => (haccepts.complete f hf ha).1
    refine ⟨⟨hread.mpr haccepts.read, hmarks ▸ haccepts.once, haccepts.chained, fun f hf ha => ?_⟩,
      ?_⟩
    · rw [hmarks] at ha
      obtain ⟨hdefault, hcheck⟩ := haccepts.complete f hf ha
      exact ⟨hdefault, (checkDefault_lax hplaced hf ha hdefault).trans hcheck⟩
    · rw [hobject]
      exact ho
  · rintro ⟨haccepts, ho⟩
    have hreads := hread.mp haccepts.read
    have hmarks := marks_lax hplain hreads
    have hasks : ∀ f ∈ s.own, asksFor (rt.marks (.struct s) doc) f = true →
        f.hasDefault = true ∧ rt.checkDefault (.struct (lax s)) f = .ok () := fun f hf ha =>
      haccepts.complete f hf (by rw [hmarks]; exact ha)
    have hobject := objectOf_lax hplain hplaced hmarks fun f hf ha => (hasks f hf ha).1
    refine ⟨⟨hreads, hmarks ▸ haccepts.once, haccepts.chained, fun f hf ha => ?_⟩, ?_⟩
    · obtain ⟨hdefault, hcheck⟩ := hasks f hf ha
      exact ⟨hdefault, (checkDefault_lax hplaced hf ha hdefault).symm.trans hcheck⟩
    · rw [← hobject]
      exact ho

/-- A struct with a required, an optional and an ignored field. -/
def sampleRequest : Ast.Struct where
  loc := ⟨"sample.idl", 1, 1⟩
  name := "request"
  cppName := "request"
  description := none
  strict := true
  immutable := false
  inlineChainedStructs := false
  generateComparisonOperators := false
  fields := [
    { loc := ⟨"sample.idl", 2, 1⟩, name := "n", bsonSerializationType := some ["int"] },
    { loc := ⟨"sample.idl", 3, 1⟩, name := "ns", optional := true, array := true,
      bsonSerializationType := some ["int"] },
    { loc := ⟨"sample.idl", 4, 1⟩, name := "old", ignore := true,
      bsonSerializationType := some ["int"] }]

theorem sampleRequest_bound : sampleRequest.Bound := by
  refine ⟨by decide, by decide, by decide, ?_⟩
  simp [sampleRequest]

theorem strict_agrees_sample : sampleRuntime.parseProtected (.struct sampleRequest)
      [("old", .null), ("n", .number 2)] =
        .ok (({} : Object (List Bson)).setHas "n" |>.assign "n" [.number 2]) ↔
    sampleRuntime.parseProtected (.struct (lax sampleRequest)) [("old", .null), ("n", .number 2)] =
        .ok (({} : Object (List Bson)).setHas "n" |>.assign "n" [.number 2]) := by
  refine strict_agrees sampleRequest_bound ?_ ?_
  · rintro f ⟨hf, -, -, -, hsome⟩
    revert hsome
    exact (by decide : ∀ f ∈ sampleRequest.own, ¬ f.chainedStructField.isSome = true) f hf
  · intro e he
    simp only [List.mem_cons, List.not_mem_nil, or_false] at he
    obtain rfl | rfl := he
    · exact ⟨⟨_, List.mem_of_getElem? (i := 2) rfl, rfl⟩, fun h => nomatch Except.ok.inj h⟩
    · exact ⟨⟨_, List.mem_of_getElem? (i := 0) rfl, rfl⟩, fun h => nomatch Except.ok.inj h⟩

/-! ## Flags -/

@[simp] theorem has_assign (o : Object M) (name : String) (m : M) : (o.assign name m).has = o.has := rfl

@[simp] theorem has_put (f : Ast.Field) (m : M) (o : Object M) : (rt.put f m o).has = o.has := by
  unfold put
  split <;> rfl

@[simp] theorem has_putChained (o : Object M) (f : Ast.Field) :
    (rt.putChained doc o f).has = o.has := by
  unfold putChained
  split
  · exact has_put f _ o
  · rfl

@[simp] theorem has_putDefault (ms : List String) (o : Object M) (f : Ast.Field) :
    (rt.putDefault d ms o f).has = o.has := by
  unfold putDefault
  split_ifs
  · exact has_put f _ o
  · rfl
  · rfl

/-- A part of the state that no step of a loop changes. -/
theorem foldl_unchanged {α β γ : Type} {g : β → α → β} {p : β → γ} (hg : ∀ b a, p (g b a) = p b)
    (l : List α) (b : β) : p (l.foldl g b) = p b := by
  induction l generalizing b with
  | nil => rfl
  | cons a l ih => rw [List.foldl_cons, ih, hg]

/-- The flags after an element. -/
theorem has_advance (o : Object M) (e : String × V) (name : String) :
    (rt.advance d o e).has name = true ↔ o.has name = true ∨ ∃ f m,
      rt.used d e = some (f, some m) ∧ f.isRequiredSerializerField = true ∧ f.name = name := by
  unfold advance
  match rt.used d e with
  | none => simp
  | some (f, none) => simp
  | some (f, some m) =>
    dsimp only
    rw [has_put]
    cases hrequired : f.isRequiredSerializerField with
    | false => simp [hrequired]
    | true =>
      rw [if_pos rfl]
      show Function.update o.has f.name true name = true ↔ _
      by_cases hname : f.name = name
      · subst hname
        simp [hrequired]
      · rw [Function.update_of_ne (Ne.symm hname)]
        simp [hname]

theorem has_foldl_advance (es : List (String × V)) (o : Object M) (name : String) :
    (es.foldl (rt.advance d) o).has name = true ↔ o.has name = true ∨ ∃ e ∈ es, ∃ f m,
      rt.used d e = some (f, some m) ∧ f.isRequiredSerializerField = true ∧ f.name = name := by
  induction es generalizing o with
  | nil => simp
  | cons e es ih => rw [List.foldl_cons, ih, has_advance, or_assoc, List.exists_mem_cons_iff]

/-- An accepted object has the flags of the required fields that an element has a value for. -/
theorem has_iff (h : d.Bound) (hparse : rt.parseProtected d doc = .ok o) (name : String) :
    o.has name = true ↔ ∃ e ∈ elements d doc, ∃ f m,
      rt.used d e = some (f, some m) ∧ f.isRequiredSerializerField = true ∧ f.name = name := by
  obtain ⟨-, ho⟩ := (parseProtected_eq_ok h).mp hparse
  have hcommand : o.has = (rt.objectOf d doc).has := by
    unfold commandObject at ho
    split at ho
    · obtain ⟨w, -, hw⟩ := (map_eq_ok (f := fun w : Option M => w.elim (rt.objectOf d doc)
        fun m => rt.put _ m (rt.objectOf d doc))).mp ho
      cases w with
      | none => rw [← hw]; rfl
      | some m => rw [← hw]; exact has_put _ m _
    · split_ifs at ho
      · obtain ⟨m, -, hm⟩ := (map_eq_ok
          (f := fun m => { rt.objectOf d doc with nss := some m })).mp ho
        rw [← hm]
      · rw [← Except.ok.inj ho]
  rw [hcommand, objectOf, foldl_unchanged (p := Object.has) fun o f => has_putDefault _ o f,
    foldl_unchanged (p := Object.has) has_putChained, has_foldl_advance]
  exact or_iff_right (show ¬ false = true from Bool.false_ne_true)

/-- Two fields of the document with one name. -/
theorem own_inj (h : d.Bound) {g : Ast.Field} (hf : f ∈ d.toStruct.own) (hg : g ∈ d.toStruct.own)
    (hname : f.name = g.name) : f = g :=
  List.inj_on_of_nodup_map h.struct.nodup (List.mem_of_mem_filter hf) (List.mem_of_mem_filter hg)
    hname

/-- A field that is used has a value, unless it is ignored. -/
theorem value_of_use (h : rt.use d e = .ok (some (f, none))) : f.ignore = true := by
  unfold use at h
  cases hfind : d.toStruct.own.find? (·.name = e.1) with
  | none =>
    rw [hfind] at h
    dsimp only at h
    split_ifs at h
    cases h
  | some g =>
    rw [hfind] at h
    dsimp only at h
    split_ifs at h with hignore
    · cases h
      exact hignore
    · obtain ⟨w, -, hw⟩ := (map_eq_ok (f := fun w : Option M => w.map fun m => (g, some m))).mp h
      cases w <;> cases hw

/-- The invariant that the generated serializer checks. -/
def SerializerInvariant (s : Ast.Struct) (o : Object M) : Prop :=
  ∀ f ∈ s.fields, f.isRequiredSerializerField = true → o.has f.name = true

theorem parts_of_required (hrequired : f.isRequiredSerializerField = true) : f.ignore = false ∧
    f.optional = false ∧ f.hasDefault = false ∧ f.chained = false ∧
      f.chainedStructField.isNone = true := by
  unfold Ast.Field.isRequiredSerializerField at hrequired
  simpa [and_assoc] using hrequired

/-- The elements that a struct knows. -/
def knownElements (s : Ast.Struct) (doc : List (String × V)) : List (String × V) :=
  doc.filter fun e => e.1 ∈ s.own.map (·.name)

theorem use_of_unknown (hs : s.strict = false) (h : e.1 ∉ s.own.map (·.name)) :
    rt.use (.struct s) e = .ok none := by
  have hfind : (Ast.Definition.struct s).toStruct.own.find? (·.name = e.1) = none := by
    refine List.find?_eq_none.mpr fun f hf hname => h ?_
    exact of_decide_eq_true hname ▸ List.mem_map_of_mem hf
  have hstrict : (Ast.Definition.struct s).toStruct.strict = false := hs
  unfold use
  rw [hfind, hstrict]
  rfl

theorem foldl_knownElements (hs : s.strict = false) (o : Object M) :
    (knownElements s doc).foldl (rt.advance (.struct s)) o = doc.foldl (rt.advance (.struct s)) o := by
  unfold knownElements
  induction doc generalizing o with
  | nil => rfl
  | cons e es ih =>
    rw [List.filter_cons, List.foldl_cons]
    split_ifs with hmem
    · rw [List.foldl_cons, ih]
    · have hskip : rt.advance (.struct s) o e = o := by
        rw [advance, used, use_of_unknown hs fun h => hmem (decide_eq_true h)]
      rw [hskip, ih]

/-- **A parser that is not strict ignores other elements**, if no name repeats and no chained field
reads the whole document. -/
theorem lax_ignores_unknown (h : s.Bound) (hs : s.strict = false) (hafter : s.parsedAfter = [])
    (hnodup : (doc.map Prod.fst).Nodup) : rt.parseProtected (.struct s) doc = .ok o ↔
      rt.parseProtected (.struct s) (knownElements s doc) = .ok o := by
  have hmarks : ∀ doc, rt.marks (.struct s) doc = doc.map Prod.fst := fun doc => by
    have hmark : ∀ e, rt.markOf (.struct s) e = some e.1 := fun e => if_neg (by
      rw [show (Ast.Definition.struct s).toStruct.strict = false from hs]
      exact Bool.false_ne_true)
    rw [← List.filterMap_eq_map]
    exact List.filterMap_congr fun e _ => hmark e
  have hasks : ∀ f ∈ s.own, asksFor (rt.marks (.struct s) (knownElements s doc)) f =
      asksFor (rt.marks (.struct s) doc) f := fun f hf => by
    have hmem : f.name ∈ (knownElements s doc).map Prod.fst ↔ f.name ∈ doc.map Prod.fst := by
      simp only [knownElements, List.mem_map, List.mem_filter, decide_eq_true_eq]
      constructor
      · rintro ⟨e, ⟨he, -⟩, hname⟩
        exact ⟨e, he, hname⟩
      · rintro ⟨e, he, hname⟩
        exact ⟨e, ⟨he, f, hf, hname.symm⟩, hname⟩
    rw [asksFor, asksFor, hmarks, hmarks, decide_eq_decide.mpr (not_congr hmem)]
  have hobject : rt.objectOf (.struct s) (knownElements s doc) = rt.objectOf (.struct s) doc := by
    have hnone : (Ast.Definition.struct s).toStruct.parsedAfter = [] := hafter
    have helements : ∀ doc : List (String × V), elements (.struct s) doc = doc := fun _ => rfl
    rw [objectOf, objectOf, hnone, helements, helements, foldl_knownElements hs]
    refine foldl_congr_of_mem fun o f hf => ?_
    rw [putDefault, putDefault, hasks f hf]
  have hcommand : ∀ doc o', rt.commandObject (.struct s) (rt.commandElement (.struct s) doc) o' =
      .ok o' := fun _ _ => rfl
  rw [parseProtected_eq_ok (bound_struct h), parseProtected_eq_ok (bound_struct h), hcommand,
    hcommand, hobject]
  refine and_congr_left fun _ => ?_
  constructor
  · intro haccepts
    refine ⟨fun e he => haccepts.read e (List.mem_of_mem_filter he), ?_, fun f hf => ?_,
      fun f hf ha => haccepts.complete f hf (hasks f hf ▸ ha)⟩
    · rw [hmarks]
      exact hnodup.sublist (List.filter_sublist.map _)
    · rw [show (Ast.Definition.struct s).toStruct.parsedAfter = [] from hafter] at hf
      cases hf
  · intro haccepts
    refine ⟨fun e he => ?_, ?_, fun f hf => ?_,
      fun f hf ha => haccepts.complete f hf ((hasks f hf).trans ha)⟩
    · by_cases hmem : e.1 ∈ s.own.map (·.name)
      · exact haccepts.read e (List.mem_filter.mpr ⟨he, decide_eq_true hmem⟩)
      · exact ⟨none, use_of_unknown hs hmem⟩
    · rw [hmarks]
      exact hnodup
    · rw [show (Ast.Definition.struct s).toStruct.parsedAfter = [] from hafter] at hf
      cases hf

theorem lax_ignores_unknown_sample : sampleRuntime.parseProtected (.struct (lax sampleRequest))
      [("x", .null), ("n", .number 2)] =
        .ok (({} : Object (List Bson)).setHas "n" |>.assign "n" [.number 2]) ↔
    sampleRuntime.parseProtected (.struct (lax sampleRequest))
      (knownElements (lax sampleRequest) [("x", .null), ("n", .number 2)]) =
        .ok (({} : Object (List Bson)).setHas "n" |>.assign "n" [.number 2]) :=
  lax_ignores_unknown (bound_lax sampleRequest_bound) rfl rfl (by decide)

end MongoTests.Idl.Generator.Runtime
