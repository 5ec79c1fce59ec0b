import MongoTests.Lib.Document
import MongoTests.Lib.Checked

/-!
# Pipelines inside of a facet

`implicitly_wrap_pipelines_in_facets.js`. What the stages of the server mean is a parameter.

* `runCommand`: the command that the original function gets, where `mayWrap` is a stage that the loop
  lets pass;
* `Server`, `Server.Documented`: the stages that the override adds;
* **`pipeline_runCommand`**: every aggregation has the results that it has without the override.
-/

namespace MongoTests.Override.WrapFacets

open MongoTests.Lib Doc

def stagesDisallowedInsideFacet : List String :=
  ["$changeStream", "$collStats", "$facet", "$geoNear", "$indexStats", "$merge", "$out"]

/-- The loop goes on after the stage. -/
def mayWrap (stageSpec : Value) : Bool :=
  stageSpec.isObject &&
    (match stageSpec.get "$match" with
    | .object spec => !Obj.has spec "$text" && !spec.isEmpty
    | .array vs => !vs.isEmpty
    | _ => true) &&
    !stagesDisallowedInsideFacet.any fun stage => stageSpec.entries.has stage

/-- The wrapped pipeline. -/
def wrap (originalPipeline : List Value) : List Value := [
  .object [("$facet", .object [("originalPipeline", .array originalPipeline)])],
  .object [("$unwind", .string "$originalPipeline")],
  .object [("$replaceRoot", .object [("newRoot", .string "$originalPipeline")])]]

/-- The pipeline of an aggregation. -/
def pipelineOf (cmdObj : Value) : Option (List Value) :=
  match cmdObj with
  | .object o => if !Obj.has o "aggregate" then none else
    match Obj.get o "pipeline" with
    | .array ps => some ps
    | _ => none
  | _ => none

/-- The command that the original function gets. -/
def runCommand (cmdObj : Value) : Value :=
  match cmdObj, pipelineOf cmdObj with
  | .object o, some originalPipeline =>
    if originalPipeline.isEmpty || !originalPipeline.all mayWrap then cmdObj
    else .object (Obj.set o "pipeline" (.array (wrap originalPipeline)))
  | _, _ => cmdObj

/-! ## The server -/

/-- What each stage makes of the documents, and the stages that may stand inside of a facet. -/
structure Server (ε : Type) where
  stage : Value → List Value → Except ε (List Value)
  InFacet : Value → Prop

variable {ε : Type} {sv : Server ε} {cmdObj : Value} {ps docs : List Value}

def Server.pipeline (sv : Server ε) (ps docs : List Value) : Except ε (List Value) :=
  ps.foldlM (fun docs stageSpec => sv.stage stageSpec docs) docs

/-- A document for each element of an array. -/
def unwind (name : String) (d : Value) : List Value :=
  match d with
  | .object o => match Obj.get o name with
    | .array vs => vs.map fun v => .object (Obj.set o name v)
    | .undefined | .null => []
    | _ => [d]
  | _ => [d]

def IsDocument (d : Value) : Prop := ∃ o, d = .object o

/-- The stages that the override adds. -/
structure Server.Documented (sv : Server ε) : Prop where
  facet : ∀ name ps docs, ps ≠ [] → (∀ p ∈ ps, sv.InFacet p) →
    sv.stage (.object [("$facet", .object [(name, .array ps)])]) docs =
      (fun out => [.object [(name, .array out)]]) <$> sv.pipeline ps docs
  unwind : ∀ name docs, sv.stage (.object [("$unwind", .string ("$" ++ name))]) docs =
    .ok (docs.flatMap (unwind name))
  replaceRoot : ∀ name docs, (∀ d ∈ docs, IsDocument (d.get name)) →
    sv.stage (.object [("$replaceRoot", .object [("newRoot", .string ("$" ++ name))])]) docs =
      .ok (docs.map fun d => d.get name)
  /-- A stage makes documents of documents. -/
  document : ∀ p docs out, (∀ d ∈ docs, IsDocument d) → sv.stage p docs = .ok out →
    ∀ d ∈ out, IsDocument d

/-- The results of an aggregation; another command has none. -/
def Server.aggregate (sv : Server ε) (cmdObj : Value) (docs : List Value) :
    Option (Except ε (List Value)) :=
  (pipelineOf cmdObj).map fun ps => sv.pipeline ps docs

theorem isDocument_pipeline (h : sv.Documented) (hdocs : ∀ d ∈ docs, IsDocument d)
    {out : List Value} (hout : sv.pipeline ps docs = .ok out) : ∀ d ∈ out, IsDocument d := by
  induction ps generalizing docs with
  | nil =>
    obtain rfl := Except.ok.inj hout
    exact hdocs
  | cons p ps ih =>
    obtain ⟨next, hnext, hrest⟩ := bind_eq_ok.mp hout
    exact ih (h.document p docs next hdocs hnext) hrest

/-- The facet collects the results, and the stages after it spread them out again. -/
theorem pipeline_wrap (h : sv.Documented) (hne : ps ≠ []) (hfacet : ∀ p ∈ ps, sv.InFacet p)
    (hdocs : ∀ d ∈ docs, IsDocument d) : sv.pipeline (wrap ps) docs = sv.pipeline ps docs := by
  have hwrap : sv.pipeline (wrap ps) docs =
      (sv.stage (.object [("$facet", .object [("originalPipeline", .array ps)])]) docs >>= fun docs =>
        sv.stage (.object [("$unwind", .string ("$" ++ "originalPipeline"))]) docs >>= fun docs =>
          sv.stage (.object [("$replaceRoot",
            .object [("newRoot", .string ("$" ++ "originalPipeline"))])]) docs) := by
    unfold Server.pipeline wrap
    simp only [List.foldlM_cons, List.foldlM_nil, bind_pure]
    rfl
  rw [hwrap, h.facet _ _ _ hne hfacet]
  cases hout : sv.pipeline ps docs with
  | error e => rfl
  | ok out =>
    show (sv.stage _ [.object [("originalPipeline", .array out)]] >>= _) = _
    rw [h.unwind]
    show sv.stage _ _ = _
    have hspread : [Value.object [("originalPipeline", .array out)]].flatMap
        (unwind "originalPipeline") = out.map fun v => .object [("originalPipeline", v)] := by
      rw [List.flatMap_singleton]
      rfl
    rw [hspread, h.replaceRoot]
    · rw [List.map_map]
      exact congrArg Except.ok (List.map_id out)
    · intro d hd
      obtain ⟨v, hv, rfl⟩ := List.mem_map.mp hd
      exact isDocument_pipeline h hdocs hout v hv

theorem pipelineOf_set {o : Obj} (hpipeline : pipelineOf (.object o) = some ps) (qs : List Value) :
    pipelineOf (.object (Obj.set o "pipeline" (.array qs))) = some qs := by
  unfold pipelineOf at hpipeline ⊢
  dsimp only at hpipeline ⊢
  rw [Obj.has_set_of_ne (by decide), Obj.get, Obj.get?_set_self]
  split_ifs at hpipeline ⊢
  rfl

/-- **Every aggregation has the results that it has without the override**, if the server lets the
stages stand inside of a facet that the loop lets pass. -/
theorem pipeline_runCommand (h : sv.Documented)
    (hallowed : ∀ ps, pipelineOf cmdObj = some ps → ∀ p ∈ ps, mayWrap p = true → sv.InFacet p)
    (hdocs : ∀ d ∈ docs, IsDocument d) :
    sv.aggregate (runCommand cmdObj) docs = sv.aggregate cmdObj docs := by
  unfold runCommand
  split
  · next o ps hpipeline =>
    split_ifs with hskip
    · rfl
    · rw [Bool.or_eq_true, not_or, Bool.not_eq_true', Bool.not_eq_false] at hskip
      obtain ⟨hempty, hall⟩ := hskip
      have hne : ps ≠ [] := fun h => hempty (by rw [h]; rfl)
      have hfacet : ∀ p ∈ ps, sv.InFacet p := fun p hp =>
        hallowed ps hpipeline p hp (List.all_eq_true.mp hall p hp)
      unfold Server.aggregate
      rw [pipelineOf_set hpipeline, hpipeline, Option.map_some, Option.map_some,
        pipeline_wrap h hne hfacet hdocs]
  · rfl

/-! ## A sample -/

/-- The name after the dollar sign. -/
def fieldPath (s : String) : String := String.ofList (s.toList.drop 1)

theorem fieldPath_append (name : String) : fieldPath ("$" ++ name) = name := by
  unfold fieldPath
  rw [String.toList_append]
  exact String.ofList_toList

instance : DecidablePred IsDocument := fun d =>
  match d with
  | .object o => .isTrue ⟨o, rfl⟩
  | .undefined | .null | .boolean _ | .number _ | .string _ | .array _ => .isFalse (by rintro ⟨o, ⟨⟩⟩)

/-- A server with a stage for the first document. -/
def sampleServer : Server String where
  stage
    | .object [("$limit", .number _)], docs => .ok (docs.take 1)
    | .object [("$facet", .object [(name, .array ps)])], docs =>
      .ok [.object [(name, .array (if ps.isEmpty then docs else docs.take 1))]]
    | .object [("$unwind", .string s)], docs => .ok (docs.flatMap (unwind (fieldPath s)))
    | .object [("$replaceRoot", .object [("newRoot", .string s)])], docs =>
      if ∀ d ∈ docs, IsDocument (d.get (fieldPath s)) then .ok (docs.map (·.get (fieldPath s)))
      else .error "newRoot must be a document"
    | _, _ => .error "unknown stage"
  InFacet p := ∃ x, p = .object [("$limit", .number x)]

theorem pipeline_sampleServer {ps : List Value} (h : ∀ p ∈ ps, sampleServer.InFacet p)
    (docs : List Value) :
    sampleServer.pipeline ps docs = .ok (if ps.isEmpty then docs else docs.take 1) := by
  induction ps generalizing docs with
  | nil => rfl
  | cons p ps ih =>
    obtain ⟨⟨x, rfl⟩, hps⟩ := List.forall_mem_cons.mp h
    show sampleServer.pipeline ps (docs.take 1) = _
    rw [ih hps, List.take_take, Nat.min_self, ite_self]
    rfl

theorem isDocument_unwind {name : String} {d v : Value} (hd : IsDocument d)
    (hv : v ∈ unwind name d) : IsDocument v := by
  obtain ⟨o, rfl⟩ := hd
  unfold unwind at hv
  dsimp only at hv
  split at hv
  · obtain ⟨w, -, rfl⟩ := List.mem_map.mp hv
    exact ⟨_, rfl⟩
  · cases hv
  · cases hv
  · exact ⟨o, List.mem_singleton.mp hv⟩

theorem sampleServer_documented : sampleServer.Documented where
  facet name ps docs _ hfacet := by
    rw [pipeline_sampleServer hfacet]
    rfl
  unwind name docs := by
    show Except.ok (docs.flatMap (unwind (fieldPath ("$" ++ name)))) = _
    rw [fieldPath_append]
  replaceRoot name docs hdocs := by
    show (if ∀ d ∈ docs, IsDocument (d.get (fieldPath ("$" ++ name))) then
      Except.ok (docs.map (·.get (fieldPath ("$" ++ name)))) else _) = _
    rw [fieldPath_append, if_pos hdocs]
  document p docs out hdocs hout := by
    unfold sampleServer at hout
    dsimp only at hout
    split at hout
    · obtain rfl := Except.ok.inj hout
      exact fun d hd => hdocs d (List.mem_of_mem_take hd)
    · obtain rfl := Except.ok.inj hout
      intro d hd
      rw [List.mem_singleton.mp hd]
      exact ⟨_, rfl⟩
    · obtain rfl := Except.ok.inj hout
      intro d hd
      obtain ⟨d', hd', hd⟩ := List.mem_flatMap.mp hd
      exact isDocument_unwind (hdocs d' hd') hd
    · split_ifs at hout with hall
      obtain rfl := Except.ok.inj hout
      intro d hd
      obtain ⟨d', hd', rfl⟩ := List.mem_map.mp hd
      exact hall d' hd'
    · cases hout

def sampleAggregate : Value :=
  .object [("aggregate", .string "c"), ("pipeline", .array [.object [("$limit", .number (.fin 1))]])]

theorem pipeline_runCommand_sample :
    sampleServer.aggregate (runCommand sampleAggregate) [.object [("a", .null)], .object []] =
      sampleServer.aggregate sampleAggregate [.object [("a", .null)], .object []] :=
  pipeline_runCommand sampleServer_documented
    (by
      rintro ps hps p hp -
      obtain rfl := Option.some.inj hps
      exact ⟨_, List.mem_singleton.mp hp⟩)
    (by decide)

end MongoTests.Override.WrapFacets
