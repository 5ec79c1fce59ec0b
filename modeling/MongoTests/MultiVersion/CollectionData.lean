import Mathlib.Data.String.Basic
import MongoTests.Lib.Checked
import MongoTests.Lib.Dict
import MongoTests.Lib.SortByKey

/-!
# Collection data

`CollectionDataValidator`, which records the state of a collection and compares a later state with it.
The documents and the functions of the shell are parameters.

* `Shell`: documents, `Object.extend` and `delete`; `assert.docEq` compares with equality.
* `Collection`: a collection that exists, or not, with indexes of distinct names and documents of
  distinct ids.
* `recordCollectionData`, `validateCollectionData`: the loops end with the new lists.
* **`validate_iff`**: the later states for which the validation is exact.
-/

namespace MongoTests.MultiVersion

open MongoTests.Lib

structure Shell (Doc Key : Type) where
  /-- `{}` -/
  emptyDoc : Doc
  /-- The field `name` of the specification of an index. -/
  name : Doc → Key
  /-- The field `_id`. -/
  id : Doc → Key
  delete : Doc → String → Doc
  /-- `Object.extend(dst, src)`, where `src` may be undefined. -/
  extend : Doc → Option Doc → Doc
  extend_some : ∀ doc, extend emptyDoc (some doc) = doc
  extend_none : extend emptyDoc none = emptyDoc

inductive Raised where
  | error (message : String)
  | assertion (message : String)
  deriving DecidableEq

variable {Doc Key : Type}

structure Collection (sh : Shell Doc Key) where
  name : String
  /-- `getCollectionInfos({name: …})` -/
  infos : List Doc
  /-- `getIndexes()` -/
  indexes : List Doc
  documents : List Doc
  version : String
  emptyDoc_notMem : sh.emptyDoc ∉ indexes
  nodup_name : (indexes.map sh.name).Nodup
  nodup_id : (documents.map sh.id).Nodup

structure CollectionDataValidator (Doc : Type) where
  initialized : Bool
  collectionInfo : Doc
  indexData : List Doc
  collectionData : List Doc
  dbVersion : String

section Recording

variable (sh : Shell Doc Key)

def newValidator : CollectionDataValidator Doc where
  initialized := false
  collectionInfo := sh.emptyDoc
  indexData := []
  collectionData := []
  dbVersion := ""

variable {sh}

def getCollectionInfo (c : Collection sh) : Except Raised Doc :=
  match c.infos with
  | [info] => .ok info
  | _ => .error (.assertion ("expected collection '" ++ c.name ++ "'to exist"))

theorem getCollectionInfo_eq_ok {c : Collection sh} {info : Doc} :
    getCollectionInfo c = .ok info ↔ c.infos = [info] := by
  unfold getCollectionInfo
  split
  · rename_i info' hinfos
    rw [hinfos]
    simp
  · rename_i hinfos
    exact iff_of_false (by simp) (hinfos info)

variable [LinearOrder Key]

/-- `getIndexes().sort(…)`. -/
def sortedIndexes (c : Collection sh) : List Doc :=
  c.indexes.mergeSort fun a b => !decide (sh.name b < sh.name a)

/-- `find().sort({_id: 1}).toArray()`. -/
def sortedDocuments (c : Collection sh) : List Doc :=
  c.documents.mergeSort fun a b => sh.id a ≤ sh.id b

def recordCollectionData (v : CollectionDataValidator Doc) (c : Collection sh) :
    Except Raised (CollectionDataValidator Doc) := do
  let info ← getCollectionInfo c
  pure { v with
    initialized := true
    collectionInfo := info
    indexData := sortedIndexes c
    collectionData := sortedDocuments c
    dbVersion := c.version }

theorem mem_sortedIndexes {c : Collection sh} {spec : Doc} :
    spec ∈ sortedIndexes c ↔ spec ∈ c.indexes := List.mem_mergeSort

@[simp] theorem length_sortedIndexes (c : Collection sh) :
    (sortedIndexes c).length = c.indexes.length := List.length_mergeSort _

@[simp] theorem length_sortedDocuments (c : Collection sh) :
    (sortedDocuments c).length = c.documents.length := List.length_mergeSort _

theorem pairwise_sortedIndexes (c : Collection sh) :
    (sortedIndexes c).Pairwise fun a b => sh.name a < sh.name b := by
  have horder : sortedIndexes c = c.indexes.mergeSort fun a b => sh.name a ≤ sh.name b := by
    refine congrArg (fun le => c.indexes.mergeSort le) (funext fun a => funext fun b => ?_)
    rw [← decide_not, decide_eq_decide, not_lt]
  rw [horder]
  exact pairwise_lt_mergeSort_key (.of_map _ c.nodup_name)
    fun a ha b hb => List.inj_on_of_nodup_map c.nodup_name ha hb

/-- Indexes of distinct names have one order. -/
theorem sortedIndexes_eq_iff {c c' : Collection sh} :
    sortedIndexes c' = sortedIndexes c ↔ ∀ spec, spec ∈ c'.indexes ↔ spec ∈ c.indexes := by
  constructor
  · intro h spec
    rw [← mem_sortedIndexes, h, mem_sortedIndexes]
  · intro h
    refine eq_of_pairwise_lt_key (pairwise_sortedIndexes c') (pairwise_sortedIndexes c) fun spec => ?_
    rw [mem_sortedIndexes, mem_sortedIndexes]
    exact h spec

end Recording

/-! ## The validation -/

/-- `for (var i = 0; i < newData.length; i++)`, with the recorded data from `i` on. -/
def compareLoop (body : Option Doc → Doc → Except Raised Unit) : List Doc → List Doc → Except Raised Unit
  | _, [] => .ok ()
  | recorded, doc :: docs => do
    body recorded.head? doc
    compareLoop body recorded.tail docs

/-- A loop that demands equality stops at the end of the new list. -/
theorem compareLoop_eq_ok {body : Option Doc → Doc → Except Raised Unit} {recorded docs : List Doc}
    (hbody : ∀ r, ∀ doc ∈ docs, body r doc = .ok () ↔ r = some doc) :
    compareLoop body recorded docs = .ok () ↔ docs <+: recorded := by
  induction docs generalizing recorded with
  | nil => exact iff_of_true rfl List.nil_prefix
  | cons doc docs ih =>
    obtain ⟨hdoc, hdocs⟩ : (∀ r, body r doc = .ok () ↔ r = some doc) ∧
        ∀ r, ∀ doc ∈ docs, body r doc = .ok () ↔ r = some doc :=
      ⟨fun r => hbody r doc List.mem_cons_self, fun r d hd => hbody r d (List.mem_cons_of_mem _ hd)⟩
    rw [compareLoop, bind_eq_ok]
    cases recorded with
    | nil => simp [hdoc]
    | cons r recorded =>
      simp only [List.head?_cons, List.tail_cons, hdoc, ih hdocs, Option.some.injEq,
        List.cons_prefix_cons, exists_const, eq_comm]

section Validation

variable [DecidableEq Doc] (sh : Shell Doc Key)

/-- `assert.docEq`. -/
def docEq (doc doc' : Option Doc) (message : String) : Except Raised Unit :=
  ensure (doc = doc') (.assertion message)

def compareIndex (indexSpecFieldsToSkip : List String) (recorded : Option Doc) (new : Doc) :
    Except Raised Unit :=
  let recordedIndex := sh.extend sh.emptyDoc recorded
  let newIndex := sh.extend sh.emptyDoc (some new)
  docEq (some (indexSpecFieldsToSkip.foldl sh.delete recordedIndex))
    (some (indexSpecFieldsToSkip.foldl sh.delete newIndex)) "indexes not equal"

variable {sh}

theorem compareIndex_eq_ok {r : Option Doc} {spec : Doc} (hspec : spec ≠ sh.emptyDoc) :
    compareIndex sh [] r spec = .ok () ↔ r = some spec := by
  unfold compareIndex docEq
  rw [ensure_eq_ok]
  dsimp only [List.foldl_nil]
  rw [sh.extend_some, Option.some_inj]
  cases r with
  | none =>
    rw [sh.extend_none]
    exact iff_of_false hspec.symm (by simp)
  | some spec' => rw [sh.extend_some, Option.some_inj]

variable [LinearOrder Key]

/-- The option is `none` when it is not an array. -/
def validateCollectionData (v : CollectionDataValidator Doc) (c : Collection sh)
    (indexSpecFieldsToSkip : Option (List String)) : Except Raised Bool := do
  ensure v.initialized (.error "validateCollectionWithAllData called, but data is not initialized")
  match indexSpecFieldsToSkip with
  | none => .error (.error "Option 'indexSpecFieldsToSkip' must be an array")
  | some indexSpecFieldsToSkip =>
    let newCollectionInfo ← getCollectionInfo c
    docEq (some v.collectionInfo) (some newCollectionInfo) "collection metadata not equal"
    compareLoop (compareIndex sh indexSpecFieldsToSkip) v.indexData (sortedIndexes c)
    compareLoop (fun recorded new => docEq recorded (some new) "data not equal") v.collectionData
      (sortedDocuments c)
    pure true

/-- The metadata, the set of indexes and the documents in the order of their ids are equal. -/
def SameState (c c' : Collection sh) : Prop :=
  c'.infos = c.infos ∧ (∀ spec, spec ∈ c'.indexes ↔ spec ∈ c.indexes) ∧
    sortedDocuments c' = sortedDocuments c

/-- All that the later state has is as it was recorded, and the last indexes or the last documents are
missing. -/
def OnlyTailLost (c c' : Collection sh) : Prop :=
  c'.infos = c.infos ∧ sortedIndexes c' <+: sortedIndexes c ∧ sortedDocuments c' <+: sortedDocuments c ∧
    (c'.indexes.length < c.indexes.length ∨ c'.documents.length < c.documents.length)

variable {c c' : Collection sh} {v v₁ : CollectionDataValidator Doc}

/-- The validation passes when the later state is a beginning of the recorded one. -/
theorem validate_eq_true (h : recordCollectionData v c = .ok v₁) :
    validateCollectionData v₁ c' (some []) = .ok true ↔
      c'.infos = c.infos ∧ sortedIndexes c' <+: sortedIndexes c ∧
        sortedDocuments c' <+: sortedDocuments c := by
  obtain ⟨info, hinfo, h⟩ := bind_eq_ok.mp h
  cases h
  rw [getCollectionInfo_eq_ok] at hinfo
  have hindexes : compareLoop (compareIndex sh []) (sortedIndexes c) (sortedIndexes c') = .ok () ↔
      sortedIndexes c' <+: sortedIndexes c := by
    refine compareLoop_eq_ok fun r spec hspec => compareIndex_eq_ok ?_
    rintro rfl
    exact c'.emptyDoc_notMem (mem_sortedIndexes.mp hspec)
  have hdocuments : compareLoop (fun recorded new => docEq recorded (some new) "data not equal")
      (sortedDocuments c) (sortedDocuments c') = .ok () ↔ sortedDocuments c' <+: sortedDocuments c :=
    compareLoop_eq_ok fun r doc _ => ensure_eq_ok
  rw [← hindexes, ← hdocuments, hinfo]
  constructor
  · intro h
    obtain ⟨_, -, h⟩ := bind_eq_ok.mp h
    obtain ⟨info', hinfo', h⟩ := bind_eq_ok.mp h
    obtain ⟨_, heq, h⟩ := bind_eq_ok.mp h
    obtain ⟨_, hloop, h⟩ := bind_eq_ok.mp h
    obtain ⟨_, hloop', -⟩ := bind_eq_ok.mp h
    cases ensure_eq_ok.mp heq
    exact ⟨getCollectionInfo_eq_ok.mp hinfo', hloop, hloop'⟩
  · rintro ⟨hinfo', hloop, hloop'⟩
    exact bind_eq_ok.mpr ⟨(), rfl, bind_eq_ok.mpr ⟨info, getCollectionInfo_eq_ok.mpr hinfo',
      bind_eq_ok.mpr ⟨(), ensure_eq_ok.mpr rfl, bind_eq_ok.mpr ⟨(), hloop,
        bind_eq_ok.mpr ⟨(), hloop', rfl⟩⟩⟩⟩⟩

/-- **The validation returns exactly for an unchanged collection, unless** the only change is that
the last indexes or the last documents are gone. -/
theorem validate_iff (h : recordCollectionData v c = .ok v₁) (c' : Collection sh) :
    (validateCollectionData v₁ c' (some []) = .ok true ↔ SameState c c') ↔ ¬OnlyTailLost c c' := by
  rw [validate_eq_true h, SameState, ← sortedIndexes_eq_iff]
  constructor
  · rintro hiff ⟨hinfos, hindexes, hdocuments, hlost⟩
    obtain ⟨-, hindexes', hdocuments'⟩ := hiff.mp ⟨hinfos, hindexes, hdocuments⟩
    have hlength := congrArg List.length hindexes'
    have hlength' := congrArg List.length hdocuments'
    rw [length_sortedIndexes, length_sortedIndexes] at hlength
    rw [length_sortedDocuments, length_sortedDocuments] at hlength'
    omega
  · intro hlost
    constructor
    · rintro ⟨hinfos, hindexes, hdocuments⟩
      have hle : ¬(c'.indexes.length < c.indexes.length ∨ c'.documents.length < c.documents.length) :=
        fun h => hlost ⟨hinfos, hindexes, hdocuments, h⟩
      rw [not_or, not_lt, not_lt] at hle
      refine ⟨hinfos, hindexes.eq_of_length_le ?_, hdocuments.eq_of_length_le ?_⟩
      · rw [length_sortedIndexes, length_sortedIndexes]
        exact hle.1
      · rw [length_sortedDocuments, length_sortedDocuments]
        exact hle.2
    · rintro ⟨hinfos, hindexes, hdocuments⟩
      rw [hindexes, hdocuments]
      exact ⟨hinfos, List.prefix_refl _, List.prefix_refl _⟩

end Validation

/-! ## Documents with fields of text -/

def textShell : Shell (Dict String String) String where
  emptyDoc := .empty
  name doc := (doc.get "name").getD "undefined"
  id doc := (doc.get "_id").getD "undefined"
  delete := Dict.erase
  extend dst src := dst.setAll (src.elim [] Dict.items)
  extend_some := Dict.ofPairs_items
  extend_none := rfl

/-- A collection with the index of its ids, and a document or none. -/
def textCollection (document : Option (Dict String String)) : Collection textShell where
  name := "test"
  infos := [.ofPairs [("name", "test"), ("type", "collection")]]
  indexes := [.ofPairs [("v", "2"), ("name", "_id_")]]
  documents := document.toList
  version := "4.4.0"
  emptyDoc_notMem := by decide
  nodup_name := List.nodup_singleton _
  nodup_id := by
    cases document with
    | none => exact List.nodup_nil
    | some doc => exact List.nodup_singleton _

/-- The validator that has recorded the collection with a document. -/
def textValidator : CollectionDataValidator (Dict String String) where
  initialized := true
  collectionInfo := .ofPairs [("name", "test"), ("type", "collection")]
  indexData := [.ofPairs [("v", "2"), ("name", "_id_")]]
  collectionData := [.ofPairs [("_id", "0")]]
  dbVersion := "4.4.0"

theorem sortedDocuments_text (document : Option (Dict String String)) :
    sortedDocuments (textCollection document) = document.toList := by
  cases document with
  | none => exact List.mergeSort_nil
  | some doc => exact List.mergeSort_singleton _

theorem recordCollectionData_text :
    recordCollectionData (newValidator textShell) (textCollection (some (.ofPairs [("_id", "0")]))) =
      .ok textValidator := by
  have hindexes : ∀ document, sortedIndexes (textCollection document) =
      [.ofPairs [("v", "2"), ("name", "_id_")]] := fun document => List.mergeSort_singleton _
  rw [recordCollectionData, hindexes, sortedDocuments_text]
  rfl

/-- A document that was replaced is noticed. -/
theorem validate_iff_replaced :
    validateCollectionData textValidator (textCollection (some (.ofPairs [("_id", "1")]))) (some []) =
        .ok true ↔
      SameState (textCollection (some (.ofPairs [("_id", "0")])))
        (textCollection (some (.ofPairs [("_id", "1")]))) := by
  refine (validate_iff recordCollectionData_text _).mpr ?_
  rintro ⟨-, -, -, hlost | hlost⟩
  · exact absurd hlost (lt_irrefl _)
  · exact absurd hlost (lt_irrefl _)

/-- **All documents are lost.** The loop over the documents has nothing to compare. -/
theorem lost_documents_not_noticed :
    recordCollectionData (newValidator textShell) (textCollection (some (.ofPairs [("_id", "0")]))) =
      .ok textValidator ∧
    validateCollectionData textValidator (textCollection none) (some []) = .ok true ∧
    ¬SameState (textCollection (some (.ofPairs [("_id", "0")]))) (textCollection none) := by
  refine ⟨recordCollectionData_text, (validate_eq_true recordCollectionData_text).mpr
    ⟨rfl, List.prefix_refl _, ?_⟩, ?_⟩
  · rw [sortedDocuments_text, sortedDocuments_text]
    exact List.nil_prefix
  · rintro ⟨-, -, hdocuments⟩
    rw [sortedDocuments_text, sortedDocuments_text] at hdocuments
    cases hdocuments

end MongoTests.MultiVersion
