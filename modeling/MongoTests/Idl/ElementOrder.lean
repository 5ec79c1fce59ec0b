import MongoTests.Idl.FieldCheckers
import Mathlib.Data.List.Perm.Basic

/-!
# The order of the elements

A generated parser reads its elements one after the other, but no name is used twice.

* `advance_comm`: two elements with different marks can be read in any order;
* **`parse_perm`**: the order makes no difference, if no struct is chained.
-/

namespace MongoTests.Idl.Generator.Runtime

open MongoTests.Lib

variable {V M ε : Type} {rt : Runtime V M ε} {d : Ast.Definition} {f g : Ast.Field}
  {doc doc' : List (String × V)} {e e' : String × V} {o : Object M}

/-- A field and its value, set in the object of the document itself. -/
theorem put_of_none (hnone : f.chainedStructField = none) (m : M) (o : Object M) :
    rt.put f m o = o.assign f.name m := by
  unfold put
  rw [hnone]

theorem assign_flagged_comm (hname : f.name ≠ g.name) (m m' : M) (o : Object M) :
    (flagged g ((flagged f o).assign f.name m)).assign g.name m' =
      (flagged f ((flagged g o).assign g.name m')).assign f.name m := by
  have hmembers : Function.update (Function.update o.members f.name (some m)) g.name (some m') =
      Function.update (Function.update o.members g.name (some m')) f.name (some m) :=
    Function.update_comm hname _ _ _
  have hflags : Function.update (Function.update o.has f.name true) g.name true =
      Function.update (Function.update o.has g.name true) f.name true :=
    Function.update_comm hname _ _ _
  unfold flagged
  split_ifs
  · exact Object.ext hmembers hflags rfl
  · exact Object.ext hmembers rfl rfl
  · exact Object.ext hmembers rfl rfl
  · exact Object.ext hmembers rfl rfl

/-- The field of an element with a value. -/
theorem advance_of_used (hnone : ∀ f ∈ d.toStruct.fields, f.chainedStructField = none) {m : M}
    (hu : rt.used d e = some (f, some m)) (o : Object M) :
    rt.advance d o e = (flagged f o).assign f.name m := by
  have hf : f ∈ d.toStruct.own := (name_of_use (use_of_used hu)).1
  unfold advance
  rw [hu]
  exact put_of_none (hnone f (List.mem_of_mem_filter hf)) m _

/-- An element without a value changes nothing. -/
theorem advance_of_no_value (hu : ∀ f m, rt.used d e ≠ some (f, some m)) (o : Object M) :
    rt.advance d o e = o := by
  unfold advance
  split
  · next hm => exact absurd hm (hu _ _)
  · rfl

/-- **Two elements in any order**, if their marks differ. -/
theorem advance_comm (hnone : ∀ f ∈ d.toStruct.fields, f.chainedStructField = none)
    (hmarks : ∀ name ∈ rt.markOf d e, ∀ name' ∈ rt.markOf d e', name ≠ name') (o : Object M) :
    rt.advance d (rt.advance d o e) e' = rt.advance d (rt.advance d o e') e := by
  by_cases hu : ∃ f m, rt.used d e = some (f, some m)
  · by_cases hu' : ∃ f m, rt.used d e' = some (f, some m)
    · obtain ⟨f, m, hu⟩ := hu
      obtain ⟨g, m', hu'⟩ := hu'
      have hname : f.name ≠ g.name := by
        rw [(name_of_use (use_of_used hu)).2, (name_of_use (use_of_used hu')).2]
        exact hmarks _ (markOf_of_use (use_of_used hu)) _ (markOf_of_use (use_of_used hu'))
      rw [advance_of_used hnone hu, advance_of_used hnone hu', advance_of_used hnone hu,
        advance_of_used hnone hu', assign_flagged_comm hname]
    · have hskip := advance_of_no_value fun f m h => hu' ⟨f, m, h⟩
      rw [hskip, hskip]
  · have hskip := advance_of_no_value fun f m h => hu ⟨f, m, h⟩
    rw [hskip, hskip]

/-- Two elements of a document with different marks. -/
theorem ne_of_mem_markOf {es : List (String × V)} (honce : (es.filterMap (rt.markOf d)).Nodup)
    (he : e ∈ es) (he' : e' ∈ es) (hne : e ≠ e') :
    ∀ name ∈ rt.markOf d e, ∀ name' ∈ rt.markOf d e', name ≠ name' := by
  have hpair := List.pairwise_filterMap.mp honce
  have hsymm : Std.Symm fun e e' : String × V => ∀ name, rt.markOf d e = some name →
      ∀ name', rt.markOf d e' = some name' → name ≠ name' :=
    ⟨fun e e' h name hname name' hname' => (h name' hname' name hname).symm⟩
  intro name hname name' hname'
  exact hpair.forall he he' hne name hname name' hname'

theorem foldl_advance_perm (hnone : ∀ f ∈ d.toStruct.fields, f.chainedStructField = none)
    {es es' : List (String × V)} (hperm : es.Perm es')
    (honce : (es.filterMap (rt.markOf d)).Nodup) (o : Object M) :
    es.foldl (rt.advance d) o = es'.foldl (rt.advance d) o := by
  refine hperm.foldl_eq' (fun e he e' he' o => ?_) o
  by_cases hne : e = e'
  · rw [hne]
  · exact advance_comm hnone (ne_of_mem_markOf honce he he' hne) o

theorem asksFor_perm {ms ms' : List String} (hperm : ms.Perm ms') (f : Ast.Field) :
    asksFor ms f = asksFor ms' f := by
  unfold asksFor
  rw [decide_eq_decide.mpr (not_congr hperm.mem_iff)]

theorem perm_tail {α : Type} {l l' : List α} (hperm : l.Perm l') (hhead : l.head? = l'.head?) :
    l.tail.Perm l'.tail := by
  cases l with
  | nil =>
    rw [List.nil_perm.mp hperm]
  | cons a l =>
    cases l' with
    | nil => cases hhead
    | cons b l' =>
      obtain rfl : a = b := Option.some.inj hhead
      exact hperm.cons_inv

/-- One direction: a document with the same elements in another order. -/
theorem parseProtected_of_perm (h : d.Bound)
    (hnone : ∀ f ∈ d.toStruct.fields, f.chainedStructField = none)
    (hafter : d.toStruct.parsedAfter = []) (hperm : doc.Perm doc')
    (hhead : d.isCommand = true → doc.head? = doc'.head?)
    (hparse : rt.parseProtected d doc = .ok o) : rt.parseProtected d doc' = .ok o := by
  obtain ⟨haccepts, ho⟩ := (parseProtected_eq_ok h).mp hparse
  have helements : (elements d doc).Perm (elements d doc') := by
    unfold elements
    split_ifs with hc
    · exact perm_tail hperm (hhead hc)
    · exact hperm
  have hcommand : rt.commandElement d doc' = rt.commandElement d doc := by
    cases hc : d.isCommand with
    | true =>
      have hheads := hhead hc
      unfold commandElement
      cases doc <;> cases doc' <;> cases hheads
      · rfl
      · rfl
    | false =>
      have hkeeps : d.keepsElement = false := by
        cases d with
        | struct s => rfl
        | command c => cases hc
      have heoo : ∀ doc, rt.commandElement d doc = rt.eoo := by
        intro doc
        unfold commandElement
        rw [hkeeps]
        cases doc <;> rfl
      rw [heoo, heoo]
  have hmarks : (rt.marks d doc).Perm (rt.marks d doc') := helements.filterMap _
  have hdefault : rt.putDefault d (rt.marks d doc') = rt.putDefault d (rt.marks d doc) := by
    funext o f
    rw [putDefault, putDefault, asksFor_perm hmarks f]
  have hobject : rt.objectOf d doc' = rt.objectOf d doc := by
    unfold objectOf
    rw [hafter, hdefault, foldl_advance_perm hnone helements haccepts.once]
    rfl
  refine (parseProtected_eq_ok h).mpr ⟨⟨fun e he => ?_, ?_, ?_, fun f hf ha => ?_⟩, ?_⟩
  · exact haccepts.read e (helements.mem_iff.mpr he)
  · exact hmarks.nodup_iff.mp haccepts.once
  · rw [hafter]
    intro f hf
    cases hf
  · exact haccepts.complete f hf ((asksFor_perm hmarks f).trans ha)
  · rw [hcommand, hobject]
    exact ho

end MongoTests.Idl.Generator.Runtime
