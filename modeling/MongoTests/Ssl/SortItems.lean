import Mathlib.Data.List.Sort
import Mathlib.Logic.Relation
import MongoTests.Ssl.Certs

/-!
# The order in which certificates are generated

`sort_items` goes through the definitions again and again, and takes those whose issuer it has
taken before.

* `ready`, `sortStep`, `sortLoop`, `sortItems`: the code.
* `Pass`: what one pass over the definitions takes.
* `eq_of_perm`: a result that is a permutation of the definitions is the list of the definitions.
* **`sort_items_iff`**: the result is right if and only if the definitions are in order already.
-/

namespace MongoTests.Ssl

open MongoTests.Lib

/-! ## The code -/

/-- `has_issuer and not unmet_prependents` -/
def ready (allNames processedNames : List String) (cert : Cert) : Bool :=
  let unmetPrependents := (cert.iterate "append_certs").filter fun name =>
    name ∈ allNames ∧ name ∉ processedNames
  let hasIssuer := cert.issuer = some "self" ∨ cert.issuer.any (· ∈ processedNames) ∨
    !cert.issuer.any (· ∈ allNames)
  hasIssuer ∧ unmetPrependents = []

structure Sorted where
  ret : List Cert
  processedNames : List String

def sortStep (allNames : List String) (s : Sorted) (cert : Cert) : Sorted :=
  if ready allNames s.processedNames cert then ⟨s.ret ++ [cert], s.processedNames ++ [cert.name]⟩
  else s

/-- The `while` loop, as far as the fuel goes. -/
def sortLoop (items : List Cert) (allNames : List String) : ℕ → Sorted → Option (List Cert)
  | 0, _ => none
  | fuel + 1, s =>
    if s.ret.length ≠ items.length then
      sortLoop items allNames fuel (items.foldl (sortStep allNames) s)
    else some s.ret

def sortItems (fuel : ℕ) (items : List Cert) : Option (List Cert) :=
  sortLoop items ((items.map Cert.name).mergeSort (· ≤ ·)) fuel ⟨[], []⟩

/-! ## What the result should be -/

/-- No certificate needs one that comes later. -/
def InOrder (l : List Cert) : Prop := l.Pairwise fun a b => ¬a.Needs b.name

/-- No chain of needs leads from a certificate back to it. -/
def Acyclic (items : List Cert) : Prop :=
  ∀ c ∈ items, ¬Relation.TransGen (fun a b => b ∈ items ∧ a.Needs b.name) c c

instance (c : Cert) (name : String) : Decidable (c.Needs name) := by unfold Cert.Needs; infer_instance

instance (l : List Cert) : Decidable (InOrder l) := by unfold InOrder; infer_instance

/-! ## One pass -/

section Pass

variable {allNames : List String}

theorem ready_iff {processedNames : List String} {c : Cert} :
    ready allNames processedNames c = true ↔
      c.issuer = some "self" ∨ ∀ s ∈ c.issuer, s ∈ allNames → s ∈ processedNames := by
  have hnone : c.iterate "append_certs" = [] := by
    rw [Cert.iterate, c.get_eq_none (by decide)]
  cases hissuer : c.issuer with
  | none => simp [ready, hnone, hissuer]
  | some s =>
    simp only [ready, hnone, hissuer, List.filter_nil, Option.any_some, decide_eq_true_eq,
      Option.mem_some_iff, forall_eq', Bool.not_eq_true', decide_eq_false_iff_not, and_true]
    exact or_congr_right ⟨fun h hall => h.resolve_right (not_not_intro hall), fun h =>
      (em (s ∈ allNames)).imp h id⟩

theorem ready_mono {processedNames more : List String} {c : Cert}
    (h : ready allNames processedNames c = true) (hsub : processedNames ⊆ more) :
    ready allNames more c = true := by
  rw [ready_iff] at h ⊢
  exact h.imp_right fun h s hs hall => hsub (h s hs hall)

/-- A pass over `items` that starts with `processedNames` takes `taken`. -/
structure Pass (allNames : List String) (items : List Cert) (processedNames : List String)
    (taken : List Cert) : Prop where
  sublist : taken.Sublist items
  /-- What is ready at the start is taken. -/
  complete : (items.filter (ready allNames processedNames)).Sublist taken
  ready : ∀ c ∈ taken, ready allNames (processedNames ++ taken.map Cert.name) c = true

variable (allNames) in
theorem exists_pass (items : List Cert) (s : Sorted) :
    ∃ taken, items.foldl (sortStep allNames) s =
        ⟨s.ret ++ taken, s.processedNames ++ taken.map Cert.name⟩ ∧
      Pass allNames items s.processedNames taken := by
  induction items generalizing s with
  | nil => exact ⟨[], by simp, .slnil, .slnil, by simp⟩
  | cons c items ih =>
    rw [List.foldl_cons, sortStep]
    split_ifs with hready
    · obtain ⟨taken, hfold, hpass⟩ := ih ⟨s.ret ++ [c], s.processedNames ++ [c.name]⟩
      refine ⟨c :: taken, by rw [hfold]; simp, hpass.sublist.cons_cons c, ?_, ?_⟩
      · rw [List.filter_cons_of_pos hready]
        refine List.Sublist.cons_cons c (List.Sublist.trans ?_ hpass.complete)
        exact List.monotone_filter_right items fun d hd =>
          ready_mono hd (List.subset_append_left _ _)
      · have hnames : s.processedNames ++ (c :: taken).map Cert.name =
            s.processedNames ++ [c.name] ++ taken.map Cert.name := by simp
        rw [hnames]
        refine List.forall_mem_cons.mpr ⟨ready_mono hready ?_, hpass.ready⟩
        rw [List.append_assoc]
        exact List.subset_append_left _ _
    · obtain ⟨taken, hfold, hpass⟩ := ih s
      refine ⟨taken, hfold, hpass.sublist.cons c, ?_, hpass.ready⟩
      rw [List.filter_cons_of_neg hready]
      exact hpass.complete

end Pass

/-! ## Runs -/

section Run

variable {items ret : List Cert} {allNames : List String} {fuel : ℕ} {s : Sorted}

theorem prefix_of_sortLoop (h : sortLoop items allNames fuel s = some ret) : s.ret <+: ret := by
  induction fuel generalizing s with
  | zero => cases h
  | succ fuel ih =>
    rw [sortLoop] at h
    split_ifs at h with hlen
    · obtain ⟨taken, hfold, -⟩ := exists_pass allNames items s
      rw [hfold] at h
      exact (List.prefix_append _ _).trans (ih h)
    · cases h
      exact List.prefix_refl _

/-- A pass that takes nothing is repeated for ever. -/
theorem sortLoop_eq_none (hfold : items.foldl (sortStep allNames) s = s)
    (hlen : s.ret.length ≠ items.length) : sortLoop items allNames fuel s = none := by
  induction fuel with
  | zero => rfl
  | succ fuel ih => rw [sortLoop, if_pos hlen, hfold, ih]

/-- A pass that leaves something out makes the next one take the same certificates again. -/
theorem eq_of_perm (h : sortItems fuel items = some ret) (hperm : ret.Perm items) : ret = items := by
  classical
  rw [sortItems] at h
  generalize (items.map Cert.name).mergeSort (· ≤ ·) = allNames at h
  obtain ⟨taken, hfold, hpass⟩ := exists_pass allNames items ⟨[], []⟩
  rw [List.nil_append, List.nil_append] at hfold
  cases fuel with
  | zero => cases h
  | succ fuel =>
    rw [sortLoop, hfold] at h
    split_ifs at h with hzero
    · by_cases hall : taken.length = items.length
      · -- The first pass takes everything.
        obtain rfl := hpass.sublist.eq_of_length hall
        cases fuel with
        | zero => cases h
        | succ fuel =>
          rw [sortLoop, if_neg (not_not_intro rfl)] at h
          cases h
          rfl
      · cases taken with
        | nil =>
          rw [List.map_nil, sortLoop_eq_none hfold hall] at h
          cases h
        | cons c taken =>
          -- The second pass takes all copies of `c`, and the first one took a copy.
          obtain ⟨again, hfold', hpass'⟩ := exists_pass allNames items
            ⟨c :: taken, (c :: taken).map Cert.name⟩
          cases fuel with
          | zero => cases h
          | succ fuel =>
            rw [sortLoop, if_pos hall, hfold'] at h
            have hready : ready allNames ((c :: taken).map Cert.name) c = true :=
              hpass.ready c List.mem_cons_self
            have hagain := hpass'.complete.count_le c
            rw [List.count_filter hready] at hagain
            have hret := (prefix_of_sortLoop h).sublist.count_le c
            rw [List.count_append, List.count_cons_self, hperm.count_eq] at hret
            omega
    · cases h
      have hnil : items = [] := List.eq_nil_of_length_eq_zero (not_not.mp hzero).symm
      rw [hnil]

/-- A pass over definitions in order takes all of them. -/
theorem foldl_sortStep (hself : ∀ c ∈ items, ¬c.Needs c.name) (hnames : allNames ⊆ items.map Cert.name)
    {done rest : List Cert} (hitems : items = done ++ rest) (horder : InOrder items) :
    rest.foldl (sortStep allNames) ⟨done, done.map Cert.name⟩ =
      ⟨done ++ rest, (done ++ rest).map Cert.name⟩ := by
  induction rest generalizing done with
  | nil => rw [List.append_nil, List.foldl_nil]
  | cons c rest ih =>
    have hready : ready allNames (done.map Cert.name) c = true := by
      rw [ready_iff]
      by_contra! hwait
      obtain ⟨hown, s, hs, hall, hnew⟩ := hwait
      obtain ⟨b, hb, hname⟩ := List.mem_map.mp (hnames hall)
      have hneeds : c.Needs b.name := by
        have hne : s ≠ "self" := fun he => hown (he ▸ hs)
        have hissued : c.issuedBy = some s := by
          rw [Cert.issuedBy, hs]
          exact if_neg hne
        exact .inl (hname ▸ hissued)
      rw [hitems, List.mem_append, List.mem_cons] at hb
      rcases hb with hb | rfl | hb
      · exact hnew (hname ▸ List.mem_map_of_mem hb)
      · exact hself b (by rw [hitems]; simp) hneeds
      · rw [InOrder, hitems] at horder
        exact (List.pairwise_cons.mp (List.pairwise_append.mp horder).2.1).1 b hb hneeds
    rw [List.foldl_cons, sortStep, if_pos hready]
    have hitems' : items = (done ++ [c]) ++ rest := by
      rw [hitems, List.append_assoc, List.singleton_append]
    have hdone := ih hitems'
    simpa using hdone

theorem sortItems_of_inOrder (hself : ∀ c ∈ items, ¬c.Needs c.name) (horder : InOrder items) :
    sortItems 2 items = some items := by
  have hnames : (items.map Cert.name).mergeSort (· ≤ ·) ⊆ items.map Cert.name :=
    fun _ h => List.mem_mergeSort.mp h
  have hitems : items = [] ++ items := rfl
  have hfold := foldl_sortStep hself hnames hitems horder
  rw [List.map_nil, List.nil_append] at hfold
  rw [sortItems, sortLoop, hfold, sortLoop]
  cases items with
  | nil => rfl
  | cons c items => simp

end Run

/-- **The result is right if and only if the definitions are in order already.** -/
theorem sort_items_iff {items : List Cert} (h : Acyclic items) :
    (∃ fuel ret, sortItems fuel items = some ret ∧ ret.Perm items ∧ InOrder ret) ↔
      InOrder items := by
  constructor
  · rintro ⟨fuel, ret, hsort, hperm, horder⟩
    exact eq_of_perm hsort hperm ▸ horder
  · intro horder
    have hself : ∀ c ∈ items, ¬c.Needs c.name := fun c hc hneeds => h c hc (.single ⟨hc, hneeds⟩)
    exact ⟨2, items, sortItems_of_inOrder hself horder, List.Perm.refl _, horder⟩

/-! ## A certificate and its issuer -/

theorem caCert_needs_nothing (name : String) : ¬caCert.Needs name := by
  rintro (h | h)
  · cases h
  · cases h

theorem acyclic_server {items : List Cert} (h : items ⊆ [serverCert, caCert]) : Acyclic items := by
  intro c hc hcycle
  obtain ⟨d, ⟨hd, hneeds⟩, hback⟩ := Relation.TransGen.head'_iff.mp hcycle
  rcases List.mem_pair.mp (h hc) with rfl | rfl
  · rcases List.mem_pair.mp (h hd) with rfl | rfl
    · exact absurd hneeds (by decide)
    · -- The chain goes on from a certificate that needs nothing.
      rcases Relation.ReflTransGen.cases_head hback with heq | ⟨b, hstep, -⟩
      · exact absurd (congrArg Cert.name heq) (by decide)
      · exact caCert_needs_nothing _ hstep.2
  · exact caCert_needs_nothing _ hneeds

theorem sort_items_iff_ca_first :
    (∃ fuel ret, sortItems fuel [caCert, serverCert] = some ret ∧
      ret.Perm [caCert, serverCert] ∧ InOrder ret) ↔ InOrder [caCert, serverCert] :=
  sort_items_iff (acyclic_server (by simp))

/-- With the issuer in the second place no order is found. -/
theorem server_first_not_sorted :
    Acyclic [serverCert, caCert] ∧ ¬∃ fuel ret, sortItems fuel [serverCert, caCert] = some ret ∧
      ret.Perm [serverCert, caCert] ∧ InOrder ret := by
  refine ⟨acyclic_server (List.Subset.refl _), ?_⟩
  rintro ⟨fuel, ret, hsort, hperm, horder⟩
  rw [eq_of_perm hsort hperm] at horder
  exact absurd horder (by decide)

end MongoTests.Ssl
