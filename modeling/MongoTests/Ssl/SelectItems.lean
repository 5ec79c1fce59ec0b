import Mathlib.Data.List.Perm.Subperm
import MongoTests.Lib.Loop
import MongoTests.Ssl.Certs

/-!
# The certificates that are generated again

`select_items` takes the named certificates, and adds those that it sees to depend on what it has
until nothing is new.

* `selectRound`, `selectItems`: the code.
* `Reached`: the names that an edge relation reaches from the named certificates; `Sees` is the
  relation that the code looks at, and `Needs` the one of signing and appending.
* `Inv`: the invariant of the loop; `selectItems_spec`: what is selected.
* **`select_items_iff`**: when the right definitions are selected.
-/

namespace MongoTests.Ssl

open MongoTests.Lib

/-! ## The code -/

/-- The certificates under their names. -/
def byName (certs : List Cert) : Dict String Cert := Dict.ofPairs (certs.map fun c => (c.name, c))

/-- The variables of the loop. -/
structure Selection where
  lastCount : ℤ
  /-- The argument at first, and then a view of the keys of `ret`. -/
  names : Option (List String)
  ret : Dict String Cert

/-- What `in names` looks at. -/
def looked (names : Option (List String)) (ret : Dict String Cert) : List String :=
  names.getD ret.keys

/-- The two updates of a round. -/
def extend (certs : List Cert) (names : Option (List String)) (ret : Dict String Cert) :
    Dict String Cert :=
  let ret := ret.update (byName (certs.filter fun cert => cert.issuer.any (· ∈ looked names ret)))
  ret.update (byName (certs.filter fun cert =>
    (cert.iterate "append_cert").any (· ∈ looked names ret)))

/-- A round of the `while` loop. -/
def selectRound (certs : List Cert) (s : Selection) : Selection × Option Unit :=
  if s.lastCount ≠ s.ret.items.length then
    (⟨s.ret.items.length, none, extend certs s.names s.ret⟩, none)
  else (s, some ())

def findCertificateDefinition (certs : List Cert) (name : String) : Option Cert :=
  certs.find? (·.name = name)

def addNamed (certs : List Cert) (ret : Dict String Cert) (name : String) :
    Except String (Dict String Cert) :=
  match findCertificateDefinition certs name with
  | some cert => .ok (ret.set name cert)
  | none => .error ("Unknown certificate: " ++ name)

/-- `select_items`, as far as the fuel goes. -/
def selectItems (fuel : ℕ) (certs : List Cert) (names : List String) :
    Option (Except String (List Cert)) :=
  if names = [] then some (.ok certs)
  else
    match names.foldlM (addNamed certs) Dict.empty with
    | .error e => some (.error e)
    | .ok ret =>
      (loop (selectRound certs) fuel ⟨-1, some names, ret⟩).map fun r =>
        .ok (r.1.ret.items.map Prod.snd)

/-! ## What the result should be -/

/-- The names that are reached from `names` when `edge c n` leads from `n` to the name of `c`. -/
inductive Reached (edge : Cert → String → Prop) (certs : List Cert) (names : List String) :
    String → Prop
  | named {n : String} (h : n ∈ names) : Reached edge certs names n
  | step {c : Cert} {n : String} (hc : c ∈ certs) (hn : Reached edge certs names n)
      (hedge : edge c n) : Reached edge certs names c.name

/-- The result has the definitions of the named certificates and of those that need one of them,
at once or through others. -/
def SelectsDependents (certs : List Cert) (names : List String) (l : List Cert) : Prop :=
  ∀ c, c ∈ l ↔ c ∈ certs ∧ Reached Cert.Needs certs names c.name

/-- What the code looks at: `Issuer` as it is written, and what a loop over `append_cert` yields. -/
def Cert.Sees (c : Cert) (name : String) : Prop :=
  c.issuer = some name ∨ name ∈ c.iterate "append_cert"

/-! ## One round -/

section Round

variable {certs : List Cert} {names : Option (List String)} {ret : Dict String Cert}

theorem mem_keys_update_byName {l : List Cert} {n : String} :
    n ∈ (ret.update (byName l)).keys ↔ (∃ c ∈ l, c.name = n) ∨ n ∈ ret.keys := by
  rw [byName, Dict.mem_keys_update_ofPairs, List.map_map, List.mem_map]
  rfl

theorem get_update_byName {l : List Cert} {n : String} {c : Cert}
    (h : (ret.update (byName l)).get n = some c) : c ∈ l ∧ c.name = n ∨ ret.get n = some c := by
  refine (Dict.get_update_ofPairs h).imp_left fun hmem => ?_
  obtain ⟨d, hd, heq⟩ := List.mem_map.mp hmem
  cases heq
  exact ⟨hd, rfl⟩

variable (certs names ret) in
theorem keys_prefix_extend : ret.keys <+: (extend certs names ret).keys :=
  (Dict.keys_prefix_update _ _).trans (Dict.keys_prefix_update _ _)

theorem looked_subset {ret' : Dict String Cert} (h : ret.keys <+: ret'.keys) :
    looked names ret ⊆ looked names ret' := by
  cases names with
  | some l => exact List.Subset.refl _
  | none => exact h.subset

/-- A definition that sees a name is added. -/
theorem name_mem_extend {c : Cert} (hc : c ∈ certs) {n : String} (hn : n ∈ looked names ret)
    (hsees : c.Sees n) : c.name ∈ (extend certs names ret).keys := by
  rw [extend, mem_keys_update_byName]
  rcases hsees with hissuer | happend
  · refine .inr (mem_keys_update_byName.mpr (.inl ⟨c, List.mem_filter.mpr ⟨hc, ?_⟩, rfl⟩))
    rw [hissuer, Option.any_some]
    exact decide_eq_true hn
  · refine .inl ⟨c, List.mem_filter.mpr ⟨hc, List.any_eq_true.mpr ⟨n, happend, ?_⟩⟩, rfl⟩
    exact decide_eq_true (looked_subset (Dict.keys_prefix_update _ _) hn)

/-- A definition that is added sees a name. -/
theorem get_extend {n : String} {c : Cert} (h : (extend certs names ret).get n = some c) :
    (c ∈ certs ∧ c.name = n ∧ ∃ m, c.Sees m ∧
      m ∈ looked names (ret.update (byName (certs.filter fun cert =>
        cert.issuer.any (· ∈ looked names ret))))) ∨ ret.get n = some c := by
  rcases get_update_byName h with ⟨hmem, hname⟩ | h
  · obtain ⟨hc, hany⟩ := List.mem_filter.mp hmem
    obtain ⟨m, hm, hlooked⟩ := List.any_eq_true.mp hany
    exact .inl ⟨hc, hname, m, .inr hm, of_decide_eq_true hlooked⟩
  · refine (get_update_byName h).imp_left ?_
    rintro ⟨hmem, hname⟩
    obtain ⟨hc, hany⟩ := List.mem_filter.mp hmem
    obtain ⟨m, hissuer, hlooked⟩ := (Option.any_eq_true _ _).mp hany
    exact ⟨hc, hname, m, .inl hissuer,
      looked_subset (Dict.keys_prefix_update _ _) (of_decide_eq_true hlooked)⟩

end Round

/-! ## The loop -/

section Loop

variable {certs : List Cert} {names : List String} {s s' : Selection}

/-- No definition outside the keys sees one of them. -/
def Closed (certs : List Cert) (ret : Dict String Cert) : Prop :=
  ∀ c ∈ certs, ∀ n ∈ ret.keys, c.Sees n → c.name ∈ ret.keys

theorem selectRound_next (h : selectRound certs s = (s', none)) :
    s.lastCount ≠ s.ret.items.length ∧
      s' = ⟨s.ret.items.length, none, extend certs s.names s.ret⟩ := by
  rw [selectRound] at h
  split_ifs at h with hcount
  · cases h
    exact ⟨hcount, rfl⟩
  · cases h

theorem selectRound_exit (h : selectRound certs s = (s', some ())) :
    s.lastCount = s.ret.items.length ∧ s' = s := by
  rw [selectRound] at h
  split_ifs at h with hcount
  · cases h
  · cases h
    exact ⟨not_not.mp hcount, rfl⟩

structure Inv (certs : List Cert) (names : List String) (s : Selection) : Prop where
  sound : ∀ n c, s.ret.get n = some c → c ∈ certs ∧ c.name = n ∧ Reached Cert.Sees certs names n
  named : ∀ n ∈ names, n ∈ s.ret.keys
  view : ∀ l, s.names = some l → l = names ∧ s.ret.keys ⊆ names
  closed : s.lastCount = s.ret.items.length → Closed certs s.ret

/-- Twice the definitions that are left, and one more before the round that finds nothing. -/
def Selection.cost (certs : List Cert) (s : Selection) : ℕ :=
  2 * (certs.length - s.ret.items.length) + if s.lastCount = s.ret.items.length then 0 else 1

theorem length_keys (d : Dict String Cert) : d.keys.length = d.items.length := List.length_map ..

namespace Inv

variable (h : Inv certs names s)
include h

theorem reached_of_mem_keys {n : String} (hn : n ∈ s.ret.keys) : Reached Cert.Sees certs names n := by
  obtain ⟨c, hc⟩ := Dict.mem_keys.mp hn
  exact (h.sound n c hc).2.2

theorem keys_subset_looked : s.ret.keys ⊆ looked s.names s.ret := by
  cases hview : s.names with
  | none => exact List.Subset.refl _
  | some l =>
    obtain ⟨rfl, hsub⟩ := h.view l hview
    exact hsub

/-- There are not more keys than definitions. -/
theorem length_le : s.ret.items.length ≤ certs.length := by
  have hsub : s.ret.keys ⊆ certs.map Cert.name := by
    intro n hn
    obtain ⟨c, hget⟩ := Dict.mem_keys.mp hn
    obtain ⟨hc, rfl, -⟩ := h.sound n c hget
    exact List.mem_map_of_mem hc
  have hle := (List.subperm_of_subset s.ret.nodup hsub).length_le
  rwa [List.length_map, List.length_map] at hle

theorem next (hround : selectRound certs s = (s', none)) : Inv certs names s' := by
  obtain ⟨-, rfl⟩ := selectRound_next hround
  have hprefix := keys_prefix_extend certs s.names s.ret
  refine ⟨fun n c hget => ?_, fun n hn => hprefix.subset (h.named n hn), (fun l hl => by cases hl),
    fun hcount => ?_⟩
  · rcases get_extend hget with ⟨hc, hname, m, hsees, hm⟩ | hget
    · refine ⟨hc, hname, hname ▸ .step hc ?_ hsees⟩
      cases hview : s.names with
      | some l =>
        rw [hview] at hm
        obtain ⟨rfl, -⟩ := h.view l hview
        exact .named hm
      | none =>
        -- The view has the names that the first update has just added.
        rw [hview] at hm
        rcases mem_keys_update_byName.mp hm with ⟨d, hd, rfl⟩ | hm
        · obtain ⟨hd, hany⟩ := List.mem_filter.mp hd
          obtain ⟨p, hissuer, hp⟩ := (Option.any_eq_true _ _).mp hany
          exact .step hd (h.reached_of_mem_keys (of_decide_eq_true hp)) (.inl hissuer)
        · exact h.reached_of_mem_keys hm
    · exact h.sound n c hget
  · -- With as many keys as before the round, they are the keys from before the round.
    have hkeys : s.ret.keys = (extend certs s.names s.ret).keys := by
      refine hprefix.eq_of_length ?_
      rw [length_keys, length_keys]
      exact Int.ofNat_inj.mp hcount
    intro c hc n hn hsees
    exact name_mem_extend hc (h.keys_subset_looked (hkeys ▸ hn)) hsees

theorem cost_lt (hround : selectRound certs s = (s', none)) : s'.cost certs < s.cost certs := by
  have hle := (h.next hround).length_le
  obtain ⟨hcount, rfl⟩ := selectRound_next hround
  have hprefix := (keys_prefix_extend certs s.names s.ret).length_le
  rw [length_keys, length_keys] at hprefix
  rw [Selection.cost, Selection.cost, if_neg hcount]
  dsimp only at hle ⊢
  split_ifs with hsame
  · omega
  · have hne : s.ret.items.length ≠ (extend certs s.names s.ret).items.length :=
      fun he => hsame (congrArg Nat.cast he)
    omega

end Inv

/-- What is selected when the loop ends. -/
theorem Inv.mem_values (h : Inv certs names s) (hround : selectRound certs s = (s', some ())) :
    (∀ n, n ∈ s'.ret.keys ↔ Reached Cert.Sees certs names n) ∧
      ∀ n c, s'.ret.get n = some c → c ∈ certs ∧ c.name = n := by
  obtain ⟨hcount, rfl⟩ := selectRound_exit hround
  refine ⟨fun n => ⟨h.reached_of_mem_keys, fun hn => ?_⟩, fun n c hget => ?_⟩
  · induction hn with
    | named hn => exact h.named _ hn
    | step hc _ hsees ih => exact h.closed hcount _ hc _ ih hsees
  · obtain ⟨hc, hname, -⟩ := h.sound n c hget
    exact ⟨hc, hname⟩

end Loop

/-! ## The result -/

section Result

variable {certs : List Cert} {names : List String}

theorem of_findCertificateDefinition {name : String} {c : Cert}
    (h : findCertificateDefinition certs name = some c) : c ∈ certs ∧ c.name = name := by
  rw [findCertificateDefinition] at h
  have hname := List.find?_some h
  exact ⟨List.mem_of_find?_eq_some h, of_decide_eq_true hname⟩

/-- The named certificates, under their names. -/
theorem foldlM_addNamed {l : List String} (hl : ∀ n ∈ l, n ∈ certs.map Cert.name)
    (ret : Dict String Cert) :
    ∃ ret', l.foldlM (addNamed certs) ret = .ok ret' ∧
      (∀ n, n ∈ ret'.keys ↔ n ∈ l ∨ n ∈ ret.keys) ∧
      ∀ n c, ret'.get n = some c → c ∈ certs ∧ c.name = n ∨ ret.get n = some c := by
  induction l generalizing ret with
  | nil => exact ⟨ret, rfl, by simp, fun _ _ => .inr⟩
  | cons name l ih =>
    obtain ⟨hname, hl⟩ := List.forall_mem_cons.mp hl
    obtain ⟨d, hd, hdname⟩ := List.mem_map.mp hname
    obtain ⟨cert, hfind⟩ : ∃ cert, findCertificateDefinition certs name = some cert :=
      Option.isSome_iff_exists.mp (List.find?_isSome.mpr ⟨d, hd, decide_eq_true hdname⟩)
    obtain ⟨ret', hfold, hkeys, hget⟩ := ih hl (ret.set name cert)
    refine ⟨ret', ?_, fun n => ?_, fun n c hn => ?_⟩
    · rw [List.foldlM_cons, addNamed, hfind]
      exact hfold
    · rw [hkeys, Dict.mem_keys_set, List.mem_cons]
      tauto
    · refine (hget n c hn).elim .inl fun hset => ?_
      rw [Dict.get_set] at hset
      split_ifs at hset with heq
      · cases hset
        obtain ⟨hc, hname⟩ := of_findCertificateDefinition hfind
        exact .inl ⟨hc, hname.trans heq.symm⟩
      · exact .inr hset

theorem exists_inv (hknown : ∀ n ∈ names, n ∈ certs.map Cert.name) :
    ∃ ret, names.foldlM (addNamed certs) Dict.empty = .ok ret ∧
      Inv certs names ⟨-1, some names, ret⟩ := by
  obtain ⟨ret, hfold, hkeys, hget⟩ := foldlM_addNamed hknown Dict.empty
  have hnamed : ∀ n, n ∈ ret.keys ↔ n ∈ names := fun n =>
    (hkeys n).trans (or_iff_left List.not_mem_nil)
  refine ⟨ret, hfold, fun n c hn => ?_, fun n hn => (hnamed n).mpr hn, fun l hl => ?_,
    fun hcount => ?_⟩
  · rcases hget n c hn with ⟨hc, hname⟩ | hempty
    · exact ⟨hc, hname, .named ((hnamed n).mp (Dict.mem_keys.mpr ⟨c, hn⟩))⟩
    · cases hempty
  · cases hl
    exact ⟨rfl, fun n hn => (hnamed n).mp hn⟩
  · dsimp only at hcount
    omega

theorem selectItems_eq (hne : names ≠ []) {ret : Dict String Cert}
    (hfold : names.foldlM (addNamed certs) Dict.empty = .ok ret) (fuel : ℕ) :
    selectItems fuel certs names = (loop (selectRound certs) fuel ⟨-1, some names, ret⟩).map
      fun r => .ok (r.1.ret.items.map Prod.snd) := by
  rw [selectItems, if_neg hne, hfold]

theorem exists_selectItems (hne : names ≠ []) (hknown : ∀ n ∈ names, n ∈ certs.map Cert.name) :
    ∃ fuel l, selectItems fuel certs names = some (.ok l) := by
  obtain ⟨ret, hfold, hinv⟩ := exists_inv hknown
  obtain ⟨s, exit, hloop⟩ := exists_loop_eq (fun _ _ h => h.next) (fun _ _ h => h.cost_lt) hinv
  refine ⟨Selection.cost certs ⟨-1, some names, ret⟩ + 1, s.ret.items.map Prod.snd, ?_⟩
  rw [selectItems_eq hne hfold, hloop _ (Nat.lt_succ_self _)]
  rfl

/-- **What is selected**: one definition of each name that the code sees to be reached. -/
theorem selectItems_spec (hne : names ≠ []) (hknown : ∀ n ∈ names, n ∈ certs.map Cert.name)
    {fuel : ℕ} {l : List Cert} (h : selectItems fuel certs names = some (.ok l)) :
    (∀ n, Reached Cert.Sees certs names n ↔ ∃ c ∈ l, c.name = n) ∧
      (∀ c ∈ l, c ∈ certs) ∧ ∀ c ∈ l, ∀ d ∈ l, c.name = d.name → c = d := by
  obtain ⟨ret, hfold, hinv⟩ := exists_inv hknown
  rw [selectItems_eq hne hfold, Option.map_eq_some_iff] at h
  obtain ⟨⟨s, exit⟩, hloop, hl⟩ := h
  cases hl
  obtain ⟨t, ht, hround⟩ := loop_inv (fun _ _ h => h.next) hinv hloop
  obtain ⟨hkeys, hdefs⟩ := ht.mem_values hround
  have hmem : ∀ c, c ∈ s.ret.items.map Prod.snd ↔ s.ret.get c.name = some c := by
    intro c
    rw [List.mem_map]
    constructor
    · rintro ⟨⟨n, d⟩, hnd, rfl⟩
      have hget := Dict.mem_items.mp hnd
      rwa [(hdefs n d hget).2]
    · exact fun hget => ⟨(c.name, c), Dict.mem_items.mpr hget, rfl⟩
  refine ⟨fun n => ?_, fun c hc => (hdefs _ _ ((hmem c).mp hc)).1, fun c hc d hd hname => ?_⟩
  · rw [← hkeys, Dict.mem_keys]
    constructor
    · rintro ⟨c, hget⟩
      have hname := (hdefs n c hget).2
      exact ⟨c, (hmem c).mpr (by rwa [hname]), hname⟩
    · rintro ⟨c, hc, rfl⟩
      exact ⟨c, (hmem c).mp hc⟩
  · have hget := (hmem c).mp hc
    rw [hname, (hmem d).mp hd] at hget
    exact (Option.some.inj hget).symm

theorem Reached.mem_names {edge : Cert → String → Prop} (hknown : ∀ n ∈ names, n ∈ certs.map Cert.name)
    {n : String} (h : Reached edge certs names n) : ∃ c ∈ certs, c.name = n := by
  cases h with
  | named hn => exact List.mem_map.mp (hknown n hn)
  | @step c m hc _ _ => exact ⟨c, hc, rfl⟩

end Result

/-- **The definitions of the dependent certificates are selected if and only if** the same names
are reached over what the code looks at, and no two definitions share one of these names. -/
theorem select_items_iff {certs : List Cert} {names : List String} (hne : names ≠ [])
    (hknown : ∀ n ∈ names, n ∈ certs.map Cert.name) :
    (∃ fuel l, selectItems fuel certs names = some (.ok l) ∧ SelectsDependents certs names l) ↔
      (∀ n, Reached Cert.Needs certs names n ↔ Reached Cert.Sees certs names n) ∧
        ∀ c ∈ certs, ∀ d ∈ certs, Reached Cert.Needs certs names c.name → c.name = d.name → c = d := by
  constructor
  · rintro ⟨fuel, l, hselect, hl⟩
    obtain ⟨hsees, -, hname⟩ := selectItems_spec hne hknown hselect
    refine ⟨fun n => ⟨fun hneeds => ?_, fun h => ?_⟩, fun c hc d hd hneeds heq => ?_⟩
    · obtain ⟨c, hc, rfl⟩ := hneeds.mem_names hknown
      exact (hsees _).mpr ⟨c, (hl c).mpr ⟨hc, hneeds⟩, rfl⟩
    · obtain ⟨c, hc, rfl⟩ := (hsees n).mp h
      exact ((hl c).mp hc).2
    · exact hname c ((hl c).mpr ⟨hc, hneeds⟩) d ((hl d).mpr ⟨hd, heq ▸ hneeds⟩) heq
  · rintro ⟨hsame, hdistinct⟩
    obtain ⟨fuel, l, hselect⟩ := exists_selectItems hne hknown
    obtain ⟨hsees, hcerts, -⟩ := selectItems_spec hne hknown hselect
    refine ⟨fuel, l, hselect, fun c => ⟨fun hc => ⟨hcerts c hc, ?_⟩, ?_⟩⟩
    · exact (hsame _).mpr ((hsees _).mpr ⟨c, hc, rfl⟩)
    · rintro ⟨hc, hneeds⟩
      obtain ⟨d, hd, heq⟩ := (hsees _).mp ((hsame _).mp hneeds)
      have hcd := hdistinct c hc d (hcerts d hd) hneeds heq.symm
      rwa [hcd]

/-! ## Dependents of `ca.pem` -/

theorem select_items_iff_ca :
    (∃ fuel l, selectItems fuel [caCert, serverCert] ["ca.pem"] = some (.ok l) ∧
      SelectsDependents [caCert, serverCert] ["ca.pem"] l) ↔
      (∀ n, Reached Cert.Needs [caCert, serverCert] ["ca.pem"] n ↔
        Reached Cert.Sees [caCert, serverCert] ["ca.pem"] n) ∧
      ∀ c ∈ [caCert, serverCert], ∀ d ∈ [caCert, serverCert],
        Reached Cert.Needs [caCert, serverCert] ["ca.pem"] c.name → c.name = d.name → c = d :=
  select_items_iff (List.cons_ne_nil _ _) (by decide)

/-- `{name: client.pem, Subject: {CN: …}}`, which `ca.pem` signs. -/
def clientCert : Cert where
  entries := (Dict.empty.set "name" (.text "client.pem")).set "Subject" (.dict ["CN"])
  name := "client.pem"
  named := by decide
  known := by decide
  issuerText := by decide
  appendNames := by decide

theorem eq_of_reached_sees {n : String}
    (h : Reached Cert.Sees [caCert, clientCert] ["ca.pem"] n) : n = "ca.pem" := by
  induction h with
  | named hn => exact List.mem_singleton.mp hn
  | step hc _ hsees ih =>
    subst ih
    rcases List.mem_pair.mp hc with rfl | rfl
    · rfl
    · exact absurd hsees (by unfold Cert.Sees; decide)

/-- A certificate that `ca.pem` signs by default is left out. -/
theorem default_issuer_not_selected :
    ¬∃ fuel l, selectItems fuel [caCert, clientCert] ["ca.pem"] = some (.ok l) ∧
      SelectsDependents [caCert, clientCert] ["ca.pem"] l := by
  rintro ⟨fuel, l, hselect, hl⟩
  have hneeds : Reached Cert.Needs [caCert, clientCert] ["ca.pem"] clientCert.name :=
    .step (by simp) (.named List.mem_cons_self) (.inl (by decide))
  have hmem : clientCert ∈ l := (hl clientCert).mpr ⟨by simp, hneeds⟩
  have hsees := ((selectItems_spec (List.cons_ne_nil _ _) (by decide) hselect).1 _).mpr
    ⟨clientCert, hmem, rfl⟩
  exact absurd (eq_of_reached_sees hsees) (by decide)

end MongoTests.Ssl
