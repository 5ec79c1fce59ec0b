import Mathlib.Data.Fintype.EquivFin
import Mathlib.Data.List.FinRange
import Mathlib.Data.List.Forall2
import Mathlib.Data.List.Perm.Basic
import Mathlib.Logic.Equiv.Basic

/-!
# Matchings between two lists

Each element of the left list is related to an element of the right one, at distinct positions.

* `Matches`; `Matches.exists_equiv`, `matches_of_equiv`: matchings of lists of the same length are the
  bijections between their positions.
* `exists_matches_iff_perm`: matchings by keys.
* `Matches.exchange`: the first element can take any position that it is related to, if elements that
  are related to one element in common are related to the same ones. So a greedy search finds a
  matching without going back.
-/

namespace MongoTests.Lib

variable {α β : Type*} {R : α → β → Prop} {l : List α} {r : List β} {js : List ℕ}

variable (R r) in
/-- `a` is related to the element at position `j`. -/
def RelatedAt (a : α) (j : ℕ) : Prop := ∃ b, r[j]? = some b ∧ R a b

variable (R) in
/-- Positions of `r`, one for each element of `l`. -/
structure Matches (l : List α) (r : List β) (js : List ℕ) : Prop where
  nodup : js.Nodup
  related : List.Forall₂ (RelatedAt R r) l js

namespace Matches

theorem exists_equiv (h : Matches R l r js) (hlen : l.length = r.length) :
    ∃ σ : Fin l.length ≃ Fin r.length, ∀ i, R (l.get i) (r.get (σ i)) := by
  obtain ⟨hjs, hget⟩ := List.forall₂_iff_get.mp h.related
  have hrel : ∀ i : Fin l.length, ∃ hlt : js.get (i.cast hjs) < r.length,
      R (l.get i) (r.get ⟨_, hlt⟩) := by
    intro i
    obtain ⟨b, hb, hR⟩ := hget i i.isLt (hjs ▸ i.isLt)
    obtain ⟨hlt, rfl⟩ := List.getElem?_eq_some_iff.mp hb
    exact ⟨hlt, hR⟩
  choose hlt hR using hrel
  let f : Fin l.length → Fin r.length := fun i => ⟨_, hlt i⟩
  have hinj : Function.Injective f := by
    intro i i' heq
    have hval := Fin.mk.inj heq
    exact Fin.ext ((h.nodup.getElem_inj_iff).mp hval)
  have hbij : Function.Bijective f :=
    (Fintype.bijective_iff_injective_and_card f).mpr ⟨hinj, by simpa using hlen⟩
  exact ⟨Equiv.ofBijective f hbij, hR⟩

theorem exchange (hR : ∀ a a' b b', R a b → R a' b → R a b' → R a' b') {a : α} {j j₀ : ℕ}
    (h : Matches R (a :: l) r (j₀ :: js)) (hj : RelatedAt R r a j) :
    Matches R l r (js.map (Equiv.swap j j₀)) ∧ j ∉ js.map (Equiv.swap j j₀) := by
  obtain ⟨hnew, hnodup⟩ := List.nodup_cons.mp h.nodup
  obtain ⟨hj₀, hrelated⟩ := List.forall₂_cons.mp h.related
  -- what is related to one of the two positions is related to the other one
  have hmove : ∀ {a' j j'}, RelatedAt R r a j → RelatedAt R r a j' → RelatedAt R r a' j →
      RelatedAt R r a' j' := by
    rintro a' j j' ⟨b, hb, hab⟩ ⟨b', hb', hab'⟩ ⟨b'', hb'', hab''⟩
    obtain rfl : b = b'' := Option.some.inj (hb.symm.trans hb'')
    exact ⟨b', hb', hR a a' b b' hab hab'' hab'⟩
  refine ⟨⟨hnodup.map (Equiv.swap j j₀).injective, ?_⟩, fun hmem => ?_⟩
  · rw [List.forall₂_map_right_iff]
    refine hrelated.imp fun a' k hk => ?_
    by_cases hkj : k = j
    · rw [hkj, Equiv.swap_apply_left]
      exact hmove hj hj₀ (hkj ▸ hk)
    · by_cases hkj₀ : k = j₀
      · rw [hkj₀, Equiv.swap_apply_right]
        exact hmove hj₀ hj (hkj₀ ▸ hk)
      · rwa [Equiv.swap_apply_of_ne_of_ne hkj hkj₀]
  · obtain ⟨k, hk, heq⟩ := List.mem_map.mp hmem
    rw [Equiv.swap_apply_eq_iff, Equiv.swap_apply_left] at heq
    exact hnew (heq ▸ hk)

end Matches

theorem matches_of_equiv {σ : Fin l.length ≃ Fin r.length} (h : ∀ i, R (l.get i) (r.get (σ i))) :
    Matches R l r (List.ofFn fun i => (σ i : ℕ)) := by
  refine ⟨List.nodup_ofFn.mpr (Fin.val_injective.comp σ.injective), ?_⟩
  rw [List.forall₂_iff_get]
  refine ⟨List.length_ofFn.symm, fun i hi hi' => ⟨r.get (σ ⟨i, hi⟩), ?_, h ⟨i, hi⟩⟩⟩
  rw [List.get_ofFn]
  exact List.getElem?_eq_getElem _

/-- Lists of the same length have a matching by their keys if they have the same keys. -/
theorem exists_matches_iff_perm {γ : Type*} {f : α → γ} {g : β → γ} (hlen : l.length = r.length) :
    (∃ js, Matches (fun a b => f a = g b) l r js) ↔ (l.map f).Perm (r.map g) := by
  constructor
  · rintro ⟨js, hjs⟩
    obtain ⟨σ, hσ⟩ := hjs.exists_equiv hlen
    have hperm : ((List.finRange l.length).map σ).Perm (List.finRange r.length) := by
      refine (List.perm_ext_iff_of_nodup ?_ (List.nodup_finRange _)).mpr fun i => ?_
      · exact (List.nodup_finRange _).map σ.injective
      · exact iff_of_true (List.mem_map.mpr ⟨σ.symm i, List.mem_finRange _, σ.apply_symm_apply i⟩)
          (List.mem_finRange i)
    rw [← List.ofFn_getElem_eq_map l f, List.ofFn_eq_map, ← List.ofFn_getElem_eq_map r g,
      List.ofFn_eq_map]
    have hkeys : (List.finRange l.length).map (fun i => f (l.get i)) =
        ((List.finRange l.length).map σ).map fun i => g (r.get i) := by
      rw [List.map_map]
      exact List.map_congr_left fun i _ => hσ i
    exact hkeys ▸ hperm.map fun i => g (r.get i)
  · intro h
    have hrange : List.Forall₂ (fun c j => ∃ b, r[j]? = some b ∧ c = g b) (r.map g)
        (List.range r.length) := by
      rw [List.forall₂_map_left_iff, List.forall₂_iff_get]
      refine ⟨List.length_range.symm, fun i hi hi' => ⟨_, ?_, rfl⟩⟩
      rw [List.get_eq_getElem, List.getElem_range]
      exact List.getElem?_eq_getElem _
    obtain ⟨js, hjs, hperm⟩ := List.perm_comp_forall₂ h hrange
    rw [List.forall₂_map_left_iff] at hjs
    exact ⟨js, hperm.nodup_iff.mpr List.nodup_range, hjs⟩

end MongoTests.Lib
