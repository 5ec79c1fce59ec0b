import Mathlib.Algebra.Order.Field.Basic
import Mathlib.Data.List.Nodup
import Mathlib.Tactic.NormNum
import MongoTests.Fsm.Config
import MongoTests.Lib.PrefixSums

/-!
# The weighted choice is proportional

`getWeightedRandomChoice` of `fsm.js` on weights that are not negative. The script accumulates the
weights and takes the first state whose sum exceeds the scaled random value, which is the state
whose cell contains the value.

* `choice_eq_ok_iff_mem_cell`: the choice, by the cells.
* **`choice_proportional`**: each random value gives the state of its cell.
-/

namespace MongoTests.Fsm

open MongoTests.Lib

variable {doc : Targets} {ws : List ℚ} {r w : ℚ} {t : String} {i : ℕ}

theorem prefixSum_eq_acc : prefixSum ws i = acc ws (i + 1) := rfl

theorem Weighs.ne_nil (hw : Weighs doc ws) (hsum : 0 < ws.sum) : doc ≠ [] := by
  rintro rfl
  cases ws with
  | nil => exact lt_irrefl 0 hsum
  | cons w ws => cases hw

theorem Weighs.getElem? (hw : Weighs doc ws) (h : doc[i]? = some (t, .fin w)) :
    (doc.map Prod.fst)[i]? = some t ∧ ws[i]? = some w := by
  refine ⟨by rw [List.getElem?_map, h]; rfl, ?_⟩
  have hsnd : (ws.map Js.Number.fin)[i]? = some (.fin w) := by
    rw [← hw, List.getElem?_map, h]
    rfl
  obtain ⟨w', hw', heq⟩ := Option.map_eq_some_iff.mp (List.getElem?_map.symm.trans hsnd)
  cases heq
  exact hw'

/-- The choice is a state whose cell contains the scaled random value. -/
theorem choice_eq_ok_iff_mem_cell (hw : Weighs doc ws) (hnonneg : ∀ w ∈ ws, 0 ≤ w)
    (hsum : 0 < ws.sum) (h0 : 0 ≤ r) (h1 : r < 1) :
    getWeightedRandomChoice (some doc) r = .ok t ↔
      ∃ i, (doc.map Prod.fst)[i]? = some t ∧ r * ws.sum ∈ cell ws i := by
  rw [choice_eq_ok hw h0 h1 (hw.ne_nil hsum)]
  refine exists_congr fun i => and_congr_right fun _ => ?_
  exact (mem_cell_iff hnonneg (mul_nonneg h0 hsum.le)).symm

/-- The keys of an object differ, so that a state has one cell. -/
theorem choice_eq_ok_iff (hw : Weighs doc ws) (hkeys : (doc.map Prod.fst).Nodup)
    (hnonneg : ∀ w ∈ ws, 0 ≤ w) (hsum : 0 < ws.sum) (h0 : 0 ≤ r) (h1 : r < 1)
    (ht : (doc.map Prod.fst)[i]? = some t) :
    getWeightedRandomChoice (some doc) r = .ok t ↔ r * ws.sum ∈ cell ws i := by
  rw [choice_eq_ok_iff_mem_cell hw hnonneg hsum h0 h1]
  constructor
  · rintro ⟨j, hj, hmem⟩
    obtain ⟨hi, hget⟩ := List.getElem?_eq_some_iff.mp ht
    obtain ⟨hj, hget'⟩ := List.getElem?_eq_some_iff.mp hj
    obtain rfl := (hkeys.getElem_inj_iff).mp (hget.trans hget'.symm)
    exact hmem
  · intro hmem
    exact ⟨i, ht, hmem⟩

/-- Every random value gives a state. -/
theorem exists_choice (hw : Weighs doc ws) (hnonneg : ∀ w ∈ ws, 0 ≤ w) (hsum : 0 < ws.sum)
    (h0 : 0 ≤ r) (h1 : r < 1) : ∃ t, getWeightedRandomChoice (some doc) r = .ok t := by
  obtain ⟨i, hi, hmem⟩ := exists_mem_cell hnonneg (mul_nonneg h0 hsum.le)
    (mul_lt_of_lt_one_left hsum h1)
  have hlen : doc.length = ws.length := by simpa using congrArg List.length hw
  have hi' : i < (doc.map Prod.fst).length := by rwa [List.length_map, hlen]
  exact ⟨_, (choice_eq_ok_iff_mem_cell hw hnonneg hsum h0 h1).mpr
    ⟨i, List.getElem?_eq_getElem hi', hmem⟩⟩

/-- A random value that is scaled to where the cell of a positive weight begins. -/
theorem exists_choice_eq (hw : Weighs doc ws) (hnonneg : ∀ w ∈ ws, 0 ≤ w) (hsum : 0 < ws.sum)
    (ht : (doc.map Prod.fst)[i]? = some t) (hi : ws[i]? = some w) (hpos : 0 < w) :
    ∃ r, 0 ≤ r ∧ r < 1 ∧ getWeightedRandomChoice (some doc) r = .ok t := by
  have h0 : 0 ≤ acc ws i / ws.sum :=
    div_nonneg (acc_zero.symm.le.trans (acc_mono hnonneg i.zero_le)) hsum.le
  have h1 : acc ws i / ws.sum < 1 := (div_lt_one hsum).mpr (acc_lt_sum hnonneg hi hpos)
  refine ⟨_, h0, h1, (choice_eq_ok_iff_mem_cell hw hnonneg hsum h0 h1).mpr ⟨i, ht, ?_⟩⟩
  rw [div_mul_cancel₀ _ hsum.ne']
  exact acc_mem_cell hi hpos

/-- **The weighted choice is proportional.** For weights that are not negative and have a positive
sum, every random value gives a state, which is the one state whose cell contains the value scaled
by the sum. A state of weight zero is never chosen, one of positive weight for some value. -/
theorem choice_proportional (hw : Weighs doc ws) (hkeys : (doc.map Prod.fst).Nodup)
    (hnonneg : ∀ w ∈ ws, 0 ≤ w) (hsum : 0 < ws.sum) :
    (∀ r, 0 ≤ r → r < 1 →
      (∃ t, getWeightedRandomChoice (some doc) r = .ok t) ∧
      (∃! i, i < ws.length ∧ r * ws.sum ∈ cell ws i) ∧
      ∀ i t, (doc.map Prod.fst)[i]? = some t →
        (getWeightedRandomChoice (some doc) r = .ok t ↔ r * ws.sum ∈ cell ws i)) ∧
    (∀ t, (t, .fin 0) ∈ doc → ∀ r, getWeightedRandomChoice (some doc) r ≠ .ok t) ∧
    ∀ t w, (t, .fin w) ∈ doc → 0 < w →
      ∃ r, 0 ≤ r ∧ r < 1 ∧ getWeightedRandomChoice (some doc) r = .ok t := by
  refine ⟨fun r h0 h1 => ⟨exists_choice hw hnonneg hsum h0 h1, ?_, fun i t ht =>
    choice_eq_ok_iff hw hkeys hnonneg hsum h0 h1 ht⟩, ?_, ?_⟩
  · obtain ⟨i, hi, hmem⟩ := exists_mem_cell hnonneg (mul_nonneg h0 hsum.le)
      (mul_lt_of_lt_one_left hsum h1)
    exact ⟨i, ⟨hi, hmem⟩, fun j hj => cell_unique hnonneg hj.2 hmem⟩
  · intro t ht r h
    obtain ⟨i, hi⟩ := List.mem_iff_getElem?.mp ht
    obtain ⟨hkey, hweight⟩ := hw.getElem? hi
    obtain ⟨_, h0, hrest⟩ := bind_eq_ok.mp h
    obtain ⟨_, h1, -⟩ := bind_eq_ok.mp hrest
    have hmem := (choice_eq_ok_iff hw hkeys hnonneg hsum (ensure_eq_ok.mp h0)
      (ensure_eq_ok.mp h1) hkey).mp h
    rw [cell_eq_empty hweight] at hmem
    exact hmem
  · intro t w ht hpos
    obtain ⟨i, hi⟩ := List.mem_iff_getElem?.mp ht
    obtain ⟨hkey, hweight⟩ := hw.getElem? hi
    exact exists_choice_eq hw hnonneg hsum hkey hweight hpos

/-- Weights of zero before, between and after positive ones. -/
theorem choice_proportional_zeros :
    getWeightedRandomChoice
      (some [("a", .fin 0), ("b", .fin 1), ("c", .fin 0), ("d", .fin 3), ("e", .fin 0)]) (1 / 4) =
        .ok "d" ∧
    ∀ r, getWeightedRandomChoice
      (some [("a", .fin 0), ("b", .fin 1), ("c", .fin 0), ("d", .fin 3), ("e", .fin 0)]) r ≠
        .ok "c" := by
  have h := @choice_proportional
    [("a", .fin 0), ("b", .fin 1), ("c", .fin 0), ("d", .fin 3), ("e", .fin 0)] [0, 1, 0, 3, 0] rfl
    (by decide) (by simp) (by norm_num)
  refine ⟨(((h.1 (1 / 4) (by norm_num) (by norm_num)).2.2) 3 "d" rfl).mpr ?_, h.2.1 "c" (by simp)⟩
  rw [cell, Set.mem_Ico]
  norm_num [acc]

end MongoTests.Fsm
