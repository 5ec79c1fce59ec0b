import Mathlib.Data.List.Chain
import MongoTests.Lib.JsValue
import MongoTests.Logging.Buildlogger

/-!
# Batches of log lines

`_LogsSplitter.split_logs` of `resmokelib/logging/buildlogger.py` for any number as `max_size`: the
server sends it in a JSON body, so that it can be a fraction, zero, negative, infinite or `NaN`.

* `splitLogs`; `splitLogs_fin`: on positive integers it is the function of the previous module.
* `encodedSize`: the size of a batch in JSON, the sum of its `lineSize`s (`encodedSize_eq_sum`).
* `Filled`: what the loop keeps once the current batch has a line; `filled_foldl`.
* **`batches_iff`**: the batches are as they should be if and only if the first line fits.
  `batches_oversized_first`: if it does not, the first batch has no lines.
-/

namespace MongoTests.Logging.LogsSplitter

open MongoTests.Lib.Js

variable {Line : Type*} (dumps : Line → ℕ)

/-- `size > max_size`. -/
def exceeds (maxSize : Number) (size : ℕ) : Bool := maxSize.lt (.fin size)

/-- One line of the loop of `split_logs`, on the batches, the current one and its size. -/
def splitStep (maxSize : Number) (acc : List (List Line) × List Line × ℕ) (line : Line) :
    List (List Line) × List Line × ℕ :=
  if exceeds maxSize (acc.2.2 + lineSize dumps line) then
    (acc.1 ++ [acc.2.1], [line], lineSize dumps line)
  else (acc.1, acc.2.1 ++ [line], acc.2.2 + lineSize dumps line)

/-- `split_logs`; the only number that is not truthy is zero. -/
def splitLogs (logLines : List Line) (maxSize : Number) : List (List Line) :=
  if maxSize = .fin 0 then [logLines]
  else
    let r := logLines.foldl (splitStep dumps maxSize) ([], [], 0)
    r.1 ++ [r.2.1]

theorem splitStep_fin (m : ℕ+) :
    splitStep dumps (.fin (m : ℕ)) = Logging.splitStep dumps m := by
  funext acc line
  have h : exceeds (.fin (m : ℕ)) (acc.2.2 + lineSize dumps line) = true ↔
      (m : ℕ) < acc.2.2 + lineSize dumps line := by
    rw [exceeds, Number.fin_lt_fin]
    exact Nat.cast_lt
  simp only [splitStep, Logging.splitStep, h]

/-- On the positive integers nothing is new. -/
theorem splitLogs_fin (logLines : List Line) (m : ℕ+) :
    splitLogs dumps logLines (.fin (m : ℕ)) = Logging.splitLogs dumps logLines (some m) := by
  have hm : (Number.fin (m : ℕ)) ≠ .fin 0 := by
    intro h
    injection h with h
    exact m.ne_zero (by exact_mod_cast h)
  rw [splitLogs, if_neg hm, splitStep_fin, Logging.splitLogs]

/-! ## The size of a batch -/

/-- `len(json.dumps(batch))`: the brackets, the lines, and a comma and a space between them. -/
def encodedSize (batch : List Line) : ℕ := 2 + (batch.map dumps).sum + 2 * (batch.length - 1)

/-- What is added to the size of each line accounts for the punctuation of the array. -/
theorem encodedSize_eq_sum {batch : List Line} (h : batch ≠ []) :
    encodedSize dumps batch = (batch.map (lineSize dumps)).sum := by
  have hsum : (batch.map (lineSize dumps)).sum = (batch.map dumps).sum + 2 * batch.length := by
    clear h
    induction batch with
    | nil => rfl
    | cons line batch ih =>
      simp only [List.map_cons, List.sum_cons, List.length_cons, lineSize] at ih ⊢
      omega
  have hpos := List.length_pos_iff.mpr h
  rw [encodedSize, hsum]
  omega

theorem encodedSize_append {b c : List Line} (hb : b ≠ []) (hc : c ≠ []) :
    encodedSize dumps (b ++ c) = encodedSize dumps b + encodedSize dumps c := by
  have hbc : b ++ c ≠ [] := List.append_ne_nil_of_left_ne_nil hb c
  rw [encodedSize_eq_sum dumps hbc, encodedSize_eq_sum dumps hb, encodedSize_eq_sum dumps hc,
    List.map_append, List.sum_append]

@[simp] theorem encodedSize_singleton (line : Line) :
    encodedSize dumps [line] = lineSize dumps line := by
  rw [encodedSize_eq_sum dumps (List.cons_ne_nil _ _)]
  rfl

theorem exceeds_mono {maxSize : Number} {m n : ℕ} (h : exceeds maxSize m = true) (hle : m ≤ n) :
    exceeds maxSize n = true := by
  cases maxSize with
  | nan => exact absurd h (by simp [exceeds])
  | posInf => exact absurd h (by simp [exceeds, Number.lt])
  | negInf => rfl
  | fin x =>
    rw [exceeds, Number.fin_lt_fin] at h ⊢
    exact lt_of_lt_of_le h (by exact_mod_cast hle)

/-! ## The loop -/

/-- The batch is within the maximum size, or it is a line that is not. -/
def Fits (maxSize : Number) (batch : List Line) : Prop :=
  exceeds maxSize (encodedSize dumps batch) = false ∨
    ∃ line, batch = [line] ∧ exceeds maxSize (lineSize dumps line) = true

/-- What the batches should be: the lines, none empty unless all are, within the maximum size as far
as possible, and no two of them in place of one. -/
structure Batches (maxSize : Number) (logLines : List Line) (batches : List (List Line)) :
    Prop where
  flatten : batches.flatten = logLines
  nonempty : logLines ≠ [] → ∀ batch ∈ batches, batch ≠ []
  fits : ∀ batch ∈ batches, Fits dumps maxSize batch
  maximal : batches.IsChain fun b c => exceeds maxSize (encodedSize dumps (b ++ c)) = true

/-- The batches so far and the current one, which has a line. -/
structure Filled (maxSize : Number) (logLines : List Line)
    (acc : List (List Line) × List Line × ℕ) : Prop where
  size : acc.2.2 = encodedSize dumps acc.2.1
  batch_ne_nil : ∀ batch ∈ acc.1 ++ [acc.2.1], batch ≠ []
  batches : Batches dumps maxSize logLines (acc.1 ++ [acc.2.1])

section Loop

variable {dumps} {maxSize : Number}

theorem Filled.start {line : Line} (h : exceeds maxSize (lineSize dumps line) = false) :
    Filled dumps maxSize [line] (splitStep dumps maxSize ([], [], 0) line) := by
  have hstep : splitStep dumps maxSize ([], [], 0) line = ([], [line], lineSize dumps line) := by
    simp [splitStep, h]
  rw [hstep]
  refine ⟨by simp, by simp, ⟨by simp, by simp, ?_, List.isChain_singleton _⟩⟩
  intro batch hb
  rw [List.mem_singleton.mp hb]
  exact .inl (by rwa [encodedSize_singleton])

/-- The current batch is closed by a line that it has no room for. -/
theorem Filled.close {logLines : List Line} {done : List (List Line)} {curr : List Line} {size : ℕ}
    {line : Line} (h : Filled dumps maxSize logLines (done, curr, size))
    (hbig : exceeds maxSize (size + lineSize dumps line) = true) :
    Filled dumps maxSize (logLines ++ [line]) (done ++ [curr], [line], lineSize dumps line) := by
  obtain ⟨hsize, hne, hb⟩ := h
  have hcurr : curr ≠ [] := hne curr (by simp)
  have hall : ∀ batch ∈ done ++ [curr] ++ [[line]], batch ≠ [] := by
    intro batch hmem
    rcases List.mem_append.mp hmem with hmem | hmem
    · exact hne batch hmem
    · rw [List.mem_singleton.mp hmem]
      exact List.cons_ne_nil _ _
  refine ⟨(encodedSize_singleton dumps line).symm, hall, ⟨?_, fun _ => hall, ?_, ?_⟩⟩
  · show (done ++ [curr] ++ [[line]]).flatten = logLines ++ [line]
    rw [List.flatten_append, hb.flatten]
    rfl
  · intro batch hmem
    rcases List.mem_append.mp hmem with hmem | hmem
    · exact hb.fits batch hmem
    · rw [List.mem_singleton.mp hmem, Fits, encodedSize_singleton]
      by_cases he : exceeds maxSize (lineSize dumps line) = true
      · exact .inr ⟨line, rfl, he⟩
      · exact .inl (by simpa using he)
  · refine List.isChain_append.mpr ⟨hb.maximal, List.isChain_singleton _, ?_⟩
    intro b hlast c hc
    have hb' : curr = b := by simpa using hlast
    have hc' : [line] = c := by simpa using hc
    subst hb' hc'
    rw [encodedSize_append dumps hcurr (List.cons_ne_nil _ _), encodedSize_singleton]
    rwa [show size = encodedSize dumps curr from hsize] at hbig

/-- A line that fits goes into the current batch. -/
theorem Filled.extend {logLines : List Line} {done : List (List Line)} {curr : List Line} {size : ℕ}
    {line : Line} (h : Filled dumps maxSize logLines (done, curr, size))
    (hroom : exceeds maxSize (size + lineSize dumps line) = false) :
    Filled dumps maxSize (logLines ++ [line])
      (done, curr ++ [line], size + lineSize dumps line) := by
  obtain ⟨hsize, hne, hb⟩ := h
  have hcurr : curr ≠ [] := hne curr (by simp)
  have hline : [line] ≠ [] := List.cons_ne_nil _ _
  have hsum : encodedSize dumps (curr ++ [line]) = size + lineSize dumps line := by
    rw [encodedSize_append dumps hcurr hline, encodedSize_singleton]
    exact congrArg (· + _) hsize.symm
  have hall : ∀ batch ∈ done ++ [curr ++ [line]], batch ≠ [] := by
    intro batch hmem
    rcases List.mem_append.mp hmem with hmem | hmem
    · exact hne batch (List.mem_append_left _ hmem)
    · rw [List.mem_singleton.mp hmem]
      exact List.append_ne_nil_of_left_ne_nil hcurr _
  refine ⟨hsum.symm, hall, ⟨?_, fun _ => hall, ?_, ?_⟩⟩
  · have hflat := hb.flatten
    simp only [List.flatten_append, List.flatten_cons, List.flatten_nil, List.append_nil] at hflat ⊢
    rw [← hflat, List.append_assoc]
  · intro batch hmem
    rcases List.mem_append.mp hmem with hmem | hmem
    · exact hb.fits batch (List.mem_append_left _ hmem)
    · rw [List.mem_singleton.mp hmem]
      exact .inl (hsum ▸ hroom)
  · obtain ⟨hdone, -, hlink⟩ := List.isChain_append.mp hb.maximal
    refine List.isChain_append.mpr ⟨hdone, List.isChain_singleton _, ?_⟩
    intro b hlast c hc
    have hc' : curr ++ [line] = c := by simpa using hc
    subst hc'
    -- two batches that did not go into one still do not
    have hbne : b ≠ [] := hne b (List.mem_append_left _ (List.mem_of_getLast? hlast))
    refine exceeds_mono (hlink b hlast curr rfl) ?_
    have hcl : curr ++ [line] ≠ [] := List.append_ne_nil_of_left_ne_nil hcurr _
    rw [encodedSize_append dumps hbne hcurr, encodedSize_append dumps hbne hcl,
      encodedSize_append dumps hcurr hline]
    omega

theorem Filled.splitStep {logLines : List Line} {acc : List (List Line) × List Line × ℕ}
    (h : Filled dumps maxSize logLines acc) (line : Line) :
    Filled dumps maxSize (logLines ++ [line]) (splitStep dumps maxSize acc line) := by
  unfold LogsSplitter.splitStep
  split_ifs with hbig
  · exact h.close hbig
  · exact h.extend (by simpa using hbig)

theorem filled_foldl {logLines : List Line} {acc : List (List Line) × List Line × ℕ}
    (h : Filled dumps maxSize logLines acc) (more : List Line) :
    Filled dumps maxSize (logLines ++ more) (more.foldl (splitStep dumps maxSize) acc) := by
  induction more generalizing logLines acc with
  | nil => simpa using h
  | cons line more ih =>
    have hl := ih (h.splitStep line)
    rwa [List.append_assoc] at hl

/-- A first line that does not fit closes the batch that has no lines yet. -/
theorem mem_foldl_of_mem {batch : List Line} (more : List Line)
    {acc : List (List Line) × List Line × ℕ} (h : batch ∈ acc.1) :
    batch ∈ (more.foldl (splitStep dumps maxSize) acc).1 := by
  induction more generalizing acc with
  | nil => exact h
  | cons line more ih =>
    refine ih ?_
    unfold LogsSplitter.splitStep
    split_ifs
    · exact List.mem_append_left _ h
    · exact h

theorem nil_mem_splitLogs {line : Line} {rest : List Line} (hpos : maxSize ≠ .fin 0)
    (h : exceeds maxSize (lineSize dumps line) = true) :
    [] ∈ splitLogs dumps (line :: rest) maxSize := by
  rw [splitLogs, if_neg hpos]
  refine List.mem_append_left _ (mem_foldl_of_mem rest ?_)
  simp [LogsSplitter.splitStep, h]

end Loop

/-- **When the batches are as they should be.** For every list of lines and every positive maximum
size, the batches are the lines in order, none is empty unless there are no lines, each is within
the maximum size in JSON or a single line that is not, and no two adjacent ones could be one batch,
if and only if the first line alone (without lines, the empty list) is within the maximum size. -/
theorem batches_iff (logLines : List Line) {maxSize : Number}
    (hpos : Number.lt (.fin 0) maxSize = true) :
    Batches dumps maxSize logLines (splitLogs dumps logLines maxSize) ↔
      exceeds maxSize (encodedSize dumps (logLines.take 1)) = false := by
  have hne : maxSize ≠ .fin 0 := by
    rintro rfl
    exact absurd hpos (by decide +kernel)
  cases logLines with
  | nil =>
    have hnil : splitLogs dumps ([] : List Line) maxSize = [[]] := by
      rw [splitLogs, if_neg hne]
      rfl
    rw [hnil, List.take_nil]
    constructor
    · intro h
      rcases h.fits [] (List.mem_singleton_self _) with h | ⟨line, h, -⟩
      · exact h
      · exact absurd h (by simp)
    · intro h
      refine ⟨rfl, fun h => absurd rfl h, fun batch hb => ?_, List.isChain_singleton _⟩
      rw [List.mem_singleton.mp hb]
      exact .inl h
  | cons line rest =>
    rw [show (line :: rest).take 1 = [line] from rfl, encodedSize_singleton]
    constructor
    · intro h
      by_contra hbig
      have hmem : [] ∈ splitLogs dumps (line :: rest) maxSize :=
        nil_mem_splitLogs hne (by simpa using hbig)
      exact h.nonempty (List.cons_ne_nil _ _) [] hmem rfl
    · intro h
      rw [splitLogs, if_neg hne]
      exact (filled_foldl (Filled.start h) rest).batches

/-- A long line that is not the first makes a batch of its own. -/
theorem batches_iff_long_second :
    splitLogs id [5, 90, 4, 3] (.fin 14) = [[5], [90], [4, 3]] ∧
      Batches id (.fin 14) [5, 90, 4, 3] (splitLogs id [5, 90, 4, 3] (.fin 14)) :=
  ⟨by decide +kernel, (batches_iff id _ (by decide +kernel)).mpr (by decide +kernel)⟩

/-- **A batch without lines.** The first line is longer than the maximum size, and the batch that is
closed before it has no lines. -/
theorem batches_oversized_first :
    splitLogs id [90, 4] (.fin 14) = [[], [90], [4]] ∧
      ¬ Batches id (.fin 14) [90, 4] (splitLogs id [90, 4] (.fin 14)) := by
  have h : splitLogs id [90, 4] (.fin 14) = [[], [90], [4]] := by decide +kernel
  refine ⟨h, fun hb => ?_⟩
  rw [h] at hb
  exact hb.nonempty (by simp) [] (by simp) rfl

end MongoTests.Logging.LogsSplitter
