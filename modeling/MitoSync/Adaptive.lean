import MitoSync.Basic
import MitoSync.Lib.Binary64
/-!
# Adaptive — how many files a directory comparison has in flight

`run_directory_comparison` divides its thread budget among the common files (`parallelism`), then posts them through a
window that measurements of the throughput widen (`adapt`).  `Window.Step` has the main thread, its tasks and the user
in any order.  The window is open from the first file to the last exactly when the division leaves it a place
(`progresses_iff`): a budget below the threads the mixed branch gives a file leaves none (`Starved`), and the main
thread then waits for tasks it never posted.
-/
namespace Mito

open Lib

/-! ## The planning -/

/-- `static_cast<int>` of a `size_t`. -/
def asInt (n : Nat) : Int := (n : Int).bmod (2 ^ 32)

/-- The thread budget. -/
def maxThreadBudget (numThreads : Int) : Nat := if numThreads > 0 then numThreads.toNat else 1024

def multiChunkFiles (chunkSize : Int) (sizes : List Int) : Nat :=
  (sizes.filter (fun size => decide (size > chunkSize))).length

def singleChunkFiles (chunkSize : Int) (sizes : List Int) : Nat :=
  (sizes.filter (fun size => !decide (size > chunkSize))).length

/-- `large_file_ratio`, a division of doubles. -/
def largeFileRatio (multi files : Nat) : ℚ := double (double multi / double files)

/-- `static_cast<int>(4 * large_file_ratio + 1)`. -/
def threadsForRatio (ratio : ℚ) : Nat := ⌊double (double (4 * ratio) + 1)⌋.toNat

structure Parallelism where
  threadsPerFile : Nat
  initialConcurrency : Nat
  maxConcurrency : Nat

/-- The threads a file is given, and the concurrency to begin with, over the larger size of each common file. -/
def threadPlan (maxThreads : Nat) (chunkSize : Int) (sizes : List Int) : Nat × Nat :=
  let files := sizes.length
  let multi := multiChunkFiles chunkSize sizes
  if files = 0 then (1, 0)
  else if multi = 0 then (1, min files maxThreads)
  else if singleChunkFiles chunkSize sizes = 0 then
    let threadsPerFile := max 1 (maxThreads / (max 1 (asInt files)).toNat)
    (threadsPerFile, min files (maxThreads / threadsPerFile))
  else if largeFileRatio multi files > 1 / 2 then
    let threadsPerFile := max 1 (threadsForRatio (largeFileRatio multi files))
    (threadsPerFile, min files (maxThreads / threadsPerFile))
  else (1, min files maxThreads)

def parallelism (numThreads chunkSize : Int) (sizes : List Int) : Parallelism :=
  let maxThreads := maxThreadBudget numThreads
  let plan := threadPlan maxThreads chunkSize sizes
  let maxConcurrency := maxThreads / plan.1
  ⟨plan.1, min plan.2 maxConcurrency, maxConcurrency⟩

/-- The first `measurement_interval`. -/
def measurementInterval (initialConcurrency files : Nat) : Nat :=
  let interval := max 20 initialConcurrency
  if files > 0 then
    let adjusted := min interval (files / 2)
    if adjusted = 0 then 1 else adjusted
  else interval

/-! ## The window -/

/-- What a measurement finds: it comes less than 100 ms after the last; it is the first; the throughput grew by more
than 10%; or it did not. -/
inductive Measurement
  | early | first | improved | flat
  deriving DecidableEq

/-- What the main thread and its tasks share.  `measured` counts the tasks in flight that have booked their file. -/
structure Window where
  submitted : Nat := 0
  inFlight : Nat := 0
  measured : Nat := 0
  completedFiles : Nat := 0
  currentMaxConcurrency : Nat
  measurementInterval : Nat
  consecutiveFlat : Nat := 0
  reachedLimit : Bool := false
  cancelled : Bool := false

def adapt (maxConcurrency : Nat) (m : Measurement) (w : Window) : Window :=
  match m with
  | .improved =>
    if w.currentMaxConcurrency < maxConcurrency then
      let newMax := min (w.currentMaxConcurrency * 2) maxConcurrency
      { w with currentMaxConcurrency := newMax, measurementInterval := max 20 newMax, consecutiveFlat := 0 }
    else w
  | .flat =>
    { w with consecutiveFlat := w.consecutiveFlat + 1,
             reachedLimit := if w.consecutiveFlat + 1 ≥ 2 then true else w.reachedLimit }
  | _ => w

/-- A task books its file, and measures where the count is due. -/
def bookFile (maxConcurrency : Nat) (m : Measurement) (w : Window) : Window :=
  let w := { w with measured := w.measured + 1, completedFiles := w.completedFiles + 1 }
  if !w.reachedLimit && w.completedFiles % w.measurementInterval == 0 then adapt maxConcurrency m w else w

namespace Window

/-- The predicate the main thread waits for before it posts the next file. -/
def slotFree (w : Window) : Prop := w.inFlight < w.currentMaxConcurrency ∨ w.cancelled = true

/-- The main thread waits with no task that could wake it. -/
def Stuck (files : Nat) (w : Window) : Prop := w.submitted < files ∧ ¬ w.slotFree ∧ w.inFlight = 0

inductive Step (files maxConcurrency : Nat) : Window → Window → Prop
  | post {w : Window} (hidx : w.submitted < files) (hslot : w.slotFree) (hc : w.cancelled = false) :
    Step files maxConcurrency w { w with submitted := w.submitted + 1, inFlight := w.inFlight + 1 }
  | book {w : Window} (m : Measurement) (h : w.measured < w.inFlight) :
    Step files maxConcurrency w (bookFile maxConcurrency m w)
  /-- the guard of a task that has booked its file -/
  | release {w : Window} (h : 0 < w.measured) :
    Step files maxConcurrency w { w with inFlight := w.inFlight - 1, measured := w.measured - 1 }
  /-- the guard of a task that has thrown before it could -/
  | threw {w : Window} (h : w.measured < w.inFlight) :
    Step files maxConcurrency w { w with inFlight := w.inFlight - 1 }
  | cancel {w : Window} : Step files maxConcurrency w { w with cancelled := true }

/-- The window of a plan, before its first file. -/
def start (p : Parallelism) (files : Nat) : Window where
  currentMaxConcurrency := p.initialConcurrency
  measurementInterval := Mito.measurementInterval p.initialConcurrency files

/-- The window is open. -/
structure Open (maxConcurrency : Nat) (w : Window) : Prop where
  interval : 1 ≤ w.measurementInterval
  least : 1 ≤ w.currentMaxConcurrency
  most : w.currentMaxConcurrency ≤ maxConcurrency

theorem Open.not_stuck {files maxConcurrency : Nat} {w : Window} (h : w.Open maxConcurrency) : ¬ w.Stuck files := by
  rintro ⟨-, hslot, hidle⟩
  have := h.least
  exact hslot (.inl (by omega))

theorem Open.adapt {maxConcurrency : Nat} {m : Measurement} {w : Window} (h : w.Open maxConcurrency) :
    (adapt maxConcurrency m w).Open maxConcurrency := by
  have h₁ := h.least
  cases m with
  | early => exact h
  | first => exact h
  | flat => exact ⟨h.interval, h.least, h.most⟩
  | improved =>
    simp only [Mito.adapt]
    split
    · exact ⟨by simp only; omega, by simp only; omega, by simp only; omega⟩
    · exact h

theorem Open.step {files maxConcurrency : Nat} {w w' : Window} (h : w.Open maxConcurrency)
    (hs : Step files maxConcurrency w w') : w'.Open maxConcurrency := by
  cases hs with
  | post => exact ⟨h.interval, h.least, h.most⟩
  | release => exact ⟨h.interval, h.least, h.most⟩
  | threw => exact ⟨h.interval, h.least, h.most⟩
  | cancel => exact ⟨h.interval, h.least, h.most⟩
  | book m =>
    unfold bookFile
    simp only
    split
    · exact Open.adapt ⟨h.interval, h.least, h.most⟩
    · exact ⟨h.interval, h.least, h.most⟩

/-- **An open window stays open**, whatever is measured. -/
theorem Open.run {files maxConcurrency : Nat} {w w' : Window} (h : w.Open maxConcurrency)
    (hr : Relation.ReflTransGen (Step files maxConcurrency) w w') : w'.Open maxConcurrency := by
  induction hr with
  | refl => exact h
  | tail _ hs ih => exact ih.step hs

end Window

/-! ## The ratio -/

theorem representable_of_eq {y : ℚ} (n : Nat) (k : Int) (hn : n < 2 ^ 53) (h : y = n * 2 ^ k) : Representable y :=
  ⟨n, k, by omega, by exact_mod_cast hn, by exact_mod_cast h⟩

theorem representable_nat {n : Nat} (hn : n < 2 ^ 53) : Representable n :=
  representable_of_eq n 0 hn (by norm_num)

/-- A ratio above a half, in units of its last place. -/
theorem exists_units {r : ℚ} (hr : Representable r) (h : 1 / 2 < r) : ∃ m : ℕ, r = m / 2 ^ 53 := by
  have hhalf : (2 : ℚ) ^ (-1 : ℤ) ≤ r := by
    rw [zpow_neg_one]
    linarith
  obtain ⟨m, hm⟩ := hr.multiple hhalf
  have hpow : (2 : ℚ) ^ ((-1 : ℤ) - 52) = 1 / 2 ^ 53 := by norm_num
  rw [hpow] at hm
  have hnonneg : 0 ≤ m := by
    by_contra hneg
    have : (m : ℚ) < 0 := by exact_mod_cast not_le.1 hneg
    have : r < 0 := by rw [hm]; linarith
    linarith
  obtain ⟨n, rfl⟩ := Int.eq_ofNat_of_zero_le hnonneg
  exact ⟨n, by rw [hm]; push_cast; ring⟩

/-- The product by 4 is exact, and the sum is rounded. -/
theorem threadsForRatio_units {m : ℕ} (h₁ : 2 ^ 52 < m) (h₂ : m ≤ 2 ^ 53) :
    threadsForRatio (m / 2 ^ 53) = ⌊double (m / 2 ^ 51 + 1)⌋.toNat := by
  have hq : (4 : ℚ) * (m / 2 ^ 53) = m / 2 ^ 51 := by ring
  have hm : (2 : ℚ) ^ 52 < m := by exact_mod_cast h₁
  have hpos : (0 : ℚ) < m / 2 ^ 51 := by linarith [show (2 : ℚ) < m / 2 ^ 51 by rw [lt_div_iff₀] <;> linarith]
  have hrep : Representable ((m : ℚ) / 2 ^ 51) := by
    rcases h₂.lt_or_eq with hlt | rfl
    · exact representable_of_eq m (-51) hlt (by norm_num; ring)
    · exact representable_of_eq 4 0 (by norm_num) (by norm_num)
  unfold threadsForRatio
  rw [hq, double_eq hpos hrep]

/-- **Between half and three quarters a file is given 3 threads**, the sum being exact there. -/
theorem threadsForRatio_three {r : ℚ} (hr : Representable r) (h₁ : 1 / 2 < r) (h₂ : r < 3 / 4) :
    threadsForRatio r = 3 := by
  obtain ⟨m, rfl⟩ := exists_units hr h₁
  have hlo : (2 : ℚ) ^ 52 < m := by rw [lt_div_iff₀ (by norm_num)] at h₁; linarith
  have hhi : (m : ℚ) < 3 * 2 ^ 51 := by rw [div_lt_iff₀ (by norm_num)] at h₂; linarith
  have hlo' : 2 ^ 52 < m := by exact_mod_cast hlo
  have hhi' : m < 3 * 2 ^ 51 := by exact_mod_cast hhi
  have hpos : (0 : ℚ) < m / 2 ^ 51 + 1 := by positivity
  have hrep : Representable ((m : ℚ) / 2 ^ 51 + 1) :=
    representable_of_eq (m + 2 ^ 51) (-51) (by omega) (by push_cast; norm_num; ring)
  rw [threadsForRatio_units hlo' (by omega), double_eq hpos hrep]
  have hfloor : ⌊(m : ℚ) / 2 ^ 51 + 1⌋ = 3 := by
    rw [Int.floor_eq_iff]
    constructor
    · push_cast
      rw [← sub_le_iff_le_add, le_div_iff₀ (by norm_num)]
      linarith
    · push_cast
      rw [← lt_sub_iff_add_lt, div_lt_iff₀ (by norm_num)]
      linarith
  rw [hfloor]
  rfl

/-- From three quarters on it is given 4, -/
theorem threadsForRatio_four {r : ℚ} (hr : Representable r) (h₁ : 3 / 4 ≤ r) (h₂ : r < 1 - 1 / 2 ^ 53) :
    threadsForRatio r = 4 := by
  obtain ⟨m, rfl⟩ := exists_units hr (by linarith)
  have hlo : (3 : ℚ) * 2 ^ 51 ≤ m := by rw [le_div_iff₀ (by norm_num)] at h₁; linarith
  have hhi : (m : ℚ) < 2 ^ 53 - 1 := by
    rw [div_lt_iff₀ (by norm_num)] at h₂
    linarith
  have hlo' : 3 * 2 ^ 51 ≤ m := by exact_mod_cast hlo
  have hhi' : m + 2 ≤ 2 ^ 53 := by
    have : (m : ℚ) + 1 < 2 ^ 53 := by linarith
    have : m + 1 < 2 ^ 53 := by exact_mod_cast this
    omega
  have hpos : (0 : ℚ) < m / 2 ^ 51 + 1 := by positivity
  have hleast : (4 : ℚ) ≤ double (m / 2 ^ 51 + 1) := by
    refine le_double hpos (representable_of_eq 4 0 (by norm_num) (by norm_num)) ?_
    rw [← sub_le_iff_le_add, le_div_iff₀ (by norm_num)]
    linarith
  have hmost : double (m / 2 ^ 51 + 1) ≤ 5 - 1 / 2 ^ 50 := by
    refine double_le hpos (representable_of_eq (5 * 2 ^ 50 - 1) (-50) (by norm_num) (by norm_num)) ?_
    rw [← le_sub_iff_add_le, div_le_iff₀ (by norm_num)]
    have : (m : ℚ) + 2 ≤ 2 ^ 53 := by exact_mod_cast hhi'
    linarith
  have hfloor : ⌊double ((m : ℚ) / 2 ^ 51 + 1)⌋ = 4 := by
    rw [Int.floor_eq_iff]
    exact ⟨by push_cast; exact hleast, by push_cast; linarith⟩
  rw [threadsForRatio_units (by omega) (by omega), hfloor]
  rfl

/-- and 5 where the ratio rounds to 1, or to the last double before it, a tie that goes to the even 5. -/
theorem threadsForRatio_five {r : ℚ} (hr : Representable r) (h₁ : 1 - 1 / 2 ^ 53 ≤ r) (h₂ : r ≤ 1) :
    threadsForRatio r = 5 := by
  obtain ⟨m, rfl⟩ := exists_units hr (by linarith)
  have hlo : (2 : ℚ) ^ 53 - 1 ≤ m := by
    rw [le_div_iff₀ (by norm_num)] at h₁
    linarith
  have hhi : (m : ℚ) ≤ 2 ^ 53 := by rw [div_le_iff₀ (by norm_num)] at h₂; linarith
  have hlo' : 2 ^ 53 ≤ m + 1 := by
    have : (2 : ℚ) ^ 53 ≤ m + 1 := by linarith
    exact_mod_cast this
  have hhi' : m ≤ 2 ^ 53 := by exact_mod_cast hhi
  rw [threadsForRatio_units (by omega) hhi']
  have hfive : double ((m : ℚ) / 2 ^ 51 + 1) = 5 := by
    rcases hhi'.lt_or_eq with hlt | rfl
    · have hm : m = 2 ^ 53 - 1 := by omega
      have hx : ((m : ℕ) : ℚ) / 2 ^ 51 + 1 = 5 - 1 / 2 ^ 51 := by
        rw [hm]
        norm_num
      have hpos : (0 : ℚ) < 5 - 1 / 2 ^ 51 := by norm_num
      have hlog : Int.log 2 (5 - 1 / 2 ^ 51 : ℚ) = 2 := by
        have h2 : 2 ≤ Int.log 2 (5 - 1 / 2 ^ 51 : ℚ) := (Int.zpow_le_iff_le_log (by decide) hpos).1 (by norm_num)
        have h3 : Int.log 2 (5 - 1 / 2 ^ 51 : ℚ) < 3 := (Int.lt_zpow_iff_log_lt (by decide) hpos).1 (by norm_num)
        omega
      have hulp : ulp (5 - 1 / 2 ^ 51 : ℚ) = 1 / 2 ^ 50 := by
        rw [ulp, hlog]
        norm_num
      have hfloor : ⌊(5 - 1 / 2 ^ 51 : ℚ) / (1 / 2 ^ 50)⌋ = 5 * 2 ^ 50 - 1 := by
        rw [Int.floor_eq_iff]
        norm_num
      rw [hx, double, hulp, roundHalfEven, hfloor]
      norm_num
    · rw [show ((2 ^ 53 : ℕ) : ℚ) / 2 ^ 51 + 1 = 5 by norm_num]
      exact double_eq (by norm_num) (representable_of_eq 5 0 (by norm_num) (by norm_num))
  rw [hfive]
  rfl

theorem largeFileRatio_spec {multi files : Nat} (h₀ : 0 < multi) (h : multi ≤ files) :
    Representable (largeFileRatio multi files) ∧ largeFileRatio multi files ≤ 1 := by
  have hm : (0 : ℚ) < multi := by exact_mod_cast h₀
  have hle : (multi : ℚ) ≤ files := by exact_mod_cast h
  have hf : (0 : ℚ) < files := hm.trans_le hle
  have hmono : double multi ≤ double files := double_mono hm hle
  have hpos : 0 < double (multi : ℚ) / double files := div_pos (double_pos hm) (double_pos hf)
  refine ⟨representable_double hpos, double_le hpos (representable_of_eq 1 0 (by norm_num) (by norm_num)) ?_⟩
  exact (div_le_one (double_pos hf)).2 hmono

/-! ## When the window opens -/

/-- **A budget the mixed branch leaves no file a place of**: most of the files are large, and a file is given more
threads than there are. -/
def Starved (numThreads chunkSize : Int) (sizes : List Int) : Prop :=
  let maxThreads := maxThreadBudget numThreads
  let ratio := largeFileRatio (multiChunkFiles chunkSize sizes) sizes.length
  multiChunkFiles chunkSize sizes ≠ 0 ∧ singleChunkFiles chunkSize sizes ≠ 0 ∧ 1 / 2 < ratio ∧
    (maxThreads < 3 ∨ maxThreads < 4 ∧ 3 / 4 ≤ ratio ∨ maxThreads < 5 ∧ 1 - 1 / 2 ^ 53 ≤ ratio)

theorem maxThreadBudget_pos (numThreads : Int) : 0 < maxThreadBudget numThreads := by
  unfold maxThreadBudget
  split <;> omega

theorem multi_add_single (chunkSize : Int) (sizes : List Int) :
    multiChunkFiles chunkSize sizes + singleChunkFiles chunkSize sizes = sizes.length := by
  unfold multiChunkFiles singleChunkFiles
  exact (List.length_eq_length_filter_add _).symm

/-- The threads of the mixed branch. -/
theorem lt_threadsForRatio {r : ℚ} (hr : Representable r) (h₁ : 1 / 2 < r) (h₂ : r ≤ 1) (n : Nat) :
    n < threadsForRatio r ↔ n < 3 ∨ n < 4 ∧ 3 / 4 ≤ r ∨ n < 5 ∧ 1 - 1 / 2 ^ 53 ≤ r := by
  rcases lt_or_ge r (3 / 4) with h | h
  · have hfive : ¬ 1 - 1 / 2 ^ 53 ≤ r := by norm_num; linarith
    rw [threadsForRatio_three hr h₁ h]
    simp only [not_le.2 h, hfive, and_false, or_false]
  · rcases lt_or_ge r (1 - 1 / 2 ^ 53) with h' | h'
    · rw [threadsForRatio_four hr h h']
      simp only [h, not_le.2 h', and_true, and_false, or_false]
      omega
    · rw [threadsForRatio_five hr h' h₂]
      simp only [h, h', and_true]
      omega

/-- **The division leaves a place** unless the budget is starved. -/
theorem threadPlan_le_iff {numThreads chunkSize : Int} {sizes : List Int} :
    ((threadPlan (maxThreadBudget numThreads) chunkSize sizes).1 ≤ maxThreadBudget numThreads ↔
      ¬ Starved numThreads chunkSize sizes) ∧ 1 ≤ (threadPlan (maxThreadBudget numThreads) chunkSize sizes).1 := by
  have hb := maxThreadBudget_pos numThreads
  have hcount := multi_add_single chunkSize sizes
  unfold threadPlan Starved
  simp only
  split_ifs with hfiles hmulti hsingle hratio
  · have hmulti : multiChunkFiles chunkSize sizes = 0 := by omega
    simp [hmulti]
    omega
  · simp [hmulti]
    omega
  · simp only [hsingle, ne_eq, not_true, false_and, and_false, not_false_iff, iff_true]
    exact ⟨max_le hb (Nat.div_le_self _ _), le_max_left _ _⟩
  · obtain ⟨hrep, hone⟩ := largeFileRatio_spec (Nat.pos_of_ne_zero hmulti)
      (show multiChunkFiles chunkSize sizes ≤ sizes.length by omega)
    have hlt := lt_threadsForRatio hrep hratio hone (maxThreadBudget numThreads)
    refine ⟨?_, le_max_left _ _⟩
    simp only [hmulti, hsingle, ne_eq, not_false_iff, true_and, show (1 / 2 : ℚ) < _ from hratio, ← hlt, not_lt]
    omega
  · simp only [show ¬ (1 / 2 : ℚ) < _ from hratio, false_and, and_false, not_false_iff, iff_true]
    omega

/-- The comparison of `sizes.length` files makes progress: its window begins within its bounds, and in no order of the
tasks, of their measurements and of a cancellation is it closed, or the main thread left waiting for nothing. -/
structure Progresses (numThreads chunkSize : Int) (sizes : List Int) : Prop where
  threads : 1 ≤ (parallelism numThreads chunkSize sizes).threadsPerFile
  initial : 1 ≤ (parallelism numThreads chunkSize sizes).initialConcurrency
  bounded : (parallelism numThreads chunkSize sizes).initialConcurrency ≤
    (parallelism numThreads chunkSize sizes).maxConcurrency
  run : ∀ w, Relation.ReflTransGen (Window.Step sizes.length (parallelism numThreads chunkSize sizes).maxConcurrency)
    (.start (parallelism numThreads chunkSize sizes) sizes.length) w →
      w.Open (parallelism numThreads chunkSize sizes).maxConcurrency ∧ ¬ w.Stuck sizes.length

theorem measurementInterval_pos (initialConcurrency files : Nat) : 1 ≤ measurementInterval initialConcurrency files := by
  unfold measurementInterval
  simp only
  split_ifs <;> omega

/-- The concurrency begins at some file unless there is no room for one. -/
theorem initialConcurrency_pos_iff {numThreads chunkSize : Int} {sizes : List Int} (h : sizes ≠ []) :
    1 ≤ (parallelism numThreads chunkSize sizes).initialConcurrency ↔ ¬ Starved numThreads chunkSize sizes := by
  have hle : (threadPlan (maxThreadBudget numThreads) chunkSize sizes).1 ≤ maxThreadBudget numThreads ↔
      ¬ Starved numThreads chunkSize sizes := threadPlan_le_iff.1
  have hone : 1 ≤ (threadPlan (maxThreadBudget numThreads) chunkSize sizes).1 := threadPlan_le_iff.2
  have hlen : 0 < sizes.length := List.length_pos_iff.2 h
  have hb := maxThreadBudget_pos numThreads
  have hdiv : 1 ≤ maxThreadBudget numThreads / (threadPlan (maxThreadBudget numThreads) chunkSize sizes).1 ↔
      (threadPlan (maxThreadBudget numThreads) chunkSize sizes).1 ≤ maxThreadBudget numThreads := by
    rw [Nat.le_div_iff_mul_le hone, Nat.one_mul]
  have hinitial : 1 ≤ maxThreadBudget numThreads / (threadPlan (maxThreadBudget numThreads) chunkSize sizes).1 →
      1 ≤ (threadPlan (maxThreadBudget numThreads) chunkSize sizes).2 := by
    unfold threadPlan
    simp only
    split_ifs <;> simp only <;> omega
  rw [← hle, ← hdiv]
  show 1 ≤ min _ _ ↔ _
  constructor
  · intro hmin
    exact hmin.trans (min_le_right _ _)
  · intro hmax
    exact le_min (hinitial hmax) hmax

/-- A starved comparison hangs before its first file. -/
theorem stuck_of_starved {numThreads chunkSize : Int} {sizes : List Int} (h : sizes ≠ [])
    (hs : Starved numThreads chunkSize sizes) :
    (Window.start (parallelism numThreads chunkSize sizes) sizes.length).Stuck sizes.length := by
  have hzero : (parallelism numThreads chunkSize sizes).initialConcurrency = 0 := by
    by_contra hne
    exact (initialConcurrency_pos_iff h).1 (Nat.pos_of_ne_zero hne) hs
  refine ⟨List.length_pos_iff.2 h, ?_, rfl⟩
  rintro (hslot | hc)
  · have hlt : 0 < (parallelism numThreads chunkSize sizes).initialConcurrency := hslot
    omega
  · cases hc

/-- **A directory comparison makes progress exactly when its budget is not starved.** -/
theorem progresses_iff {numThreads chunkSize : Int} {sizes : List Int} (h : sizes ≠ []) :
    Progresses numThreads chunkSize sizes ↔ ¬ Starved numThreads chunkSize sizes := by
  constructor
  · intro hp hs
    exact (hp.run _ .refl).2 (stuck_of_starved h hs)
  · intro hs
    have hinitial := (initialConcurrency_pos_iff h).2 hs
    have hbounded : (parallelism numThreads chunkSize sizes).initialConcurrency ≤
        (parallelism numThreads chunkSize sizes).maxConcurrency := min_le_right _ _
    have hstart : (Window.start (parallelism numThreads chunkSize sizes) sizes.length).Open
        (parallelism numThreads chunkSize sizes).maxConcurrency :=
      ⟨measurementInterval_pos _ _, hinitial, hbounded⟩
    exact ⟨threadPlan_le_iff.2, hinitial, hbounded, fun w hr => ⟨hstart.run hr, (hstart.run hr).not_stuck⟩⟩

/-- **In counts**: up to 2⁵¹ files the rounding of the ratio shifts no bound. -/
theorem starved_iff {numThreads chunkSize : Int} {sizes : List Int} (hn : sizes.length ≤ 2 ^ 51) :
    Starved numThreads chunkSize sizes ↔
      singleChunkFiles chunkSize sizes ≠ 0 ∧ sizes.length < 2 * multiChunkFiles chunkSize sizes ∧
      (maxThreadBudget numThreads < 3 ∨ maxThreadBudget numThreads = 3 ∧
        3 * sizes.length ≤ 4 * multiChunkFiles chunkSize sizes) := by
  have hcount := multi_add_single chunkSize sizes
  unfold Starved
  simp only
  generalize multiChunkFiles chunkSize sizes = multi at *
  generalize singleChunkFiles chunkSize sizes = single at *
  generalize sizes.length = files at *
  by_cases hm : multi = 0
  · simp [hm]
  by_cases hs : single = 0
  · simp [hs]
  have hm' : (0 : ℚ) < multi := by exact_mod_cast Nat.pos_of_ne_zero hm
  have hf' : (0 : ℚ) < files := by exact_mod_cast (show 0 < files by omega)
  have hx : (0 : ℚ) < multi / files := div_pos hm' hf'
  have hfiles : (files : ℚ) ≤ 2 ^ 51 := by exact_mod_cast hn
  have hratio : largeFileRatio multi files = double (multi / files) := by
    unfold largeFileRatio
    rw [double_eq hm' (representable_nat (by omega)), double_eq hf' (representable_nat (by omega))]
  have hhalf : 1 / 2 < largeFileRatio multi files ↔ files < 2 * multi := by
    rw [hratio]
    constructor
    · intro hlt
      by_contra hge
      have hle : (2 : ℚ) * multi ≤ files := by exact_mod_cast not_lt.1 hge
      have := double_le hx (representable_of_eq 1 (-1) (by norm_num) (by norm_num)) (show (multi : ℚ) / files ≤ 1 / 2 by
        rw [div_le_iff₀ hf']
        linarith)
      linarith
    · intro hlt
      have hle : (files : ℚ) + 1 ≤ 2 * multi := by exact_mod_cast hlt
      have := le_double hx (representable_of_eq (2 ^ 51 + 1) (-52) (by norm_num) rfl)
        (show ((2 ^ 51 + 1 : ℕ) : ℚ) * 2 ^ (-52 : ℤ) ≤ multi / files by
          rw [le_div_iff₀ hf']
          norm_num
          linarith)
      norm_num at this
      linarith
  have hquarters : 3 / 4 ≤ largeFileRatio multi files ↔ 3 * files ≤ 4 * multi := by
    rw [hratio]
    constructor
    · intro hle
      by_contra hlt
      have hlt' : (4 : ℚ) * multi + 1 ≤ 3 * files := by exact_mod_cast not_le.1 hlt
      have := double_le hx (representable_of_eq (3 * 2 ^ 51 - 1) (-53) (by norm_num) rfl)
        (show (multi : ℚ) / files ≤ ((3 * 2 ^ 51 - 1 : ℕ) : ℚ) * 2 ^ (-53 : ℤ) by
          rw [div_le_iff₀ hf']
          norm_num
          linarith)
      norm_num at this
      linarith
    · intro hle
      have hle' : (3 : ℚ) * files ≤ 4 * multi := by exact_mod_cast hle
      exact le_double hx (representable_of_eq 3 (-2) (by norm_num) (by norm_num))
        (by rw [le_div_iff₀ hf']; linarith)
  have hone : ¬ 1 - 1 / 2 ^ 53 ≤ largeFileRatio multi files := by
    rw [hratio, not_le]
    have hlt : (multi : ℚ) + 1 ≤ files := by exact_mod_cast (show multi + 1 ≤ files by omega)
    have := double_le hx (representable_of_eq (2 ^ 51 - 1) (-51) (by norm_num) rfl)
      (show (multi : ℚ) / files ≤ ((2 ^ 51 - 1 : ℕ) : ℚ) * 2 ^ (-51 : ℤ) by
        rw [div_le_iff₀ hf']
        norm_num
        linarith)
    norm_num at this ⊢
    linarith
  rw [hhalf, hquarters]
  simp only [hm, hs, hone, ne_eq, not_false_iff, true_and, and_false, or_false]
  omega

/-- Two large files and a small one, on four threads. -/
theorem progresses_four : Progresses 4 5 [9, 9, 1] :=
  (progresses_iff (by decide)).2 (by rw [starved_iff (by decide)]; decide)

/-- On one thread they wait for ever. -/
theorem starved_one :
    ¬ ∀ (numThreads chunkSize : Int) (sizes : List Int), 0 ≤ numThreads → 0 < chunkSize → sizes ≠ [] →
      Progresses numThreads chunkSize sizes := by
  intro h
  have hstarved : Starved 1 5 [9, 9, 1] := (starved_iff (by decide)).2 (by decide)
  exact ((h 1 5 [9, 9, 1] (by decide) (by decide) (by decide)).run _ .refl).2 (stuck_of_starved (by decide) hstarved)

end Mito
