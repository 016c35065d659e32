import MitoSync.Basic
import MitoSync.Lib.ThrottleLive
/-!
# SubmissionWindow — the adaptive concurrency of `run_sync`, `run_rm` and the copies of parts

Four loops post tasks to a pool under one idea: a window that halves on a failure, grows again on successes, and a
condition variable that a task signals when it has left.  They differ in what makes the window grow and by how much, in
its floor, in where the lock is taken and in whether the last wait is on the same condition variable.
`windows_live_and_bounded` is about all of them.
-/
namespace Mito

open Lib Lib.Throttle

/-- What the tasks of a loop count together. -/
structure WindowCounts where
  consecutiveSuccesses : Nat := 0
  completed : Nat := 0
  rampThreshold : Nat := 0
  deriving DecidableEq

/-- `consecutive_successes.fetch_add(1) + 1`, and whether that is a multiple of the interval. -/
def countSuccess (interval : Nat) (c : WindowCounts) : WindowCounts × Bool :=
  ({ c with consecutiveSuccesses := c.consecutiveSuccesses + 1 }, (c.consecutiveSuccesses + 1) % interval == 0)

def resetSuccesses (c : WindowCounts) : WindowCounts := { c with consecutiveSuccesses := 0 }

/-- `process_with_tracking` of `run_sync`: its guard counts the task out under the lock. -/
def syncTaskOps : List Op := [.work, .adapt, .lock, .decrement, .notify, .unlock]

/-- The tasks of `run_rm`, in both modes: their guard counts the task out before it takes the lock. -/
def rmTaskOps : List Op := [.work, .adapt, .decrement, .lock, .notify, .unlock]

/-- `process_with_tracking` of `ParallelUploadPartCopyRequestsThreadPool`: the window moves under the lock. -/
def copyTaskOps : List Op := [.work, .lock, .decrement, .adapt, .notify, .unlock]

section

variable (maxConcurrency : Nat) (h : 1 ≤ maxConcurrency)

/-- The loop of `run_sync`.  The pool has as many threads as the window can allow, so no doubling of it wraps. -/
def syncWindow (s3ToS3 : Bool) : Throttle WindowCounts where
  max := maxConcurrency
  floor := 16
  raise current := current + if s3ToS3 then current else Nat.max (current / 2) 1
  initial := if s3ToS3 then min maxConcurrency 64 else maxConcurrency
  counts := {}
  onWork := id
  onFailure := resetSuccesses
  onSuccess := countSuccess (if s3ToS3 then 100 else 10)
  onRaise _ _ := id
  ops := syncTaskOps
  keepsLock := false
  waitsForAll := true
  max_pos := h
  floor_pos := by decide
  initial_mem := by split <;> omega
  raise_pos c hc := by omega
  legal := rfl
  counted := by decide

/-- The loops of `run_rm`: batches grow the window every 10 successes, single deletes every 50. -/
def rmWindow (interval : Nat) : Throttle WindowCounts where
  max := maxConcurrency
  floor := 16
  raise current := current * 2
  initial := min maxConcurrency 64
  counts := {}
  onWork := id
  onFailure := resetSuccesses
  onSuccess := countSuccess interval
  onRaise _ _ := id
  ops := rmTaskOps
  keepsLock := false
  waitsForAll := true
  max_pos := h
  floor_pos := by decide
  initial_mem := by omega
  raise_pos c hc := by omega
  legal := rfl
  counted := by decide

/-- `ParallelUploadPartCopyRequestsThreadPool`: its last wait is the pool's own. -/
def copyWindow (rampUp : Bool) : Throttle WindowCounts where
  max := maxConcurrency
  floor := min 16 maxConcurrency
  raise current := current * 2
  initial := if rampUp then min 16 maxConcurrency else maxConcurrency
  counts := { rampThreshold := if rampUp then min 16 maxConcurrency else maxConcurrency }
  onWork c := { c with completed := c.completed + 1 }
  onFailure := id
  onSuccess c := (c, c.rampThreshold ≤ c.completed)
  onRaise seen newMax c := { c with rampThreshold := seen.completed + newMax }
  ops := copyTaskOps
  keepsLock := true
  waitsForAll := false
  max_pos := h
  floor_pos := by omega
  initial_mem := by split <;> omega
  raise_pos c hc := by omega
  legal := rfl
  counted := by decide

end

/-- The loops that submit under a window. -/
inductive SubmissionLoop
  | sync (s3ToS3 : Bool)
  | rmBatch
  | rm
  | copyParts (rampUp : Bool)

def SubmissionLoop.window (loop : SubmissionLoop) (maxConcurrency : Nat) (h : 1 ≤ maxConcurrency) :
    Throttle WindowCounts :=
  match loop with
  | .sync s3ToS3 => syncWindow maxConcurrency h s3ToS3
  | .rmBatch => rmWindow maxConcurrency h 10
  | .rm => rmWindow maxConcurrency h 50
  | .copyParts rampUp => copyWindow maxConcurrency h rampUp

theorem window_max (loop : SubmissionLoop) (maxConcurrency : Nat) (h : 1 ≤ maxConcurrency) :
    (loop.window maxConcurrency h).max = maxConcurrency := by
  cases loop <;> rfl

/-- **The submission windows are live and bounded**: in every state of every run of a loop, whatever its tasks do and
however they interleave, the window is between 1 and the maximum, no more than the maximum are in flight, none is
counted out twice, a submitter that sleeps has its wake-up still to come, and the actions of the run end with the
submitter returned. -/
theorem windows_live_and_bounded (loop : SubmissionLoop) {maxConcurrency : Nat} (h : 1 ≤ maxConcurrency) {n : Nat}
    {s : State WindowCounts n} (hr : (loop.window maxConcurrency h).Run (loop.window maxConcurrency h).start s) :
    (1 ≤ s.current ∧ s.current ≤ maxConcurrency) ∧ s.inFlight ≤ maxConcurrency ∧
      Holds (loop.window maxConcurrency h) s := by
  have hholds := holds_run hr
  have hmax := window_max loop maxConcurrency h
  exact ⟨hmax ▸ hholds.window, hmax ▸ hholds.in_flight_le, hholds⟩

/-- Two keys of `run_rm` at a maximum of one: the first fails and has counted itself out, with the submitter asleep
before the second and the wake-up still to come. -/
theorem windows_live_and_bounded_asleep : ∃ s : State WindowCounts 2,
    (SubmissionLoop.rm.window 1 le_rfl).Run (SubmissionLoop.rm.window 1 le_rfl).start s ∧
      s.submitter = .asleep (.slot 1) ∧ s.inFlight = 0 ∧
      (∃ i, Op.notify ∈ (s.tasks i).ops ∧ Op.decrement ∉ (s.tasks i).ops) ∧
      Holds (SubmissionLoop.rm.window 1 le_rfl) s := by
  let W := SubmissionLoop.rm.window 1 le_rfl
  have hstart : W.Run (W.start : State WindowCounts 2) W.start := .refl
  have henter := hstart.tail (.move (.enter rfl Nat.zero_lt_two rfl))
  have hlock := henter.tail (.move (.lock rfl rfl))
  have hread := hlock.tail (.move (.readInFlight rfl))
  have hpass := hread.tail (.move (.pass rfl (.inl Nat.zero_lt_one)))
  have hgo := hpass.tail (.move (.goOn rfl rfl))
  have hcount := hgo.tail (.move (.count rfl))
  have hpost := hcount.tail (.move (.post rfl))
  -- the window is full
  have henter₁ := hpost.tail (.move (.enter rfl Nat.one_lt_two rfl))
  have hlock₁ := henter₁.tail (.move (.lock rfl rfl))
  have hread₁ := hlock₁.tail (.move (.readInFlight rfl))
  have hfull := hread₁.tail (.move (.full rfl (Nat.lt_irrefl 1) rfl))
  have hsleep := hfull.tail (.move (.sleep rfl))
  -- the task fails, where the window is at its floor
  have hwork := hsleep.tail (.move (.work (i := 0) rfl .failed))
  have hfailure := hwork.tail (.move (.adapt (i := 0) rfl .failure))
  have hload := hfailure.tail (.move (.adapt (i := 0) rfl .loadReduce))
  have henough := hload.tail (.move (.adapt (i := 0) rfl (.enough (by decide))))
  have hdecrement := henough.tail (.move (.decrement (i := 0) rfl))
  obtain ⟨-, -, hholds⟩ := windows_live_and_bounded .rm le_rfl hdecrement
  exact ⟨_, hdecrement, rfl, rfl, (hholds.wake_up _ rfl).2 rfl, hholds⟩

end Mito
