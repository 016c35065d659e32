import MitoSync.Execution
import MitoSync.Lib.Stranding
import MitoSync.Lib.Tally
/-!
# WriteQueue — the queue between a download's pool threads and the disk writers

`run_sync` hands each download it has fetched to 64 writer threads over a queue of at most 1024.  A pool thread with a
file waits while the queue is full and a writer while it is empty, on one condition variable, and every operation wakes
one waiter of either kind.  Counted, this is the bounded buffer of `Lib.OneCondition` (`counts_step`), and the buffer's
moves are its threads' (`Tidy.move`).  So a wake-up that goes to the wrong kind strands the queue for certain numbers of
threads and files, and for no others (`write_queue_never_stranded_iff`).
-/
namespace Mito

open Lib OneCondition Relation

def writeQueueMaxSize : Nat := 1024

/-- `max_concurrency`, the threads of the pool. -/
def poolThreads (maxThreads : Int) (actionable : Nat) : Nat := min (max 1 maxThreads).toNat actionable

/-- The tasks that put their file on the queue; an empty file is written at once. -/
def SyncFileEntry.queued (f : SyncFileEntry) : Bool := f.action = .download ∧ f.s3Size ≠ 0

/-- A thread of the pool in `process_file`. -/
inductive PoolPhase
  | idle
  /-- with a task, before the queue -/
  | running (f : SyncFileEntry)
  /-- with the data of a file, about to take the lock -/
  | holding (f : SyncFileEntry)
  | waiting (f : SyncFileEntry)
  /-- the lock released, about to notify -/
  | notifying

inductive WriterPhase
  /-- about to take the lock -/
  | polling
  | waiting
  /-- with a job, about to notify -/
  | popped (job : SyncFileEntry)
  | writing (job : SyncFileEntry)
  | exited

/-- `notify_all()`, for one writer. -/
def WriterPhase.woken : WriterPhase → WriterPhase
  | .waiting => .polling
  | phase => phase

structure WriteQueueState (P W : Nat) where
  queue : List SyncFileEntry := []
  /-- the tasks no thread has begun -/
  left : List SyncFileEntry
  producers : Fin P → PoolPhase := fun _ => .idle
  writers : Fin W → WriterPhase := fun _ => .polling
  cancelled : Bool := false
  /-- `write_queue_done` -/
  done : Bool := false

namespace WriteQueueState

variable {P W : Nat}

def setProducer (s : WriteQueueState P W) (i : Fin P) (phase : PoolPhase) : WriteQueueState P W :=
  { s with producers := Function.update s.producers i phase }

def setWriter (s : WriteQueueState P W) (j : Fin W) (phase : WriterPhase) : WriteQueueState P W :=
  { s with writers := Function.update s.writers j phase }

@[simp] theorem setProducer_self (s : WriteQueueState P W) (i : Fin P) (phase : PoolPhase) :
    (s.setProducer i phase).producers i = phase := Function.update_self ..

theorem setProducer_of_ne (s : WriteQueueState P W) {i k : Fin P} (h : k ≠ i) (phase : PoolPhase) :
    (s.setProducer i phase).producers k = s.producers k := Function.update_of_ne h ..

@[simp] theorem setWriter_self (s : WriteQueueState P W) (j : Fin W) (phase : WriterPhase) :
    (s.setWriter j phase).writers j = phase := Function.update_self ..

theorem setWriter_of_ne (s : WriteQueueState P W) {j k : Fin W} (h : k ≠ j) (phase : WriterPhase) :
    (s.setWriter j phase).writers k = s.writers k := Function.update_of_ne h ..

/-- `write_queue_cv.notify_one()`: any one waiter wakes, if there is one. -/
inductive NotifyOne : WriteQueueState P W → WriteQueueState P W → Prop
  | producer {s : WriteQueueState P W} (i : Fin P) {f : SyncFileEntry} (h : s.producers i = .waiting f) :
      NotifyOne s (s.setProducer i (.holding f))
  | writer {s : WriteQueueState P W} (j : Fin W) (h : s.writers j = .waiting) : NotifyOne s (s.setWriter j .polling)
  | none {s : WriteQueueState P W} (hproducers : ∀ i f, s.producers i ≠ .waiting f)
      (hwriters : ∀ j, s.writers j ≠ .waiting) : NotifyOne s s

/-- A step of a pool thread, of a writer, of the main thread or of the user.  What is done under the lock is one step.
The window of the submission only holds tasks back: a thread may begin the next one whenever it is idle. -/
inductive Step : WriteQueueState P W → WriteQueueState P W → Prop
  | begin {s : WriteQueueState P W} (i : Fin P) {f : SyncFileEntry} {rest : List SyncFileEntry}
      (h : s.producers i = .idle) (hleft : s.left = f :: rest) (hdone : s.done = false) :
      Step s { s.setProducer i (.running f) with left := rest }
  /-- a task that does not come to the queue: of another kind, cancelled or not fetched -/
  | complete {s : WriteQueueState P W} (i : Fin P) {f : SyncFileEntry} (h : s.producers i = .running f) :
      Step s (s.setProducer i .idle)
  | fetch {s : WriteQueueState P W} (i : Fin P) {f : SyncFileEntry} (h : s.producers i = .running f)
      (hf : f.queued = true) : Step s (s.setProducer i (.holding f))
  | push {s : WriteQueueState P W} (i : Fin P) {f : SyncFileEntry} (h : s.producers i = .holding f)
      (hcancelled : s.cancelled = false) (hroom : s.queue.length < writeQueueMaxSize) :
      Step s { s.setProducer i .notifying with queue := s.queue ++ [f] }
  /-- cancelled at the queue -/
  | pass {s : WriteQueueState P W} (i : Fin P) {f : SyncFileEntry} (h : s.producers i = .holding f)
      (hcancelled : s.cancelled = true) : Step s (s.setProducer i .notifying)
  | block {s : WriteQueueState P W} (i : Fin P) {f : SyncFileEntry} (h : s.producers i = .holding f)
      (hcancelled : s.cancelled = false) (hfull : writeQueueMaxSize ≤ s.queue.length) :
      Step s (s.setProducer i (.waiting f))
  | notify {s s' : WriteQueueState P W} (i : Fin P) (h : s.producers i = .notifying) (hone : NotifyOne s s') :
      Step s (s'.setProducer i .idle)
  | pop {s : WriteQueueState P W} (j : Fin W) {job : SyncFileEntry} {rest : List SyncFileEntry}
      (h : s.writers j = .polling) (hqueue : s.queue = job :: rest) :
      Step s { s.setWriter j (.popped job) with queue := rest }
  | sleep {s : WriteQueueState P W} (j : Fin W) (h : s.writers j = .polling) (hqueue : s.queue = [])
      (hdone : s.done = false) : Step s (s.setWriter j .waiting)
  | exit {s : WriteQueueState P W} (j : Fin W) (h : s.writers j = .polling) (hqueue : s.queue = [])
      (hdone : s.done = true) : Step s (s.setWriter j .exited)
  | signal {s s' : WriteQueueState P W} (j : Fin W) {job : SyncFileEntry} (h : s.writers j = .popped job)
      (hone : NotifyOne s s') : Step s (s'.setWriter j (.writing job))
  | written {s : WriteQueueState P W} (j : Fin W) {job : SyncFileEntry} (h : s.writers j = .writing job) :
      Step s (s.setWriter j .polling)
  /-- `write_queue_done` and `notify_all()`, with no task in flight and none to submit -/
  | finish {s : WriteQueueState P W} (hidle : ∀ i, s.producers i = .idle) (hleft : s.left = [] ∨ s.cancelled = true) :
      Step s { s with done := true, writers := fun j => (s.writers j).woken }
  | cancel {s : WriteQueueState P W} : Step s { s with cancelled := true }
  | spuriousProducer {s : WriteQueueState P W} (i : Fin P) {f : SyncFileEntry} (h : s.producers i = .waiting f) :
      Step s (s.setProducer i (.holding f))
  | spuriousWriter {s : WriteQueueState P W} (j : Fin W) (h : s.writers j = .waiting) :
      Step s (s.setWriter j .polling)

/-- Jobs on the queue, every writer asleep, and every pool thread asleep or without a task for the queue; so no
notification is on its way. -/
structure Stranded (s : WriteQueueState P W) : Prop where
  queue : s.queue ≠ []
  writers : ∀ j, s.writers j = .waiting
  producers : ∀ i, (s.producers i = .idle ∧ ∀ f ∈ s.left, f.queued = false) ∨ ∃ f, s.producers i = .waiting f

end WriteQueueState

/-! ## The counts -/

namespace PoolPhase

@[simp] def isComing : PoolPhase → Bool
  | .running f => f.queued
  | _ => false

@[simp] def isHolding : PoolPhase → Bool
  | .holding _ => true
  | _ => false

@[simp] def isWaiting : PoolPhase → Bool
  | .waiting _ => true
  | _ => false

@[simp] def isNotifying : PoolPhase → Bool
  | .notifying => true
  | _ => false

end PoolPhase

namespace WriterPhase

@[simp] def isPolling : WriterPhase → Bool
  | .polling | .writing _ => true
  | _ => false

@[simp] def isWaiting : WriterPhase → Bool
  | .waiting => true
  | _ => false

@[simp] def isPopped : WriterPhase → Bool
  | .popped _ => true
  | _ => false

@[simp] def isExited : WriterPhase → Bool
  | .exited => true
  | _ => false

end WriterPhase

namespace WriteQueueState

variable {P W : Nat}

/-- The state as the buffer counts it, after `popped` jobs were taken. -/
def counts (s : WriteQueueState P W) (popped : Nat) : Buffer where
  todo := s.left.countP SyncFileEntry.queued + tally PoolPhase.isComing s.producers
  holding := tally PoolPhase.isHolding s.producers
  blocked := tally PoolPhase.isWaiting s.producers
  notifying := tally PoolPhase.isNotifying s.producers
  queued := s.queue.length
  popped := popped
  polling := tally WriterPhase.isPolling s.writers
  asleep := tally WriterPhase.isWaiting s.writers
  signalling := tally WriterPhase.isPopped s.writers
  exited := tally WriterPhase.isExited s.writers


variable {s s' : WriteQueueState P W}

/-- What a move of a pool thread counts. -/
theorem producer_moves {i : Fin P} {a : PoolPhase} (h : s.producers i = a) (b : PoolPhase) :
    tally PoolPhase.isComing (s.setProducer i b).producers + a.isComing.toNat =
      tally PoolPhase.isComing s.producers + b.isComing.toNat ∧
    tally PoolPhase.isHolding (s.setProducer i b).producers + a.isHolding.toNat =
      tally PoolPhase.isHolding s.producers + b.isHolding.toNat ∧
    tally PoolPhase.isWaiting (s.setProducer i b).producers + a.isWaiting.toNat =
      tally PoolPhase.isWaiting s.producers + b.isWaiting.toNat ∧
    tally PoolPhase.isNotifying (s.setProducer i b).producers + a.isNotifying.toNat =
      tally PoolPhase.isNotifying s.producers + b.isNotifying.toNat :=
  ⟨tally_update _ h b, tally_update _ h b, tally_update _ h b, tally_update _ h b⟩

/-- What a move of a writer counts. -/
theorem writer_moves {j : Fin W} {a : WriterPhase} (h : s.writers j = a) (b : WriterPhase) :
    tally WriterPhase.isPolling (s.setWriter j b).writers + a.isPolling.toNat =
      tally WriterPhase.isPolling s.writers + b.isPolling.toNat ∧
    tally WriterPhase.isWaiting (s.setWriter j b).writers + a.isWaiting.toNat =
      tally WriterPhase.isWaiting s.writers + b.isWaiting.toNat ∧
    tally WriterPhase.isPopped (s.setWriter j b).writers + a.isPopped.toNat =
      tally WriterPhase.isPopped s.writers + b.isPopped.toNat ∧
    tally WriterPhase.isExited (s.setWriter j b).writers + a.isExited.toNat =
      tally WriterPhase.isExited s.writers + b.isExited.toNat :=
  ⟨tally_update _ h b, tally_update _ h b, tally_update _ h b, tally_update _ h b⟩

theorem at_queue (s : WriteQueueState P W) (popped : Nat) :
    (s.counts popped).holding + (s.counts popped).blocked + (s.counts popped).notifying =
      tally (fun a => a.isHolding || a.isWaiting || a.isNotifying) s.producers := by
  have hboth : tally PoolPhase.isHolding s.producers + tally PoolPhase.isWaiting s.producers =
      tally (fun a => a.isHolding || a.isWaiting) s.producers := tally_add fun a => by cases a <;> rfl
  have hall : tally (fun a => a.isHolding || a.isWaiting) s.producers + tally PoolPhase.isNotifying s.producers =
      tally (fun a => a.isHolding || a.isWaiting || a.isNotifying) s.producers := tally_add fun a => by cases a <;> rfl
  dsimp only [counts]
  omega

/-- A pool thread that has not come to the queue leaves a place there. -/
theorem at_queue_lt {i : Fin P} {f : SyncFileEntry} (h : s.producers i = .running f) (popped : Nat) :
    (s.counts popped).holding + (s.counts popped).blocked + (s.counts popped).notifying < P := by
  rw [s.at_queue popped]
  exact tally_lt (i := i) (by rw [h]; rfl)

/-! What each action counts. -/

theorem counts_begin {i : Fin P} {f : SyncFileEntry} {rest : List SyncFileEntry} (h : s.producers i = .idle)
    (hleft : s.left = f :: rest) (popped : Nat) :
    ({ s.setProducer i (.running f) with left := rest } : WriteQueueState P W).counts popped = s.counts popped := by
  have hmoves := producer_moves h (.running f)
  have htodo : s.left.countP SyncFileEntry.queued = rest.countP SyncFileEntry.queued + f.queued.toNat := by
    rw [hleft, List.countP_cons]
    cases f.queued <;> rfl
  simp [setProducer] at hmoves
  ext <;> simp [counts, setProducer] <;> omega

theorem counts_fetch {i : Fin P} {f : SyncFileEntry} (h : s.producers i = .running f) (hf : f.queued = true) (popped : Nat) :
    (s.setProducer i (.holding f)).counts popped = 
      { s.counts popped with todo := (s.counts popped).todo - 1, holding := (s.counts popped).holding + 1 } := by
  have hmoves := producer_moves h (.holding f)
  simp [setProducer, hf] at hmoves
  ext <;> simp [counts, setProducer] <;> omega

theorem counts_push {i : Fin P} {f : SyncFileEntry} (h : s.producers i = .holding f) (popped : Nat) :
    ({ s.setProducer i .notifying with queue := s.queue ++ [f] } : WriteQueueState P W).counts popped = 
      { s.counts popped with holding := (s.counts popped).holding - 1, notifying := (s.counts popped).notifying + 1,
                             queued := (s.counts popped).queued + 1 } := by
  have hmoves := producer_moves h .notifying
  simp [setProducer] at hmoves
  ext <;> simp [counts, setProducer] <;> omega

theorem counts_pass {i : Fin P} {f : SyncFileEntry} (h : s.producers i = .holding f) (popped : Nat) :
    (s.setProducer i .notifying).counts popped = 
      { s.counts popped with holding := (s.counts popped).holding - 1, notifying := (s.counts popped).notifying + 1 } := by
  have hmoves := producer_moves h .notifying
  simp [setProducer] at hmoves
  ext <;> simp [counts, setProducer] <;> omega

theorem counts_block {i : Fin P} {f : SyncFileEntry} (h : s.producers i = .holding f) (popped : Nat) :
    (s.setProducer i (.waiting f)).counts popped = 
      { s.counts popped with holding := (s.counts popped).holding - 1, blocked := (s.counts popped).blocked + 1 } := by
  have hmoves := producer_moves h (.waiting f)
  simp [setProducer] at hmoves
  ext <;> simp [counts, setProducer] <;> omega

theorem counts_wakeProducer {i : Fin P} {f : SyncFileEntry} (h : s.producers i = .waiting f) (popped : Nat) :
    (s.setProducer i (.holding f)).counts popped = 
      { s.counts popped with blocked := (s.counts popped).blocked - 1, holding := (s.counts popped).holding + 1 } := by
  have hmoves := producer_moves h (.holding f)
  simp [setProducer] at hmoves
  ext <;> simp [counts, setProducer] <;> omega

theorem counts_notified {i : Fin P} (h : s.producers i = .notifying) (popped : Nat) :
    (s.setProducer i .idle).counts popped = 
      { s.counts popped with notifying := (s.counts popped).notifying - 1 } := by
  have hmoves := producer_moves h .idle
  simp [setProducer] at hmoves
  ext <;> simp [counts, setProducer] <;> omega

theorem counts_pop {j : Fin W} {job : SyncFileEntry} {rest : List SyncFileEntry} (h : s.writers j = .polling) (hqueue : s.queue = job :: rest) (popped : Nat) :
    ({ s.setWriter j (.popped job) with queue := rest } : WriteQueueState P W).counts (popped + 1) = 
      { s.counts popped with polling := (s.counts popped).polling - 1, signalling := (s.counts popped).signalling + 1,
                             queued := (s.counts popped).queued - 1, popped := (s.counts popped).popped + 1 } := by
  have hmoves := writer_moves h (.popped job)
  simp [setWriter] at hmoves
  ext <;> simp [counts, setWriter, hqueue] <;> omega

theorem counts_sleep {j : Fin W} (h : s.writers j = .polling) (popped : Nat) :
    (s.setWriter j .waiting).counts popped = 
      { s.counts popped with polling := (s.counts popped).polling - 1, asleep := (s.counts popped).asleep + 1 } := by
  have hmoves := writer_moves h .waiting
  simp [setWriter] at hmoves
  ext <;> simp [counts, setWriter] <;> omega

theorem counts_exit {j : Fin W} (h : s.writers j = .polling) (popped : Nat) :
    (s.setWriter j .exited).counts popped = 
      { s.counts popped with polling := (s.counts popped).polling - 1, exited := (s.counts popped).exited + 1 } := by
  have hmoves := writer_moves h .exited
  simp [setWriter] at hmoves
  ext <;> simp [counts, setWriter] <;> omega

theorem counts_wakeConsumer {j : Fin W} (h : s.writers j = .waiting) (popped : Nat) :
    (s.setWriter j .polling).counts popped = 
      { s.counts popped with asleep := (s.counts popped).asleep - 1, polling := (s.counts popped).polling + 1 } := by
  have hmoves := writer_moves h .polling
  simp [setWriter] at hmoves
  ext <;> simp [counts, setWriter] <;> omega

theorem counts_signalled {j : Fin W} {job : SyncFileEntry} (h : s.writers j = .popped job) (popped : Nat) :
    (s.setWriter j (.writing job)).counts popped = 
      { s.counts popped with signalling := (s.counts popped).signalling - 1, polling := (s.counts popped).polling + 1 } := by
  have hmoves := writer_moves h (.writing job)
  simp [setWriter] at hmoves
  ext <;> simp [counts, setWriter] <;> omega

theorem counts_written {j : Fin W} {job : SyncFileEntry} (h : s.writers j = .writing job) (popped : Nat) :
    (s.setWriter j .polling).counts popped = s.counts popped := by
  have hmoves := writer_moves h .polling
  simp [setWriter] at hmoves
  ext <;> simp [counts, setWriter] <;> omega

theorem counts_complete {i : Fin P} {f : SyncFileEntry} (h : s.producers i = .running f) (popped : Nat) :
    (s.setProducer i .idle).counts popped =
      { s.counts popped with todo := (s.counts popped).todo - f.queued.toNat } ∧
    f.queued.toNat ≤ (s.counts popped).todo := by
  have hmoves := producer_moves h .idle
  simp [setProducer] at hmoves
  refine ⟨?_, by simp only [counts]; omega⟩
  ext <;> simp [counts, setProducer] <;> omega

theorem counts_notifyOne (hone : NotifyOne s s') (popped : Nat) :
    0 < (s.counts popped).blocked ∧ s'.counts popped =
      { s.counts popped with blocked := (s.counts popped).blocked - 1, holding := (s.counts popped).holding + 1 } ∨
    0 < (s.counts popped).asleep ∧ s'.counts popped =
      { s.counts popped with asleep := (s.counts popped).asleep - 1, polling := (s.counts popped).polling + 1 } ∨
    ((s.counts popped).blocked = 0 ∧ (s.counts popped).asleep = 0) ∧ s' = s := by
  cases hone with
  | producer i h => exact .inl ⟨tally_pos (i := i) (by rw [h]; rfl), counts_wakeProducer h popped⟩
  | writer j h => exact .inr (.inl ⟨tally_pos (i := j) (by rw [h]; rfl), counts_wakeConsumer h popped⟩)
  | none hproducers hwriters =>
    refine .inr (.inr ⟨⟨tally_eq_zero fun i => ?_, tally_eq_zero fun j => ?_⟩, rfl⟩)
    · cases hi : s.producers i with
      | waiting f => exact absurd hi (hproducers i f)
      | _ => rfl
    · cases hj : s.writers j with
      | waiting => exact absurd hj (hwriters j)
      | _ => rfl

/-- Only a waiter's phase changes. -/
theorem NotifyOne.frame (hone : NotifyOne s s') :
    (∀ i, (∀ f, s.producers i ≠ .waiting f) → s'.producers i = s.producers i) ∧
    ∀ j, s.writers j ≠ .waiting → s'.writers j = s.writers j := by
  cases hone with
  | producer i h =>
    refine ⟨fun k hk => s.setProducer_of_ne ?_ _, fun _ _ => rfl⟩
    rintro rfl
    exact hk _ h
  | writer j h =>
    refine ⟨fun _ _ => rfl, fun k hk => s.setWriter_of_ne ?_ _⟩
    rintro rfl
    exact hk h
  | none => exact ⟨fun _ _ => rfl, fun _ _ => rfl⟩

/-- **A step is one of the buffer's, or counts nothing.** -/
theorem counts_step (hst : Step s s') (popped : Nat) : ∃ popped', s'.counts popped' = s.counts popped ∨
    OneCondition.Step writeQueueMaxSize P (s.counts popped) (s'.counts popped') := by
  have hheld : ∀ {i f}, s.producers i = .holding f → 0 < (s.counts popped).holding :=
    fun {i f} h => tally_pos (i := i) (by rw [h]; rfl)
  have hpolling : ∀ {j}, s.writers j = .polling → 0 < (s.counts popped).polling :=
    fun {j} h => tally_pos (i := j) (by rw [h]; rfl)
  cases hst with
  | begin i h hleft hdone => exact ⟨popped, .inl (counts_begin h hleft popped)⟩
  | complete i h =>
    rename_i f
    obtain ⟨hcounts, htodo⟩ := counts_complete h popped
    refine ⟨popped, ?_⟩
    rw [hcounts]
    cases hf : f.queued with
    | false => exact .inl rfl
    | true =>
      rw [hf] at htodo
      exact .inr (.drop htodo)
  | fetch i h hf =>
    have htodo : 0 < (s.counts popped).todo :=
      Nat.add_pos_right _ (tally_pos (i := i) (by rw [h]; exact hf))
    refine ⟨popped, .inr ?_⟩
    rw [counts_fetch h hf]
    exact .move (.arrive htodo (at_queue_lt h popped))
  | push i h hcancelled hroom =>
    refine ⟨popped, .inr ?_⟩
    rw [counts_push h]
    exact .move (.push (hheld h) hroom)
  | pass i h hcancelled =>
    refine ⟨popped, .inr ?_⟩
    rw [counts_pass h]
    exact .pass (hheld h)
  | block i h hcancelled hfull =>
    refine ⟨popped, .inr ?_⟩
    rw [counts_block h]
    exact .move (.block (hheld h) hfull)
  | spuriousProducer i h =>
    refine ⟨popped, .inr ?_⟩
    rw [counts_wakeProducer h]
    exact .wakeProducer (tally_pos (i := i) (by rw [h]; rfl))
  | notify i h hone =>
    rename_i t
    have ht : t.producers i = .notifying := (hone.frame.1 i (by simp [h])).trans h
    have hnotifying : 0 < (s.counts popped).notifying := tally_pos (i := i) (by rw [h]; rfl)
    refine ⟨popped, .inr ?_⟩
    rw [counts_notified ht]
    rcases counts_notifyOne hone popped with ⟨hwake, hcounts⟩ | ⟨hwake, hcounts⟩ | ⟨⟨hblocked, hasleep⟩, rfl⟩
    · rw [hcounts]
      exact .move (.notifyProducer hnotifying hwake)
    · rw [hcounts]
      exact .move (.notifyConsumer hnotifying hwake)
    · exact .move (.notifyNone hnotifying hblocked hasleep)
  | pop j h hqueue =>
    have hqueued : 0 < (s.counts popped).queued := by simp [counts, hqueue]
    refine ⟨popped + 1, .inr ?_⟩
    rw [counts_pop h hqueue]
    exact .move (.pop (hpolling h) hqueued)
  | sleep j h hqueue hdone =>
    refine ⟨popped, .inr ?_⟩
    rw [counts_sleep h]
    exact .move (.sleep (hpolling h) (List.length_eq_zero_iff.2 hqueue))
  | exit j h hqueue hdone =>
    refine ⟨popped, .inr ?_⟩
    rw [counts_exit h]
    exact .exit (hpolling h) (List.length_eq_zero_iff.2 hqueue)
  | signal j h hone =>
    rename_i t job
    have ht : t.writers j = .popped job := (hone.frame.2 j (by simp [h])).trans h
    have hsignalling : 0 < (s.counts popped).signalling := tally_pos (i := j) (by rw [h]; rfl)
    refine ⟨popped, .inr ?_⟩
    rw [counts_signalled ht]
    rcases counts_notifyOne hone popped with ⟨hwake, hcounts⟩ | ⟨hwake, hcounts⟩ | ⟨⟨hblocked, hasleep⟩, rfl⟩
    · rw [hcounts]
      exact .move (.signalProducer hsignalling hwake)
    · rw [hcounts]
      exact .move (.signalConsumer hsignalling hwake)
    · exact .move (.signalNone hsignalling hblocked hasleep)
  | written j h => exact ⟨popped, .inl (counts_written h popped)⟩
  | spuriousWriter j h =>
    refine ⟨popped, .inr ?_⟩
    rw [counts_wakeConsumer h]
    exact .wakeConsumer (tally_pos (i := j) (by rw [h]; rfl))
  | finish hidle hleft =>
    have hawake : tally WriterPhase.isPolling (fun j => (s.writers j).woken) =
        tally WriterPhase.isPolling s.writers + tally WriterPhase.isWaiting s.writers := by
      rw [tally_add fun a => by cases a <;> rfl]
      exact tally_map fun a => by cases a <;> rfl
    have hwaiting : tally WriterPhase.isWaiting (fun j => (s.writers j).woken) = 0 :=
      tally_eq_zero fun j => by cases s.writers j <;> rfl
    have hpopped : tally WriterPhase.isPopped (fun j => (s.writers j).woken) = tally WriterPhase.isPopped s.writers :=
      tally_map fun a => by cases a <;> rfl
    have hexited : tally WriterPhase.isExited (fun j => (s.writers j).woken) = tally WriterPhase.isExited s.writers :=
      tally_map fun a => by cases a <;> rfl
    have hstep : OneCondition.Step writeQueueMaxSize P (s.counts popped) _ := .wakeConsumers
    refine ⟨popped, .inr (cast (congrArg _ ?_) hstep)⟩
    ext <;> simp [counts, hawake, hwaiting, hpopped, hexited]
  | cancel => exact ⟨popped, .inl rfl⟩

/-- **A run is one of the buffer's.** -/
theorem counts_run {start : WriteQueueState P W} (hrun : ReflTransGen Step start s) : ∃ popped,
    ReflTransGen (OneCondition.Step writeQueueMaxSize P) (start.counts 0) (s.counts popped) := by
  induction hrun with
  | refl => exact ⟨0, .refl⟩
  | tail _ hst ih =>
    obtain ⟨popped, hbuffer⟩ := ih
    obtain ⟨popped', hsame | hstep⟩ := counts_step hst popped
    · exact ⟨popped', hsame ▸ hbuffer⟩
    · exact ⟨popped', hbuffer.tail hstep⟩

theorem counts_start (P W : Nat) (files : List SyncFileEntry) : ({ left := files } : WriteQueueState P W).counts 0 =
    { todo := files.countP SyncFileEntry.queued, polling := W } := by
  have hidle : ∀ p : PoolPhase → Bool, p .idle = false → tally p (fun _ : Fin P => PoolPhase.idle) = 0 :=
    fun p hp => tally_eq_zero fun _ => hp
  have hpolling : ∀ p : WriterPhase → Bool, p .polling = false → tally p (fun _ : Fin W => WriterPhase.polling) = 0 :=
    fun p hp => tally_eq_zero fun _ => hp
  have hall : tally WriterPhase.isPolling (fun _ : Fin W => WriterPhase.polling) = W := tally_all fun _ => rfl
  refine Buffer.ext ?_ (hidle _ rfl) (hidle _ rfl) (hidle _ rfl) rfl rfl hall (hpolling _ rfl) (hpolling _ rfl)
    (hpolling _ rfl)
  exact congrArg (files.countP SyncFileEntry.queued + ·) (hidle _ rfl)

theorem Stranded.counts (h : s.Stranded) (popped : Nat) : (s.counts popped).Stranded W where
  queued := List.length_pos_iff.2 h.queue
  asleep := tally_all fun j => by rw [h.writers j]; rfl
  holding := tally_eq_zero fun i => by
    rcases h.producers i with ⟨hi, -⟩ | ⟨f, hi⟩ <;> rw [hi] <;> rfl
  notifying := tally_eq_zero fun i => by
    rcases h.producers i with ⟨hi, -⟩ | ⟨f, hi⟩ <;> rw [hi] <;> rfl

/-! ## The other way -/

/-- Nobody is between two actions, and nothing is cancelled or done. -/
structure Tidy (s : WriteQueueState P W) : Prop where
  running : ∀ i f, s.producers i ≠ .running f
  writing : ∀ j job, s.writers j ≠ .writing job
  cancelled : s.cancelled = false
  done : s.done = false

theorem Tidy.setProducer (h : s.Tidy) (i : Fin P) {b : PoolPhase} (hb : ∀ f, b ≠ .running f) :
    (s.setProducer i b).Tidy where
  running k f := by
    by_cases hk : k = i
    · subst hk
      rw [setProducer_self]
      exact hb f
    · rw [setProducer_of_ne _ hk]
      exact h.running k f
  writing := h.writing
  cancelled := h.cancelled
  done := h.done

theorem Tidy.setWriter (h : s.Tidy) (j : Fin W) {b : WriterPhase} (hb : ∀ job, b ≠ .writing job) :
    (s.setWriter j b).Tidy where
  running := h.running
  writing k job := by
    by_cases hk : k = j
    · subst hk
      rw [setWriter_self]
      exact hb job
    · rw [setWriter_of_ne _ hk]
      exact h.writing k job
  cancelled := h.cancelled
  done := h.done

theorem Tidy.setQueue (h : s.Tidy) (queue : List SyncFileEntry) : ({ s with queue } : WriteQueueState P W).Tidy :=
  ⟨h.running, h.writing, h.cancelled, h.done⟩

theorem Tidy.setLeft (h : s.Tidy) (left : List SyncFileEntry) : ({ s with left } : WriteQueueState P W).Tidy :=
  ⟨h.running, h.writing, h.cancelled, h.done⟩

theorem exists_holding (h : 0 < tally PoolPhase.isHolding s.producers) : ∃ i f, s.producers i = .holding f := by
  obtain ⟨i, hi⟩ := exists_of_tally_pos h
  cases hphase : s.producers i with
  | holding f => exact ⟨i, f, hphase⟩
  | _ => simp [hphase] at hi

theorem exists_waiting (h : 0 < tally PoolPhase.isWaiting s.producers) : ∃ i f, s.producers i = .waiting f := by
  obtain ⟨i, hi⟩ := exists_of_tally_pos h
  cases hphase : s.producers i with
  | waiting f => exact ⟨i, f, hphase⟩
  | _ => simp [hphase] at hi

theorem exists_notifying (h : 0 < tally PoolPhase.isNotifying s.producers) : ∃ i, s.producers i = .notifying := by
  obtain ⟨i, hi⟩ := exists_of_tally_pos h
  cases hphase : s.producers i with
  | notifying => exact ⟨i, hphase⟩
  | _ => simp [hphase] at hi

theorem exists_asleep (h : 0 < tally WriterPhase.isWaiting s.writers) : ∃ j, s.writers j = .waiting := by
  obtain ⟨j, hj⟩ := exists_of_tally_pos h
  cases hphase : s.writers j with
  | waiting => exact ⟨j, hphase⟩
  | _ => simp [hphase] at hj

theorem exists_popped (h : 0 < tally WriterPhase.isPopped s.writers) : ∃ j job, s.writers j = .popped job := by
  obtain ⟨j, hj⟩ := exists_of_tally_pos h
  cases hphase : s.writers j with
  | popped job => exact ⟨j, job, hphase⟩
  | _ => simp [hphase] at hj

theorem Tidy.exists_polling (htidy : s.Tidy) (h : 0 < tally WriterPhase.isPolling s.writers) :
    ∃ j, s.writers j = .polling := by
  obtain ⟨j, hj⟩ := exists_of_tally_pos h
  cases hphase : s.writers j with
  | polling => exact ⟨j, hphase⟩
  | writing job => exact absurd hphase (htidy.writing j job)
  | _ => simp [hphase] at hj

theorem Tidy.exists_idle (htidy : s.Tidy) (popped : Nat)
    (h : (s.counts popped).holding + (s.counts popped).blocked + (s.counts popped).notifying < P) :
    ∃ i, s.producers i = .idle := by
  have hcount := s.at_queue popped
  have hnot := tally_not (p := fun a : PoolPhase => a.isHolding || a.isWaiting || a.isNotifying) (f := s.producers)
  obtain ⟨i, hi⟩ := exists_of_tally_pos (p := fun a : PoolPhase => !(a.isHolding || a.isWaiting || a.isNotifying))
    (f := s.producers) (by omega)
  cases hphase : s.producers i with
  | idle => exact ⟨i, hphase⟩
  | running f => exact absurd hphase (htidy.running i f)
  | _ => simp [hphase] at hi

theorem Tidy.notifyOne (h : s.Tidy) (hone : NotifyOne s s') : s'.Tidy := by
  cases hone with
  | producer i hi => exact h.setProducer i (by simp)
  | writer j hj => exact h.setWriter j (by simp)
  | none => exact h

theorem setProducer_setProducer (s : WriteQueueState P W) (i : Fin P) (a b : PoolPhase) :
    (s.setProducer i a).setProducer i b = s.setProducer i b := by
  unfold setProducer
  rw [Function.update_idem]

theorem setWriter_setWriter (s : WriteQueueState P W) (j : Fin W) (a b : WriterPhase) :
    (s.setWriter j a).setWriter j b = s.setWriter j b := by
  unfold setWriter
  rw [Function.update_idem]

/-- A pool thread takes the next file for the queue and fetches it; the tasks before it are done first. -/
theorem Tidy.arrive (h : s.Tidy) (popped : Nat) (htodo : 0 < (s.counts popped).todo)
    (hroom : (s.counts popped).holding + (s.counts popped).blocked + (s.counts popped).notifying < P) :
    ∃ s', ReflTransGen Step s s' ∧ s'.Tidy ∧ s'.counts popped =
      { s.counts popped with todo := (s.counts popped).todo - 1, holding := (s.counts popped).holding + 1 } := by
  generalize hleft : s.left = left
  induction left generalizing s with
  | nil =>
    have hnone : tally PoolPhase.isComing s.producers = 0 := tally_eq_zero fun k => by
      cases hk : s.producers k with
      | running f => exact absurd hk (h.running k f)
      | _ => rfl
    simp [counts, hleft, hnone] at htodo
  | cons f rest ih =>
    obtain ⟨i, hi⟩ := h.exists_idle popped hroom
    have hbegun : Step s { s.setProducer i (.running f) with left := rest } := .begin i hi hleft h.done
    have hcounts := counts_begin hi hleft popped
    have hrunning : ({ s.setProducer i (.running f) with left := rest } : WriteQueueState P W).producers i = .running f :=
      s.setProducer_self i (.running f)
    have hnext : ∀ b, ({ s.setProducer i (.running f) with left := rest } : WriteQueueState P W).setProducer i b =
        { s.setProducer i b with left := rest } := fun b =>
      congrArg (fun t : WriteQueueState P W => { t with left := rest }) (s.setProducer_setProducer i _ b)
    cases hf : f.queued with
    | true =>
      refine ⟨_, (ReflTransGen.single hbegun).tail (.fetch i hrunning hf), ?_, ?_⟩
      · rw [hnext]
        exact (h.setProducer i (by simp)).setLeft rest
      · rw [counts_fetch hrunning hf, hcounts]
    | false =>
      have hdone := (counts_complete hrunning popped).1
      rw [hcounts, hf, hnext] at hdone
      have htidy : ({ s.setProducer i .idle with left := rest } : WriteQueueState P W).Tidy :=
        (h.setProducer i (by simp)).setLeft rest
      have hbegin := (ReflTransGen.single hbegun).tail (.complete i hrunning)
      rw [hnext] at hbegin
      obtain ⟨s', hrun, htidy', hcounts'⟩ := ih htidy (by rw [hdone]; exact htodo) (by rw [hdone]; exact hroom) rfl
      exact ⟨s', hbegin.trans hrun, htidy', by rw [hcounts', hdone]; rfl⟩

/-- A notification by a pool thread. -/
theorem Tidy.notify (h : s.Tidy) {i : Fin P} (hi : s.producers i = .notifying) (hone : NotifyOne s s') (popped : Nat) :
    ReflTransGen Step s (s'.setProducer i .idle) ∧ (s'.setProducer i .idle).Tidy ∧
      (s'.setProducer i .idle).counts popped =
        { s'.counts popped with notifying := (s'.counts popped).notifying - 1 } :=
  ⟨.single (.notify i hi hone), (h.notifyOne hone).setProducer i (by simp),
    counts_notified ((hone.frame.1 i (by simp [hi])).trans hi) popped⟩

/-- A notification by a writer, which then writes its file. -/
theorem Tidy.signal (h : s.Tidy) {j : Fin W} {job : SyncFileEntry} (hj : s.writers j = .popped job)
    (hone : NotifyOne s s') (popped : Nat) :
    ReflTransGen Step s (s'.setWriter j .polling) ∧ (s'.setWriter j .polling).Tidy ∧
      (s'.setWriter j .polling).counts popped =
        { s'.counts popped with signalling := (s'.counts popped).signalling - 1,
                                polling := (s'.counts popped).polling + 1 } := by
  have hpopped : s'.writers j = .popped job := (hone.frame.2 j (by simp [hj])).trans hj
  have hwriting : (s'.setWriter j (.writing job)).writers j = .writing job := s'.setWriter_self j _
  have hwritten := (ReflTransGen.single (Step.signal j hj hone)).tail (.written j hwriting)
  have hcounts := counts_written hwriting popped
  rw [setWriter_setWriter] at hwritten hcounts
  exact ⟨hwritten, (h.notifyOne hone).setWriter j (by simp), hcounts.trans (counts_signalled hpopped popped)⟩

/-- **Every move of the buffer is one of its threads.** -/
theorem Tidy.move (h : s.Tidy) {popped : Nat} {b : Buffer} (hmove : Move writeQueueMaxSize P (s.counts popped) b) :
    ∃ s' popped', ReflTransGen Step s s' ∧ s'.Tidy ∧ s'.counts popped' = b := by
  have hnone : (s.counts popped).blocked = 0 → ∀ i f, s.producers i ≠ .waiting f := fun hblocked i f hi =>
    absurd hblocked (Nat.ne_of_gt (tally_pos (i := i) (by rw [hi]; rfl)))
  have hnobody : (s.counts popped).asleep = 0 → ∀ j, s.writers j ≠ .waiting := fun hasleep j hj =>
    absurd hasleep (Nat.ne_of_gt (tally_pos (i := j) (by rw [hj]; rfl)))
  cases hmove with
  | arrive htodo hroom =>
    obtain ⟨s', hrun, htidy, hcounts⟩ := h.arrive popped htodo hroom
    exact ⟨s', popped, hrun, htidy, hcounts⟩
  | push hheld hroom =>
    obtain ⟨i, f, hi⟩ := exists_holding hheld
    exact ⟨_, popped, .single (.push i hi h.cancelled hroom), (h.setProducer i (by simp)).setQueue _,
      counts_push hi popped⟩
  | block hheld hfull =>
    obtain ⟨i, f, hi⟩ := exists_holding hheld
    exact ⟨_, popped, .single (.block i hi h.cancelled hfull), h.setProducer i (by simp), counts_block hi popped⟩
  | notifyProducer hnotifying hwake =>
    obtain ⟨i, hi⟩ := exists_notifying hnotifying
    obtain ⟨k, f, hk⟩ := exists_waiting hwake
    obtain ⟨hrun, htidy, hcounts⟩ := h.notify hi (.producer k hk) popped
    exact ⟨_, popped, hrun, htidy, hcounts.trans (by rw [counts_wakeProducer hk])⟩
  | notifyConsumer hnotifying hwake =>
    obtain ⟨i, hi⟩ := exists_notifying hnotifying
    obtain ⟨k, hk⟩ := exists_asleep hwake
    obtain ⟨hrun, htidy, hcounts⟩ := h.notify hi (.writer k hk) popped
    exact ⟨_, popped, hrun, htidy, hcounts.trans (by rw [counts_wakeConsumer hk])⟩
  | notifyNone hnotifying hblocked hasleep =>
    obtain ⟨i, hi⟩ := exists_notifying hnotifying
    obtain ⟨hrun, htidy, hcounts⟩ := h.notify hi (.none (hnone hblocked) (hnobody hasleep)) popped
    exact ⟨_, popped, hrun, htidy, hcounts⟩
  | pop hpolling hqueued =>
    obtain ⟨j, hj⟩ := h.exists_polling hpolling
    cases hqueue : s.queue with
    | nil => simp [counts, hqueue] at hqueued
    | cons job rest =>
      exact ⟨_, popped + 1, .single (.pop j hj hqueue), (h.setWriter j (by simp)).setQueue rest,
        counts_pop hj hqueue popped⟩
  | sleep hpolling hempty =>
    obtain ⟨j, hj⟩ := h.exists_polling hpolling
    exact ⟨_, popped, .single (.sleep j hj (List.length_eq_zero_iff.1 hempty) h.done), h.setWriter j (by simp),
      counts_sleep hj popped⟩
  | signalProducer hsignalling hwake =>
    obtain ⟨j, job, hj⟩ := exists_popped hsignalling
    obtain ⟨k, f, hk⟩ := exists_waiting hwake
    obtain ⟨hrun, htidy, hcounts⟩ := h.signal hj (.producer k hk) popped
    exact ⟨_, popped, hrun, htidy, hcounts.trans (by rw [counts_wakeProducer hk])⟩
  | signalConsumer hsignalling hwake =>
    obtain ⟨j, job, hj⟩ := exists_popped hsignalling
    obtain ⟨k, hk⟩ := exists_asleep hwake
    obtain ⟨hrun, htidy, hcounts⟩ := h.signal hj (.writer k hk) popped
    exact ⟨_, popped, hrun, htidy, hcounts.trans (by rw [counts_wakeConsumer hk])⟩
  | signalNone hsignalling hblocked hasleep =>
    obtain ⟨j, job, hj⟩ := exists_popped hsignalling
    obtain ⟨hrun, htidy, hcounts⟩ := h.signal hj (.none (hnone hblocked) (hnobody hasleep)) popped
    exact ⟨_, popped, hrun, htidy, hcounts⟩

theorem Tidy.run (h : s.Tidy) {popped : Nat} {b : Buffer}
    (hrun : ReflTransGen (Move writeQueueMaxSize P) (s.counts popped) b) :
    ∃ s' popped', ReflTransGen Step s s' ∧ s'.Tidy ∧ s'.counts popped' = b := by
  induction hrun with
  | refl => exact ⟨s, popped, .refl, h, rfl⟩
  | tail _ hmove ih =>
    obtain ⟨t, x, hst, htidy, rfl⟩ := ih
    obtain ⟨s', x', hst', htidy', hcounts⟩ := htidy.move hmove
    exact ⟨s', x', hst.trans hst', htidy', hcounts⟩

theorem Tidy.stranded (h : s.Tidy) {popped : Nat} (hstranded : (s.counts popped).Stranded W)
    (htodo : (s.counts popped).todo = 0) : s.Stranded where
  queue := List.length_pos_iff.1 hstranded.queued
  writers j := by
    have hj := all_of_tally hstranded.asleep j
    cases hphase : s.writers j with
    | waiting => rfl
    | _ => simp [hphase] at hj
  producers i := by
    cases hphase : s.producers i with
    | idle =>
      refine .inl ⟨rfl, fun f hf => ?_⟩
      have hnone : s.left.countP SyncFileEntry.queued = 0 := (Nat.add_eq_zero_iff.1 htodo).1
      exact Bool.eq_false_iff.2 (List.countP_eq_zero.1 hnone f hf)
    | waiting f => exact .inr ⟨f, rfl⟩
    | running f => exact absurd hphase (h.running i f)
    | holding f => exact absurd hstranded.holding (Nat.ne_of_gt (tally_pos (i := i) (by rw [hphase]; rfl)))
    | notifying => exact absurd hstranded.notifying (Nat.ne_of_gt (tally_pos (i := i) (by rw [hphase]; rfl)))

end WriteQueueState

/-! ## When the queue cannot strand -/

/-- The fills and drains it takes until the excess of threads over the places puts every writer to sleep. -/
def strandingRounds (threads : Nat) : Nat :=
  let excess := threads + diskWriterThreads - (writeQueueMaxSize + 1)
  (diskWriterThreads + excess - 1) / excess / 2

/-- The threads fit into the queue, or the files end before the rounds do. -/
def QueueHolds (threads downloads : Nat) : Prop :=
  threads + diskWriterThreads ≤ writeQueueMaxSize + 1 ∨ downloads ≤ (strandingRounds threads + 1) * writeQueueMaxSize

instance (threads downloads : Nat) : Decidable (QueueHolds threads downloads) :=
  inferInstanceAs (Decidable (_ ∨ _))

example : QueueHolds 961 1000000 ∧ QueueHolds 962 33792 ∧ ¬ QueueHolds 962 33793 ∧ ¬ QueueHolds 1025 1025 := by decide

theorem strandingRounds_le {threads t : Nat} (hexcess : writeQueueMaxSize + 1 < threads + diskWriterThreads)
    (h : diskWriterThreads ≤ (2 * t + 1) * (threads + diskWriterThreads - (writeQueueMaxSize + 1))) :
    strandingRounds threads ≤ t := by
  have hpos : 0 < threads + diskWriterThreads - (writeQueueMaxSize + 1) := by omega
  unfold strandingRounds
  generalize threads + diskWriterThreads - (writeQueueMaxSize + 1) = excess at h hpos
  dsimp only
  have hrounds : (2 * t + 2) * excess = (2 * t + 1) * excess + excess := by ring
  have hlt : (diskWriterThreads + excess - 1) / excess < 2 * t + 2 := (Nat.div_lt_iff_lt_mul hpos).2 (by omega)
  omega

theorem le_strandingRounds {threads : Nat} (hexcess : writeQueueMaxSize + 1 < threads + diskWriterThreads) :
    diskWriterThreads ≤
      (2 * strandingRounds threads + 1) * (threads + diskWriterThreads - (writeQueueMaxSize + 1)) := by
  have hpos : 0 < threads + diskWriterThreads - (writeQueueMaxSize + 1) := by omega
  unfold strandingRounds
  generalize threads + diskWriterThreads - (writeQueueMaxSize + 1) = excess at hpos
  dsimp only
  have hlt : diskWriterThreads + excess - 1 < (diskWriterThreads + excess - 1) / excess * excess + excess :=
    Nat.lt_div_mul_add hpos
  have hodd : (diskWriterThreads + excess - 1) / excess ≤ 2 * ((diskWriterThreads + excess - 1) / excess / 2) + 1 := by
    omega
  have hmul := Nat.mul_le_mul_right excess hodd
  omega

/-- The download stage over the actionable files. -/
def downloadStart (maxThreads : Int) (files : List SyncFileEntry) :
    WriteQueueState (poolThreads maxThreads files.length) diskWriterThreads := { left := files }

/-- Where the queue does not hold, a schedule strands it. -/
theorem exists_stranded_run {maxThreads : Int} {files : List SyncFileEntry}
    (h : ¬ QueueHolds (poolThreads maxThreads files.length) (files.countP SyncFileEntry.queued)) :
    ∃ s, ReflTransGen WriteQueueState.Step (downloadStart maxThreads files) s ∧ s.Stranded := by
  obtain ⟨hexcess, hmany⟩ := not_or.1 h
  have htidy : (downloadStart maxThreads files).Tidy := ⟨fun i f => by simp [downloadStart], fun j job => by
    simp [downloadStart], rfl, rfl⟩
  have hδ : poolThreads maxThreads files.length + diskWriterThreads = writeQueueMaxSize + 1 +
      (poolThreads maxThreads files.length + diskWriterThreads - (writeQueueMaxSize + 1)) := by omega
  obtain ⟨b, hbuffer, hstranded, htodo⟩ := OneCondition.exists_stranded hδ (by omega) (by decide) (by decide)
    (le_strandingRounds (not_le.1 hexcess)) (not_le.1 hmany)
  rw [← WriteQueueState.counts_start] at hbuffer
  obtain ⟨s, popped, hrun, htidy', rfl⟩ := htidy.run hbuffer
  exact ⟨s, hrun, htidy'.stranded hstranded htodo⟩

/-- **The write queue never strands exactly where its threads fit into it**, or its files end before it has been filled
and drained often enough. -/
theorem write_queue_never_stranded_iff (maxThreads : Int) (files : List SyncFileEntry) :
    (∀ s, ReflTransGen WriteQueueState.Step (downloadStart maxThreads files) s → ¬ s.Stranded) ↔
      QueueHolds (poolThreads maxThreads files.length) (files.countP SyncFileEntry.queued) := by
  constructor
  · intro hnever
    by_contra hholds
    obtain ⟨s, hrun, hstranded⟩ := exists_stranded_run hholds
    exact hnever s hrun hstranded
  · intro h s hrun hstranded
    obtain ⟨popped, hbuffer⟩ := WriteQueueState.counts_run hrun
    rw [downloadStart, WriteQueueState.counts_start] at hbuffer
    have hδ : poolThreads maxThreads files.length + diskWriterThreads ≤ writeQueueMaxSize + 1 +
        (poolThreads maxThreads files.length + diskWriterThreads - (writeQueueMaxSize + 1)) := by omega
    have hsound := Sound.run hδ (by decide) hbuffer
    obtain ⟨t, hasleep, hfiles⟩ := hsound.stranded_rounds (by decide) (hstranded.counts popped)
    rcases h with hfit | hfew
    · rw [Nat.sub_eq_zero_of_le hfit, Nat.mul_zero] at hasleep
      exact absurd hasleep (by decide)
    · by_cases hexcess : writeQueueMaxSize + 1 < poolThreads maxThreads files.length + diskWriterThreads
      · have hrounds := strandingRounds_le hexcess hasleep
        have := Nat.mul_le_mul_right writeQueueMaxSize (Nat.add_le_add_right hrounds 1)
        omega
      · rw [Nat.sub_eq_zero_of_le (not_lt.1 hexcess), Nat.mul_zero] at hasleep
        exact absurd hasleep (by decide)

/-- Files for more threads than the queue has places. -/
def manyFiles : List SyncFileEntry :=
  (List.range 1025).map fun k => { relativePath := (toString k).toList, action := .download, s3Size := 1 }

theorem queue_strands : ¬ ∀ s, ReflTransGen WriteQueueState.Step (downloadStart 1025 manyFiles) s → ¬ s.Stranded := by
  have hlength : manyFiles.length = 1025 := by simp [manyFiles]
  have hqueued : manyFiles.countP SyncFileEntry.queued = 1025 := by
    refine (List.countP_eq_length.2 fun f hf => ?_).trans hlength
    obtain ⟨k, -, rfl⟩ := List.mem_map.1 hf
    rfl
  obtain ⟨s, hrun, hstranded⟩ : ∃ s, ReflTransGen WriteQueueState.Step (downloadStart 1025 manyFiles) s ∧ s.Stranded :=
    exists_stranded_run (by rw [hlength, hqueued]; decide)
  exact fun hnever => hnever s hrun hstranded

end Mito
