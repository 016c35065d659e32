import MitoSync.Sync
/-!
# Execution — who books an entry of a plan, and when

The second half of `run_sync`: the submitter, the tasks it posts, the threads that read ahead, the disk writers, the
order in which they are joined, and the result.  A step is one access to what they share.  An action is a step with
either result, so the runs are those of every pattern of failures; an action that throws ends the process, and no
result is read.  The limits that only make a thread wait (the concurrency window, the bounds of the cache and of the
write queue) are left out: every run they allow is one of these.

A download is booked by the task that could not fetch it, by the task that writes an empty file, or by a disk writer;
everything else by its task.
-/
namespace Mito

open Relation

/-- The counters of the tasks. -/
structure Counts where
  uploadCount : Nat := 0
  diffUploadCount : Nat := 0
  downloadCount : Nat := 0
  diffDownloadCount : Nat := 0
  copyCount : Nat := 0
  deleteCount : Nat := 0
  failCount : Nat := 0
  deriving DecidableEq

/-- The success counter of an action. -/
def Counts.succeed (c : Counts) : SyncAction → Counts
  | .skip => c
  | .upload => { c with uploadCount := c.uploadCount + 1 }
  | .uploadDiff => { c with diffUploadCount := c.diffUploadCount + 1 }
  | .download => { c with downloadCount := c.downloadCount + 1 }
  | .downloadDiff => { c with diffDownloadCount := c.diffDownloadCount + 1 }
  | .copy => { c with copyCount := c.copyCount + 1 }
  | .delete => { c with deleteCount := c.deleteCount + 1 }

def Counts.fail (c : Counts) : Counts := { c with failCount := c.failCount + 1 }

structure SyncResult where
  success : Bool := false
  filesUploaded : Nat := 0
  filesDiffUploaded : Nat := 0
  filesDownloaded : Nat := 0
  filesDiffDownloaded : Nat := 0
  filesCopied : Nat := 0
  filesSkipped : Nat := 0
  filesDeleted : Nat := 0
  filesFailed : Nat := 0
  errorMessage : String := ""
  deriving DecidableEq

/-- The result of an execution, from the counters and `progress.cancelled` as it reads them at the end. -/
def syncResultOf (skipped : Nat) (c : Counts) (cancelled : Bool) : SyncResult where
  success := !cancelled && c.failCount = 0
  filesUploaded := c.uploadCount
  filesDiffUploaded := c.diffUploadCount
  filesDownloaded := c.downloadCount
  filesDiffDownloaded := c.diffDownloadCount
  filesCopied := c.copyCount
  filesSkipped := skipped
  filesDeleted := c.deleteCount
  filesFailed := c.failCount
  errorMessage := if cancelled then "Cancelled" else ""

/-- Where a task stands: in the pool, with or without bytes read ahead; past its look at `cancelled`; with bytes to
queue; done with its action; and past `process_file`. -/
inductive Stage
  | posted (preRead : Bool) | working (preRead : Bool) | fetched | settled | leaving
  deriving DecidableEq

/-- Where the main thread stands: in its loop; waiting for the tasks; joining the writers; with all of them joined. -/
inductive Phase
  | submitting | draining | closing | joined (total : Counts) | returned (result : SyncResult)
  deriving DecidableEq

def diskWriterThreads : Nat := 64

/-- What the threads of an execution of `n` entries share.  `booked`, `written` and `pushed` are its history: what the
tasks and the disk writers have counted, and what was queued for writing. -/
structure Execution (n : Nat) where
  cancelled : Bool := false
  phase : Phase := .submitting
  next : Nat := 0
  /-- `io_cache` -/
  cached : List (Fin n) := []
  inFlight : Nat := 0
  pool : List (Fin n × Stage) := []
  filesProcessed : Nat := 0
  counts : Counts := {}
  booked : List (Fin n × Bool) := []
  writeQueue : List (Fin n) := []
  writeQueueDone : Bool := false
  /-- the disk writers that run, and the jobs they hold -/
  writers : Nat := 0
  writing : List (Fin n) := []
  writeQueueSuccess : Nat := 0
  writeQueueFail : Nat := 0
  written : List (Fin n × Bool) := []
  pushed : List (Fin n) := []

namespace Execution

section

variable {n : Nat} (s : Execution n)

/-- `if (success) ++count; else if (!progress.cancelled) fail_count++;` -/
def book (files : Fin n → SyncFileEntry) (i : Fin n) (success : Bool) : Execution n :=
  if success then { s with counts := s.counts.succeed (files i).action, booked := (i, true) :: s.booked }
  else if s.cancelled then s
  else { s with counts := s.counts.fail, booked := (i, false) :: s.booked }

/-- The end of a disk writer's job. -/
def bookWrite (i : Fin n) (success : Bool) : Execution n :=
  if success then { s with writeQueueSuccess := s.writeQueueSuccess + 1, written := (i, true) :: s.written }
  else { s with writeQueueFail := s.writeQueueFail + 1, written := (i, false) :: s.written }

/-- The push into the write queue, unless the run is cancelled. -/
def enqueue (i : Fin n) : Execution n :=
  if s.cancelled then s else { s with writeQueue := s.writeQueue ++ [i], pushed := i :: s.pushed }

/-- The counters with those of the disk writers. -/
def total (config : SyncConfig) : Counts :=
  if config.direction = .download then
    { s.counts with downloadCount := s.counts.downloadCount + s.writeQueueSuccess,
                    failCount := s.counts.failCount + s.writeQueueFail }
  else s.counts

end

/-- A task does its whole action itself, unless it has or fetches bytes for a disk writer. -/
def Direct (f : SyncFileEntry) (preRead : Bool) : Prop :=
  f.action ≠ .download ∨ preRead = false ∧ f.s3Size = 0

variable {n : Nat} (config : SyncConfig) (files : Fin n → SyncFileEntry) (skipped : Nat)

/-- One access of one thread, in a plan that skips `skipped` further entries. -/
inductive Step : Execution n → Execution n → Prop
  | cancel {s : Execution n} (h : ∀ result, s.phase ≠ .returned result) : Step s { s with cancelled := true }
  /-- a thread of the pre-read stage; what it reads it may find no room for -/
  | prefetch {s : Execution n} (h : s.phase = .submitting ∨ s.phase = .draining) {i : Fin n}
      (hserved : (prefetchSize (files i)).isSome) : Step s { s with cached := i :: s.cached }
  /-- the submitter looks for the entry in the cache, and posts its task -/
  | post {s : Execution n} (h : s.phase = .submitting) (hn : s.next < n) (hc : s.cancelled = false) (preRead : Bool)
      (hcached : preRead = true → ⟨s.next, hn⟩ ∈ s.cached) :
      Step s { s with next := s.next + 1, inFlight := s.inFlight + 1,
                      cached := if preRead then s.cached.erase ⟨s.next, hn⟩ else s.cached,
                      pool := (⟨s.next, hn⟩, .posted preRead) :: s.pool }
  | stopSubmitting {s : Execution n} (h : s.phase = .submitting) (hend : n ≤ s.next ∨ s.cancelled = true) :
      Step s { s with phase := .draining }
  | turnAway {s : Execution n} {a b : List (Fin n × Stage)} {i : Fin n} {preRead : Bool}
      (h : s.pool = a ++ (i, .posted preRead) :: b) (hc : s.cancelled = true) :
      Step s { s with pool := a ++ (i, .leaving) :: b }
  | begin {s : Execution n} {a b : List (Fin n × Stage)} {i : Fin n} {preRead : Bool}
      (h : s.pool = a ++ (i, .posted preRead) :: b) (hc : s.cancelled = false) :
      Step s { s with pool := a ++ (i, .working preRead) :: b }
  | act {s : Execution n} {a b : List (Fin n × Stage)} {i : Fin n} {preRead : Bool}
      (h : s.pool = a ++ (i, .working preRead) :: b) (hd : Direct (files i) preRead) (success : Bool) :
      Step s { s.book files i success with pool := a ++ (i, .settled) :: b }
  | fetch {s : Execution n} {a b : List (Fin n × Stage)} {i : Fin n} {preRead : Bool}
      (h : s.pool = a ++ (i, .working preRead) :: b) (hd : ¬ Direct (files i) preRead) :
      Step s { s with pool := a ++ (i, .fetched) :: b }
  | fetchFailed {s : Execution n} {a b : List (Fin n × Stage)} {i : Fin n}
      (h : s.pool = a ++ (i, .working false) :: b) (hd : ¬ Direct (files i) false) :
      Step s { s.book files i false with pool := a ++ (i, .settled) :: b }
  | push {s : Execution n} {a b : List (Fin n × Stage)} {i : Fin n} (h : s.pool = a ++ (i, .fetched) :: b) :
      Step s { s.enqueue i with pool := a ++ (i, .settled) :: b }
  | processed {s : Execution n} {a b : List (Fin n × Stage)} {i : Fin n} (h : s.pool = a ++ (i, .settled) :: b) :
      Step s { s with filesProcessed := s.filesProcessed + 1, pool := a ++ (i, .leaving) :: b }
  /-- the guard of `process_with_tracking` -/
  | release {s : Execution n} {a b : List (Fin n × Stage)} {i : Fin n} (h : s.pool = a ++ (i, .leaving) :: b) :
      Step s { s with inFlight := s.inFlight - 1, pool := a ++ b }
  | takeJob {s : Execution n} {i : Fin n} {rest : List (Fin n)} (h : s.writeQueue = i :: rest)
      (hidle : s.writing.length < s.writers) : Step s { s with writeQueue := rest, writing := i :: s.writing }
  | write {s : Execution n} {a b : List (Fin n)} {i : Fin n} (h : s.writing = a ++ i :: b) (success : Bool) :
      Step s { s.bookWrite i success with writing := a ++ b }
  | writerExits {s : Execution n} (h : s.writeQueue = []) (hdone : s.writeQueueDone = true)
      (hidle : s.writing.length < s.writers) : Step s { s with writers := s.writers - 1 }
  /-- the wait for the tasks, the joins of the pre-read threads and of the pool, and `write_queue_done` -/
  | close {s : Execution n} (h : s.phase = .draining) (hidle : s.inFlight = 0) :
      Step s { s with phase := .closing, writeQueueDone := config.direction = .download }
  | join {s : Execution n} (h : s.phase = .closing) (hwriters : s.writers = 0) :
      Step s { s with phase := .joined (s.total config) }
  | finish {s : Execution n} {total : Counts} (h : s.phase = .joined total) :
      Step s { s with phase := .returned (syncResultOf skipped total s.cancelled) }

/-- Before the first step; without entries there is nothing to start. -/
def start (n : Nat) : Execution n :=
  if n = 0 then { phase := .joined {} }
  else { writers := if config.direction = .download then diskWriterThreads else 0 }

end Execution

end Mito
