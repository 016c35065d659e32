import MitoSync.PartPlan
/-!
# Registry — `UploadRegistry`, and the operations that begin multipart uploads

`GetHashes` and `CopyObjectMultipart` register an upload once it is created and unregister it where an abort or a
completion of it is acknowledged (`UploadGuard`); `diff_upload_file` never registers.  `Tracked` is one destination with
what the registry holds of it and, for the statements, the ids a create was answered with and the aborts refused.

The fan-out of `GetHashes` runs its chunks in any order, each answered or dropped where it finds the flag set: a chunk
the submitter never posts is one dropped.  A thread that does not start, or a progress callback that throws, ends it
with an exception once the chunks under way have ended.
-/
namespace Mito

open Lib Prog

/-! ## The requests -/

structure Tracked where
  slot : Slot := {}
  /-- the ids `UploadRegistry` holds -/
  registry : List Nat := []
  /-- the ids a create was answered with -/
  created : List Nat := []
  /-- the ids whose abort was refused -/
  refused : List Nat := []

/-- What `UploadPartCopy` answers `ProcessSingleChunk`: a checksum, none that decodes, an error that is retried or not,
or an exception. -/
inductive ChunkAns
  | checksum (crc : UInt32) | noChecksum | retryable | refused | threw
  deriving DecidableEq

inductive TrackedCall
  | slot (c : Call)
  | registerUpload (id : Nat)
  | unregisterUpload (id : Nat)
  /-- `abort_all` takes what is registered -/
  | takeRegistered
  | shutdownRequested
  | uploadPartCopyChecksum (id : Nat) (part : CopyPart)
  /-- did a wait of the unbounded fan-out time out? -/
  | waitTimedOut
  /-- did the fan-out end with an exception? -/
  | fanOutThrew

abbrev TrackedResp : TrackedCall → Type
  | .slot c => Resp c
  | .registerUpload _ | .unregisterUpload _ => Unit
  | .takeRegistered => List Nat
  | .shutdownRequested | .waitTimedOut | .fanOutThrew => Bool
  | .uploadPartCopyChecksum _ _ => ChunkAns

abbrev TrackedExec (α : Type) : Type := Prog TrackedCall TrackedResp α

/-- One request, of the registry or of the copy. -/
abbrev askTracked (c : TrackedCall) : TrackedExec (TrackedResp c) := Prog.req c

/-- One request on the destination. -/
abbrev askSlot (c : Call) : TrackedExec (Resp c) := Prog.req (C := TrackedCall) (R := TrackedResp) (.slot c)

/-- An executor that knows nothing of the registry. -/
abbrev onSlot {α : Type} (p : Exec α) : TrackedExec α := p.interp askSlot

/-! ## `UploadGuard` -/

/-- An abort that unregisters where it is acknowledged. -/
def abortAndRelease (id : Nat) : TrackedExec Unit := do
  if ← askSlot (.abortMultipartUpload id) then askTracked (.unregisterUpload id)

/-- `UploadRegistry::abort_all`, which lets go of the uploads before it aborts them. -/
def abortUploads : List Nat → TrackedExec Unit
  | [] => return ()
  | id :: ids => do
    let _ ← askSlot (.abortMultipartUpload id)
    abortUploads ids

def abortAll : TrackedExec Unit := do
  let ids ← askTracked .takeRegistered
  abortUploads ids

/-! ## `GetHashes` -/

def maxErrorsBeforeAbort : Nat := 3

/-- The counters of a fan-out, and the checksums it has. -/
structure FanOut where
  crcs : List (Int × UInt32) := []
  errors : Nat := 0
  shouldAbort : Bool := false
  deriving DecidableEq

namespace FanOut

/-- A chunk that ended with a checksum. -/
def succeed (t : FanOut) (part : CopyPart) (crc : UInt32) : FanOut :=
  { t with crcs := (part.partNumber - 1, crc) :: t.crcs }

/-- A chunk that ended without one: one error too many tells the others to stop. -/
def fail (t : FanOut) : FanOut :=
  { t with errors := t.errors + 1, shouldAbort := t.shouldAbort || decide (t.errors + 1 > maxErrorsBeforeAbort) }

end FanOut

/-- The attempts the chunks still to run have left. -/
def attempts (tasks : List (CopyPart × Nat)) : Nat := (tasks.map (fun task => task.2 + 1)).sum

theorem attempts_cons (task : CopyPart × Nat) (tasks : List (CopyPart × Nat)) :
    attempts (task :: tasks) = task.2 + 1 + attempts tasks := by
  unfold attempts
  rw [List.map_cons, List.sum_cons]

theorem attempts_eraseIdx : ∀ (tasks : List (CopyPart × Nat)) (i : Nat), i < tasks.length →
    attempts (tasks.eraseIdx i) < attempts tasks
  | [], _, h => absurd h (Nat.not_lt_zero _)
  | task :: tasks, 0, _ => by
    rw [List.eraseIdx_cons_zero, attempts_cons]
    omega
  | task :: tasks, i + 1, h => by
    have := attempts_eraseIdx tasks i (Nat.lt_of_succ_lt_succ h)
    rw [List.eraseIdx_cons_succ, attempts_cons, attempts_cons]
    omega

theorem attempts_set : ∀ (tasks : List (CopyPart × Nat)) (i : Nat) (h : i < tasks.length) (part : CopyPart),
    tasks[i].2 ≠ 0 → attempts (tasks.set i (part, tasks[i].2 - 1)) < attempts tasks
  | task :: tasks, 0, _, part, hr => by
    rw [List.getElem_cons_zero] at hr
    rw [List.set_cons_zero, List.getElem_cons_zero, attempts_cons, attempts_cons]
    simp only
    omega
  | task :: tasks, i + 1, h, part, hr => by
    rw [List.getElem_cons_succ] at hr
    have := attempts_set tasks i (Nat.lt_of_succ_lt_succ h) part hr
    rw [List.set_cons_succ, List.getElem_cons_succ, attempts_cons, attempts_cons]
    omega

/-- The chunks still to run, each with the retries it has left: one of them asks its next request or drops out. -/
def fanOut (id : Nat) : List (CopyPart × Nat) → FanOut → TrackedExec FanOut
  | [], t => return t
  | task :: tasks, t => do
    let i ← askSlot (.pick tasks.length)
    let next := (task :: tasks)[i.val]
    let stop ← askTracked .shutdownRequested
    if t.shouldAbort || stop then fanOut id ((task :: tasks).eraseIdx i.val) t
    else
      match ← askTracked (.uploadPartCopyChecksum id next.1) with
      | .checksum crc => fanOut id ((task :: tasks).eraseIdx i.val) (t.succeed next.1 crc)
      | .noChecksum | .refused => fanOut id ((task :: tasks).eraseIdx i.val) t.fail
      | .retryable | .threw =>
        if next.2 = 0 then fanOut id ((task :: tasks).eraseIdx i.val) t.fail
        else fanOut id ((task :: tasks).set i.val (next.1, next.2 - 1)) t
termination_by tasks => attempts tasks
decreasing_by
  · exact attempts_eraseIdx _ _ i.isLt
  · exact attempts_eraseIdx _ _ i.isLt
  · exact attempts_eraseIdx _ _ i.isLt
  · exact attempts_eraseIdx _ _ i.isLt
  · exact attempts_set _ _ i.isLt _ ‹_›

/-- The results of a fan-out over the chunks `ids`, none of them where a chunk has none: `chunkIds` in their order, or
every chunk. -/
def FanOut.finish (t : FanOut) (ids chunkIds : List Int) : List UInt32 :=
  if t.errors > 0 ∨ t.crcs.length ≠ ids.length then []
  else (if chunkIds.isEmpty then ids else chunkIds).map (fun i => (t.crcs.lookup i).getD 0)

/-- The chunks a fan-out runs, each once. -/
def fanOutIds (numChunks : Int) (chunkIds : List Int) : List Int :=
  if chunkIds.isEmpty then (List.range numChunks.toNat).map Int.ofNat else chunkIds.eraseDups

/-- `ParallelUploadPartCopyRequests` and its thread pool twin, `none` where it ends with an exception. -/
def parallelUploadPartCopyRequests (id : Nat) (parts : List CopyPart) (numChunks : Int) (chunkIds : List Int)
    (maxRetries : Nat) (numThreads : Int) : TrackedExec (Option (List UInt32)) := do
  let t ← fanOut id (parts.map (fun part => (part, maxRetries))) {}
  let late ← askTracked .waitTimedOut
  let t := if numThreads ≤ 0 ∧ late = true then t.fail else t
  if ← askTracked .fanOutThrew then return none
  return some (t.finish (fanOutIds numChunks chunkIds) chunkIds)

/-- `none` where the fan-out's exception leaves `GetHashes`, and where the arithmetic of a part leaves its type nothing
is said. -/
def getHashes (filesize chunkSize : Int) (chunkIds : List Int) (maxRetries : Nat) (numThreads : Int) :
    TrackedExec (Option (List UInt32)) := do
  let numChunks := chunkCountForSize filesize (chunkSizeOf chunkSize)
  if !chunkRequestIsValid chunkIds filesize numChunks then return some []
  match ← askSlot .createMultipartUpload with
  | .ok id =>
    askTracked (.registerUpload id)
    match getHashesParts filesize chunkSize chunkIds with
    | none => .halt
    | some parts =>
      match ← parallelUploadPartCopyRequests id parts numChunks chunkIds maxRetries numThreads with
      | none => return none
      | some crcs =>
        abortAndRelease id
        return some crcs
  | _ => return some []

/-! ## `CopyObjectMultipart` -/

def copyObjectMultipartTracked (clientRetries sourceSize partSize : Nat) : TrackedExec (Ans Unit) := do
  match ← askSlot .createMultipartUpload with
  | .ok id =>
    askTracked (.registerUpload id)
    match ← onSlot (sendParts (copyPart clientRetries id sourceSize partSize) 0 (numChunks partSize sourceSize)) with
    | none =>
      abortAndRelease id
      return .failed
    | some completedParts =>
      match ← askSlot (.completeMultipartUpload id completedParts) with
      | .ok _ =>
        askTracked (.unregisterUpload id)
        return .ok ()
      | _ =>
        abortAndRelease id
        return .failed
  | _ => return .failed

/-- `diff_upload_file` asks nothing of the registry. -/
def diffUploadFileTracked : TrackedExec Bool := onSlot diffUploadFile

/-! ## What a request may answer -/

/-- The slot after an answer, with the id a create was answered with and the abort that was refused. -/
def Tracked.answered (w : Tracked) (s : Slot) : (c : Call) → Resp c → Tracked
  | .createMultipartUpload, .ok id => { w with slot := s, created := w.created ++ [id] }
  | .abortMultipartUpload id, false => { w with slot := s, refused := w.refused ++ [id] }
  | _, _ => { w with slot := s }

/-- The part is stored like any other; its checksum is the one of its bytes. -/
def Env.copyChecksum (E : Env) (s : Slot) (id : Nat) (part : CopyPart) (r : ChunkAns) (s' : Slot) : Prop :=
  ∃ ans, E.addPart s id part.partNumber.toNat (rangeOf (some E.source) part.startByte.toNat part.endByte.toNat) ans s' ∧
    match r with
    | .checksum crc => (∃ etag, ans = .ok etag) ∧
        ∃ d, rangeOf (some E.source) part.startByte.toNat part.endByte.toNat = some d ∧ crc = E.crc d
    | .noChecksum => ∃ etag, ans = .ok etag
    | .retryable | .refused => ans = .failed
    | .threw => ans = .threw

def trackedExec (E : Env) : (c : TrackedCall) → Tracked → TrackedResp c → Tracked → Prop
  | .slot c, w, r, w' => ∃ s', exec E c w.slot r s' ∧ w' = w.answered s' c r
  | .registerUpload id, w, _, w' => w' = { w with registry := id :: w.registry }
  | .unregisterUpload id, w, _, w' => w' = { w with registry := w.registry.filter (fun j => decide (j ≠ id)) }
  | .takeRegistered, w, ids, w' => ids = w.registry ∧ w' = { w with registry := [] }
  | .shutdownRequested, w, _, w' => w' = w
  | .uploadPartCopyChecksum id part, w, r, w' => ∃ s', E.copyChecksum w.slot id part r s' ∧ w' = { w with slot := s' }
  | .waitTimedOut, w, _, w' => w' = w
  | .fanOutThrew, w, _, w' => w' = w

end Mito
