import MitoSync.Planner
import MitoSync.Download
import MitoSync.Upload
/-!
# Sync — `run_sync`

`planRun` is everything up to the first mutation: the checks, the two listings and the plan, or the message of the
refusal.  Then every actionable line is processed.  A line's way through the pre-read stage, the pool and the disk
writers is one program (`processEntry`), run interleaved with all the others; what the stages hand each other is kept
for each line alone, so the order of the queues shows only in how the programs interleave.
-/
namespace Mito

open Lib Prog

/-! ## Up to the plan -/

/-- What `run_sync` is told by the file systems and the bucket before it plans. -/
structure Scan where
  /-- the message of the overlap check of `LocalToLocal`, where it refuses -/
  overlap : Option String := none
  /-- the message of the first temporary-file sweep, where it refuses -/
  sweep : Option String := none
  clients : Option String := none
  source : Listing
  /-- `fs::exists` of a local destination -/
  destExists : Bool := true
  dest : Listing
  /-- `progress.cancelled` as the classifier and then `run_sync` read it -/
  cancelledClassify : Bool := false
  cancelled : Bool := false
  sweepAgain : Option String := none

def classify (config : SyncConfig) (scan : Scan) : List SyncFileEntry × Bool :=
  match config.direction with
  | .s3ToS3 => classifyFilesS3ToS3 config scan.source scan.dest scan.cancelledClassify
  | .download => classifyFilesDownload config scan.source scan.destExists scan.dest scan.cancelledClassify
  | .localToLocal =>
    classifyFilesLocalToLocal config scan.source scan.destExists scan.dest scan.cancelledClassify
  | .upload => classifyFiles config scan.source scan.dest scan.cancelledClassify

def incompleteSourceMessage (deleteOrphans : Bool) : String :=
  "Source enumeration failed: the source could not be listed " ++
  "completely, so the file list is a subset of what is really " ++
  "there. " ++
  (if deleteOrphans then
    "Refusing to continue - entries missing from a partial source list " ++
    "look like destination orphans and would be deleted. "
  else
    "Refusing to continue - the sync would silently copy only part of " ++
    "the source and report success. ") ++
  "The specific paths that could not be read are logged above as errors " ++
  "or warnings."

/-- The plan, or the message `run_sync` returns without having changed anything. -/
def planRun (config : SyncConfig) (scan : Scan) : Except String (List SyncFileEntry) := do
  if let some message := scan.overlap then throw message
  if let some message := scan.sweep then throw message
  if let some message := scan.clients then throw message
  let (files, enumerationOk) := classify config scan
  if scan.cancelled then throw "Cancelled during enumeration"
  if !enumerationOk then throw (incompleteSourceMessage config.deleteOrphans)
  if let some message := scan.sweepAgain then throw message
  return files

/-- The lines the execution works on. -/
def actionable (files : List SyncFileEntry) : List SyncFileEntry := files.filter (fun f => f.action ≠ .skip)

/-! ## One line -/

/-- How a line was counted: under its action, as failed, or, after a cancellation, not at all. -/
inductive Outcome
  | done | failed | dropped
  deriving DecidableEq

/-- `if (success) ++count; else if (!progress.cancelled) fail_count++;` -/
def count (success : Bool) : Exec Outcome := do
  if success then return .done
  else if ← ask .cancelled then return .dropped
  else return .failed

/-- An exception leaves the pool's task, and the process with it. -/
def countAns (a : Ans Unit) : Exec Outcome :=
  match a with
  | .ok _ => count true
  | .failed => count false
  | .threw => .halt

def preReadMaxFileSize : Int := 16 * 1024 * 1024

/-- The size the pre-read stage reads, for a line it serves. -/
def prefetchSize (f : SyncFileEntry) : Option Nat :=
  match f.action with
  | .upload => if 0 < f.localSize ∧ f.localSize ≤ preReadMaxFileSize then some f.localSize.toNat else none
  | .download => if 0 < f.s3Size ∧ f.s3Size ≤ preReadMaxFileSize then some f.s3Size.toNat else none
  | _ => none

/-- The pre-read stage on a line, and whether the submitter found what it read. -/
def prefetch (f : SyncFileEntry) : Exec (Option Bytes) :=
  match prefetchSize f with
  | none => return none
  | some size => do
    match ← ask (.sourceRange 0 size) with
    | .ok data => if ← ask .cacheHit then return some data else return none
    | _ => return none

/-- Room in the write queue, then a disk writer. -/
def enqueueWrite (fuel : Nat) (base relative : Str) (data : Bytes) : Exec Outcome := do
  if ← ask .cancelled then return .dropped
  if ← downloadFromData fuel base relative data then return .done else return .failed

/-- The `Download` case. -/
def processDownload (fuel : Nat) (config : SyncConfig) (f : SyncFileEntry) (preRead : Option Bytes) :
    Exec Outcome := do
  match preRead with
  | some data => enqueueWrite fuel config.localPath f.relativePath data
  | none =>
    if f.s3Size = 0 then
      let success ← downloadFromData fuel config.localPath f.relativePath []
      count success
    else
      match ← retry (ask (.sourceRange 0 f.s3Size.toNat)) (maxRetries + 1) with
      | .ok data => enqueueWrite fuel config.localPath f.relativePath data
      | .failed => count false
      | .threw => .halt

/-- Bounds of the loops and the client's retries, which no result depends on. -/
structure Limits where
  fuel : Nat
  clientRetries : Nat

def parallelChunks (config : SyncConfig) : Nat := min 32 (max 1 config.maxThreads).toNat

def processFile (limits : Limits) (config : SyncConfig) (f : SyncFileEntry) (preRead : Option Bytes) :
    Exec Outcome := do
  if ← ask .cancelled then return .dropped
  match f.action with
  | .skip => return .dropped
  | .upload =>
    match config.direction, preRead with
    | .localToLocal, _ =>
      let success ← copyLocalFile limits.fuel config.localPath config.destLocalPath f.relativePath
      count success
    | _, some data =>
      let a ← uploadFromData data
      countAns a
    | _, none =>
      let a ← uploadSmallFile
      countAns a
  | .uploadDiff =>
    let success ← diffUploadFile
    count success
  | .download => processDownload limits.fuel config f preRead
  | .downloadDiff =>
    let success ← diffDownloadFile limits.fuel (parallelChunks config) config.localPath f.relativePath f.s3Size
    count success
  | .copy =>
    let a ← copyS3Object limits.clientRetries f.s3Size.toNat
    countAns a
  | .delete =>
    match config.direction with
    | .download =>
      let success ← deleteLocalFile config.localPath f.relativePath
      count success
    | .localToLocal =>
      let success ← deleteLocalFile config.destLocalPath f.relativePath
      count success
    | _ =>
      let a ← deleteS3Object
      countAns a

/-- A line from the submitter's loop to its count. -/
def processEntry (limits : Limits) (config : SyncConfig) (f : SyncFileEntry) : Exec Outcome := do
  let preRead ← prefetch f
  if ← ask .cancelled then return .dropped
  processFile limits config f preRead

end Mito
