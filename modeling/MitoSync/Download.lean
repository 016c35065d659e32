import MitoSync.Guards
import MitoSync.Upload
/-!
# Download — the executors that write files

`AtomicFileWriter` and the three executors that write a file in full through it, `delete_local_file`, and
`diff_download_file`, which patches the file in place with several workers.  Loops that may turn without end (`EINTR`,
read to the end of the file, the workers' scheduling) take a bound and `halt` where it is spent.
-/
namespace Mito

open Lib Prog

/-! ## AtomicFileWriter -/

/-- The constructor's attempts at a temporary name. -/
def createTemp : Nat → Exec Bool
  | 0 => return false
  | n + 1 => do
    match ← ask .openTemp with
    | .opened => return true
    | .eexist => createTemp n
    | .failed => return false

/-- The constructor: a destination that is a link, not a regular file or cannot be inspected is refused. -/
def openWriter : Exec Bool := do
  match ← ask .symlinkStatus with
  | .refused => return false
  | _ => createTemp 8

/-- The loop over `write`: a short write goes on with the rest, `EINTR` with the same bytes. -/
def writeAll : Nat → Bytes → Exec Bool
  | _, [] => return true
  | 0, _ :: _ => .halt
  | fuel + 1, b :: d => do
    match ← ask (.writeTemp (b :: d)) with
    | .eintr => writeAll fuel (b :: d)
    | .failed => return false
    | .wrote n => if n = 0 then return false else writeAll fuel ((b :: d).drop n)

def commit : Exec Bool := do
  if !(← ask .fdatasync) then return false
  if !(← ask .closeTemp) then return false
  ask .renameTemp

/-- The writer once it is valid: written and committed, or dropped by its destructor. -/
def commitOrDrop (written : Bool) : Exec Bool := do
  if written then
    if ← commit then return true
  let _ ← ask .removeTemp
  return false

def writeAtomically (fuel : Nat) (data : Bytes) : Exec Bool := do
  if ← openWriter then
    let written ← writeAll fuel data
    commitOrDrop written
  else return false

/-! ## Whole-file executors -/

def downloadFromData (fuel : Nat) (base relative : Str) (data : Bytes) : Exec Bool := do
  if !targetAccepted base relative then return false
  if ← ask .resolvesWithinBase then writeAtomically fuel data else return false

/-- The attempts of `download_small_file`: a read that comes back short is tried again, a failed write is not. -/
def downloadAttempts (fuel s3Size : Nat) : Nat → Exec (Ans Unit)
  | 0 => return .failed
  | n + 1 => do
    if ← ask .cancelled then return .failed
    match ← ask (.sourceRange 0 s3Size) with
    | .threw => return .threw
    | .failed => downloadAttempts fuel s3Size n
    | .ok data =>
      if data.length ≠ s3Size then downloadAttempts fuel s3Size n
      else if ← writeAtomically fuel data then return .ok ()
      else return .failed

def downloadSmallFile (fuel : Nat) (base relative : Str) (s3Size : Int) : Exec (Ans Unit) := do
  if s3Size < 0 then return .failed
  if !targetAccepted base relative then return .failed
  if ← ask .resolvesWithinBase then
    if s3Size = 0 then
      -- `std::ofstream` with `trunc`, on the path itself
      if ← ask .createEmpty then return .ok () else return .failed
    else downloadAttempts fuel s3Size.toNat (maxRetries + 1)
  else return .failed

def deleteLocalFile (base relative : Str) : Exec Bool := do
  if ← ask .cancelled then return false
  if !targetAccepted base relative then return false
  if ← ask .resolvesWithinBase then
    match ← ask .remove with
    | .ok removed => return removed
    | _ => return false
  else return false

/-! ## Local copy -/

def copyBufferSize : Nat := 1024 * 1024

/-- The inner loop: a cancellation leaves it as if all were written, and the outer test sees the flag again. -/
def copyWrite : Nat → Bytes → Exec Bool
  | _, [] => return true
  | 0, _ :: _ => .halt
  | fuel + 1, b :: d => do
    if ← ask .cancelled then return true
    match ← ask (.writeTemp (b :: d)) with
    | .eintr => copyWrite fuel (b :: d)
    | .failed => return false
    | .wrote n => if n = 0 then return false else copyWrite fuel ((b :: d).drop n)

def copyLoop (fuel : Nat) : Nat → Nat → Exec Bool
  | 0, _ => .halt
  | turns + 1, offset => do
    if ← ask .cancelled then return true
    match ← ask (.readSource offset copyBufferSize) with
    | .eintr => copyLoop fuel turns offset
    | .failed => return false
    | .data d =>
      if d = [] then return true
      if ← copyWrite fuel d then copyLoop fuel turns (offset + d.length) else return false

def copyLocalFile (fuel : Nat) (sourceBase destBase relative : Str) : Exec Bool := do
  if ← ask .cancelled then return false
  if !(targetAccepted sourceBase relative && targetAccepted destBase relative) then return false
  if !(← ask .resolvesWithinBase) then return false
  if !(← ask .createDirectories) then return false
  if !(← ask .openSource) then return false
  if ← openWriter then
    let success ← copyLoop fuel fuel 0
    let cancelled ← ask .cancelled
    commitOrDrop (success && !cancelled)
  else return false

/-! ## Differential download -/

/-- Where a worker of `diff_download_file` stands.  `left` counts the attempts a chunk still has. -/
inductive Worker
  | top
  | attempt (chunk left : Nat)
  | fetch (chunk left : Nat)
  | write (chunk left : Nat) (rest : Bytes)
  | giveUp (chunk : Nat)
  deriving DecidableEq

/-- What the workers share, and the workers still running. -/
structure Patch where
  nextChunkIdx : Nat := 0
  downloadFailed : Bool := false
  wroteAny : Bool := false
  workers : List Worker
  deriving DecidableEq

/-- One step of a worker: where it stands after it, `none` when it has ended, and the shared variables. -/
def workerStep (todo : List Nat) (s3Size : Nat) (w : Worker) (p : Patch) : Exec (Option Worker × Patch) :=
  match w with
  | .top => do
    if ← ask .cancelled then return (none, p)
    if p.downloadFailed then return (none, p)
    match todo[p.nextChunkIdx]? with
    | none => return (none, { p with nextChunkIdx := p.nextChunkIdx + 1 })
    | some i => return (some (.attempt i (maxRetries + 1)), { p with nextChunkIdx := p.nextChunkIdx + 1 })
  | .attempt i 0 => return (some (.giveUp i), p)
  | .attempt i (left + 1) => do
    if ← ask .cancelled then return (some (.giveUp i), p)
    if p.downloadFailed then return (some (.giveUp i), p)
    return (some (.fetch i left), p)
  | .fetch i left => do
    match ← ask (.sourceRange (i * defaultChunkSize) (chunkLen defaultChunkSize s3Size i)) with
    | .threw => return (none, { p with downloadFailed := true })
    | .failed => return (some (.attempt i left), p)
    | .ok data =>
      if data.length = chunkLen defaultChunkSize s3Size i then return (some (.write i left data), p)
      else return (some (.attempt i left), p)
  | .write _ _ [] => return (some .top, p)
  | .write i left (b :: rest) => do
    let written := chunkLen defaultChunkSize s3Size i - (b :: rest).length
    match ← ask (.pwrite (i * defaultChunkSize + written) (b :: rest)) with
    | .eintr => return (some (.write i left (b :: rest)), p)
    | .failed => return (some (.attempt i left), p)
    | .wrote n =>
      if n = 0 then return (some (.attempt i left), p)
      else return (some (.write i left ((b :: rest).drop n)), { p with wroteAny := true })
  | .giveUp _ => do
    if ← ask .cancelled then return (some .top, p)
    return (some .top, { p with downloadFailed := true })

/-- The workers in any order, until all have ended. -/
def patchLoop (todo : List Nat) (s3Size : Nat) : Nat → Patch → Exec Patch
  | 0, _ => .halt
  | fuel + 1, p =>
    match p.workers with
    | [] => return p
    | w :: ws => do
      let j ← ask (.pick ws.length)
      match ← workerStep todo s3Size ((w :: ws).getD j.val w) p with
      | (none, p') => patchLoop todo s3Size fuel { p' with workers := (w :: ws).eraseIdx j.val }
      | (some w', p') => patchLoop todo s3Size fuel { p' with workers := (w :: ws).set j.val w' }

/-- A failure after a write clears the file's time; before any, the file is what it was. -/
def markIncomplete (wroteAny : Bool) : Exec Bool := do
  if wroteAny then
    let _ ← ask .clearMtime
    return false
  else return false

/-- After the workers are joined. -/
def finishPatch (s3Size : Nat) (localSize : Int) (p : Patch) : Exec Bool := do
  if ← ask .cancelled then markIncomplete p.wroteAny
  else if p.downloadFailed then markIncomplete p.wroteAny
  else if (s3Size : Int) < localSize then
    if ← ask (.ftruncate s3Size) then
      let _ ← ask .fsync
      return true
    else markIncomplete p.wroteAny
  else
    let _ ← ask .fsync
    return true

/-- The chunks to fetch. -/
def chunksToDownload (s3Crcs localCrcs : List UInt32) : List Nat :=
  (List.range s3Crcs.length).filter (fun i => !unchangedChunk s3Crcs localCrcs i)

def patchInPlace (fuel maxParallelChunks s3Size : Nat) (localSize : Int) (s3Crcs localCrcs : List UInt32) :
    Exec Bool := do
  if ← ask .openInPlace then
    let todo := chunksToDownload s3Crcs localCrcs
    let numWorkers := min maxParallelChunks todo.length
    let p ← patchLoop todo s3Size fuel { workers := List.replicate numWorkers .top }
    finishPatch s3Size localSize p
  else return false

/-- The local file's size, 0 where it is absent and -1 where it could not be read, and its checksums, empty where there
are none; `none` is the exception of `fs::exists`. -/
def localChunks : Exec (Option (Int × List UInt32)) := do
  match ← ask .exists_ with
  | .ok false => return some (0, [])
  | .ok true =>
    match ← ask .fileSize with
    | .ok localSize =>
      if localSize = 0 then return some (0, [])
      match ← ask .fileChunkCRC32s with
      | .ok localCrcs => return some (localSize, localCrcs)
      | _ => return some (localSize, [])
    | _ => return some (-1, [])
  | _ => return none

/-- What to do once both sides' checksums are known. -/
def diffDownloadDecide (fuel maxParallelChunks : Nat) (base relative : Str) (s3Size : Nat) (localSize : Int)
    (s3Crcs localCrcs : List UInt32) : Exec Bool := do
  let unchanged := unchangedChunks s3Crcs localCrcs
  if unchanged = s3Crcs.length ∧ localSize = (s3Size : Int) then return true
  if localCrcs = [] ∨ unchanged = 0 then
    match ← downloadSmallFile fuel base relative s3Size with
    | .ok _ => return true
    | _ => return false
  else patchInPlace fuel maxParallelChunks s3Size localSize s3Crcs localCrcs

def diffDownloadFile (fuel maxParallelChunks : Nat) (base relative : Str) (s3Size : Int) : Exec Bool := do
  if s3Size < 0 then return false
  if !targetAccepted base relative then return false
  if !(← ask .resolvesWithinBase) then return false
  if s3Size = 0 then ask .createEmpty
  else
    match ← ask (.sourceObjectCRC32s s3Size.toNat) with
    | .threw => return false
    | .failed =>
      match ← downloadSmallFile fuel base relative s3Size with
      | .ok _ => return true
      | _ => return false
    | .ok s3Crcs =>
      match ← localChunks with
      | none => return false
      | some (localSize, localCrcs) =>
        diffDownloadDecide fuel maxParallelChunks base relative s3Size.toNat localSize s3Crcs localCrcs

end Mito
