import MitoSync.Registry
import MitoSync.RangedRead
import MitoSync.Lib.Ending
/-!
# ChunkCrcs — the implementations of `GetChunkCRC32s`

`compute_crc32_chunks_boost_asio` reads the chunks of a file; the S3 client downloads an object of one chunk and asks
the server for the checksums of a larger one, by one of two fan-outs.  Each is a crew (`Lib.Crew`): the caller posts a
task a chunk and waits, and every load, every store and every request is one step among those of the others.
`AnswersChunks` is the contract they share.
-/
namespace Mito

open Lib Prog

/-! ## The contract -/

/-- zlib-ng as `crc32_hw.h` tells of it: a checksum taken a piece at a time, from 0 on, is that of the whole. -/
class ZlibNg where
  /-- `zng_crc32_z` -/
  crc32Z : UInt32 → Bytes → UInt32
  crc32Z_nil : crc32Z 0 [] = 0
  crc32Z_append : ∀ a b, crc32Z (crc32Z 0 a) b = crc32Z 0 (a ++ b)

def crc32HwUpdate [ZlibNg] (crc : UInt32) (data : Bytes) : UInt32 := ZlibNg.crc32Z crc data

def crc32Hw [ZlibNg] (data : Bytes) : UInt32 := ZlibNg.crc32Z 0 data

/-- The chunks a request is for: all of the content's where it names none. -/
def requestedIds (numChunks : Int) (chunkIds : List Int) : List Int :=
  if chunkIds.isEmpty then (List.range numChunks.toNat).map Int.ofNat else chunkIds

/-- The checksum of a chunk of a content. -/
def chunkCrc [ZlibNg] (content : Bytes) (chunkSize : Nat) (id : Int) : UInt32 :=
  crc32Hw (chunk chunkSize content id.toNat)

/-- **What `GetChunkCRC32s` may return**: nothing, or the checksum of every requested chunk in the order of the request,
duplicates included, each of them a chunk the content has. -/
inductive AnswersChunks [ZlibNg] (content : Bytes) (chunkSize : Nat) (chunkIds : List Int) : List UInt32 → Prop
  | failed : AnswersChunks content chunkSize chunkIds []
  | answered (h : ∀ id ∈ chunkIds, 0 ≤ id ∧ id < numChunks chunkSize content.length) :
      AnswersChunks content chunkSize chunkIds
        ((requestedIds (numChunks chunkSize content.length) chunkIds).map (chunkCrc content chunkSize))

/-! ## `compute_crc32_chunks_boost_asio` -/

inductive FileCall
  | openFile
  /-- `lseek(fd, 0, SEEK_END)` -/
  | seekEnd
  | pread (offset : Int) (length : Nat)
  /-- `chunk_failed.exchange(true)` -/
  | failChunk
  | storeResult (idx : Nat) (crc : UInt32)
  | chunkFailed
  /-- the vector of results, of this length -/
  | results (n : Nat)

/-- A `pread` that fails, or finds nothing there, answers with no bytes. -/
abbrev FileResp : FileCall → Type
  | .openFile | .chunkFailed => Bool
  | .seekEnd => Int
  | .pread _ _ => Bytes
  | .failChunk | .storeResult _ _ => Unit
  | .results _ => List UInt32

/-- What the tasks share: a vector of zeros, and the flag. -/
structure FileCrcs where
  results : Nat → UInt32 := fun _ => 0
  chunkFailed : Bool := false

/-- A chunk to compute, with what the lambda captures. -/
structure FileTask where
  filesize : Int
  chunkSize : Int
  numChunks : Int
  idx : Nat
  chunkId : Int

abbrev FileProg (α : Type) : Type := Prog FileCall FileResp α

abbrev FilePoster (α : Type) : Type := Poster FileCall FileTask FileResp α

abbrev askFile (c : FileCall) : FileProg (FileResp c) := Prog.req c

abbrev posterFile (c : FileCall) : FilePoster (FileResp c) := Poster.ask c

def kBlock : Nat := 256 * 1024

/-- The inner loop: the bytes of a block, read on until there are `want` of them. -/
def readBlock (offset : Int) (want : Nat) (buffer : Bytes) : FileProg (Option Bytes) :=
  if buffer.length < want then do
    let bytes ← askFile (.pread (offset + buffer.length) (want - buffer.length))
    if bytes = [] then return none
    else readBlock offset want (buffer ++ bytes)
  else return some buffer
termination_by want - buffer.length
decreasing_by
  rename_i hb
  have hpos := List.length_pos_of_ne_nil hb
  rw [List.length_append]
  omega

/-- The outer loop: the checksum of the bytes from `offset` on, a block at a time. -/
def crcBlocks [ZlibNg] (offset : Int) (length done : Nat) (crc : UInt32) : FileProg (Option UInt32) :=
  if done < length then do
    match ← readBlock (offset + done) (min kBlock (length - done)) [] with
    | none => return none
    | some buffer => crcBlocks offset length (done + min kBlock (length - done)) (crc32HwUpdate crc buffer)
  else return some crc
termination_by length - done
decreasing_by
  have : 0 < kBlock := by decide
  omega

/-- Where a chunk starts and where it would end, `none` where an `int64_t` overflows. -/
def chunkSpan (chunkId chunkSize : Int) : Option (Int × Int) := do
  let offset ← int64 (chunkId * chunkSize)
  let past ← int64 (offset + chunkSize)
  return (offset, past)

/-- `compute_chunk_crc` -/
def computeChunkCrc [ZlibNg] (t : FileTask) : FileProg Unit :=
  if t.chunkId < 0 ∨ t.chunkId ≥ t.numChunks then askFile .failChunk
  else
    match chunkSpan t.chunkId t.chunkSize with
    | none => .halt
    | some (offset, past) =>
      let length := if past ≤ t.filesize then t.chunkSize else t.filesize - offset
      if length ≤ 0 then askFile .failChunk
      else do
        match ← crcBlocks offset length.toNat 0 0 with
        | none => askFile .failChunk
        | some crc => askFile (.storeResult t.idx crc)

/-- The caller computes the chunks itself, one after the other. -/
def computeInTurn : List FileTask → FilePoster Unit
  | [] => return ()
  | t :: ts => do
    Poster.post t
    Poster.join
    computeInTurn ts

def postEach {C T : Type} {R : C → Type} : List T → Poster C T R Unit
  | [] => return ()
  | t :: ts => do
    Poster.post t
    postEach ts

/-- The chunk count, `none` where an `int64_t` overflows. -/
def fileChunkCount (filesize chunkSize : Int) : Option Int := do
  let sum ← int64 (filesize + chunkSize)
  let rounded ← int64 (sum - 1)
  return rounded.tdiv chunkSize

def fileTasks (filesize chunkSize numChunks : Int) (chunkIds : List Int) : List FileTask :=
  (requestedIds numChunks chunkIds).zipIdx.map (fun p => ⟨filesize, chunkSize, numChunks, p.2, p.1⟩)

def computeCrc32ChunksBoostAsio (chunkIds : List Int) (chunkSize : Int) : FilePoster (List UInt32) := do
  if !(← posterFile .openFile) then return []
  let filesize ← posterFile .seekEnd
  if filesize ≤ 0 then return []
  match fileChunkCount filesize (chunkSizeOf chunkSize) with
  | none => .halt
  | some numChunks =>
    let tasks := fileTasks filesize (chunkSizeOf chunkSize) numChunks chunkIds
    if tasks.length ≤ 4 then computeInTurn tasks
    else do
      postEach tasks
      Poster.join
    if ← posterFile .chunkFailed then return []
    posterFile (.results tasks.length)

/-! ## The fan-outs -/

/-- What `UploadPartCopy` answers `ProcessSingleChunk`: the checksum's text, an error that names a missing checksum,
one that is retried or not, or an exception. -/
inductive PartCopyAns
  | success (b64Crc32 : Str) | missingChecksum | error (retryable : Bool) | exception

inductive CopyCall
  | shutdownRequested
  | shouldAbort
  | setShouldAbort
  | uploadPartCopy (partNumber startByte endByte : Int)
  | addError
  | errors
  | storeCrc (chunkId : Int) (crc : UInt32)
  | addSucceeded
  | succeeded
  | addCompleted
  /-- the slots of these chunks -/
  | crcs (ids : List Int)
  /-- did the wait for a future time out? -/
  | waitTimedOut
  | createMultipartUpload
  | abortMultipartUpload
  | getObjectRange (start stop : Int)

abbrev CopyResp : CopyCall → Type
  | .shutdownRequested | .shouldAbort | .waitTimedOut | .createMultipartUpload => Bool
  | .setShouldAbort | .addError | .storeCrc _ _ | .addSucceeded | .addCompleted | .abortMultipartUpload => Unit
  | .uploadPartCopy _ _ _ => PartCopyAns
  | .errors | .succeeded => Nat
  | .crcs _ => List UInt32
  | .getObjectRange _ _ => Bytes

/-- What the chunks of a fan-out share; a slot no chunk has written is zero. -/
structure CopyCrcs where
  crc32Results : Int → UInt32 := fun _ => 0
  errors : Nat := 0
  succeeded : Nat := 0
  completed : Nat := 0
  shouldAbort : Bool := false

structure S3MultipartCopy where
  filesize : Int
  chunkSize : Int
  maxRetries : Int

structure CopyTask where
  copier : S3MultipartCopy
  chunkId : Int

abbrev CopyProg (α : Type) : Type := Prog CopyCall CopyResp α

abbrev CopyPoster (α : Type) : Type := Poster CopyCall CopyTask CopyResp α

abbrev askCopy (c : CopyCall) : CopyProg (CopyResp c) := Prog.req c

abbrev posterCopy (c : CopyCall) : CopyPoster (CopyResp c) := Poster.ask c

/-- The four bytes of a decoded checksum, most significant first; any other length is none. -/
def checksumOfBytes : Bytes → Option UInt32
  | [b₀, b₁, b₂, b₃] => some ((b₀.toUInt32 <<< 24) ||| (b₁.toUInt32 <<< 16) ||| (b₂.toUInt32 <<< 8) ||| b₃.toUInt32)
  | _ => none

/-- The part number and the inclusive range of a chunk, `none` where an `int64_t` overflows; the
`static_cast<int>` wraps. -/
def S3MultipartCopy.copyRequest (m : S3MultipartCopy) (chunkId : Int) : Option (Int × Int × Int) := do
  let start ← int64 (chunkId * m.chunkSize)
  let past ← int64 (start + m.chunkSize)
  let last ← int64 (past - 1)
  let fileLast ← int64 (m.filesize - 1)
  let next ← int64 (chunkId + 1)
  return (next.bmod (2 ^ 32), start, min last fileLast)

section Copy

variable (base64Decode : Str → Bytes)

/-- `should_abort.load() || IsShutdownRequested()` in a task. -/
def stopRequested : CopyProg Bool := do
  if ← askCopy .shouldAbort then return true
  askCopy .shutdownRequested

def failCopy : CopyProg (Option UInt32) := do
  askCopy .addError
  return none

/-- The loop of `ProcessSingleChunk`, with this many attempts to go. -/
def S3MultipartCopy.attemptChunk (m : S3MultipartCopy) (chunkId : Int) : (left : Nat) → CopyProg (Option UInt32)
  | 0 => return none
  | left + 1 => do
    if ← stopRequested then return none
    match m.copyRequest chunkId with
    | none => .halt
    | some (partNumber, start, last) =>
      match ← askCopy (.uploadPartCopy partNumber start last) with
      | .success b64Crc32 =>
        match checksumOfBytes (base64Decode b64Crc32) with
        | some crc => return some crc
        | none => failCopy
      | .missingChecksum => failCopy
      | .error retryable => if left ≠ 0 ∧ retryable = true then m.attemptChunk chunkId left else failCopy
      | .exception => if left ≠ 0 then m.attemptChunk chunkId left else failCopy

def S3MultipartCopy.processSingleChunk (m : S3MultipartCopy) (chunkId : Int) : CopyProg (Option UInt32) := do
  if ← stopRequested then return none
  m.attemptChunk base64Decode chunkId (m.maxRetries + 1).toNat

/-- `process_chunk` -/
def processChunk (t : CopyTask) : CopyProg Unit := do
  match ← t.copier.processSingleChunk base64Decode t.chunkId with
  | some crc =>
    askCopy (.storeCrc t.chunkId crc)
    askCopy .addSucceeded
  | none => pure ()
  if (← askCopy .errors) > maxErrorsBeforeAbort then askCopy .setShouldAbort
  askCopy .addCompleted

/-- The same test in the function that posts the chunks. -/
def posterStops : CopyPoster Bool := do
  if ← posterCopy .shouldAbort then return true
  posterCopy .shutdownRequested

/-- The sliding window of the thread pool: a chunk waits for a slot and is posted, until the fan-out stops. -/
def postWindow : List CopyTask → CopyPoster Unit
  | [] => return ()
  | t :: ts => do
    if ← posterStops then return ()
    -- the wait for a slot, which a stop ends as well
    if ← posterStops then return ()
    Poster.post t
    postWindow ts

/-- The check before a wait: one error too many, or a shutdown, tells the chunks to stop. -/
def signalAbort : CopyPoster Bool := do
  if (← posterCopy .errors) > maxErrorsBeforeAbort then
    posterCopy .setShouldAbort
    return true
  if ← posterCopy .shutdownRequested then
    posterCopy .setShouldAbort
    return true
  return false

/-- The waits for the futures: whether one of them timed out. -/
def waitFutures : List CopyTask → (abortTriggered : Bool) → CopyPoster Bool
  | [], _ => return false
  | _ :: ts, abortTriggered => do
    let abortTriggered ← if abortTriggered then pure true else signalAbort
    if ← posterCopy .waitTimedOut then
      posterCopy .addError
      let _ ← waitFutures ts abortTriggered
      return true
    waitFutures ts abortTriggered

/-- The last part of both fan-outs. -/
def finishFanOut (numChunks : Int) (ids : List CopyTask) (chunkIds : List Int) : CopyPoster (List UInt32) := do
  if (← posterCopy .errors) > 0 then return []
  if (← posterCopy .succeeded) ≠ ids.length then return []
  posterCopy (.crcs (requestedIds numChunks chunkIds))

namespace S3MultipartCopy

variable (m : S3MultipartCopy)

def numChunks : Int := chunkCountForSize m.filesize m.chunkSize

/-- One task for each distinct chunk. -/
def tasks (chunkIds : List Int) : List CopyTask := (fanOutIds m.numChunks chunkIds).map (fun id => ⟨m, id⟩)

/-- Where no wait timed out every chunk has ended; where one did, the chunks may still run when the errors are read. -/
def parallelUploadPartCopyRequests (chunkIds : List Int) : CopyPoster (List UInt32) := do
  if !chunkRequestIsValid chunkIds m.filesize m.numChunks then return []
  postEach (m.tasks chunkIds)
  if !(← waitFutures (m.tasks chunkIds) false) then Poster.join
  finishFanOut m.numChunks (m.tasks chunkIds) chunkIds

def parallelUploadPartCopyRequestsThreadPool (chunkIds : List Int) : CopyPoster (List UInt32) := do
  if !chunkRequestIsValid chunkIds m.filesize m.numChunks then return []
  postWindow (m.tasks chunkIds)
  Poster.join
  finishFanOut m.numChunks (m.tasks chunkIds) chunkIds

def getHashes (chunkIds : List Int) (numThreads : Int) : CopyPoster (List UInt32) := do
  if !chunkRequestIsValid chunkIds m.filesize m.numChunks then return []
  if !(← posterCopy .createMultipartUpload) then return []
  let crc32Results ← if numThreads > 0 then m.parallelUploadPartCopyRequestsThreadPool chunkIds
    else m.parallelUploadPartCopyRequests chunkIds
  posterCopy .abortMultipartUpload
  return crc32Results

end S3MultipartCopy

/-- The count `GetChunkCRC32s` checks the ids against. -/
def requestChunkCount (fileSize chunkSize : Int) : Int :=
  if fileSize > 0 then fileSize.tdiv chunkSize + (if fileSize.tmod chunkSize ≠ 0 then 1 else 0) else 0

/-- `S3ClientImpl::GetChunkCRC32s` -/
def getChunkCRC32s [ZlibNg] (fileSize : Int) (chunkIds : List Int) (numThreads chunkSize maxRetries : Int) :
    CopyPoster (List UInt32) := do
  if chunkIds.any (fun id => id < 0 || id ≥ requestChunkCount fileSize (chunkSizeOf chunkSize)) then return []
  if fileSize ≤ chunkSizeOf chunkSize then
    if fileSize ≤ 0 then return []
    let data ← posterCopy (.getObjectRange 0 (fileSize - 1))
    if data = [] then return []
    if (data.length : Int) ≠ fileSize then return []
    if chunkIds.isEmpty then return [crc32Hw data]
    return List.replicate chunkIds.length (crc32Hw data)
  else (⟨fileSize, chunkSizeOf chunkSize, maxRetries⟩ : S3MultipartCopy).getHashes chunkIds numThreads

/-! ## What a request may answer -/

/-- The file's bytes, of which a read answers some from where it asks, or none. -/
def fileExec (content : Bytes) : (c : FileCall) → FileCrcs → FileResp c → FileCrcs → Prop
  | .openFile, w, _, w' => w' = w
  | .seekEnd, w, filesize, w' => (filesize = content.length ∨ filesize < 0) ∧ w' = w
  | .pread offset length, w, bytes, w' => bytes.length ≤ length ∧ bytes <+: content.drop offset.toNat ∧ w' = w
  | .failChunk, w, _, w' => w' = { w with chunkFailed := true }
  | .storeResult idx crc, w, _, w' => w' = { w with results := Function.update w.results idx crc }
  | .chunkFailed, w, failed, w' => failed = w.chunkFailed ∧ w' = w
  | .results n, w, crcs, w' => crcs = (List.range n).map w.results ∧ w' = w

/-- A checksum that comes back and decodes to four bytes is that of the range, most significant byte first. -/
def PartCopyAns.Truthful [ZlibNg] (object : Bytes) (startByte endByte : Int) : PartCopyAns → Prop
  | .success b64Crc32 => ∃ data, IsRange object startByte endByte data ∧
      ∀ b₀ b₁ b₂ b₃ : UInt8, base64Decode b64Crc32 = [b₀, b₁, b₂, b₃] →
        b₀.toNat * 2 ^ 24 + b₁.toNat * 2 ^ 16 + b₂.toNat * 2 ^ 8 + b₃.toNat = (crc32Hw data).toNat
  | .missingChecksum => True
  | .error _ => True
  | .exception => True

/-- What `GetObjectRange` returns of an object, whatever its requests are answered. -/
def RangeRead (object : Bytes) (start stop : Int) (data : Bytes) : Prop :=
  data = [] ∨ ∃ (client : RangeClient) (heap : Heap) (answer : Nat → GetOutcome),
    (∀ attempt, (answer attempt).Truthful object start.toNat) ∧
    getObjectRange client heap start stop answer = some data

def copyExec [ZlibNg] (object : Bytes) : (c : CopyCall) → CopyCrcs → CopyResp c → CopyCrcs → Prop
  | .shutdownRequested, w, _, w' => w' = w
  | .shouldAbort, w, abort, w' => abort = w.shouldAbort ∧ w' = w
  | .setShouldAbort, w, _, w' => w' = { w with shouldAbort := true }
  | .uploadPartCopy _ startByte endByte, w, ans, w' => ans.Truthful base64Decode object startByte endByte ∧ w' = w
  | .addError, w, _, w' => w' = { w with errors := w.errors + 1 }
  | .errors, w, n, w' => n = w.errors ∧ w' = w
  | .storeCrc chunkId crc, w, _, w' => w' = { w with crc32Results := Function.update w.crc32Results chunkId crc }
  | .addSucceeded, w, _, w' => w' = { w with succeeded := w.succeeded + 1 }
  | .succeeded, w, n, w' => n = w.succeeded ∧ w' = w
  | .addCompleted, w, _, w' => w' = { w with completed := w.completed + 1 }
  | .crcs ids, w, crcs, w' => crcs = ids.map w.crc32Results ∧ w' = w
  | .waitTimedOut, w, _, w' => w' = w
  | .createMultipartUpload, w, _, w' => w' = w
  | .abortMultipartUpload, w, _, w' => w' = w
  | .getObjectRange start stop, w, data, w' => RangeRead object start stop data ∧ w' = w

end Copy

end Mito
