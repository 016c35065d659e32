import MitoSync.Slot
/-!
# Upload — the executors that write objects

`upload_from_data`, `upload_small_file`, `delete_s3_object`, `copy_s3_object` with the client's `CopyObject`, and
`diff_upload_file`.  Those without a handler of their own return the exception of a request to their caller; counters
and logging are left out.
-/
namespace Mito

open Lib Prog

/-- The loop every request of an executor is retried in: the flag is read before each attempt. -/
def retry {α : Type} (request : Exec (Ans α)) : Nat → Exec (Ans α)
  | 0 => return .failed
  | attempts + 1 => do
    if ← ask .cancelled then return .failed
    match ← request with
    | .ok a => return .ok a
    | .threw => return .threw
    | .failed => retry request attempts

def uploadFromData (data : Bytes) : Exec (Ans Unit) := retry (ask (.putObject data)) (maxRetries + 1)

/-- The client's `PutObjectFromFile`, which catches what it throws. -/
def putObjectFromFile : Exec (Ans Unit) := do
  match ← ask .sourceSize with
  | .ok fileSize =>
    if fileSize > kMaxSinglePutBytes then return .failed
    match ← ask .putSource with
    | .ok _ => return .ok ()
    | _ => return .failed
  | _ => return .failed

def uploadSmallFile : Exec (Ans Unit) := retry putObjectFromFile (maxRetries + 1)

def deleteS3Object : Exec (Ans Unit) := retry (ask .deleteObject) (maxRetries + 1)

/-! ## Multipart uploads -/

/-- The parts of indices `i`, `i + 1`, …, `n` of them, numbered from 1; `none` where one of them failed. -/
def sendParts (part : Nat → Exec (Ans Nat)) : Nat → Nat → Exec (Option (List (Nat × Nat)))
  | _, 0 => return some []
  | i, n + 1 => do
    match ← part i with
    | .ok etag =>
      match ← sendParts part (i + 1) n with
      | some ps => return some ((i + 1, etag) :: ps)
      | none => return none
    | _ => return none

/-- Every failure after the create aborts. -/
def completeOrAbort (id : Nat) : Option (List (Nat × Nat)) → Exec Bool
  | some parts => do
    match ← ask (.completeMultipartUpload id parts) with
    | .ok _ => return true
    | _ =>
      let _ ← ask (.abortMultipartUpload id)
      return false
  | none => do
    let _ ← ask (.abortMultipartUpload id)
    return false

/-! ## Server-side copy -/

def multipartPartSize : Nat := 500 * 1024 * 1024

/-- One part of `CopyObjectMultipart`, with the cancellation check before it. -/
def copyPart (clientRetries id sourceSize partSize : Nat) (i : Nat) : Exec (Ans Nat) := do
  if ← ask .cancelled then return .failed
  let startByte := i * partSize
  let endByte := min (startByte + partSize - 1) (sourceSize - 1)
  retry (ask (.uploadPartCopyFromSource id (i + 1) startByte endByte)) (clientRetries + 1)

def copyObjectMultipart (clientRetries sourceSize partSize : Nat) : Exec (Ans Unit) := do
  match ← ask .createMultipartUpload with
  | .ok id =>
    let parts ← sendParts (copyPart clientRetries id sourceSize partSize) 0 (numChunks partSize sourceSize)
    if ← completeOrAbort id parts then return .ok () else return .failed
  | _ => return .failed

/-- The client's `CopyObject` of an object of known size. -/
def copyObject (clientRetries sourceSize : Nat) : Exec (Ans Unit) := do
  if ← ask .cancelled then return .failed
  if sourceSize ≤ kMaxSinglePutBytes then ask .copyObject
  else copyObjectMultipart clientRetries sourceSize multipartPartSize

def copyS3Object (clientRetries fileSize : Nat) : Exec (Ans Unit) :=
  retry (copyObject clientRetries fileSize) (maxRetries + 1)

/-! ## Differential upload -/

def uploadPartWithRetry (id partNumber : Nat) (data : Bytes) (crc : UInt32) : Exec (Ans Nat) :=
  retry (ask (.uploadPart id partNumber data crc)) (maxRetries + 1)

def uploadPartCopyWithRetry (id partNumber startByte endByte : Nat) : Exec (Ans Nat) :=
  retry (ask (.uploadPartCopy id partNumber startByte endByte)) (maxRetries + 1)

/-- `chunk_different`, negated: the chunks both sides have with one checksum. -/
def unchangedChunk (a b : List UInt32) (i : Nat) : Bool :=
  match a[i]?, b[i]? with
  | some x, some y => x == y
  | _, _ => false

def unchangedChunks (a b : List UInt32) : Nat := ((List.range a.length).filter (unchangedChunk a b)).length

/-- The part of chunk `i`: copied from the object where the chunk is unchanged, else read and sent. -/
def diffUploadPart (id localSize : Nat) (localCrcs s3Crcs : List UInt32) (i : Nat) : Exec (Ans Nat) := do
  let chunkStart := i * defaultChunkSize
  let chunkEnd := min (chunkStart + defaultChunkSize) localSize
  if unchangedChunk localCrcs s3Crcs i then uploadPartCopyWithRetry id (i + 1) chunkStart (chunkEnd - 1)
  else
    match ← ask (.sourceRange chunkStart (chunkEnd - chunkStart)) with
    | .ok data => uploadPartWithRetry id (i + 1) data (localCrcs.getD i 0)
    | _ => return .failed

/-- From the decision to reuse chunks on. -/
def diffUploadMultipart (localSize : Nat) (localCrcs s3Crcs : List UInt32) : Exec Bool := do
  match ← ask .createMultipartUpload with
  | .ok id =>
    if ← ask .openSourceStream then
      let parts ← sendParts (diffUploadPart id localSize localCrcs s3Crcs) 0 localCrcs.length
      completeOrAbort id parts
    else completeOrAbort id none
  | _ => return false

/-- The object's size, `-1` where it is absent or the HEAD failed, and its checksums, empty where there are none;
`none` is an exception. -/
def remoteChunks : Exec (Option (Int × List UInt32)) := do
  match ← ask .getObjectSize with
  | .threw => return none
  | .failed => return some (-1, [])
  | .ok s3Size =>
    if s3Size = 0 then return some (0, [])
    match ← ask (.getChunkCRC32s s3Size) with
    | .threw => return none
    | .failed => return some (s3Size, [])
    | .ok s3Crcs => return some (s3Size, s3Crcs)

/-- What to do once both sides' sizes and checksums are known. -/
def diffUploadDecide (localSize : Nat) (localCrcs : List UInt32) (s3Size : Int) (s3Crcs : List UInt32) :
    Exec Bool := do
  let unchanged := unchangedChunks localCrcs s3Crcs
  if unchanged = localCrcs.length ∧ (localSize : Int) = s3Size then return true
  if (s3Size ≤ 0 ∨ s3Crcs = [] ∨ unchanged = 0) ∧ localSize ≤ kMaxSinglePutBytes then
    match ← uploadSmallFile with
    | .ok _ => return true
    | _ => return false
  else if localCrcs.length > kMaxMultipartParts then return false
  else diffUploadMultipart localSize localCrcs s3Crcs

def diffUploadFile : Exec Bool := do
  match ← ask .sourceSize with
  | .ok localSize =>
    if localSize = 0 then return false
    match ← ask .sourceChunkCRC32s with
    | .ok localCrcs =>
      match ← remoteChunks with
      | some (s3Size, s3Crcs) => diffUploadDecide localSize localCrcs s3Size s3Crcs
      | none => return false
    | _ => return false
  | _ => return false

end Mito
