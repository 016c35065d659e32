import MitoSync.S3Listing
import MitoSync.Lib.Crew
import Mathlib.Data.BitVec
/-!
# Rm — `run_rm`

What `rm` is to delete is found out first: an object, or a prefix that is then listed with its folder markers.  The
keys of a prefix are deleted by tasks on a thread pool, in batches or one by one, and the tasks add to the counters the
result is made of.  How many tasks may run at once only delays the posting, so a task may be posted, and run, at any
time.  The world keeps a log of what S3 answered, which no code reads.
-/
namespace Mito

open Lib Prog

inductive S3ObjectPresence
  | exists | notFound | unknown
  deriving DecidableEq

/-- `S3ListObjectsResult`, as far as `rm` reads it. -/
structure S3ListObjectsResult where
  objects : List (Str × SyncEntryInfo) := []
  commonPrefixes : List Str := []
  isTruncated : Bool := false
  success : Bool := false
  errorMessage : Str := []
  deriving DecidableEq

structure RmConfig where
  bucket : Str := []
  prefix_ : Str := []
  recursive : Bool := false
  force : Bool := false
  batch : Bool := false
  maxRetries : Int := 5

/-- Sizes are added up in a `size_t`. -/
abbrev Bytes64 := BitVec 64

structure RmResult where
  success : Bool := false
  objectsDeleted : Nat := 0
  objectsFailed : Nat := 0
  bytesFreed : Bytes64 := 0
  failedKeys : List Str := []
  errorMessage : Str := []
  warnings : List Str := []
  deriving DecidableEq

def addSizes (bytes : Bytes64) (sizes : List Int) : Bytes64 := bytes + (sizes.map (BitVec.ofInt 64)).sum

/-! ## The requests -/

/-- What `DeleteObjects` reports: some of the keys it was given, none twice. -/
structure FailedKeys (keys : List Str) where
  failed : List Str
  nodup : failed.Nodup
  subset : ∀ k ∈ failed, k ∈ keys

/-- The counters of a run, as they are loaded at its end. -/
structure RmCounts where
  deletedCount : Nat
  failedCount : Nat
  bytesFreed : Bytes64
  allFailed : List Str

inductive RmCall
  | cancelled
  | getObjectSize (key : Str)
  | checkObjectPresence (key : Str)
  /-- `ListObjects` with the delimiter `/`, asked for one key -/
  | listObjects (prefix_ : Str)
  /-- `parallel_enumerate_s3_prefix` with the folder markers -/
  | enumerate (prefix_ : Str)
  | deleteObject (key : Str)
  | deleteObjects (keys : List Str)
  | addDeleted (n : Nat)
  | addBytes (sizes : List Int)
  | addFailed (n : Nat)
  | insertFailed (keys : List Str)
  | counts

abbrev RmResp : RmCall → Type
  | .cancelled => Bool
  | .getObjectSize _ => Int
  | .checkObjectPresence _ => S3ObjectPresence
  | .listObjects _ => S3ListObjectsResult
  | .enumerate _ => Listing
  | .deleteObject _ => Bool
  | .deleteObjects keys => FailedKeys keys
  | .addDeleted _ | .addBytes _ | .addFailed _ | .insertFailed _ => Unit
  | .counts => RmCounts

abbrev RmWorker (α : Type) : Type := Prog RmCall RmResp α

abbrev rmAsk (c : RmCall) : RmWorker (RmResp c) := Prog.req c

/-! ## `process_batch` -/

/-- `attempt <= config.max_retries`, counted from 0. -/
def RmConfig.tries (config : RmConfig) : Nat := (config.maxRetries + 1).toNat

/-- Keys that are given up. -/
def bookFailed (keys : List Str) : RmWorker Unit := do
  rmAsk (.addFailed keys.length)
  rmAsk (.insertFailed keys)

/-- The sizes of the keys an attempt deleted. -/
def deletedSizes (items : List (Str × Int)) (toDelete failed : List Str) : List Int :=
  (items.filter (fun i => decide (i.1 ∉ failed ∧ i.1 ∈ toDelete))).map Prod.snd

/-- The attempts at a batch: what is left of it, and whether one of them deleted nothing. -/
def deleteAttempts (items : List (Str × Int)) : Nat → List Str → Bool → RmWorker (List Str × Bool)
  | 0, toDelete, hadTotalFailure => return (toDelete, hadTotalFailure)
  | tries + 1, toDelete, hadTotalFailure => do
    if toDelete.isEmpty then return (toDelete, hadTotalFailure)
    let r ← rmAsk (.deleteObjects toDelete)
    rmAsk (.addDeleted (toDelete.length - r.failed.length))
    rmAsk (.addBytes (deletedSizes items toDelete r.failed))
    deleteAttempts items tries r.failed (hadTotalFailure || r.failed.length == toDelete.length)

def maxConsecutiveUnknown : Nat := 3

/-- What the verification of a batch knows so far. -/
structure Verification where
  stillUnverified : List Str := []
  confirmedDeleted : Nat := 0
  confirmedSizes : List Int := []
  consecutiveUnknown : Nat := 0
  gaveUp : Bool := false

namespace Verification

def leave (v : Verification) (key : Str) : Verification := { v with stillUnverified := v.stillUnverified ++ [key] }

/-- `size_of`, in which a later size of a key replaces an earlier one; only sizes above 0 are counted. -/
def confirm (v : Verification) (items : List (Str × Int)) (key : Str) : Verification :=
  { v with
    confirmedDeleted := v.confirmedDeleted + 1
    confirmedSizes := v.confirmedSizes ++ ((items.reverse.lookup key).filter (fun size => decide (size > 0))).toList
    consecutiveUnknown := 0 }

def doubt (v : Verification) (key : Str) : Verification :=
  { v.leave key with
    consecutiveUnknown := v.consecutiveUnknown + 1
    gaveUp := v.gaveUp || decide (v.consecutiveUnknown + 1 ≥ maxConsecutiveUnknown) }

end Verification

def verifyKeys (items : List (Str × Int)) : List Str → Verification → RmWorker Verification
  | [], v => return v
  | k :: keys, v => do
    if v.gaveUp then verifyKeys items keys (v.leave k)
    else if ← rmAsk .cancelled then verifyKeys items keys (v.leave k)
    else
      match ← rmAsk (.checkObjectPresence k) with
      | .notFound => verifyKeys items keys (v.confirm items k)
      | .exists => verifyKeys items keys (v.leave k)
      | .unknown => verifyKeys items keys (v.doubt k)

def creditVerified (v : Verification) : RmWorker Unit :=
  if v.confirmedDeleted > 0 then do
    rmAsk (.addDeleted v.confirmedDeleted)
    rmAsk (.addBytes v.confirmedSizes)
  else return ()

/-- The keys of a batch that stay failed: verified key by key where an attempt deleted nothing. -/
def verifyBatch (items : List (Str × Int)) (toDelete : List Str) (hadTotalFailure : Bool) : RmWorker (List Str) := do
  if toDelete.isEmpty || !hadTotalFailure then return toDelete
  let v ← verifyKeys items toDelete {}
  creditVerified v
  return v.stillUnverified

def processBatch (config : RmConfig) (items : List (Str × Int)) : RmWorker Unit := do
  if ← rmAsk .cancelled then bookFailed (items.map Prod.fst)
  else
    let (toDelete, hadTotalFailure) ← deleteAttempts items config.tries (items.map Prod.fst) false
    let toDelete ← verifyBatch items toDelete hadTotalFailure
    if toDelete.isEmpty then return ()
    bookFailed toDelete

/-! ## The task of one key -/

def countDeleted (size : Int) : RmWorker Unit := do
  rmAsk (.addDeleted 1)
  rmAsk (.addBytes [size])

/-- The attempts at a key, `none` where they are cancelled. -/
def tryDelete (key : Str) : Nat → RmWorker (Option Bool)
  | 0 => return some false
  | tries + 1 => do
    if ← rmAsk .cancelled then return none
    if ← rmAsk (.deleteObject key) then return some true
    tryDelete key tries

def deleteOne (config : RmConfig) (key : Str) (size : Int) : RmWorker Unit := do
  if ← rmAsk .cancelled then bookFailed [key]
  else
    match ← tryDelete key config.tries with
    | none => bookFailed [key]
    | some true => countDeleted size
    | some false =>
      match ← rmAsk (.checkObjectPresence key) with
      | .notFound => countDeleted size
      | .exists | .unknown => bookFailed [key]

inductive RmTask
  | batch (items : List (Str × Int))
  | single (key : Str) (size : Int)

def RmTask.keys : RmTask → List Str
  | .batch items => items.map Prod.fst
  | .single key _ => [key]

def runTask (config : RmConfig) : RmTask → RmWorker Unit
  | .batch items => processBatch config items
  | .single key size => deleteOne config key size

/-! ## The deletion of a listing -/

abbrev RmPoster (α : Type) : Type := Poster RmCall RmTask RmResp α

abbrev posterAsk (c : RmCall) : RmPoster (RmResp c) := Poster.ask c

def batchSize : Nat := 500

/-- The batches, up to where the run was cancelled. -/
def buildBatches (effectivePrefix : Str) : List DirectoryEntry → List (Str × Int) → List (List (Str × Int)) →
    RmPoster (List (List (Str × Int)))
  | [], batch, batches => return if batch.isEmpty then batches else batches ++ [batch]
  | entry :: entries, batch, batches => do
    if ← posterAsk .cancelled then return if batch.isEmpty then batches else batches ++ [batch]
    let batch := batch ++ [(effectivePrefix ++ entry.relativePath, entry.size)]
    if batch.length ≥ batchSize then buildBatches effectivePrefix entries [] (batches ++ [batch])
    else buildBatches effectivePrefix entries batch batches

def postAll : List RmTask → RmPoster Unit
  | [] => return ()
  | task :: tasks => do
    if ← posterAsk .cancelled then return ()
    -- and again once a task may start
    if ← posterAsk .cancelled then return ()
    Poster.post task
    postAll tasks

def postTasks (config : RmConfig) (effectivePrefix : Str) (entries : List DirectoryEntry) : RmPoster Unit :=
  if config.batch then do
    let batches ← buildBatches effectivePrefix entries [] []
    postAll (batches.map .batch)
  else postAll (entries.map (fun e => .single (effectivePrefix ++ e.relativePath) e.size))

def RmCounts.result (counts : RmCounts) : RmResult where
  success := counts.failedCount == 0
  objectsDeleted := counts.deletedCount
  objectsFailed := counts.failedCount
  bytesFreed := counts.bytesFreed
  failedKeys := counts.allFailed

/-- A cancelled run is judged by what is confirmed gone. -/
def judgeCancelled (config : RmConfig) (effectivePrefix : Str) (total : Nat) (result : RmResult) : RmResult :=
  let remaining : Int := total - result.objectsDeleted
  if remaining > 0 then
    { result with
      success := false
      errorMessage := "Cancelled after deleting ".toList ++ (toString result.objectsDeleted).toList ++ " of ".toList ++
        (toString total).toList ++ " objects under s3://".toList ++ config.bucket ++ "/".toList ++ effectivePrefix ++
        ". ".toList ++ (toString remaining).toList ++ " were not deleted and are still there.".toList }
  else result

def deleteListed (config : RmConfig) (effectivePrefix : Str) (entries : List DirectoryEntry) : RmPoster RmResult := do
  postTasks config effectivePrefix entries
  Poster.join
  let counts ← posterAsk .counts
  if ← posterAsk .cancelled then return judgeCancelled config effectivePrefix entries.length counts.result
  return counts.result

/-! ## What is to be deleted -/

inductive RmTarget
  | file (size : Int)
  | directory (effectivePrefix : Str)

/-- The prefix as the user closed it, or the whole bucket. -/
def explicitPrefix (prefix_ : Str) : Bool := prefix_.isEmpty || prefix_.getLast? == some '/'

/-- A page that shows something is there, be it only that there is more. -/
def S3ListObjectsResult.shows (r : S3ListObjectsResult) : Bool :=
  !r.objects.isEmpty || !r.commonPrefixes.isEmpty || r.isTruncated

def s3Url (config : RmConfig) (key : Str) : Str := "s3://".toList ++ config.bucket ++ "/".toList ++ key

/-- An object, a prefix, or the error the run ends with. -/
def resolveTarget (config : RmConfig) : RmPoster (Except Str RmTarget) := do
  if explicitPrefix config.prefix_ then return .ok (.directory config.prefix_)
  let fileSize ← posterAsk (.getObjectSize config.prefix_)
  if fileSize ≥ 0 then return .ok (.file fileSize)
  match ← posterAsk (.checkObjectPresence config.prefix_) with
  | .unknown =>
    return .error ("Could not determine whether ".toList ++ s3Url config config.prefix_ ++
      (" is an object or a prefix, so it is not clear what would be deleted. Nothing was deleted. Retry, or name the " ++
        "prefix explicitly as \"").toList ++ config.prefix_ ++ "/\" to skip the object lookup.".toList)
  | .exists => return .ok (.file 0)
  | .notFound =>
    let dirPrefix := config.prefix_ ++ ['/']
    let r ← posterAsk (.listObjects dirPrefix)
    if !r.success then
      return .error ("Could not list ".toList ++ s3Url config dirPrefix ++ " to determine whether it is a prefix: ".toList ++
        r.errorMessage)
    if r.shows then return .ok (.directory dirPrefix)
    return .error ("Not found: ".toList ++ config.prefix_)

/-- What `-r` on an object is told of the prefix of the same name. -/
def siblingWarnings (config : RmConfig) : RmPoster (List Str) := do
  if !config.recursive then return []
  let sibling := config.prefix_ ++ ['/']
  let peek ← posterAsk (.listObjects sibling)
  if !peek.success then
    return ["Could not check whether ".toList ++ s3Url config sibling ++
      " also exists; if it does, it was not touched.".toList]
  if peek.shows then
    return ["\"".toList ++ config.prefix_ ++ "\" is an object, so -r had no effect: \"".toList ++ sibling ++
      "\" also exists and was not touched. Delete it with: mito rm -r ".toList ++ s3Url config sibling]
  return []

def removeFile (config : RmConfig) (fileSize : Int) : RmPoster RmResult := do
  let warnings ← siblingWarnings config
  if !config.force then return { success := true, bytesFreed := BitVec.ofInt 64 fileSize, warnings := warnings }
  if ← posterAsk (.deleteObject config.prefix_) then
    return { success := true, objectsDeleted := 1, bytesFreed := BitVec.ofInt 64 fileSize, warnings := warnings }
  return { objectsFailed := 1, failedKeys := [config.prefix_], warnings := warnings }

def removeDirectory (config : RmConfig) (effectivePrefix : Str) : RmPoster RmResult := do
  let listing ← posterAsk (.enumerate effectivePrefix)
  if ← posterAsk .cancelled then return { errorMessage := "Cancelled".toList }
  if !listing.complete then
    return { errorMessage := "Could not list ".toList ++ s3Url config effectivePrefix ++
      (" completely, so an unknown number of objects would be left behind. Refusing to delete a partial listing. " ++
        "The failures are logged above.").toList }
  if listing.entries.isEmpty then
    if effectivePrefix.isEmpty then return { success := true }
    return { errorMessage := "No objects found under: ".toList ++ effectivePrefix }
  if !config.force then
    return { success := true, bytesFreed := addSizes 0 (listing.entries.map DirectoryEntry.size) }
  deleteListed config effectivePrefix listing.entries

/-- `run_rm`, past the making of a client. -/
def runRm (config : RmConfig) : RmPoster RmResult := do
  match ← resolveTarget config with
  | .error m => return { errorMessage := m }
  | .ok (.file fileSize) => removeFile config fileSize
  | .ok (.directory effectivePrefix) =>
    if !config.recursive then
      return { errorMessage := config.prefix_ ++ " is a directory, use -r to delete recursively".toList }
    removeDirectory config effectivePrefix

/-! ## What a request may answer -/

/-- What S3 answered. -/
inductive RmEvent
  | size (key : Str) (size : Int)
  | presence (key : Str) (r : S3ObjectPresence)
  | listObjects (prefix_ : Str) (r : S3ListObjectsResult)
  | enumerated (prefix_ : Str) (listing : Listing)
  | deleted (key : Str) (acknowledged : Bool)

/-- The answers to one attempt. -/
def attemptEvents (toDelete failed : List Str) : List RmEvent :=
  toDelete.map (fun k => .deleted k (decide (k ∉ failed)))

structure RmWorld where
  cancelled : Bool := false
  deletedCount : Nat := 0
  failedCount : Nat := 0
  bytesFreed : Bytes64 := 0
  allFailed : List Str := []
  log : List RmEvent := []

def RmWorld.logged (w : RmWorld) (events : List RmEvent) : RmWorld := { w with log := w.log ++ events }

/-- `progress.cancelled` may have been set by the time it is read, and stays set; S3 may answer anything. -/
def rmExec : (c : RmCall) → RmWorld → RmResp c → RmWorld → Prop
  | .cancelled, w, r, w' => (w.cancelled = true → r = true) ∧ w' = { w with cancelled := r }
  | .getObjectSize key, w, r, w' => w' = w.logged [.size key r]
  | .checkObjectPresence key, w, r, w' => w' = w.logged [.presence key r]
  | .listObjects prefix_, w, r, w' => w' = w.logged [.listObjects prefix_ r]
  | .enumerate prefix_, w, r, w' => w' = w.logged [.enumerated prefix_ r]
  | .deleteObject key, w, r, w' => w' = w.logged [.deleted key r]
  | .deleteObjects keys, w, r, w' => w' = w.logged (attemptEvents keys r.failed)
  | .addDeleted n, w, _, w' => w' = { w with deletedCount := w.deletedCount + n }
  | .addBytes sizes, w, _, w' => w' = { w with bytesFreed := addSizes w.bytesFreed sizes }
  | .addFailed n, w, _, w' => w' = { w with failedCount := w.failedCount + n }
  | .insertFailed keys, w, _, w' => w' = { w with allFailed := w.allFailed ++ keys }
  | .counts, w, r, w' => r = ⟨w.deletedCount, w.failedCount, w.bytesFreed, w.allFailed⟩ ∧ w' = w

/-- A run of `rm` and of the tasks it posts. -/
abbrev RmSteps (config : RmConfig) : Crew RmCall RmTask RmResp RmResult RmWorld →
    Crew RmCall RmTask RmResp RmResult RmWorld → Prop := Crew.Steps rmExec (runTask config)

end Mito
