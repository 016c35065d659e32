import MitoSync.Guards
import Mathlib.Data.Char
import Mathlib.Data.List.Lex
/-!
# Diff — `mito diff`

The command first finds out whether each name is a directory or a file, from the file system, a trailing separator or a
HEAD, and then compares two directories (`run_directory_comparison`) or two files (`run_comparison`).  What a run is
told is one record of answers (`DiffAnswers`): every request is made at most once, so the record is any pattern of
answers and failures.  The files of two directories are compared by the tasks of a pool, in any order (`WorkerStep`);
an interrupted run exits with 130 whatever it compared.
-/
namespace Mito

open Relation

inductive SourceType
  | «local» | s3
  deriving DecidableEq

/-- `FileSource` as a diff reads it; the profile and the endpoint only choose the client. -/
structure DiffSource extends FileSource where
  type : SourceType := .local
  region : Str := []
  deriving DecidableEq

structure CliOptions where
  directoryMode : Bool := false
  sourceA : DiffSource
  sourceB : DiffSource

inductive Side
  | a | b
  deriving DecidableEq

def CliOptions.source (opts : CliOptions) : Side → DiffSource
  | .a => opts.sourceA
  | .b => opts.sourceB

/-! ## What a run is told -/

/-- One HEAD request: an error that `IsRetryableS3Error` accepts or not, or an exception. -/
inductive HeadOutcome
  | success (contentLength : Int) | error (retryable : Bool) | exception
  deriving DecidableEq

structure DiffAnswers where
  /-- `fs::is_directory` -/
  isDirectory : Side → Bool
  /-- whether `is_s3_prefix` got a client -/
  probeClient : Side → Bool
  /-- the attempts at the HEAD of `is_s3_prefix` -/
  probeHead : Side → Nat → HeadOutcome
  s3Client : Side → Bool
  /-- the attempts at the HEAD of a key, when it is compared -/
  head : Side → Str → Nat → HeadOutcome
  getLocalFileSize : Side → Str → Int
  /-- `compute_crc32_chunks_boost_asio`: a path, the chunks asked for and their size -/
  computeCrc32Chunks : Side → Str → List Int → Int → List UInt32
  /-- a key, the object's size, the chunks asked for and their size -/
  getChunkCRC32s : Side → Str → Int → List Int → Int → List UInt32
  listing : Side → Listing
  maxRetries : Nat := 5
  interrupted : Bool := false

/-- The loop of `GetObjectSize`, with this many attempts left after the one at hand. -/
def getObjectSizeFrom (outcomes : Nat → HeadOutcome) : (left attempt : Nat) → Int
  | 0, attempt =>
    match outcomes attempt with
    | .success contentLength => contentLength
    | .error _ => -1
    | .exception => -1
  | left + 1, attempt =>
    match outcomes attempt with
    | .success contentLength => contentLength
    | .error true => getObjectSizeFrom outcomes left (attempt + 1)
    | .error false => -1
    | .exception => getObjectSizeFrom outcomes left (attempt + 1)

def getObjectSize (maxRetries : Nat) (outcomes : Nat → HeadOutcome) : Int := getObjectSizeFrom outcomes maxRetries 0

/-! ## Directories and files -/

def isDirectorySource (ans : DiffAnswers) (side : Side) (source : DiffSource) : Bool :=
  match source.type with
  | .local => ans.isDirectory side
  | .s3 => source.path ≠ [] && source.path.getLast? = some '/'

def isS3Prefix (ans : DiffAnswers) (side : Side) (source : DiffSource) : Bool :=
  if source.type ≠ .s3 then false
  else if source.path = [] then true
  else if source.path.getLast? = some '/' then true
  else if source.region = [] ∨ source.bucket = [] then false
  else if ans.probeClient side then
    -- any failure of the HEAD is taken for the object's absence
    getObjectSize ans.maxRetries (ans.probeHead side) < 0
  else false

/-- `is_dir_a` and `is_dir_b` in `main`, before the comparison is chosen. -/
def directoryDetection (ans : DiffAnswers) (sourceA sourceB : DiffSource) : Bool × Bool :=
  let isDirA := isDirectorySource ans .a sourceA
  let isDirB := isDirectorySource ans .b sourceB
  let isDirA := if !isDirA && sourceA.type = .s3 && isDirB then isS3Prefix ans .a sourceA else isDirA
  let isDirB := if !isDirB && sourceB.type = .s3 && isDirA then isS3Prefix ans .b sourceB else isDirB
  if !isDirA && !isDirB && sourceA.type = .s3 && sourceB.type = .s3 then
    (isS3Prefix ans .a sourceA, isS3Prefix ans .b sourceB)
  else (isDirA, isDirB)

/-! ## Two files -/

def getSourceSize (ans : DiffAnswers) (side : Side) (source : DiffSource) : Int :=
  match source.type with
  | .local => ans.getLocalFileSize side source.path
  | .s3 => if ans.s3Client side then getObjectSize ans.maxRetries (ans.head side source.path) else -1

def computeSourceCrcs (ans : DiffAnswers) (side : Side) (source : DiffSource) (fileSize : Int) (chunkIds : List Int)
    (chunkSize : Int) : List UInt32 :=
  match source.type with
  | .local => ans.computeCrc32Chunks side source.path chunkIds chunkSize
  | .s3 => if ans.s3Client side then ans.getChunkCRC32s side source.path fileSize chunkIds chunkSize else []

structure ComparisonConfig where
  sourceA : DiffSource
  sourceB : DiffSource
  chunkIds : List Int := []
  chunkSize : Int := defaultChunkSize

structure ComparisonResult where
  sourceACrcs : List UInt32 := []
  sourceBCrcs : List UInt32 := []
  errorMessage : Str := []
  success : Bool := false
  allMatch : Bool := false
  mismatchedChunks : List Nat := []
  extraChunksInA : List Nat := []
  extraChunksInB : List Nat := []
  sizeA : Int := 0
  sizeB : Int := 0
  fileSize : Int := 0

/-- The last part of `run_comparison`: the checksums position by position, and the rest of the longer list. -/
def compareCrcs (result : ComparisonResult) : ComparisonResult :=
  let chunksA := result.sourceACrcs.length
  let chunksB := result.sourceBCrcs.length
  let mismatchedChunks := (List.range (min chunksA chunksB)).filter
    (fun i => result.sourceACrcs[i]? ≠ result.sourceBCrcs[i]?)
  { result with
    mismatchedChunks
    extraChunksInA := if chunksA > chunksB then List.range' chunksB (chunksA - chunksB) else []
    extraChunksInB := if chunksB > chunksA then List.range' chunksA (chunksB - chunksA) else []
    allMatch := mismatchedChunks = [] ∧ ¬ chunksA > chunksB ∧ ¬ chunksB > chunksA
    success := true }

def runComparison (ans : DiffAnswers) (config : ComparisonConfig) : ComparisonResult :=
  let sizeA := getSourceSize ans .a config.sourceA
  if sizeA < 0 then { errorMessage := "Failed to get size for source A".toList }
  else
  let sizeB := getSourceSize ans .b config.sourceB
  if sizeB < 0 then { errorMessage := "Failed to get size for source B".toList }
  else
  let result : ComparisonResult :=
    { sizeA
      sizeB
      fileSize := min sizeA sizeB
      sourceACrcs := computeSourceCrcs ans .a config.sourceA sizeA config.chunkIds config.chunkSize
      sourceBCrcs := computeSourceCrcs ans .b config.sourceB sizeB config.chunkIds config.chunkSize }
  if result.sourceACrcs = [] ∧ sizeA > 0 then
    { result with errorMessage := "Failed to compute CRC32 checksums for source A".toList }
  else if result.sourceBCrcs = [] ∧ sizeB > 0 then
    { result with errorMessage := "Failed to compute CRC32 checksums for source B".toList }
  else compareCrcs result

/-! ## Two directories -/

inductive FileCompareStatus
  | «match» | mismatch | onlyInA | onlyInB | error
  deriving DecidableEq

/-- A file's line of the report, its block analysis apart. -/
structure FileCompareResult where
  relativePath : Str
  status : FileCompareStatus := .error
  sizeA : Int := -1
  sizeB : Int := -1
  totalChunks : Nat := 0
  mismatchedChunks : List Nat := []
  extraChunksInA : List Nat := []
  extraChunksInB : List Nat := []
  errorMessage : Str := []

structure DirectoryComparisonResult where
  files : List FileCompareResult := []
  totalFiles : Nat := 0
  matchingFiles : Nat := 0
  mismatchedFiles : Nat := 0
  onlyInA : Nat := 0
  onlyInB : Nat := 0
  errors : Nat := 0
  success : Bool := false
  errorMessage : Str := []

/-- `make_file_source` -/
def makeFileSource (dirSource : DiffSource) (relativePath : Str) : DiffSource :=
  match dirSource.type with
  | .local => { dirSource with path := pathAppend dirSource.path relativePath }
  | .s3 => { dirSource with path := makeS3Key dirSource.path relativePath }

def describeSource (source : DiffSource) : Str :=
  match source.type with
  | .local => source.path
  | .s3 => "s3://".toList ++ source.bucket ++ ['/'] ++ source.path

def incompleteMessage (sourceA sourceB : DiffSource) (completeA completeB : Bool) : Str :=
  let which :=
    if !completeA && !completeB then
      "Both sources (".toList ++ describeSource sourceA ++ ", ".toList ++ describeSource sourceB ++ [')']
    else if !completeA then "Source A (".toList ++ describeSource sourceA ++ [')']
    else "Source B (".toList ++ describeSource sourceB ++ [')']
  which ++ (" could not be listed completely, so entries missing from it would be reported as differences. " ++
    "The unreadable paths are logged above.").toList

/-- The keys of the map of paths to sizes. -/
def mapPaths (listing : Listing) : List Str := listing.paths.dedup

/-- `map[path]`, the last entry of a path winning. -/
def mapSize (listing : Listing) (path : Str) : Int :=
  match listing.entries.reverse.find? (fun e => e.relativePath = path) with
  | some e => e.size
  | none => 0

def sorted (paths : List Str) : List Str := paths.mergeSort (fun a b => a ≤ b)

/-- The chunks of a file that one side lacks. -/
def missingChunks (fileSize : Int) : Nat :=
  if fileSize > 0 then ((fileSize + defaultChunkSize - 1) / defaultChunkSize).toNat else 0

def onlyInAResult (listing : Listing) (path : Str) : FileCompareResult :=
  { relativePath := path
    status := .mismatch
    sizeA := mapSize listing path
    totalChunks := missingChunks (mapSize listing path)
    extraChunksInA := List.range (missingChunks (mapSize listing path)) }

def onlyInBResult (listing : Listing) (path : Str) : FileCompareResult :=
  { relativePath := path
    status := .mismatch
    sizeB := mapSize listing path
    totalChunks := missingChunks (mapSize listing path)
    extraChunksInB := List.range (missingChunks (mapSize listing path)) }

/-- What `process_file` makes of a comparison. -/
def fileCompareResult (relativePath : Str) (fileResult : ComparisonResult) : FileCompareResult :=
  let fcr : FileCompareResult :=
    { relativePath
      sizeA := fileResult.sizeA
      sizeB := fileResult.sizeB
      totalChunks := max fileResult.sourceACrcs.length fileResult.sourceBCrcs.length }
  if !fileResult.success then { fcr with status := .error, errorMessage := fileResult.errorMessage }
  else if fileResult.allMatch then { fcr with status := .match }
  else
    { fcr with
      status := .mismatch
      mismatchedChunks := fileResult.mismatchedChunks
      extraChunksInA := fileResult.extraChunksInA
      extraChunksInB := fileResult.extraChunksInB }

/-- The comparison of a common file. -/
def compareFile (ans : DiffAnswers) (sourceA sourceB : DiffSource) (relativePath : Str) : ComparisonResult :=
  runComparison ans
    { sourceA := makeFileSource sourceA relativePath
      sourceB := makeFileSource sourceB relativePath }

/-! ### The pool -/

/-- What the tasks share. -/
structure Tally where
  matchingCount : Nat := 0
  mismatchCount : Nat := 0
  errorCount : Nat := 0
  parallelResults : List FileCompareResult := []

def Tally.count (t : Tally) : FileCompareStatus → Tally
  | .match => { t with matchingCount := t.matchingCount + 1 }
  | .error => { t with errorCount := t.errorCount + 1 }
  | _ => { t with mismatchCount := t.mismatchCount + 1 }

/-- The files still to compare, the results counted and not yet inserted, and what is shared. -/
structure WorkerState where
  pending : List Str
  counted : List FileCompareResult := []
  tally : Tally := {}

/-- A task counts its file, and later inserts its result under the lock. -/
inductive WorkerStep (outcome : Str → ComparisonResult) : WorkerState → WorkerState → Prop
  | count {l r : List Str} {path : Str} {counted : List FileCompareResult} {tally : Tally} :
      WorkerStep outcome ⟨l ++ path :: r, counted, tally⟩
        ⟨l ++ r, fileCompareResult path (outcome path) :: counted,
          tally.count (fileCompareResult path (outcome path)).status⟩
  | insert {pending : List Str} {l r : List FileCompareResult} {fcr : FileCompareResult} {tally : Tally} :
      WorkerStep outcome ⟨pending, l ++ fcr :: r, tally⟩
        ⟨pending, l ++ r, { tally with parallelResults := tally.parallelResults ++ [fcr] }⟩

/-- What the tasks may leave once all have ended. -/
def Tallied (outcome : Str → ComparisonResult) (files : List Str) (tally : Tally) : Prop :=
  ReflTransGen (WorkerStep outcome) { pending := files } { pending := [], tally }

/-! ### The result -/

def commonFiles (listingA listingB : Listing) : List Str :=
  sorted ((mapPaths listingA).filter fun path => (mapPaths listingB).contains path)

/-- The paths of a listing that the other lacks. -/
def onlyIn (listing other : Listing) : List Str :=
  sorted ((mapPaths listing).filter fun path => !(mapPaths other).contains path)

def statusPriority : FileCompareStatus → Nat
  | .mismatch => 0
  | .error => 1
  | .match => 2
  | .onlyInA | .onlyInB => 3

/-- The order of the report. -/
def reportOrder (f g : FileCompareResult) : Bool :=
  if statusPriority f.status ≠ statusPriority g.status then statusPriority f.status < statusPriority g.status
  else f.relativePath ≤ g.relativePath

/-- The result on two complete listings. -/
def mergeResults (listingA listingB : Listing) (tally : Tally) : DirectoryComparisonResult :=
  let onlyA := onlyIn listingA listingB
  let onlyB := onlyIn listingB listingA
  let files := onlyA.map (onlyInAResult listingA) ++ onlyB.map (onlyInBResult listingB) ++ tally.parallelResults
  { files := files.mergeSort reportOrder
    totalFiles := files.length
    matchingFiles := tally.matchingCount
    mismatchedFiles := onlyA.length + onlyB.length + tally.mismatchCount
    onlyInA := onlyA.length
    onlyInB := onlyB.length
    errors := tally.errorCount
    success := true }

/-- The result, with what the tasks left where the files were compared. -/
def runDirectoryComparison (ans : DiffAnswers) (sourceA sourceB : DiffSource) (tally : Tally) :
    DirectoryComparisonResult :=
  if sourceA.type = .s3 ∧ ans.s3Client .a = false then
    { errorMessage := "Failed to create S3 client for source A".toList }
  else if sourceB.type = .s3 ∧ ans.s3Client .b = false then
    { errorMessage := "Failed to create S3 client for source B".toList }
  else
  let listingA := ans.listing .a
  let listingB := ans.listing .b
  if listingA.complete = false ∨ listingB.complete = false then
    { errorMessage := incompleteMessage sourceA sourceB listingA.complete listingB.complete }
  else mergeResults listingA listingB tally

/-- `content_differences` -/
def contentDifferences (result : DirectoryComparisonResult) : Nat :=
  let onlyOneSide := result.onlyInA + result.onlyInB
  if result.mismatchedFiles > onlyOneSide then result.mismatchedFiles - onlyOneSide else 0

/-! ## The verdict -/

/-- The exit status, once the arguments are parsed and the regions are known. -/
def diffExitCode (opts : CliOptions) (ans : DiffAnswers) (tally : Tally) : Nat :=
  let (isDirA, isDirB) := directoryDetection ans opts.sourceA opts.sourceB
  if opts.directoryMode || (isDirA && isDirB) then
    if isDirA ≠ isDirB && !opts.directoryMode then 1
    else
    let dirResult := runDirectoryComparison ans opts.sourceA opts.sourceB tally
    if ans.interrupted then 130
    else if !dirResult.success then 1
    else if dirResult.mismatchedFiles = 0 ∧ dirResult.onlyInA = 0 ∧ dirResult.onlyInB = 0 ∧ dirResult.errors = 0 then 0
    else 1
  else
  let result := runComparison ans { sourceA := opts.sourceA, sourceB := opts.sourceB }
  if ans.interrupted then 130
  else if !result.success then 1
  else if result.allMatch then 0
  else 1

/-- A run of `mito diff` may exit with this status. -/
def DiffExits (opts : CliOptions) (ans : DiffAnswers) (code : Nat) : Prop :=
  ∃ tally, Tallied (compareFile ans opts.sourceA opts.sourceB) (commonFiles (ans.listing .a) (ans.listing .b)) tally ∧
    diffExitCode opts ans tally = code

end Mito
