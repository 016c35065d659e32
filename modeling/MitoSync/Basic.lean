import Mathlib.Logic.Relation
import Mathlib.Tactic
/-!
# Basic — the data a sync passes around

The records of `sync_types.h` and `directory_comparison.h` that a sync reads, and the constants its decisions turn on.
A `std::string` is the list of its characters, a character a byte; an `int64_t` size or time is an `Int`, `-1` and `0`
keeping the meanings the headers give them.
-/
namespace Mito

abbrev Str := List Char

abbrev Bytes := List UInt8

inductive SyncAction
  | skip | upload | uploadDiff | download | downloadDiff | copy | delete
  deriving DecidableEq, Repr

inductive SyncDirection
  | upload | download | s3ToS3 | localToLocal
  deriving DecidableEq, Repr

/-- The side of an S3 sync: what of `FileSource` names objects. -/
structure FileSource where
  bucket : Str := []
  path : Str := []
  deriving DecidableEq

/-- A file or an object found by an enumerator.  `mtime` is in seconds, `0` when unknown. -/
structure DirectoryEntry where
  relativePath : Str
  size : Int := 0
  mtime : Int := 0
  deriving DecidableEq

structure SyncEntryInfo where
  size : Int := 0
  mtime : Int := 0
  deriving DecidableEq

/-- One line of a plan.  A size is `-1` where the side has no such file. -/
structure SyncFileEntry where
  relativePath : Str
  action : SyncAction := .skip
  localSize : Int := -1
  s3Size : Int := -1
  destSize : Int := -1
  localMtime : Int := 0
  deriving DecidableEq

structure SyncConfig where
  direction : SyncDirection := .upload
  localPath : Str := []
  destLocalPath : Str := []
  source : FileSource := {}
  destination : FileSource := {}
  deleteOrphans : Bool := false
  dryRun : Bool := false
  maxThreads : Int := 256

/-- What an enumerator returns with its out-parameters. -/
structure Listing where
  entries : List DirectoryEntry
  complete : Bool := true
  aliasOmitted : Bool := false

def Listing.paths (l : Listing) : List Str := l.entries.map DirectoryEntry.relativePath

/-! ## Constants -/

def diffUploadThreshold : Int := 8 * 1024 * 1024

def defaultChunkSize : Nat := 8 * 1024 * 1024

/-- `MAX_RETRIES`: a request is tried once and then this many times again. -/
def maxRetries : Nat := 3

def kMaxSinglePutBytes : Nat := 5 * 1024 * 1024 * 1024

def kMaxMultipartParts : Nat := 10000

theorem defaultChunkSize_pos : 0 < defaultChunkSize := by unfold defaultChunkSize; omega

/-! ## Keys -/

/-- The prefix a key is built on, and the one a listing asks for: a separator closes it unless it is empty. -/
def withSlash (prefix_ : Str) : Str :=
  if prefix_ ≠ [] ∧ prefix_.getLast? ≠ some '/' then prefix_ ++ ['/'] else prefix_

/-- `make_s3_key`, and the same lines of every executor that builds a key. -/
def makeS3Key (prefix_ relativePath : Str) : Str := withSlash prefix_ ++ relativePath

theorem makeS3Key_inj {p a b : Str} (h : makeS3Key p a = makeS3Key p b) : a = b :=
  List.append_cancel_left h

end Mito
