import MitoSync.Basic
import MitoSync.Lib.Chunks
import MitoSync.Lib.Prog
/-!
# Slot — what an executor asks of the two sides, and what they may answer

A planned entry's executor works on one destination: an object of a bucket or a file of a tree, with the temporary file
or the multipart uploads made on the way.  `Slot` is that part of the world and `Call` the requests of `IS3Client` and
of the operating system.  `exec` says what each may answer and do; `Mode` how badly: in `sound` a request fails only
where its own rules make it, in `strict` any request may fail and then has done nothing, and in `lenient` an S3 request
reported failed may have been carried out all the same.  The source does not change while it is read.
-/
namespace Mito

open Lib

structure Stored where
  bytes : Bytes
  mtime : Int
  deriving DecidableEq

/-- A multipart upload.  The parts S3 has stored stand in the order they came; an ETag is a place in that order. -/
structure MultipartUpload where
  parts : List (Nat × Bytes) := []
  completed : Bool := false
  abortCalled : Bool := false
  aborted : Bool := false
  deriving DecidableEq

structure Slot where
  entry : Option Stored := none
  /-- the temporary file of `AtomicFileWriter` -/
  temp : Option Stored := none
  /-- an upload id is a place in this list -/
  uploads : List MultipartUpload := []
  /-- the destination's directory exists -/
  parent : Bool := true
  /-- this executor has read `cancelled` as set -/
  seen : Bool := false
  deriving DecidableEq

inductive Mode
  | sound | strict | lenient
  deriving DecidableEq

structure Env where
  source : Bytes
  /-- the source file is reached through a symbolic link -/
  sourceIsLink : Bool := false
  crc : Bytes → UInt32
  /-- the times a write may leave on a file or an object -/
  stamp : Int → Prop
  mode : Mode

namespace Env

def faulty (E : Env) : Prop := E.mode ≠ .sound

def chunkCRC32s (E : Env) (b : Bytes) : List UInt32 := (chunks defaultChunkSize b).map E.crc

end Env

/-! ## Requests -/

/-- An S3 request's outcome: an answer, the value that means failure, or an exception. -/
inductive Ans (α : Type)
  | ok (a : α) | failed | threw
  deriving DecidableEq

inductive WriteAns
  | eintr | failed | wrote (n : Nat)
  deriving DecidableEq

inductive ReadAns
  | eintr | failed | data (d : Bytes)
  deriving DecidableEq

/-- `symlink_status` of a destination, as `AtomicFileWriter` reads it. -/
inductive StatAns
  | absent | regular | refused
  deriving DecidableEq

inductive OpenAns
  | opened | eexist | failed
  deriving DecidableEq

inductive Call
  | cancelled
  /-- does the submitter find the entry's data in `io_cache`? -/
  | cacheHit
  /-- which of `n + 1` threads moves next -/
  | pick (n : Nat)
  -- the source
  | sourceSize
  | sourceChunkCRC32s
  | sourceObjectCRC32s (size : Nat)
  | sourceRange (start len : Nat)
  | openSource
  | openSourceStream
  | readSource (offset n : Nat)
  -- a local destination
  | resolvesWithinBase
  | createDirectories
  | symlinkStatus
  | openTemp
  | writeTemp (d : Bytes)
  | fdatasync
  | closeTemp
  | renameTemp
  | removeTemp
  | exists_
  | fileSize
  | fileChunkCRC32s
  | openInPlace
  | pwrite (offset : Nat) (d : Bytes)
  | ftruncate (size : Nat)
  | fsync
  | clearMtime
  | createEmpty
  | remove
  -- an S3 destination
  | getObjectSize
  | getChunkCRC32s (size : Nat)
  | putObject (d : Bytes)
  | putSource
  | deleteObject
  | copyObject
  | createMultipartUpload
  | uploadPart (id partNumber : Nat) (d : Bytes) (crc : UInt32)
  | uploadPartCopy (id partNumber startByte endByte : Nat)
  | uploadPartCopyFromSource (id partNumber startByte endByte : Nat)
  | completeMultipartUpload (id : Nat) (parts : List (Nat × Nat))
  | abortMultipartUpload (id : Nat)

abbrev Resp : Call → Type
  | .cancelled | .cacheHit | .openSource | .openSourceStream | .resolvesWithinBase | .createDirectories
  | .fdatasync | .closeTemp | .renameTemp | .removeTemp | .openInPlace | .ftruncate _ | .fsync | .clearMtime
  | .createEmpty | .abortMultipartUpload _ => Bool
  | .pick n => Fin (n + 1)
  | .sourceSize | .fileSize | .getObjectSize | .createMultipartUpload | .uploadPart _ _ _ _
  | .uploadPartCopy _ _ _ _ | .uploadPartCopyFromSource _ _ _ _ => Ans Nat
  | .sourceChunkCRC32s | .sourceObjectCRC32s _ | .fileChunkCRC32s | .getChunkCRC32s _ => Ans (List UInt32)
  | .sourceRange _ _ => Ans Bytes
  | .readSource _ _ => ReadAns
  | .symlinkStatus => StatAns
  | .openTemp => OpenAns
  | .writeTemp _ | .pwrite _ _ => WriteAns
  | .exists_ | .remove => Ans Bool
  | .putObject _ | .putSource | .deleteObject | .copyObject | .completeMultipartUpload _ _ => Ans Unit

abbrev Exec (α : Type) : Type := Prog Call Resp α

/-- One request of an executor. -/
abbrev ask (c : Call) : Exec (Resp c) := Prog.req c

/-! ## What a request may answer -/

/-- The size S3 asks of every part but the last. -/
def minPartBytes : Nat := 5 * 1024 * 1024

namespace MultipartUpload

def live (u : MultipartUpload) : Prop := u.completed = false ∧ u.aborted = false

/-- The stored part a completion names by its number and ETag. -/
def part? (u : MultipartUpload) (p : Nat × Nat) : Option Bytes :=
  (u.parts[p.2]?).bind (fun q => if q.1 = p.1 then some q.2 else none)

/-- The bytes of the parts a completion names, in its order. -/
def pick (u : MultipartUpload) (ps : List (Nat × Nat)) : Option (List Bytes) := ps.mapM u.part?

end MultipartUpload

/-- S3's own rules for a completion. -/
def completable (ps : List (Nat × Nat)) (bs : List Bytes) : Prop :=
  ps ≠ [] ∧ (ps.map Prod.fst).Pairwise (· < ·) ∧ ∀ b ∈ bs.dropLast, minPartBytes ≤ b.length

/-- The inclusive range of a ranged request, which must lie in the object. -/
def rangeOf (o : Option Bytes) (startByte endByte : Nat) : Option Bytes :=
  o.bind (fun b =>
    if startByte ≤ endByte ∧ endByte < b.length then some (slice b startByte (endByte - startByte + 1)) else none)

namespace Slot

def content (s : Slot) : Option Bytes := s.entry.map Stored.bytes

def modifyUpload (s : Slot) (id : Nat) (f : MultipartUpload → MultipartUpload) : Slot :=
  { s with uploads := s.uploads.modify id f }

end Slot

/-- A write leaves its bytes on the destination with a permitted time. -/
def Env.writes (E : Env) (s : Slot) (b : Bytes) (s' : Slot) : Prop :=
  ∃ t, E.stamp t ∧ s' = { s with entry := some ⟨b, t⟩ }

/-- A system call does what it says or, refused, nothing. -/
def Env.syscall (E : Env) (can : Prop) (s : Slot) (done : Slot → Prop) : Bool → Slot → Prop
  | true, s' => can ∧ done s'
  | false, s' => (E.faulty ∨ ¬ can) ∧ s' = s

/-- A request for a value the slot has or lacks. -/
def Env.lookup {α : Type} (E : Env) (s : Slot) (value : Option α) : Ans α → Slot → Prop
  | .ok a, s' => value = some a ∧ s' = s
  | .failed, s' => (E.faulty ∨ value = none) ∧ s' = s
  | .threw, s' => E.faulty ∧ s' = s

/-- A request that changes the destination.  Reported failed, it may have been carried out in `lenient` mode only. -/
def Env.request {α : Type} (E : Env) (can : Prop) (s : Slot) (done : α → Slot → Prop) : Ans α → Slot → Prop
  | .ok a, s' => can ∧ done a s'
  | .failed, s' => (E.faulty ∨ ¬ can) ∧ (s' = s ∨ E.mode = .lenient ∧ can ∧ ∃ a, done a s')
  | .threw, s' => E.faulty ∧ (s' = s ∨ E.mode = .lenient ∧ can ∧ ∃ a, done a s')

/-- `UploadPart` and `UploadPartCopy` of the bytes `b`: the ETag is the part's place. -/
def Env.addPart (E : Env) (s : Slot) (id partNumber : Nat) (b : Option Bytes) : Ans Nat → Slot → Prop :=
  E.request
    (∃ u d, s.uploads[id]? = some u ∧ u.live ∧ b = some d ∧ d.length ≤ kMaxSinglePutBytes ∧
      1 ≤ partNumber ∧ partNumber ≤ kMaxMultipartParts) s
    (fun e s' => ∃ u d, s.uploads[id]? = some u ∧ b = some d ∧ e = u.parts.length ∧
      s' = s.modifyUpload id (fun u => { u with parts := u.parts ++ [(partNumber, d)] }))

/-- A chunk of a write: the temporary file or the destination takes the first `n` bytes given. -/
def Env.writeCall (E : Env) (can : Prop) (s : Slot) (d : Bytes) (done : Bytes → Slot → Prop) : WriteAns → Slot → Prop
  | .wrote n, s' => can ∧ n ≤ d.length ∧ (n = 0 → (E.faulty ∨ d = []) ∧ s' = s) ∧ (0 < n → done (d.take n) s')
  | .eintr, s' => E.faulty ∧ s' = s
  | .failed, s' => (E.faulty ∨ ¬ can) ∧ s' = s

/-- **What each request may answer**, and the slot after it. -/
def exec (E : Env) : (c : Call) → Slot → Resp c → Slot → Prop
  | .cancelled, s, r, s' =>
    (s.seen = true → r = true) ∧ (r = true → E.faulty ∨ s.seen = true) ∧ s' = { s with seen := r }
  | .cacheHit, s, _, s' => s' = s
  | .pick _, s, _, s' => s' = s
  | .sourceSize, s, r, s' => E.lookup s (some E.source.length) r s'
  | .sourceChunkCRC32s, s, r, s' =>
    E.lookup s (if E.source = [] then none else some (E.chunkCRC32s E.source)) r s'
  | .sourceObjectCRC32s size, s, r, s' =>
    E.lookup s (if 0 < size ∧ size ≤ E.source.length then some (E.chunkCRC32s (E.source.take size)) else none) r s'
  | .sourceRange start len, s, r, s' =>
    E.lookup s (if start + len ≤ E.source.length then some (slice E.source start len) else none) r s'
  | .openSource, s, r, s' => E.syscall (E.sourceIsLink = false) s (· = s) r s'
  | .openSourceStream, s, r, s' => E.syscall True s (· = s) r s'
  | .readSource offset n, s, r, s' =>
    match r with
    | .data d => d <+: E.source.drop offset ∧ d.length ≤ n ∧ (offset < E.source.length → d ≠ []) ∧ s' = s
    | _ => E.faulty ∧ s' = s
  | .resolvesWithinBase, s, r, s' => E.syscall True s (· = s) r s'
  | .createDirectories, s, r, s' => E.syscall True s (· = { s with parent := true }) r s'
  | .symlinkStatus, s, r, s' =>
    match r with
    | .absent => s.entry = none ∧ s' = s
    | .regular => s.entry ≠ none ∧ s' = s
    | .refused => E.faulty ∧ s' = s
  | .openTemp, s, r, s' =>
    match r with
    | .opened => s.parent = true ∧ ∃ t, E.stamp t ∧ s' = { s with temp := some ⟨[], t⟩ }
    | .eexist => E.faulty ∧ s' = s
    | .failed => (E.faulty ∨ s.parent = false) ∧ s' = s
  | .writeTemp d, s, r, s' =>
    E.writeCall (s.temp ≠ none) s d
      (fun w s' => ∃ o t, s.temp = some o ∧ E.stamp t ∧ s' = { s with temp := some ⟨o.bytes ++ w, t⟩ }) r s'
  | .fdatasync, s, r, s' => E.syscall True s (· = s) r s'
  | .closeTemp, s, r, s' => E.syscall True s (· = s) r s'
  | .renameTemp, s, r, s' =>
    E.syscall (s.temp ≠ none) s (· = { s with entry := s.temp, temp := none }) r s'
  | .removeTemp, s, r, s' => E.syscall True s (· = { s with temp := none }) r s'
  | .exists_, s, r, s' => E.lookup s (some s.entry.isSome) r s'
  | .fileSize, s, r, s' => E.lookup s (s.content.map List.length) r s'
  | .fileChunkCRC32s, s, r, s' =>
    E.lookup s (s.content.bind (fun b => if b = [] then none else some (E.chunkCRC32s b))) r s'
  | .openInPlace, s, r, s' =>
    E.syscall (s.entry ≠ none ∨ s.parent = true) s
      (fun s' => (s.entry ≠ none ∧ s' = s) ∨ (s.entry = none ∧ E.writes s [] s')) r s'
  | .pwrite offset d, s, r, s' =>
    E.writeCall (s.entry ≠ none) s d
      (fun w s' => ∃ o, s.entry = some o ∧ E.writes s (Lib.pwrite 0 o.bytes offset w) s') r s'
  | .ftruncate size, s, r, s' =>
    E.syscall (s.entry ≠ none) s (fun s' => ∃ o, s.entry = some o ∧ E.writes s (o.bytes.take size) s') r s'
  | .fsync, s, r, s' => E.syscall True s (· = s) r s'
  | .clearMtime, s, r, s' =>
    E.syscall True s (· = { s with entry := s.entry.map (fun o => { o with mtime := 0 }) }) r s'
  | .createEmpty, s, r, s' => E.syscall (s.entry ≠ none ∨ s.parent = true) s (fun s' => E.writes s [] s') r s'
  | .remove, s, r, s' =>
    match r with
    | .ok b => b = s.entry.isSome ∧ s' = { s with entry := none }
    | _ => E.faulty ∧ s' = s
  | .getObjectSize, s, r, s' => E.lookup s (s.content.map List.length) r s'
  | .getChunkCRC32s size, s, r, s' =>
    E.lookup s (s.content.bind (fun b =>
      if 0 < size ∧ size ≤ b.length then some (E.chunkCRC32s (b.take size)) else none)) r s'
  | .putObject d, s, r, s' => E.request (d.length ≤ kMaxSinglePutBytes) s (fun _ s' => E.writes s d s') r s'
  | .putSource, s, r, s' =>
    E.request (E.source.length ≤ kMaxSinglePutBytes) s (fun _ s' => E.writes s E.source s') r s'
  | .deleteObject, s, r, s' => E.request True s (fun _ s' => s' = { s with entry := none }) r s'
  | .copyObject, s, r, s' =>
    E.request (E.source.length ≤ kMaxSinglePutBytes) s (fun _ s' => E.writes s E.source s') r s'
  | .createMultipartUpload, s, r, s' =>
    E.request True s (fun id s' => id = s.uploads.length ∧ s' = { s with uploads := s.uploads ++ [{}] }) r s'
  | .uploadPart id partNumber d crc, s, r, s' =>
    E.addPart s id partNumber (if crc = E.crc d then some d else none) r s'
  | .uploadPartCopy id partNumber startByte endByte, s, r, s' =>
    E.addPart s id partNumber (rangeOf s.content startByte endByte) r s'
  | .uploadPartCopyFromSource id partNumber startByte endByte, s, r, s' =>
    E.addPart s id partNumber (rangeOf (some E.source) startByte endByte) r s'
  | .completeMultipartUpload id parts, s, r, s' =>
    E.request
      (∃ u bs, s.uploads[id]? = some u ∧ u.live ∧ u.pick parts = some bs ∧ completable parts bs) s
      (fun _ s' => ∃ u bs, s.uploads[id]? = some u ∧ u.pick parts = some bs ∧
        E.writes (s.modifyUpload id (fun u => { u with completed := true })) bs.flatten s') r s'
  | .abortMultipartUpload id, s, r, s' =>
    (r = false → E.faulty) ∧
      s' = s.modifyUpload id (fun u => { u with abortCalled := true, aborted := u.aborted || r })

end Mito
