import MitoSync.PatchSpec
import MitoSync.Requests
/-!
# DiffRequests — what the differential executors ask

Both executors look at the sizes and the checksums of the two sides first.  An upload in parts then copies the chunks
taken for unchanged and reads the others (`diffUploadMultipart_asks`), and a patch reads no chunk but those it was given
(`patchInPlace_asks`), whatever is answered and whichever worker moves.
-/
namespace Mito

open Lib Prog

/-- The requests that look at a destination. -/
def Call.ofLook : Call → Prop
  | .exists_ | .fileSize | .fileChunkCRC32s | .getObjectSize | .getChunkCRC32s _ => True
  | _ => False

theorem localChunks_asks : localChunks.Asks Call.ofLook := by
  refine asks_bind (asks_req.2 trivial) (fun there => ?_)
  cases there with
  | failed => trivial
  | threw => trivial
  | ok there =>
    cases there with
    | false => trivial
    | true =>
      refine asks_bind (asks_req.2 trivial) (fun ans => ?_)
      cases ans with
      | failed => trivial
      | threw => trivial
      | ok localSize =>
        dsimp only
        split
        · trivial
        · refine asks_bind (asks_req.2 trivial) (fun ans => ?_)
          cases ans <;> trivial

theorem remoteChunks_asks : remoteChunks.Asks Call.ofLook := by
  refine asks_bind (asks_req.2 trivial) (fun ans => ?_)
  cases ans with
  | failed => trivial
  | threw => trivial
  | ok s3Size =>
    dsimp only
    split
    · trivial
    · refine asks_bind (asks_req.2 trivial) (fun ans => ?_)
      cases ans <;> trivial

/-! ## Parts -/

/-- The requests of a differential upload in parts: it copies a chunk that is taken for unchanged, and reads one that is
not. -/
def Call.ofParts (localSize : Nat) (localCrcs s3Crcs : List UInt32) : Call → Prop
  | .cancelled | .createMultipartUpload | .openSourceStream | .uploadPart _ _ _ _ | .completeMultipartUpload _ _
  | .abortMultipartUpload _ => True
  | .uploadPartCopy _ partNumber startByte endByte => ∃ i, unchangedChunk localCrcs s3Crcs i = true ∧
      partNumber = i + 1 ∧ startByte = i * defaultChunkSize ∧
      endByte = min (i * defaultChunkSize + defaultChunkSize) localSize - 1
  | .sourceRange start len => ∃ i, unchangedChunk localCrcs s3Crcs i = false ∧ start = i * defaultChunkSize ∧
      len = min (i * defaultChunkSize + defaultChunkSize) localSize - i * defaultChunkSize
  | _ => False

section Parts

variable {localSize : Nat} {localCrcs s3Crcs : List UInt32}

theorem diffUploadPart_asks (id i : Nat) :
    (diffUploadPart id localSize localCrcs s3Crcs i).Asks (Call.ofParts localSize localCrcs s3Crcs) := by
  unfold diffUploadPart
  dsimp only
  cases hu : unchangedChunk localCrcs s3Crcs i with
  | true => exact retry_composes (asks_composes _) (asks_req.2 trivial) (asks_req.2 ⟨i, hu, rfl, rfl, rfl⟩) _
  | false =>
    refine asks_bind (asks_req.2 ⟨i, hu, rfl, rfl⟩) (fun ans => ?_)
    cases ans with
    | ok data => exact retry_composes (asks_composes _) (asks_req.2 trivial) (asks_req.2 trivial) _
    | failed => trivial
    | threw => trivial

theorem diffUploadMultipart_asks :
    (diffUploadMultipart localSize localCrcs s3Crcs).Asks (Call.ofParts localSize localCrcs s3Crcs) := by
  refine asks_bind (asks_req.2 trivial) (fun ans => ?_)
  cases ans with
  | failed => trivial
  | threw => trivial
  | ok id =>
    have hend := completeOrAbort_composes (asks_composes (Call.ofParts localSize localCrcs s3Crcs)) id
      (fun _ => asks_req.2 trivial) (asks_req.2 trivial)
    refine asks_bind (asks_req.2 trivial) (fun opened => ?_)
    cases opened with
    | false => exact hend none
    | true => exact asks_bind (sendParts_composes (asks_composes _) (diffUploadPart_asks id) _ _) hend

end Parts

/-! ## Patches -/

/-- The requests of a patch: it reads the chunks `todo`. -/
def Call.ofPatch (todo : List Nat) (s3Size : Nat) : Call → Prop
  | .cancelled | .pick _ | .pwrite _ _ | .openInPlace | .clearMtime | .ftruncate _ | .fsync => True
  | .sourceRange start len => ∃ i ∈ todo, start = i * defaultChunkSize ∧ len = chunkLen defaultChunkSize s3Size i
  | _ => False

section Patches

variable {todo : List Nat} {s3Size : Nat}

/-- A worker is at one of the chunks, or at none. -/
def Worker.On (todo : List Nat) (w : Worker) : Prop := ∀ i, w.chunk? = some i → i ∈ todo

theorem workerStep_asks {w : Worker} (hw : w.On todo) (p : Patch) :
    AsksThen (Call.ofPatch todo s3Size) (fun r => ∀ w', r.1 = some w' → w'.On todo) (workerStep todo s3Size w p) := by
  have hon : ∀ {i : Nat} {w' : Worker}, i ∈ todo → w'.chunk? = some i → ∀ v, some w' = some v → v.On todo := by
    intro i w' hi hw' v hv j hj
    obtain rfl := Option.some.inj hv
    obtain rfl : i = j := Option.some.inj (hw'.symm.trans hj)
    exact hi
  have htop : ∀ v, some Worker.top = some v → v.On todo := by
    intro v hv i hi
    obtain rfl := Option.some.inj hv
    cases hi
  match w with
  | .top =>
    refine ⟨trivial, fun stop => ?_⟩
    cases stop with
    | true => exact nofun
    | false =>
      simp only [Prog.bind, Bool.false_eq_true, if_false]
      split
      · exact nofun
      · split
        · exact nofun
        · rename_i i hi
          exact hon (List.mem_of_getElem? hi) rfl
  | .attempt i 0 => exact hon (hw i rfl) rfl
  | .attempt i (left + 1) =>
    refine ⟨trivial, fun stop => ?_⟩
    cases stop with
    | true => exact hon (hw i rfl) rfl
    | false =>
      simp only [Prog.bind, Bool.false_eq_true, if_false]
      split
      · exact hon (hw i rfl) rfl
      · exact hon (hw i rfl) rfl
  | .fetch i left =>
    refine ⟨⟨i, hw i rfl, rfl, rfl⟩, fun ans => ?_⟩
    cases ans with
    | threw => exact nofun
    | failed => exact hon (hw i rfl) rfl
    | ok data =>
      simp only [Prog.bind]
      split
      · exact hon (hw i rfl) rfl
      · exact hon (hw i rfl) rfl
  | .write i left [] => exact htop
  | .write i left (b :: rest) =>
    refine ⟨trivial, fun ans => ?_⟩
    cases ans with
    | eintr => exact hon (hw i rfl) rfl
    | failed => exact hon (hw i rfl) rfl
    | wrote n =>
      simp only [Prog.bind]
      split
      · exact hon (hw i rfl) rfl
      · exact hon (hw i rfl) rfl
  | .giveUp i =>
    refine ⟨trivial, fun stop => ?_⟩
    cases stop with
    | true => exact htop
    | false => exact htop

theorem patchLoop_asks : ∀ (fuel : Nat) (p : Patch), (∀ w ∈ p.workers, w.On todo) →
    (patchLoop todo s3Size fuel p).Asks (Call.ofPatch todo s3Size)
  | 0, _, _ => trivial
  | fuel + 1, p, hp => by
    unfold patchLoop
    cases hws : p.workers with
    | nil => trivial
    | cons w ws =>
      rw [hws] at hp
      refine asks_bind (asks_req.2 trivial) (fun j => ?_)
      have hj : ((w :: ws).getD j.val w).On todo := by
        have hlt : j.val < (w :: ws).length := j.isLt
        rw [List.getD_eq_getElem?_getD, List.getElem?_eq_getElem hlt, Option.getD_some]
        exact hp _ (List.getElem_mem hlt)
      refine (workerStep_asks hj p).bind fun r hr => ?_
      obtain ⟨w', p'⟩ := r
      cases w' with
      | none => exact patchLoop_asks fuel _ fun v hv => hp v (List.mem_of_mem_eraseIdx hv)
      | some w' =>
        refine patchLoop_asks fuel _ fun v hv => ?_
        rcases List.mem_or_eq_of_mem_set hv with h | rfl
        · exact hp v h
        · exact hr _ rfl

theorem finishPatch_asks (localSize : Int) (p : Patch) :
    (finishPatch s3Size localSize p).Asks (Call.ofPatch todo s3Size) := by
  have hmark : (markIncomplete p.wroteAny).Asks (Call.ofPatch todo s3Size) := by
    cases p.wroteAny with
    | false => trivial
    | true => exact ⟨trivial, fun _ => trivial⟩
  refine asks_bind (asks_req.2 trivial) (fun stop => ?_)
  cases stop with
  | true => exact hmark
  | false =>
    simp only [Bool.false_eq_true, if_false]
    split
    · exact hmark
    split
    · refine asks_bind (asks_req.2 trivial) (fun ok => ?_)
      cases ok with
      | false => exact hmark
      | true => exact ⟨trivial, fun _ => trivial⟩
    · exact ⟨trivial, fun _ => trivial⟩

theorem patchInPlace_asks (fuel maxParallelChunks : Nat) (localSize : Int) (s3Crcs localCrcs : List UInt32) :
    (patchInPlace fuel maxParallelChunks s3Size localSize s3Crcs localCrcs).Asks
      (Call.ofPatch (chunksToDownload s3Crcs localCrcs) s3Size) := by
  refine asks_bind (asks_req.2 trivial) (fun opened => ?_)
  cases opened with
  | false => trivial
  | true =>
    refine asks_bind (patchLoop_asks fuel _ fun w hw => ?_) (finishPatch_asks localSize)
    obtain rfl := List.eq_of_mem_replicate hw
    exact fun i hi => by cases hi

end Patches

end Mito
