import MitoSync.ChunkCrcsSpec
import MitoSync.Lib.Crc
/-!
# ChunkFanOuts — the checksums an object's server was asked for

Every task of a fan-out has its own slot and counts itself at most once, after it has written the slot.  So a count as
large as the list of chunks means that every chunk was posted and every slot written; an abort, a shutdown or an error
shows in the count or in the errors, and neither is taken back.  `chunkCrcs_contract` puts the four implementations
side by side.
-/
namespace Mito

open Lib Prog

/-! ## Counting -/

/-- Shares of one at most that add up to their number are one each. -/
theorem all_one_of_sum {α : Type} (f : α → Nat) : ∀ l : List α, (∀ x ∈ l, f x ≤ 1) →
    (l.map f).sum ≤ l.length ∧ (l.length ≤ (l.map f).sum → ∀ x ∈ l, f x = 1)
  | [], _ => ⟨Nat.le_refl _, by simp⟩
  | y :: l, h => by
    obtain ⟨hle, hall⟩ := all_one_of_sum f l fun x hx => h x (List.mem_cons_of_mem _ hx)
    have hy := h y List.mem_cons_self
    rw [List.map_cons, List.sum_cons, List.length_cons]
    refine ⟨by omega, fun hsum x hx => ?_⟩
    rcases List.mem_cons.1 hx with rfl | hx
    · omega
    · exact hall (by omega) x hx

theorem nodup_eraseDups : ∀ l : List Int, l.eraseDups.Nodup
  | [] => List.nodup_nil
  | a :: l => by
    rw [List.eraseDups_cons]
    refine List.nodup_cons.2 ⟨fun hmem => ?_, nodup_eraseDups _⟩
    have ha := (List.mem_filter.1 (List.mem_eraseDups.1 hmem)).2
    simp at ha
termination_by l => l.length
decreasing_by
  exact Nat.lt_succ_of_le (List.length_filter_le _ _)

theorem fanOutIds_nodup (numChunks : Int) (chunkIds : List Int) : (fanOutIds numChunks chunkIds).Nodup := by
  unfold fanOutIds
  split
  · exact List.nodup_range.map fun _ _ h => Int.ofNat.inj h
  · exact nodup_eraseDups chunkIds

/-- A fan-out runs the chunks its request is for. -/
theorem mem_fanOutIds {numChunks id : Int} {chunkIds : List Int} :
    id ∈ fanOutIds numChunks chunkIds ↔ id ∈ requestedIds numChunks chunkIds := by
  unfold fanOutIds requestedIds
  split
  · exact Iff.rfl
  · exact List.mem_eraseDups

/-! ## One chunk -/

section Chunks

variable (base64Decode : Str → Bytes) (object : Bytes)

/-- What a task has done: the checksum it stored, and how often it counted itself. -/
structure CopyShare where
  crc : Option UInt32 := none
  counted : Nat := 0

def copySolo [ZlibNg] : (c : CopyCall) → CopyShare → CopyResp c → CopyShare → Prop
  | .uploadPartCopy _ startByte endByte, a, ans, a' => ans.Truthful base64Decode object startByte endByte ∧ a' = a
  | .storeCrc _ crc, a, _, a' => a' = { a with crc := some crc }
  | .addSucceeded, a, _, a' => a' = { a with counted := a.counted + 1 }
  | _, a, _, a' => a' = a

/-- A task stores into its own slot only. -/
def CopyTask.Allowed (t : CopyTask) : CopyCall → Prop
  | .storeCrc chunkId _ => chunkId = t.chunkId
  | _ => True

/-- The shares of tasks with slots of their own, as the results and the count show them. -/
structure CopyTotal (xs : List (CopyTask × CopyShare)) (w : CopyCrcs) : Prop where
  apart : (xs.map (fun x => x.1.chunkId)).Nodup
  crc : ∀ x ∈ xs, ∀ crc, x.2.crc = some crc → w.crc32Results x.1.chunkId = crc
  succeeded : w.succeeded = (xs.map (fun x => x.2.counted)).sum

theorem CopyTotal.carry {xs : List (CopyTask × CopyShare)} {w w' : CopyCrcs} (h : CopyTotal xs w)
    (hcrc : w'.crc32Results = w.crc32Results) (hs : w'.succeeded = w.succeeded) : CopyTotal xs w' :=
  ⟨h.apart, hcrc ▸ h.crc, hs ▸ h.succeeded⟩

/-- What neither stores nor counts leaves the results and the count. -/
def CopyMine : CopyCall → Prop
  | .storeCrc _ _ => False
  | .addSucceeded => False
  | _ => True

variable {base64Decode object}

/-! ### What the programs ask -/

theorem failCopy_asks (t : CopyTask) : Asks t.Allowed failCopy := ⟨trivial, fun _ => trivial⟩

theorem stopRequested_asks (t : CopyTask) : Asks t.Allowed stopRequested := by
  refine ⟨trivial, fun stop => ?_⟩
  cases stop with
  | true => exact trivial
  | false => exact ⟨trivial, fun _ => trivial⟩

theorem attemptChunk_asks (t : CopyTask) (m : S3MultipartCopy) (chunkId : Int) : ∀ left,
    Asks t.Allowed (m.attemptChunk base64Decode chunkId left)
  | 0 => trivial
  | left + 1 => by
    have ih := attemptChunk_asks t m chunkId left
    rw [S3MultipartCopy.attemptChunk]
    refine asks_bind (stopRequested_asks t) fun stop => ?_
    cases stop with
    | true => exact trivial
    | false =>
      rw [if_neg Bool.false_ne_true]
      cases m.copyRequest chunkId with
      | none => exact trivial
      | some request =>
        obtain ⟨partNumber, start, last⟩ := request
        refine asks_bind (asks_req.2 trivial) fun ans => ?_
        cases ans with
        | missingChecksum => exact failCopy_asks t
        | error retryable =>
          dsimp only
          split
          · exact ih
          · exact failCopy_asks t
        | exception =>
          dsimp only
          split
          · exact ih
          · exact failCopy_asks t
        | success b64Crc32 =>
          dsimp only
          cases checksumOfBytes (base64Decode b64Crc32) with
          | none => exact failCopy_asks t
          | some crc => exact trivial

theorem processChunk_asks (t : CopyTask) : Asks t.Allowed (processChunk base64Decode t) := by
  have hrest : Asks t.Allowed
      (do if (← askCopy .errors) > maxErrorsBeforeAbort then askCopy .setShouldAbort
          askCopy .addCompleted) := by
    refine asks_bind (asks_req.2 trivial) fun errors => ?_
    split
    · exact ⟨trivial, fun _ => ⟨trivial, fun _ => trivial⟩⟩
    · exact ⟨trivial, fun _ => trivial⟩
  have hsingle : Asks t.Allowed (t.copier.processSingleChunk base64Decode t.chunkId) := by
    refine asks_bind (stopRequested_asks t) fun stop => ?_
    cases stop with
    | true => exact trivial
    | false => exact attemptChunk_asks t _ _ _
  refine asks_bind hsingle fun r => ?_
  cases r with
  | none => exact hrest
  | some crc => exact ⟨rfl, fun _ => ⟨trivial, fun _ => hrest⟩⟩

theorem posterStops_asks : Asks (Crew.Mine CopyMine) posterStops := by
  refine ⟨trivial, fun abort => ?_⟩
  cases abort with
  | true => exact trivial
  | false => exact ⟨trivial, fun _ => trivial⟩

theorem postWindow_asks : ∀ ts, Asks (Crew.Mine CopyMine) (postWindow ts)
  | [] => trivial
  | t :: ts => by
    refine asks_bind posterStops_asks fun stop => ?_
    cases stop with
    | true => exact trivial
    | false =>
      refine asks_bind posterStops_asks fun stop => ?_
      cases stop with
      | true => exact trivial
      | false => exact ⟨trivial, fun _ => postWindow_asks ts⟩

theorem signalAbort_asks : Asks (Crew.Mine CopyMine) signalAbort := by
  refine asks_bind (asks_req.2 trivial) fun errors => ?_
  split
  · exact ⟨trivial, fun _ => trivial⟩
  · refine asks_bind (asks_req.2 trivial) fun shutdown => ?_
    cases shutdown with
    | true => exact ⟨trivial, fun _ => trivial⟩
    | false => exact trivial

theorem waitFutures_asks : ∀ ts abortTriggered, Asks (Crew.Mine CopyMine) (waitFutures ts abortTriggered)
  | [], _ => trivial
  | t :: ts, abortTriggered => by
    have hwaits : ∀ triggered, Asks (Crew.Mine CopyMine)
        (do if ← posterCopy .waitTimedOut then
              posterCopy .addError
              let _ ← waitFutures ts triggered
              return true
            waitFutures ts triggered) := by
      intro triggered
      refine asks_bind (asks_req.2 trivial) fun timedOut => ?_
      cases timedOut with
      | true =>
        refine asks_bind (asks_req.2 trivial) fun _ => ?_
        exact asks_bind (waitFutures_asks ts triggered) fun _ => trivial
      | false => exact waitFutures_asks ts triggered
    rw [waitFutures]
    cases abortTriggered with
    | true => exact hwaits true
    | false => exact asks_bind signalAbort_asks hwaits

theorem finishFanOut_asks (numChunks : Int) (ids : List CopyTask) (chunkIds : List Int) :
    Asks (Crew.Mine CopyMine) (finishFanOut numChunks ids chunkIds) := by
  refine asks_bind (asks_req.2 trivial) fun errors => ?_
  split
  · exact trivial
  · refine asks_bind (asks_req.2 trivial) fun succeeded => ?_
    split
    · exact trivial
    · exact asks_req.2 trivial

theorem parallelUploadPartCopyRequests_asks (m : S3MultipartCopy) (chunkIds : List Int) :
    Asks (Crew.Mine CopyMine) (m.parallelUploadPartCopyRequests chunkIds) := by
  unfold S3MultipartCopy.parallelUploadPartCopyRequests
  split
  · exact trivial
  · refine asks_bind (postEach_asks _) fun _ => asks_bind (waitFutures_asks _ _) fun timedOut => ?_
    cases timedOut with
    | true => exact finishFanOut_asks _ _ _
    | false => exact ⟨trivial, fun _ => finishFanOut_asks _ _ _⟩

theorem parallelUploadPartCopyRequestsThreadPool_asks (m : S3MultipartCopy) (chunkIds : List Int) :
    Asks (Crew.Mine CopyMine) (m.parallelUploadPartCopyRequestsThreadPool chunkIds) := by
  unfold S3MultipartCopy.parallelUploadPartCopyRequestsThreadPool
  split
  · exact trivial
  · exact asks_bind (postWindow_asks _) fun _ => ⟨trivial, fun _ => finishFanOut_asks _ _ _⟩

theorem getHashes_asks (m : S3MultipartCopy) (chunkIds : List Int) (numThreads : Int) :
    Asks (Crew.Mine CopyMine) (m.getHashes chunkIds numThreads) := by
  unfold S3MultipartCopy.getHashes
  split
  · exact trivial
  · refine asks_bind (asks_req.2 trivial) fun created => ?_
    cases created with
    | false => exact trivial
    | true =>
      have hend : ∀ crcs : List UInt32, Asks (Crew.Mine CopyMine)
          (do posterCopy .abortMultipartUpload
              return crcs) := fun _ => ⟨trivial, fun _ => trivial⟩
      by_cases hpool : numThreads > 0
      · rw [if_pos hpool]
        exact asks_bind (parallelUploadPartCopyRequestsThreadPool_asks m chunkIds) hend
      · rw [if_neg hpool]
        exact asks_bind (parallelUploadPartCopyRequests_asks m chunkIds) hend

theorem getChunkCRC32s_asks [ZlibNg] (fileSize : Int) (chunkIds : List Int) (numThreads chunkSize maxRetries : Int) :
    Asks (Crew.Mine CopyMine) (getChunkCRC32s fileSize chunkIds numThreads chunkSize maxRetries) := by
  unfold getChunkCRC32s
  split
  · exact trivial
  · split
    · split
      · exact trivial
      · refine asks_bind (asks_req.2 trivial) fun data => ?_
        repeat' split
        all_goals exact trivial
    · exact getHashes_asks _ _ _

/-! ### What a task does -/

variable [ZlibNg]

theorem copyExec_kept {c : CopyCall} {w w' : CopyCrcs} {r : CopyResp c} (hc : CopyMine c)
    (h : copyExec base64Decode object c w r w') :
    w'.crc32Results = w.crc32Results ∧ w'.succeeded = w.succeeded := by
  cases c with
  | storeCrc | addSucceeded => exact absurd hc id
  | shutdownRequested | setShouldAbort | addError | addCompleted | waitTimedOut | createMultipartUpload
  | abortMultipartUpload =>
    obtain rfl := h
    exact ⟨rfl, rfl⟩
  | shouldAbort | uploadPartCopy | errors | succeeded | crcs | getObjectRange =>
    obtain ⟨-, rfl⟩ := h
    exact ⟨rfl, rfl⟩

/-- **An error is not taken back.** -/
theorem copyExec_errors {c : CopyCall} {w w' : CopyCrcs} {r : CopyResp c}
    (h : copyExec base64Decode object c w r w') : w.errors ≤ w'.errors := by
  cases c with
  | addError =>
    obtain rfl := h
    exact Nat.le_succ _
  | storeCrc | addSucceeded | shutdownRequested | setShouldAbort | addCompleted | waitTimedOut | createMultipartUpload
  | abortMultipartUpload =>
    obtain rfl := h
    exact Nat.le_refl _
  | shouldAbort | uploadPartCopy | errors | succeeded | crcs | getObjectRange =>
    obtain ⟨-, rfl⟩ := h
    exact Nat.le_refl _

theorem copyGuarantee : Crew.Guarantee (copyExec base64Decode object) (fun w w' => w.errors ≤ w'.errors) where
  refl _ := Nat.le_refl _
  trans _ _ _ := Nat.le_trans
  exec _ _ _ _ h := copyExec_errors h

theorem copyShares :
    Crew.Shares (copyExec base64Decode object) (copySolo base64Decode object) CopyTask.Allowed CopyTotal where
  work := by
    intro xs t a ys w c r w' ht hc he
    cases c with
    | uploadPartCopy partNumber startByte endByte =>
      obtain ⟨htruthful, rfl⟩ := he
      exact ⟨a, ⟨htruthful, rfl⟩, ht⟩
    | storeCrc chunkId crc =>
      obtain rfl := he
      obtain rfl : chunkId = t.chunkId := hc
      refine ⟨_, rfl, slots_replaced (f := CopyTask.chunkId) ht.apart, fun x hx crc' hcrc => ?_, ?_⟩
      · rcases mem_replaced hx with rfl | hx
        · rw [← Option.some.inj hcrc]
          exact Function.update_self ..
        · have hne : x.1.chunkId ≠ t.chunkId := slot_ne (f := CopyTask.chunkId) ht.apart x hx
          dsimp only
          rw [Function.update_of_ne hne]
          exact ht.crc x (mem_kept hx) crc' hcrc
      · have hs := ht.succeeded
        rw [List.map_append, List.map_cons] at hs ⊢
        exact hs
    | addSucceeded =>
      obtain rfl := he
      refine ⟨_, rfl, slots_replaced (f := CopyTask.chunkId) ht.apart, fun x hx crc' hcrc => ?_, ?_⟩
      · rcases mem_replaced hx with rfl | hx
        · exact ht.crc (t, a) (by simp) crc' hcrc
        · exact ht.crc x (mem_kept hx) crc' hcrc
      · have hs := ht.succeeded
        rw [List.map_append, List.map_cons, List.sum_append, List.sum_cons] at hs ⊢
        dsimp only at hs ⊢
        omega
    | shutdownRequested | setShouldAbort | addError | addCompleted | waitTimedOut | createMultipartUpload
    | abortMultipartUpload | shouldAbort | errors | succeeded | crcs | getObjectRange =>
      have hkept := copyExec_kept (by exact trivial) he
      exact ⟨a, rfl, ht.carry hkept.1 hkept.2⟩

/-- A worker's precondition: nothing is kept, and the program does not halt. -/
abbrev CopySpec (base64Decode : Str → Bytes) (object : Bytes) {α : Type} (p : CopyProg α) (Q : α → CopyShare → Prop)
    (a : CopyShare) : Prop :=
  wp (copySolo base64Decode object) (fun _ => True) (fun _ => False) p Q a

variable {k i : Nat} {a : CopyShare}

theorem stopRequested_spec {Q : Bool → CopyShare → Prop} (h : ∀ r, Q r a) :
    CopySpec base64Decode object stopRequested Q a := by
  refine ⟨trivial, ?_⟩
  rintro r _ rfl
  cases r with
  | true => exact h true
  | false =>
    refine ⟨trivial, ?_⟩
    rintro r _ rfl
    exact h r

/-- **A chunk that has a checksum has its own.** -/
theorem attemptChunk_spec (hk : 0 < k) (hn : object.length < 2 ^ 62) (hk' : k < 2 ^ 62) (hi : i * k < object.length)
    (maxRetries : Int) : ∀ left, CopySpec base64Decode object
      ((⟨object.length, k, maxRetries⟩ : S3MultipartCopy).attemptChunk base64Decode i left)
      (fun r a' => a' = a ∧ ∀ crc, r = some crc → crc = chunkCrc object k i) a
  | 0 => ⟨rfl, by simp⟩
  | left + 1 => by
    have hfail : CopySpec base64Decode object failCopy
        (fun r a' => a' = a ∧ ∀ crc, r = some crc → crc = chunkCrc object k i) a := by
      refine ⟨trivial, ?_⟩
      rintro _ _ rfl
      exact ⟨rfl, by simp⟩
    have ih := attemptChunk_spec hk hn hk' hi maxRetries left
    rw [S3MultipartCopy.attemptChunk]
    refine wp_bind.2 (stopRequested_spec fun stop => ?_)
    cases stop with
    | true => exact ⟨rfl, by simp⟩
    | false =>
      rw [if_neg Bool.false_ne_true, copyRequest_eq hi hk hn hk']
      refine wp_bind.2 (wp_req.2 ⟨trivial, ?_⟩)
      rintro ans _ ⟨htruthful, rfl⟩
      cases ans with
      | missingChecksum => exact hfail
      | error retryable =>
        dsimp only
        split
        · exact ih
        · exact hfail
      | exception =>
        dsimp only
        split
        · exact ih
        · exact hfail
      | success b64Crc32 =>
        obtain ⟨data, hrange, hcrc⟩ := htruthful
        obtain rfl := chunk_of_isRange hk hi hrange
        dsimp only
        cases hdecoded : checksumOfBytes (base64Decode b64Crc32) with
        | none => exact hfail
        | some crc =>
          refine ⟨rfl, ?_⟩
          rintro _ ⟨⟩
          -- only four bytes are a checksum
          unfold checksumOfBytes at hdecoded
          split at hdecoded
          · rename_i b₀ b₁ b₂ b₃ heq
            have hnumber := @checksumOfBytes_toNat b₀ b₁ b₂ b₃ crc hdecoded
            exact UInt32.toNat_inj.1 (hnumber.trans (hcrc _ _ _ _ heq))
          · exact absurd hdecoded (by simp)

/-- What a task leaves: it has counted itself once at most, and then its slot has the checksum of its chunk. -/
def CopyQ (object : Bytes) (k : Nat) (t : CopyTask) (a : CopyShare) : Prop :=
  a.counted ≤ 1 ∧ (a.counted = 1 → a.crc = some (chunkCrc object k t.chunkId))

theorem processChunk_spec (hk : 0 < k) (hn : object.length < 2 ^ 62) (hk' : k < 2 ^ 62) (hi : i * k < object.length)
    (maxRetries : Int) : CopySpec base64Decode object (processChunk base64Decode ⟨⟨object.length, k, maxRetries⟩, i⟩)
      (fun _ => CopyQ object k ⟨⟨object.length, k, maxRetries⟩, i⟩) {} := by
  have hrest : ∀ a, CopyQ object k ⟨⟨object.length, k, maxRetries⟩, i⟩ a → CopySpec base64Decode object
      (do if (← askCopy .errors) > maxErrorsBeforeAbort then askCopy .setShouldAbort
          askCopy .addCompleted) (fun _ => CopyQ object k ⟨⟨object.length, k, maxRetries⟩, i⟩) a := by
    intro a ha
    refine wp_bind.2 (wp_req.2 ⟨trivial, ?_⟩)
    rintro errors _ rfl
    split
    · refine wp_bind.2 (wp_req.2 ⟨trivial, ?_⟩)
      rintro _ _ rfl
      refine ⟨trivial, ?_⟩
      rintro _ _ rfl
      exact ha
    · refine ⟨trivial, ?_⟩
      rintro _ _ rfl
      exact ha
  have hsingle : CopySpec base64Decode object
      ((⟨object.length, k, maxRetries⟩ : S3MultipartCopy).processSingleChunk base64Decode i)
      (fun r a' => a' = {} ∧ ∀ crc, r = some crc → crc = chunkCrc object k i) {} := by
    unfold S3MultipartCopy.processSingleChunk
    refine wp_bind.2 (stopRequested_spec fun stop => ?_)
    cases stop with
    | true => exact ⟨rfl, by simp⟩
    | false => exact attemptChunk_spec hk hn hk' hi maxRetries _
  unfold processChunk
  refine wp_bind.2 (wp_mono ?_ hsingle)
  rintro r _ ⟨rfl, hr⟩
  cases r with
  | none => exact hrest {} ⟨Nat.zero_le _, by simp⟩
  | some crc =>
    obtain rfl := hr crc rfl
    refine wp_bind.2 (wp_req.2 ⟨trivial, ?_⟩)
    rintro _ _ rfl
    refine wp_bind.2 (wp_req.2 ⟨trivial, ?_⟩)
    rintro _ _ rfl
    exact hrest _ ⟨Nat.le_refl _, fun _ => rfl⟩

theorem copyFitting {all : List CopyTask} (hk : 0 < k) (hn : object.length < 2 ^ 62) (hk' : k < 2 ^ 62)
    {maxRetries : Int} (hcopier : ∀ t ∈ all, t.copier = ⟨object.length, k, maxRetries⟩)
    (hid : ∀ t ∈ all, 0 ≤ t.chunkId ∧ t.chunkId < (numChunks k object.length : Nat))
    (hids : (all.map CopyTask.chunkId).Nodup) :
    Crew.Fitting (copyExec base64Decode object) (processChunk base64Decode) CopyMine (fun w w' => w.errors ≤ w'.errors)
      (· <+: all) (copySolo base64Decode object) CopyTask.Allowed CopyTotal (CopyQ object k) {} where
  shares := copyShares
  guarantee := copyGuarantee
  fewer ts t h := (List.prefix_append ts [t]).trans h
  asks _ t _ := processChunk_asks t
  wp ts t h := by
    have hmem : t ∈ all := h.subset (by simp)
    obtain ⟨i, hi, hlt⟩ := exists_chunk (hid t hmem) hk
    have hc := hcopier t hmem
    obtain ⟨copier, chunkId⟩ := t
    dsimp only at hi hc
    subst hi hc
    exact processChunk_spec hk hn hk' hlt maxRetries
  post xs t w hfit ht := by
    have hnodup := hids.sublist ((hfit.map CopyTask.chunkId).sublist)
    refine ⟨?_, fun x hx crc hcrc => ?_, ?_⟩
    · simpa [Function.comp_def] using hnodup
    · rcases List.mem_append.1 hx with hx | hx
      · exact ht.crc x hx crc hcrc
      · obtain rfl := List.mem_singleton.1 hx
        exact absurd hcrc (by simp)
    · rw [ht.succeeded]
      simp
  mine c xs w r w' hc ht he := ht.carry (copyExec_kept hc he).1 (copyExec_kept hc he).2

theorem copyExec_total (c : CopyCall) (w : CopyCrcs) : ∃ r w', copyExec base64Decode object c w r w' := by
  cases c with
  | shutdownRequested => exact ⟨false, w, rfl⟩
  | waitTimedOut => exact ⟨false, w, rfl⟩
  | createMultipartUpload => exact ⟨false, w, rfl⟩
  | setShouldAbort => exact ⟨(), _, rfl⟩
  | addError => exact ⟨(), _, rfl⟩
  | storeCrc chunkId crc => exact ⟨(), _, rfl⟩
  | addSucceeded => exact ⟨(), _, rfl⟩
  | addCompleted => exact ⟨(), _, rfl⟩
  | abortMultipartUpload => exact ⟨(), w, rfl⟩
  | shouldAbort => exact ⟨_, w, rfl, rfl⟩
  | errors => exact ⟨_, w, rfl, rfl⟩
  | succeeded => exact ⟨_, w, rfl, rfl⟩
  | crcs ids => exact ⟨_, w, rfl, rfl⟩
  | uploadPartCopy partNumber startByte endByte => exact ⟨.exception, w, trivial, rfl⟩
  | getObjectRange start stop => exact ⟨[], w, .inl rfl, rfl⟩

end Chunks

/-! ## The function that posts them -/

section Posters

variable [ZlibNg] {base64Decode : Str → Bytes} {object : Bytes} {k : Nat} {all : List CopyTask}
  {x : Crew.Seen CopyTask CopyCrcs}

/-- What a poster keeps and leaves: it posts the tasks in their order. -/
abbrev CopyPosterSpec (base64Decode : Str → Bytes) (object : Bytes) (k : Nat) (all : List CopyTask) {α : Type}
    (p : CopyPoster α) (Q : α → Crew.Seen CopyTask CopyCrcs → Prop) (x : Crew.Seen CopyTask CopyCrcs) : Prop :=
  wp (Crew.PosterExec (copyExec base64Decode object) (fun _ w w' => w.errors ≤ w'.errors)
    (Crew.FitDone (· <+: all) CopyTotal (CopyQ object k))) (fun x => x.posted <+: all) (fun _ => False) p Q x

/-- Whatever a poster asks, no error is taken back. -/
theorem posterCopy_spec {c : CopyCall} {Q : CopyResp c → Crew.Seen CopyTask CopyCrcs → Prop} (hx : x.posted <+: all)
    (h : ∀ r w, x.world.errors ≤ w.errors → Q r { x with world := w }) :
    CopyPosterSpec base64Decode object k all (posterCopy c) Q x :=
  Crew.wp_ask hx fun r _ w' _ hrely he => h r w' (hrely.trans (copyExec_errors he))

theorem posterStops_spec {Q : Bool → Crew.Seen CopyTask CopyCrcs → Prop} (hx : x.posted <+: all)
    (h : ∀ r w, Q r { x with world := w }) : CopyPosterSpec base64Decode object k all posterStops Q x := by
  refine wp_bind.2 (posterCopy_spec hx fun abort w _ => ?_)
  cases abort with
  | true => exact h true w
  | false => exact posterCopy_spec hx fun r w' _ => h r w'

/-- **A window posts the chunks from the front.** -/
theorem postWindow_spec : ∀ (ts : List CopyTask) (x : Crew.Seen CopyTask CopyCrcs), x.posted ++ ts = all →
    CopyPosterSpec base64Decode object k all (postWindow ts) (fun _ x' => x'.posted <+: all) x
  | [], x, hx => ⟨[], hx⟩
  | t :: ts, x, hx => by
    have hfit : x.posted <+: all := ⟨_, hx⟩
    refine wp_bind.2 (posterStops_spec hfit fun stop w => ?_)
    cases stop with
    | true => exact hfit
    | false =>
      refine wp_bind.2 (posterStops_spec hfit fun stop w => ?_)
      cases stop with
      | true => exact hfit
      | false =>
        refine wp_bind.2 (Crew.wp_post hfit fun w _ => ?_)
        exact postWindow_spec ts _ (by rw [← hx, List.append_assoc]; rfl)

theorem signalAbort_spec {Q : Bool → Crew.Seen CopyTask CopyCrcs → Prop} (hx : x.posted <+: all)
    (h : ∀ r w, x.world.errors ≤ w.errors → Q r { x with world := w }) :
    CopyPosterSpec base64Decode object k all signalAbort Q x := by
  refine wp_bind.2 (posterCopy_spec hx fun errors w hw => ?_)
  split
  · exact wp_bind.2 (posterCopy_spec hx fun _ w' hw' => h true w' (hw.trans hw'))
  · refine wp_bind.2 (posterCopy_spec hx fun shutdown w' hw' => ?_)
    cases shutdown with
    | true => exact wp_bind.2 (posterCopy_spec hx fun _ w'' hw'' => h true w'' (hw.trans (hw'.trans hw'')))
    | false => exact h false w' (hw.trans hw')

omit [ZlibNg] in
/-- A wait that timed out has left an error. -/
structure Waited (x : Crew.Seen CopyTask CopyCrcs) (timedOut : Bool) (x' : Crew.Seen CopyTask CopyCrcs) : Prop where
  posted : x'.posted = x.posted
  errors : x.world.errors ≤ x'.world.errors
  timedOut : timedOut = true → 1 ≤ x'.world.errors

theorem waitFutures_spec : ∀ (ts : List CopyTask) (abortTriggered : Bool) (x : Crew.Seen CopyTask CopyCrcs),
    x.posted <+: all → CopyPosterSpec base64Decode object k all (waitFutures ts abortTriggered) (Waited x) x
  | [], _, x, _ => ⟨rfl, Nat.le_refl _, by simp⟩
  | t :: ts, abortTriggered, x, hx => by
    have hwaits : ∀ triggered w, x.world.errors ≤ w.errors → CopyPosterSpec base64Decode object k all
        (do if ← posterCopy .waitTimedOut then
              posterCopy .addError
              let _ ← waitFutures ts triggered
              return true
            waitFutures ts triggered) (Waited x) { x with world := w } := by
      intro triggered w hw
      refine wp_bind.2 (posterCopy_spec hx fun timedOut w' hw' => ?_)
      cases timedOut with
      | true =>
        refine wp_bind.2 (Crew.wp_ask hx fun _ w₁ w₂ _ hrely he => ?_)
        obtain rfl := he
        dsimp only at hw' hrely
        refine wp_bind.2 (wp_mono ?_ (waitFutures_spec ts triggered _ hx))
        rintro _ x' ⟨hposted, herrors, -⟩
        dsimp only at herrors
        exact ⟨hposted, by omega, fun _ => by omega⟩
      | false =>
        refine wp_mono ?_ (waitFutures_spec ts triggered _ hx)
        rintro _ x' ⟨hposted, herrors, htimedOut⟩
        dsimp only at herrors hw'
        exact ⟨hposted, by omega, htimedOut⟩
    rw [waitFutures]
    cases abortTriggered with
    | true => exact hwaits true x.world (Nat.le_refl _)
    | false => exact wp_bind.2 (signalAbort_spec hx fun triggered w hw => hwaits triggered w hw)

omit [ZlibNg] in
/-- The tasks of a request for chunks the object has. -/
structure Planned (object : Bytes) (k : Nat) (chunkIds : List Int) (all : List CopyTask) : Prop where
  valid : ∀ id ∈ chunkIds, 0 ≤ id ∧ id < (numChunks k object.length : Nat)
  ids : all.map CopyTask.chunkId = fanOutIds (numChunks k object.length : Nat) chunkIds

/-- **As many successes as chunks: every slot has the checksum of its chunk.** -/
theorem answers_of_counted {chunkIds : List Int} (hall : Planned object k chunkIds all)
    {posted : List CopyTask} (hfit : posted <+: all) {w : CopyCrcs}
    (h : Crew.FitDone (· <+: all) CopyTotal (CopyQ object k) posted w) (hcount : w.succeeded = all.length) :
    AnswersChunks object k chunkIds ((requestedIds (numChunks k object.length : Nat) chunkIds).map w.crc32Results) := by
  obtain ⟨xs, rfl, ht, hq⟩ := h hfit
  obtain ⟨hle, hone⟩ := all_one_of_sum (fun x : CopyTask × CopyShare => x.2.counted) xs fun x hx => (hq x hx).1
  rw [← ht.succeeded, hcount] at hle hone
  have hshort := hfit.length_le
  rw [List.length_map] at hshort
  have hposted : xs.map Prod.fst = all := hfit.eq_of_length (by rw [List.length_map]; omega)
  have hslot : ∀ id ∈ requestedIds (numChunks k object.length : Nat) chunkIds,
      w.crc32Results id = chunkCrc object k id := by
    intro id hid
    rw [← mem_fanOutIds, ← hall.ids, ← hposted, List.map_map] at hid
    obtain ⟨x, hx, rfl⟩ := List.mem_map.1 hid
    exact ht.crc x hx _ ((hq x hx).2 (hone hshort x hx))
  rw [List.map_congr_left hslot]
  exact .answered hall.valid

/-- What a fan-out leaves: an answer, and tasks it was to post. -/
structure Answered (object : Bytes) (k : Nat) (chunkIds : List Int) (all : List CopyTask) (crcs : List UInt32)
    (x : Crew.Seen CopyTask CopyCrcs) : Prop where
  crcs : AnswersChunks object k chunkIds crcs
  posted : x.posted <+: all

theorem finishFanOut_spec {chunkIds : List Int} (hall : Planned object k chunkIds all) (hx : x.posted <+: all)
    (h : 1 ≤ x.world.errors ∨
      x.joined = true ∧ Crew.FitDone (· <+: all) CopyTotal (CopyQ object k) x.posted x.world) :
    CopyPosterSpec base64Decode object k all (finishFanOut (numChunks k object.length : Nat) all chunkIds)
      (Answered object k chunkIds all) x := by
  unfold finishFanOut
  refine wp_bind.2 (Crew.wp_ask hx fun errors w w' hj hrely he => ?_)
  obtain ⟨rfl, rfl⟩ := he
  by_cases herrors : w'.errors > 0
  · rw [if_pos herrors]
    exact ⟨.failed, hx⟩
  · rw [if_neg herrors]
    rcases h with h | ⟨hjoined, hdone⟩
    · exact absurd (Nat.lt_of_lt_of_le h hrely) herrors
    · obtain rfl := hj hjoined
      refine wp_bind.2 (Crew.wp_ask hx fun succeeded w w' hj _ he => ?_)
      obtain ⟨rfl, rfl⟩ := he
      obtain rfl := hj hjoined
      by_cases hcount : x.world.succeeded ≠ all.length
      · rw [if_pos hcount]
        exact ⟨.failed, hx⟩
      · rw [if_neg hcount]
        refine Crew.wp_ask hx fun crcs w w' hj _ he => ?_
        obtain ⟨rfl, rfl⟩ := he
        obtain rfl := hj hjoined
        exact ⟨answers_of_counted hall hx hdone (not_not.1 hcount), hx⟩

omit [ZlibNg] in
/-- The tasks a fan-out posts: none where it refuses the request. -/
def S3MultipartCopy.posts (m : S3MultipartCopy) (chunkIds : List Int) : List CopyTask :=
  if chunkRequestIsValid chunkIds m.filesize m.numChunks then m.tasks chunkIds else []

section FanOuts

variable {maxRetries : Int} {chunkIds : List Int}

/-- A request it refuses gets no checksums, and it posts what the others are for. -/
theorem fanOut_request (hk : 0 < k) (hx : x.posted = []) {p : CopyPoster (List UInt32)}
    (h : Planned object k chunkIds ((⟨object.length, k, maxRetries⟩ : S3MultipartCopy).tasks chunkIds) →
      CopyPosterSpec base64Decode object k ((⟨object.length, k, maxRetries⟩ : S3MultipartCopy).tasks chunkIds) p
        (Answered object k chunkIds ((⟨object.length, k, maxRetries⟩ : S3MultipartCopy).tasks chunkIds)) x) :
    CopyPosterSpec base64Decode object k ((⟨object.length, k, maxRetries⟩ : S3MultipartCopy).posts chunkIds)
      (if !chunkRequestIsValid chunkIds object.length (⟨object.length, k, maxRetries⟩ : S3MultipartCopy).numChunks then
        return [] else p)
      (Answered object k chunkIds ((⟨object.length, k, maxRetries⟩ : S3MultipartCopy).posts chunkIds)) x := by
  unfold S3MultipartCopy.posts
  have hcount : (⟨object.length, k, maxRetries⟩ : S3MultipartCopy).numChunks = (numChunks k object.length : Nat) :=
    chunkCountForSize_eq hk object.length
  cases hvalid : chunkRequestIsValid chunkIds object.length
      (⟨object.length, k, maxRetries⟩ : S3MultipartCopy).numChunks with
  | false => exact ⟨.failed, hx ▸ List.nil_prefix⟩
  | true =>
    refine h ⟨?_, ?_⟩
    · unfold chunkRequestIsValid at hvalid
      simp only [Bool.and_eq_true, List.all_eq_true, decide_eq_true_eq, hcount] at hvalid
      exact hvalid.2
    · unfold S3MultipartCopy.tasks
      rw [List.map_map, hcount]
      exact List.map_id _

theorem parallelUploadPartCopyRequests_spec (hk : 0 < k) (hx : x.posted = []) :
    CopyPosterSpec base64Decode object k ((⟨object.length, k, maxRetries⟩ : S3MultipartCopy).posts chunkIds)
      ((⟨object.length, k, maxRetries⟩ : S3MultipartCopy).parallelUploadPartCopyRequests chunkIds)
      (Answered object k chunkIds ((⟨object.length, k, maxRetries⟩ : S3MultipartCopy).posts chunkIds)) x := by
  refine fanOut_request hk hx fun hplanned => ?_
  have hcount : (⟨object.length, k, maxRetries⟩ : S3MultipartCopy).numChunks = (numChunks k object.length : Nat) :=
    chunkCountForSize_eq hk object.length
  rw [hcount]
  refine wp_bind.2 (wp_mono (fun _ x' hx' => ?_) (postEach_spec _ x (by rw [hx]; exact List.nil_append _)))
  have hfit : x'.posted <+: (⟨object.length, k, maxRetries⟩ : S3MultipartCopy).tasks chunkIds := hx' ▸ List.prefix_rfl
  refine wp_bind.2 (wp_mono ?_ (waitFutures_spec _ false x' hfit))
  rintro timedOut x'' ⟨hposted, -, htimedOut⟩
  rw [← hposted] at hfit
  cases timedOut with
  | true => exact finishFanOut_spec hplanned hfit (.inl (htimedOut rfl))
  | false => exact wp_bind.2 (Crew.wp_join hfit fun w _ hdone => finishFanOut_spec hplanned hfit (.inr ⟨rfl, hdone⟩))

theorem parallelUploadPartCopyRequestsThreadPool_spec (hk : 0 < k) (hx : x.posted = []) :
    CopyPosterSpec base64Decode object k ((⟨object.length, k, maxRetries⟩ : S3MultipartCopy).posts chunkIds)
      ((⟨object.length, k, maxRetries⟩ : S3MultipartCopy).parallelUploadPartCopyRequestsThreadPool chunkIds)
      (Answered object k chunkIds ((⟨object.length, k, maxRetries⟩ : S3MultipartCopy).posts chunkIds)) x := by
  refine fanOut_request hk hx fun hplanned => ?_
  have hcount : (⟨object.length, k, maxRetries⟩ : S3MultipartCopy).numChunks = (numChunks k object.length : Nat) :=
    chunkCountForSize_eq hk object.length
  rw [hcount]
  refine wp_bind.2 (wp_mono (fun _ x' hfit => ?_) (postWindow_spec _ x (by rw [hx]; exact List.nil_append _)))
  exact wp_bind.2 (Crew.wp_join hfit fun w _ hdone => finishFanOut_spec hplanned hfit (.inr ⟨rfl, hdone⟩))

theorem getHashes_spec (hk : 0 < k) (hx : x.posted = []) (numThreads : Int) :
    CopyPosterSpec base64Decode object k ((⟨object.length, k, maxRetries⟩ : S3MultipartCopy).posts chunkIds)
      ((⟨object.length, k, maxRetries⟩ : S3MultipartCopy).getHashes chunkIds numThreads)
      (Answered object k chunkIds ((⟨object.length, k, maxRetries⟩ : S3MultipartCopy).posts chunkIds)) x := by
  have hfit : x.posted <+: (⟨object.length, k, maxRetries⟩ : S3MultipartCopy).posts chunkIds := hx ▸ List.nil_prefix
  unfold S3MultipartCopy.getHashes
  split
  · exact ⟨.failed, hfit⟩
  · refine wp_bind.2 (posterCopy_spec hfit fun created w _ => ?_)
    cases created with
    | false => exact ⟨.failed, hfit⟩
    | true =>
      have hend : ∀ crcs x', Answered object k chunkIds
          ((⟨object.length, k, maxRetries⟩ : S3MultipartCopy).posts chunkIds) crcs x' →
          CopyPosterSpec base64Decode object k ((⟨object.length, k, maxRetries⟩ : S3MultipartCopy).posts chunkIds)
            (do posterCopy .abortMultipartUpload
                return crcs)
            (Answered object k chunkIds ((⟨object.length, k, maxRetries⟩ : S3MultipartCopy).posts chunkIds)) x' :=
        fun crcs x' h => wp_bind.2 (posterCopy_spec h.posted fun _ _ _ => ⟨h.crcs, h.posted⟩)
      by_cases hpool : numThreads > 0
      · rw [if_pos hpool]
        exact wp_bind.2 (wp_mono hend (parallelUploadPartCopyRequestsThreadPool_spec hk hx))
      · rw [if_neg hpool]
        exact wp_bind.2 (wp_mono hend (parallelUploadPartCopyRequests_spec hk hx))

/-! ### An object of one chunk -/

omit [ZlibNg] in
/-- **A read of all bytes that returns as many has them.** -/
theorem rangeRead_whole {data : Bytes} (hn : object.length < 2 ^ 62) (hr : RangeRead object 0 (object.length - 1) data)
    (hlength : (data.length : Int) = object.length) (hne : data ≠ []) : data = object := by
  obtain ⟨client, heap, answer, htruthful, hread⟩ := hr.resolve_left hne
  have hpos := List.length_pos_of_ne_nil hne
  have hstop : (object.length : Int) - 1 < 2 ^ 63 := by omega
  have hvalid : 0 ≤ (0 : Int) ∧ (0 : Int) ≤ object.length - 1 ∧ (object.length : Int) - 1 - 0 < 2 ^ 63 - 1 := by omega
  unfold getObjectRange at hread
  rw [validateRange_spec hstop, if_pos hvalid] at hread
  obtain ⟨data', hdata', hrange⟩ := getObjectRangeFrom_spec heap (.inl rfl) (Int.le_refl 0) hvalid.2.1 hstop htruthful
    (client.maxRetries + 1).toNat 0
  obtain rfl : data' = data := Option.some.inj (hdata'.symm.trans hread)
  obtain ⟨-, -, -, heq⟩ := hrange.resolve_left hne
  rw [heq]
  exact List.take_of_length_le (by rw [List.length_drop]; omega)

omit [ZlibNg] in
/-- A chunk as large as the object is the object. -/
theorem chunk_zero (h : object.length ≤ k) : chunk k object 0 = object := by
  unfold chunk chunkLen
  rw [Nat.zero_mul, Nat.zero_add, Nat.min_eq_right h, Nat.sub_zero]
  exact slice_zero_length object

theorem answers_whole (hk : 0 < k) (hpos : 0 < object.length) (hle : object.length ≤ k)
    (hvalid : ∀ id ∈ chunkIds, 0 ≤ id ∧ id < (numChunks k object.length : Nat)) :
    AnswersChunks object k chunkIds
      (if chunkIds.isEmpty then [crc32Hw object] else List.replicate chunkIds.length (crc32Hw object)) := by
  have hone : numChunks k object.length = 1 := by
    have hnot : ¬ 1 < numChunks k object.length := by
      rw [lt_numChunks hk]
      omega
    have := numChunks_pos hk hpos
    omega
  have hcrc : chunkCrc object k 0 = crc32Hw object := congrArg crc32Hw (chunk_zero hle)
  have hanswer := AnswersChunks.answered hvalid
  rw [hone] at hanswer hvalid
  unfold requestedIds at hanswer
  cases chunkIds with
  | nil =>
    rw [← hcrc]
    exact hanswer
  | cons id ids =>
    have hzero : (id :: ids).map (chunkCrc object k) = List.replicate (id :: ids).length (crc32Hw object) := by
      refine List.map_eq_replicate_iff.2 fun id' hid' => ?_
      obtain rfl : id' = 0 := by
        have := hvalid id' hid'
        omega
      exact hcrc
    rw [if_neg (by simp), hzero] at hanswer
    exact hanswer

theorem getChunkCRC32s_spec {chunkSize : Int} (hc : chunkSizeOf chunkSize = k) (hk : 0 < k)
    (hn : object.length < 2 ^ 62) (hx : x.posted = []) (numThreads : Int) :
    CopyPosterSpec base64Decode object k ((⟨object.length, k, maxRetries⟩ : S3MultipartCopy).posts chunkIds)
      (getChunkCRC32s object.length chunkIds numThreads chunkSize maxRetries)
      (fun crcs _ => AnswersChunks object k chunkIds crcs) x := by
  have hfit : x.posted <+: (⟨object.length, k, maxRetries⟩ : S3MultipartCopy).posts chunkIds := hx ▸ List.nil_prefix
  unfold getChunkCRC32s
  rw [hc, requestChunkCount_eq hk]
  by_cases hinvalid : (chunkIds.any fun id => id < 0 || id ≥ (numChunks k object.length : Nat)) = true
  · rw [if_pos hinvalid]
    exact .failed
  · rw [if_neg hinvalid]
    have hvalid : ∀ id ∈ chunkIds, 0 ≤ id ∧ id < (numChunks k object.length : Nat) := by
      intro id hid
      by_contra hnot
      refine hinvalid (List.any_eq_true.2 ⟨id, hid, ?_⟩)
      simp only [Bool.or_eq_true, decide_eq_true_eq]
      omega
    by_cases hsmall : (object.length : Int) ≤ k
    · rw [if_pos hsmall]
      by_cases hempty : (object.length : Int) ≤ 0
      · rw [if_pos hempty]
        exact .failed
      · rw [if_neg hempty]
        refine wp_bind.2 (Crew.wp_ask hfit fun data w w' _ _ he => ?_)
        obtain ⟨hread, -⟩ := he
        by_cases hnil : data = []
        · rw [if_pos hnil]
          exact .failed
        · rw [if_neg hnil]
          by_cases hshort : (data.length : Int) ≠ object.length
          · rw [if_pos hshort]
            exact .failed
          · rw [if_neg hshort]
            rw [rangeRead_whole hn hread (not_not.1 hshort) hnil]
            have hanswer := answers_whole hk (by omega) (by omega) hvalid
            split at hanswer
            · rename_i hall
              rw [if_pos hall]
              exact hanswer
            · rename_i hsome
              rw [if_neg hsome]
              exact hanswer
    · rw [if_neg hsmall]
      exact wp_mono (fun _ _ h => h.crcs) (getHashes_spec hk hx numThreads)

end FanOuts

/-! ## The contract -/

/-- **A poster that answers, whatever its tasks and the server do, returns its answer.** -/
theorem copyPoster_returns (hk : 0 < k) (hn : object.length < 2 ^ 62) (hk' : k < 2 ^ 62) (maxRetries : Int)
    {chunkIds : List Int} {p : CopyPoster (List UInt32)} (hasks : Asks (Crew.Mine CopyMine) p)
    (hspec : CopyPosterSpec base64Decode object k
      ((⟨object.length, k, maxRetries⟩ : S3MultipartCopy).posts chunkIds) p
      (fun crcs _ => AnswersChunks object k chunkIds crcs) ⟨[], true, {}⟩) :
    Crew.Returns (copyExec base64Decode object) (processChunk base64Decode) p {} (AnswersChunks object k chunkIds) := by
  have hcount : (⟨object.length, k, maxRetries⟩ : S3MultipartCopy).numChunks = (numChunks k object.length : Nat) :=
    chunkCountForSize_eq hk object.length
  have hposts : ∀ t ∈ (⟨object.length, k, maxRetries⟩ : S3MultipartCopy).posts chunkIds,
      t.copier = ⟨object.length, k, maxRetries⟩ ∧
        0 ≤ t.chunkId ∧ t.chunkId < (numChunks k object.length : Nat) := by
    unfold S3MultipartCopy.posts
    split
    · rename_i hvalid
      unfold chunkRequestIsValid at hvalid
      simp only [Bool.and_eq_true, List.all_eq_true, decide_eq_true_eq, hcount] at hvalid
      intro t ht
      obtain ⟨id, hid, rfl⟩ := List.mem_map.1 ht
      refine ⟨rfl, ?_⟩
      rw [hcount, mem_fanOutIds] at hid
      unfold requestedIds at hid
      split at hid
      · obtain ⟨i, hi, rfl⟩ := List.mem_map.1 hid
        rw [List.mem_range] at hi
        exact ⟨Int.natCast_nonneg i, Int.ofNat_lt.2 (by simpa using hi)⟩
      · exact hvalid.2 id hid
    · simp
  have hids : (((⟨object.length, k, maxRetries⟩ : S3MultipartCopy).posts chunkIds).map CopyTask.chunkId).Nodup := by
    unfold S3MultipartCopy.posts
    split
    · unfold S3MultipartCopy.tasks
      rw [List.map_map]
      exact (List.map_id _).symm ▸ fanOutIds_nodup _ _
    · exact List.nodup_nil
  exact (copyFitting hk hn hk' (fun t ht => (hposts t ht).1) (fun t ht => (hposts t ht).2) hids).returns copyExec_total
    ⟨List.nodup_nil, by simp, rfl⟩ hasks hspec

end Posters

/-- **Every `GetChunkCRC32s` returns nothing, or the checksums of the request in its order.**  For a content and a
chunk size below `2 ^ 62`, whatever is answered and in whatever order the tasks run, each implementation returns, and
only with what `AnswersChunks` allows. -/
theorem chunkCrcs_contract [ZlibNg] (base64Decode : Str → Bytes) (content : Bytes) (chunkSize : Int) (chunkIds : List Int)
    (numThreads maxRetries : Int) (hn : content.length < 2 ^ 62) (hpos : 0 < chunkSize) (hk : chunkSize < 2 ^ 62) :
    Crew.Returns (fileExec content) computeChunkCrc (computeCrc32ChunksBoostAsio chunkIds chunkSize) {}
        (AnswersChunks content chunkSize.toNat chunkIds) ∧
      Crew.Returns (copyExec base64Decode content) (processChunk base64Decode)
        (getChunkCRC32s content.length chunkIds numThreads chunkSize maxRetries) {}
        (AnswersChunks content chunkSize.toNat chunkIds) ∧
      Crew.Returns (copyExec base64Decode content) (processChunk base64Decode)
        ((⟨content.length, chunkSize, maxRetries⟩ : S3MultipartCopy).parallelUploadPartCopyRequests chunkIds) {}
        (AnswersChunks content chunkSize.toNat chunkIds) ∧
      Crew.Returns (copyExec base64Decode content) (processChunk base64Decode)
        ((⟨content.length, chunkSize, maxRetries⟩ : S3MultipartCopy).parallelUploadPartCopyRequestsThreadPool chunkIds)
        {} (AnswersChunks content chunkSize.toNat chunkIds) := by
  obtain ⟨k, rfl⟩ := Int.eq_ofNat_of_zero_le (Int.le_of_lt hpos)
  have hk₀ : 0 < k := by omega
  have hk₁ : k < 2 ^ 62 := by omega
  have hc : chunkSizeOf k = k := if_pos hpos
  rw [Int.toNat_natCast]
  refine ⟨?_, ?_, ?_, ?_⟩
  · exact computeCrc32ChunksBoostAsio_returns hc hk₀ hn hk₁ chunkIds
  · exact copyPoster_returns hk₀ hn hk₁ maxRetries (getChunkCRC32s_asks _ _ _ _ _)
      (getChunkCRC32s_spec hc hk₀ hn rfl numThreads)
  · exact copyPoster_returns hk₀ hn hk₁ maxRetries (parallelUploadPartCopyRequests_asks _ _)
      (wp_mono (fun _ _ h => h.crcs) (parallelUploadPartCopyRequests_spec hk₀ rfl))
  · exact copyPoster_returns hk₀ hn hk₁ maxRetries (parallelUploadPartCopyRequestsThreadPool_asks _ _)
      (wp_mono (fun _ _ h => h.crcs) (parallelUploadPartCopyRequestsThreadPool_spec hk₀ rfl))

/-! ### A fan-out that answers -/

section Nine

/-- The checksum that zlib-ng computes. -/
local instance crc32ZlibNg : ZlibNg := ⟨crc32From, crc32From_nil 0, crc32From_append 0⟩

/-- The value of a base64 digit. -/
def sextet (c : Char) : Nat :=
  if c.isUpper then c.toNat - 65
  else if c.isLower then c.toNat - 71
  else if c.isDigit then c.toNat + 4
  else if c = '+' then 62
  else 63

/-- The bytes of a base64 text, three for each group of four digits and fewer where it is padded. -/
def decodeBase64 : Str → Bytes
  | a :: b :: c :: d :: rest =>
    let n := sextet a * 2 ^ 18 + sextet b * 2 ^ 12 + sextet c * 2 ^ 6 + sextet d
    [UInt8.ofNat (n / 2 ^ 16), UInt8.ofNat (n / 2 ^ 8), UInt8.ofNat n].take
      (if c = '=' then 1 else if d = '=' then 2 else 3) ++ decodeBase64 rest
  | _ => []

def nineBytes : Bytes := [0x31, 0x32, 0x33, 0x34, 0x35, 0x36, 0x37, 0x38, 0x39]

/-- The checksum of the first chunk, as a response has it. -/
def firstChecksum : Str := ['m', '+', 'P', 'g', 'o', 'w', '=', '=']

example : decodeBase64 firstChecksum = [0x9B, 0xE3, 0xE0, 0xA3] := by decide +kernel

theorem firstChecksum_truthful : (PartCopyAns.success firstChecksum).Truthful decodeBase64 nineBytes 0 3 := by
  refine ⟨[0x31, 0x32, 0x33, 0x34], by unfold IsRange; decide, fun b₀ b₁ b₂ b₃ h => ?_⟩
  have hdecoded : decodeBase64 firstChecksum = [0x9B, 0xE3, 0xE0, 0xA3] := by decide +kernel
  obtain ⟨rfl, rfl, rfl, rfl⟩ : b₀ = 0x9B ∧ b₁ = 0xE3 ∧ b₂ = 0xE0 ∧ b₃ = 0xA3 := by
    simpa using h.symm.trans hdecoded
  decide +kernel

/-- The first chunk's task, once its checksum has come. -/
theorem processChunk_first : Prog.Steps (copyExec decodeBase64 nineBytes)
    (processChunk decodeBase64 ⟨⟨9, 4, 0⟩, 0⟩, ({} : CopyCrcs))
    (.ret (), ⟨Function.update (fun _ => 0) 0 0x9BE3E0A3, 0, 1, 1, false⟩) := by
  have hstored : checksumOfBytes (decodeBase64 firstChecksum) = some 0x9BE3E0A3 := by decide +kernel
  have hattempt : Prog.Steps (copyExec decodeBase64 nineBytes)
      ((⟨9, 4, 0⟩ : S3MultipartCopy).processSingleChunk decodeBase64 0, ({} : CopyCrcs))
      (.ret (some 0x9BE3E0A3), {}) := by
    refine .head (.answer (r := false) ⟨rfl, rfl⟩) (.head (.answer (r := false) rfl) ?_)
    refine .head (.answer (r := false) ⟨rfl, rfl⟩) (.head (.answer (r := false) rfl) ?_)
    refine .head (.answer (r := .success firstChecksum) ⟨by simpa using firstChecksum_truthful, rfl⟩) ?_
    simp only [Prog.bind, hstored]
    exact .refl
  refine .trans (Prog.steps_bind hattempt _) ?_
  refine .head (.answer (r := ()) rfl) (.head (.answer (r := ()) rfl) ?_)
  refine .head (.answer (r := 0) ⟨rfl, rfl⟩) ?_
  exact .single (.answer rfl)

theorem chunkCrcs_contract_nine : ∃ s : Crew CopyCall CopyTask CopyResp (List UInt32) CopyCrcs,
    Crew.Steps (copyExec decodeBase64 nineBytes) (processChunk decodeBase64)
      ⟨(⟨9, 4, 0⟩ : S3MultipartCopy).parallelUploadPartCopyRequestsThreadPool [0, 0], [], {}⟩ s ∧
    s.poster = .ret [0x9BE3E0A3, 0x9BE3E0A3] ∧ AnswersChunks nineBytes 4 [0, 0] [0x9BE3E0A3, 0x9BE3E0A3] := by
  have hrun : Crew.Steps (copyExec decodeBase64 nineBytes) (processChunk decodeBase64)
      ⟨(⟨9, 4, 0⟩ : S3MultipartCopy).parallelUploadPartCopyRequestsThreadPool [0, 0], [], {}⟩
      ⟨.ret [0x9BE3E0A3, 0x9BE3E0A3], [(⟨⟨9, 4, 0⟩, 0⟩, .ret ())],
        ⟨Function.update (fun _ => 0) 0 0x9BE3E0A3, 0, 1, 1, false⟩⟩ := by
    refine .head (.ask (r := false) ⟨rfl, rfl⟩) (.head (.ask (r := false) rfl) ?_)
    refine .head (.ask (r := false) ⟨rfl, rfl⟩) (.head (.ask (r := false) rfl) ?_)
    refine .head .post ?_
    refine .trans (Crew.steps_work _ _ (a := []) (b := []) processChunk_first) ?_
    refine .head (.join (by simp)) ?_
    refine .head (.ask (r := 0) ⟨rfl, rfl⟩) (.head (.ask (r := 1) ⟨rfl, rfl⟩) ?_)
    exact .single (.ask ⟨rfl, rfl⟩)
  have hcontract := chunkCrcs_contract decodeBase64 nineBytes 4 [0, 0] 8 0 (by decide) (by decide) (by decide)
  exact ⟨_, hrun, rfl, hcontract.2.2.2.returned _ _ hrun rfl⟩

end Nine

end Mito
