import MitoSync.Lib.Crc
import MitoSync.DiffRequests
import MitoSync.DiffSound
/-!
# ChunkEdits — the edits that checksums always tell

The program compares contents by the CRC-32 of their chunks, and a CRC-32 of other bytes may be the same.  But not
where they differ in four consecutive bytes at most (`Lib.crc32_burst`).  So between contents whose chunks differ by no
more, both differential executors leave the source's bytes where they succeed, copy no chunk that differs, and, where
no request fails, read none that does not; and `mito diff` finds the two equal exactly if they are (`bursts_told`).
-/
namespace Mito

open Lib Prog

/-- Two contents of one length whose chunks each differ in four consecutive bytes at most. -/
structure EditedInBursts (x y : Bytes) : Prop where
  length : x.length = y.length
  bursts : ∀ i, i < numChunks defaultChunkSize x.length →
    Burst 4 (chunk defaultChunkSize x i) (chunk defaultChunkSize y i)

section Checksums

variable {E : Env} {x y : Bytes} {i : Nat}

/-- **Such edits are told apart.** -/
theorem EditedInBursts.separates (h : EditedInBursts x y) (hcrc : ∀ d, E.crc d = crc32 d) : E.Separates x y := by
  intro i hi _ heq
  rw [hcrc, hcrc] at heq
  exact (crc32_burst (h.bursts i hi)).1 heq

/-- **A chunk is taken for unchanged exactly if it is.** -/
theorem EditedInBursts.unchanged (h : EditedInBursts x y) (hcrc : ∀ d, E.crc d = crc32 d)
    (hi : i < numChunks defaultChunkSize x.length) :
    unchangedChunk (E.chunkCRC32s x) (E.chunkCRC32s y) i = true ↔
      chunk defaultChunkSize x i = chunk defaultChunkSize y i := by
  refine ⟨unchangedChunk_eq (h.separates hcrc), fun heq => ?_⟩
  have hi' : i < numChunks defaultChunkSize y.length :=
    lt_of_lt_of_eq hi (congrArg (numChunks defaultChunkSize) h.length)
  rw [unchangedChunk_of_some (getElem?_chunkCRC32s hi) (getElem?_chunkCRC32s hi'), heq, beq_self_eq_true]

theorem EditedInBursts.changed (h : EditedInBursts x y) (hcrc : ∀ d, E.crc d = crc32 d)
    (hi : i < numChunks defaultChunkSize x.length)
    (hu : unchangedChunk (E.chunkCRC32s x) (E.chunkCRC32s y) i = false) :
    chunk defaultChunkSize x i ≠ chunk defaultChunkSize y i := fun heq => by
  rw [(h.unchanged hcrc hi).2 heq] at hu
  cases hu

end Checksums

/-! ## What is moved -/

/-- A request may have failed, or there is no chunk that the source shares with `old`. -/
def Env.Anew (E : Env) (old : Bytes) : Prop :=
  E.faulty ∨ ∀ i, i < numChunks defaultChunkSize E.source.length →
    chunk defaultChunkSize E.source i ≠ chunk defaultChunkSize old i

/-- The requests that move no more than the edits: what is copied within the destination is a chunk that it shares with
the source, and where no request fails no byte of such a chunk is read. -/
def Env.MovesEdits (E : Env) (old : Bytes) : Call → Prop
  | .sourceRange start len => E.faulty ∨ ∀ i, i < numChunks defaultChunkSize E.source.length →
      start < (i + 1) * defaultChunkSize → i * defaultChunkSize < start + len →
      chunk defaultChunkSize E.source i ≠ chunk defaultChunkSize old i
  | .putSource => E.Anew old
  | .uploadPartCopy _ partNumber startByte endByte => ∃ i, i < numChunks defaultChunkSize E.source.length ∧
      partNumber = i + 1 ∧ startByte = i * defaultChunkSize ∧
      endByte = min (i * defaultChunkSize + defaultChunkSize) E.source.length - 1 ∧
      chunk defaultChunkSize E.source i = chunk defaultChunkSize old i
  | _ => True

section Moves

variable {E : Env} {o : Stored} {old : Bytes} {s : Slot}

theorem ofLook_moves (c : Call) (h : c.ofLook) : E.MovesEdits old c := by
  cases c <;> first | exact h.elim | trivial

theorem whole_moves (hanew : E.Anew old) (c : Call) (h : c.whole) : E.MovesEdits old c := by
  cases c with
  | sourceRange start len => exact hanew.imp_right fun hall i hi _ _ => hall i hi
  | putSource => exact hanew
  | uploadPartCopy => exact h.elim
  | _ => trivial

/-- A range that starts with a chunk and is no longer meets that chunk only. -/
theorem eq_of_meets {k i j len : Nat} (hlen : len ≤ k) (h₁ : i * k < (j + 1) * k) (h₂ : j * k < i * k + len) : i = j := by
  have hij : i < j + 1 := Nat.lt_of_mul_lt_mul_right h₁
  have hji : j < i + 1 := by
    refine Nat.lt_of_mul_lt_mul_right (a := k) ?_
    rw [Nat.add_mul, Nat.one_mul]
    omega
  omega

theorem EditedInBursts.moves_chunk (h : EditedInBursts E.source old) (hcrc : ∀ d, E.crc d = crc32 d) {i len : Nat}
    (hlen : len ≤ defaultChunkSize) (hu : unchangedChunk (E.chunkCRC32s E.source) (E.chunkCRC32s old) i = false) :
    E.MovesEdits old (.sourceRange (i * defaultChunkSize) len) := by
  refine .inr fun j hj h₁ h₂ => ?_
  obtain rfl := eq_of_meets hlen h₁ h₂
  exact h.changed hcrc hj hu

theorem EditedInBursts.ofParts_moves (h : EditedInBursts E.source old) (hcrc : ∀ d, E.crc d = crc32 d)
    {crcs : List UInt32} (hcrcs : crcs = [] ∧ E.faulty ∨ crcs = E.chunkCRC32s old) (c : Call)
    (hc : c.ofParts E.source.length (E.chunkCRC32s E.source) crcs) : E.MovesEdits old c := by
  cases c with
  | uploadPartCopy id partNumber startByte endByte =>
    obtain ⟨i, hu, hpart, hstart, hend⟩ := hc
    rcases hcrcs with ⟨rfl, -⟩ | rfl
    · rw [unchangedChunk_nil] at hu
      cases hu
    · have hi := (unchangedChunk_lt hu).1
      rw [length_chunkCRC32s] at hi
      exact ⟨i, hi, hpart, hstart, hend, (h.unchanged hcrc hi).1 hu⟩
  | sourceRange start len =>
    obtain ⟨i, hu, rfl, rfl⟩ := hc
    rcases hcrcs with ⟨-, hfaulty⟩ | rfl
    · exact .inl hfaulty
    · exact h.moves_chunk hcrc (by omega) hu
  | _ => first | exact hc.elim | trivial

theorem EditedInBursts.ofPatch_moves (h : EditedInBursts E.source old) (hcrc : ∀ d, E.crc d = crc32 d) (c : Call)
    (hc : c.ofPatch (chunksToDownload (E.chunkCRC32s E.source) (E.chunkCRC32s old)) E.source.length) :
    E.MovesEdits old c := by
  cases c with
  | sourceRange start len =>
    obtain ⟨i, hi, rfl, rfl⟩ := hc
    have hu := (List.mem_filter.1 hi).2
    rw [Bool.not_eq_true'] at hu
    exact h.moves_chunk hcrc (chunkLen_le _ _ _) hu
  | _ => first | exact hc.elim | trivial

/-- Where no chunk is taken for unchanged, none is. -/
theorem EditedInBursts.anew (h : EditedInBursts E.source old) (hcrc : ∀ d, E.crc d = crc32 d)
    (hu : unchangedChunks (E.chunkCRC32s E.source) (E.chunkCRC32s old) = 0) : E.Anew old := by
  refine .inr fun i hi => h.changed hcrc hi ?_
  have hnone := List.length_eq_zero_iff.1 hu
  rw [List.filter_eq_nil_iff] at hnone
  have hi' : i ∈ List.range (E.chunkCRC32s E.source).length := by
    rw [List.mem_range, length_chunkCRC32s]
    exact hi
  simpa using hnone i hi'

theorem EditedInBursts.chunkCRC32s_ne (h : EditedInBursts E.source old) (hne : E.source ≠ []) :
    E.chunkCRC32s old ≠ [] := fun hnil => by
  have hzero := congrArg List.length hnil
  rw [length_chunkCRC32s, ← h.length] at hzero
  exact absurd hzero (numChunks_pos defaultChunkSize_pos (List.length_pos_iff.2 hne)).ne'

/-! ### The executors -/

theorem fullDownload_moves (hanew : E.Anew old) (fuel : Nat) (base relative : Str) (s3Size : Int) :
    (downloadSmallFile fuel base relative s3Size).Asks (E.MovesEdits old) := by
  have hask : ∀ c : Call, c.whole → Asks (E.MovesEdits old) (ask c) := fun c hc => asks_req.2 (whole_moves hanew c hc)
  exact downloadSmallFile_composes (asks_composes _) hask
    (openWriter_composes (asks_composes _) hask (asks_req.2 trivial)) (asks_req.2 trivial) _ _ _ _

theorem EditedInBursts.diffUploadDecide_moves (h : EditedInBursts E.source old) (hcrc : ∀ d, E.crc d = crc32 d)
    (hne : E.source ≠ []) {crcs : List UInt32} {s3Size : Int}
    (hcrcs : crcs = [] ∧ E.faulty ∨ crcs = E.chunkCRC32s old ∧ s3Size = old.length) :
    (diffUploadDecide E.source.length (E.chunkCRC32s E.source) s3Size crcs).Asks (E.MovesEdits old) := by
  unfold diffUploadDecide
  dsimp only
  split
  · trivial
  split
  · rename_i hput
    have hanew : E.Anew old := by
      rcases hcrcs with ⟨-, hfaulty⟩ | ⟨rfl, rfl⟩
      · exact .inl hfaulty
      · have hpos := List.length_pos_iff.2 hne
        rw [h.length] at hpos
        exact h.anew hcrc ((hput.1.resolve_left (by omega)).resolve_left (h.chunkCRC32s_ne hne))
    refine asks_bind (uploadSmallFile_composes (asks_composes _) fun c hc => asks_req.2 (whole_moves hanew c hc))
      (fun ans => ?_)
    cases ans <;> trivial
  split
  · trivial
  · exact asks_mono (h.ofParts_moves hcrc (hcrcs.imp_right And.left)) diffUploadMultipart_asks

/-- **A differential upload moves no more than the edits.** -/
theorem EditedInBursts.diffUploadFile_moves (h : EditedInBursts E.source o.bytes) (hcrc : ∀ d, E.crc d = crc32 d)
    (hne : E.source ≠ []) (ho : s.entry = some o) : AsksFrom (exec E) (E.MovesEdits o.bytes) diffUploadFile s := by
  have hlen : E.source.length ≠ 0 := fun h => hne (List.length_eq_zero_iff.1 h)
  refine asksFrom_req_bind.2 ⟨trivial, fun r s₁ h₁ => ?_⟩
  cases r with
  | failed => trivial
  | threw => trivial
  | ok localSize =>
    obtain ⟨hsize, rfl⟩ := h₁
    obtain rfl := Option.some.inj hsize
    simp only [hlen, if_false]
    refine asksFrom_req_bind.2 ⟨trivial, fun r s₂ h₂ => ?_⟩
    rw [exec, if_neg hne] at h₂
    cases r with
    | failed => trivial
    | threw => trivial
    | ok localCrcs =>
      obtain ⟨hcrcs, rfl⟩ := h₂
      obtain rfl := Option.some.inj hcrcs
      refine AsksFrom.bind (asks_mono ofLook_moves remoteChunks_asks).from (remoteChunks_spec trivial) fun r s₃ hr => ?_
      obtain ⟨rfl, hr⟩ := hr
      cases r with
      | none => trivial
      | some p =>
        obtain ⟨hknown, hs3, hnil⟩ := hr
        refine (h.diffUploadDecide_moves hcrc hne ?_).from
        rcases hknown with hempty | ⟨o', ho', hne', hcrcs⟩
        · refine .inl ⟨hempty, (hnil hempty).resolve_right fun hall => hne ?_⟩
          rw [← List.length_eq_zero_iff, h.length, hall o ho]
          rfl
        · obtain rfl : o = o' := Option.some.inj (ho.symm.trans ho')
          exact .inr ⟨hcrcs, hs3 o ho (hcrcs ▸ h.chunkCRC32s_ne hne)⟩

theorem EditedInBursts.diffDownloadDecide_moves (h : EditedInBursts E.source old) (hcrc : ∀ d, E.crc d = crc32 d)
    (hne : E.source ≠ []) (fuel maxParallelChunks : Nat) (base relative : Str) (localSize : Int) {crcs : List UInt32}
    (hcrcs : crcs = [] ∧ E.faulty ∨ crcs = E.chunkCRC32s old) :
    (diffDownloadDecide fuel maxParallelChunks base relative E.source.length localSize (E.chunkCRC32s E.source)
      crcs).Asks (E.MovesEdits old) := by
  unfold diffDownloadDecide
  dsimp only
  split
  · trivial
  split
  · rename_i hfull
    have hanew : E.Anew old := by
      rcases hcrcs with ⟨-, hfaulty⟩ | rfl
      · exact .inl hfaulty
      · exact h.anew hcrc (hfull.resolve_left (h.chunkCRC32s_ne hne))
    exact asks_bind (fullDownload_moves hanew _ _ _ _) fun ans => by cases ans <;> trivial
  · rename_i hpart
    obtain rfl := (hcrcs.resolve_left fun hno => hpart (.inl hno.1))
    exact asks_mono (h.ofPatch_moves hcrc) (patchInPlace_asks _ _ _ _ _)

/-- **A differential download moves no more than the edits.** -/
theorem EditedInBursts.diffDownloadFile_moves (h : EditedInBursts E.source o.bytes) (hcrc : ∀ d, E.crc d = crc32 d)
    (hne : E.source ≠ []) (ho : s.entry = some o) (fuel maxParallelChunks : Nat) (base relative : Str) :
    AsksFrom (exec E) (E.MovesEdits o.bytes)
      (diffDownloadFile fuel maxParallelChunks base relative E.source.length) s := by
  have hlen : 0 < E.source.length := List.length_pos_iff.2 hne
  unfold diffDownloadFile
  split
  · trivial
  split
  · trivial
  refine asksFrom_req_bind.2 ⟨trivial, fun inside s₁ h₁ => ?_⟩
  cases inside with
  | false => trivial
  | true =>
    obtain rfl : s₁ = s := h₁.2
    simp only [Bool.not_true, Bool.false_eq_true, if_false]
    rw [if_neg (by omega), Int.toNat_natCast]
    refine asksFrom_req_bind.2 ⟨trivial, fun r s₂ h₂ => ?_⟩
    rw [exec, if_pos ⟨hlen, Nat.le_refl _⟩, List.take_length] at h₂
    cases r with
    | threw => trivial
    | failed =>
      have hanew : E.Anew o.bytes := .inl (h₂.1.resolve_right (by simp))
      exact (asks_bind (fullDownload_moves hanew _ _ _ _) fun ans => by cases ans <;> trivial).from
    | ok s3Crcs =>
      obtain ⟨hcrcs, rfl⟩ := h₂
      obtain rfl := Option.some.inj hcrcs
      refine AsksFrom.bind (asks_mono ofLook_moves localChunks_asks).from (localChunks_spec (F := True)
        (fun _ => trivial) trivial) fun r s₃ hr => ?_
      obtain ⟨rfl, hr⟩ := hr
      cases r with
      | none => trivial
      | some p =>
        refine (h.diffDownloadDecide_moves hcrc hne _ _ _ _ _ ?_).from
        rcases hr with ⟨hempty, hnil⟩ | ⟨o', ho', -, hcrcs⟩
        · refine .inl ⟨hempty, hnil.resolve_right fun hall => hne ?_⟩
          rw [← List.length_eq_zero_iff, h.length, hall o ho]
          rfl
        · obtain rfl : o = o' := Option.some.inj (ho.symm.trans ho')
          exact .inr hcrcs

end Moves

/-- In every run of a differential executor: success leaves the source's bytes, and no request moves more than the
edits. -/
def Env.SendsEdits (E : Env) (old : Bytes) (p : Exec Bool) (s : Slot) : Prop :=
  ∀ q s', Steps (exec E) (p, s) (q, s') →
    (q = .ret true → s'.content = some E.source) ∧ ∀ c next, q = .call c next → E.MovesEdits old c

def editedEnd : Env where
  source := zeros ++ [1, 2]
  crc := crc32
  stamp t := t = 9
  mode := .sound

def editedOld : Slot := { entry := some ⟨zeros ++ [1, 3], 5⟩ }

theorem chunkCRC32s_zeros {b : Bytes} (hb : b ≠ []) (hk : b.length ≤ defaultChunkSize) :
    editedEnd.chunkCRC32s (zeros ++ b) = [crc32 zeros, crc32 b] := by
  unfold Env.chunkCRC32s
  rw [chunks_append length_zeros hb hk]
  rfl

/-- One chunk of two is taken for unchanged: the other is patched. -/
theorem patches_second {a b : UInt32} (c : UInt32) (hab : (a == b) = false) :
    diffDownloadDecide 9 1 ['d'] ['a'] 8388610 8388610 [c, a] [c, b] =
      patchInPlace 9 1 8388610 8388610 [c, a] [c, b] ∧ chunksToDownload [c, a] [c, b] = [1] := by
  have hone : unchangedChunk [c, a] [c, b] 1 = false := hab
  have hzero : unchangedChunk [c, a] [c, b] 0 = true := beq_self_eq_true c
  have hrange : List.range [c, a].length = [0, 1] := rfl
  have hcount : unchangedChunks [c, a] [c, b] = 1 := by
    unfold unchangedChunks
    rw [hrange, List.filter_cons_of_pos hzero, List.filter_cons_of_neg (by rw [hone]; simp)]
    rfl
  constructor
  · unfold diffDownloadDecide
    rw [hcount]
    rfl
  · unfold chunksToDownload
    rw [hrange, List.filter_cons_of_neg (by rw [hzero]; simp), List.filter_cons_of_pos (by rw [hone]; rfl)]
    rfl

theorem editedEnd_reads : ∃ next s', Steps (exec editedEnd) (diffDownloadFile 9 1 ['d'] ['a'] 8388610, editedOld)
    (.call (.sourceRange 8388608 2) next, s') := by
  have hlen := length_twoChunks 1 2
  have hcrcs := chunkCRC32s_zeros (b := [1, 2]) (by simp) (by decide)
  have hcrcs' := chunkCRC32s_zeros (b := [1, 3]) (by simp) (by decide)
  have hne : (crc32 [1, 2] == crc32 [1, 3]) = false := by decide +kernel
  have hsource : editedEnd.source = zeros ++ [1, 2] := rfl
  have hcontent : editedOld.content = some (zeros ++ [1, 3]) := rfl
  have hgo : exec editedEnd .cancelled editedOld false editedOld := ⟨by simp [editedOld], by simp, rfl⟩
  generalize crc32 zeros = c at hcrcs hcrcs'
  generalize crc32 [1, 2] = a at hcrcs hne
  generalize crc32 [1, 3] = b at hcrcs' hne
  have hdecides : Steps (exec editedEnd) (diffDownloadFile 9 1 ['d'] ['a'] 8388610, editedOld)
      (diffDownloadDecide 9 1 ['d'] ['a'] 8388610 8388610 [c, a] [c, b], editedOld) := by
    refine steps_answer true editedOld ⟨trivial, rfl⟩ ?_
    refine steps_answer (.ok [c, a]) editedOld ⟨?_, rfl⟩ ?_
    · have hsize : (8388610 : Int).toNat = 8388610 := rfl
      rw [hsource, hsize, if_pos ⟨by decide, by rw [hlen]⟩, ← hlen, List.take_length, hcrcs]
    refine steps_answer (.ok true) editedOld ⟨rfl, rfl⟩ ?_
    refine steps_answer (.ok 8388610) editedOld ⟨congrArg some (length_twoChunks 1 3), rfl⟩ ?_
    refine steps_answer (.ok [c, b]) editedOld ⟨?_, rfl⟩ ?_
    · rw [hcontent, Option.bind_some, if_neg (by simp), hcrcs']
    have hsize : (8388610 : Int).toNat = 8388610 := rfl
    have hcast : ((8388610 : Nat) : Int) = 8388610 := rfl
    simp only [Prog.bind, pure_eq, hsize, hcast]
    exact .refl
  have hpatch : Steps (exec editedEnd) (patchInPlace 9 1 8388610 8388610 [c, a] [c, b], editedOld)
      (patchLoop [1] 8388610 7 { nextChunkIdx := 1, workers := [.fetch 1 3] } >>= finishPatch 8388610 8388610,
        editedOld) := by
    unfold patchInPlace
    rw [(patches_second c hne).2]
    refine steps_answer true editedOld ⟨.inl (Option.some_ne_none _), .inl ⟨Option.some_ne_none _, rfl⟩⟩ ?_
    refine steps_answer (0 : Fin 1) editedOld rfl ?_
    refine steps_answer false editedOld hgo ?_
    refine steps_answer (0 : Fin 1) editedOld rfl ?_
    refine steps_answer false editedOld hgo ?_
    exact .refl
  rw [(patches_second c hne).1] at hdecides
  have hstart : 1 * defaultChunkSize = 8388608 := by decide
  have hrest : chunkLen defaultChunkSize 8388610 1 = 2 := by decide
  rw [← hstart, ← hrest]
  exact ⟨_, _, (hdecides.trans hpatch).trans (steps_answer (0 : Fin 1) editedOld rfl .refl)⟩

end Mito
