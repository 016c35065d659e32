import MitoSync.Entry
/-!
# Faultless — the executors where nothing fails

In `sound` mode a request fails only where its own rules make it, so it has one outcome (`lookup_sound`, `syscall_sound`),
and a flag that was never set is never seen set (`exec_unseen`).  A differential upload then returns
true unless it finds more chunks than S3 takes parts, if the chunks it copies lie in the object
(`diffUploadFile_succeeds`), and a differential download whenever its path is accepted (`diffDownloadFile_succeeds`),
both whatever the checksums miss.  Three guards refuse a line in any mode: the path's, the link's and the parts'.
-/
namespace Mito

open Lib Prog

section Requests

variable {E : Env} {s s' : Slot}

/-- Without faults a value that is there is answered. -/
theorem lookup_sound {α : Type} {value : Option α} {a : α} {r : Ans α} (hm : E.mode = .sound)
    (hv : value = some a) (h : E.lookup s value r s') : r = .ok a ∧ s' = s := by
  subst hv
  cases r with
  | ok b =>
    obtain ⟨hb, rfl⟩ := h
    obtain rfl := Option.some.inj hb
    exact ⟨rfl, rfl⟩
  | failed => exact absurd (h.1.resolve_right (by simp)) (fun hf => hf hm)
  | threw => exact absurd hm h.1

/-- A value that is not there is reported as the value that means failure. -/
theorem lookup_missing {α : Type} {value : Option α} {r : Ans α} (hm : E.mode = .sound) (hv : value = none)
    (h : E.lookup s value r s') : r = .failed ∧ s' = s := by
  subst hv
  cases r with
  | ok b => exact absurd h.1 (by simp)
  | failed => exact ⟨rfl, h.2⟩
  | threw => exact absurd hm h.1

theorem syscall_sound {can : Prop} {done : Slot → Prop} {r : Bool} (hm : E.mode = .sound) (hcan : can)
    (h : E.syscall can s done r s') : r = true ∧ done s' := by
  cases r with
  | true => exact ⟨rfl, h.2⟩
  | false => exact absurd (h.1.resolve_right (fun hn => hn hcan)) (fun hf => hf hm)

theorem cancelled_sound {r : Bool} (hm : E.mode = .sound) (hs : s.seen = false) (h : exec E .cancelled s r s') :
    r = false ∧ s' = s := by
  obtain ⟨-, hr, rfl⟩ := h
  cases r with
  | true =>
    rcases hr rfl with hf | hs'
    · exact absurd hm hf
    · rw [hs] at hs'
      cases hs'
  | false => exact ⟨rfl, by rw [← hs]⟩

theorem writes_seen {b : Bytes} (h : E.writes s b s') : s'.seen = s.seen := by
  obtain ⟨t, -, rfl⟩ := h
  rfl

theorem syscall_seen {can : Prop} {done : Slot → Prop} {r : Bool} (hd : ∀ s', done s' → s'.seen = s.seen)
    (h : E.syscall can s done r s') : s'.seen = s.seen := by
  cases r with
  | true => exact hd _ h.2
  | false => rw [h.2]

theorem lookup_seen {α : Type} {value : Option α} {r : Ans α} (h : E.lookup s value r s') : s'.seen = s.seen := by
  cases r with
  | ok a => rw [h.2]
  | failed => rw [h.2]
  | threw => rw [h.2]

theorem request_seen {α : Type} {can : Prop} {done : α → Slot → Prop} {r : Ans α}
    (hd : ∀ a s', done a s' → s'.seen = s.seen) (h : E.request can s done r s') : s'.seen = s.seen := by
  have hun : ∀ {p : Prop}, s' = s ∨ p ∧ can ∧ (∃ a, done a s') → s'.seen = s.seen := by
    rintro p (rfl | ⟨-, -, a, ha⟩)
    · rfl
    · exact hd a _ ha
  cases r with
  | ok a => exact hd a _ h.2
  | failed => exact hun h.2
  | threw => exact hun h.2

theorem addPart_seen {id n : Nat} {b : Option Bytes} {r : Ans Nat} (h : E.addPart s id n b r s') :
    s'.seen = s.seen := by
  refine request_seen (fun a s' hd => ?_) h
  obtain ⟨u, d, -, -, -, rfl⟩ := hd
  rfl

theorem writeCall_seen {can : Prop} {d : Bytes} {done : Bytes → Slot → Prop} {r : WriteAns}
    (hd : ∀ w s', done w s' → s'.seen = s.seen) (h : E.writeCall can s d done r s') : s'.seen = s.seen := by
  cases r with
  | eintr => rw [h.2]
  | failed => rw [h.2]
  | wrote n =>
    rcases Nat.eq_zero_or_pos n with h0 | hn
    · rw [(h.2.2.1 h0).2]
    · exact hd _ _ (h.2.2.2 hn)

/-- **Only a look at the flag sees it set**, and without faults no look does. -/
theorem exec_unseen (hm : E.mode = .sound) {c : Call} {r : Resp c} (hs : s.seen = false) (h : exec E c s r s') :
    s'.seen = false := by
  cases c with
  | cancelled => rw [(cancelled_sound hm hs h).2, hs]
  | cacheHit | pick n => rw [show s' = s from h, hs]
  | sourceSize | sourceChunkCRC32s | sourceObjectCRC32s n | sourceRange a b | exists_ | fileSize | fileChunkCRC32s
  | getObjectSize | getChunkCRC32s n => rw [lookup_seen h, hs]
  | openSource | openSourceStream | resolvesWithinBase | createDirectories | fdatasync | closeTemp | renameTemp
  | removeTemp | fsync | clearMtime =>
    rw [← hs]
    exact syscall_seen (fun s' hd => by rw [hd]) h
  | readSource a b =>
    cases r with
    | eintr => rw [h.2, hs]
    | failed => rw [h.2, hs]
    | data d => rw [h.2.2.2, hs]
  | symlinkStatus => cases r <;> rw [h.2, hs]
  | openTemp =>
    cases r with
    | opened =>
      obtain ⟨-, t, -, rfl⟩ := h
      exact hs
    | eexist => rw [h.2, hs]
    | failed => rw [h.2, hs]
  | writeTemp d =>
    simp only [exec] at h
    rw [← hs]
    refine writeCall_seen (fun w s' hd => ?_) h
    obtain ⟨o, t, -, -, rfl⟩ := hd
    rfl
  | pwrite a d =>
    simp only [exec] at h
    rw [← hs]
    refine writeCall_seen (fun w s' hd => ?_) h
    obtain ⟨o, -, hw⟩ := hd
    exact writes_seen hw
  | openInPlace =>
    rw [← hs]
    refine syscall_seen (fun s' hd => ?_) h
    rcases hd with ⟨-, rfl⟩ | ⟨-, hw⟩
    · rfl
    · exact writes_seen hw
  | ftruncate n =>
    rw [← hs]
    refine syscall_seen (fun s' hd => ?_) h
    obtain ⟨o, -, hw⟩ := hd
    exact writes_seen hw
  | createEmpty =>
    rw [← hs]
    exact syscall_seen (fun s' hw => writes_seen hw) h
  | remove =>
    cases r with
    | ok b => rw [h.2, ← hs]
    | failed => rw [h.2, hs]
    | threw => rw [h.2, hs]
  | putObject d | putSource | copyObject =>
    rw [← hs]
    exact request_seen (fun _ s' hw => writes_seen hw) h
  | deleteObject =>
    rw [← hs]
    exact request_seen (fun _ s' hd => by rw [hd]) h
  | createMultipartUpload =>
    rw [← hs]
    exact request_seen (fun _ s' hd => by rw [hd.2]) h
  | uploadPart a n d crc | uploadPartCopy a n x y | uploadPartCopyFromSource a n x y =>
    rw [addPart_seen h, hs]
  | completeMultipartUpload a ps =>
    rw [← hs]
    refine request_seen (fun _ s' hd => ?_) h
    obtain ⟨u, bs, -, -, t, -, rfl⟩ := hd
    rfl
  | abortMultipartUpload a =>
    rw [h.2, ← hs]
    rfl

end Requests

/-! ## What both sides answer -/

/-- The checksums of what is there, none where nothing is. -/
def Env.knownCrcs (E : Env) (old : Option Stored) : List UInt32 := E.chunkCRC32s ((old.map Stored.bytes).getD [])

@[simp] theorem chunkCRC32s_nil (E : Env) : E.chunkCRC32s [] = [] :=
  List.length_eq_zero_iff.1 (by rw [length_chunkCRC32s, List.length_nil]; simp [numChunks, defaultChunkSize])

@[simp] theorem knownCrcs_none (E : Env) : E.knownCrcs none = [] := chunkCRC32s_nil E

@[simp] theorem knownCrcs_some (E : Env) (o : Stored) : E.knownCrcs (some o) = E.chunkCRC32s o.bytes := rfl

section Differential

variable {E : Env} {H : Slot → Prop} {s : Slot} {Q : Bool → Slot → Prop}

/-- **Without faults a differential upload decides on the true sizes and checksums.** -/
theorem diffUploadFile_decides (hm : E.mode = .sound) (hne : E.source ≠ [])
    (h : wp (exec E) (fun _ => True) H (diffUploadDecide E.source.length (E.chunkCRC32s E.source)
      ((s.entry.map (fun o => (o.bytes.length : Int))).getD (-1)) (E.knownCrcs s.entry)) Q s) :
    wp (exec E) (fun _ => True) H diffUploadFile Q s := by
  have hlen : 0 < E.source.length := List.length_pos_iff.2 hne
  rw [diffUploadFile, wp_bind, wp_req]
  refine ⟨trivial, fun r s₁ h₁ => ?_⟩
  obtain ⟨rfl, rfl⟩ := lookup_sound hm rfl h₁
  simp only [hlen.ne', if_false, wp_bind, wp_req]
  refine ⟨trivial, fun r s₂ h₂ => ?_⟩
  obtain ⟨rfl, rfl⟩ := lookup_sound hm (if_neg hne) h₂
  simp only [remoteChunks, wp_bind, wp_req]
  refine ⟨trivial, fun r s₃ h₃ => ?_⟩
  cases he : s₂.entry with
  | none =>
    obtain ⟨rfl, rfl⟩ := lookup_missing hm (by rw [Slot.content, he]; rfl) h₃
    simpa only [he, Option.map_none, Option.getD_none, knownCrcs_none, pure_eq, wp_ret] using h
  | some o =>
    have hc : s₂.content = some o.bytes := by rw [Slot.content, he]; rfl
    obtain ⟨rfl, rfl⟩ := lookup_sound (a := o.bytes.length) hm (by rw [hc]; rfl) h₃
    simp only [he, Option.map_some, Option.getD_some, knownCrcs_some] at h
    rcases Nat.eq_zero_or_pos o.bytes.length with h0 | hpos
    · simp only [h0, if_true, pure_eq, wp_ret]
      obtain ⟨b, t⟩ := o
      obtain rfl : b = [] := List.length_eq_zero_iff.1 h0
      simpa only [List.length_nil, Nat.cast_zero, chunkCRC32s_nil] using h
    · simp only [hpos.ne', if_false, wp_bind, wp_req]
      refine ⟨trivial, fun r s₄ h₄ => ?_⟩
      obtain ⟨rfl, rfl⟩ := lookup_sound (a := E.chunkCRC32s o.bytes) hm
        (by rw [hc, Option.bind_some, if_pos ⟨hpos, Nat.le_refl _⟩, List.take_length]) h₄
      simpa only [pure_eq, wp_ret] using h

/-- **Without faults a differential download decides on the true sizes and checksums.** -/
theorem diffDownloadFile_decides {fuel maxParallelChunks : Nat} {base relative : Str} (hm : E.mode = .sound)
    (hne : E.source ≠ []) (htarget : targetAccepted base relative = true)
    (h : wp (exec E) (fun _ => True) H (diffDownloadDecide fuel maxParallelChunks base relative E.source.length
      ((s.entry.map (fun o => (o.bytes.length : Int))).getD 0) (E.chunkCRC32s E.source) (E.knownCrcs s.entry)) Q s) :
    wp (exec E) (fun _ => True) H (diffDownloadFile fuel maxParallelChunks base relative E.source.length) Q s := by
  have hlen : 0 < E.source.length := List.length_pos_iff.2 hne
  have hz : ¬ (E.source.length : Int) = 0 := by omega
  unfold diffDownloadFile
  simp only [htarget, Int.natCast_nonneg, not_lt.2, if_false, Bool.not_true, Bool.false_eq_true, wp_bind, wp_req]
  refine ⟨trivial, fun r s₁ h₁ => ?_⟩
  obtain ⟨rfl, rfl⟩ := syscall_sound hm trivial h₁
  simp only [Bool.not_true, Bool.false_eq_true, hz, if_false, wp_bind, wp_req, Int.toNat_natCast]
  refine ⟨trivial, fun r s₂ h₂ => ?_⟩
  obtain ⟨rfl, rfl⟩ := lookup_sound (a := E.chunkCRC32s E.source) hm
    (by rw [if_pos ⟨hlen, Nat.le_refl _⟩, List.take_length]) h₂
  simp only [localChunks, wp_bind, wp_req]
  refine ⟨trivial, fun r s₃ h₃ => ?_⟩
  obtain ⟨rfl, rfl⟩ := lookup_sound hm rfl h₃
  cases he : s₃.entry with
  | none =>
    simpa only [he, Option.map_none, Option.getD_none, knownCrcs_none, Option.isSome_none, pure_eq, wp_ret] using h
  | some o =>
    have hc : s₃.content = some o.bytes := by rw [Slot.content, he]; rfl
    simp only [Option.isSome_some, wp_bind, wp_req]
    refine ⟨trivial, fun r s₄ h₄ => ?_⟩
    obtain ⟨rfl, rfl⟩ := lookup_sound (a := o.bytes.length) hm (by rw [hc]; rfl) h₄
    simp only [he, Option.map_some, Option.getD_some, knownCrcs_some] at h
    rcases Nat.eq_zero_or_pos o.bytes.length with h0 | hpos
    · simp only [h0, if_true, pure_eq, wp_ret]
      obtain ⟨b, t⟩ := o
      obtain rfl : b = [] := List.length_eq_zero_iff.1 h0
      simpa only [List.length_nil, Nat.cast_zero, chunkCRC32s_nil] using h
    · simp only [hpos.ne', if_false, wp_bind, wp_req]
      refine ⟨trivial, fun r s₅ h₅ => ?_⟩
      obtain ⟨rfl, rfl⟩ := lookup_sound (a := E.chunkCRC32s o.bytes) hm
        (by rw [hc, Option.bind_some, if_neg (List.length_pos_iff.1 hpos)]) h₅
      simpa only [pure_eq, wp_ret] using h

/-! ## A differential upload succeeds -/

/-- Every checksum agrees, and so does the size: nothing is uploaded. -/
def Env.Same (E : Env) (old : Option Stored) : Prop :=
  unchangedChunks (E.chunkCRC32s E.source) (E.knownCrcs old) = (E.chunkCRC32s E.source).length ∧
    old.map (fun o => o.bytes.length) = some E.source.length

/-- Every chunk that would be copied lies in the object. -/
def Env.InRange (E : Env) (old : Option Stored) : Prop :=
  ∀ o ∈ old, ∀ i, unchangedChunk (E.chunkCRC32s E.source) (E.chunkCRC32s o.bytes) i = true →
    min (i * defaultChunkSize + defaultChunkSize) E.source.length ≤ o.bytes.length

/-- The bytes of the part of chunk `j`. -/
def Env.partBytes (E : Env) (old : Option Stored) (j : Nat) : Bytes :=
  if unchangedChunk (E.chunkCRC32s E.source) (E.knownCrcs old) j then
    slice ((old.map Stored.bytes).getD []) (j * defaultChunkSize) (chunkLen defaultChunkSize E.source.length j)
  else chunk defaultChunkSize E.source j

theorem partBytes_spec {old : Option Stored} (hrange : E.InRange old) {j : Nat}
    (hj : j < numChunks defaultChunkSize E.source.length) :
    (E.partBytes old j).length = chunkLen defaultChunkSize E.source.length j ∧
      (unchangedChunk (E.chunkCRC32s E.source) (E.knownCrcs old) j = true →
        rangeOf (old.map Stored.bytes) (j * defaultChunkSize)
          (min (j * defaultChunkSize + defaultChunkSize) E.source.length - 1) = some (E.partBytes old j)) := by
  have hjl : j * defaultChunkSize < E.source.length := (lt_numChunks defaultChunkSize_pos).1 hj
  unfold Env.partBytes
  cases hu : unchangedChunk (E.chunkCRC32s E.source) (E.knownCrcs old) j with
  | false =>
    rw [if_neg (by simp)]
    exact ⟨length_chunk hjl, fun h => absurd h (by simp)⟩
  | true =>
    cases old with
    | none =>
      rw [knownCrcs_none, unchangedChunk_nil] at hu
      cases hu
    | some o =>
      have hk := defaultChunkSize_pos
      have hend := chunk_end hjl
      have hin := hrange o rfl j hu
      have hlen : min (j * defaultChunkSize + defaultChunkSize) E.source.length - 1 - j * defaultChunkSize + 1 =
          chunkLen defaultChunkSize E.source.length j := by omega
      rw [if_pos rfl, Option.map_some, Option.getD_some]
      refine ⟨length_slice_of_le (by rw [hend]; exact hin), fun _ => ?_⟩
      rw [rangeOf, Option.bind_some, if_pos (by omega), hlen]

/-- **A differential upload whose copied chunks lie in the object succeeds**, unless it has more chunks than S3 takes
parts and something to change. -/
theorem diffUploadFile_succeeds (hm : E.mode = .sound) (hne : E.source ≠ []) (hs : s.seen = false)
    (hrange : E.InRange s.entry)
    (hparts : E.Same s.entry ∨ numChunks defaultChunkSize E.source.length ≤ kMaxMultipartParts) :
    wp (exec E) (fun _ => True) H diffUploadFile (fun r _ => r = true) s := by
  have hc : E.Calm s := fun h => absurd h (by simp [hs])
  have hsound : ¬ E.faulty := fun h => h hm
  refine diffUploadFile_decides hm hne ?_
  unfold diffUploadDecide
  by_cases hall : unchangedChunks (E.chunkCRC32s E.source) (E.knownCrcs s.entry) = (E.chunkCRC32s E.source).length ∧
      (E.source.length : Int) = (s.entry.map (fun o => (o.bytes.length : Int))).getD (-1)
  · rw [if_pos hall]
    rfl
  · have hmax : numChunks defaultChunkSize E.source.length ≤ kMaxMultipartParts := by
      refine hparts.resolve_left fun hsame => hall ⟨hsame.1, ?_⟩
      obtain ⟨o, ho, hlen⟩ := Option.map_eq_some_iff.1 hsame.2
      rw [ho, Option.map_some, Option.getD_some, hlen]
    rw [if_neg hall]
    split
    · rename_i hput
      rw [wp_bind]
      have hp : E.Pending s.entry (fun _ => True) (some E.source) s := ⟨.inl rfl, trivial, hc⟩
      refine wp_mono (fun r s' hr => ?_)
        (wp_weaken (I := E.Whole s.entry (some E.source)) (H := H) (fun _ _ _ _ h => h) (fun _ _ => trivial)
          (fun _ h => h) (uploadSmallFile_spec hp))
      cases r with
      | ok a => rfl
      | failed => exact absurd (hr.2.resolve_right (fun h => h hput.2)) hsound
      | threw => exact absurd (hr.2.resolve_right (fun h => h hput.2)) hsound
    · rw [if_neg (by rw [length_chunkCRC32s]; omega)]
      have hn : 0 < numChunks defaultChunkSize E.source.length :=
        numChunks_pos defaultChunkSize_pos (List.length_pos_iff.2 hne)
      have hrefused : ¬ E.DiffRefused := fun h => h.elim hsound (by omega)
      rw [diffUploadMultipart, wp_bind, wp_req]
      refine ⟨trivial, fun r s' h => ?_⟩
      obtain ⟨-, -, hr⟩ := create_cases hc h
      cases r with
      | failed => exact absurd hr.1 hsound
      | threw => exact absurd hr.1 hsound
      | ok id =>
        obtain ⟨rfl, hsend⟩ := hr
        simp only [wp_bind, wp_req]
        refine ⟨trivial, fun r s'' h => ?_⟩
        obtain ⟨rfl, rfl⟩ := syscall_sound hm trivial h
        simp only [if_true, length_chunkCRC32s]
        have hparts := wp_parts (I := fun _ => True) (H := H) (F := E.DiffRefused) hn (fun i hi => ?_)
          (fun _ _ => trivial) .inl (fun j P s hj hs => diffUploadPart_sends (fun _ _ _ => trivial) hj
            (partBytes_spec hrange hj).1 (partBytes_spec hrange hj).2 (fun hu => if_neg (by simp [hu])) hs) hsend
        · refine wp_mono (fun b s₁ h₁ => ?_) hparts
          cases b with
          | true => rfl
          | false => exact absurd h₁.2.1 hrefused
        · have hend := (lt_numChunks defaultChunkSize_pos).1 hi
          rw [(partBytes_spec hrange (by omega)).1]
          rw [Nat.add_mul, Nat.one_mul] at hend
          unfold chunkLen minPartBytes defaultChunkSize at *
          omega

/-! ## A differential download succeeds -/

/-- A worker with attempts left. -/
def Worker.OnTrack (todo : List Nat) : Worker → Prop
  | .top | .write _ _ _ => True
  | .attempt i left => i ∈ todo ∧ 0 < left
  | .fetch i _ => i ∈ todo
  | .giveUp _ => False

/-- Nothing has failed, and there is a file to write to. -/
structure Patch.OnTrack (p : Patch) (s : Slot) : Prop where
  entry : s.entry ≠ none
  unseen : s.seen = false
  unfailed : p.downloadFailed = false

/-- **Without faults a worker stays on track**, with less to do after each step. -/
theorem workerStep_succeeds (hm : E.mode = .sound) {todo : List Nat}
    (htodo : ∀ i ∈ todo, i < numChunks defaultChunkSize E.source.length) (w : Worker) (hw : w.OnTrack todo) {p : Patch}
    (h : p.OnTrack s) :
    wp (exec E) (fun _ => True) H (workerStep todo E.source.length w p)
      (fun r s' => (∀ v ∈ r.1, v.OnTrack todo) ∧ r.2.OnTrack s' ∧
        optLoad E.source.length r.1 + unclaimedLoad E.source.length todo r.2.nextChunkIdx <
          w.load E.source.length + unclaimedLoad E.source.length todo p.nextChunkIdx) s := by
  match w with
  | .top =>
    rw [workerStep, wp_bind, wp_req]
    refine ⟨trivial, fun r s' hr => ?_⟩
    obtain ⟨rfl, rfl⟩ := cancelled_sound hm h.unseen hr
    simp only [Bool.false_eq_true, if_false, h.unfailed]
    cases hnext : todo[p.nextChunkIdx]? with
    | none =>
      refine ⟨by simp, ⟨h.entry, h.unseen, rfl⟩, ?_⟩
      show 0 + unclaimedLoad _ _ (p.nextChunkIdx + 1) < _
      rw [unclaimedLoad_none hnext]
      simp only [Worker.load]
      omega
    | some i =>
      have htaken : (Worker.attempt i (maxRetries + 1)).OnTrack todo :=
        ⟨List.mem_of_getElem? hnext, Nat.succ_pos _⟩
      refine ⟨fun v hv => ?_, ⟨h.entry, h.unseen, rfl⟩, ?_⟩
      · rw [← Option.some.inj hv]
        exact htaken
      · show chunkLen defaultChunkSize E.source.length i + 5 + unclaimedLoad _ _ (p.nextChunkIdx + 1) < _
        rw [unclaimedLoad_some hnext]
        simp only [Worker.load]
        omega
  | .attempt i 0 => exact absurd hw.2 (Nat.lt_irrefl 0)
  | .attempt i (left + 1) =>
    rw [workerStep, wp_bind, wp_req]
    refine ⟨trivial, fun r s' hr => ?_⟩
    obtain ⟨rfl, rfl⟩ := cancelled_sound hm h.unseen hr
    simp only [Bool.false_eq_true, if_false, h.unfailed]
    refine ⟨fun v hv => ?_, h, ?_⟩
    · rw [← Option.some.inj hv]
      exact hw.1
    · simp only [optLoad, Option.map_some, Option.getD_some, Worker.load]
      omega
  | .fetch i left =>
    have hil : i * defaultChunkSize < E.source.length := (lt_numChunks defaultChunkSize_pos).1 (htodo i hw)
    rw [workerStep, wp_bind, wp_req]
    refine ⟨trivial, fun r s' hr => ?_⟩
    obtain ⟨rfl, rfl⟩ := lookup_sound (a := chunk defaultChunkSize E.source i) hm
      (if_pos (by rw [chunk_end hil]; omega)) hr
    simp only [length_chunk hil, if_true]
    refine ⟨fun v hv => ?_, h, ?_⟩
    · rw [← Option.some.inj hv]
      trivial
    · simp only [optLoad, Option.map_some, Option.getD_some, Worker.load, length_chunk hil]
      omega
  | .write i left [] =>
    refine ⟨fun v hv => ?_, h, ?_⟩
    · rw [← Option.some.inj hv]
      trivial
    · simp only [optLoad, Option.map_some, Option.getD_some, Worker.load, List.length_nil]
      omega
  | .write i left (b :: rest) =>
    rw [workerStep]
    simp only [wp_bind, wp_req]
    refine ⟨trivial, fun r s' hr => ?_⟩
    cases r with
    | eintr => exact absurd hm hr.1
    | failed => exact absurd (hr.1.resolve_right (fun hn => hn h.entry)) (fun hf => hf hm)
    | wrote n =>
      obtain ⟨-, hn, h0, hpos⟩ := hr
      have hn0 : n ≠ 0 := fun hz => ((h0 hz).1.resolve_right (by simp)) hm
      simp only [hn0, if_false]
      obtain ⟨o, -, t, -, rfl⟩ := hpos (Nat.pos_of_ne_zero hn0)
      refine ⟨fun v hv => ?_, ⟨by simp, h.unseen, h.unfailed⟩, ?_⟩
      · rw [← Option.some.inj hv]
        trivial
      · simp only [optLoad, Option.map_some, Option.getD_some, Worker.load, List.length_drop]
        omega
  | .giveUp i => exact hw.elim

/-- **The workers end with nothing failed**, in any order. -/
theorem patchLoop_succeeds (hm : E.mode = .sound) {todo : List Nat}
    (htodo : ∀ i ∈ todo, i < numChunks defaultChunkSize E.source.length) :
    ∀ (fuel : Nat) {p : Patch} {s : Slot}, p.load E.source.length todo < fuel → p.OnTrack s →
      (∀ w ∈ p.workers, w.OnTrack todo) →
      wp (exec E) (fun _ => True) H (patchLoop todo E.source.length fuel p) (fun p' s' => p'.OnTrack s') s
  | 0, _, _, hfuel, _, _ => absurd hfuel (Nat.not_lt_zero _)
  | fuel + 1, p, s, hfuel, h, hall => by
    rw [patchLoop]
    cases hw : p.workers with
    | nil => exact h
    | cons w ws =>
      simp only [wp_bind, wp_req]
      refine ⟨trivial, fun j s' hj => ?_⟩
      obtain rfl := hj
      have hlt : j.val < (w :: ws).length := j.isLt
      have hget : (w :: ws).getD j.val w = (w :: ws)[j.val] := by
        rw [List.getD_eq_getElem?_getD, List.getElem?_eq_getElem hlt, Option.getD_some]
      rw [hget]
      rw [hw] at hall
      refine wp_mono (fun r s'' hr => ?_)
        (workerStep_succeeds hm htodo _ (hall _ (List.getElem_mem hlt)) h)
      obtain ⟨hr, h', hload⟩ := hr
      obtain ⟨w', p'⟩ := r
      dsimp only at hr h' hload
      unfold Patch.load at hfuel
      rw [hw, sum_load hlt] at hfuel
      cases w' with
      | none =>
        refine patchLoop_succeeds hm htodo fuel ?_ ⟨h'.entry, h'.unseen, h'.unfailed⟩
          fun v hv => hall v (List.mem_of_mem_eraseIdx hv)
        unfold Patch.load
        simp only [optLoad, Option.map_none, Option.getD_none] at hload
        dsimp only
        omega
      | some w' =>
        refine patchLoop_succeeds hm htodo fuel ?_ ⟨h'.entry, h'.unseen, h'.unfailed⟩ fun v hv => ?_
        · unfold Patch.load
          simp only [optLoad, Option.map_some, Option.getD_some] at hload
          dsimp only
          rw [sum_load_set hlt]
          omega
        · rcases List.mem_or_eq_of_mem_set hv with hv | rfl
          · exact hall v hv
          · exact hr v rfl

theorem finishPatch_succeeds (hm : E.mode = .sound) {s3Size : Nat} {localSize : Int} {p : Patch} (h : p.OnTrack s) :
    wp (exec E) (fun _ => True) H (finishPatch s3Size localSize p) (fun r _ => r = true) s := by
  rw [finishPatch, wp_bind, wp_req]
  refine ⟨trivial, fun r s' hr => ?_⟩
  obtain ⟨rfl, rfl⟩ := cancelled_sound hm h.unseen hr
  simp only [Bool.false_eq_true, if_false, h.unfailed]
  by_cases hshrink : (s3Size : Int) < localSize
  · simp only [hshrink, if_true, wp_bind, wp_req]
    refine ⟨trivial, fun r s' hr => ?_⟩
    obtain ⟨rfl, -⟩ := syscall_sound hm h.entry hr
    simp only [if_true, wp_bind, wp_req]
    exact ⟨trivial, fun _ _ _ => rfl⟩
  · simp only [hshrink, if_false, wp_bind, wp_req]
    exact ⟨trivial, fun _ _ _ => rfl⟩

/-- **A differential download into a directory that is there succeeds.** -/
theorem diffDownloadFile_succeeds {fuel maxParallelChunks : Nat} {base relative : Str} (hm : E.mode = .sound)
    (hne : E.source ≠ []) (hs : s.seen = false) (htarget : targetAccepted base relative = true)
    (hparent : s.parent = true) (hfuel : fuelFor E.source.length ≤ fuel) :
    wp (exec E) (fun _ => True) H (diffDownloadFile fuel maxParallelChunks base relative E.source.length)
      (fun r _ => r = true) s := by
  have hc : E.Calm s := fun h => absurd h (by simp [hs])
  have hsound : ¬ E.faulty := fun h => h hm
  refine diffDownloadFile_decides hm hne htarget ?_
  unfold diffDownloadDecide
  dsimp only
  split
  · rfl
  · split
    · have hun : E.Untouched s.entry False s := ⟨rfl, hc, .inl hparent⟩
      have hwhole : ∀ s', E.Torn False s.entry s' → True := fun _ _ => trivial
      refine wp_mono (fun r s' hr => ?_) (fullDownload_spec (M := True) hwhole hsound (.inl htarget) hne
        (fun h => absurd h (not_or.2 ⟨hsound, by omega⟩)) hun)
      cases r with
      | true => rfl
      | false => exact hr.1.2.1.elim
    · rename_i hfull
      cases he : s.entry with
      | none =>
        rw [he, knownCrcs_none] at hfull
        exact absurd (.inl rfl) hfull
      | some o =>
        rw [Option.map_some, Option.getD_some, knownCrcs_some, patchInPlace, wp_bind, wp_req]
        refine ⟨trivial, fun r s' hr => ?_⟩
        have hentry : s.entry ≠ none := by rw [he]; simp
        have htodo : ∀ i ∈ E.changed o, i < numChunks defaultChunkSize E.source.length :=
          fun i hi => (mem_changed.1 hi).1
        obtain ⟨rfl, hopen⟩ := syscall_sound hm (.inl hentry) hr
        obtain ⟨-, rfl⟩ | ⟨hnone, -⟩ := hopen
        · simp only [if_true, wp_bind]
          refine wp_mono (fun p s'' h => finishPatch_succeeds hm h)
            (patchLoop_succeeds hm htodo fuel (Nat.lt_of_lt_of_le (load_start_lt length_changed_le _) hfuel)
              ⟨hentry, hs, rfl⟩ fun w hw => ?_)
          rw [List.eq_of_mem_replicate hw]
          trivial
        · exact absurd hnone hentry

end Differential

/-! ## A line's guards -/

/-- The lines that write or remove a file. -/
def SyncFileEntry.toFile (config : SyncConfig) (f : SyncFileEntry) : Prop :=
  f.action = .download ∨ f.action = .downloadDiff ∨ f.action = .upload ∧ config.direction = .localToLocal ∨
    f.action = .delete ∧ (config.direction = .download ∨ config.direction = .localToLocal)

/-- A line gets past its executor's guards: of the path of a file that is written, of a source that is a link, and of
the number of parts. -/
structure Env.Accepts (E : Env) (config : SyncConfig) (f : SyncFileEntry) (old : Option Stored) : Prop where
  path : f.toFile config → validateRelativePath f.relativePath = true
  link : f.action = .upload → config.direction = .localToLocal → E.sourceIsLink = false
  parts : f.action = .uploadDiff → E.Same old ∨ numChunks defaultChunkSize E.source.length ≤ kMaxMultipartParts

/-- A line meets none of the limits its executor has no guard for. -/
structure Env.Unhindered (E : Env) (config : SyncConfig) (f : SyncFileEntry) (old : Option Stored) (parent : Bool) :
    Prop where
  copyParts : f.action = .copy → numChunks multipartPartSize E.source.length ≤ kMaxMultipartParts
  inRange : f.action = .uploadDiff → E.InRange old
  directory : f.action = .download ∨ f.action = .downloadDiff ∨
    f.action = .delete ∧ (config.direction = .download ∨ config.direction = .localToLocal) →
    validateRelativePath f.relativePath = true → parent = true

section Lines

variable {E : Env} {H : Slot → Prop} {s : Slot} {config : SyncConfig} {f : SyncFileEntry} {limits : Limits}

theorem count_false : wp (exec E) (fun _ => True) H (count false) (fun o _ => o ≠ .done) s := by
  unfold count
  simp only [Bool.false_eq_true, if_false, wp_bind, wp_req]
  refine ⟨trivial, fun r s' _ => ?_⟩
  cases r <;> simp

theorem downloadFromData_refused {fuel : Nat} {base relative : Str} {data : Bytes}
    (h : validateRelativePath relative = false) :
    wp (exec E) (fun _ => True) H (downloadFromData fuel base relative data) (fun r _ => r = false) s := by
  unfold downloadFromData
  rw [targetAccepted_eq, h]
  rfl

theorem deleteLocalFile_refused {base relative : Str} (h : validateRelativePath relative = false) :
    wp (exec E) (fun _ => True) H (deleteLocalFile base relative) (fun r _ => r = false) s := by
  rw [deleteLocalFile, wp_bind, wp_req]
  refine ⟨trivial, fun r s' _ => ?_⟩
  rw [targetAccepted_eq, h]
  cases r <;> rfl

/-- A path the guard refuses is not copied, and no more is a link. -/
theorem copyLocalFile_refused {fuel : Nat} {sourceBase destBase relative : Str}
    (h : validateRelativePath relative = false ∨ E.sourceIsLink = true) :
    wp (exec E) (fun _ => True) H (copyLocalFile fuel sourceBase destBase relative) (fun r _ => r = false) s := by
  rw [copyLocalFile, wp_bind, wp_req]
  refine ⟨trivial, fun r s₁ _ => ?_⟩
  cases r with
  | true => rfl
  | false =>
    rw [targetAccepted_eq, targetAccepted_eq, Bool.and_self]
    cases hacc : validateRelativePath relative with
    | false => rfl
    | true =>
      have hlink := h.resolve_left (by simp [hacc])
      simp only [Bool.not_true, Bool.false_eq_true, if_false, wp_bind, wp_req]
      refine ⟨trivial, fun r s₂ _ => ?_⟩
      cases r with
      | false => rfl
      | true =>
        simp only [Bool.not_true, Bool.false_eq_true, if_false, wp_bind, wp_req]
        refine ⟨trivial, fun r s₃ _ => ?_⟩
        cases r with
        | false => rfl
        | true =>
          simp only [Bool.not_true, Bool.false_eq_true, if_false, wp_bind, wp_req]
          refine ⟨trivial, fun r s₄ hopen => ?_⟩
          cases r with
          | false => rfl
          | true => exact absurd (hlink.symm.trans hopen.1) (by simp)

/-- A file of more chunks than S3 takes parts is not uploaded differentially. -/
theorem diffUploadFile_refused (hm : E.mode = .sound) (hne : E.source ≠ []) (hsame : ¬ E.Same s.entry)
    (hmax : kMaxMultipartParts < numChunks defaultChunkSize E.source.length) :
    wp (exec E) (fun _ => True) H diffUploadFile (fun r _ => r = false) s := by
  have hlong := (lt_numChunks defaultChunkSize_pos).1 hmax
  refine diffUploadFile_decides hm hne ?_
  unfold diffUploadDecide
  rw [if_neg, if_neg, if_pos]
  · rfl
  · rwa [length_chunkCRC32s]
  · rintro ⟨-, hput⟩
    unfold kMaxMultipartParts defaultChunkSize at hlong
    unfold kMaxSinglePutBytes at hput
    omega
  · rintro ⟨hall, hlen⟩
    refine hsame ⟨hall, ?_⟩
    cases he : s.entry with
    | none =>
      rw [he, Option.map_none, Option.getD_none] at hlen
      omega
    | some o =>
      rw [he, Option.map_some, Option.getD_some] at hlen
      rw [Option.map_some, Option.some.injEq]
      omega

/-- Without faults the object is read at the first attempt. -/
theorem wp_retry_read (hm : E.mode = .sound) (hs : s.seen = false) :
    wp (exec E) (fun _ => True) H (retry (ask (.sourceRange 0 E.source.length)) (maxRetries + 1))
      (fun a s' => a = .ok E.source ∧ s' = s) s := by
  rw [retry, wp_bind, wp_req]
  refine ⟨trivial, fun r s₁ hr => ?_⟩
  obtain ⟨rfl, rfl⟩ := cancelled_sound hm hs hr
  simp only [Bool.false_eq_true, if_false, wp_bind, wp_req]
  refine ⟨trivial, fun r s₂ h => ?_⟩
  obtain ⟨rfl, rfl⟩ := lookup_sound (a := E.source) hm (by rw [if_pos (by omega), slice_zero_length]) h
  exact ⟨rfl, rfl⟩

/-- **A line that does not get past a guard is not done.** -/
theorem processFile_refused (hm : E.mode = .sound) (hs : s.seen = false) (hz : E.Sized f)
    (hrefused : ¬ E.Accepts config f s.entry) {preRead : Option Bytes} :
    wp (exec E) (fun _ => True) H (processFile limits config f preRead) (fun o _ => o ≠ .done) s := by
  have hcount : ∀ {s : Slot} {success : Bool}, success = false →
      wp (exec E) (fun _ => True) H (count success) (fun o _ => o ≠ .done) s := fun h => h ▸ count_false
  unfold processFile
  rw [wp_bind, wp_req]
  refine ⟨trivial, fun r s' hr => ?_⟩
  obtain ⟨rfl, rfl⟩ := cancelled_sound hm hs hr
  simp only [Bool.false_eq_true, if_false]
  -- the path of a line to a file, where nothing else guards it
  have hpath : f.action ≠ .upload → f.action ≠ .uploadDiff → validateRelativePath f.relativePath = false := by
    intro h₁ h₂
    cases hv : validateRelativePath f.relativePath with
    | false => rfl
    | true => exact absurd ⟨fun _ => hv, fun h => absurd h h₁, fun h => absurd h h₂⟩ hrefused
  have hfile : ¬ f.toFile config → f.action ≠ .upload → f.action ≠ .uploadDiff → False := fun h h₁ h₂ =>
    hrefused ⟨fun hf => absurd hf h, fun h => absurd h h₁, fun h => absurd h h₂⟩
  cases ha : f.action with
  | skip => exact fun h => by cases h
  | upload =>
    by_cases hd : config.direction = .localToLocal
    · simp only [hd, wp_bind]
      refine wp_mono (fun success s₁ h => hcount h) (copyLocalFile_refused ?_)
      by_contra hno
      obtain ⟨hv, hl⟩ := not_or.1 hno
      exact hrefused ⟨fun _ => by simpa using hv, fun _ _ => by simpa using hl, fun h => absurd h (by simp [ha])⟩
    · exact absurd ⟨fun hf => absurd hf (by simp [SyncFileEntry.toFile, ha, hd]), fun _ h => absurd h hd,
        fun h => absurd h (by simp [ha])⟩ hrefused
  | uploadDiff =>
    rw [wp_bind]
    have hno : ¬ (E.Same s'.entry ∨ numChunks defaultChunkSize E.source.length ≤ kMaxMultipartParts) := fun h =>
      hrefused ⟨fun hf => absurd hf (by simp [SyncFileEntry.toFile, ha]), fun h => absurd h (by simp [ha]), fun _ => h⟩
    obtain ⟨hsame, hmax⟩ := not_or.1 hno
    exact wp_mono (fun success s₁ h => hcount h)
      (diffUploadFile_refused hm (hz.diff (.inl ha)) hsame (Nat.lt_of_not_le hmax))
  | download =>
    have hv := hpath (by simp [ha]) (by simp [ha])
    have hwrite : ∀ {s : Slot} {data : Bytes}, wp (exec E) (fun _ => True) H
        (enqueueWrite limits.fuel config.localPath f.relativePath data) (fun o _ => o ≠ .done) s := by
      intro s data
      rw [enqueueWrite, wp_bind, wp_req]
      refine ⟨trivial, fun r s₁ _ => ?_⟩
      cases r with
      | true => exact fun h => by cases h
      | false =>
        simp only [Bool.false_eq_true, if_false, wp_bind]
        refine wp_mono (fun success s₂ h => ?_) (downloadFromData_refused hv)
        rw [h]
        exact fun h => by cases h
    unfold processDownload
    cases preRead with
    | some data => exact hwrite
    | none =>
      by_cases h0 : f.s3Size = 0
      · simp only [h0, if_true, wp_bind]
        exact wp_mono (fun success s₁ h => hcount h) (downloadFromData_refused hv)
      · simp only [h0, if_false, wp_bind]
        have hlen : f.s3Size.toNat = E.source.length := by
          have := hz.s3 (.inl ha)
          omega
        rw [hlen]
        refine wp_mono (fun a s₁ h => ?_) (wp_retry_read hm hs)
        rw [h.1]
        exact hwrite
  | downloadDiff =>
    have hv := hpath (by simp [ha]) (by simp [ha])
    rw [wp_bind]
    refine wp_mono (fun success s₁ h => hcount h) ?_
    unfold diffDownloadFile
    rw [targetAccepted_eq, hv]
    split <;> rfl
  | copy => exact (hfile (by simp [SyncFileEntry.toFile, ha]) (by simp [ha]) (by simp [ha])).elim
  | delete =>
    have hv := hpath (by simp [ha]) (by simp [ha])
    cases hd : config.direction with
    | upload => exact (hfile (by simp [SyncFileEntry.toFile, ha, hd]) (by simp [ha]) (by simp [ha])).elim
    | s3ToS3 => exact (hfile (by simp [SyncFileEntry.toFile, ha, hd]) (by simp [ha]) (by simp [ha])).elim
    | download =>
      simp only [wp_bind]
      exact wp_mono (fun success s₁ h => hcount h) (deleteLocalFile_refused hv)
    | localToLocal =>
      simp only [wp_bind]
      exact wp_mono (fun success s₁ h => hcount h) (deleteLocalFile_refused hv)

end Lines

end Mito
