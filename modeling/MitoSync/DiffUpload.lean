import MitoSync.UploadSpec
/-!
# DiffUpload — the differential upload is all or nothing

A chunk is reused where both sides have it with one checksum, so under checksums that separate the chunks of the two
contents (`Separates`) the part copied from the object is the part of the source.  The parts are then the source's
chunks (`diffUploadPart_spec`), and `diffUploadFile_spec` reads off what each exit leaves.
-/
namespace Mito

open Lib Prog

/-- Where the two contents have distinct chunks in one place, these have distinct checksums. -/
def Env.Separates (E : Env) (a b : Bytes) : Prop :=
  ∀ i, i < numChunks defaultChunkSize a.length → i < numChunks defaultChunkSize b.length →
    E.crc (chunk defaultChunkSize a i) = E.crc (chunk defaultChunkSize b i) →
      chunk defaultChunkSize a i = chunk defaultChunkSize b i

variable {E : Env} {I H : Slot → Prop} {e : Option Stored} {W : List MultipartUpload} {P : List (Nat × Bytes)}

/-! ## Checksums of chunks -/

@[simp] theorem length_chunkCRC32s (b : Bytes) : (E.chunkCRC32s b).length = numChunks defaultChunkSize b.length := by
  unfold Env.chunkCRC32s
  rw [List.length_map, length_chunks]

theorem getElem?_chunkCRC32s {b : Bytes} {i : Nat} (h : i < numChunks defaultChunkSize b.length) :
    (E.chunkCRC32s b)[i]? = some (E.crc (chunk defaultChunkSize b i)) := by
  unfold Env.chunkCRC32s
  rw [List.getElem?_map, getElem?_chunks h, Option.map_some]

theorem unchangedChunk_lt {a b : List UInt32} {i : Nat} (h : unchangedChunk a b i = true) :
    i < a.length ∧ i < b.length := by
  unfold unchangedChunk at h
  split at h
  · rename_i x y hx hy
    exact ⟨(List.getElem?_eq_some_iff.1 hx).1, (List.getElem?_eq_some_iff.1 hy).1⟩
  · simp at h

theorem unchangedChunk_of_some {a b : List UInt32} {i : Nat} {x y : UInt32} (hx : a[i]? = some x)
    (hy : b[i]? = some y) : unchangedChunk a b i = (x == y) := by
  unfold unchangedChunk
  rw [hx, hy]

theorem unchangedChunk_nil (a : List UInt32) (i : Nat) : unchangedChunk a [] i = false := by
  unfold unchangedChunk
  rw [List.getElem?_nil]
  cases a[i]? <;> rfl

/-- **An unchanged chunk is the same chunk**, where checksums separate. -/
theorem unchangedChunk_eq {a b : Bytes} {i : Nat} (hsep : E.Separates a b)
    (h : unchangedChunk (E.chunkCRC32s a) (E.chunkCRC32s b) i = true) :
    chunk defaultChunkSize a i = chunk defaultChunkSize b i := by
  obtain ⟨ha, hb⟩ := unchangedChunk_lt h
  rw [length_chunkCRC32s] at ha hb
  rw [unchangedChunk_of_some (getElem?_chunkCRC32s ha) (getElem?_chunkCRC32s hb)] at h
  exact hsep i ha hb (beq_iff_eq.1 h)

theorem unchangedChunks_eq_length {a b : List UInt32} (h : unchangedChunks a b = a.length) {i : Nat}
    (hi : i < a.length) : unchangedChunk a b i = true := by
  unfold unchangedChunks at h
  have hall := List.length_filter_eq_length_iff.1 (h.trans List.length_range.symm)
  exact hall i (List.mem_range.2 hi)

theorem unchangedChunks_self (crcs : List UInt32) : unchangedChunks crcs crcs = crcs.length := by
  unfold unchangedChunks
  rw [List.filter_eq_self.2, List.length_range]
  intro i hi
  have hlt : i < crcs.length := List.mem_range.1 hi
  rw [unchangedChunk_of_some (List.getElem?_eq_getElem hlt) (List.getElem?_eq_getElem hlt), beq_self_eq_true]

/-- **Contents whose chunks are all unchanged are the same**, their sizes agreeing. -/
theorem eq_of_unchangedChunks {a b : Bytes} (hsep : E.Separates a b) (hlen : a.length = b.length)
    (h : unchangedChunks (E.chunkCRC32s a) (E.chunkCRC32s b) = (E.chunkCRC32s a).length) : a = b :=
  eq_of_chunks defaultChunkSize_pos (by rw [hlen])
    (fun _ hi => unchangedChunk_eq hsep (unchangedChunks_eq_length h (by rwa [length_chunkCRC32s])))

/-! ## The parts -/

/-- What a failed differential upload shows: a fault, or more chunks than S3 takes parts. -/
def Env.DiffRefused (E : Env) : Prop := E.faulty ∨ kMaxMultipartParts < numChunks defaultChunkSize E.source.length

/-- The checksums the planner of the parts has for the object: none, or all of them. -/
def Env.RemoteCrcs (E : Env) (e : Option Stored) (crcs : List UInt32) : Prop :=
  crcs = [] ∨ ∃ o, e = some o ∧ o.bytes ≠ [] ∧ crcs = E.chunkCRC32s o.bytes

/-- The part of chunk `j` is the bytes `d`: the object's at that place where the checksums agree, else the source's. -/
theorem diffUploadPart_sends {j : Nat} {crcs : List UInt32} {d : Bytes} (hI : ∀ P s, E.Sending e W P s → I s)
    (hj : j < numChunks defaultChunkSize E.source.length)
    (hlen : d.length = chunkLen defaultChunkSize E.source.length j)
    (hcopied : unchangedChunk (E.chunkCRC32s E.source) crcs j = true →
      rangeOf (e.map Stored.bytes) (j * defaultChunkSize)
        (min (j * defaultChunkSize + defaultChunkSize) E.source.length - 1) = some d)
    (hread : unchangedChunk (E.chunkCRC32s E.source) crcs j = false → d = chunk defaultChunkSize E.source j) {s : Slot}
    (hs : E.Sending e W P s) :
    wp (exec E) I H (diffUploadPart W.length E.source.length (E.chunkCRC32s E.source) crcs j)
      (E.PartSent e W P E.DiffRefused (j + 1, d)) s := by
  have hlim : d.length ≤ kMaxSinglePutBytes := by
    rw [hlen]
    exact chunkLen_le_limit (by unfold defaultChunkSize kMaxSinglePutBytes; omega)
  have hcan : ∀ {p : Prop}, p → p ∧ d.length ≤ kMaxSinglePutBytes ∧ 1 ≤ j + 1 ∧ j + 1 ≤ kMaxMultipartParts ∨
      E.DiffRefused := by
    intro p hp
    by_cases hmax : numChunks defaultChunkSize E.source.length ≤ kMaxMultipartParts
    · exact .inl ⟨hp, hlim, by omega, by omega⟩
    · exact .inr (.inr (by omega))
  unfold diffUploadPart
  cases hu : unchangedChunk (E.chunkCRC32s E.source) crcs j with
  | true =>
    simp only [if_true]
    refine wp_part hI .inl (fun P s hs => ?_) (Nat.succ_pos _) hs
    refine ⟨hI P s hs, fun r s' h => ?_⟩
    have hrange : rangeOf s.content (j * defaultChunkSize)
        (min (j * defaultChunkSize + defaultChunkSize) E.source.length - 1) = some d := by
      rw [Slot.content, hs.entry, hcopied hu]
    refine addPart_sent hs (fun d' hd' => ?_) .inl (hcan hrange) h
    rw [hrange] at hd'
    exact (Option.some.inj hd').symm
  | false =>
    obtain rfl := hread hu
    simp only [Bool.false_eq_true, if_false, wp_bind, wp_req]
    refine ⟨hI P s hs, fun r s' h => ?_⟩
    have hval : (if j * defaultChunkSize + (min (j * defaultChunkSize + defaultChunkSize) E.source.length -
        j * defaultChunkSize) ≤ E.source.length then some (slice E.source (j * defaultChunkSize)
        (min (j * defaultChunkSize + defaultChunkSize) E.source.length - j * defaultChunkSize)) else none) =
        some (chunk defaultChunkSize E.source j) := by
      have hjl : j * defaultChunkSize < E.source.length := (lt_numChunks defaultChunkSize_pos).1 hj
      rw [if_pos (by omega)]
      rfl
    cases r with
    | failed =>
      obtain ⟨hF, rfl⟩ := h
      rw [hval] at hF
      exact ⟨[], by rwa [List.append_nil], .inl (hF.resolve_right (by simp))⟩
    | threw =>
      obtain ⟨hF, rfl⟩ := h
      exact ⟨[], by rwa [List.append_nil], .inl hF⟩
    | ok data =>
      obtain ⟨hd, rfl⟩ := h
      rw [hval] at hd
      cases hd
      have hcrc : (E.chunkCRC32s E.source).getD j 0 = E.crc (chunk defaultChunkSize E.source j) := by
        rw [List.getD_eq_getElem?_getD, getElem?_chunkCRC32s hj, Option.getD_some]
      refine wp_part hI .inl (fun P s hs => ?_) (Nat.succ_pos _) hs
      refine ⟨hI P s hs, fun r s' h => ?_⟩
      refine addPart_sent hs (fun d' hd' => ?_) .inl (hcan (if_pos hcrc)) h
      rw [if_pos hcrc] at hd'
      exact (Option.some.inj hd').symm

/-- **The part of chunk `j` is chunk `j` of the source**, copied or sent. -/
theorem diffUploadPart_spec {j : Nat} {crcs : List UInt32} (hI : ∀ P s, E.Sending e W P s → I s)
    (hcrcs : E.RemoteCrcs e crcs) (hsep : ∀ o, e = some o → E.Separates E.source o.bytes)
    (hj : j < numChunks defaultChunkSize E.source.length) {s : Slot} (hs : E.Sending e W P s) :
    wp (exec E) I H (diffUploadPart W.length E.source.length (E.chunkCRC32s E.source) crcs j)
      (E.PartSent e W P E.DiffRefused (j + 1, chunk defaultChunkSize E.source j)) s := by
  have hk := defaultChunkSize_pos
  have hjl : j * defaultChunkSize < E.source.length := (lt_numChunks hk).1 hj
  refine diffUploadPart_sends hI hj (length_chunk hjl) (fun hu => ?_) (fun _ => rfl) hs
  rcases hcrcs with rfl | ⟨o, rfl, -, rfl⟩
  · rw [unchangedChunk_nil] at hu
    exact absurd hu (by simp)
  · have heq := unchangedChunk_eq (hsep o rfl) hu
    have hol : j * defaultChunkSize < o.bytes.length := by
      have := (unchangedChunk_lt hu).2
      rw [length_chunkCRC32s] at this
      exact (lt_numChunks hk).1 this
    have hlen := congrArg List.length heq
    rw [length_chunk hjl, length_chunk hol] at hlen
    have hend : min (j * defaultChunkSize + defaultChunkSize) E.source.length =
        min (j * defaultChunkSize + defaultChunkSize) o.bytes.length := by
      rw [← chunk_end hjl, ← chunk_end hol, hlen]
    rw [Option.map_some, hend, rangeOf_chunk hk hol, heq]

/-! ## The whole upload -/

/-- The outcome of a differential upload that began on `e` with the uploads `W`: the source, written or found there, or
a refusal that spares the object and gives every upload begun an abort call. -/
def Env.DiffUploaded (E : Env) (e : Option Stored) (W : List MultipartUpload) (r : Bool) (s : Slot) : Prop :=
  E.Calm s ∧
    if r then E.hits (some E.source) s.entry ∨ s.entry = e ∧ e.map Stored.bytes = some E.source
    else E.DiffRefused ∧ E.Spared e (some E.source) s ∧
      (E.mode ≠ .lenient → ∃ new, s.uploads = W ++ new ∧ ∀ u ∈ new, u.completed = false ∧ u.abortCalled = true)

theorem Env.Finished.diffUploaded {r : Bool} {s : Slot} (h : E.Finished e W E.source E.DiffRefused r s) :
    E.DiffUploaded e W r s := by
  obtain ⟨hc, h⟩ := h
  cases r with
  | true => exact ⟨hc, .inl h⟩
  | false =>
    refine ⟨hc, h.1, h.2.1, fun hm => ?_⟩
    obtain ⟨u, hu, h₁, h₂⟩ := h.2.2 hm
    exact ⟨[u], hu, fun v hv => by rw [List.mem_singleton.1 hv]; exact ⟨h₁, h₂⟩⟩

/-- A refusal before any upload was begun. -/
theorem Env.DiffUploaded.refused {s : Slot} (hF : E.DiffRefused) (hc : E.Calm s) (hu : s.uploads = W)
    (he : E.Spared e (some E.source) s) : E.DiffUploaded e W false s :=
  ⟨hc, hF, he, fun _ => ⟨[], by rw [hu, List.append_nil], by simp⟩⟩

theorem diffUploadMultipart_spec {crcs : List UInt32} {s : Slot} (hc : E.Calm s) (hne : E.source ≠ [])
    (hcrcs : E.RemoteCrcs s.entry crcs) (hsep : ∀ o, s.entry = some o → E.Separates E.source o.bytes) :
    wp (exec E) (E.Whole s.entry (some E.source)) H
      (diffUploadMultipart E.source.length (E.chunkCRC32s E.source) crcs) (E.DiffUploaded s.entry s.uploads) s := by
  rw [diffUploadMultipart, wp_bind, wp_req]
  refine ⟨.inl rfl, fun r s' h => ?_⟩
  obtain ⟨he, hc', hr⟩ := create_cases hc h
  have hun : E.faulty ∧ (E.mode ≠ .lenient → s' = s) → E.DiffUploaded s.entry s.uploads false s' := fun hr =>
    ⟨hc', .inl hr.1, .inl he, fun hm => ⟨[], by rw [hr.2 hm, List.append_nil], by simp⟩⟩
  cases r with
  | failed => exact hun hr
  | threw => exact hun hr
  | ok id =>
    obtain ⟨rfl, hsend⟩ := hr
    simp only [wp_bind, wp_req]
    refine ⟨.inl he, fun r s'' h => ?_⟩
    cases r with
    | false =>
      obtain ⟨hF, rfl⟩ := h
      have hready : Env.Ready [] E.source E.DiffRefused none := .inl (hF.resolve_right (by simp))
      exact wp_mono (fun _ _ h => Env.Finished.diffUploaded h)
        (wp_completeOrAbort (fun _ h => h) .inl hready hsend)
    | true =>
      obtain ⟨-, rfl⟩ := h
      simp only [if_true, length_chunkCRC32s]
      exact wp_mono (fun _ _ h => Env.Finished.diffUploaded h)
        (wp_multipart (by unfold minPartBytes defaultChunkSize; omega) hne (fun _ h => h) .inl
          (fun j P s hj hs => diffUploadPart_spec (fun _ _ hs => .inl hs.entry) hcrcs hsep hj hs) hsend)

theorem diffUploadDecide_spec {crcs : List UInt32} {s3Size : Int} {s : Slot} (hc : E.Calm s) (hne : E.source ≠ [])
    (hcrcs : E.RemoteCrcs s.entry crcs) (hsize : ∀ o, s.entry = some o → crcs ≠ [] → s3Size = o.bytes.length)
    (hsep : ∀ o, s.entry = some o → E.Separates E.source o.bytes) :
    wp (exec E) (E.Whole s.entry (some E.source)) H
      (diffUploadDecide E.source.length (E.chunkCRC32s E.source) s3Size crcs)
      (E.DiffUploaded s.entry s.uploads) s := by
  unfold diffUploadDecide
  by_cases hall : unchangedChunks (E.chunkCRC32s E.source) crcs = (E.chunkCRC32s E.source).length ∧
      (E.source.length : Int) = s3Size
  · rw [if_pos hall]
    refine ⟨hc, .inr ⟨rfl, ?_⟩⟩
    have hpos : 0 < (E.chunkCRC32s E.source).length := by
      rw [length_chunkCRC32s]
      exact numChunks_pos defaultChunkSize_pos (List.length_pos_iff.2 hne)
    rcases hcrcs with rfl | ⟨o, ho, hob, rfl⟩
    · have := unchangedChunks_eq_length hall.1 hpos
      rw [unchangedChunk_nil] at this
      exact absurd this (by simp)
    · have hlen := hsize o ho (by
        intro h
        have := unchangedChunks_eq_length hall.1 hpos
        rw [h, unchangedChunk_nil] at this
        exact absurd this (by simp))
      rw [ho, Option.map_some, eq_of_unchangedChunks (hsep o ho) (by omega) hall.1]
  · rw [if_neg hall]
    by_cases hput : (s3Size ≤ 0 ∨ crcs = [] ∨ unchangedChunks (E.chunkCRC32s E.source) crcs = 0) ∧
        E.source.length ≤ kMaxSinglePutBytes
    · rw [if_pos hput, wp_bind]
      have hp : E.Pending s.entry (· = s.uploads) (some E.source) s := ⟨.inl rfl, rfl, hc⟩
      refine wp_mono (fun r s' hr => ?_) (uploadSmallFile_spec hp)
      have hF : E.faulty ∨ ¬ E.source.length ≤ kMaxSinglePutBytes → E.DiffRefused := fun h =>
        .inl (h.resolve_right (fun h => h hput.2))
      cases r with
      | ok a => exact ⟨hr.2.2, .inl hr.1⟩
      | failed => exact .refused (hF hr.2) hr.1.calm hr.1.uploads hr.1.entry
      | threw => exact .refused (hF hr.2) hr.1.calm hr.1.uploads hr.1.entry
    · rw [if_neg hput]
      by_cases hmax : (E.chunkCRC32s E.source).length > kMaxMultipartParts
      · rw [if_pos hmax]
        rw [length_chunkCRC32s] at hmax
        exact .refused (.inr hmax) hc rfl (.inl rfl)
      · rw [if_neg hmax]
        exact diffUploadMultipart_spec hc hne hcrcs hsep

/-- The remote side as the decision sees it. -/
theorem remoteChunks_spec {s : Slot} (hI : I s) :
    wp (exec E) I H remoteChunks (fun r s' => s' = s ∧
      match r with
      | none => E.faulty
      | some (s3Size, crcs) => E.RemoteCrcs s.entry crcs ∧
          (∀ o, s.entry = some o → crcs ≠ [] → s3Size = o.bytes.length) ∧
          (crcs = [] → E.faulty ∨ ∀ o, s.entry = some o → o.bytes = [])) s := by
  rw [remoteChunks, wp_bind, wp_req]
  refine ⟨hI, fun r s' h => ?_⟩
  cases r with
  | threw => exact ⟨h.2, h.1⟩
  | failed =>
    refine ⟨h.2, .inl rfl, by simp, fun _ => h.1.imp_right fun hn o ho => ?_⟩
    rw [Slot.content, ho] at hn
    cases hn
  | ok n =>
    obtain ⟨hn, rfl⟩ := h
    obtain ⟨b, hb, rfl⟩ := Option.map_eq_some_iff.1 hn
    obtain ⟨o, ho, rfl⟩ := Option.map_eq_some_iff.1 hb
    by_cases h0 : o.bytes.length = 0
    · simp only [h0, if_true]
      refine ⟨rfl, .inl rfl, by simp, fun _ => .inr fun o' ho' => ?_⟩
      rw [ho] at ho'
      cases ho'
      exact List.length_eq_zero_iff.1 h0
    · have hval : 0 < o.bytes.length ∧ o.bytes.length ≤ o.bytes.length := ⟨by omega, Nat.le_refl _⟩
      simp only [h0, if_false, wp_bind, wp_req]
      refine ⟨hI, fun r s'' h => ?_⟩
      rw [exec, hb, Option.bind_some, if_pos hval, List.take_length] at h
      cases r with
      | threw => exact ⟨h.2, h.1⟩
      | failed => exact ⟨h.2, .inl rfl, by simp, fun _ => .inl (h.1.resolve_right (by simp))⟩
      | ok l =>
        obtain ⟨hl, rfl⟩ := h
        cases hl
        refine ⟨rfl, .inr ⟨o, ho, fun h => h0 (by rw [h]; rfl), rfl⟩, fun o' ho' _ => ?_, fun hnil => ?_⟩
        · rw [ho] at ho'
          cases ho'
          rfl
        · have hzero := congrArg List.length hnil
          rw [length_chunkCRC32s] at hzero
          exact absurd hzero (numChunks_pos defaultChunkSize_pos hval.1).ne'

/-- **A differential upload leaves the source's bytes or, refused, what was there**, whatever S3 answers. -/
theorem diffUploadFile_spec {s : Slot} (hc : E.Calm s) (hne : E.source ≠ [])
    (hsep : ∀ o, s.entry = some o → E.Separates E.source o.bytes) :
    wp (exec E) (E.Whole s.entry (some E.source)) H diffUploadFile (E.DiffUploaded s.entry s.uploads) s := by
  have hfail : E.faulty → E.DiffUploaded s.entry s.uploads false s := fun hF =>
    .refused (.inl hF) hc rfl (.inl rfl)
  rw [diffUploadFile, wp_bind, wp_req]
  refine ⟨.inl rfl, fun r s' h => ?_⟩
  cases r with
  | failed =>
    obtain ⟨hF, rfl⟩ := h
    exact hfail (hF.resolve_right (by simp))
  | threw =>
    obtain ⟨hF, rfl⟩ := h
    exact hfail hF
  | ok n =>
    obtain ⟨hn, rfl⟩ := h
    cases hn
    have h0 : E.source.length ≠ 0 := fun h => hne (List.length_eq_zero_iff.1 h)
    simp only [h0, if_false, wp_bind, wp_req]
    refine ⟨.inl rfl, fun r s'' h => ?_⟩
    rw [exec, if_neg hne] at h
    cases r with
    | failed =>
      obtain ⟨hF, rfl⟩ := h
      exact hfail (hF.resolve_right (by simp))
    | threw =>
      obtain ⟨hF, rfl⟩ := h
      exact hfail hF
    | ok l =>
      obtain ⟨hl, rfl⟩ := h
      cases hl
      simp only [wp_bind]
      refine wp_mono (fun r s₃ hr => ?_) (remoteChunks_spec (.inl rfl))
      obtain ⟨rfl, hr⟩ := hr
      cases r with
      | none => exact hfail hr
      | some p => exact diffUploadDecide_spec hc hne hr.1 hr.2.1 hsep

/-- **All or nothing.**  Where S3 does what it acknowledges and nothing it reports failed, success is the source's bytes
and failure the object as it was, every multipart upload begun left uncompleted and given an abort call. -/
theorem diffUploadFile_all_or_nothing {E : Env} (hm : E.mode ≠ .lenient) (hne : E.source ≠ []) {s s' : Slot} {r : Bool}
    (hc : E.Calm s) (hsep : ∀ o, s.entry = some o → E.Separates E.source o.bytes)
    (h : Steps (exec E) (diffUploadFile, s) (.ret r, s')) :
    (r = true → s'.content = some E.source) ∧
      (r = false → s'.entry = s.entry ∧
        ∃ new, s'.uploads = s.uploads ++ new ∧ ∀ u ∈ new, u.completed = false ∧ u.abortCalled = true) := by
  obtain ⟨-, hr⟩ := wp_returns (diffUploadFile_spec (H := fun _ => False) hc hne hsep) h
  constructor
  · rintro rfl
    rcases hr with ⟨t, -, he⟩ | ⟨he, hb⟩
    · rw [Slot.content, he, Option.map_some]
    · rw [Slot.content, he, hb]
  · rintro rfl
    obtain ⟨-, hsp, hu⟩ := hr
    exact ⟨hsp.resolve_right (fun h => hm h.1), hu hm⟩

/-! ### One chunk copied, one sent -/

/-- An object of one byte, and requests that may fail. -/
def oneByte : Env where
  source := [7]
  crc := fun _ => 0
  stamp := fun _ => True
  mode := .strict

def zeros : Bytes := List.replicate defaultChunkSize 0

theorem length_zeros : zeros.length = defaultChunkSize := List.length_replicate

/-- A checksum of the last byte. -/
def lastByte (b : Bytes) : UInt32 := (b.getLast?.getD 0).toUInt32

theorem lastByte_zeros : lastByte zeros = 0 := by
  unfold lastByte zeros
  rw [List.getLast?_replicate, if_neg (by decide)]
  rfl

section TwoChunks

variable {a b : Bytes}

theorem lastByte_crcs (hE : E.crc = lastByte) (hb : b ≠ []) (hk : b.length ≤ defaultChunkSize) :
    E.chunkCRC32s (zeros ++ b) = [0, lastByte b] := by
  unfold Env.chunkCRC32s
  rw [chunks_append length_zeros hb hk, hE]
  simp only [List.map_cons, List.map_nil, lastByte_zeros]

/-- Contents that share their first chunk. -/
theorem lastByte_separates (hE : E.crc = lastByte) (ha : a ≠ []) (ha' : a.length ≤ defaultChunkSize) (hb : b ≠ [])
    (hb' : b.length ≤ defaultChunkSize) (hab : lastByte a = lastByte b → a = b) :
    E.Separates (zeros ++ a) (zeros ++ b) := by
  intro i hi hi' hcrc
  have hget : ∀ {c : Bytes}, c ≠ [] → c.length ≤ defaultChunkSize → ∀ {j}, j < numChunks defaultChunkSize (zeros ++ c).length →
      [zeros, c][j]? = some (chunk defaultChunkSize (zeros ++ c) j) := by
    intro c hc hc' j hj
    rw [← chunks_append length_zeros hc hc', getElem?_chunks hj]
  have hx := hget ha ha' hi
  have hy := hget hb hb' hi'
  rw [hE] at hcrc
  clear hi hi' hget
  rcases i with _ | _ | i
  · rw [List.getElem?_cons_zero] at hx hy
    exact (Option.some.inj hx).symm.trans (Option.some.inj hy)
  · rw [List.getElem?_cons_succ, List.getElem?_cons_zero] at hx hy
    rw [← Option.some.inj hx, ← Option.some.inj hy] at hcrc ⊢
    exact hab hcrc
  · exact absurd hx (by simp)

end TwoChunks

/-- A file of two chunks, and requests that may fail. -/
def twoChunks : Env where
  source := zeros ++ [1, 2]
  crc := lastByte
  stamp t := t = 9
  mode := .strict

/-- The object has the file's first chunk. -/
def halfOld : Slot := { entry := some ⟨zeros ++ [3, 4], 5⟩ }

theorem length_twoChunks (a b : UInt8) : (zeros ++ [a, b]).length = 8388610 := by
  rw [List.length_append, length_zeros]
  rfl

theorem rangeOf_zeros (a b : UInt8) : rangeOf (some (zeros ++ [a, b])) 0 8388607 = some zeros := by
  have hrange : (0 : Nat) ≤ 8388607 ∧ 8388607 < (zeros ++ [a, b]).length := ⟨Nat.zero_le _, by rw [length_twoChunks]; decide⟩
  have htake : slice (zeros ++ [a, b]) 0 (8388607 - 0 + 1) = zeros := List.take_left' length_zeros
  unfold rangeOf
  rw [Option.bind_some, if_pos hrange, htake]

theorem slice_zeros (a b : UInt8) : slice (zeros ++ [a, b]) 8388608 2 = [a, b] := by
  have hdrop : (zeros ++ [a, b]).drop 8388608 = [a, b] := List.drop_left' length_zeros
  unfold slice
  rw [hdrop]
  rfl

theorem twoChunks_decided :
    Steps (exec twoChunks) (diffUploadFile, halfOld) (diffUploadMultipart 8388610 [0, 2] [0, 4], halfOld) := by
  have hne : zeros ++ [1, 2] ≠ [] := by simp
  have hcrcs : twoChunks.chunkCRC32s (zeros ++ [1, 2]) = [0, 2] := lastByte_crcs rfl (by simp) (by decide)
  have hcrcs' : twoChunks.chunkCRC32s (zeros ++ [3, 4]) = [0, 4] := lastByte_crcs rfl (by simp) (by decide)
  have hlen := length_twoChunks 3 4
  refine steps_answer (.ok 8388610) halfOld ⟨congrArg some (length_twoChunks 1 2), rfl⟩ ?_
  refine steps_answer (.ok [0, 2]) halfOld ⟨(if_neg hne).trans (congrArg some hcrcs), rfl⟩ ?_
  refine steps_answer (.ok 8388610) halfOld ⟨congrArg some hlen, rfl⟩ ?_
  refine steps_answer (.ok [0, 4]) halfOld ⟨?_, rfl⟩ ?_
  · rw [show halfOld.content = some (zeros ++ [3, 4]) from rfl, Option.bind_some, if_pos ⟨by decide, by rw [hlen]⟩,
      ← hlen, List.take_length, hcrcs']
  · exact .refl

/-- Both parts are there, the first copied from the object. -/
def sentParts : Slot := { halfOld with uploads := [{ parts := [(1, zeros), (2, [1, 2])] }] }

/-- The first part is copied from the object, the second read from the file. -/
theorem twoChunks_sent :
    Steps (exec twoChunks) (diffUploadMultipart 8388610 [0, 2] [0, 4], halfOld)
      (completeOrAbort 0 (some [(1, 0), (2, 1)]), sentParts) := by
  refine steps_answer (.ok 0) { halfOld with uploads := [{}] } ⟨trivial, rfl, rfl⟩ ?_
  refine steps_answer true _ ⟨trivial, rfl⟩ ?_
  refine steps_answer false _ ⟨nofun, nofun, rfl⟩ ?_
  refine steps_answer (.ok 0) { halfOld with uploads := [{ parts := [(1, zeros)] }] }
    ⟨⟨{}, zeros, rfl, ⟨rfl, rfl⟩, rangeOf_zeros 3 4, by rw [length_zeros]; decide, by decide, by decide⟩,
      {}, zeros, rfl, rangeOf_zeros 3 4, rfl, rfl⟩ ?_
  refine steps_answer (.ok [1, 2]) _ ⟨?_, rfl⟩ ?_
  · have hstart : (0 + 1) * defaultChunkSize = 8388608 := by decide
    have hlen : min (8388608 + defaultChunkSize) 8388610 - 8388608 = 2 := by decide
    have hle : 8388608 + 2 ≤ twoChunks.source.length := (length_twoChunks 1 2).ge
    rw [hstart, hlen, if_pos hle]
    exact congrArg some (slice_zeros 1 2)
  refine steps_answer false _ ⟨nofun, nofun, rfl⟩ ?_
  refine steps_answer (.ok 1) sentParts
    ⟨⟨{ parts := [(1, zeros)] }, [1, 2], rfl, ⟨rfl, rfl⟩, by decide, by decide, by decide, by decide⟩,
      { parts := [(1, zeros)] }, [1, 2], rfl, by decide, rfl, rfl⟩ ?_
  exact .refl

theorem sentParts_completable : completable [(1, 0), (2, 1)] [zeros, [1, 2]] := by
  refine ⟨by decide, by decide, fun b hb => ?_⟩
  obtain rfl : b = zeros := List.mem_singleton.1 hb
  rw [length_zeros]
  decide

/-- The completion is carried out, or refused; an upload that is given up gets its abort call. -/
theorem diffUploadFile_all_or_nothing_half :
    (∃ s', Steps (exec twoChunks) (diffUploadFile, halfOld) (.ret true, s') ∧
      s'.content = some (zeros ++ [1, 2])) ∧
    ∃ s', Steps (exec twoChunks) (diffUploadFile, halfOld) (.ret false, s') ∧ s'.content = some (zeros ++ [3, 4]) ∧
      ∃ new, s'.uploads = halfOld.uploads ++ new ∧ ∀ u ∈ new, u.completed = false ∧ u.abortCalled = true := by
  have hfaulty : twoChunks.faulty := Mode.noConfusion
  have hsent := twoChunks_decided.trans twoChunks_sent
  have hdone : ∃ s', Steps (exec twoChunks) (diffUploadFile, halfOld) (.ret true, s') :=
    ⟨_, hsent.trans (steps_answer (.ok ()) _
      ⟨⟨_, _, rfl, ⟨rfl, rfl⟩, rfl, sentParts_completable⟩, _, _, rfl, rfl, 9, rfl, rfl⟩ .refl)⟩
  have hgiven : ∃ s', Steps (exec twoChunks) (diffUploadFile, halfOld) (.ret false, s') :=
    ⟨_, hsent.trans (steps_answer .failed sentParts ⟨.inl hfaulty, .inl rfl⟩
      (steps_answer true _ ⟨fun _ => hfaulty, rfl⟩ .refl))⟩
  have hsep : ∀ o, halfOld.entry = some o → twoChunks.Separates twoChunks.source o.bytes := by
    rintro _ ⟨⟩
    exact lastByte_separates rfl (by simp) (by decide) (by simp) (by decide) fun h => absurd h (by decide)
  have hmode : twoChunks.mode ≠ .lenient := Mode.noConfusion
  have hne : twoChunks.source ≠ [] := by simp [twoChunks]
  obtain ⟨s₁, h₁⟩ := hdone
  obtain ⟨s₂, h₂⟩ := hgiven
  obtain ⟨hentry, hnew⟩ := (diffUploadFile_all_or_nothing hmode hne nofun hsep h₂).2 rfl
  refine ⟨⟨s₁, h₁, (diffUploadFile_all_or_nothing hmode hne nofun hsep h₁).1 rfl⟩, s₂, h₂, ?_, hnew⟩
  rw [Slot.content, hentry]
  rfl

end Mito
