import MitoSync.Diff
import MitoSync.Lib.Chunks
/-!
# DiffSpec — what a comparison tells of two contents

`run_comparison` reads two lists of checksums, and an empty list stands for an empty file as well as for a failure.
Where every answer is a failure or true of static sources (`DiffAnswers.Honest`), a successful comparison has read both
contents (`runComparison_spec`), so its verdict and its lists of chunks are exact in the checksums
(`run_comparison_exact`).  It does not compare the sizes: two last chunks of different lengths with one checksum match.
-/
namespace Mito

open Lib

/-! ## The sources -/

/-- What a local path leads to, links followed: nothing is read of a device, a socket or a fifo. -/
inductive LocalThing
  | absent | file (bytes : Bytes) | special | directory (stSize : Nat)

/-- `st_size` -/
def LocalThing.stSize : LocalThing → Option Nat
  | .absent => none
  | .file bytes => some bytes.length
  | .special => some 0
  | .directory stSize => some stSize

def LocalThing.content : LocalThing → Option Bytes
  | .file bytes => some bytes
  | .special => some []
  | _ => none

structure DiffWorld where
  object : Side → Str → Option Bytes
  localThing : Str → LocalThing
  /-- the checksum of a chunk -/
  crc : Bytes → UInt32

namespace DiffWorld

variable (w : DiffWorld)

/-- The checksums of a content's chunks. -/
def chunkCRC32s (chunkSize : Nat) (b : Bytes) : List UInt32 := (chunks chunkSize b).map w.crc

/-- The content of the object or the file a source names. -/
def content (side : Side) (source : DiffSource) : Option Bytes :=
  match source.type with
  | .local => (w.localThing source.path).content
  | .s3 => w.object side source.path

/-- The source is read as this content: its own, or, of a directory that says it has no bytes, an empty one. -/
def Reads (side : Side) (source : DiffSource) (b : Bytes) : Prop :=
  w.content side source = some b ∨
    source.type = .local ∧ w.localThing source.path = .directory 0 ∧ b = []

variable {w}

@[simp] theorem length_chunkCRC32s (k : Nat) (b : Bytes) :
    (w.chunkCRC32s k b).length = numChunks k b.length := by
  unfold chunkCRC32s
  rw [List.length_map, length_chunks]

theorem getElem?_chunkCRC32s {k : Nat} {b : Bytes} {i : Nat} (h : i < numChunks k b.length) :
    (w.chunkCRC32s k b)[i]? = some (w.crc (chunk k b i)) := by
  unfold chunkCRC32s
  rw [List.getElem?_map, getElem?_chunks h, Option.map_some]

@[simp] theorem chunkCRC32s_nil {k : Nat} (hk : 0 < k) : w.chunkCRC32s k [] = [] := by
  rw [← List.length_eq_zero_iff, length_chunkCRC32s]
  exact Nat.eq_zero_of_not_pos fun h => Nat.not_lt_zero _ ((lt_numChunks hk).1 h)

/-- **Only an empty content has no checksums.** -/
theorem chunkCRC32s_eq_nil {k : Nat} (hk : 0 < k) {b : Bytes} : w.chunkCRC32s k b = [] ↔ b = [] := by
  constructor
  · intro h
    by_contra hb
    have hpos := numChunks_pos hk (List.length_pos_iff.2 hb)
    rw [← length_chunkCRC32s (w := w), h] at hpos
    exact Nat.lt_irrefl 0 hpos
  · rintro rfl
    exact chunkCRC32s_nil hk

end DiffWorld

/-! ## The answers -/

/-- Every answer about sizes and checksums is a failure or true. -/
structure DiffAnswers.Honest (ans : DiffAnswers) (w : DiffWorld) : Prop where
  head : ∀ side key attempt n, ans.head side key attempt = .success n →
    ∃ b, w.object side key = some b ∧ n = b.length
  fileSize : ∀ side path, ans.getLocalFileSize side path = -1 ∨
    ∃ n : Nat, (w.localThing path).stSize = some n ∧ ans.getLocalFileSize side path = n
  fileCrcs : ∀ side path (k : Nat), 0 < k → ans.computeCrc32Chunks side path [] k = [] ∨
    ∃ b, (w.localThing path).content = some b ∧ ans.computeCrc32Chunks side path [] k = w.chunkCRC32s k b
  objectCrcs : ∀ side key b (k : Nat), 0 < k → w.object side key = some b →
    ans.getChunkCRC32s side key b.length [] k = [] ∨
      ans.getChunkCRC32s side key b.length [] k = w.chunkCRC32s k b

/-- **`GetObjectSize` fails or returns what a HEAD returned.** -/
theorem getObjectSizeFrom_cases (outcomes : Nat → HeadOutcome) : ∀ left attempt,
    getObjectSizeFrom outcomes left attempt = -1 ∨
      ∃ i, outcomes i = .success (getObjectSizeFrom outcomes left attempt)
  | 0, attempt => by
    unfold getObjectSizeFrom
    cases h : outcomes attempt with
    | success n => exact .inr ⟨attempt, h⟩
    | error r => exact .inl rfl
    | exception => exact .inl rfl
  | left + 1, attempt => by
    unfold getObjectSizeFrom
    cases h : outcomes attempt with
    | success n => exact .inr ⟨attempt, h⟩
    | exception => exact getObjectSizeFrom_cases outcomes left (attempt + 1)
    | error r =>
      cases r with
      | true => exact getObjectSizeFrom_cases outcomes left (attempt + 1)
      | false => exact .inl rfl

theorem getObjectSize_cases (maxRetries : Nat) (outcomes : Nat → HeadOutcome) :
    getObjectSize maxRetries outcomes = -1 ∨ ∃ i, outcomes i = .success (getObjectSize maxRetries outcomes) :=
  getObjectSizeFrom_cases outcomes maxRetries 0

/-- The answers of a run in which nothing fails. -/
def DiffWorld.answers (w : DiffWorld) (isDirectory : Side → Bool) (listing : Side → Listing) : DiffAnswers where
  isDirectory := isDirectory
  probeClient _ := true
  probeHead _ _ := .error false
  s3Client _ := true
  head side key _ :=
    match w.object side key with
    | some b => .success b.length
    | none => .error false
  getLocalFileSize _ path :=
    match (w.localThing path).stSize with
    | some n => n
    | none => -1
  computeCrc32Chunks _ path _ chunkSize :=
    match (w.localThing path).content with
    | some b => w.chunkCRC32s chunkSize.toNat b
    | none => []
  getChunkCRC32s side key _ _ chunkSize :=
    match w.object side key with
    | some b => w.chunkCRC32s chunkSize.toNat b
    | none => []
  listing := listing

theorem DiffWorld.answers_honest (w : DiffWorld) (isDirectory : Side → Bool) (listing : Side → Listing) :
    (w.answers isDirectory listing).Honest w where
  head side key attempt n h := by
    unfold DiffWorld.answers at h
    dsimp only at h
    split at h
    · rename_i b hb
      exact ⟨b, hb, (HeadOutcome.success.inj h).symm⟩
    · exact absurd h (by simp)
  fileSize side path := by
    unfold DiffWorld.answers
    dsimp only
    split
    · rename_i n hn
      exact .inr ⟨n, hn, rfl⟩
    · exact .inl rfl
  fileCrcs side path k _ := by
    unfold DiffWorld.answers
    dsimp only
    split
    · rename_i b hb
      exact .inr ⟨b, hb, by rw [Int.toNat_natCast]⟩
    · exact .inl rfl
  objectCrcs side key b k _ hb := by
    unfold DiffWorld.answers
    dsimp only
    rw [hb]
    exact .inr (by rw [Int.toNat_natCast])

section Comparison

variable {w : DiffWorld} {ans : DiffAnswers} {side : Side} {source : DiffSource} {k : Nat}

/-- A source was sized and its checksums are not the empty list of a failure. -/
def Readable (ans : DiffAnswers) (side : Side) (source : DiffSource) (k : Nat) : Prop :=
  0 ≤ getSourceSize ans side source ∧
    (computeSourceCrcs ans side source (getSourceSize ans side source) [] k = [] → getSourceSize ans side source ≤ 0)

/-- **A readable source was read.** -/
theorem DiffAnswers.Honest.reads (h : ans.Honest w) (hk : 0 < k) (hr : Readable ans side source k) :
    ∃ b, w.Reads side source b ∧ getSourceSize ans side source = b.length ∧
      computeSourceCrcs ans side source (getSourceSize ans side source) [] k = w.chunkCRC32s k b := by
  obtain ⟨hsize, hcrcs⟩ := hr
  have hempty : ∀ {b : Bytes} {crcs : List UInt32}, (crcs = [] → (b.length : Int) ≤ 0) →
      crcs = [] ∨ crcs = w.chunkCRC32s k b → crcs = w.chunkCRC32s k b := by
    rintro b crcs hle (hnil | hall)
    · have hb : b = [] := List.length_eq_zero_iff.1 (by have := hle hnil; omega)
      rw [hb, DiffWorld.chunkCRC32s_nil hk, hnil]
    · exact hall
  unfold getSourceSize computeSourceCrcs at *
  unfold DiffWorld.Reads DiffWorld.content
  cases htype : source.type with
  | s3 =>
    simp only [htype] at hsize hcrcs ⊢
    cases hclient : ans.s3Client side with
    | false =>
      rw [hclient] at hsize
      exact absurd hsize (by simp)
    | true =>
      simp only [hclient, if_true] at hsize hcrcs ⊢
      rcases getObjectSize_cases ans.maxRetries (ans.head side source.path) with hn | ⟨i, hi⟩
      · rw [hn] at hsize
        exact absurd hsize (by decide)
      · obtain ⟨b, hb, hlen⟩ := h.head _ _ _ _ hi
        rw [hlen] at hcrcs ⊢
        exact ⟨b, .inl hb, rfl, hempty hcrcs (h.objectCrcs side source.path b k hk hb)⟩
  | «local» =>
    simp only [htype] at hsize hcrcs ⊢
    rcases h.fileSize side source.path with hn | ⟨n, hn, hans⟩
    · rw [hn] at hsize
      exact absurd hsize (by decide)
    · rw [hans] at hcrcs ⊢
      have hfile := h.fileCrcs side source.path k hk
      cases hthing : w.localThing source.path with
      | absent =>
        rw [hthing] at hn
        exact absurd hn (by simp [LocalThing.stSize])
      | file bytes =>
        rw [hthing] at hn hfile
        obtain rfl := Option.some.inj hn
        refine ⟨bytes, .inl rfl, rfl, hempty hcrcs ?_⟩
        rcases hfile with hfile | ⟨b, hb, hfile⟩
        · exact .inl hfile
        · obtain rfl := Option.some.inj hb
          exact .inr hfile
      | special =>
        rw [hthing] at hn hfile
        obtain rfl := Option.some.inj hn
        refine ⟨[], .inl rfl, rfl, hempty hcrcs ?_⟩
        rcases hfile with hfile | ⟨b, hb, hfile⟩
        · exact .inl hfile
        · obtain rfl := Option.some.inj hb
          exact .inr hfile
      | directory stSize =>
        -- nothing is read of a directory, so it passes for a file only where it claims no bytes
        rw [hthing] at hn hfile
        obtain rfl := Option.some.inj hn
        rcases hfile with hfile | ⟨b, hb, -⟩
        · have hzero : stSize = 0 := by have := hcrcs hfile; omega
          subst hzero
          exact ⟨[], .inr ⟨trivial, rfl, rfl⟩, rfl, by rw [hfile, DiffWorld.chunkCRC32s_nil hk]⟩
        · exact absurd hb (by simp [LocalThing.content])

/-! ## The verdict -/

/-- Contents with the same checksums are of one size, unless two chunks of different lengths have one checksum. -/
theorem sizes_of_crcs (hk : 0 < k) {x y : Bytes} (h : w.chunkCRC32s k x = w.chunkCRC32s k y) :
    x.length = y.length ∨
      ∃ i, (chunk k x i).length ≠ (chunk k y i).length ∧ w.crc (chunk k x i) = w.crc (chunk k y i) := by
  have hlen : numChunks k x.length = numChunks k y.length := by
    rw [← DiffWorld.length_chunkCRC32s (w := w), h, DiffWorld.length_chunkCRC32s]
  have hcrc : ∀ i, i < numChunks k x.length → w.crc (chunk k x i) = w.crc (chunk k y i) := by
    intro i hi
    have hx := DiffWorld.getElem?_chunkCRC32s (w := w) hi
    rw [h, DiffWorld.getElem?_chunkCRC32s (hlen ▸ hi)] at hx
    exact (Option.some.inj hx).symm
  by_cases hall : ∀ i, i < numChunks k x.length → (chunk k x i).length = (chunk k y i).length
  · -- the chunks tile the contents, so equal lengths add up
    refine .inl ?_
    have hsum : ∀ z : Bytes, z.length = ((List.range (numChunks k z.length)).map (fun i => (chunk k z i).length)).sum := by
      intro z
      conv_lhs => rw [← flatten_chunks hk z]
      rw [List.length_flatten, chunks, List.map_map]
      rfl
    rw [hsum x, hsum y, ← hlen]
    refine congrArg List.sum (List.map_congr_left fun i hi => hall i (List.mem_range.1 hi))
  · push Not at hall
    obtain ⟨i, hi, hne⟩ := hall
    exact .inr ⟨i, hne, hcrc i hi⟩

@[simp] theorem compareCrcs_success (r : ComparisonResult) : (compareCrcs r).success = true := rfl

@[simp] theorem compareCrcs_sizeA (r : ComparisonResult) : (compareCrcs r).sizeA = r.sizeA := rfl

@[simp] theorem compareCrcs_sizeB (r : ComparisonResult) : (compareCrcs r).sizeB = r.sizeB := rfl

theorem mem_mismatchedChunks {r : ComparisonResult} {i : Nat} :
    i ∈ (compareCrcs r).mismatchedChunks ↔ i < r.sourceACrcs.length ∧ i < r.sourceBCrcs.length ∧
      r.sourceACrcs[i]? ≠ r.sourceBCrcs[i]? := by
  simp only [compareCrcs, List.mem_filter, List.mem_range, decide_eq_true_eq, lt_min_iff, and_assoc]

theorem mem_extraChunksInA {r : ComparisonResult} {i : Nat} :
    i ∈ (compareCrcs r).extraChunksInA ↔ r.sourceBCrcs.length ≤ i ∧ i < r.sourceACrcs.length := by
  simp only [compareCrcs]
  split
  · rw [List.mem_range'_1]
    omega
  · simp only [List.not_mem_nil, false_iff]
    omega

theorem mem_extraChunksInB {r : ComparisonResult} {i : Nat} :
    i ∈ (compareCrcs r).extraChunksInB ↔ r.sourceACrcs.length ≤ i ∧ i < r.sourceBCrcs.length := by
  simp only [compareCrcs]
  split
  · rw [List.mem_range'_1]
    omega
  · simp only [List.not_mem_nil, false_iff]
    omega

/-- **Two lists match where they are the same list.** -/
theorem compareCrcs_allMatch {r : ComparisonResult} :
    (compareCrcs r).allMatch = true ↔ r.sourceACrcs = r.sourceBCrcs := by
  have hall : (compareCrcs r).allMatch = true ↔ (∀ i, i ∉ (compareCrcs r).mismatchedChunks) ∧
      r.sourceACrcs.length = r.sourceBCrcs.length := by
    rw [← List.eq_nil_iff_forall_not_mem]
    simp only [compareCrcs, decide_eq_true_eq]
    refine and_congr_right fun _ => ?_
    omega
  rw [hall]
  constructor
  · rintro ⟨hm, hlen⟩
    apply List.ext_getElem? fun i => ?_
    by_cases hi : i < r.sourceACrcs.length
    · by_contra hne
      exact hm i (mem_mismatchedChunks.2 ⟨hi, hlen ▸ hi, hne⟩)
    · rw [List.getElem?_eq_none (by omega), List.getElem?_eq_none (by omega)]
  · intro h
    refine ⟨fun i hi => ?_, by rw [h]⟩
    exact (mem_mismatchedChunks.1 hi).2.2 (by rw [h])

variable {a b : DiffSource}

/-- The result of a comparison that compares. -/
def comparedResult (ans : DiffAnswers) (config : ComparisonConfig) : ComparisonResult :=
  compareCrcs
    { sizeA := getSourceSize ans .a config.sourceA
      sizeB := getSourceSize ans .b config.sourceB
      fileSize := min (getSourceSize ans .a config.sourceA) (getSourceSize ans .b config.sourceB)
      sourceACrcs := computeSourceCrcs ans .a config.sourceA (getSourceSize ans .a config.sourceA) config.chunkIds
        config.chunkSize
      sourceBCrcs := computeSourceCrcs ans .b config.sourceB (getSourceSize ans .b config.sourceB) config.chunkIds
        config.chunkSize }

/-- **A comparison succeeds where both sources are readable**, and then it is of their checksums. -/
theorem runComparison_spec :
    (runComparison ans ⟨a, b, [], k⟩).success = true ↔ Readable ans .a a k ∧ Readable ans .b b k := by
  unfold runComparison Readable
  by_cases ha : getSourceSize ans .a a < 0
  · simp only [ha, if_true, Bool.false_eq_true, false_iff]
    omega
  by_cases hb : getSourceSize ans .b b < 0
  · simp only [ha, hb, if_true, if_false, Bool.false_eq_true, false_iff]
    omega
  simp only [ha, hb, if_false]
  split
  · rename_i hfail
    simp only [Bool.false_eq_true, false_iff]
    rintro ⟨⟨-, h⟩, -⟩
    have := h hfail.1
    omega
  split
  · rename_i hfail
    simp only [Bool.false_eq_true, false_iff]
    rintro ⟨-, -, h⟩
    have := h hfail.1
    omega
  · rename_i h₁ h₂
    rw [compareCrcs_success]
    refine ⟨fun _ => ⟨⟨by omega, fun h => ?_⟩, by omega, fun h => ?_⟩, fun _ => rfl⟩
    · by_contra hlt
      exact h₁ ⟨h, by omega⟩
    · by_contra hlt
      exact h₂ ⟨h, by omega⟩

theorem runComparison_eq (h : (runComparison ans ⟨a, b, [], k⟩).success = true) :
    runComparison ans ⟨a, b, [], k⟩ = comparedResult ans ⟨a, b, [], k⟩ := by
  unfold runComparison at h ⊢
  dsimp only at h ⊢
  split at h
  · exact absurd h Bool.false_ne_true
  rename_i ha
  rw [if_neg ha]
  split at h
  · exact absurd h Bool.false_ne_true
  rename_i hb
  rw [if_neg hb]
  split at h
  · exact absurd h Bool.false_ne_true
  rename_i hca
  rw [if_neg hca]
  split at h
  · exact absurd h Bool.false_ne_true
  rename_i hcb
  rw [if_neg hcb]
  rfl

/-- **A comparison that succeeds has read two contents**, and its lists of checksums are theirs. -/
theorem runComparison_reads (h : ans.Honest w) (hk : 0 < k) (hs : (runComparison ans ⟨a, b, [], k⟩).success = true) :
    ∃ x y, w.Reads .a a x ∧ w.Reads .b b y ∧ ∃ r : ComparisonResult, runComparison ans ⟨a, b, [], k⟩ = compareCrcs r ∧
      r.sizeA = x.length ∧ r.sizeB = y.length ∧ r.sourceACrcs = w.chunkCRC32s k x ∧
      r.sourceBCrcs = w.chunkCRC32s k y := by
  obtain ⟨ha, hb⟩ := runComparison_spec.1 hs
  obtain ⟨x, hx, hsx, hcx⟩ := h.reads hk ha
  obtain ⟨y, hy, hsy, hcy⟩ := h.reads hk hb
  exact ⟨x, y, hx, hy, _, runComparison_eq hs, hsx, hsy, hcx, hcy⟩

/-- **The verdict is exact in the checksums**, and so are the lists of chunks.  The contents may still be of different
sizes, where two last chunks of different lengths have one checksum. -/
theorem run_comparison_exact (h : ans.Honest w) (hk : 0 < k)
    (hs : (runComparison ans ⟨a, b, [], k⟩).success = true) :
    ∃ x y, w.Reads .a a x ∧ w.Reads .b b y ∧
      (runComparison ans ⟨a, b, [], k⟩).sizeA = x.length ∧ (runComparison ans ⟨a, b, [], k⟩).sizeB = y.length ∧
      ((runComparison ans ⟨a, b, [], k⟩).allMatch = true ↔ w.chunkCRC32s k x = w.chunkCRC32s k y) ∧
      ((runComparison ans ⟨a, b, [], k⟩).allMatch = true → x.length = y.length ∨
        ∃ i, (chunk k x i).length ≠ (chunk k y i).length ∧ w.crc (chunk k x i) = w.crc (chunk k y i)) ∧
      (x = y → (runComparison ans ⟨a, b, [], k⟩).allMatch = true) ∧
      (∀ i ∈ (runComparison ans ⟨a, b, [], k⟩).mismatchedChunks,
        i ∉ (runComparison ans ⟨a, b, [], k⟩).extraChunksInA ∧ i ∉ (runComparison ans ⟨a, b, [], k⟩).extraChunksInB) ∧
      (∀ i ∈ (runComparison ans ⟨a, b, [], k⟩).extraChunksInA, i ∉ (runComparison ans ⟨a, b, [], k⟩).extraChunksInB) ∧
      ∀ i < max (numChunks k x.length) (numChunks k y.length),
        (i ∉ (runComparison ans ⟨a, b, [], k⟩).mismatchedChunks ∧
          i ∉ (runComparison ans ⟨a, b, [], k⟩).extraChunksInA ∧
          i ∉ (runComparison ans ⟨a, b, [], k⟩).extraChunksInB ↔
        i < numChunks k x.length ∧ i < numChunks k y.length ∧ w.crc (chunk k x i) = w.crc (chunk k y i)) := by
  obtain ⟨x, y, hx, hy, r, hr, hsx, hsy, hcx, hcy⟩ := runComparison_reads h hk hs
  have hlx : r.sourceACrcs.length = numChunks k x.length := by rw [hcx, DiffWorld.length_chunkCRC32s]
  have hly : r.sourceBCrcs.length = numChunks k y.length := by rw [hcy, DiffWorld.length_chunkCRC32s]
  have hall : (compareCrcs r).allMatch = true ↔ w.chunkCRC32s k x = w.chunkCRC32s k y := by
    rw [compareCrcs_allMatch, hcx, hcy]
  rw [hr]
  refine ⟨x, y, hx, hy, hsx, hsy, hall, ?_, ?_, ?_, ?_, ?_⟩
  · intro hm
    exact sizes_of_crcs hk (hall.1 hm)
  · rintro rfl
    exact hall.2 rfl
  · intro i hi
    obtain ⟨hia, hib, -⟩ := mem_mismatchedChunks.1 hi
    exact ⟨fun hA => by have := mem_extraChunksInA.1 hA; omega, fun hB => by have := mem_extraChunksInB.1 hB; omega⟩
  · intro i hi hB
    have hA := mem_extraChunksInA.1 hi
    have hB := mem_extraChunksInB.1 hB
    omega
  · intro i hi
    rw [mem_mismatchedChunks, mem_extraChunksInA, mem_extraChunksInB, hlx, hly]
    constructor
    · rintro ⟨hm, hA, hB⟩
      have hix : i < numChunks k x.length := by omega
      have hiy : i < numChunks k y.length := by omega
      refine ⟨hix, hiy, ?_⟩
      by_contra hne
      refine hm ⟨hix, hiy, ?_⟩
      rw [hcx, hcy, DiffWorld.getElem?_chunkCRC32s hix, DiffWorld.getElem?_chunkCRC32s hiy]
      exact fun heq => hne (Option.some.inj heq)
    · rintro ⟨hix, hiy, heq⟩
      refine ⟨fun hm => hm.2.2 ?_, by omega, by omega⟩
      rw [hcx, hcy, DiffWorld.getElem?_chunkCRC32s hix, DiffWorld.getElem?_chunkCRC32s hiy, heq]

/-- Two files of one and two bytes, and a checksum that is the same of any chunk. -/
def colliding : DiffWorld where
  object _ _ := none
  localThing path := if path = ['x'] then .file [1] else .file [1, 1]
  crc _ := 0

theorem colliding_match :
    (runComparison (colliding.answers (fun _ => false) (fun _ => { entries := [] }))
      ⟨{ path := ['x'] }, { path := ['y'] }, [], (8 : Nat)⟩).success = true ∧
    (runComparison (colliding.answers (fun _ => false) (fun _ => { entries := [] }))
      ⟨{ path := ['x'] }, { path := ['y'] }, [], (8 : Nat)⟩).allMatch = true ∧
    (runComparison (colliding.answers (fun _ => false) (fun _ => { entries := [] }))
      ⟨{ path := ['x'] }, { path := ['y'] }, [], (8 : Nat)⟩).sizeA = 1 ∧
    (runComparison (colliding.answers (fun _ => false) (fun _ => { entries := [] }))
      ⟨{ path := ['x'] }, { path := ['y'] }, [], (8 : Nat)⟩).sizeB = 2 := by
  decide

/-- A match of two contents of different sizes. -/
theorem run_comparison_sizes : ¬ ∀ (w : DiffWorld) (ans : DiffAnswers) (a b : DiffSource) (k : Nat), ans.Honest w →
    0 < k → (runComparison ans ⟨a, b, [], k⟩).success = true → (runComparison ans ⟨a, b, [], k⟩).allMatch = true →
      (runComparison ans ⟨a, b, [], k⟩).sizeA = (runComparison ans ⟨a, b, [], k⟩).sizeB := by
  intro h
  obtain ⟨hs, hm, ha, hb⟩ := colliding_match
  have heq := h _ _ _ _ 8 (colliding.answers_honest _ _) (by decide) hs hm
  rw [ha, hb] at heq
  exact absurd heq (by decide)

/-- The same two files, compared. -/
theorem run_comparison_exact_colliding : ∃ x y, colliding.Reads .a { path := ['x'] } x ∧
    colliding.Reads .b { path := ['y'] } y ∧ (x.length : Int) = 1 ∧ (y.length : Int) = 2 := by
  obtain ⟨hs, -, ha, hb⟩ := colliding_match
  obtain ⟨x, y, hx, hy, hsx, hsy, -⟩ := run_comparison_exact (colliding.answers_honest _ _) (by decide) hs
  exact ⟨x, y, hx, hy, hsx.symm.trans ha, hsy.symm.trans hb⟩

end Comparison

end Mito
