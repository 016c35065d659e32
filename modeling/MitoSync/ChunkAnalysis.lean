import MitoSync.BlockAnalysis
import MitoSync.PartPlan
/-!
# ChunkAnalysis — how much of a chunk differs, and where

`analyze_buffers` counts the differing bytes of two buffers, keeps the first and the last of them, and tells for each
block whether it is equal in both.  All of it is exact for every length and every block size, where the rounding up of
the number of blocks does not overflow (`analyzeBuffers_exact_iff`).
-/
namespace Mito

open Lib

/-! ## The code -/

/-- `BlockAnalysis`, without the percentage, a floating-point number, and what its caller alone writes. -/
structure BlockAnalysis where
  chunkSize : Int := 0
  blockSize : Int := 64 * 1024
  blockMatches : List Bool := []
  totalBlocks : Int := 0
  blocksDifferent : Int := 0
  bytesDifferent : Int := 0
  firstDiffOffset : Int := -1
  lastDiffOffset : Int := -1
  errorMessage : String := ""
  deriving DecidableEq

/-- A byte that differs. -/
def BlockAnalysis.differs (result : BlockAnalysis) (i : Nat) : BlockAnalysis :=
  { result with
    bytesDifferent := result.bytesDifferent + 1
    firstDiffOffset := if result.firstDiffOffset < 0 then i else result.firstDiffOffset
    lastDiffOffset := i }

/-- The inner loop's body, with `block_matches`. -/
def compareByte (dataA dataB : Bytes) (s : BlockAnalysis × Bool) (i : Nat) : BlockAnalysis × Bool :=
  if dataA[i]? ≠ dataB[i]? then (s.1.differs i, false) else s

/-- What is left to do once a block's bytes were compared. -/
def closeBlock (s : BlockAnalysis × Bool) (block : Nat) : BlockAnalysis :=
  { s.1 with
    blockMatches := s.1.blockMatches.set block s.2
    blocksDifferent := if s.2 then s.1.blocksDifferent else s.1.blocksDifferent + 1 }

/-- The outer loop's body, `none` where an `int64_t` overflows. -/
def compareBlock (dataA dataB : Bytes) (blockSize : Int) (result : BlockAnalysis) (block : Nat) :
    Option BlockAnalysis := do
  let blockStart ← int64 (block * blockSize)
  let past ← int64 (blockStart + blockSize)
  let blockEnd := min past dataA.length
  let s := (List.range' blockStart.toNat (blockEnd - blockStart).toNat).foldl (compareByte dataA dataB) (result, true)
  some (closeBlock s block)

/-- `std::vector<bool>::resize`, with `true` for what is new. -/
def resizeTrue (bits : List Bool) (n : Nat) : List Bool := bits.take n ++ List.replicate (n - bits.length) true

def analyzeBuffers (dataA dataB : Bytes) (result : BlockAnalysis) (blockSize : Int) : Option (Bool × BlockAnalysis) :=
  if dataA.length ≠ dataB.length then
    some (false, { result with
      errorMessage := "Buffer size mismatch: A=" ++ toString dataA.length ++ ", B=" ++ toString dataB.length })
  else do
    let sum ← int64 (dataA.length + blockSize)
    let rounded ← int64 (sum - 1)
    let numBlocks := rounded.tdiv blockSize
    let start : BlockAnalysis := { result with
      chunkSize := dataA.length
      blockSize := blockSize
      totalBlocks := numBlocks
      blockMatches := resizeTrue result.blockMatches numBlocks.toNat
      bytesDifferent := 0
      blocksDifferent := 0
      firstDiffOffset := -1
      lastDiffOffset := -1 }
    let result ← (List.range numBlocks.toNat).foldlM (compareBlock dataA dataB blockSize) start
    some (true, result)

/-! ## What it should say -/

instance (a b : Bytes) : DecidablePred (DiffersAt a b) := fun i => inferInstanceAs (Decidable (a[i]? ≠ b[i]?))

/-- What a chunk's analysis says of two buffers of one length, in blocks of `k`. -/
structure ChunkExact (a b : Bytes) (k : Nat) (r : BlockAnalysis) : Prop where
  bytes : r.bytesDifferent = (List.range a.length).countP (DiffersAt a b ·)
  first : (r.firstDiffOffset = -1 ∧ ∀ i, ¬ DiffersAt a b i) ∨
    ∃ i : Nat, r.firstDiffOffset = i ∧ IsLeast {j | DiffersAt a b j} i
  last : (r.lastDiffOffset = -1 ∧ ∀ i, ¬ DiffersAt a b i) ∨
    ∃ i : Nat, r.lastDiffOffset = i ∧ IsGreatest {j | DiffersAt a b j} i
  blocks : r.blockMatches = (List.range r.totalBlocks.toNat).map fun i => decide (chunk k a i = chunk k b i)
  blocksDifferent : r.blocksDifferent = r.blockMatches.count false
  tiles : ((List.range r.totalBlocks.toNat).flatMap fun i => List.range' (i * k) (chunkLen k a.length i)) =
    List.range a.length

/-! ## One byte -/

/-- The counters after the first `p` bytes. -/
structure BytesCounted (a b : Bytes) (p : Nat) (r : BlockAnalysis) : Prop where
  bytes : r.bytesDifferent = (List.range p).countP (DiffersAt a b ·)
  first : (r.firstDiffOffset = -1 ∧ ∀ i < p, ¬ DiffersAt a b i) ∨
    ∃ i : Nat, r.firstDiffOffset = i ∧ i < p ∧ DiffersAt a b i ∧ ∀ j < i, ¬ DiffersAt a b j
  last : (r.lastDiffOffset = -1 ∧ ∀ i < p, ¬ DiffersAt a b i) ∨
    ∃ i : Nat, r.lastDiffOffset = i ∧ i < p ∧ DiffersAt a b i ∧ ∀ j, i < j → j < p → ¬ DiffersAt a b j

section Counting

variable {a b : Bytes} {p : Nat} {r : BlockAnalysis}

theorem BytesCounted.equal (h : BytesCounted a b p r) (hp : ¬ DiffersAt a b p) : BytesCounted a b (p + 1) r := by
  have hnone : (∀ i < p, ¬ DiffersAt a b i) → ∀ i < p + 1, ¬ DiffersAt a b i := by
    intro hall i hi
    rcases Nat.lt_succ_iff_lt_or_eq.1 hi with hlt | rfl
    · exact hall i hlt
    · exact hp
  constructor
  · rw [h.bytes, List.range_succ, List.countP_append]
    simp [hp]
  · rcases h.first with ⟨hfirst, hall⟩ | ⟨i, hfirst, hi, hd, hbefore⟩
    · exact .inl ⟨hfirst, hnone hall⟩
    · exact .inr ⟨i, hfirst, by omega, hd, hbefore⟩
  · rcases h.last with ⟨hlast, hall⟩ | ⟨i, hlast, hi, hd, hafter⟩
    · exact .inl ⟨hlast, hnone hall⟩
    · refine .inr ⟨i, hlast, by omega, hd, fun j hj hjp => ?_⟩
      rcases Nat.lt_succ_iff_lt_or_eq.1 hjp with hlt | rfl
      · exact hafter j hj hlt
      · exact hp

theorem BytesCounted.differs (h : BytesCounted a b p r) (hp : DiffersAt a b p) : BytesCounted a b (p + 1) (r.differs p) := by
  constructor
  · show r.bytesDifferent + 1 = _
    rw [h.bytes, List.range_succ, List.countP_append]
    simp [hp]
  · right
    show ∃ i : Nat, (if r.firstDiffOffset < 0 then (p : Int) else r.firstDiffOffset) = i ∧ _
    rcases h.first with ⟨hfirst, hall⟩ | ⟨i, hfirst, hi, hd, hbefore⟩
    · exact ⟨p, if_pos (by omega), by omega, hp, hall⟩
    · exact ⟨i, (if_neg (by omega)).trans hfirst, by omega, hd, hbefore⟩
  · exact .inr ⟨p, rfl, by omega, hp, fun j hj hjp => by omega⟩

theorem compareByte_differs {i : Nat} (h : DiffersAt a b i) (s : BlockAnalysis × Bool) :
    compareByte a b s i = (s.1.differs i, false) :=
  if_pos h

theorem compareByte_equal {i : Nat} (h : ¬ DiffersAt a b i) (s : BlockAnalysis × Bool) : compareByte a b s i = s :=
  if_neg h

/-- The inner loop: the counters move on, and nothing else of the result changes. -/
theorem compareBytes_spec (h : BytesCounted a b p r) : ∀ n : Nat,
    BytesCounted a b (p + n) ((List.range' p n).foldl (compareByte a b) (r, true)).1 ∧
      (((List.range' p n).foldl (compareByte a b) (r, true)).2 = true ↔
        ∀ j, p ≤ j → j < p + n → ¬ DiffersAt a b j) ∧
      ∃ bytes first last, ((List.range' p n).foldl (compareByte a b) (r, true)).1 =
        { r with bytesDifferent := bytes, firstDiffOffset := first, lastDiffOffset := last }
  | 0 => ⟨h, by simp; omega, r.bytesDifferent, r.firstDiffOffset, r.lastDiffOffset, rfl⟩
  | n + 1 => by
    obtain ⟨hcount, hmatch, bytes, first, last, hframe⟩ := compareBytes_spec h n
    rw [List.range'_concat, Nat.one_mul, List.foldl_append, List.foldl_cons, List.foldl_nil]
    generalize (List.range' p n).foldl (compareByte a b) (r, true) = s at *
    by_cases hd : DiffersAt a b (p + n)
    · rw [compareByte_differs hd]
      refine ⟨hcount.differs hd, ?_, bytes + 1, if first < 0 then (p + n : Nat) else first, (p + n : Nat), ?_⟩
      · refine iff_of_false (by simp) fun hall => hall (p + n) (by omega) (by omega) hd
      · rw [hframe]
        rfl
    · rw [compareByte_equal hd]
      refine ⟨hcount.equal hd, hmatch.trans ⟨fun hall j hj hlt => ?_, fun hall j hj hlt => ?_⟩, bytes, first, last,
        hframe⟩
      · by_cases hlast : j = p + n
        · rw [hlast]
          exact hd
        · exact hall j hj (by omega)
      · exact hall j hj (by omega)

end Counting

/-! ## One block -/

section Blocks

variable {a b : Bytes} {k m : Nat} {r : BlockAnalysis}

theorem chunk_eq_iff (hlen : a.length = b.length) (hm : m * k < a.length) : chunk k a m = chunk k b m ↔
    ∀ j, m * k ≤ j → j < m * k + chunkLen k a.length m → ¬ DiffersAt a b j := by
  have hchunkA := length_chunk hm
  have hchunkB := length_chunk (k := k) (hlen ▸ hm)
  rw [← hlen] at hchunkB
  constructor
  · intro h j hj hlt hd
    have hin : j - m * k < chunkLen k a.length m := by omega
    have ha := getElem?_chunk hin
    have hb := getElem?_chunk (l := b) (hlen ▸ hin)
    rw [h, hb] at ha
    refine hd ?_
    rw [show m * k + (j - m * k) = j by omega] at ha
    exact ha.symm
  · intro h
    refine List.ext_getElem? fun j => ?_
    by_cases hin : j < chunkLen k a.length m
    · rw [getElem?_chunk hin, getElem?_chunk (hlen ▸ hin)]
      exact not_not.1 (h (m * k + j) (by omega) (by omega))
    · rw [List.getElem?_eq_none (by omega), List.getElem?_eq_none (by omega)]

/-- What the outer loop knows after `m` blocks. -/
structure Compared (a b : Bytes) (k m : Nat) (r : BlockAnalysis) : Prop where
  counted : BytesCounted a b (min (m * k) a.length) r
  total : r.totalBlocks = numChunks k a.length
  length : r.blockMatches.length = numChunks k a.length
  verdicts : r.blockMatches.take m = (List.range m).map fun i => decide (chunk k a i = chunk k b i)
  blocks : r.blocksDifferent = ((List.range m).map fun i => decide (chunk k a i = chunk k b i)).count false

theorem take_succ_set {l : List Bool} (h : m < l.length) (x : Bool) : (l.set m x).take (m + 1) = l.take m ++ [x] := by
  rw [List.take_add_one, List.take_set_of_le (Nat.le_refl m), List.getElem?_set_self h]
  rfl

/-- The outer loop's body. -/
theorem compareBlock_spec (hlen : a.length = b.length) (hk : 0 < k) (hfit : a.length + k < 2 ^ 63)
    (h : Compared a b k m r) (hm : m < numChunks k a.length) :
    ∃ r', compareBlock a b k r m = some r' ∧ Compared a b k (m + 1) r' := by
  have hstart : m * k < a.length := (lt_numChunks hk).1 hm
  have hmin : min (m * k) a.length = m * k := by omega
  have hend : m * k + chunkLen k a.length m = min ((m + 1) * k) a.length := by
    rw [chunk_end hstart, Nat.succ_mul]
  have hcast : (m : Int) * k = (m * k : Nat) := by push_cast; rfl
  have hspan : (min ((m * k : Nat) + (k : Int)) a.length - (m * k : Nat)).toNat = chunkLen k a.length m := by
    unfold chunkLen
    omega
  obtain ⟨hcount, hmatch, bytes, first, last, hframe⟩ :=
    compareBytes_spec (hmin ▸ h.counted) (chunkLen k a.length m)
  have hrun : compareBlock a b k r m = some
      (closeBlock ((List.range' (m * k) (chunkLen k a.length m)).foldl (compareByte a b) (r, true)) m) := by
    unfold compareBlock
    rw [hcast, int64_bind (by omega) (by omega), int64_bind (by omega) (by omega)]
    dsimp only
    rw [Int.toNat_natCast, hspan]
  refine ⟨_, hrun, ?_⟩
  generalize (List.range' (m * k) (chunkLen k a.length m)).foldl (compareByte a b) (r, true) = s at *
  have hverdict : s.2 = decide (chunk k a m = chunk k b m) := by
    rw [Bool.eq_iff_iff, hmatch, decide_eq_true_iff, chunk_eq_iff hlen hstart]
  have hmatches : s.1.blockMatches = r.blockMatches := by rw [hframe]
  have hblocks : s.1.blocksDifferent = r.blocksDifferent := by rw [hframe]
  constructor
  · rw [hend] at hcount
    exact ⟨hcount.bytes, hcount.first, hcount.last⟩
  · show s.1.totalBlocks = _
    rw [hframe]
    exact h.total
  · show (s.1.blockMatches.set m s.2).length = _
    rw [List.length_set, hmatches, h.length]
  · show (s.1.blockMatches.set m s.2).take (m + 1) = _
    rw [hmatches, take_succ_set (h.length ▸ hm), h.verdicts, List.range_succ, List.map_append, hverdict]
    rfl
  · show (if s.2 then s.1.blocksDifferent else s.1.blocksDifferent + 1) = _
    rw [hblocks, h.blocks, List.range_succ, List.map_append, List.count_append, hverdict]
    by_cases heq : chunk k a m = chunk k b m <;> simp [heq]

/-- The outer loop. -/
theorem compareBlocks_spec (hlen : a.length = b.length) (hk : 0 < k) (hfit : a.length + k < 2 ^ 63)
    (h : Compared a b k 0 r) : ∀ m ≤ numChunks k a.length,
      ∃ r', (List.range m).foldlM (compareBlock a b k) r = some r' ∧ Compared a b k m r'
  | 0, _ => ⟨r, rfl, h⟩
  | m + 1, hm => by
    obtain ⟨r₁, hrun, hcompared⟩ := compareBlocks_spec hlen hk hfit h m (by omega)
    obtain ⟨r₂, hstep, hnext⟩ := compareBlock_spec hlen hk hfit hcompared hm
    refine ⟨r₂, ?_, hnext⟩
    rw [List.range_succ, List.foldlM_append, hrun]
    show ([m].foldlM (compareBlock a b k) r₁) = some r₂
    rw [List.foldlM_cons, hstep]
    rfl

/-- The blocks tile the buffer. -/
theorem blocks_tile (hk : 0 < k) (n : Nat) : ∀ m ≤ numChunks k n,
    ((List.range m).flatMap fun i => List.range' (i * k) (chunkLen k n i)) = List.range (min (m * k) n)
  | 0, _ => by simp
  | m + 1, hm => by
    have hstart : m * k < n := (lt_numChunks hk).1 hm
    have hmin : min (m * k) n = m * k := by omega
    have hend : m * k + chunkLen k n m = min ((m + 1) * k) n := by
      rw [chunk_end hstart, Nat.succ_mul]
    have happ := List.range'_append_1 (s := 0) (m := m * k) (n := chunkLen k n m)
    rw [Nat.zero_add] at happ
    rw [List.range_succ, List.flatMap_append, blocks_tile hk n m (by omega), hmin, ← hend, List.range_eq_range',
      List.range_eq_range', ← happ]
    simp

end Blocks

/-! ## The whole analysis -/

section Analysis

variable {a b : Bytes}

/-- The result as the loops begin. -/
theorem compared_start (k : Nat) (result : BlockAnalysis) : Compared a b k 0
    { result with
      chunkSize := a.length
      blockSize := (k : Int)
      totalBlocks := (numChunks k a.length : Int)
      blockMatches := resizeTrue result.blockMatches (numChunks k a.length)
      bytesDifferent := 0
      blocksDifferent := 0
      firstDiffOffset := -1
      lastDiffOffset := -1 } := by
  constructor
  · rw [Nat.zero_mul, Nat.zero_min]
    exact ⟨rfl, .inl ⟨rfl, by simp⟩, .inl ⟨rfl, by simp⟩⟩
  · rfl
  · unfold resizeTrue
    rw [List.length_append, List.length_take, List.length_replicate]
    omega
  · rfl
  · rfl

theorem Compared.exact {k : Nat} {r : BlockAnalysis} (hk : 0 < k) (hlen : a.length = b.length)
    (h : Compared a b k (numChunks k a.length) r) : ChunkExact a b k r := by
  have hall : min (numChunks k a.length * k) a.length = a.length := Nat.min_eq_right (le_numChunks_mul hk _)
  have hcounted := h.counted
  rw [hall] at hcounted
  have hin : ∀ i, DiffersAt a b i → i < a.length := fun i hd => by
    rcases lt_of_differsAt hd with hlt | hlt <;> omega
  have hnone : (∀ i < a.length, ¬ DiffersAt a b i) → ∀ i, ¬ DiffersAt a b i := fun hno i hd => hno i (hin i hd) hd
  have htotal : r.totalBlocks.toNat = numChunks k a.length := by rw [h.total, Int.toNat_natCast]
  have hblocks : r.blockMatches = (List.range r.totalBlocks.toNat).map fun i => decide (chunk k a i = chunk k b i) := by
    rw [htotal, ← h.verdicts, ← h.length, List.take_length]
  constructor
  · exact hcounted.bytes
  · rcases hcounted.first with ⟨hfirst, hno⟩ | ⟨i, hfirst, hi, hd, hbefore⟩
    · exact .inl ⟨hfirst, hnone hno⟩
    · exact .inr ⟨i, hfirst, hd, fun j hj => not_lt.1 fun hlt => hbefore j hlt hj⟩
  · rcases hcounted.last with ⟨hlast, hno⟩ | ⟨i, hlast, hi, hd, hafter⟩
    · exact .inl ⟨hlast, hnone hno⟩
    · exact .inr ⟨i, hlast, hd, fun j hj => not_lt.1 fun hlt => hafter j hlt (hin j hj) hj⟩
  · exact hblocks
  · rw [hblocks, htotal, h.blocks]
  · rw [htotal, blocks_tile hk _ _ (Nat.le_refl _), hall]

/-- **The analysis of a chunk is exact where the number of its blocks can be computed.** -/
theorem analyzeBuffers_exact_iff (hlen : a.length = b.length) {blockSize : Int} (hk : 0 < blockSize)
    (result : BlockAnalysis) :
    (∃ r, analyzeBuffers a b result blockSize = some (true, r) ∧ ChunkExact a b blockSize.toNat r) ↔
      a.length + blockSize ≤ 9223372036854775807 := by
  obtain ⟨k, rfl⟩ := Int.eq_ofNat_of_zero_le hk.le
  have hpos : 0 < k := by omega
  unfold analyzeBuffers
  rw [if_neg (not_not.2 hlen), Int.toNat_natCast]
  constructor
  · rintro ⟨r, hrun, -⟩
    by_contra hbig
    unfold int64 at hrun
    rw [if_neg (by omega)] at hrun
    exact absurd hrun (by simp)
  · intro hfit
    have hblocks : ((a.length : Int) + k - 1).tdiv k = numChunks k a.length := by
      have hcast : ((a.length + k - 1 : Nat) : Int) = a.length + k - 1 := by omega
      rw [Int.tdiv_eq_ediv_of_nonneg (by omega), numChunks, Int.natCast_ediv, hcast]
    rw [int64_bind (by omega) (by omega), int64_bind (by omega) (by omega), hblocks]
    dsimp only
    rw [Int.toNat_natCast]
    obtain ⟨r, hrun, hcompared⟩ :=
      compareBlocks_spec hlen hpos (by omega) (compared_start k result) (numChunks k a.length) (Nat.le_refl _)
    refine ⟨r, ?_, hcompared.exact hpos hlen⟩
    rw [hrun]
    rfl

end Analysis

theorem analyzeBuffers_exact_iff_pinned :
    ∃ r, analyzeBuffers [1, 2, 3] [1, 9, 3] {} 2 = some (true, r) ∧ ChunkExact [1, 2, 3] [1, 9, 3] 2 r :=
  (@analyzeBuffers_exact_iff [1, 2, 3] [1, 9, 3] rfl 2 (by decide) {}).2 (by decide)

/-- Two bytes in blocks of the largest size: their number is `2 + blockSize - 1` by the block size, and overflows. -/
theorem analyzeBuffers_overflows : analyzeBuffers [1, 2] [1, 3] {} 9223372036854775807 = none := by
  decide

end Mito
