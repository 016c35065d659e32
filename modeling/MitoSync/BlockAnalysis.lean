import MitoSync.Diff
import MitoSync.Lib.Chunks
/-!
# BlockAnalysis — which blocks of two small files differ

For two local files of at most five chunks a directory diff also lists the blocks that differ and those that only the
longer file has.  `blocks_exact_iff`: the lists say where the files differ, unless the shorter file ends inside a block
that matches up to there, whose rest nobody looks at.
-/
namespace Mito

open Lib (numChunks slice)

/-! ## The code -/

def computeAdaptiveBlockSize (fileSize : Int) : Int :=
  if fileSize ≤ 0 then 1024
  else if fileSize ≤ 64 * 1024 then 1024
  else if fileSize ≤ 256 * 1024 then 2 * 1024
  else if fileSize ≤ 512 * 1024 then 4 * 1024
  else if fileSize ≤ 1024 * 1024 then 8 * 1024
  else if fileSize ≤ 4 * 1024 * 1024 then 16 * 1024
  else if fileSize ≤ 16 * 1024 * 1024 then 64 * 1024
  else 128 * 1024

/-- `read_local_file`, which has no bytes of a file that does not open. -/
def readLocalFile (file : Option Bytes) (maxSize : Int) : Bytes :=
  match file with
  | none => []
  | some content =>
    let size := if (content.length : Int) > maxSize then maxSize else content.length
    if size ≤ 0 then [] else content.take size.toNat

/-- What of a `FileCompareResult` the block analysis reads and writes. -/
structure BlockResult where
  sizeA : Int
  sizeB : Int
  hasBlockAnalysis : Bool := false
  blockSize : Int := 0
  totalBlocks : Nat := 0
  mismatchedBlocks : List Nat := []
  extraBlocksInA : List Nat := []
  extraBlocksInB : List Nat := []

/-- The bytes of block `i` that both files have are the same. -/
def blockMatches (dataA dataB : Bytes) (blockSize commonSize i : Nat) : Bool :=
  (List.range' (i * blockSize) (min (i * blockSize + blockSize) commonSize - i * blockSize)).all
    fun j => dataA[j]? == dataB[j]?

/-- The blocks of two contents that were read. -/
def listBlocks (dataA dataB : Bytes) (blockSize : Nat) (result : BlockResult) : BlockResult :=
  let commonSize := min dataA.length dataB.length
  let blocksA := (dataA.length + blockSize - 1) / blockSize
  let blocksB := (dataB.length + blockSize - 1) / blockSize
  let commonBlocks := (commonSize + blockSize - 1) / blockSize
  { result with
    totalBlocks := max blocksA blocksB
    mismatchedBlocks := result.mismatchedBlocks ++
      (List.range commonBlocks).filter fun i => !blockMatches dataA dataB blockSize commonSize i
    extraBlocksInA := result.extraBlocksInA ++ List.range' commonBlocks (blocksA - commonBlocks)
    extraBlocksInB := result.extraBlocksInB ++ List.range' commonBlocks (blocksB - commonBlocks) }

def analyzeSmallFileBlocks (typeA typeB : SourceType) (fileA fileB : Option Bytes) (result : BlockResult)
    (chunkSize : Int) : BlockResult :=
  if typeA ≠ .local ∨ typeB ≠ .local then result
  else
    let maxSize := max result.sizeA result.sizeB
    if maxSize ≤ 0 ∨ maxSize > 5 * chunkSize then result
    else
      let dataA := readLocalFile fileA maxSize
      let dataB := readLocalFile fileB maxSize
      if dataA = [] ∧ result.sizeA > 0 then result
      else if dataB = [] ∧ result.sizeB > 0 then result
      else
        let blockSize := computeAdaptiveBlockSize maxSize
        listBlocks dataA dataB blockSize.toNat { result with blockSize, hasBlockAnalysis := true }

/-- The block analysis of a common file that differs, where it has few chunks. -/
def mismatchBlocks (typeA typeB : SourceType) (fileA fileB : Option Bytes) (result : BlockResult) (totalChunks : Nat)
    (chunkSize : Int) : BlockResult :=
  if totalChunks ≤ 5 then analyzeSmallFileBlocks typeA typeB fileA fileB result chunkSize else result

/-! ## What the lists should say -/

/-- A byte differs, or only one of the files has it. -/
def DiffersAt (a b : Bytes) (offset : Nat) : Prop := a[offset]? ≠ b[offset]?

def BlockResult.Lists (r : BlockResult) (i : Nat) : Prop :=
  i ∈ r.mismatchedBlocks ∨ i ∈ r.extraBlocksInA ∨ i ∈ r.extraBlocksInB

structure BlocksExact (a b : Bytes) (r : BlockResult) : Prop where
  complete : ∀ offset, DiffersAt a b offset → r.Lists (offset / r.blockSize.toNat)
  sound : ∀ i ∈ r.mismatchedBlocks, ∃ offset, offset / r.blockSize.toNat = i ∧ DiffersAt a b offset
  disjointA : r.mismatchedBlocks.Disjoint r.extraBlocksInA
  disjointB : r.mismatchedBlocks.Disjoint r.extraBlocksInB
  disjoint : r.extraBlocksInA.Disjoint r.extraBlocksInB
  bounded : ∀ i, r.Lists i → i < r.totalBlocks
  reported : a ≠ b → ∃ i, r.Lists i

/-- One file ends inside a block, with what both have of the block the same, and the other goes on. -/
def Straddles (a b : Bytes) (blockSize : Nat) : Prop :=
  a.length ≠ b.length ∧ min a.length b.length % blockSize ≠ 0 ∧
    ∀ j, min a.length b.length / blockSize * blockSize ≤ j → j < min a.length b.length → a[j]? = b[j]?

/-! ## What they say -/

theorem blockSize_pos (fileSize : Int) : 0 < computeAdaptiveBlockSize fileSize := by
  unfold computeAdaptiveBlockSize
  split_ifs <;> omega

theorem readLocalFile_all {content : Bytes} {maxSize : Int} (h : (content.length : Int) ≤ maxSize) :
    readLocalFile (some content) maxSize = content := by
  have hsize : (if (content.length : Int) > maxSize then maxSize else content.length) = content.length :=
    if_neg (by omega)
  unfold readLocalFile
  simp only [hsize]
  split
  · have hnil : content = [] := List.length_eq_zero_iff.1 (by omega)
    exact hnil.symm
  · rw [Int.toNat_natCast, List.take_length]

section Lists

variable {a b : Bytes} {k i : Nat} {result : BlockResult}

theorem blockMatches_iff : blockMatches a b k (min a.length b.length) i = true ↔
    ∀ j, i * k ≤ j → j < i * k + k → j < min a.length b.length → ¬ DiffersAt a b j := by
  unfold blockMatches DiffersAt
  rw [List.all_eq_true]
  simp only [List.mem_range'_1, beq_iff_eq, not_not]
  constructor
  · intro h j hj hlt hcommon
    exact h j ⟨hj, by omega⟩
  · intro h j hj
    exact h j hj.1 (by omega) (by omega)

/-- The result starts with no block listed. -/
structure BlockResult.Fresh (r : BlockResult) : Prop where
  mismatched : r.mismatchedBlocks = []
  extraA : r.extraBlocksInA = []
  extraB : r.extraBlocksInB = []

theorem mem_mismatchedBlocks (hk : 0 < k) (hr : result.Fresh) :
    i ∈ (listBlocks a b k result).mismatchedBlocks ↔
      ∃ j, j / k = i ∧ j < min a.length b.length ∧ DiffersAt a b j := by
  simp only [listBlocks, hr.mismatched, List.nil_append, List.mem_filter, List.mem_range, Bool.not_eq_true',
    ← Bool.not_eq_true, blockMatches_iff]
  have hcount : i < (min a.length b.length + k - 1) / k ↔ i * k < min a.length b.length := Lib.lt_numChunks hk
  rw [hcount]
  constructor
  · rintro ⟨-, hdiffers⟩
    simp only [not_forall, not_not] at hdiffers
    obtain ⟨j, hj, hlt, hcommon, hd⟩ := hdiffers
    refine ⟨j, ?_, hcommon, hd⟩
    exact Nat.div_eq_of_lt_le hj (by rw [Nat.succ_mul]; exact hlt)
  · rintro ⟨j, rfl, hcommon, hd⟩
    have hle := Nat.div_mul_le_self j k
    have hlt := Nat.lt_div_mul_add hk (a := j)
    exact ⟨by omega, fun h => h j hle hlt hcommon hd⟩

theorem mem_extraBlocks (hk : 0 < k) (m n : Nat) :
    i ∈ List.range' ((m + k - 1) / k) ((n + k - 1) / k - (m + k - 1) / k) ↔ m ≤ i * k ∧ i * k < n := by
  have hm : i < (m + k - 1) / k ↔ i * k < m := Lib.lt_numChunks hk
  have hn : i < (n + k - 1) / k ↔ i * k < n := Lib.lt_numChunks hk
  rw [List.mem_range'_1]
  omega

theorem mem_extraBlocksInA (hk : 0 < k) (hr : result.Fresh) :
    i ∈ (listBlocks a b k result).extraBlocksInA ↔ min a.length b.length ≤ i * k ∧ i * k < a.length := by
  simp only [listBlocks, hr.extraA, List.nil_append, mem_extraBlocks hk]

theorem mem_extraBlocksInB (hk : 0 < k) (hr : result.Fresh) :
    i ∈ (listBlocks a b k result).extraBlocksInB ↔ min a.length b.length ≤ i * k ∧ i * k < b.length := by
  simp only [listBlocks, hr.extraB, List.nil_append, mem_extraBlocks hk]

theorem lt_totalBlocks (hk : 0 < k) :
    i < (listBlocks a b k result).totalBlocks ↔ i * k < a.length ∨ i * k < b.length := by
  have ha : i < (a.length + k - 1) / k ↔ i * k < a.length := Lib.lt_numChunks hk
  have hb : i < (b.length + k - 1) / k ↔ i * k < b.length := Lib.lt_numChunks hk
  simp only [listBlocks, lt_max_iff, ha, hb]

theorem differsAt_of_between {o : Nat} (hle : min a.length b.length ≤ o) (h : o < a.length ∨ o < b.length) :
    DiffersAt a b o := by
  unfold DiffersAt
  rcases h with h | h
  · rw [List.getElem?_eq_getElem h, List.getElem?_eq_none (by omega)]
    simp
  · rw [List.getElem?_eq_getElem h, List.getElem?_eq_none (by omega)]
    simp

theorem lt_of_differsAt {o : Nat} (h : DiffersAt a b o) : o < a.length ∨ o < b.length := by
  by_contra hnot
  refine h ?_
  rw [List.getElem?_eq_none (by omega), List.getElem?_eq_none (by omega)]

/-- The block a difference lies in is listed, unless the shorter file ends in it and it matches up to there. -/
theorem listed_of_differsAt (hk : 0 < k) (hr : result.Fresh) (hnot : ¬ Straddles a b k) {o : Nat}
    (hd : DiffersAt a b o) : (listBlocks a b k result).Lists (o / k) := by
  unfold BlockResult.Lists
  rw [mem_mismatchedBlocks hk hr, mem_extraBlocksInA hk hr, mem_extraBlocksInB hk hr]
  have hle := Nat.div_mul_le_self o k
  have hlt := Nat.lt_div_mul_add hk (a := o)
  have hhas := lt_of_differsAt hd
  by_cases hcommon : o < min a.length b.length
  · exact .inl ⟨o, rfl, hcommon, hd⟩
  by_cases hextra : min a.length b.length ≤ o / k * k
  · rcases hhas with h | h
    · exact .inr (.inl ⟨hextra, by omega⟩)
    · exact .inr (.inr ⟨hextra, by omega⟩)
  · -- the shorter file ends in this block
    have hdiv : min a.length b.length / k = o / k :=
      Nat.div_eq_of_lt_le (by omega) (by rw [Nat.succ_mul]; omega)
    have hmod := Nat.div_add_mod' (min a.length b.length) k
    rw [hdiv] at hmod
    have hsome : ∃ j, min a.length b.length / k * k ≤ j ∧ j < min a.length b.length ∧ DiffersAt a b j := by
      by_contra hnone
      refine hnot ⟨by omega, by omega, fun j hj hlt => ?_⟩
      by_contra hne
      exact hnone ⟨j, hj, hlt, hne⟩
    obtain ⟨j, hj, hjlt, hjd⟩ := hsome
    rw [hdiv] at hj
    exact .inl ⟨j, Nat.div_eq_of_lt_le hj (by rw [Nat.succ_mul]; omega), hjlt, hjd⟩

theorem blocksExact_iff (hk : 0 < k) (hr : result.Fresh) (hsize : result.blockSize.toNat = k) :
    BlocksExact a b (listBlocks a b k result) ↔ ¬ Straddles a b k := by
  have hblock : (listBlocks a b k result).blockSize.toNat = k := hsize
  constructor
  · rintro h ⟨hne, hmod, hsame⟩
    -- the first byte that only the longer file has
    have hd : DiffersAt a b (min a.length b.length) := differsAt_of_between le_rfl (by omega)
    have hlisted := h.complete _ hd
    have hrest := Nat.div_add_mod' (min a.length b.length) k
    rw [hblock] at hlisted
    unfold BlockResult.Lists at hlisted
    rw [mem_mismatchedBlocks hk hr, mem_extraBlocksInA hk hr, mem_extraBlocksInB hk hr] at hlisted
    rcases hlisted with ⟨j, hj, hlt, hjd⟩ | ⟨hle, -⟩ | ⟨hle, -⟩
    · exact hjd (hsame j (hj ▸ Nat.div_mul_le_self j k) hlt)
    · omega
    · omega
  · intro hnot
    have hstart : ∀ i ∈ (listBlocks a b k result).mismatchedBlocks, i * k < min a.length b.length := by
      intro i hi
      obtain ⟨j, rfl, hlt, -⟩ := (mem_mismatchedBlocks hk hr).1 hi
      exact (Nat.div_mul_le_self j k).trans_lt hlt
    have hcomplete : ∀ o, DiffersAt a b o → (listBlocks a b k result).Lists (o / k) :=
      fun o hd => listed_of_differsAt hk hr hnot hd
    refine ⟨?_, ?_, ?_, ?_, ?_, ?_, ?_⟩
    · rw [hblock]
      exact hcomplete
    · rw [hblock]
      intro i hi
      obtain ⟨j, hj, -, hd⟩ := (mem_mismatchedBlocks hk hr).1 hi
      exact ⟨j, hj, hd⟩
    · intro i hi hA
      have hlt := hstart i hi
      have hle := ((mem_extraBlocksInA hk hr).1 hA).1
      omega
    · intro i hi hB
      have hlt := hstart i hi
      have hle := ((mem_extraBlocksInB hk hr).1 hB).1
      omega
    · intro i hA hB
      have hA' := (mem_extraBlocksInA hk hr).1 hA
      have hB' := (mem_extraBlocksInB hk hr).1 hB
      omega
    · rintro i (hi | hi | hi)
      · have hlt := hstart i hi
        exact (lt_totalBlocks hk).2 (by omega)
      · exact (lt_totalBlocks hk).2 (.inl ((mem_extraBlocksInA hk hr).1 hi).2)
      · exact (lt_totalBlocks hk).2 (.inr ((mem_extraBlocksInB hk hr).1 hi).2)
    · intro hne
      by_contra hnone
      refine hne (List.ext_getElem? fun o => ?_)
      by_contra hd
      exact hnone ⟨_, hcomplete o hd⟩

end Lists

/-- The analysis of two local files that open, within five chunks. -/
theorem analyzeSmallFileBlocks_eq {a b : Bytes} {chunkSize : Int} (hpos : 0 < max a.length b.length)
    (hsize : (max a.length b.length : Int) ≤ 5 * chunkSize) :
    analyzeSmallFileBlocks .local .local (some a) (some b) { sizeA := a.length, sizeB := b.length } chunkSize =
      listBlocks a b (computeAdaptiveBlockSize (max a.length b.length)).toNat
        ⟨a.length, b.length, true, computeAdaptiveBlockSize (max a.length b.length), 0, [], [], []⟩ := by
  unfold analyzeSmallFileBlocks
  rw [if_neg (by simp)]
  dsimp only
  rw [if_neg (by omega), readLocalFile_all (by omega), readLocalFile_all (by omega), if_neg, if_neg]
  · rintro ⟨rfl, h⟩
    simp at h
  · rintro ⟨rfl, h⟩
    simp at h

theorem numChunks_le_five {n : Nat} {chunkSize : Int} (h : (n : Int) ≤ 5 * chunkSize) :
    numChunks chunkSize.toNat n ≤ 5 := by
  rcases Nat.eq_zero_or_pos chunkSize.toNat with hzero | hpos
  · rw [hzero, numChunks, Nat.div_zero]
    exact Nat.zero_le 5
  · by_contra hnot
    have hlt := (Lib.lt_numChunks hpos).1 (Nat.lt_of_not_le hnot)
    omega

theorem blocksExact_nil (result : BlockResult) (hr : result.Fresh) : BlocksExact [] [] result where
  complete := fun _ h => absurd rfl h
  sound := by simp [hr.mismatched]
  disjointA := by simp [hr.mismatched]
  disjointB := by simp [hr.mismatched]
  disjoint := by simp [hr.extraA]
  bounded := by simp [BlockResult.Lists, hr.mismatched, hr.extraA, hr.extraB]
  reported := fun h => absurd rfl h

/-- **The block analysis says where two small files differ, but for a block in which one of them ends.** -/
theorem blocks_exact_iff (a b : Bytes) {chunkSize : Int} (hsize : (max a.length b.length : Int) ≤ 5 * chunkSize) :
    BlocksExact a b (mismatchBlocks .local .local (some a) (some b)
        { sizeA := a.length, sizeB := b.length }
        (max (numChunks chunkSize.toNat a.length) (numChunks chunkSize.toNat b.length)) chunkSize) ↔
      ¬ Straddles a b (computeAdaptiveBlockSize (max a.length b.length)).toNat := by
  have ha : numChunks chunkSize.toNat a.length ≤ 5 := numChunks_le_five (by omega)
  have hb : numChunks chunkSize.toNat b.length ≤ 5 := numChunks_le_five (by omega)
  rw [mismatchBlocks, if_pos (max_le ha hb)]
  rcases Nat.eq_zero_or_pos (max a.length b.length) with hzero | hpos
  · obtain rfl : a = [] := List.length_eq_zero_iff.1 (by omega)
    obtain rfl : b = [] := List.length_eq_zero_iff.1 (by omega)
    exact iff_of_true (blocksExact_nil _ ⟨rfl, rfl, rfl⟩) fun h => h.1 rfl
  · have hk : 0 < (computeAdaptiveBlockSize (max a.length b.length)).toNat := by
      have := blockSize_pos (max a.length b.length)
      omega
    rw [analyzeSmallFileBlocks_eq hpos hsize]
    exact blocksExact_iff hk ⟨rfl, rfl, rfl⟩ rfl

theorem blocks_exact_iff_two :
    BlocksExact [1, 2] [1, 3] (mismatchBlocks .local .local (some [1, 2]) (some [1, 3]) { sizeA := 2, sizeB := 2 }
      1 8388608) := by
  have h := (blocks_exact_iff [1, 2] [1, 3] (by decide : (max (2 : Nat) (2 : Nat) : Int) ≤ 5 * 8388608)).2
    fun hs => hs.1 rfl
  exact h

/-- The last byte of the longer file is in no block that is listed. -/
theorem straddling_not_listed :
    mismatchBlocks .local .local (some [1, 2]) (some [1]) { sizeA := 2, sizeB := 1 } 1 8388608 =
      { sizeA := 2, sizeB := 1, hasBlockAnalysis := true, blockSize := 1024, totalBlocks := 1 } ∧
    ¬ BlocksExact [1, 2] [1] (mismatchBlocks .local .local (some [1, 2]) (some [1]) { sizeA := 2, sizeB := 1 } 1
      8388608) := by
  have hrun : mismatchBlocks .local .local (some [1, 2]) (some [1]) { sizeA := 2, sizeB := 1 } 1 8388608 =
      { sizeA := 2, sizeB := 1, hasBlockAnalysis := true, blockSize := 1024, totalBlocks := 1 } := by rfl
  refine ⟨hrun, fun h => ?_⟩
  rw [hrun] at h
  obtain ⟨i, hi⟩ := h.reported (by decide)
  simp [BlockResult.Lists] at hi

end Mito
