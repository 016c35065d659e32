import MitoSync.Upload
/-!
# PartPlan — the parts a multipart copy asks for, in the code's own integers

`S3MultipartCopy::GetHashes` with `ProcessSingleChunk`, and `CopyObject` with `CopyObjectMultipart`.  Each `int64_t`
and `int` computation is checked: `int64` and `castInt` are `none` where the value leaves the type.  S3 assembles parts
by number, so parts tile an object when consecutive numbers have consecutive ranges (`Tiles`).

Neither planner looks at `kMaxMultipartParts`, which the differential upload does: `multipartPlans_legal` has the sizes
both get right, and `getHashesParts_too_many` one they do not.
-/
namespace Mito

open Lib Prog

/-! ## The code -/

/-- The value of an `int64_t` computation, `none` where it overflows. -/
def int64 (n : Int) : Option Int :=
  if -9223372036854775808 ≤ n ∧ n ≤ 9223372036854775807 then some n else none

/-- `static_cast<int>` of a value, `none` where `int` does not hold it. -/
def castInt (n : Int) : Option Int := if -2147483648 ≤ n ∧ n ≤ 2147483647 then some n else none

/-- The part number and the inclusive byte range of an UploadPartCopy. -/
structure CopyPart where
  partNumber : Int
  startByte : Int
  endByte : Int
  deriving DecidableEq, Repr

def chunkCountForSize (filesize chunkSize : Int) : Int :=
  if filesize < 0 ∨ chunkSize ≤ 0 then -1
  else if filesize = 0 then 0
  else filesize.tdiv chunkSize + if filesize.tmod chunkSize ≠ 0 then 1 else 0

def chunkRequestIsValid (chunkIds : List Int) (filesize numChunks : Int) : Bool :=
  decide (0 ≤ filesize) && decide (0 ≤ numChunks) && chunkIds.all fun id => decide (0 ≤ id ∧ id < numChunks)

/-- The request of `ProcessSingleChunk`, the same one at every attempt. -/
def processSingleChunk (filesize chunkSize chunkId : Int) : Option CopyPart := do
  let start ← int64 (chunkId * chunkSize)
  let past ← int64 (start + chunkSize)
  let last ← int64 (past - 1)
  let fileLast ← int64 (filesize - 1)
  let next ← int64 (chunkId + 1)
  let partNumber ← castInt next
  return ⟨partNumber, start, min last fileLast⟩

/-- The chunk size an `S3MultipartCopy` is constructed with. -/
def chunkSizeOf (chunkSize : Int) : Int := if chunkSize > 0 then chunkSize else defaultChunkSize

/-- The parts `GetHashes` asks for, one for each distinct chunk, all of them where none is named. -/
def getHashesParts (filesize chunkSize : Int) (chunkIds : List Int) : Option (List CopyPart) :=
  let numChunks := chunkCountForSize filesize (chunkSizeOf chunkSize)
  if chunkRequestIsValid chunkIds filesize numChunks then
    let ids := if chunkIds.isEmpty then (List.range numChunks.toNat).map Int.ofNat else chunkIds.eraseDups
    ids.mapM (processSingleChunk filesize (chunkSizeOf chunkSize))
  else some []

/-- One part of `CopyObjectMultipart`. -/
def copyObjectPart (sourceSize partSize i : Int) : Option CopyPart := do
  let next ← int64 (i + 1)
  let partNumber ← castInt next
  let startByte ← int64 (i * partSize)
  let past ← int64 (startByte + partSize)
  let last ← int64 (past - 1)
  let sourceLast ← int64 (sourceSize - 1)
  return ⟨partNumber, startByte, min last sourceLast⟩

def copyObjectMultipartParts (sourceSize partSize : Int) : Option (List CopyPart) := do
  let sum ← int64 (sourceSize + partSize)
  let rounded ← int64 (sum - 1)
  ((List.range (rounded.tdiv partSize).toNat).map Int.ofNat).mapM (copyObjectPart sourceSize partSize)

/-- The parts of `CopyObject`: none where a single request does. -/
def copyObjectParts (sourceSize : Int) : Option (List CopyPart) :=
  if sourceSize ≤ kMaxSinglePutBytes then some [] else copyObjectMultipartParts sourceSize multipartPartSize

/-! ## What S3 asks of them -/

/-- A part S3 takes: numbered from 1 to 10,000, of one byte at least and of 5 GiB at most. -/
structure CopyPart.Legal (p : CopyPart) : Prop where
  number : 1 ≤ p.partNumber ∧ p.partNumber ≤ kMaxMultipartParts
  nonempty : p.startByte ≤ p.endByte
  size : p.endByte - p.startByte + 1 ≤ kMaxSinglePutBytes

/-- The parts, numbered from `n`, cover the bytes from `a` up to `size`, each once. -/
def Tiles (size : Int) : Int → Int → List CopyPart → Prop
  | _, a, [] => a = size
  | n, a, p :: ps => p.partNumber = n ∧ p.startByte = a ∧ Tiles size (n + 1) (p.endByte + 1) ps

/-- Both planners on an object of `size` bytes: nothing overflows, every part is one S3 takes, and the parts of the
whole object tile it. -/
def MultipartPlansLegal (size chunkSize : Int) : Prop :=
  (∀ chunkIds, ∃ parts, getHashesParts size chunkSize chunkIds = some parts ∧ (∀ p ∈ parts, p.Legal) ∧
    (chunkIds = [] → Tiles size 1 0 parts)) ∧
  ∃ parts, copyObjectParts size = some parts ∧ (∀ p ∈ parts, p.Legal) ∧
    ((kMaxSinglePutBytes : Int) < size → Tiles size 1 0 parts)

/-! ## The parts in closed form -/

/-- Part `i` of an object of `n` bytes in parts of `k`. -/
def partAt (k n i : Nat) : CopyPart := ⟨i + 1, (i * k : Nat), ((min (i * k + k) n : Nat) : Int) - 1⟩

theorem int64_bind {α : Type} {n : Int} (h₁ : -2 ^ 63 ≤ n) (h₂ : n < 2 ^ 63) (f : Int → Option α) :
    (int64 n >>= f) = f n := by
  unfold int64
  rw [if_pos ⟨by omega, by omega⟩]
  rfl

theorem castInt_bind {α : Type} {n : Int} (h₁ : -2 ^ 31 ≤ n) (h₂ : n < 2 ^ 31) (f : Int → Option α) :
    (castInt n >>= f) = f n := by
  unfold castInt
  rw [if_pos ⟨by omega, by omega⟩]
  rfl

theorem chunkCountForSize_eq {k : Nat} (hk : 0 < k) (n : Nat) : chunkCountForSize n k = numChunks k n := by
  have hn : ¬ ((n : Int) < 0 ∨ (k : Int) ≤ 0) := by omega
  have hdiv : (n : Int).tdiv k = ((n / k : Nat) : Int) := rfl
  have hmod : (n : Int).tmod k = ((n % k : Nat) : Int) := rfl
  unfold chunkCountForSize
  rw [if_neg hn, numChunks_eq_div hk, hdiv, hmod]
  rcases Nat.eq_zero_or_pos n with rfl | hpos
  · simp
  · rw [if_neg (by omega)]
    by_cases hr : n % k = 0
    · simp [hr]
    · have hr' : ((n % k : Nat) : Int) ≠ 0 := by omega
      rw [if_pos hr', if_pos hr, Int.natCast_add, Int.natCast_one]

/-- An object of 5 TiB leaves the bytes of a part in range, whatever the part size. -/
theorem int64_range {k n i : Nat} (h : i * k < n) (hn : n ≤ 5 * 2 ^ 40) (hk : k < 2 ^ 63) :
    i * k + k < 2 ^ 63 := by
  rcases Nat.eq_zero_or_pos i with rfl | hi
  · omega
  · have hik : k ≤ i * k := Nat.le_mul_of_pos_left k hi
    omega

theorem processSingleChunk_eq {k n i : Nat} (h : i * k < n) (hn : n ≤ 5 * 2 ^ 40) (hk : k < 2 ^ 63)
    (hi : i + 1 < 2 ^ 31) : processSingleChunk n k i = some (partAt k n i) := by
  have hr := int64_range h hn hk
  have hik : ((i : Int) * k) = ((i * k : Nat) : Int) := (Int.natCast_mul i k).symm
  have hend : min (((i * k : Nat) : Int) + k - 1) ((n : Int) - 1) = ((min (i * k + k) n : Nat) : Int) - 1 := by omega
  unfold processSingleChunk
  rw [hik, int64_bind (by omega) (by omega), int64_bind (by omega) (by omega), int64_bind (by omega) (by omega),
    int64_bind (by omega) (by omega), int64_bind (by omega) (by omega), castInt_bind (by omega) (by omega), hend]
  rfl

/-- The parts of a server-side copy are cut as those of a checksum fetch are. -/
theorem copyObjectPart_eq {k n i : Nat} (h : i * k < n) (hn : n ≤ 5 * 2 ^ 40) (hk : k < 2 ^ 63)
    (hi : i + 1 < 2 ^ 31) : copyObjectPart n k i = some (partAt k n i) := by
  have hr := int64_range h hn hk
  have hik : ((i : Int) * k) = ((i * k : Nat) : Int) := (Int.natCast_mul i k).symm
  have hend : min (((i * k : Nat) : Int) + k - 1) ((n : Int) - 1) = ((min (i * k + k) n : Nat) : Int) - 1 := by omega
  unfold copyObjectPart
  rw [int64_bind (by omega) (by omega), castInt_bind (by omega) (by omega), hik, int64_bind (by omega) (by omega),
    int64_bind (by omega) (by omega), int64_bind (by omega) (by omega), int64_bind (by omega) (by omega), hend]
  rfl

theorem processSingleChunk_number {n k i : Int} {p : CopyPart} (h : processSingleChunk n k i = some p) :
    p.partNumber = i + 1 := by
  unfold processSingleChunk int64 castInt at h
  simp only [Option.bind_eq_bind, Option.bind_eq_some_iff, Option.ite_none_right_eq_some, Option.some.injEq,
    Option.pure_def] at h
  obtain ⟨-, -, -, -, -, -, -, -, -, ⟨-, rfl⟩, -, ⟨-, rfl⟩, rfl⟩ := h
  rfl

theorem copyObjectPart_number {n k i : Int} {p : CopyPart} (h : copyObjectPart n k i = some p) :
    p.partNumber = i + 1 := by
  unfold copyObjectPart int64 castInt at h
  simp only [Option.bind_eq_bind, Option.bind_eq_some_iff, Option.ite_none_right_eq_some, Option.some.injEq,
    Option.pure_def] at h
  obtain ⟨-, ⟨-, rfl⟩, -, ⟨-, rfl⟩, -, -, -, -, -, -, -, -, rfl⟩ := h
  rfl

/-- The part of chunk `i` of the program `copyObjectMultipart` asks for what the checked plan has. -/
theorem copyPart_plan {k n i : Nat} {p : CopyPart} (hk : 0 < k) (h : i * k < n) (hn : n ≤ 5 * 2 ^ 40) (hk' : k < 2 ^ 63)
    (hi : i + 1 < 2 ^ 31) (hp : copyObjectPart n k i = some p) (clientRetries id : Nat) :
    copyPart clientRetries id n k i = (do
      if ← ask .cancelled then return .failed
      retry (ask (.uploadPartCopyFromSource id p.partNumber.toNat p.startByte.toNat p.endByte.toNat))
        (clientRetries + 1)) := by
  rw [copyObjectPart_eq h hn hk' hi] at hp
  obtain rfl := Option.some.inj hp
  have hend : min (i * k + k - 1) (n - 1) = (((min (i * k + k) n : Nat) : Int) - 1).toNat := by omega
  have hnum : i + 1 = ((i : Int) + 1).toNat := by omega
  unfold copyPart partAt
  rw [Int.toNat_natCast, ← hend, ← hnum]

/-! ## The parts of a list of chunks -/

theorem mapM_map_eq {ι α β : Type} {f : α → Option β} {g : ι → α} {p : ι → β} :
    ∀ {l : List ι}, (∀ i ∈ l, f (g i) = some (p i)) → (l.map g).mapM f = some (l.map p)
  | [], _ => rfl
  | i :: l, h => by
    rw [List.map_cons, List.mapM_cons, h i List.mem_cons_self, mapM_map_eq fun j hj => h j (List.mem_cons_of_mem _ hj)]
    rfl

theorem exists_mem_of_mapM {α β : Type} {f : α → Option β} :
    ∀ {l : List α} {ys : List β}, l.mapM f = some ys → ∀ x ∈ l, ∃ y ∈ ys, f x = some y
  | [], _, _, _, hx => absurd hx List.not_mem_nil
  | a :: l, ys, h, x, hx => by
    simp only [List.mapM_cons, Option.bind_eq_bind, Option.bind_eq_some_iff, Option.pure_def, Option.some.injEq] at h
    obtain ⟨b, hb, bs, hbs, rfl⟩ := h
    rcases List.mem_cons.1 hx with rfl | hx
    · exact ⟨b, List.mem_cons_self, hb⟩
    · obtain ⟨y, hy, hxy⟩ := exists_mem_of_mapM hbs x hx
      exact ⟨y, List.mem_cons_of_mem _ hy, hxy⟩

theorem partAt_legal {k n i : Nat} (hk : 0 < k) (h : i * k < n) (hi : i < kMaxMultipartParts)
    (hs : k ≤ kMaxSinglePutBytes ∨ n ≤ kMaxSinglePutBytes) : (partAt k n i).Legal := by
  have hend : (min (i * k + k) n : Nat) ≤ i * k + k := Nat.min_le_left _ _
  have hnumber : (1 : Int) ≤ i + 1 ∧ (i : Int) + 1 ≤ kMaxMultipartParts := by omega
  have hnonempty : ((i * k : Nat) : Int) ≤ ((min (i * k + k) n : Nat) : Int) - 1 := by omega
  have hsize : ((min (i * k + k) n : Nat) : Int) - 1 - (i * k : Nat) + 1 ≤ kMaxSinglePutBytes := by omega
  exact ⟨hnumber, hnonempty, hsize⟩

theorem tiles_partAt {k : Nat} (hk : 0 < k) (n : Nat) :
    ∀ (m i : Nat), i + m = numChunks k n →
      Tiles n (i + 1) (min (i * k) n : Nat) ((List.range' i m).map (partAt k n))
  | 0, i, h => by
    have hle : n ≤ i * k := by
      rw [show i = numChunks k n from h]
      exact le_numChunks_mul hk n
    rw [Nat.min_eq_right hle]
    rfl
  | m + 1, i, h => by
    have hi : i * k < n := (lt_numChunks hk).1 (by omega)
    have hnext : i * k + k = (i + 1) * k := (Nat.succ_mul i k).symm
    have hend : (partAt k n i).endByte + 1 = ((min ((i + 1) * k) n : Nat) : Int) := by
      rw [← hnext]
      exact Int.sub_add_cancel _ _
    have htail := tiles_partAt hk n m (i + 1) (by omega)
    rw [List.range'_succ, List.map_cons, Nat.min_eq_left (Nat.le_of_lt hi)]
    refine ⟨rfl, rfl, ?_⟩
    rw [hend]
    exact htail

/-! ## The two planners -/

variable {k n : Nat}

/-- An object of at most 10,000 chunks. -/
theorem chunk_lt {i : Nat} (h : n ≤ kMaxMultipartParts * k) (hi : i * k < n) : i < kMaxMultipartParts := by
  have hlt : i * k < kMaxMultipartParts * k := by omega
  exact Nat.lt_of_mul_lt_mul_right hlt

/-- **What a fetch of checksums asks for**: the parts of distinct chunks of the object, of all of them by default. -/
theorem getHashesParts_eq {chunkSize : Int} (hk : 0 < k) (hk' : k < 2 ^ 63) (hc : chunkSizeOf chunkSize = k)
    (hn : n ≤ 5 * 2 ^ 40) (h : n ≤ kMaxMultipartParts * k) (chunkIds : List Int) :
    ∃ is : List Nat, (∀ i ∈ is, i * k < n) ∧ getHashesParts n chunkSize chunkIds = some (is.map (partAt k n)) ∧
      (chunkIds = [] → is = List.range (numChunks k n)) := by
  have hmap : ∀ is : List Nat, (∀ i ∈ is, i * k < n) →
      (is.map Int.ofNat).mapM (processSingleChunk n k) = some (is.map (partAt k n)) := by
    intro is his
    apply mapM_map_eq
    intro i hi
    have hlt := chunk_lt h (his i hi)
    exact processSingleChunk_eq (his i hi) hn hk' (by unfold kMaxMultipartParts at hlt; omega)
  unfold getHashesParts
  simp only [hc, chunkCountForSize_eq hk]
  cases hv : chunkRequestIsValid chunkIds n (numChunks k n) with
  | false =>
    refine ⟨[], by simp, by simp, ?_⟩
    rintro rfl
    simp [chunkRequestIsValid] at hv
  | true =>
    rw [if_pos rfl]
    cases chunkIds with
    | nil =>
      refine ⟨List.range (numChunks k n), fun i hi => (lt_numChunks hk).1 (List.mem_range.1 hi), ?_, fun _ => rfl⟩
      rw [List.isEmpty_nil, if_pos rfl, Int.toNat_natCast]
      exact hmap _ fun i hi => (lt_numChunks hk).1 (List.mem_range.1 hi)
    | cons id ids =>
      have hids : ∀ x ∈ (id :: ids).eraseDups, 0 ≤ x ∧ x < numChunks k n := by
        intro x hx
        simp only [chunkRequestIsValid, Bool.and_eq_true, List.all_eq_true, decide_eq_true_eq] at hv
        exact hv.2 x (List.mem_eraseDups.1 hx)
      have hback : ((id :: ids).eraseDups.map Int.toNat).map Int.ofNat = (id :: ids).eraseDups := by
        rw [List.map_map]
        exact (List.map_congr_left fun x hx => Int.toNat_of_nonneg (hids x hx).1).trans (List.map_id _)
      have hlt : ∀ i ∈ (id :: ids).eraseDups.map Int.toNat, i * k < n := by
        intro i hi
        obtain ⟨x, hx, rfl⟩ := List.mem_map.1 hi
        have := hids x hx
        exact (lt_numChunks hk).1 (by omega)
      refine ⟨(id :: ids).eraseDups.map Int.toNat, hlt, ?_, nofun⟩
      rw [List.isEmpty_cons, if_neg Bool.false_ne_true, ← hmap _ hlt, hback]

/-- **What a server-side copy in parts asks for.** -/
theorem copyObjectMultipartParts_eq (hk : 0 < k) (hk' : k ≤ 2 ^ 40) (hn : n ≤ 5 * 2 ^ 40)
    (h : n ≤ kMaxMultipartParts * k) :
    copyObjectMultipartParts n k = some ((List.range (numChunks k n)).map (partAt k n)) := by
  have hcount : ((n : Int) + k - 1).tdiv k = (numChunks k n : Nat) := by
    rw [show (n : Int) + k - 1 = ((n + k - 1 : Nat) : Int) by omega]
    rfl
  unfold copyObjectMultipartParts
  rw [int64_bind (by omega) (by omega), int64_bind (by omega) (by omega), hcount, Int.toNat_natCast]
  apply mapM_map_eq
  intro i hi
  have hik : i * k < n := (lt_numChunks hk).1 (List.mem_range.1 hi)
  have hlt := chunk_lt h hik
  exact copyObjectPart_eq hik hn (by omega) (by unfold kMaxMultipartParts at hlt; omega)

/-- The parts of the whole object name every chunk, whatever the arithmetic makes of it. -/
theorem getHashesParts_all {chunkSize : Int} (hk : 0 < k) (hc : chunkSizeOf chunkSize = k) {parts : List CopyPart}
    (h : getHashesParts n chunkSize [] = some parts) {i : Nat} (hi : i * k < n) :
    ∃ p ∈ parts, processSingleChunk n k i = some p := by
  have hvalid : chunkRequestIsValid [] n (numChunks k n) = true := by simp [chunkRequestIsValid]
  unfold getHashesParts at h
  simp only [hc, chunkCountForSize_eq hk, hvalid, if_pos, List.isEmpty_nil, Int.toNat_natCast] at h
  exact exists_mem_of_mapM h i (List.mem_map.2 ⟨i, List.mem_range.2 ((lt_numChunks hk).2 hi), rfl⟩)

theorem copyObjectMultipartParts_all (hk : 0 < k) {parts : List CopyPart}
    (h : copyObjectMultipartParts n k = some parts) {i : Nat} (hi : i * k < n) :
    ∃ p ∈ parts, copyObjectPart n k i = some p := by
  have hcount : ((n : Int) + k - 1).tdiv k = (numChunks k n : Nat) := by
    rw [show (n : Int) + k - 1 = ((n + k - 1 : Nat) : Int) by omega]
    rfl
  unfold copyObjectMultipartParts int64 at h
  simp only [Option.bind_eq_bind, Option.bind_eq_some_iff, Option.ite_none_right_eq_some, Option.some.injEq] at h
  obtain ⟨-, ⟨-, rfl⟩, -, ⟨-, rfl⟩, h⟩ := h
  rw [hcount, Int.toNat_natCast] at h
  exact exists_mem_of_mapM h i (List.mem_map.2 ⟨i, List.mem_range.2 ((lt_numChunks hk).2 hi), rfl⟩)

/-- More than 10,000 chunks make a part past the limit, or one whose number overflows. -/
theorem getHashesParts_le {chunkSize : Int} (hk : 0 < k) (hc : chunkSizeOf chunkSize = k) {parts : List CopyPart}
    (h : getHashesParts n chunkSize [] = some parts) (hl : ∀ p ∈ parts, p.Legal) : n ≤ kMaxMultipartParts * k := by
  by_contra hn
  obtain ⟨p, hp, hpart⟩ := getHashesParts_all hk hc h (Nat.lt_of_not_le hn)
  have hnumber := processSingleChunk_number hpart
  have hlegal := (hl p hp).number
  omega

theorem copyObjectMultipartParts_le (hk : 0 < k) {parts : List CopyPart}
    (h : copyObjectMultipartParts n k = some parts) (hl : ∀ p ∈ parts, p.Legal) : n ≤ kMaxMultipartParts * k := by
  by_contra hn
  obtain ⟨p, hp, hpart⟩ := copyObjectMultipartParts_all hk h (Nat.lt_of_not_le hn)
  have hnumber := copyObjectPart_number hpart
  have hlegal := (hl p hp).number
  omega

theorem chunkSizeOf_pos {chunkSize : Int} (hc : chunkSize < 2 ^ 63) :
    ∃ k : Nat, 0 < k ∧ k < 2 ^ 63 ∧ chunkSizeOf chunkSize = k := by
  unfold chunkSizeOf
  split
  · exact ⟨chunkSize.toNat, by omega, by omega, by omega⟩
  · exact ⟨defaultChunkSize, by decide, by decide, rfl⟩

/-- **When the planners respect S3's limits**: the object has at most 10,000 chunks of the checksum fetch and at most
10,000 parts of 500 MiB, and a chunk of it is at most 5 GiB. -/
theorem multipartPlans_legal {size chunkSize : Int} (h₀ : 0 ≤ size) (h₅ : size ≤ 5 * 2 ^ 40) (hc : chunkSize < 2 ^ 63) :
    MultipartPlansLegal size chunkSize ↔
      size ≤ kMaxMultipartParts * chunkSizeOf chunkSize ∧
      (chunkSizeOf chunkSize ≤ kMaxSinglePutBytes ∨ size ≤ kMaxSinglePutBytes) ∧
      size ≤ kMaxMultipartParts * multipartPartSize := by
  obtain ⟨k, hk, hk', hsize⟩ := chunkSizeOf_pos hc
  obtain ⟨n, rfl⟩ := Int.eq_ofNat_of_zero_le h₀
  rw [hsize]
  constructor
  · rintro ⟨hget, copied, hcopy, hlegal, -⟩
    obtain ⟨parts, hparts, hpl, -⟩ := hget []
    have hmany := getHashesParts_le hk hsize hparts hpl
    refine ⟨by exact_mod_cast hmany, ?_, ?_⟩
    · rcases Nat.eq_zero_or_pos n with rfl | hn
      · exact .inr (by decide)
      · obtain ⟨p, hp, hpart⟩ := getHashesParts_all (i := 0) hk hsize hparts (by omega)
        rw [processSingleChunk_eq (by omega) (by omega) hk' (by omega)] at hpart
        obtain rfl := Option.some.inj hpart
        have hfirst : (((min (0 * k + k) n : Nat) : Int) - 1) - (0 * k : Nat) + 1 ≤ kMaxSinglePutBytes :=
          (hpl _ hp).size
        omega
    · unfold copyObjectParts at hcopy
      split at hcopy
      · rename_i hle
        exact Int.le_trans hle (by decide)
      · have := copyObjectMultipartParts_le (by decide) hcopy hlegal
        exact_mod_cast this
  · rintro ⟨hmany, hbig, hcopies⟩
    have hmany' : n ≤ kMaxMultipartParts * k := by exact_mod_cast hmany
    have hbig' : k ≤ kMaxSinglePutBytes ∨ n ≤ kMaxSinglePutBytes := by exact_mod_cast hbig
    have hcopies' : n ≤ kMaxMultipartParts * multipartPartSize := by exact_mod_cast hcopies
    refine ⟨fun chunkIds => ?_, ?_⟩
    · obtain ⟨is, his, hparts, hall⟩ := getHashesParts_eq hk hk' hsize (by omega) hmany' chunkIds
      refine ⟨_, hparts, ?_, ?_⟩
      · intro p hp
        obtain ⟨i, hi, rfl⟩ := List.mem_map.1 hp
        exact partAt_legal hk (his i hi) (chunk_lt hmany' (his i hi)) hbig'
      · intro hids
        rw [hall hids, List.range_eq_range']
        simpa using tiles_partAt hk n (numChunks k n) 0 (Nat.zero_add _)
    · unfold copyObjectParts
      split
      · rename_i hle
        exact ⟨[], rfl, by simp, fun hlt => absurd hle (Int.not_le.2 hlt)⟩
      · refine ⟨_, copyObjectMultipartParts_eq (by decide) (by decide) (by omega) hcopies', ?_, ?_⟩
        · intro p hp
          obtain ⟨i, hi, rfl⟩ := List.mem_map.1 hp
          have hik : i * multipartPartSize < n := (lt_numChunks (by decide)).1 (List.mem_range.1 hi)
          exact partAt_legal (by decide) hik (chunk_lt hcopies' hik) (.inl (by decide))
        · intro _
          rw [List.range_eq_range']
          simpa using tiles_partAt (k := multipartPartSize) (by decide) n (numChunks multipartPartSize n) 0
            (Nat.zero_add _)

/-- An object of 6 GiB, in chunks of the default size. -/
theorem multipartPlans_legal_six : MultipartPlansLegal 6442450944 0 :=
  (multipartPlans_legal (by decide) (by decide) (by decide)).2 ⟨by decide, .inl (by decide), by decide⟩

/-- One byte more than 10,000 chunks of 8 MiB hold, an object S3 stores, is too much for a fetch of its checksums. -/
theorem getHashesParts_too_many :
    ¬ ∀ size chunkSize : Int, 0 ≤ size → size ≤ 5 * 2 ^ 40 → -2 ^ 63 ≤ chunkSize → chunkSize < 2 ^ 63 →
      MultipartPlansLegal size chunkSize := by
  intro h
  obtain ⟨hget, -⟩ := h (83886080001 : Nat) 0 (by decide) (by decide) (by decide) (by decide)
  obtain ⟨parts, hparts, hlegal, -⟩ := hget []
  have hle := getHashesParts_le (k := defaultChunkSize) (by decide) rfl hparts hlegal
  exact absurd hle (by decide)

end Mito
