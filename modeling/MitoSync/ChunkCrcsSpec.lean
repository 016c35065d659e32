import MitoSync.ChunkCrcs
/-!
# ChunkCrcsSpec — every `GetChunkCRC32s` honours one contract

Each task works on a share of its own: a slot of the results that no other task writes, and what it adds to a counter or
to the flag (`Crew.Shares`).  A task that adds nothing to the failures has written the checksum of its own chunk, so a
caller that finds as many successes as chunks, or no failure, finds true checksums in every slot it reads.  Nothing
overflows below `2 ^ 62`, no program halts, and a crew whose programs do not halt returns (`Crew.Fitting.returns`).
-/
namespace Mito

open Lib Prog

/-! ## The arithmetic -/

section Arithmetic

variable {n k : Nat} {id : Int}

theorem numChunks_eq_tdiv (h : 0 < n + k) : ((n : Int) + k - 1).tdiv k = (numChunks k n : Nat) := by
  rw [show (n : Int) + k - 1 = ((n + k - 1 : Nat) : Int) by omega]
  rfl

theorem fileChunkCount_eq (hk : 0 < k) (hn : n < 2 ^ 62) (hk' : k < 2 ^ 62) :
    fileChunkCount n k = some ((numChunks k n : Nat) : Int) := by
  unfold fileChunkCount
  rw [int64_bind (by omega) (by omega), int64_bind (by omega) (by omega)]
  exact congrArg some (numChunks_eq_tdiv (by omega))

/-- A chunk the content has, by its number. -/
theorem exists_chunk (hid : 0 ≤ id ∧ id < (numChunks k n : Nat)) (hk : 0 < k) :
    ∃ i : Nat, id = i ∧ i * k < n := by
  obtain ⟨i, rfl⟩ := Int.eq_ofNat_of_zero_le hid.1
  exact ⟨i, rfl, (lt_numChunks hk).1 (by omega)⟩

theorem chunkSpan_eq {i : Nat} (h : i * k < n) (hn : n < 2 ^ 62) (hk' : k < 2 ^ 62) :
    chunkSpan i k = some (((i * k : Nat) : Int), ((i * k + k : Nat) : Int)) := by
  have hik : (i : Int) * k = ((i * k : Nat) : Int) := (Int.natCast_mul i k).symm
  unfold chunkSpan
  rw [hik, int64_bind (by omega) (by omega), int64_bind (by omega) (by omega)]
  rfl

/-- The length `compute_chunk_crc` reads is that of the chunk. -/
theorem chunk_length_eq {i : Nat} (h : i * k < n) :
    (if ((i * k + k : Nat) : Int) ≤ n then (k : Int) else n - (i * k : Nat)) = (chunkLen k n i : Nat) := by
  unfold chunkLen
  split <;> omega

theorem copyRequest_eq {i : Nat} (h : i * k < n) (hk : 0 < k) (hn : n < 2 ^ 62) (hk' : k < 2 ^ 62) (maxRetries : Int) :
    (⟨n, k, maxRetries⟩ : S3MultipartCopy).copyRequest i =
      some (((i : Int) + 1).bmod (2 ^ 32), ((i * k : Nat) : Int), ((i * k + chunkLen k n i : Nat) : Int) - 1) := by
  have hik : (i : Int) * k = ((i * k : Nat) : Int) := (Int.natCast_mul i k).symm
  have hi : i ≤ i * k := Nat.le_mul_of_pos_right i hk
  have hend : min (((i * k : Nat) : Int) + k - 1) ((n : Int) - 1) = ((i * k + chunkLen k n i : Nat) : Int) - 1 := by
    rw [chunk_end h]
    omega
  unfold S3MultipartCopy.copyRequest
  dsimp only
  rw [hik, int64_bind (by omega) (by omega), int64_bind (by omega) (by omega), int64_bind (by omega) (by omega),
    int64_bind (by omega) (by omega), int64_bind (by omega) (by omega), hend]
  rfl

theorem requestChunkCount_eq (hk : 0 < k) : requestChunkCount n k = (numChunks k n : Nat) := by
  have hcount := chunkCountForSize_eq hk n
  have hok : ¬ ((n : Int) < 0 ∨ (k : Int) ≤ 0) := by omega
  unfold chunkCountForSize at hcount
  rw [if_neg hok] at hcount
  unfold requestChunkCount
  by_cases hn : (n : Int) = 0
  · have hnot : ¬ (n : Int) > 0 := by omega
    rw [if_pos hn] at hcount
    rw [if_neg hnot, hcount]
  · have hpos : (n : Int) > 0 := by omega
    rw [if_neg hn] at hcount
    rw [if_pos hpos, hcount]

end Arithmetic

/-- The bytes of a chunk are the range it is copied by. -/
theorem chunk_of_isRange {content data : Bytes} {k i : Nat} (hk : 0 < k) (h : i * k < content.length)
    (hr : IsRange content ((i * k : Nat) : Int) (((i * k + chunkLen k content.length i : Nat) : Int) - 1) data) :
    data = chunk k content i := by
  have hpos := chunkLen_pos hk h
  obtain ⟨-, -, -, rfl⟩ := hr
  unfold chunk slice
  rw [Int.toNat_natCast]
  exact congrArg (fun m => (content.drop (i * k)).take m) (by omega)

theorem shift_or (a i b : Nat) (h : b < 2 ^ i) : a * 2 ^ i ||| b = a * 2 ^ i + b := by
  rw [← Nat.shiftLeft_eq, Nat.shiftLeft_add_eq_or_of_lt h]

/-- A byte moved up stays inside its word. -/
theorem toNat_shiftLeft_byte (b : UInt8) {s : UInt32} (hs : s.toNat ≤ 24) :
    (b.toUInt32 <<< s).toNat = b.toNat * 2 ^ s.toNat := by
  have hb := b.toNat_lt
  have hlt : b.toNat * 2 ^ s.toNat < 2 ^ 32 := calc
    b.toNat * 2 ^ s.toNat < 2 ^ 8 * 2 ^ s.toNat := Nat.mul_lt_mul_of_pos_right hb (by positivity)
    _ = 2 ^ (8 + s.toNat) := (pow_add _ _ _).symm
    _ ≤ 2 ^ 32 := Nat.pow_le_pow_right (by omega) (by omega)
  have hmod : s.toNat % 32 = s.toNat := Nat.mod_eq_of_lt (by omega)
  rw [UInt32.toNat_shiftLeft, UInt8.toNat_toUInt32, Nat.shiftLeft_eq, hmod, Nat.mod_eq_of_lt hlt]

/-- The four bytes of a decoded checksum are its number. -/
theorem checksumOfBytes_toNat {b₀ b₁ b₂ b₃ : UInt8} {crc : UInt32} (h : checksumOfBytes [b₀, b₁, b₂, b₃] = some crc) :
    crc.toNat = b₀.toNat * 2 ^ 24 + b₁.toNat * 2 ^ 16 + b₂.toNat * 2 ^ 8 + b₃.toNat := by
  obtain rfl := Option.some.inj h
  have h₀ := b₀.toNat_lt
  have h₁ := b₁.toNat_lt
  have h₂ := b₂.toNat_lt
  have h₃ := b₃.toNat_lt
  rw [UInt32.toNat_or, UInt32.toNat_or, UInt32.toNat_or, toNat_shiftLeft_byte _ (by decide),
    toNat_shiftLeft_byte _ (by decide), toNat_shiftLeft_byte _ (by decide), UInt8.toNat_toUInt32]
  have hfirst : b₀.toNat * 2 ^ 24 ||| b₁.toNat * 2 ^ 16 = (b₀.toNat * 2 ^ 8 + b₁.toNat) * 2 ^ 16 := by
    rw [shift_or _ 24 _ (by omega)]
    omega
  have hsecond : (b₀.toNat * 2 ^ 8 + b₁.toNat) * 2 ^ 16 ||| b₂.toNat * 2 ^ 8 =
      (b₀.toNat * 2 ^ 16 + b₁.toNat * 2 ^ 8 + b₂.toNat) * 2 ^ 8 := by
    rw [shift_or _ 16 _ (by omega)]
    omega
  show b₀.toNat * 2 ^ 24 ||| b₁.toNat * 2 ^ 16 ||| b₂.toNat * 2 ^ 8 ||| b₃.toNat = _
  rw [hfirst, hsecond, shift_or _ 8 _ (by omega)]
  omega

/-! ## Tasks with shares of their own -/

section Apart

variable {T A : Type} {f : T → Int} {xs ys : List (T × A)} {t : T} {a a' : A}

theorem mem_replaced {x : T × A} (h : x ∈ xs ++ (t, a') :: ys) : x = (t, a') ∨ x ∈ xs ++ ys := by
  rcases List.mem_append.1 h with h | h
  · exact .inr (List.mem_append_left _ h)
  · exact (List.mem_cons.1 h).imp id (List.mem_append_right _)

theorem mem_kept {x : T × A} (h : x ∈ xs ++ ys) : x ∈ xs ++ (t, a) :: ys :=
  List.mem_append.2 ((List.mem_append.1 h).imp id (List.mem_cons_of_mem _))

/-- Where the tasks' slots differ, no other task has the slot of this one. -/
theorem slot_ne (h : ((xs ++ (t, a) :: ys).map (fun x => f x.1)).Nodup) : ∀ x ∈ xs ++ ys, f x.1 ≠ f t := by
  intro x hx heq
  rw [List.map_append, List.map_cons, List.nodup_middle, List.nodup_cons, ← List.map_append] at h
  exact h.1 (List.mem_map.2 ⟨x, hx, heq⟩)

theorem slots_replaced (h : ((xs ++ (t, a) :: ys).map (fun x => f x.1)).Nodup) :
    ((xs ++ (t, a') :: ys).map (fun x => f x.1)).Nodup := by
  rw [List.map_append, List.map_cons] at h ⊢
  exact h

end Apart

/-! ## The chunks of a file -/

/-- What a task has done: the checksum it stored, and whether it set the flag. -/
structure FileShare where
  wrote : Option UInt32 := none
  failed : Bool := false

def fileSolo (content : Bytes) : (c : FileCall) → FileShare → FileResp c → FileShare → Prop
  | .pread offset length, a, bytes, a' => bytes.length ≤ length ∧ bytes <+: content.drop offset.toNat ∧ a' = a
  | .failChunk, a, _, a' => a' = { a with failed := true }
  | .storeResult _ crc, a, _, a' => a' = { a with wrote := some crc }
  | .openFile, a, _, a' => a' = a
  | .seekEnd, a, _, a' => a' = a
  | .chunkFailed, a, _, a' => a' = a
  | .results _, a, _, a' => a' = a

/-- A task stores its own result only. -/
def FileTask.Allowed (t : FileTask) : FileCall → Prop
  | .pread _ _ => True
  | .failChunk => True
  | .storeResult idx _ => idx = t.idx
  | _ => False

/-- The shares of tasks with results of their own, as the vector and the flag show them. -/
structure FileTotal (xs : List (FileTask × FileShare)) (w : FileCrcs) : Prop where
  apart : (xs.map (fun x => (x.1.idx : Int))).Nodup
  wrote : ∀ x ∈ xs, ∀ crc, x.2.wrote = some crc → w.results x.1.idx = crc
  failed : ∀ x ∈ xs, x.2.failed = true → w.chunkFailed = true

theorem fileShares (content : Bytes) :
    Crew.Shares (fileExec content) (fileSolo content) FileTask.Allowed FileTotal where
  work := by
    intro xs t a ys w c r w' ht hc he
    cases c with
    | pread offset length =>
      obtain ⟨hlen, hbytes, rfl⟩ := he
      exact ⟨a, ⟨hlen, hbytes, rfl⟩, ht⟩
    | failChunk =>
      obtain rfl := he
      refine ⟨_, rfl, slots_replaced (f := fun t : FileTask => t.idx) ht.apart, fun x hx crc hcrc => ?_,
        fun _ _ _ => rfl⟩
      rcases mem_replaced hx with rfl | hx
      · exact ht.wrote (t, a) (by simp) crc hcrc
      · exact ht.wrote x (mem_kept hx) crc hcrc
    | storeResult idx crc =>
      obtain rfl := he
      obtain rfl : idx = t.idx := hc
      refine ⟨_, rfl, slots_replaced (f := fun t : FileTask => t.idx) ht.apart, fun x hx crc' hcrc => ?_,
        fun x hx hf => ?_⟩
      · rcases mem_replaced hx with rfl | hx
        · rw [← Option.some.inj hcrc]
          exact Function.update_self ..
        · have hne : (x.1.idx : Int) ≠ t.idx := slot_ne (f := fun t : FileTask => t.idx) ht.apart x hx
          dsimp only
          rw [Function.update_of_ne (by omega)]
          exact ht.wrote x (mem_kept hx) crc' hcrc
      · rcases mem_replaced hx with rfl | hx
        · exact ht.failed (t, a) (by simp) hf
        · exact ht.failed x (mem_kept hx) hf
    | openFile => exact absurd hc id
    | seekEnd => exact absurd hc id
    | chunkFailed => exact absurd hc id
    | results _ => exact absurd hc id

section FileTasks

variable {content : Bytes} {a : FileShare}

/-- A block's precondition: nothing is kept, and the program does not halt. -/
abbrev FileSpec (content : Bytes) {α : Type} (p : FileProg α) (Q : α → FileShare → Prop) (a : FileShare) : Prop :=
  wp (fileSolo content) (fun _ => True) (fun _ => False) p Q a

/-- **A block that is read is the block.** -/
theorem readBlock_spec (content : Bytes) (a : FileShare) (offset want : Nat) (buffer : Bytes)
    (hb : buffer <+: content.drop offset) (hw : buffer.length ≤ want) :
    FileSpec content (readBlock offset want buffer)
      (fun r a' => a' = a ∧ ∀ bytes, r = some bytes → bytes = slice content offset want) a := by
  generalize hleft : want - buffer.length = left
  induction left using Nat.strong_induction_on generalizing buffer with
  | _ left ih =>
    rw [readBlock]
    by_cases hlt : buffer.length < want
    · rw [if_pos hlt]
      refine wp_bind.2 (wp_req.2 ⟨trivial, ?_⟩)
      rintro bytes _ ⟨hlen, hbytes, rfl⟩
      by_cases hnil : bytes = []
      · rw [if_pos hnil]
        exact ⟨rfl, by simp⟩
      · rw [if_neg hnil]
        have hpos := List.length_pos_of_ne_nil hnil
        have hto : ((offset : Int) + buffer.length).toNat = offset + buffer.length := by omega
        have happ : buffer ++ bytes <+: content.drop offset := by
          obtain ⟨rest, hrest⟩ := hb
          rw [hto, ← List.drop_drop, ← hrest, List.drop_left] at hbytes
          rw [← hrest]
          exact (List.prefix_append_right_inj buffer).2 hbytes
        refine ih _ ?_ (buffer ++ bytes) happ ?_ rfl
        · rw [List.length_append]
          omega
        · rw [List.length_append]
          omega
    · rw [if_neg hlt]
      refine ⟨rfl, ?_⟩
      rintro _ ⟨⟩
      unfold slice
      have heq : want = buffer.length := by omega
      rw [heq]
      exact List.prefix_iff_eq_take.1 hb

variable [ZlibNg]

/-- **The blocks of a chunk are checksummed as the whole of it.** -/
theorem crcBlocks_spec (content : Bytes) (a : FileShare) (offset length done : Nat) (hd : done ≤ length) :
    FileSpec content (crcBlocks offset length done (crc32Hw (slice content offset done)))
      (fun r a' => a' = a ∧ ∀ crc, r = some crc → crc = crc32Hw (slice content offset length)) a := by
  generalize hleft : length - done = left
  induction left using Nat.strong_induction_on generalizing done with
  | _ left ih =>
    have hblock : 0 < kBlock := by decide
    rw [crcBlocks]
    by_cases hlt : done < length
    · rw [if_pos hlt]
      have hread := readBlock_spec content a (offset + done) (min kBlock (length - done)) []
        List.nil_prefix (Nat.zero_le _)
      rw [Int.natCast_add] at hread
      refine wp_bind.2 (wp_mono ?_ hread)
      rintro r _ ⟨rfl, hr⟩
      cases r with
      | none => exact ⟨rfl, by simp⟩
      | some bytes =>
        obtain rfl := hr bytes rfl
        have hcrc : crc32HwUpdate (crc32Hw (slice content offset done))
            (slice content (offset + done) (min kBlock (length - done))) =
            crc32Hw (slice content offset (done + min kBlock (length - done))) := by
          unfold crc32HwUpdate crc32Hw
          rw [ZlibNg.crc32Z_append, slice_append_slice]
        dsimp only
        rw [hcrc]
        exact ih _ (by omega) _ (by omega) rfl
    · rw [if_neg hlt]
      refine ⟨rfl, ?_⟩
      rintro _ ⟨⟩
      rw [show done = length by omega]

/-- What a task leaves: the flag set, or the checksum of a chunk the content has. -/
def FileQ (content : Bytes) (k : Nat) (t : FileTask) (a : FileShare) : Prop :=
  a.failed = true ∨ (0 ≤ t.chunkId ∧ t.chunkId < (numChunks k content.length : Nat)) ∧
    a.wrote = some (chunkCrc content k t.chunkId)

theorem computeChunkCrc_spec {k : Nat} (hk : 0 < k) (hn : content.length < 2 ^ 62) (hk' : k < 2 ^ 62) (idx : Nat)
    (chunkId : Int) :
    FileSpec content (computeChunkCrc ⟨content.length, k, (numChunks k content.length : Nat), idx, chunkId⟩)
      (fun _ => FileQ content k ⟨content.length, k, (numChunks k content.length : Nat), idx, chunkId⟩) {} := by
  have hfail : ∀ t, FileSpec content (askFile .failChunk) (fun _ => FileQ content k t) {} := by
    refine fun t => ⟨trivial, ?_⟩
    rintro _ _ rfl
    exact .inl rfl
  unfold computeChunkCrc
  dsimp only
  by_cases hid : chunkId < 0 ∨ chunkId ≥ (numChunks k content.length : Nat)
  · rw [if_pos hid]
    exact hfail _
  · rw [if_neg hid]
    have hvalid : 0 ≤ chunkId ∧ chunkId < (numChunks k content.length : Nat) := by omega
    obtain ⟨i, rfl, hi⟩ := exists_chunk hvalid hk
    have hpos := chunkLen_pos hk hi
    have hlen : ¬ ((chunkLen k content.length i : Nat) : Int) ≤ 0 := by omega
    simp only [chunkSpan_eq hi hn hk', chunk_length_eq hi, if_neg hlen, Int.toNat_natCast]
    have hblocks := crcBlocks_spec content {} (i * k) (chunkLen k content.length i) 0 (Nat.zero_le _)
    rw [show crc32Hw (slice content (i * k) 0) = 0 from ZlibNg.crc32Z_nil] at hblocks
    refine wp_bind.2 (wp_mono ?_ hblocks)
    rintro r _ ⟨rfl, hr⟩
    cases r with
    | none => exact hfail _
    | some crc =>
      obtain rfl := hr crc rfl
      refine ⟨trivial, ?_⟩
      rintro _ _ rfl
      exact .inr ⟨hvalid, rfl⟩

/-! ### What the tasks ask -/

omit [ZlibNg] in
theorem readBlock_asks (P : FileCall → Prop) (hP : ∀ offset length, P (.pread offset length)) (offset : Int)
    (want : Nat) (buffer : Bytes) : Asks P (readBlock offset want buffer) := by
  generalize hleft : want - buffer.length = left
  induction left using Nat.strong_induction_on generalizing buffer with
  | _ left ih =>
    rw [readBlock]
    by_cases hlt : buffer.length < want
    · rw [if_pos hlt]
      refine ⟨hP _ _, fun bytes => ?_⟩
      show Asks P (if bytes = [] then return none else readBlock offset want (buffer ++ bytes))
      by_cases hnil : bytes = []
      · rw [if_pos hnil]
        exact trivial
      · have hpos := List.length_pos_of_ne_nil hnil
        rw [if_neg hnil]
        refine ih _ ?_ _ rfl
        rw [List.length_append]
        omega
    · rw [if_neg hlt]
      exact trivial

theorem crcBlocks_asks (P : FileCall → Prop) (hP : ∀ offset length, P (.pread offset length)) (offset : Int)
    (length done : Nat) (crc : UInt32) : Asks P (crcBlocks offset length done crc) := by
  generalize hleft : length - done = left
  induction left using Nat.strong_induction_on generalizing done crc with
  | _ left ih =>
    have hblock : 0 < kBlock := by decide
    rw [crcBlocks]
    by_cases hlt : done < length
    · rw [if_pos hlt]
      refine asks_bind (readBlock_asks P hP _ _ _) fun r => ?_
      cases r with
      | none => exact trivial
      | some bytes => exact ih _ (by omega) _ _ rfl
    · rw [if_neg hlt]
      exact trivial

theorem computeChunkCrc_asks (t : FileTask) : Asks t.Allowed (computeChunkCrc t) := by
  have hfail : Asks t.Allowed (askFile .failChunk) := asks_req.2 trivial
  unfold computeChunkCrc
  split
  · exact hfail
  · cases chunkSpan t.chunkId t.chunkSize with
    | none => exact trivial
    | some span =>
      obtain ⟨offset, past⟩ := span
      dsimp only
      generalize (if past ≤ t.filesize then t.chunkSize else t.filesize - offset) = length
      split
      · exact hfail
      · refine asks_bind (crcBlocks_asks t.Allowed (fun _ _ => trivial) _ _ _ _) fun r => ?_
        cases r with
        | none => exact hfail
        | some crc => exact asks_req.2 rfl

end FileTasks

/-! ### Posting -/

section Posting

variable {C T W : Type} {R : C → Type} {exec : (c : C) → W → R c → W → Prop} {Rely : W → W → Prop}
  {Done : List T → W → Prop} {H : Crew.Seen T W → Prop} {all : List T}

theorem postEach_asks {mine : C → Prop} : ∀ ts : List T, Asks (Crew.Mine mine) (postEach ts : Poster C T R Unit)
  | [] => trivial
  | _ :: ts => ⟨trivial, fun _ => postEach_asks ts⟩

/-- Posting a list posts all of it. -/
theorem postEach_spec : ∀ (ts : List T) (x : Crew.Seen T W), x.posted ++ ts = all →
    wp (Crew.PosterExec exec (fun _ => Rely) Done) (fun x => x.posted <+: all) H (postEach ts : Poster C T R Unit)
      (fun _ x' => x'.posted = all) x
  | [], x, hx => by
    rw [List.append_nil] at hx
    exact hx
  | t :: ts, x, hx => by
    refine wp_bind.2 (Crew.wp_post ⟨_, hx⟩ fun w _ => ?_)
    exact postEach_spec ts _ (by rw [← hx, List.append_assoc]; rfl)

end Posting

/-! ### The file's checksums -/

section Files

variable {content : Bytes} {k : Nat}

/-- What the caller asks. -/
def FileMine : FileCall → Prop
  | .openFile => True
  | .seekEnd => True
  | .chunkFailed => True
  | .results _ => True
  | _ => False

theorem computeInTurn_asks : ∀ ts, Asks (Crew.Mine FileMine) (computeInTurn ts)
  | [] => trivial
  | _ :: ts => ⟨trivial, fun _ => ⟨trivial, fun _ => computeInTurn_asks ts⟩⟩

theorem computeCrc32ChunksBoostAsio_asks (chunkIds : List Int) (chunkSize : Int) :
    Asks (Crew.Mine FileMine) (computeCrc32ChunksBoostAsio chunkIds chunkSize) := by
  refine ⟨trivial, fun opened => ?_⟩
  cases opened with
  | false => exact trivial
  | true =>
    refine ⟨trivial, fun filesize => ?_⟩
    show Asks _ (if filesize ≤ 0 then _ else _)
    split
    · exact trivial
    · cases fileChunkCount filesize (chunkSizeOf chunkSize) with
      | none => exact trivial
      | some numChunks =>
        have hrest : Asks (Crew.Mine FileMine)
            (do if ← posterFile .chunkFailed then return []
                posterFile (.results (fileTasks filesize (chunkSizeOf chunkSize) numChunks chunkIds).length)) := by
          refine ⟨trivial, fun failed => ?_⟩
          cases failed with
          | true => exact trivial
          | false => exact ⟨trivial, fun _ => trivial⟩
        dsimp only
        split
        · exact asks_bind (computeInTurn_asks _) fun _ => hrest
        · exact asks_bind (postEach_asks _) fun _ => ⟨trivial, fun _ => hrest⟩

/-- The tasks of a content, whichever chunks they are for. -/
structure FileTask.Of (content : Bytes) (k : Nat) (t : FileTask) : Prop where
  filesize : t.filesize = content.length
  chunkSize : t.chunkSize = k
  numChunks : t.numChunks = (Lib.numChunks k content.length : Nat)

theorem fileFitting [ZlibNg] {all : List FileTask} (hk : 0 < k) (hn : content.length < 2 ^ 62) (hk' : k < 2 ^ 62)
    (hof : ∀ t ∈ all, t.Of content k) (hidx : (all.map (fun t => (t.idx : Int))).Nodup) :
    Crew.Fitting (fileExec content) computeChunkCrc FileMine (fun _ _ => True) (· <+: all) (fileSolo content)
      FileTask.Allowed FileTotal (FileQ content k) {} where
  shares := fileShares content
  guarantee := ⟨fun _ => trivial, fun _ _ _ _ _ => trivial, fun _ _ _ _ _ => trivial⟩
  fewer ts t h := (List.prefix_append ts [t]).trans h
  asks _ t _ := computeChunkCrc_asks t
  wp ts t h := by
    obtain ⟨hfilesize, hchunkSize, hnumChunks⟩ := hof t (h.subset (by simp))
    obtain ⟨filesize, chunkSize, numChunks, idx, chunkId⟩ := t
    dsimp only at hfilesize hchunkSize hnumChunks
    subst hfilesize hchunkSize hnumChunks
    exact computeChunkCrc_spec hk hn hk' idx chunkId
  post xs t w hfit ht := by
    have hnodup := hidx.sublist ((hfit.map (fun t : FileTask => (t.idx : Int))).sublist)
    refine ⟨?_, fun x hx crc hcrc => ?_, fun x hx hf => ?_⟩
    · simpa [Function.comp_def] using hnodup
    · rcases List.mem_append.1 hx with hx | hx
      · exact ht.wrote x hx crc hcrc
      · obtain rfl := List.mem_singleton.1 hx
        exact absurd hcrc (by simp)
    · rcases List.mem_append.1 hx with hx | hx
      · exact ht.failed x hx hf
      · obtain rfl := List.mem_singleton.1 hx
        exact absurd hf (by simp)
  mine c xs w r w' hc ht he := by
    cases c with
    | openFile =>
      obtain rfl := he
      exact ht
    | seekEnd =>
      obtain ⟨-, rfl⟩ := he
      exact ht
    | chunkFailed =>
      obtain ⟨-, rfl⟩ := he
      exact ht
    | results n =>
      obtain ⟨-, rfl⟩ := he
      exact ht
    | pread _ _ => exact absurd hc id
    | failChunk => exact absurd hc id
    | storeResult _ _ => exact absurd hc id

theorem mem_fileTasks {filesize chunkSize numChunks : Int} {chunkIds : List Int} {i : Nat}
    (hi : i < (requestedIds numChunks chunkIds).length) :
    (⟨filesize, chunkSize, numChunks, i, (requestedIds numChunks chunkIds)[i]⟩ : FileTask) ∈
      fileTasks filesize chunkSize numChunks chunkIds :=
  List.mem_map.2 ⟨(_, i), List.mk_mem_zipIdx_iff_getElem?.2 (List.getElem?_eq_getElem hi), rfl⟩

theorem fileTasks_idx (filesize chunkSize numChunks : Int) (chunkIds : List Int) :
    ((fileTasks filesize chunkSize numChunks chunkIds).map (fun t => (t.idx : Int))).Nodup := by
  have hidx : (fileTasks filesize chunkSize numChunks chunkIds).map (fun t => (t.idx : Int)) =
      ((requestedIds numChunks chunkIds).zipIdx.map Prod.snd).map Int.ofNat := by
    unfold fileTasks
    rw [List.map_map, List.map_map]
    rfl
  rw [hidx, List.zipIdx_map_snd]
  exact (List.nodup_range' ..).map fun _ _ h => Int.ofNat.inj h

/-- The ids a request names are those it is for. -/
theorem requestedIds_of_mem (numChunks : Int) {id : Int} {chunkIds : List Int} (h : id ∈ chunkIds) :
    requestedIds numChunks chunkIds = chunkIds := by
  unfold requestedIds
  rw [if_neg]
  rintro hempty
  rw [List.isEmpty_iff.1 hempty] at h
  exact absurd h List.not_mem_nil

/-- **Tasks that have returned without a failure have stored the checksums of the request.** -/
theorem answers_of_done [ZlibNg] {chunkIds : List Int} {w : FileCrcs}
    (h : Crew.FitDone (· <+: fileTasks content.length k (numChunks k content.length : Nat) chunkIds) FileTotal
      (FileQ content k) (fileTasks content.length k (numChunks k content.length : Nat) chunkIds) w)
    (hf : w.chunkFailed = false) :
    AnswersChunks content k chunkIds
      ((List.range (fileTasks content.length k (numChunks k content.length : Nat) chunkIds).length).map w.results) := by
  obtain ⟨xs, hxs, ht, hq⟩ := h List.prefix_rfl
  have hstored : ∀ t ∈ fileTasks content.length k (numChunks k content.length : Nat) chunkIds,
      (0 ≤ t.chunkId ∧ t.chunkId < (numChunks k content.length : Nat)) ∧
        w.results t.idx = chunkCrc content k t.chunkId := by
    intro t hmem
    rw [← hxs] at hmem
    obtain ⟨x, hx, rfl⟩ := List.mem_map.1 hmem
    rcases hq x hx with hfailed | ⟨hid, hwrote⟩
    · rw [ht.failed x hx hfailed] at hf
      exact absurd hf (by simp)
    · exact ⟨hid, ht.wrote x hx _ hwrote⟩
  have hlen : (fileTasks content.length k (numChunks k content.length : Nat) chunkIds).length =
      (requestedIds (numChunks k content.length : Nat) chunkIds).length := by simp [fileTasks]
  have hcrcs : (List.range (fileTasks content.length k (numChunks k content.length : Nat) chunkIds).length).map
      w.results = (requestedIds (numChunks k content.length : Nat) chunkIds).map (chunkCrc content k) := by
    refine List.ext_getElem (by simpa using hlen) fun i _ hi => ?_
    rw [List.length_map] at hi
    rw [List.getElem_map, List.getElem_map, List.getElem_range]
    exact (hstored _ (mem_fileTasks hi)).2
  rw [hcrcs]
  refine .answered fun id hid => ?_
  have hids := requestedIds_of_mem (numChunks k content.length : Nat) hid
  rw [← hids] at hid
  obtain ⟨i, hi, rfl⟩ := List.getElem_of_mem hid
  exact (hstored _ (mem_fileTasks hi)).1

section FilePoster

variable [ZlibNg] {chunkIds : List Int} {all : List FileTask} {x : Crew.Seen FileTask FileCrcs}

/-- What the caller's program keeps and leaves: it posts the tasks in their order. -/
abbrev FilePosterSpec (content : Bytes) (k : Nat) (all : List FileTask) {α : Type} (p : FilePoster α)
    (Q : α → Crew.Seen FileTask FileCrcs → Prop) (x : Crew.Seen FileTask FileCrcs) : Prop :=
  wp (Crew.PosterExec (fileExec content) (fun _ _ _ => True) (Crew.FitDone (· <+: all) FileTotal (FileQ content k)))
    (fun x => x.posted <+: all) (fun _ => False) p Q x

/-- All tasks posted, joined and done. -/
structure FileJoined (content : Bytes) (k : Nat) (all : List FileTask) (x : Crew.Seen FileTask FileCrcs) : Prop where
  posted : x.posted = all
  joined : x.joined = true
  done : Crew.FitDone (· <+: all) FileTotal (FileQ content k) all x.world

theorem computeInTurn_spec : ∀ (ts : List FileTask) (x : Crew.Seen FileTask FileCrcs), x.posted ++ ts = all →
    x.joined = true → Crew.FitDone (· <+: all) FileTotal (FileQ content k) x.posted x.world →
    FilePosterSpec content k all (computeInTurn ts) (fun _ => FileJoined content k all) x
  | [], x, hx, hj, hd => by
    rw [List.append_nil] at hx
    exact ⟨hx, hj, hx ▸ hd⟩
  | t :: ts, x, hx, _, _ => by
    have happ : (x.posted ++ [t]) ++ ts = all := by
      rw [← hx, List.append_assoc]
      rfl
    refine wp_bind.2 (Crew.wp_post ⟨_, hx⟩ fun w _ => wp_bind.2 (Crew.wp_join ⟨ts, happ⟩ fun w' _ hd => ?_))
    exact computeInTurn_spec ts _ happ rfl hd

theorem fileFinish_spec (hall : all = fileTasks content.length k (numChunks k content.length : Nat) chunkIds)
    (hx : FileJoined content k all x) :
    FilePosterSpec content k all
      (do if ← posterFile .chunkFailed then return []
          posterFile (.results all.length))
      (fun crcs _ => AnswersChunks content k chunkIds crcs) x := by
  have hfit : x.posted <+: all := hx.posted ▸ List.prefix_rfl
  refine wp_bind.2 (Crew.wp_ask hfit fun failed w w' hj _ he => ?_)
  obtain ⟨rfl, rfl⟩ := he
  obtain rfl := hj hx.joined
  cases hf : x.world.chunkFailed with
  | true => exact .failed
  | false =>
    refine Crew.wp_ask hfit fun crcs w w' hj _ he => ?_
    obtain ⟨rfl, rfl⟩ := he
    obtain rfl := hj hx.joined
    subst hall
    exact answers_of_done hx.done hf

theorem computeCrc32ChunksBoostAsio_spec {chunkSize : Int} (hc : chunkSizeOf chunkSize = k) (hk : 0 < k)
    (hn : content.length < 2 ^ 62) (hk' : k < 2 ^ 62) :
    FilePosterSpec content k (fileTasks content.length k (numChunks k content.length : Nat) chunkIds)
      (computeCrc32ChunksBoostAsio chunkIds chunkSize) (fun crcs _ => AnswersChunks content k chunkIds crcs)
      ⟨[], true, {}⟩ := by
  refine wp_bind.2 (Crew.wp_ask List.nil_prefix fun opened w w' hj _ he => ?_)
  obtain rfl := he
  obtain rfl := hj rfl
  cases opened with
  | false => exact .failed
  | true =>
    refine wp_bind.2 (Crew.wp_ask List.nil_prefix fun filesize w w' hj _ he => ?_)
    obtain ⟨hsize, rfl⟩ := he
    obtain rfl := hj rfl
    by_cases hpos : filesize ≤ 0
    · rw [if_pos hpos]
      exact .failed
    · obtain rfl := hsize.resolve_right fun hneg => hpos (Int.le_of_lt hneg)
      rw [if_neg hpos, hc, fileChunkCount_eq hk hn hk']
      dsimp only
      split
      · refine wp_bind.2 (wp_mono (fun _ _ hx => fileFinish_spec rfl hx)
          (computeInTurn_spec _ ⟨[], true, {}⟩ (List.nil_append _) rfl ?_))
        exact fun _ => ⟨[], rfl, ⟨List.nodup_nil, by simp, by simp⟩, by simp⟩
      · refine wp_bind.2 (wp_mono (fun _ x hx => ?_) (postEach_spec _ _ (List.nil_append _)))
        refine wp_bind.2 (Crew.wp_join (hx ▸ List.prefix_rfl) fun w _ hd => ?_)
        exact fileFinish_spec rfl ⟨hx, rfl, hx ▸ hd⟩

end FilePoster

theorem fileExec_total (content : Bytes) (c : FileCall) (w : FileCrcs) : ∃ r w', fileExec content c w r w' := by
  cases c with
  | openFile => exact ⟨false, w, rfl⟩
  | seekEnd => exact ⟨-1, w, .inr (by decide), rfl⟩
  | pread offset length => exact ⟨[], w, Nat.zero_le _, List.nil_prefix, rfl⟩
  | failChunk => exact ⟨(), _, rfl⟩
  | storeResult idx crc => exact ⟨(), _, rfl⟩
  | chunkFailed => exact ⟨_, w, rfl, rfl⟩
  | results n => exact ⟨_, w, rfl, rfl⟩

/-- **The file's checksums come in the order of the request, or not at all.** -/
theorem computeCrc32ChunksBoostAsio_returns [ZlibNg] {chunkSize : Int} (hc : chunkSizeOf chunkSize = k) (hk : 0 < k)
    (hn : content.length < 2 ^ 62) (hk' : k < 2 ^ 62) (chunkIds : List Int) :
    Crew.Returns (fileExec content) computeChunkCrc (computeCrc32ChunksBoostAsio chunkIds chunkSize) {}
      (AnswersChunks content k chunkIds) := by
  have hof : ∀ t ∈ fileTasks content.length k (numChunks k content.length : Nat) chunkIds, t.Of content k := by
    intro t ht
    obtain ⟨p, -, rfl⟩ := List.mem_map.1 ht
    exact ⟨rfl, rfl, rfl⟩
  exact (fileFitting hk hn hk' hof (fileTasks_idx _ _ _ _)).returns (fileExec_total content)
    ⟨List.nodup_nil, by simp, by simp⟩ (computeCrc32ChunksBoostAsio_asks chunkIds chunkSize)
    (computeCrc32ChunksBoostAsio_spec hc hk hn hk')

end Files

end Mito
