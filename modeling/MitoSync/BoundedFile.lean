import MitoSync.Basic
import MitoSync.Lib.Machine
/-!
# BoundedFile — the body of an upload, read through a bounded buffer

`BoundedFileBuf` reads at most `limit` bytes of a file through a buffer of 64 KiB.  Where it stands is spread over a
counter of what remains, the unread part of the buffer and the offset and state of the file behind it;
`bounded_file_reads` has that under any reads and seeks it is a reader of the file's first `limit` bytes with one
position.
-/
namespace Mito

/-! ## The code -/

/-- `std::ifstream` on a regular file: its content, its offset, and whether no `eofbit` and no `failbit` is set. -/
structure FileStream where
  content : Bytes
  pos : Nat := 0
  good : Bool := true

/-- `read` and `gcount`: a read that comes short sets `eofbit` and `failbit`, and one with a bit set reads nothing. -/
def FileStream.read (f : FileStream) (n : Nat) : Bytes × FileStream :=
  if f.good then
    let got := (f.content.drop f.pos).take n
    (got, { f with pos := f.pos + got.length, good := got.length = n })
  else ([], f)

/-- `clear` and `seekg`, which may go behind the end of the file. -/
def FileStream.clearSeek (f : FileStream) (target : Nat) : FileStream := { f with pos := target, good := true }

inductive SeekDir
  | beg | cur | «end»

/-- A `BoundedFileBuf`, with the bytes from `gptr` to `egptr` where there is a get area.  `std::streamsize` and
`off_type` are 64 bits wide. -/
structure BoundedFileBuf where
  file : FileStream
  limit : Int64
  remaining : Int64
  get : Option Bytes := none

namespace BoundedFileBuf

def «open» (content : Bytes) (limit : Int64) : BoundedFileBuf := ⟨⟨content, 0, true⟩, limit, limit, none⟩

/-- `std::array<char, 1 << 16>` -/
def bufferSize : Int64 := 65536

/-- `std::min(buffer_.size(), remaining_)` -/
def want (b : BoundedFileBuf) : Int64 := if b.remaining < bufferSize then b.remaining else bufferSize

def underflow (b : BoundedFileBuf) : Option UInt8 × BoundedFileBuf :=
  match b.get with
  | some (c :: _) => (some c, b)
  | _ =>
    if b.remaining ≤ 0 then (none, b)
    else
      let (got, file) := b.file.read b.want.toInt.toNat
      match got with
      | [] => (none, { b with file := file })
      | c :: _ =>
        (some c, { b with file := file, remaining := b.remaining - Int64.ofNat got.length, get := some got })

/-- `std::streambuf::sbumpc`, over `uflow`. -/
def sbumpc (b : BoundedFileBuf) : Option UInt8 × BoundedFileBuf :=
  match b.underflow with
  | (none, b) => (none, b)
  | (some c, b) => (some c, { b with get := b.get.map List.tail })

/-- `std::streambuf::sgetn`: calls of `sbumpc` until it has enough or is at the end. -/
def sgetn : Nat → BoundedFileBuf → Bytes × BoundedFileBuf
  | 0, b => ([], b)
  | n + 1, b =>
    match b.sbumpc with
    | (none, b) => ([], b)
    | (some c, b) =>
      let (cs, b) := sgetn n b
      (c :: cs, b)

/-- Where the reader stands, by the counter and the unread bytes. -/
def current (b : BoundedFileBuf) : Int64 :=
  let consumed := b.limit - b.remaining
  let unread := match b.get with
    | some bytes => Int64.ofNat bytes.length
    | none => 0
  consumed - unread

def target (off : Int64) (b : BoundedFileBuf) : SeekDir → Int64
  | .beg => off
  | .cur => b.current + off
  | .end => b.limit + off

def seekoff (off : Int64) (dir : SeekDir) (inMode : Bool) (b : BoundedFileBuf) : Int64 × BoundedFileBuf :=
  if !inMode then (-1, b)
  else
    let target := b.target off dir
    if target < 0 ∨ target > b.limit then (-1, b)
    else (target, { b with file := b.file.clearSeek target.toInt.toNat, remaining := b.limit - target, get := none })

def seekpos (pos : Int64) (inMode : Bool) (b : BoundedFileBuf) : Int64 × BoundedFileBuf := b.seekoff pos .beg inMode

end BoundedFileBuf

/-- What the SDK does with the body of an upload. -/
inductive StreamCommand
  | read (n : Nat)
  | seekoff (off : Int64) (dir : SeekDir) (inMode : Bool)
  | seekpos (pos : Int64) (inMode : Bool)

/-- The bytes of a read, or the offset a seek reports, `-1` where it fails. -/
inductive StreamAnswer
  | bytes (data : Bytes)
  | offset (n : Int)

def BoundedFileBuf.step (b : BoundedFileBuf) : StreamCommand → StreamAnswer × BoundedFileBuf
  | .read n => (.bytes (b.sgetn n).1, (b.sgetn n).2)
  | .seekoff off dir inMode => (.offset (b.seekoff off dir inMode).1.toInt, (b.seekoff off dir inMode).2)
  | .seekpos pos inMode => (.offset (b.seekpos pos inMode).1.toInt, (b.seekpos pos inMode).2)

/-! ## A reader with one position -/

/-- A random-access reader over some bytes, at a position between 0 and a limit. -/
structure Reader where
  data : Bytes
  limit : Int
  pos : Nat := 0

namespace Reader

/-- The first `limit` bytes of a file. -/
def ofFile (content : Bytes) (limit : Int) : Reader := ⟨content.take limit.toNat, limit, 0⟩

def read (r : Reader) (n : Nat) : Bytes × Reader :=
  let got := (r.data.drop r.pos).take n
  (got, { r with pos := r.pos + got.length })

/-- A seek inside `[0, limit]` moves the reader and reports where it stands; any other one fails. -/
def seek (r : Reader) (target : Int) : Int × Reader :=
  if 0 ≤ target ∧ target ≤ r.limit then (target, { r with pos := target.toNat }) else (-1, r)

def base (r : Reader) : SeekDir → Int
  | .beg => 0
  | .cur => r.pos
  | .end => r.limit

/-- A seek that is not for input fails. -/
def seekIn (r : Reader) (target : Int) (inMode : Bool) : Int × Reader := if inMode then r.seek target else (-1, r)

def step (r : Reader) : StreamCommand → StreamAnswer × Reader
  | .read n => (.bytes (r.read n).1, (r.read n).2)
  | .seekoff off dir inMode =>
    (.offset (r.seekIn (r.base dir + off.toInt) inMode).1, (r.seekIn (r.base dir + off.toInt) inMode).2)
  | .seekpos pos inMode => (.offset (r.seekIn pos.toInt inMode).1, (r.seekIn pos.toInt inMode).2)

end Reader

/-! ## The two agree -/

theorem Reader.read_end {r : Reader} (n : Nat) (h : r.data[r.pos]? = none) : r.read n = ([], r) := by
  have hnil : r.data.drop r.pos = [] := List.drop_eq_nil_iff.2 (List.getElem?_eq_none_iff.1 h)
  rw [Reader.read, hnil, List.take_nil]
  rfl

theorem Reader.read_succ {r : Reader} {c : UInt8} (n : Nat) (h : r.data[r.pos]? = some c) :
    r.read (n + 1) = (c :: ({ r with pos := r.pos + 1 }.read n).1, ({ r with pos := r.pos + 1 }.read n).2) := by
  obtain ⟨hlt, hc⟩ := List.getElem?_eq_some_iff.1 h
  have hdrop : r.data.drop r.pos = c :: r.data.drop (r.pos + 1) := hc ▸ List.drop_eq_getElem_cons hlt
  have hsum : r.pos + (((r.data.drop (r.pos + 1)).take n).length + 1) =
      r.pos + 1 + ((r.data.drop (r.pos + 1)).take n).length := by omega
  rw [Reader.read, Reader.read, hdrop, List.take_succ_cons, List.length_cons, hsum]

/-- The bytes between `gptr` and `egptr`. -/
def BoundedFileBuf.unread (b : BoundedFileBuf) : Bytes := b.get.getD []

/-- The counter, the buffer and the file put the reader at its one position. -/
structure BoundedFileBuf.Reads (b : BoundedFileBuf) (r : Reader) : Prop where
  data : r.data = b.file.content.take b.limit.toInt.toNat
  limit : r.limit = b.limit.toInt
  consumed : (r.pos : Int) + b.unread.length = b.limit.toInt - b.remaining.toInt
  remaining : 0 ≤ b.remaining.toInt ∨ b.remaining = b.limit
  unread : b.unread <+: b.file.content.drop r.pos
  /-- The file stands behind the buffer, or at its end. -/
  file : if b.file.good then (b.file.pos : Int) = b.limit.toInt - b.remaining.toInt
    else (b.file.content.length : Int) ≤ b.limit.toInt - b.remaining.toInt

theorem toInt_bmod (n : Int) (h : -2 ^ 63 ≤ n ∧ n < 2 ^ 63) : n.bmod (2 ^ 64) = n := by
  have hle : -((2 ^ 64 : Nat) / 2 : Int) ≤ n := by omega
  exact Int.bmod_eq_of_le hle (by omega)

variable {b : BoundedFileBuf} {r : Reader}

theorem open_reads (content : Bytes) (limit : Int64) :
    (BoundedFileBuf.open content limit).Reads (.ofFile content limit.toInt) where
  data := rfl
  limit := rfl
  consumed := by simp [BoundedFileBuf.open, BoundedFileBuf.unread, Reader.ofFile]
  remaining := .inr rfl
  unread := List.nil_prefix
  file := by simp [BoundedFileBuf.open]

namespace BoundedFileBuf

/-- Where no byte is buffered the reader stands at the file's offset, or behind its end. -/
theorem Reads.pos_eq (h : b.Reads r) (hu : b.unread = []) : (r.pos : Int) = b.limit.toInt - b.remaining.toInt := by
  have hc := h.consumed
  rw [hu] at hc
  simpa using hc

theorem Reads.end_of_nil (h : b.Reads r) (hu : b.unread = []) (hr : b.remaining.toInt ≤ 0) : r.data[r.pos]? = none := by
  have hpos := h.pos_eq hu
  rw [h.data, List.getElem?_eq_none_iff, List.length_take]
  omega

theorem Reads.next (h : b.Reads r) {c : UInt8} {rest : Bytes} (hu : b.unread = c :: rest) : r.data[r.pos]? = some c := by
  have hc := h.consumed
  have hrem := h.remaining
  rw [hu, List.length_cons] at hc
  have hlt : r.pos < b.limit.toInt.toNat := by
    rcases hrem with hrem | hrem
    · omega
    · rw [hrem] at hc
      omega
  obtain ⟨tail, htail⟩ := h.unread
  rw [hu] at htail
  rw [h.data, List.getElem?_take_of_lt hlt, ← Nat.add_zero r.pos, ← List.getElem?_drop, ← htail]
  rfl

theorem get_of_unread {c : UInt8} {rest : Bytes} (hu : b.unread = c :: rest) : b.get = some (c :: rest) := by
  cases hb : b.get with
  | none =>
    rw [BoundedFileBuf.unread, hb] at hu
    exact absurd hu (by simp)
  | some bytes =>
    rw [BoundedFileBuf.unread, hb] at hu
    exact congrArg some hu

/-- A byte of the buffer is passed. -/
theorem Reads.bump (h : b.Reads r) {c : UInt8} {rest : Bytes} (hu : b.unread = c :: rest) :
    { b with get := b.get.map List.tail }.Reads { r with pos := r.pos + 1 } := by
  have hrest : { b with get := b.get.map List.tail }.unread = rest := by
    rw [BoundedFileBuf.unread, get_of_unread hu]
    rfl
  have hc := h.consumed
  rw [hu, List.length_cons] at hc
  refine ⟨h.data, h.limit, ?_, h.remaining, ?_, h.file⟩
  · rw [hrest]
    dsimp only
    omega
  · obtain ⟨tail, htail⟩ := h.unread
    rw [hrest]
    refine ⟨tail, ?_⟩
    rw [← List.drop_drop, ← htail, hu]
    rfl

theorem underflow_of_unread {c : UInt8} {rest : Bytes} (hu : b.unread = c :: rest) : b.underflow = (some c, b) := by
  rw [underflow, get_of_unread hu]

/-- The get area is filled from the file. -/
def fill (b : BoundedFileBuf) (got : Bytes) (file : FileStream) : BoundedFileBuf :=
  { b with file := file, remaining := b.remaining - Int64.ofNat got.length, get := some got }

theorem underflow_of_nil (hu : b.unread = []) :
    b.underflow = if b.remaining ≤ 0 then (none, b)
      else
        let read := b.file.read b.want.toInt.toNat
        if read.1 = [] then (none, { b with file := read.2 }) else (read.1.head?, b.fill read.1 read.2) := by
  have hempty : ∀ c rest, b.get ≠ some (c :: rest) := by
    intro c rest hget
    rw [BoundedFileBuf.unread, hget] at hu
    exact absurd hu (by simp)
  unfold underflow
  split
  · rename_i c rest hget
    exact absurd hget (hempty c rest)
  · split
    · rfl
    · dsimp only
      split
      · rename_i hgot
        rw [hgot, if_pos rfl]
      · rename_i c rest hgot
        rw [hgot, if_neg (List.cons_ne_nil c rest)]
        rfl

/-- At least a byte is asked for, and no more than remains. -/
theorem want_spec (h : 0 < b.remaining.toInt) : 0 < b.want.toInt ∧ b.want.toInt ≤ b.remaining.toInt := by
  have hsize : bufferSize.toInt = 65536 := by decide
  unfold want
  split
  · omega
  · rename_i hle
    rw [Int64.lt_iff_toInt_lt] at hle
    omega

/-- A read at the reader's position: bytes of the file, and none only at its end. -/
theorem Reads.read_file (h : b.Reads r) (hu : b.unread = []) (n : Nat) (hn : 0 < n) :
    (b.file.read n).1.length ≤ n ∧ (b.file.read n).1 <+: b.file.content.drop r.pos ∧
      ((b.file.read n).1 = [] → b.file.content.length ≤ r.pos) ∧
      (b.file.read n).2.content = b.file.content ∧
      (if (b.file.read n).2.good then (b.file.read n).2.pos = r.pos + (b.file.read n).1.length
        else b.file.content.length ≤ r.pos + (b.file.read n).1.length) := by
  have hpos := h.pos_eq hu
  have hfile := h.file
  rw [← hpos] at hfile
  unfold FileStream.read
  cases hgood : b.file.good with
  | false =>
    rw [hgood] at hfile
    have hend : b.file.content.length ≤ r.pos := Int.ofNat_le.1 hfile
    rw [if_neg (by simp)]
    dsimp only
    rw [hgood]
    exact ⟨Nat.zero_le n, List.nil_prefix, fun _ => hend, rfl, hend⟩
  | true =>
    rw [hgood] at hfile
    have hat : b.file.pos = r.pos := Int.ofNat.inj hfile
    rw [if_pos rfl, hat]
    refine ⟨List.length_take_le _ _, List.take_prefix _ _, fun hnil => ?_, rfl, ?_⟩
    · have hlen := congrArg List.length hnil
      rw [List.length_take, List.length_drop, List.length_nil] at hlen
      omega
    · split
      · rfl
      · rename_i hshort
        rw [decide_eq_true_eq, List.length_take, List.length_drop] at hshort
        rw [List.length_take, List.length_drop]
        omega

theorem Reads.underflow_spec (h : b.Reads r) : b.underflow.1 = r.data[r.pos]? ∧ b.underflow.2.Reads r ∧
    ∀ c, b.underflow.1 = some c → ∃ rest, b.underflow.2.unread = c :: rest := by
  cases hu : b.unread with
  | cons c rest =>
    rw [underflow_of_unread hu, h.next hu]
    refine ⟨rfl, h, fun c' hc' => ⟨rest, ?_⟩⟩
    rw [← Option.some.inj hc', hu]
  | nil =>
    rw [underflow_of_nil hu]
    split
    · rename_i hrem
      rw [Int64.le_iff_toInt_le] at hrem
      rw [h.end_of_nil hu hrem]
      exact ⟨rfl, h, fun c hc => absurd hc (by simp)⟩
    · rename_i hrem
      rw [Int64.le_iff_toInt_le] at hrem
      have hzero : (0 : Int64).toInt = 0 := by decide
      have hleft : 0 < b.remaining.toInt := by omega
      obtain ⟨hwant, hle⟩ := want_spec hleft
      obtain ⟨hlen, hprefix, hnil, hcontent, hfile⟩ := h.read_file hu b.want.toInt.toNat (by omega)
      have hpos := h.pos_eq hu
      have hdata := h.data
      dsimp only
      generalize b.file.read b.want.toInt.toNat = read at *
      split
      · -- the file is shorter than the limit
        rename_i hread
        have hend := hnil hread
        have hnone : r.data[r.pos]? = none := by
          rw [hdata, List.getElem?_eq_none_iff, List.length_take]
          omega
        refine ⟨hnone.symm, ⟨?_, h.limit, h.consumed, h.remaining, ?_, ?_⟩, fun c hc => absurd hc (by simp)⟩
        · rw [hcontent]
          exact hdata
        · exact hu ▸ List.nil_prefix
        · rw [hread, List.length_nil, Nat.add_zero] at hfile
          dsimp only
          rw [hcontent]
          split
          · rename_i hgood
            rw [if_pos hgood] at hfile
            omega
          · rename_i hgood
            rw [if_neg hgood] at hfile
            omega
      · rename_i hread
        have hgot : 0 < read.1.length := List.length_pos_iff.2 hread
        have hsub : (b.remaining - Int64.ofNat read.1.length).toInt = b.remaining.toInt - read.1.length := by
          have hlt := b.remaining.toInt_lt
          rw [Int64.toInt_sub, Int64.toInt_ofNat_of_lt (by omega), toInt_bmod _ (by omega)]
        have hfilled : (b.fill read.1 read.2).Reads r := by
          refine ⟨?_, h.limit, ?_, .inl ?_, ?_, ?_⟩
          · rw [fill, hcontent]
            exact hdata
          · simp only [fill, BoundedFileBuf.unread, Option.getD_some, hsub]
            omega
          · simp only [fill, hsub]
            omega
          · simp only [fill, BoundedFileBuf.unread, Option.getD_some, hcontent]
            exact hprefix
          · simp only [fill, hsub, hcontent]
            split
            · rename_i hgood
              rw [if_pos hgood] at hfile
              omega
            · rename_i hgood
              rw [if_neg hgood] at hfile
              omega
        have hunread : (b.fill read.1 read.2).unread = read.1 := rfl
        cases hcons : read.1 with
        | nil => exact absurd hcons hread
        | cons c rest =>
          rw [hcons] at hfilled hunread
          rw [hfilled.next hunread]
          exact ⟨rfl, hfilled, fun c' hc' => ⟨rest, by rw [hunread, ← Option.some.inj hc']⟩⟩

theorem Reads.sbumpc_spec (h : b.Reads r) : b.sbumpc.1 = r.data[r.pos]? ∧
    b.sbumpc.2.Reads (if r.data[r.pos]?.isSome then { r with pos := r.pos + 1 } else r) := by
  obtain ⟨hbyte, hreads, hget⟩ := h.underflow_spec
  unfold sbumpc
  rw [← hbyte]
  cases hunder : b.underflow with
  | mk byte b' =>
    rw [hunder] at hreads hget
    cases byte with
    | none => exact ⟨rfl, hreads⟩
    | some c =>
      obtain ⟨rest, hu⟩ := hget c rfl
      exact ⟨rfl, hreads.bump hu⟩

theorem Reads.sgetn_spec (n : Nat) (h : b.Reads r) :
    (b.sgetn n).1 = (r.read n).1 ∧ (b.sgetn n).2.Reads (r.read n).2 := by
  induction n generalizing b r with
  | zero => exact ⟨by simp [sgetn, Reader.read], by simpa [sgetn, Reader.read] using h⟩
  | succ n ih =>
    obtain ⟨hbyte, hreads⟩ := h.sbumpc_spec
    rw [sgetn]
    cases hbump : b.sbumpc with
    | mk byte b' =>
      rw [hbump] at hbyte hreads
      rw [← hbyte] at hreads
      cases byte with
      | none =>
        rw [Reader.read_end (n + 1) hbyte.symm]
        exact ⟨rfl, hreads⟩
      | some c =>
        obtain ⟨hdata, hnext⟩ := ih hreads
        rw [Reader.read_succ n hbyte.symm]
        exact ⟨congrArg (c :: ·) hdata, hnext⟩

/-- `tell` is the one position. -/
theorem Reads.current_spec (h : b.Reads r) : b.current.toInt = r.pos := by
  have hc := h.consumed
  have hlimit := b.limit.toInt_lt
  have hrem := h.remaining
  have hremaining := b.remaining.le_toInt
  have hconsumed : (b.limit - b.remaining).toInt = b.limit.toInt - b.remaining.toInt := by
    rw [Int64.toInt_sub, toInt_bmod]
    rcases hrem with hrem | hrem
    · omega
    · rw [hrem]
      omega
  have hunread : (match b.get with | some bytes => Int64.ofNat bytes.length | none => 0) =
      Int64.ofNat b.unread.length := by
    rw [BoundedFileBuf.unread]
    cases b.get <;> rfl
  have hle : b.limit.toInt - b.remaining.toInt < 2 ^ 63 := by
    rcases hrem with hrem | hrem
    · omega
    · rw [hrem]
      omega
  unfold current
  rw [hunread, Int64.toInt_sub, hconsumed, Int64.toInt_ofNat_of_lt (by omega), toInt_bmod _ (by omega)]
  omega

/-- A target that is out of range in `int64_t` is out of `[0, limit]`, and so is what it wraps to. -/
theorem Reads.target_spec (h : b.Reads r) {target : Int64} {t : Int} (ht : target.toInt = t.bmod (2 ^ 64))
    (hrange : -2 ^ 63 ≤ t ∧ t < 2 ^ 64 ∨ b.limit.toInt < 0) :
    (target < 0 ∨ target > b.limit) ∧ ¬ (0 ≤ t ∧ t ≤ r.limit) ∨
      ¬ (target < 0 ∨ target > b.limit) ∧ (0 ≤ t ∧ t ≤ r.limit) ∧ target.toInt = t := by
  have hlimit := b.limit.toInt_lt
  have hzero : (0 : Int64).toInt = 0 := by decide
  rw [h.limit, gt_iff_lt, Int64.lt_iff_toInt_lt, Int64.lt_iff_toInt_lt, hzero]
  by_cases hin : 0 ≤ t ∧ t ≤ b.limit.toInt
  · rw [toInt_bmod t (by omega)] at ht
    exact .inr ⟨by omega, hin, ht⟩
  · refine .inl ⟨?_, hin⟩
    rcases hrange with hrange | hneg
    · by_cases hsmall : t < 2 ^ 63
      · rw [toInt_bmod t (by omega)] at ht
        omega
      · -- it wraps
        have hwrap : t.bmod (2 ^ 64) = t - (2 ^ 64 : Nat) :=
          (Int.sub_bmod_right t (2 ^ 64)).symm.trans (toInt_bmod _ (by omega))
        omega
    · omega

theorem Reads.target_eq (h : b.Reads r) (off : Int64) (dir : SeekDir) :
    (b.target off dir).toInt = (r.base dir + off.toInt).bmod (2 ^ 64) ∧
      (-2 ^ 63 ≤ r.base dir + off.toInt ∧ r.base dir + off.toInt < 2 ^ 64 ∨ b.limit.toInt < 0) := by
  have hcurrent := h.current_spec
  have hc := b.current.toInt_lt
  have hlimit := b.limit.toInt_lt
  have hoff := off.toInt_lt
  have hoff' := off.le_toInt
  cases dir with
  | beg =>
    rw [target, Reader.base, Int.zero_add, toInt_bmod _ (by omega)]
    exact ⟨rfl, .inl (by omega)⟩
  | cur =>
    rw [target, Reader.base, Int64.toInt_add, hcurrent]
    exact ⟨rfl, .inl (by omega)⟩
  | «end» =>
    rw [target, Reader.base, Int64.toInt_add, h.limit]
    exact ⟨rfl, by omega⟩

/-- A seek, where its target is the reader's. -/
theorem Reads.seekoff_spec (h : b.Reads r) (off : Int64) (dir : SeekDir) (inMode : Bool) :
    (b.seekoff off dir inMode).1.toInt = (r.seekIn (r.base dir + off.toInt) inMode).1 ∧
      (b.seekoff off dir inMode).2.Reads (r.seekIn (r.base dir + off.toInt) inMode).2 := by
  cases inMode with
  | false => exact ⟨rfl, h⟩
  | true =>
    obtain ⟨htarget, hrange⟩ := h.target_eq off dir
    rw [Reader.seekIn, if_pos rfl, Reader.seek, seekoff, if_neg (by simp)]
    rcases h.target_spec htarget hrange with ⟨hout, hnot⟩ | ⟨hin, hinside, heq⟩
    · rw [if_pos hout, if_neg hnot]
      exact ⟨rfl, h⟩
    · rw [if_neg hin, if_pos hinside]
      have hlimit := b.limit.toInt_lt
      have hle := h.limit ▸ hinside.2
      have hremaining : (b.limit - b.target off dir).toInt = b.limit.toInt - (b.target off dir).toInt := by
        rw [Int64.toInt_sub, toInt_bmod _ (by omega)]
      refine ⟨heq, h.data, h.limit, ?_, .inl ?_, List.nil_prefix, ?_⟩
      · dsimp only [BoundedFileBuf.unread]
        rw [hremaining, Option.getD_none, List.length_nil]
        omega
      · dsimp only
        rw [hremaining]
        omega
      · rw [FileStream.clearSeek, if_pos rfl]
        dsimp only
        rw [hremaining]
        omega

theorem Reads.step (h : b.Reads r) (c : StreamCommand) :
    (b.step c).1 = (r.step c).1 ∧ (b.step c).2.Reads (r.step c).2 := by
  cases c with
  | read n =>
    obtain ⟨hdata, hnext⟩ := h.sgetn_spec n
    exact ⟨congrArg StreamAnswer.bytes hdata, hnext⟩
  | seekoff off dir inMode =>
    obtain ⟨hoffset, hnext⟩ := h.seekoff_spec off dir inMode
    exact ⟨congrArg StreamAnswer.offset hoffset, hnext⟩
  | seekpos pos inMode =>
    obtain ⟨hoffset, hnext⟩ := h.seekoff_spec pos .beg inMode
    rw [Reader.base, Int.zero_add] at hoffset hnext
    exact ⟨congrArg StreamAnswer.offset hoffset, hnext⟩

/-- A seek out of range leaves everything where it is. -/
theorem Reads.seek_out (h : b.Reads r) (off : Int64) (dir : SeekDir) (inMode : Bool)
    (hout : ¬ (0 ≤ r.base dir + off.toInt ∧ r.base dir + off.toInt ≤ r.limit)) :
    b.seekoff off dir inMode = (-1, b) := by
  cases inMode with
  | false => rfl
  | true =>
    obtain ⟨htarget, hrange⟩ := h.target_eq off dir
    rcases h.target_spec htarget hrange with ⟨hfails, -⟩ | ⟨-, hin, -⟩
    · rw [BoundedFileBuf.seekoff, if_neg (by simp)]
      exact if_pos hfails
    · exact absurd hin hout

theorem Reads.pos_le (h : b.Reads r) (hlimit : 0 ≤ r.limit) : (r.pos : Int) ≤ r.limit := by
  have hc := h.consumed
  have hrem := h.remaining
  rw [h.limit] at hlimit ⊢
  rcases hrem with hrem | hrem
  · omega
  · rw [hrem] at hc
    omega

/-- No addition overflows for a limit and an offset below 2^62. -/
theorem Reads.target_exact (h : b.Reads r) {off : Int64} (dir : SeekDir) (hlimit : 0 ≤ r.limit ∧ r.limit ≤ 2 ^ 62)
    (hoff : -2 ^ 62 < off.toInt ∧ off.toInt < 2 ^ 62) : (b.target off dir).toInt = r.base dir + off.toInt := by
  have hle := h.pos_le hlimit.1
  rw [(h.target_eq off dir).1]
  cases dir with
  | beg => exact toInt_bmod _ (by rw [Reader.base]; omega)
  | cur => exact toInt_bmod _ (by rw [Reader.base]; omega)
  | «end» => exact toInt_bmod _ (by rw [Reader.base]; omega)

/-- `tell`, which moves nothing. -/
theorem Reads.tell (h : b.Reads r) (hlimit : 0 ≤ r.limit) : (b.seekoff 0 .cur true).1.toInt = r.pos := by
  have hzero : r.base .cur + (0 : Int64).toInt = r.pos := Int.add_zero _
  rw [(h.seekoff_spec 0 .cur true).1, hzero, Reader.seekIn, if_pos rfl, Reader.seek,
    if_pos ⟨Int.natCast_nonneg r.pos, h.pos_le hlimit⟩]

/-- A rewind reads the same bytes as the first time. -/
theorem Reads.rewind (h : b.Reads r) (hlimit : 0 ≤ r.limit) (n : Nat) :
    ((b.seekpos 0 true).2.sgetn n).1 = r.data.take n := by
  obtain ⟨-, hnext⟩ := h.seekoff_spec 0 .beg true
  have hzero : r.base .beg + (0 : Int64).toInt = 0 := rfl
  rw [hzero, Reader.seekIn, if_pos rfl, Reader.seek, if_pos ⟨le_rfl, hlimit⟩] at hnext
  exact (hnext.sgetn_spec n).1

end BoundedFileBuf

open Lib.Machine (outputs after)

theorem Reader.step_keeps (r : Reader) (c : StreamCommand) :
    (r.step c).2.data = r.data ∧ (r.step c).2.limit = r.limit := by
  have hseek : ∀ target inMode, (r.seekIn target inMode).2.data = r.data ∧ (r.seekIn target inMode).2.limit = r.limit := by
    intro target inMode
    unfold Reader.seekIn Reader.seek
    split
    · split
      · exact ⟨rfl, rfl⟩
      · exact ⟨rfl, rfl⟩
    · exact ⟨rfl, rfl⟩
  cases c with
  | read n => exact ⟨rfl, rfl⟩
  | seekoff off dir inMode => exact hseek _ _
  | seekpos pos inMode => exact hseek _ _

theorem Reader.after_keeps (commands : List StreamCommand) (r : Reader) :
    (after Reader.step commands r).data = r.data ∧ (after Reader.step commands r).limit = r.limit := by
  induction commands generalizing r with
  | nil => exact ⟨rfl, rfl⟩
  | cons c commands ih =>
    obtain ⟨hdata, hlimit⟩ := ih (r.step c).2
    exact ⟨hdata.trans (r.step_keeps c).1, hlimit.trans (r.step_keeps c).2⟩

/-- The buffer as a reader at `pos` of the file's first `limit` bytes. -/
structure BoundedFileBuf.ReadsFrom (content : Bytes) (limit : Int64) (pos : Nat) (b : BoundedFileBuf) : Prop where
  /-- `tell` -/
  tell : 0 ≤ limit.toInt → (b.seekoff 0 .cur true).1.toInt = pos
  read : ∀ n, (b.sgetn n).1 = ((content.take limit.toInt.toNat).drop pos).take n
  seekOut : ∀ (off : Int64) (dir : SeekDir) (inMode : Bool) (target : Int),
    target = Reader.base ⟨content.take limit.toInt.toNat, limit.toInt, pos⟩ dir + off.toInt →
    ¬ (0 ≤ target ∧ target ≤ limit.toInt) → b.seekoff off dir inMode = (-1, b)
  rewind : 0 ≤ limit.toInt → ∀ n, ((b.seekpos 0 true).2.sgetn n).1 = (content.take limit.toInt.toNat).take n

/-- **Under any reads and seeks the buffer is a reader of the file's first `limit` bytes**: it answers as the reader with
one position does, and wherever the commands lead, that position is what `tell` reports and where the next read starts, a
seek out of `[0, limit]` changes nothing, and a rewind reads the same bytes again. -/
theorem bounded_file_reads (content : Bytes) (limit : Int64) (commands : List StreamCommand) :
    outputs BoundedFileBuf.step commands (.open content limit) =
      outputs Reader.step commands (.ofFile content limit.toInt) ∧
    (after BoundedFileBuf.step commands (.open content limit)).ReadsFrom content limit
      (after Reader.step commands (.ofFile content limit.toInt)).pos := by
  have hstart := open_reads content limit
  refine ⟨Lib.Machine.outputs_eq BoundedFileBuf.Reads (fun _ _ c h => h.step c) commands _ _ hstart, ?_⟩
  have hreads := Lib.Machine.after_related BoundedFileBuf.Reads (fun _ _ c h => (h.step c).2) commands _ _ hstart
  obtain ⟨hdata, hlimit⟩ := Reader.after_keeps commands (.ofFile content limit.toInt)
  generalize after Reader.step commands (.ofFile content limit.toInt) = r at hreads hdata hlimit
  obtain ⟨data, rlimit, pos⟩ := r
  obtain rfl : data = content.take limit.toInt.toNat := hdata
  obtain rfl : rlimit = limit.toInt := hlimit
  refine ⟨fun hnonneg => hreads.tell hnonneg, fun n => (hreads.sgetn_spec n).1, fun off dir inMode target ht hout => ?_,
    fun hnonneg n => hreads.rewind hnonneg n⟩
  subst ht
  exact hreads.seek_out off dir inMode hout

end Mito
