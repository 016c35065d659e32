import Mathlib.Tactic
import Mathlib.Data.BitVec
/-!
# Crc — a cyclic redundancy check, bit by bit

A reflected register of `w` bits takes the bits of a message in turn: it moves down one place, and where the bit that
falls out differs from the message's, the polynomial is added (`takeBit`).  The step is linear, and the polynomial's
leading bit stands, so a difference never goes out by itself (`feed_ne`), and one that came in within `w` bits cannot be
taken back within them (`burst_ne`): two messages that differ in a burst of at most `w` bits have different checks.
CRC-32 of bytes is such a register of 32 bits (`crc32_toBitVec`), so an edit of at most four consecutive bytes changes it
(`crc32_burst`).
-/
namespace Lib

variable {w : Nat} {p c d : BitVec w}

/-- The register after one bit of the message. -/
def takeBit (p c : BitVec w) (b : Bool) : BitVec w := if c.getLsbD 0 ^^ b then (c >>> 1) ^^^ p else c >>> 1

/-- The register after a message. -/
def feed (p c : BitVec w) (message : List Bool) : BitVec w := message.foldl (takeBit p) c

@[simp] theorem feed_nil (p c : BitVec w) : feed p c [] = c := rfl

@[simp] theorem feed_cons (p c : BitVec w) (b : Bool) (message : List Bool) :
    feed p c (b :: message) = feed p (takeBit p c b) message := rfl

theorem feed_append (p c : BitVec w) (m n : List Bool) : feed p c (m ++ n) = feed p (feed p c m) n :=
  List.foldl_append

/-! ## Differences -/

/-- **The step is linear.** -/
theorem takeBit_xor (p c d : BitVec w) (a b : Bool) :
    takeBit p c a ^^^ takeBit p d b = takeBit p (c ^^^ d) (a ^^ b) := by
  have hcancel : ∀ x y : BitVec w, x ^^^ p ^^^ (y ^^^ p) = x ^^^ y := by
    intro x y
    rw [BitVec.xor_assoc, ← BitVec.xor_assoc p y p, BitVec.xor_comm p y, BitVec.xor_assoc y p p, BitVec.xor_self,
      BitVec.xor_zero]
  unfold takeBit
  rw [BitVec.getLsbD_xor, BitVec.ushiftRight_xor_distrib]
  cases c.getLsbD 0 <;> cases d.getLsbD 0 <;> cases a <;> cases b <;> simp [hcancel] <;> ac_rfl

/-- A message's bits may be added to the register beforehand. -/
theorem takeBit_xor_message (p c m : BitVec w) :
    takeBit p (c ^^^ m) false = takeBit p c (m.getLsbD 0) ^^^ (m >>> 1) := by
  unfold takeBit
  rw [BitVec.getLsbD_xor, BitVec.ushiftRight_xor_distrib]
  cases c.getLsbD 0 <;> cases m.getLsbD 0 <;> simp <;> ac_rfl

theorem iterate_takeBit (p c m : BitVec w) : ∀ n,
    (fun x => takeBit p x false)^[n] (c ^^^ m) = feed p c ((List.range n).map m.getLsbD) ^^^ (m >>> n)
  | 0 => by simp
  | n + 1 => by
    rw [Function.iterate_succ_apply', iterate_takeBit p c m n, takeBit_xor_message, List.range_succ, List.map_append,
      feed_append, BitVec.getLsbD_ushiftRight, Nat.add_zero, ← BitVec.shiftRight_add]
    rfl

/-- A register that is not 0 stays so where its leading bit allows: the bit that falls out brings the polynomial's
leading bit in. -/
theorem le_takeBit (hp : p.msb = true) {n : Nat} (hd : 2 ^ (n + 1) ≤ d.toNat) (b : Bool) :
    2 ^ n ≤ (takeBit p d b).toNat := by
  have hw : n + 1 < w := by
    by_contra h
    have hlt := d.isLt
    have hle : 2 ^ w ≤ 2 ^ (n + 1) := Nat.pow_le_pow_right (by decide) (by omega)
    omega
  unfold takeBit
  split
  · have hmsb : ((d >>> 1) ^^^ p).msb = true := by
      rw [BitVec.msb_xor, hp, BitVec.msb_ushiftRight]
      simp
    have hlarge := BitVec.toNat_ge_of_msb_true hmsb
    have hle : 2 ^ n ≤ 2 ^ (w - 1) := Nat.pow_le_pow_right (by decide) (by omega)
    omega
  · rw [BitVec.toNat_ushiftRight, Nat.shiftRight_one, Nat.le_div_iff_mul_le (by decide)]
    omega

/-- **Bits to come cannot undo a difference that stands high enough.** -/
theorem feed_ne_of_lead (hp : p.msb = true) : ∀ (x y : List Bool) (c d : BitVec w) (n : Nat),
    2 ^ n ≤ (c ^^^ d).toNat → x.length ≤ n → x.length = y.length → feed p c x ≠ feed p d y
  | [], [], c, d, n, hlead, _, _ => by
    rintro rfl
    rw [feed_nil, BitVec.xor_self, BitVec.toNat_ofNat, Nat.zero_mod] at hlead
    exact absurd hlead (Nat.not_le.2 (Nat.two_pow_pos n))
  | a :: x, b :: y, c, d, n + 1, hlead, hn, hlen => by
    have hstep := le_takeBit hp hlead (a ^^ b)
    rw [← takeBit_xor] at hstep
    exact feed_ne_of_lead hp x y _ _ n hstep (Nat.le_of_succ_le_succ hn) (Nat.succ.inj hlen)

/-- **A difference does not go out by itself.** -/
theorem takeBit_ne (hp : p.msb = true) (hcd : c ≠ d) (b : Bool) : takeBit p c b ≠ takeBit p d b := by
  intro h
  have hzero : takeBit p (c ^^^ d) false = 0#w := by
    have hxor := takeBit_xor p c d b b
    rwa [h, BitVec.xor_self, Bool.xor_self, eq_comm] at hxor
  have hne : c ^^^ d ≠ 0#w := fun h0 => hcd (BitVec.xor_eq_zero_iff.1 h0)
  unfold takeBit at hzero
  split at hzero
  · have hmsb := congrArg BitVec.msb hzero
    rw [BitVec.msb_xor, hp, BitVec.msb_ushiftRight] at hmsb
    simp at hmsb
  · rename_i hlow
    rw [Bool.xor_false, Bool.not_eq_true] at hlow
    refine hne (BitVec.eq_of_getLsbD_eq fun i hi => ?_)
    rw [BitVec.getLsbD_zero]
    cases i with
    | zero => exact hlow
    | succ i =>
      have hbit := congrArg (fun x => x.getLsbD i) hzero
      simpa [BitVec.getLsbD_ushiftRight, Nat.add_comm] using hbit

theorem feed_ne (hp : p.msb = true) : ∀ (m : List Bool) {c d : BitVec w}, c ≠ d → feed p c m ≠ feed p d m
  | [], _, _, h => h
  | b :: m, _, _, h => feed_ne hp m (takeBit_ne hp h b)

/-! ## Bursts -/

/-- Two ways to go on for at most `w` bits lead apart. -/
theorem window_ne (hp : p.msb = true) : ∀ (x y : List Bool) (c : BitVec w),
    x.length ≤ w → x.length = y.length → x ≠ y → feed p c x ≠ feed p c y
  | [], [], _, _, _, hxy => absurd rfl hxy
  | a :: x, b :: y, c, hw, hlen, hxy => by
    have hlen' : x.length = y.length := Nat.succ.inj hlen
    by_cases hab : a = b
    · subst hab
      exact window_ne hp x y _ (Nat.le_of_succ_le hw) hlen' (fun h => hxy (by rw [h]))
    · have hlead : takeBit p c a ^^^ takeBit p c b = p := by
        have hone : (a ^^ b) = true := by simpa using hab
        rw [takeBit_xor, BitVec.xor_self, hone]
        simp [takeBit]
      refine feed_ne_of_lead hp x y _ _ (w - 1) ?_ (Nat.le_sub_one_of_lt hw) hlen'
      rw [hlead]
      exact BitVec.toNat_ge_of_msb_true hp

/-- **A burst is always seen**: two messages that differ within `w` bits, and nowhere else, leave different registers. -/
theorem burst_ne (hp : p.msb = true) (c : BitVec w) (before after : List Bool) {x y : List Bool} (hw : x.length ≤ w)
    (hlen : x.length = y.length) (hxy : x ≠ y) :
    feed p c (before ++ x ++ after) ≠ feed p c (before ++ y ++ after) := by
  simp only [feed_append]
  exact feed_ne hp after (window_ne hp x y _ hw hlen hxy)

/-! ## CRC-32 of bytes -/

def crc32Polynomial : BitVec 32 := 0xEDB88320#32

/-- The bits of a byte, the lowest first. -/
def byteBits (b : UInt8) : List Bool := (List.range 8).map (b.toBitVec.setWidth 32).getLsbD

def dataBits (data : List UInt8) : List Bool := data.flatMap byteBits

@[simp] theorem length_byteBits (b : UInt8) : (byteBits b).length = 8 := by
  unfold byteBits
  rw [List.length_map, List.length_range]

theorem length_dataBits (data : List UInt8) : (dataBits data).length = 8 * data.length := by
  induction data with
  | nil => rfl
  | cons b data ih =>
    rw [dataBits, List.flatMap_cons, List.length_append, length_byteBits, List.length_cons]
    rw [dataBits] at ih
    omega

theorem byteBits_inj {a b : UInt8} (h : byteBits a = byteBits b) : a = b := by
  refine UInt8.toBitVec_inj.1 (BitVec.eq_of_getLsbD_eq fun i hi => ?_)
  have hbit := congrArg (fun l : List Bool => l[i]?) h
  unfold byteBits at hbit
  simp only [List.getElem?_map, List.getElem?_range hi, Option.map_some, Option.some.injEq, BitVec.getLsbD_setWidth] at hbit
  simpa [show i < 32 by omega] using hbit

theorem dataBits_inj : ∀ {x y : List UInt8}, x.length = y.length → dataBits x = dataBits y → x = y
  | [], [], _, _ => rfl
  | a :: x, b :: y, hlen, h => by
    obtain ⟨hhead, htail⟩ := List.append_inj h (by rw [length_byteBits, length_byteBits])
    rw [byteBits_inj hhead, dataBits_inj (Nat.succ.inj hlen) htail]

/-- One byte of the reflected polynomial. -/
def crc32Byte (crc : UInt32) (b : UInt8) : UInt32 :=
  (List.range 8).foldl (fun c _ => if c &&& 1 = 1 then (c >>> 1) ^^^ 0xEDB88320 else c >>> 1) (crc ^^^ b.toUInt32)

/-- The checksum, gone on with from a running value. -/
def crc32From (crc : UInt32) (data : List UInt8) : UInt32 := ~~~ (data.foldl crc32Byte (~~~ crc))

abbrev crc32 (data : List UInt8) : UInt32 := crc32From 0 data

/-- The check value of the polynomial. -/
example : crc32 [0x31, 0x32, 0x33, 0x34, 0x35, 0x36, 0x37, 0x38, 0x39] = 0xCBF43926 := by decide +kernel

theorem crc32From_nil (crc : UInt32) : crc32From crc [] = crc := by
  unfold crc32From
  rw [List.foldl_nil, UInt32.not_not]

/-- **Checksumming two pieces in turn is checksumming both at once.** -/
theorem crc32From_append (crc : UInt32) (a b : List UInt8) :
    crc32From (crc32From crc a) b = crc32From crc (a ++ b) := by
  unfold crc32From
  rw [UInt32.not_not, List.foldl_append]

theorem crc32Step_toBitVec (c : UInt32) :
    (if c &&& 1 = 1 then (c >>> 1) ^^^ 0xEDB88320 else c >>> 1).toBitVec = takeBit crc32Polynomial c.toBitVec false := by
  have hlow : c &&& 1 = 1 ↔ c.toBitVec.getLsbD 0 = true := by
    rw [← UInt32.toNat_inj, UInt32.toNat_and, BitVec.getLsbD, Nat.testBit_zero, decide_eq_true_eq]
    exact (Nat.and_one_is_mod _).congr_left
  unfold takeBit
  rw [Bool.xor_false]
  by_cases h : c &&& 1 = 1
  · rw [if_pos h, if_pos (hlow.1 h)]
    rfl
  · rw [if_neg h, if_neg (fun hb => h (hlow.2 hb))]
    rfl

theorem crc32Byte_toBitVec (crc : UInt32) (b : UInt8) :
    (crc32Byte crc b).toBitVec = feed crc32Polynomial crc.toBitVec (byteBits b) := by
  have hfold : ∀ n (x : UInt32), ((List.range n).foldl
      (fun (c : UInt32) _ => if c &&& 1 = 1 then (c >>> 1) ^^^ 0xEDB88320 else c >>> 1) x).toBitVec =
        (fun y => takeBit crc32Polynomial y false)^[n] x.toBitVec := by
    intro n x
    induction n with
    | zero => rfl
    | succ n ih =>
      rw [List.range_succ, List.foldl_append, List.foldl_cons, List.foldl_nil, crc32Step_toBitVec, ih,
        Function.iterate_succ_apply']
  have hbyte : b.toUInt32.toBitVec = b.toBitVec.setWidth 32 := rfl
  have hshift : b.toBitVec.setWidth 32 >>> 8 = 0#32 := by
    refine BitVec.eq_of_getLsbD_eq fun i _ => ?_
    rw [BitVec.getLsbD_ushiftRight, BitVec.getLsbD_setWidth, BitVec.getLsbD_of_ge _ _ (by omega)]
    simp
  unfold crc32Byte
  rw [hfold, UInt32.toBitVec_xor, hbyte, iterate_takeBit, hshift, BitVec.xor_zero]
  rfl

/-- **The checksum is the register's complement**, started from all ones. -/
theorem crc32_toBitVec (data : List UInt8) :
    (crc32 data).toBitVec = ~~~ feed crc32Polynomial (BitVec.allOnes 32) (dataBits data) := by
  have hfold : ∀ (data : List UInt8) (crc : UInt32),
      (data.foldl crc32Byte crc).toBitVec = feed crc32Polynomial crc.toBitVec (dataBits data) := by
    intro data
    induction data with
    | nil => intro crc; rfl
    | cons b data ih =>
      intro crc
      rw [List.foldl_cons, ih, crc32Byte_toBitVec, ← feed_append]
      rfl
  unfold crc32 crc32From
  rw [UInt32.toBitVec_not, hfold]
  rfl

/-! ## Bursts of bytes -/

/-- Two contents of one length that differ within `n` consecutive bytes at most. -/
def Burst (n : Nat) (x y : List UInt8) : Prop :=
  x.length = y.length ∧ ∃ p, ∀ j : Nat, x[j]? ≠ y[j]? → p ≤ j ∧ j < p + n

theorem Burst.split {n : Nat} {x y : List UInt8} (h : Burst n x y) : ∃ before u v after, x = before ++ u ++ after ∧
    y = before ++ v ++ after ∧ u.length = v.length ∧ u.length ≤ n := by
  obtain ⟨hlen, p, hp⟩ := h
  have hsame : ∀ j, ¬ (p ≤ j ∧ j < p + n) → x[j]? = y[j]? := fun j hj => by
    by_contra hne
    exact hj (hp j hne)
  have hbefore : x.take p = y.take p := by
    refine List.ext_getElem? fun j => ?_
    rw [List.getElem?_take, List.getElem?_take]
    split
    · exact hsame j (by omega)
    · rfl
  have hafter : x.drop (p + n) = y.drop (p + n) := by
    refine List.ext_getElem? fun j => ?_
    rw [List.getElem?_drop, List.getElem?_drop]
    exact hsame _ (by omega)
  refine ⟨x.take p, (x.drop p).take n, (y.drop p).take n, x.drop (p + n), ?_, ?_, ?_, ?_⟩
  · rw [List.append_assoc, ← List.drop_drop, List.take_append_drop, List.take_append_drop]
  · rw [hbefore, hafter, List.append_assoc, ← List.drop_drop, List.take_append_drop, List.take_append_drop]
  · rw [List.length_take, List.length_take, List.length_drop, List.length_drop, hlen]
  · exact List.length_take_le _ _

/-- **An edit of at most four consecutive bytes changes the checksum.** -/
theorem crc32_burst {x y : List UInt8} (h : Burst 4 x y) : crc32 x = crc32 y ↔ x = y := by
  refine ⟨fun hcrc => ?_, fun h => by rw [h]⟩
  obtain ⟨before, u, v, after, rfl, rfl, hlen, hle⟩ := h.split
  have hbits := congrArg (fun c : UInt32 => ~~~ c.toBitVec) hcrc
  simp only [crc32_toBitVec, BitVec.not_not, dataBits, List.flatMap_append] at hbits
  by_contra hne
  have huv : u ≠ v := fun h => hne (by rw [h])
  have hbound : (dataBits u).length ≤ 32 := by
    rw [length_dataBits]
    omega
  have hsame : (dataBits u).length = (dataBits v).length := by rw [length_dataBits, length_dataBits, hlen]
  exact burst_ne (by decide) _ (dataBits before) (dataBits after) hbound hsame
    (fun h => huv (dataBits_inj hlen h)) hbits

end Lib
