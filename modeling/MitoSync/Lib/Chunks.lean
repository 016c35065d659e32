import Mathlib.Tactic
/-!
# Chunks — a content cut into fixed-size chunks, and written in place

`slice l a n` is the range of `n` from `a`; a content of length `n` has `numChunks k n` chunks of length `k`, the last
one shorter, which tile it (`flatten_chunks`).  `pwrite` writes in place, padding a gap past the end; a content whose
positions agree with a target's on a set keeps agreeing when the target's own bytes are written over it
(`agreesAt_pwrite`), which is what lets chunk writes be made in any order.
-/
namespace Lib

variable {α β : Type}

/-! ## Ranges -/

def slice (l : List α) (a n : Nat) : List α := (l.drop a).take n

theorem length_slice (l : List α) (a n : Nat) : (slice l a n).length = min n (l.length - a) := by
  unfold slice
  rw [List.length_take, List.length_drop]

theorem length_slice_of_le {l : List α} {a n : Nat} (h : a + n ≤ l.length) : (slice l a n).length = n := by
  rw [length_slice]
  omega

theorem getElem?_slice (l : List α) (a n j : Nat) : (slice l a n)[j]? = if j < n then l[a + j]? else none := by
  unfold slice
  rw [List.getElem?_take, List.getElem?_drop]

theorem slice_append_slice (l : List α) (a m n : Nat) : slice l a m ++ slice l (a + m) n = slice l a (m + n) := by
  unfold slice
  rw [List.take_add, List.drop_drop]

theorem slice_zero_length (l : List α) : slice l 0 l.length = l := by
  unfold slice
  rw [List.drop_zero, List.take_length]

/-! ## Chunks -/

/-- The number of chunks of length `k` of a content of length `n`, a rest counting as one. -/
def numChunks (k n : Nat) : Nat := (n + k - 1) / k

theorem lt_numChunks {k : Nat} (hk : 0 < k) {i n : Nat} : i < numChunks k n ↔ i * k < n := by
  unfold numChunks
  rw [Nat.lt_iff_add_one_le, Nat.le_div_iff_mul_le hk, Nat.add_mul]
  omega

/-- The quotient, and one more for a rest. -/
theorem numChunks_eq_div {k : Nat} (hk : 0 < k) (n : Nat) : numChunks k n = n / k + if n % k ≠ 0 then 1 else 0 := by
  have hd : n / k * k + n % k = n := Nat.div_add_mod' n k
  have hm : n % k < k := Nat.mod_lt n hk
  unfold numChunks
  split
  · have hsucc : (n / k + 1 + 1) * k = n / k * k + k + k := by rw [Nat.succ_mul, Nat.succ_mul]
    have hone : (n / k + 1) * k = n / k * k + k := Nat.succ_mul _ _
    exact Nat.div_eq_of_lt_le (by omega) (by omega)
  · rw [Nat.add_zero]
    have hsucc : (n / k + 1) * k = n / k * k + k := Nat.succ_mul _ _
    exact Nat.div_eq_of_lt_le (by omega) (by omega)

theorem numChunks_pos {k n : Nat} (hk : 0 < k) (hn : 0 < n) : 0 < numChunks k n :=
  (lt_numChunks hk).2 (by omega)

theorem le_numChunks_mul {k : Nat} (hk : 0 < k) (n : Nat) : n ≤ numChunks k n * k := by
  by_contra h
  exact absurd ((lt_numChunks hk).2 (Nat.lt_of_not_le h)) (Nat.lt_irrefl _)

/-- The length of chunk `i` of a content of length `n`: `k`, or what is left for the last one. -/
def chunkLen (k n i : Nat) : Nat := min (i * k + k) n - i * k

theorem chunkLen_le (k n i : Nat) : chunkLen k n i ≤ k := by
  unfold chunkLen
  omega

theorem chunkLen_pos {k n i : Nat} (hk : 0 < k) (h : i * k < n) : 0 < chunkLen k n i := by
  unfold chunkLen
  omega

theorem chunk_end {k n i : Nat} (h : i * k < n) : i * k + chunkLen k n i = min (i * k + k) n := by
  unfold chunkLen
  omega

def chunk (k : Nat) (l : List α) (i : Nat) : List α := slice l (i * k) (chunkLen k l.length i)

theorem length_chunk {k : Nat} {l : List α} {i : Nat} (h : i * k < l.length) :
    (chunk k l i).length = chunkLen k l.length i := by
  unfold chunk chunkLen
  rw [length_slice_of_le (by omega)]

theorem getElem?_chunk {k : Nat} {l : List α} {i j : Nat} (h : j < chunkLen k l.length i) :
    (chunk k l i)[j]? = l[i * k + j]? := by
  unfold chunk
  rw [getElem?_slice, if_pos h]

def chunks (k : Nat) (l : List α) : List (List α) := (List.range (numChunks k l.length)).map (chunk k l)

@[simp] theorem length_chunks (k : Nat) (l : List α) : (chunks k l).length = numChunks k l.length := by
  unfold chunks
  rw [List.length_map, List.length_range]

theorem getElem?_chunks {k : Nat} {l : List α} {i : Nat} (h : i < numChunks k l.length) :
    (chunks k l)[i]? = some (chunk k l i) := by
  unfold chunks
  rw [List.getElem?_map, List.getElem?_range h, Option.map_some]

/-- The first `m` chunks are the first `m * k` elements. -/
theorem flatten_map_chunk {k : Nat} (l : List α) : ∀ m : Nat, m ≤ numChunks k l.length →
    ((List.range m).map (chunk k l)).flatten = l.take (min (m * k) l.length)
  | 0, _ => by simp
  | m + 1, hm => by
    rcases Nat.eq_zero_or_pos k with rfl | hk
    · simp [numChunks] at hm
    · have hlt : m * k < l.length := (lt_numChunks hk).1 hm
      rw [List.range_succ, List.map_append, List.flatten_append, flatten_map_chunk l m (by omega)]
      have hmk : min (m * k) l.length = m * k := by omega
      have hend : min ((m + 1) * k) l.length = m * k + chunkLen k l.length m := by
        rw [chunk_end hlt, Nat.add_mul, Nat.one_mul]
      rw [hmk, hend, List.take_add]
      simp [chunk, slice]

/-- **The chunks tile the content.** -/
theorem flatten_chunks {k : Nat} (hk : 0 < k) (l : List α) : (chunks k l).flatten = l := by
  unfold chunks
  rw [flatten_map_chunk l _ (Nat.le_refl _), Nat.min_eq_right (le_numChunks_mul hk _), List.take_length]

/-- A whole chunk and a last one. -/
theorem chunks_append {k : Nat} {a b : List α} (ha : a.length = k) (hb : b ≠ []) (hk : b.length ≤ k) :
    chunks k (a ++ b) = [a, b] := by
  have hpos : 0 < b.length := List.length_pos_iff.2 hb
  have hlen : (a ++ b).length = k + b.length := by rw [List.length_append, ha]
  have hn : numChunks k (a ++ b).length = 2 := by
    unfold numChunks
    rw [hlen]
    exact Nat.div_eq_of_lt_le (by omega) (by omega)
  have h0 : chunk k (a ++ b) 0 = a := by
    unfold chunk slice chunkLen
    rw [hlen, Nat.zero_mul, List.drop_zero, show min (0 + k) (k + b.length) - 0 = a.length by omega, List.take_left']
    rfl
  have h1 : chunk k (a ++ b) 1 = b := by
    unfold chunk slice chunkLen
    rw [hlen, Nat.one_mul, show min (k + k) (k + b.length) - k = b.length by omega, ← ha, List.drop_left, List.take_length]
  unfold chunks
  rw [hn, show List.range 2 = [0, 1] from rfl, List.map_cons, List.map_cons, List.map_nil, h0, h1]

/-- Contents with the same chunks are the same. -/
theorem eq_of_chunks {k : Nat} (hk : 0 < k) {a b : List α} (hn : numChunks k a.length = numChunks k b.length)
    (h : ∀ i, i < numChunks k a.length → chunk k a i = chunk k b i) : a = b := by
  have hc : chunks k a = chunks k b := by
    unfold chunks
    rw [← hn]
    exact List.map_congr_left (fun i hi => h i (List.mem_range.1 hi))
  rw [← flatten_chunks hk a, hc, flatten_chunks hk b]

/-- The chunk of a position. -/
theorem pos_in_chunk {k n q : Nat} (hk : 0 < k) (hq : q < n) :
    q / k < numChunks k n ∧ q / k * k ≤ q ∧ q < q / k * k + chunkLen k n (q / k) := by
  have hle := Nat.div_mul_le_self q k
  have hlt := Nat.lt_div_mul_add hk (a := q)
  have hend := chunk_end (k := k) (n := n) (i := q / k) (by omega)
  exact ⟨(lt_numChunks hk).2 (by omega), hle, by omega⟩

/-! ## Writing in place -/

/-- `d` written at `off`: a gap between the end and `off` is filled with `z`, and nothing is cut off. -/
def pwrite (z : α) (l : List α) (off : Nat) (d : List α) : List α :=
  l.take off ++ List.replicate (off - l.length) z ++ d ++ l.drop (off + d.length)

theorem pwrite_one (z : α) (a : List α) (x y : α) (b : List α) :
    pwrite z (a ++ x :: b) a.length [y] = a ++ y :: b := by
  unfold pwrite
  simp

theorem length_pwrite (z : α) (l : List α) (off : Nat) (d : List α) :
    (pwrite z l off d).length = max l.length (off + d.length) := by
  unfold pwrite
  simp only [List.length_append, List.length_take, List.length_replicate, List.length_drop]
  omega

theorem getElem?_pwrite_inside {z : α} {l : List α} {off : Nat} {d : List α} {p : Nat} (h₁ : off ≤ p)
    (h₂ : p < off + d.length) : (pwrite z l off d)[p]? = d[p - off]? := by
  unfold pwrite
  have hl : (l.take off ++ List.replicate (off - l.length) z).length = off := by
    simp only [List.length_append, List.length_take, List.length_replicate]
    omega
  rw [List.getElem?_append_left (by simp only [List.length_append, hl]; omega),
    List.getElem?_append_right (by omega), hl]

theorem getElem?_pwrite_outside {z : α} {l : List α} {off : Nat} {d : List α} {p : Nat} (hp : p < l.length)
    (h : p < off ∨ off + d.length ≤ p) : (pwrite z l off d)[p]? = l[p]? := by
  unfold pwrite
  rcases h with h | h
  · rw [List.append_assoc, List.append_assoc, List.getElem?_append_left (by simp only [List.length_take]; omega),
      List.getElem?_take, if_pos h]
  · have hl : (l.take off ++ List.replicate (off - l.length) z ++ d).length = off + d.length := by
      simp only [List.length_append, List.length_take, List.length_replicate]
      omega
    rw [List.getElem?_append_right (by omega), hl, List.getElem?_drop]
    congr 1
    omega

/-- Between the end of the list and the write there is filling. -/
theorem getElem?_pwrite_gap {z : α} {l d : List α} {off p : Nat} (h₁ : l.length ≤ p) (h₂ : p < off) :
    (pwrite z l off d)[p]? = some z := by
  unfold pwrite
  have htake : l.take off = l := List.take_of_length_le (by omega)
  have hl : (l.take off ++ List.replicate (off - l.length) z).length = off := by
    rw [List.length_append, htake, List.length_replicate]
    omega
  rw [List.getElem?_append_left (by rw [List.length_append]; omega), List.getElem?_append_left (by omega), htake,
    List.getElem?_append_right h₁, List.getElem?_replicate, if_pos (by omega)]

/-! ## Agreement with a target -/

/-- `l` has the target's element at `p`, a position of the target. -/
def AgreesAt (t l : List α) (p : Nat) : Prop := p < t.length ∧ l[p]? = t[p]?

theorem AgreesAt.lt {t l : List α} {p : Nat} (h : AgreesAt t l p) : p < l.length := by
  have := h.2
  rw [List.getElem?_eq_getElem h.1] at this
  exact (List.getElem?_eq_some_iff.1 this).1

theorem agreesAt_of_chunk {k : Nat} {t l : List α} {i p : Nat} (h : chunk k l i = chunk k t i) (hl : i * k < t.length)
    (h₁ : i * k ≤ p) (h₂ : p < i * k + chunkLen k t.length i) : AgreesAt t l p := by
  have hend : i * k + chunkLen k t.length i = min (i * k + k) t.length := chunk_end hl
  have hj : p - i * k < chunkLen k t.length i := by omega
  have hlen := congrArg List.length h
  rw [length_chunk hl] at hlen
  have hcl : (chunk k l i).length ≤ chunkLen k l.length i := by
    unfold chunk
    rw [length_slice]
    omega
  have ht := getElem?_chunk (l := t) hj
  rw [← h, getElem?_chunk (by omega)] at ht
  have hp : i * k + (p - i * k) = p := by omega
  rw [hp] at ht
  exact ⟨by omega, ht⟩

/-- **Writing the target's own elements keeps agreement** everywhere it held. -/
theorem agreesAt_pwrite {z : α} {t l d : List α} {off p : Nat} (hd : d = slice t off d.length)
    (h : AgreesAt t l p) : AgreesAt t (pwrite z l off d) p := by
  refine ⟨h.1, ?_⟩
  by_cases hin : off ≤ p ∧ p < off + d.length
  · rw [getElem?_pwrite_inside hin.1 hin.2, hd, getElem?_slice, if_pos (by omega)]
    congr 1
    omega
  · rw [getElem?_pwrite_outside h.lt (by omega)]
    exact h.2

/-- and makes it hold where they were written. -/
theorem agreesAt_pwrite_inside {z : α} {t l d : List α} {off p : Nat} (hd : d = slice t off d.length)
    (hlen : off + d.length ≤ t.length) (h₁ : off ≤ p) (h₂ : p < off + d.length) : AgreesAt t (pwrite z l off d) p := by
  refine ⟨by omega, ?_⟩
  rw [getElem?_pwrite_inside h₁ h₂, hd, getElem?_slice, if_pos (by omega)]
  congr 1
  omega

/-- A content that agrees with a target at every position of it begins with it. -/
theorem take_eq_of_agreesAt {t l : List α} (h : ∀ p, p < t.length → AgreesAt t l p) : l.take t.length = t := by
  apply List.ext_getElem?
  intro p
  rw [List.getElem?_take]
  by_cases hp : p < t.length
  · rw [if_pos hp, (h p hp).2]
  · rw [if_neg hp, List.getElem?_eq_none (by omega)]

/-- **A list mixed from two that differ in one place at most is one of them.** -/
theorem eq_or_eq_of_mixed {a b l : List α} (hmix : ∀ p : Nat, l[p]? = a[p]? ∨ l[p]? = b[p]?)
    (hone : ∀ p j : Nat, a[p]? ≠ b[p]? → a[j]? ≠ b[j]? → p = j) : l = a ∨ l = b := by
  by_cases hdiff : ∃ j : Nat, a[j]? ≠ b[j]?
  · obtain ⟨j, hq⟩ := hdiff
    have hothers : ∀ p : Nat, p ≠ j → a[p]? = b[p]? := by
      intro p hp
      by_contra hne
      exact hp (hone p j hne hq)
    rcases hmix j with hold | hnew
    · refine .inl (List.ext_getElem? fun p => ?_)
      by_cases hp : p = j
      · rw [hp, hold]
      · exact (hmix p).elim id fun h => h.trans (hothers p hp).symm
    · refine .inr (List.ext_getElem? fun p => ?_)
      by_cases hp : p = j
      · rw [hp, hnew]
      · exact (hmix p).elim (fun h => h.trans (hothers p hp)) id
  · refine .inl (List.ext_getElem? fun p => (hmix p).elim id fun h => h.trans ?_)
    by_contra hne
    exact hdiff ⟨p, fun h => hne h.symm⟩

end Lib
