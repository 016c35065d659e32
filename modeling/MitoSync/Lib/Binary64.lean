import Mathlib.Data.Int.Log
import Mathlib.Data.Rat.Floor
import Mathlib.Tactic
/-!
# Binary64 — rounding a positive rational to 53 significant bits

`double x` is `x` rounded to the nearest multiple of its unit in the last place, ties to even: the value of a binary64
operation whose exact result is `x`, within the normal range.  Rounding never crosses a representable number
(`double_le`, `le_double`), so it fixes those (`double_eq`); nothing else about it is needed to follow a computation
between known bounds.
-/
namespace Lib

/-- The nearest integer, the even one of two equally near. -/
def roundHalfEven (x : ℚ) : ℤ :=
  if x - ⌊x⌋ < 1 / 2 then ⌊x⌋
  else if 1 / 2 < x - ⌊x⌋ then ⌊x⌋ + 1
  else if ⌊x⌋ % 2 = 0 then ⌊x⌋ else ⌊x⌋ + 1

theorem le_roundHalfEven {x : ℚ} {n : ℤ} (h : (n : ℚ) ≤ x) : n ≤ roundHalfEven x := by
  have hf : n ≤ ⌊x⌋ := Int.le_floor.2 h
  unfold roundHalfEven
  split_ifs <;> omega

theorem roundHalfEven_le {x : ℚ} {n : ℤ} (h : x ≤ n) : roundHalfEven x ≤ n := by
  rcases h.lt_or_eq with hlt | rfl
  · have hf : ⌊x⌋ < n := Int.floor_lt.2 hlt
    unfold roundHalfEven
    split_ifs <;> omega
  · unfold roundHalfEven
    rw [Int.floor_intCast, sub_self, if_pos (by norm_num)]

theorem roundHalfEven_mono {x y : ℚ} (h : x ≤ y) : roundHalfEven x ≤ roundHalfEven y := by
  rcases (Int.floor_le_floor h).lt_or_eq with hlt | heq
  · have hx : roundHalfEven x ≤ ⌊x⌋ + 1 := roundHalfEven_le (by exact_mod_cast (Int.lt_floor_add_one x).le)
    have hy : ⌊y⌋ ≤ roundHalfEven y := le_roundHalfEven (Int.floor_le y)
    omega
  · unfold roundHalfEven
    rw [heq]
    split_ifs <;> first | omega | (exfalso; linarith)

/-- The unit in the last place of a number's binade. -/
def ulp (x : ℚ) : ℚ := 2 ^ (Int.log 2 x - 52)

def double (x : ℚ) : ℚ := roundHalfEven (x / ulp x) * ulp x

theorem ulp_pos (x : ℚ) : 0 < ulp x := by
  unfold ulp
  exact zpow_pos two_pos _

/-- A number of 53 significant bits. -/
def Representable (y : ℚ) : Prop := ∃ n k : ℤ, 0 ≤ n ∧ n < 2 ^ 53 ∧ y = n * 2 ^ k

theorem binade {x : ℚ} (hx : 0 < x) : 2 ^ 52 * ulp x ≤ x ∧ x < 2 ^ 53 * ulp x := by
  have hlo : (2 : ℚ) ^ Int.log 2 x ≤ x := by exact_mod_cast Int.zpow_log_le_self (by decide) hx
  have hhi : x < (2 : ℚ) ^ (Int.log 2 x + 1) := by exact_mod_cast Int.lt_zpow_succ_log_self (by decide) x
  have h₁ : (2 : ℚ) ^ Int.log 2 x = 2 ^ 52 * ulp x := by
    unfold ulp
    rw [zpow_sub₀ two_ne_zero]
    norm_num
    ring
  have h₂ : (2 : ℚ) ^ (Int.log 2 x + 1) = 2 ^ 53 * ulp x := by
    rw [zpow_add_one₀ two_ne_zero, h₁]
    ring
  rw [h₁] at hlo
  rw [h₂] at hhi
  exact ⟨hlo, hhi⟩

/-- A representable number past the start of a binade is a multiple of the binade's unit. -/
theorem Representable.multiple {y : ℚ} (hy : Representable y) {e : ℤ} (h : (2 : ℚ) ^ e ≤ y) :
    ∃ m : ℤ, y = m * 2 ^ (e - 52) := by
  obtain ⟨n, k, h0, hn, rfl⟩ := hy
  have hk : e - 52 ≤ k := by
    by_contra hlt
    have hle : (n : ℚ) * 2 ^ k < 2 ^ 53 * 2 ^ k := by
      have hn' : (n : ℚ) < 2 ^ 53 := by exact_mod_cast hn
      exact mul_lt_mul_of_pos_right hn' (zpow_pos two_pos k)
    have hexp : (2 : ℚ) ^ 53 * 2 ^ k ≤ 2 ^ e := by
      rw [← zpow_natCast, ← zpow_add₀ two_ne_zero]
      exact zpow_le_zpow_right₀ one_le_two (by push_cast; omega)
    linarith
  refine ⟨n * 2 ^ (k - (e - 52)).toNat, ?_⟩
  rw [Int.cast_mul, Int.cast_pow, Int.cast_ofNat, ← zpow_natCast, Int.toNat_of_nonneg (by omega), mul_assoc,
    ← zpow_add₀ two_ne_zero]
  congr 2
  omega

/-- **Rounding stays below what is representable above.** -/
theorem double_le {x y : ℚ} (hx : 0 < x) (hy : Representable y) (h : x ≤ y) : double x ≤ y := by
  have hu := ulp_pos x
  obtain ⟨hlo, hhi⟩ := binade hx
  have hxy : (2 : ℚ) ^ Int.log 2 x ≤ y := le_trans (by exact_mod_cast Int.zpow_log_le_self (by decide) hx) h
  obtain ⟨m, hm⟩ := hy.multiple hxy
  have hmu : y = m * ulp x := hm
  have hq : x / ulp x ≤ m := (div_le_iff₀ hu).2 (hmu ▸ h)
  have hr : ((roundHalfEven (x / ulp x) : ℤ) : ℚ) ≤ m := by exact_mod_cast roundHalfEven_le hq
  rw [hmu]
  exact mul_le_mul_of_nonneg_right hr hu.le

/-- **Rounding stays above what is representable below.** -/
theorem le_double {x y : ℚ} (hx : 0 < x) (hy : Representable y) (h : y ≤ x) : y ≤ double x := by
  have hu := ulp_pos x
  obtain ⟨hlo, hhi⟩ := binade hx
  by_cases hb : (2 : ℚ) ^ Int.log 2 x ≤ y
  · obtain ⟨m, hm⟩ := hy.multiple hb
    have hmu : y = m * ulp x := hm
    have hq : (m : ℚ) ≤ x / ulp x := (le_div_iff₀ hu).2 (hmu ▸ h)
    have hr : (m : ℚ) ≤ (roundHalfEven (x / ulp x) : ℤ) := by exact_mod_cast le_roundHalfEven hq
    rw [hmu]
    exact mul_le_mul_of_nonneg_right hr hu.le
  · have hstart : (2 : ℚ) ^ Int.log 2 x = ((2 ^ 52 : ℤ) : ℚ) * ulp x := by
      unfold ulp
      rw [zpow_sub₀ two_ne_zero]
      push_cast
      field_simp
    have hq : ((2 ^ 52 : ℤ) : ℚ) ≤ x / ulp x := by
      rw [le_div_iff₀ hu]
      push_cast
      exact hlo
    have hr : ((2 ^ 52 : ℤ) : ℚ) ≤ (roundHalfEven (x / ulp x) : ℤ) := by exact_mod_cast le_roundHalfEven hq
    calc y ≤ (2 : ℚ) ^ Int.log 2 x := (not_le.1 hb).le
      _ = ((2 ^ 52 : ℤ) : ℚ) * ulp x := hstart
      _ ≤ double x := mul_le_mul_of_nonneg_right hr hu.le

theorem double_eq {x : ℚ} (hx : 0 < x) (h : Representable x) : double x = x :=
  le_antisymm (double_le hx h le_rfl) (le_double hx h le_rfl)

/-- What rounding returns is representable. -/
theorem representable_double {x : ℚ} (hx : 0 < x) : Representable (double x) := by
  have hu := ulp_pos x
  obtain ⟨hlo, hhi⟩ := binade hx
  have hnonneg : 0 ≤ roundHalfEven (x / ulp x) := le_roundHalfEven (by exact_mod_cast (div_pos hx hu).le)
  have hmost : roundHalfEven (x / ulp x) ≤ 2 ^ 53 := by
    apply roundHalfEven_le
    rw [div_le_iff₀ hu]
    push_cast
    exact hhi.le
  rcases hmost.lt_or_eq with hlt | heq
  · exact ⟨_, _, hnonneg, hlt, rfl⟩
  · refine ⟨1, Int.log 2 x + 1, by decide, by decide, ?_⟩
    unfold double
    rw [heq, ulp, Int.cast_pow, Int.cast_ofNat, ← zpow_natCast, ← zpow_add₀ two_ne_zero, Int.cast_one, one_mul]
    congr 1
    push_cast
    omega

theorem double_pos {x : ℚ} (hx : 0 < x) : 0 < double x := by
  have hu := ulp_pos x
  have hone : (1 : ℤ) ≤ roundHalfEven (x / ulp x) := by
    apply le_roundHalfEven
    rw [Int.cast_one, le_div_iff₀ hu]
    have := (binade hx).1
    linarith
  have hone' : (1 : ℚ) ≤ (roundHalfEven (x / ulp x) : ℤ) := by exact_mod_cast hone
  unfold double
  exact mul_pos (by linarith) hu

theorem double_mono {x y : ℚ} (hx : 0 < x) (h : x ≤ y) : double x ≤ double y := by
  have hy : 0 < y := hx.trans_le h
  rcases (Int.log_mono_right (b := 2) hx h).lt_or_eq with hlt | heq
  · -- a power of two stands between them
    have hpow : Representable ((2 : ℚ) ^ (Int.log 2 x + 1)) := ⟨1, Int.log 2 x + 1, by decide, by decide, by norm_num⟩
    have hxp : x ≤ (2 : ℚ) ^ (Int.log 2 x + 1) := by
      exact_mod_cast (Int.lt_zpow_succ_log_self (by decide) x).le
    have hpy : (2 : ℚ) ^ (Int.log 2 x + 1) ≤ y :=
      le_trans (zpow_le_zpow_right₀ one_le_two hlt) (by exact_mod_cast Int.zpow_log_le_self (by decide) hy)
    exact (double_le hx hpow hxp).trans (le_double hy hpow hpy)
  · have hu : ulp x = ulp y := by unfold ulp; rw [heq]
    have hr : roundHalfEven (x / ulp x) ≤ roundHalfEven (y / ulp x) :=
      roundHalfEven_mono (div_le_div_of_nonneg_right h (ulp_pos x).le)
    unfold double
    rw [← hu]
    exact mul_le_mul_of_nonneg_right (by exact_mod_cast hr) (ulp_pos x).le

end Lib
