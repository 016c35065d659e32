import MitoSync.Numerals
/-!
# Durations — a number and its unit

`parse_duration` reads digits and one letter, and refuses a number or a product that `int64_t` does not hold before it
multiplies.  `format_duration` takes the largest unit that divides: what it prints is read back
(`parseDuration_exact`).
-/
namespace Mito

/-! ## The code -/

/-- `std::stoll` of digits, `none` for `std::out_of_range`. -/
def stoll (digits : Str) : Option Int := int64 (decimal digits)

def unitSeconds (unit : Char) : Option Int :=
  if unit = 's' then some 1
  else if unit = 'm' then some 60
  else if unit = 'h' then some 3600
  else if unit = 'd' then some 86400
  else none

/-- What is made of a number and its unit; the outer `none` is an overflow of the product. -/
def scaleDuration (value : Int) (unit : Char) : Option (Option Int) :=
  if value < 0 then some none
  else match unitSeconds unit with
    | none => some none
    | some multiplier =>
      if value > (9223372036854775807 : Int).tdiv multiplier then some none
      else do
        let seconds ← int64 (value * multiplier)
        some (some seconds)

def parseDuration (str : Str) : Option (Option Int) :=
  if str.takeWhile Char.isDigit = [] then some none
  else match str.dropWhile Char.isDigit with
    | [unit] =>
      match stoll (str.takeWhile Char.isDigit) with
      | none => some none
      | some value => scaleDuration value unit
    | _ => some none

def formatDuration (secs : Int) : Str :=
  if secs ≥ 86400 ∧ secs.tmod 86400 = 0 then signedNumeral (secs.tdiv 86400) ++ ['d']
  else if secs ≥ 3600 ∧ secs.tmod 3600 = 0 then signedNumeral (secs.tdiv 3600) ++ ['h']
  else if secs ≥ 60 ∧ secs.tmod 60 = 0 then signedNumeral (secs.tdiv 60) ++ ['m']
  else signedNumeral secs ++ ['s']

/-! ## What is read -/

/-- A text that says so many seconds: digits and a unit, with a product that `int64_t` holds. -/
def SaysSeconds (str : Str) (v : Int) : Prop :=
  ∃ digits unit seconds, str = digits ++ [unit] ∧ digits ≠ [] ∧ digits.all Char.isDigit = true ∧
    unitSeconds unit = some seconds ∧ decimal digits * seconds ≤ 9223372036854775807 ∧ v = decimal digits * seconds

section Parse

variable {digits str : Str} {unit : Char} {seconds : Int}

theorem unitSeconds_pos (h : unitSeconds unit = some seconds) : 0 < seconds ∧ unit.isDigit = false := by
  unfold unitSeconds at h
  split_ifs at h with h₁ h₂ h₃ h₄
  all_goals
    obtain rfl := Option.some.inj h
    subst unit
    exact ⟨by decide, by decide⟩

/-- A product is formed only where it fits. -/
theorem scaleDuration_eq {value : Int} (hvalue : 0 ≤ value) (unit : Char) :
    scaleDuration value unit = some ((unitSeconds unit).bind fun seconds =>
      if value * seconds ≤ 9223372036854775807 then some (value * seconds) else none) := by
  unfold scaleDuration
  rw [if_neg (by omega)]
  cases hunit : unitSeconds unit with
  | none => rfl
  | some seconds =>
    have hpos : 0 < seconds := (unitSeconds_pos hunit).1
    have hguard : value > (9223372036854775807 : Int).tdiv seconds ↔ ¬ value * seconds ≤ 9223372036854775807 := by
      rw [Int.tdiv_eq_ediv_of_nonneg (by decide), gt_iff_lt, ← not_le, Int.le_ediv_iff_mul_le hpos]
    dsimp only
    rw [Option.bind_some]
    by_cases hfit : value * seconds ≤ 9223372036854775807
    · have hprod : 0 ≤ value * seconds := Int.mul_nonneg hvalue hpos.le
      rw [if_neg (not_not.2 hfit ∘ hguard.1), if_pos hfit, int64_bind (by omega) (by omega)]
    · rw [if_pos (hguard.2 hfit), if_neg hfit]

theorem stoll_eq (digits : Str) :
    stoll digits = if (decimal digits : Int) ≤ 9223372036854775807 then some (decimal digits : Int) else none := by
  unfold stoll int64
  by_cases hfit : (decimal digits : Int) ≤ 9223372036854775807
  · rw [if_pos ⟨by omega, hfit⟩, if_pos hfit]
  · rw [if_neg fun h => hfit h.2, if_neg hfit]

/-- Digits and one letter are read to their product. -/
theorem parseDuration_append (hne : digits ≠ []) (hdigits : digits.all Char.isDigit = true)
    (hunit : unit.isDigit = false) :
    parseDuration (digits ++ [unit]) = some ((unitSeconds unit).bind fun seconds =>
      if decimal digits * seconds ≤ 9223372036854775807 then some (decimal digits * seconds) else none) := by
  have hspan : (digits ++ [unit]).takeWhile Char.isDigit = digits ∧
      (digits ++ [unit]).dropWhile Char.isDigit = [unit] := by
    have hall := List.all_eq_true.1 hdigits
    rw [List.takeWhile_append_of_pos hall, List.dropWhile_append_of_pos hall]
    simp [hunit]
  unfold parseDuration
  rw [hspan.1, hspan.2, if_neg hne]
  dsimp only
  rw [stoll_eq]
  by_cases hfit : (decimal digits : Int) ≤ 9223372036854775807
  · rw [if_pos hfit]
    exact scaleDuration_eq (by omega) unit
  · rw [if_neg hfit]
    cases hseconds : unitSeconds unit with
    | none => rfl
    | some seconds =>
      -- a number that is too large has too large a product
      have hpos : 0 < seconds := (unitSeconds_pos hseconds).1
      have hle : (decimal digits : Int) * 1 ≤ decimal digits * seconds :=
        Int.mul_le_mul_of_nonneg_left (by omega) (by omega)
      rw [Option.bind_some, if_neg (by omega)]

/-- Everything else has no value. -/
theorem parseDuration_other (h : ¬ ∃ digits unit, str = digits ++ [unit] ∧ digits ≠ [] ∧
    digits.all Char.isDigit = true ∧ unit.isDigit = false) : parseDuration str = some none := by
  unfold parseDuration
  by_cases hne : str.takeWhile Char.isDigit = []
  · exact if_pos hne
  · rw [if_neg hne]
    cases hrest : str.dropWhile Char.isDigit with
    | nil => rfl
    | cons unit rest =>
      cases rest with
      | cons _ _ => rfl
      | nil =>
        refine absurd ⟨str.takeWhile Char.isDigit, unit, ?_, hne, ?_, ?_⟩ h
        · rw [← hrest, List.takeWhile_append_dropWhile]
        · exact List.all_takeWhile
        · have hhead := List.head?_dropWhile_not Char.isDigit str
          rw [hrest] at hhead
          simpa using hhead

/-- **The accepted texts and their values.** -/
theorem parseDuration_iff (str : Str) :
    ∃ r, parseDuration str = some r ∧ ∀ v, r = some v ↔ SaysSeconds str v := by
  by_cases h : ∃ digits unit, str = digits ++ [unit] ∧ digits ≠ [] ∧ digits.all Char.isDigit = true ∧
      unit.isDigit = false
  · obtain ⟨digits, unit, rfl, hne, hdigits, hunit⟩ := h
    refine ⟨_, parseDuration_append hne hdigits hunit, fun v => ?_⟩
    rw [Option.bind_eq_some_iff]
    constructor
    · rintro ⟨seconds, hseconds, hv⟩
      split_ifs at hv with hfit
      exact ⟨digits, unit, seconds, rfl, hne, hdigits, hseconds, hfit, (Option.some.inj hv).symm⟩
    · rintro ⟨digits', unit', seconds, hstr, -, -, hseconds, hfit, rfl⟩
      obtain ⟨rfl, hunits⟩ := List.append_inj' hstr rfl
      obtain rfl : unit = unit' := (List.cons.inj hunits).1
      exact ⟨seconds, hseconds, if_pos hfit⟩
  · refine ⟨none, parseDuration_other h, fun v => iff_of_false (by simp) ?_⟩
    rintro ⟨digits, unit, seconds, hstr, hne, hdigits, hseconds, -, -⟩
    exact h ⟨digits, unit, hstr, hne, hdigits, (unitSeconds_pos hseconds).2⟩

end Parse

/-! ## What is printed -/

/-- A number that a unit divides, printed in that unit. -/
theorem parseDuration_signedNumeral {n : Nat} {unit : Char} {seconds : Nat}
    (hunit : unitSeconds unit = some (seconds : Int)) (hdvd : seconds ∣ n) (hfit : n ≤ 9223372036854775807) :
    parseDuration (signedNumeral ((n : Int).tdiv seconds) ++ [unit]) = some (some (n : Int)) := by
  obtain ⟨q, rfl⟩ := hdvd
  have hpos : 0 < (seconds : Int) := (unitSeconds_pos hunit).1
  have hquot : (((seconds * q : Nat) : Int)).tdiv seconds = (q : Int) := by
    rw [Int.natCast_mul, Int.mul_tdiv_cancel_left _ hpos.ne']
  have hprod : (q : Int) * seconds = ((seconds * q : Nat) : Int) := by
    rw [Int.natCast_mul, Int.mul_comm]
  have hprint : signedNumeral (q : Int) = numeral q := if_neg (by omega)
  rw [hquot, hprint, parseDuration_append (numeral_ne_nil q) (all_isDigit_numeral q) (unitSeconds_pos hunit).2, hunit,
    Option.bind_some, decimal_numeral, hprod, if_pos (by omega)]

/-- **What is printed is read back.** -/
theorem parseDuration_formatDuration {n : Nat} (hfit : n ≤ 9223372036854775807) :
    parseDuration (formatDuration n) = some (some (n : Int)) := by
  have hdvd : ∀ {seconds : Nat}, (n : Int).tmod seconds = 0 → seconds ∣ n := fun {seconds} h =>
    Int.natCast_dvd_natCast.1 (Int.dvd_of_tmod_eq_zero h)
  unfold formatDuration
  split_ifs with hd hh hm
  · exact parseDuration_signedNumeral rfl (hdvd hd.2) hfit
  · exact parseDuration_signedNumeral rfl (hdvd hh.2) hfit
  · exact parseDuration_signedNumeral rfl (hdvd hm.2) hfit
  · have hone := @parseDuration_signedNumeral n 's' 1 rfl (one_dvd n) hfit
    rwa [Nat.cast_one, Int.tdiv_one] at hone

/-- **Durations parse exactly and print back.** -/
theorem parseDuration_exact :
    (∀ str, ∃ r, parseDuration str = some r ∧ ∀ v, r = some v ↔ SaysSeconds str v) ∧
      ∀ n : Nat, n ≤ 9223372036854775807 → parseDuration (formatDuration n) = some (some (n : Int)) :=
  ⟨parseDuration_iff, fun _ => parseDuration_formatDuration⟩

theorem parseDuration_exact_longest :
    parseDuration (formatDuration (9223372036854775807 : Nat)) = some (some ((9223372036854775807 : Nat) : Int)) :=
  parseDuration_exact.2 9223372036854775807 (Nat.le_refl _)

end Mito
