import MitoSync.PartPlan
import Mathlib.Data.List.TakeWhile
/-!
# RangedRead — a range of an object, and the answer's own word for it

`ValidateRange`, `RangeResponseHonoursRequest` and the two ranged reads of the S3 client, with every `int64_t` and
`size_t` computation checked (`int64`, `sizeT`).  A gateway may ignore a range, so a body's length says little about
where it starts: `ranged_read_exact` has that the header, the exemption for a read from 0 and the two length checks
together let no other bytes through.
-/
namespace Mito

/-! ## The code -/

/-- The value of a `size_t` computation, `none` where it wraps. -/
def sizeT (n : Int) : Option Nat := if 0 ≤ n ∧ n < 18446744073709551616 then some n.toNat else none

/-- The text of a header, a string that fits into memory. -/
structure HeaderValue where
  text : Str
  size_lt : text.length < 2 ^ 63

/-- The vectors a process gets memory for: those it allocates at their length, and those it grows byte by byte, each
block copied into a larger one and freed only then. -/
structure Heap where
  holds : Nat → Bool
  grows : Nat → Bool
  lt_of_holds : ∀ n, holds n = true → n < 2 ^ 63
  lt_of_grows : ∀ n, grows n = true → n < 2 ^ 63

/-- One GET: its `Content-Range` and its body, an error that `IsRetryableS3Error` accepts or not, or an exception. -/
inductive GetOutcome
  | success (contentRange : HeaderValue) (body : Bytes) | error (retryable : Bool) | exception

structure RangeClient where
  maxRetries : Int := 5
  allowUnverifiedRanges : Bool := false

/-- `ValidateRange`: the length of a range it accepts. -/
def validateRange (start stop : Int) : Option (Option Int) := do
  if start < 0 then return none
  if stop < start then return none
  let span ← int64 (stop - start)
  if span = 9223372036854775807 then return none
  let length ← int64 (span + 1)
  return some length

/-- `std::isspace` in the C locale. -/
def isSpace (c : Char) : Bool := c = ' ' || (9 ≤ c.toNat && c.toNat ≤ 13)

def skipSpaces (value : Str) (pos : Nat) : Nat := pos + ((value.drop pos).takeWhile isSpace).length

def decimal (digits : Str) : Nat := digits.foldl (fun n c => 10 * n + (c.toNat - '0'.toNat)) 0

/-- A number at the front of a text, with what is left behind it. -/
def readDigits (negative : Bool) (text : Str) : Option (Int × Str) :=
  let digits := text.takeWhile Char.isDigit
  if digits = [] then none
  else some (if negative then -(decimal digits : Int) else decimal digits, text.dropWhile Char.isDigit)

def readSigned (text : Str) : Option (Int × Str) :=
  match text with
  | '-' :: rest => readDigits true rest
  | '+' :: rest => readDigits false rest
  | text => readDigits false text

/-- `parser >> first`, which fails for a number that is no `int64_t`. -/
def extractInt64 (text : Str) : Option (Int × Str) := do
  let (n, rest) ← readSigned (text.dropWhile isSpace)
  let n ← int64 n
  return (n, rest)

/-- `parser >> sep` -/
def extractChar (text : Str) : Option (Char × Str) :=
  match text.dropWhile isSpace with
  | [] => none
  | c :: rest => some (c, rest)

/-- The three extractions, and the test of the separator between them. -/
def extractRange (text : Str) : Option (Int × Int) := do
  let (first, rest) ← extractInt64 text
  let (sep, rest) ← extractChar rest
  if sep ≠ '-' then none
  let (last, _) ← extractInt64 rest
  return (first, last)

def bytesUnit : Str := ['b', 'y', 't', 'e', 's']

def rangeResponseHonoursRequest (contentRange : HeaderValue) (start stop : Int) (allowUnverified : Bool) :
    Option Bool := do
  if contentRange.text = [] then return start = 0 || allowUnverified
  -- `content_range.c_str()` ends at the first NUL
  let value := contentRange.text.takeWhile (· ≠ '\x00')
  let pos := skipSpaces value 0
  let left ← sizeT (value.length - pos)
  if ¬ (bytesUnit.length ≤ left ∧ ((value.drop pos).take bytesUnit.length).map Char.toLower = bytesUnit) then
    return false
  let pos ← sizeT (pos + bytesUnit.length)
  if !(value.drop pos).head?.any isSpace then return false
  let pos := skipSpaces value pos
  match extractRange (value.drop pos) with
  | none => return false
  | some (first, last) => return first = start && last = stop

section Reads

variable (client : RangeClient) (heap : Heap) (start stop : Int) (answer : Nat → GetOutcome)

/-- The loop of `GetObjectRange` from an attempt on, with `left` attempts to go. -/
def getObjectRangeFrom (expectedLength : Int) : (left attempt : Nat) → Option Bytes
  | 0, _ => some []
  | left + 1, attempt =>
    let again := getObjectRangeFrom expectedLength left (attempt + 1)
    match answer attempt with
    | .success contentRange body => do
      let honoured ← rangeResponseHonoursRequest contentRange start stop client.allowUnverifiedRanges
      if !honoured then return []
      -- the body's length is not known before its end
      if heap.grows body.length then
        let size ← int64 body.length
        if size > expectedLength then return []
        if size ≠ expectedLength then
          if attempt < 1 ∧ left ≠ 0 then again else return []
        else return body
      else if left ≠ 0 then again else return []
    | .error retryable => if left ≠ 0 ∧ retryable then again else return []
    | .exception => if left ≠ 0 then again else return []

/-- `GetObjectRange`, where no bytes are the failure. -/
def getObjectRange : Option Bytes := do
  match ← validateRange start stop with
  | none => return []
  | some expectedLength =>
    getObjectRangeFrom client heap start stop answer expectedLength (client.maxRetries + 1).toNat 0

/-- The loop of `GetObjectRangeInto`: its result, and the buffer it leaves. -/
def getObjectRangeIntoFrom (expectedSize : Nat) : (left attempt : Nat) → Option (Bool × Bytes)
  | 0, _ => some (false, [])
  | left + 1, attempt =>
    let again := getObjectRangeIntoFrom expectedSize left (attempt + 1)
    match answer attempt with
    | .success contentRange body => do
      let honoured ← rangeResponseHonoursRequest contentRange start stop client.allowUnverifiedRanges
      if !honoured then return (false, [])
      if !heap.holds expectedSize then return (false, [])
      let buffer := body.take expectedSize
      if buffer.length = expectedSize ∧ body.drop expectedSize ≠ [] then return (false, [])
      if buffer.length ≠ expectedSize then
        if attempt < 1 ∧ left ≠ 0 then again else return (false, [])
      else return (true, buffer)
    | .error retryable => if left ≠ 0 ∧ retryable then again else return (false, [])
    | .exception => if left ≠ 0 then again else return (false, [])

def getObjectRangeInto : Option (Bool × Bytes) := do
  match ← validateRange start stop with
  | none => return (false, [])
  | some expectedLength =>
    let expectedSize ← sizeT expectedLength
    getObjectRangeIntoFrom client heap start stop answer expectedSize (client.maxRetries + 1).toNat 0

end Reads

/-! ## What a header says -/

/-- A number as a stream reads it. -/
inductive Numeral : Str → Int → Prop
  | plain {digits : Str} (hne : digits ≠ []) (hd : ∀ d ∈ digits, d.isDigit = true) : Numeral digits (decimal digits)
  | plus {digits : Str} (hne : digits ≠ []) (hd : ∀ d ∈ digits, d.isDigit = true) :
      Numeral ('+' :: digits) (decimal digits)
  | minus {digits : Str} (hne : digits ≠ []) (hd : ∀ d ∈ digits, d.isDigit = true) :
      Numeral ('-' :: digits) (-(decimal digits : Int))

def Spaces (s : Str) : Prop := ∀ c ∈ s, isSpace c = true

/-- The header reads as the bytes from `first` to `last`: the unit, a space and the two numbers, in any case, with any
further spaces and with anything that does not go on with the second number behind it. -/
def ByteRange (text : Str) (first last : Int) : Prop :=
  ∃ s₀ unit s₁ f s₂ s₃ l rest, text = s₀ ++ (unit ++ (s₁ ++ (f ++ (s₂ ++ '-' :: (s₃ ++ (l ++ rest)))))) ∧
    Spaces s₀ ∧ unit.map Char.toLower = bytesUnit ∧ Spaces s₁ ∧ s₁ ≠ [] ∧ Numeral f first ∧ Spaces s₂ ∧ Spaces s₃ ∧
    Numeral l last ∧ ∀ c ∈ rest.head?, c.isDigit = false

/-- An answer from an endpoint that keeps `object`, to a read from `start`: its body, cut short or not, starts where a
header that reads as a byte range says, and without a header at `start` or at the object's start. -/
def GetOutcome.Truthful (object : Bytes) (start : Nat) : GetOutcome → Prop
  | .success contentRange body =>
    (contentRange.text = [] → body <+: object.drop start ∨ body <+: object) ∧
    ∀ first last : Nat, ByteRange contentRange.text first last → body <+: object.drop first
  | .error _ => True
  | .exception => True

/-- The bytes of `object` from `start` to `stop`, all of them there. -/
def IsRange (object : Bytes) (start stop : Int) (data : Bytes) : Prop :=
  0 ≤ start ∧ start ≤ stop ∧ stop < object.length ∧
    data = (object.drop start.toNat).take (stop - start + 1).toNat

/-! ## The parser reads the grammar -/

theorem span_iff {α : Type} {p : α → Bool} {xs front rest : List α} :
    xs.takeWhile p = front ∧ xs.dropWhile p = rest ↔
      xs = front ++ rest ∧ (∀ x ∈ front, p x = true) ∧ ∀ x ∈ rest.head?, p x = false := by
  constructor
  · rintro ⟨rfl, rfl⟩
    refine ⟨List.takeWhile_append_dropWhile.symm, fun x hx => List.mem_takeWhile_imp hx, fun x hx => ?_⟩
    have hnot := List.head?_dropWhile_not p xs
    rw [Option.mem_def.1 hx] at hnot
    simpa using hnot
  · rintro ⟨rfl, hfront, hrest⟩
    have hr : rest.takeWhile p = [] ∧ rest.dropWhile p = rest := by
      cases rest with
      | nil => exact ⟨rfl, rfl⟩
      | cons x rest =>
        have hx : ¬ p x = true := by simp [hrest x rfl]
        exact ⟨List.takeWhile_cons_of_neg hx, List.dropWhile_cons_of_neg hx⟩
    rw [List.takeWhile_append_of_pos hfront, List.dropWhile_append_of_pos hfront, hr.1, hr.2, List.append_nil]
    exact ⟨rfl, rfl⟩

theorem int64_eq_some {n m : Int} : int64 n = some m ↔ n = m ∧ -2 ^ 63 ≤ n ∧ n < 2 ^ 63 := by
  unfold int64
  split <;> rename_i h
  · rw [Option.some.injEq]
    omega
  · refine ⟨fun hn => absurd hn (by simp), fun hn => absurd ⟨?_, ?_⟩ h⟩
    · omega
    · omega

theorem readDigits_iff {negative : Bool} {text rest : Str} {n : Int} :
    readDigits negative text = some (n, rest) ↔ ∃ digits, text = digits ++ rest ∧ digits ≠ [] ∧
      (∀ d ∈ digits, d.isDigit = true) ∧ (∀ c ∈ rest.head?, c.isDigit = false) ∧
      n = if negative then -(decimal digits : Int) else decimal digits := by
  unfold readDigits
  dsimp only
  constructor
  · intro h
    split at h
    · exact absurd h (by simp)
    · rename_i hne
      rw [Option.some.injEq, Prod.mk.injEq] at h
      obtain ⟨happ, hdigits, hrest⟩ := span_iff.1 ⟨rfl, h.2⟩
      exact ⟨_, happ, hne, hdigits, hrest, h.1.symm⟩
  · rintro ⟨digits, happ, hne, hdigits, hrest, rfl⟩
    obtain ⟨htake, hdrop⟩ := span_iff.2 ⟨happ, hdigits, hrest⟩
    rw [htake, hdrop, if_neg hne]

theorem isDigit_ne {c d : Char} (hc : c.isDigit = true) (hd : d.isDigit = false) : c ≠ d := by
  rintro rfl
  rw [hc] at hd
  exact absurd hd (by simp)

theorem readSigned_iff {text rest : Str} {n : Int} :
    readSigned text = some (n, rest) ↔
      ∃ number, text = number ++ rest ∧ Numeral number n ∧ ∀ c ∈ rest.head?, c.isDigit = false := by
  unfold readSigned
  constructor
  · intro h
    split at h
    · obtain ⟨digits, rfl, hne, hdigits, hrest, rfl⟩ := readDigits_iff.1 h
      exact ⟨'-' :: digits, rfl, .minus hne hdigits, hrest⟩
    · obtain ⟨digits, rfl, hne, hdigits, hrest, rfl⟩ := readDigits_iff.1 h
      exact ⟨'+' :: digits, rfl, .plus hne hdigits, hrest⟩
    · obtain ⟨digits, rfl, hne, hdigits, hrest, rfl⟩ := readDigits_iff.1 h
      exact ⟨digits, rfl, .plain hne hdigits, hrest⟩
  · rintro ⟨number, rfl, hnumber, hrest⟩
    cases hnumber with
    | minus hne hdigits => exact readDigits_iff.2 ⟨_, rfl, hne, hdigits, hrest, rfl⟩
    | plus hne hdigits => exact readDigits_iff.2 ⟨_, rfl, hne, hdigits, hrest, rfl⟩
    | plain hne hdigits =>
      have hread : readDigits false (number ++ rest) = some ((decimal number : Int), rest) :=
        readDigits_iff.2 ⟨_, rfl, hne, hdigits, hrest, rfl⟩
      -- a digit is no sign
      split
      · rename_i tail heq
        cases number with
        | nil => exact absurd rfl hne
        | cons c _ => exact absurd (List.cons.inj heq).1 (isDigit_ne (hdigits c List.mem_cons_self) (by decide))
      · rename_i tail heq
        cases number with
        | nil => exact absurd rfl hne
        | cons c _ => exact absurd (List.cons.inj heq).1 (isDigit_ne (hdigits c List.mem_cons_self) (by decide))
      · exact hread

theorem Numeral.head_not_space {number : Str} {n : Int} (h : Numeral number n) (rest : Str) :
    ∀ c ∈ (number ++ rest).head?, isSpace c = false := by
  have hdigit : ∀ {digits : Str}, digits ≠ [] → (∀ d ∈ digits, d.isDigit = true) →
      ∀ c ∈ (digits ++ rest).head?, isSpace c = false := by
    intro digits hne hdigits c hc
    cases digits with
    | nil => exact absurd rfl hne
    | cons d digits =>
      obtain rfl : d = c := Option.some.inj hc
      have hd := hdigits d List.mem_cons_self
      simp only [Char.isDigit, ge_iff_le, Bool.and_eq_true, decide_eq_true_eq, UInt32.le_iff_toNat_le] at hd
      have h48 : 48 ≤ d.toNat := hd.1
      have hsp : d ≠ ' ' := by
        rintro rfl
        exact absurd h48 (by decide)
      simp only [isSpace, hsp, decide_false, Bool.false_or, Bool.and_eq_false_iff, decide_eq_false_iff_not]
      omega
  cases h with
  | plain hne hd => exact hdigit hne hd
  | plus _ _ =>
    intro c hc
    obtain rfl : '+' = c := Option.some.inj hc
    decide
  | minus _ _ =>
    intro c hc
    obtain rfl : '-' = c := Option.some.inj hc
    decide

theorem extractInt64_iff {text rest : Str} {n : Int} :
    extractInt64 text = some (n, rest) ↔ ∃ s number, text = s ++ (number ++ rest) ∧ Spaces s ∧ Numeral number n ∧
      (∀ c ∈ rest.head?, c.isDigit = false) ∧ -2 ^ 63 ≤ n ∧ n < 2 ^ 63 := by
  unfold extractInt64
  constructor
  · intro h
    obtain ⟨⟨m, rest'⟩, hread, h⟩ := Option.bind_eq_some_iff.1 h
    obtain ⟨k, hk, h⟩ := Option.bind_eq_some_iff.1 h
    obtain ⟨rfl, rfl⟩ := Prod.mk.inj (Option.some.inj h)
    obtain ⟨rfl, hrange⟩ := int64_eq_some.1 hk
    obtain ⟨number, happ, hnumber, hrest⟩ := readSigned_iff.1 hread
    obtain ⟨htext, hspaces, -⟩ := span_iff.1 ⟨rfl, happ⟩
    exact ⟨_, number, htext, hspaces, hnumber, hrest, hrange⟩
  · rintro ⟨s, number, rfl, hspaces, hnumber, hrest, hrange⟩
    have hdrop := (span_iff.2 ⟨rfl, hspaces, hnumber.head_not_space rest⟩).2
    have hint : int64 n = some n := int64_eq_some.2 ⟨rfl, hrange⟩
    rw [hdrop, readSigned_iff.2 ⟨number, rfl, hnumber, hrest⟩]
    simp only [Option.bind_eq_bind, Option.bind_some, hint]
    rfl

theorem extractChar_iff {text rest : Str} {c : Char} :
    extractChar text = some (c, rest) ↔ ∃ s, text = s ++ c :: rest ∧ Spaces s ∧ isSpace c = false := by
  unfold extractChar
  constructor
  · intro h
    split at h
    · exact absurd h (by simp)
    · rename_i c' rest' heq
      obtain ⟨rfl, rfl⟩ := Prod.mk.inj (Option.some.inj h)
      obtain ⟨htext, hspaces, hc⟩ := span_iff.1 ⟨rfl, heq⟩
      exact ⟨_, htext, hspaces, hc c' rfl⟩
  · rintro ⟨s, rfl, hspaces, hc⟩
    have hdrop : (s ++ c :: rest).dropWhile isSpace = c :: rest :=
      (span_iff.2 ⟨rfl, hspaces, fun d hd => by rwa [← Option.some.inj hd]⟩).2
    rw [hdrop]

theorem spaces_dash_not_digit {s : Str} (hs : Spaces s) (rest : Str) :
    ∀ c ∈ (s ++ '-' :: rest).head?, c.isDigit = false := by
  cases s with
  | nil =>
    intro c hc
    obtain rfl : '-' = c := Option.some.inj hc
    decide
  | cons d s =>
    intro c hc
    obtain rfl : d = c := Option.some.inj hc
    have hd := hs d List.mem_cons_self
    by_contra hdig
    have hnumeral : Numeral [d] (decimal [d]) := .plain (by simp) (by simpa using hdig)
    have hnot := hnumeral.head_not_space [] d rfl
    rw [hd] at hnot
    exact absurd hnot (by simp)

theorem extractRange_iff {text : Str} {first last : Int} :
    extractRange text = some (first, last) ↔
      (∃ s f s₂ s₃ l rest, text = s ++ (f ++ (s₂ ++ '-' :: (s₃ ++ (l ++ rest)))) ∧ Spaces s ∧ Numeral f first ∧
        Spaces s₂ ∧ Spaces s₃ ∧ Numeral l last ∧ ∀ c ∈ rest.head?, c.isDigit = false) ∧
      (-2 ^ 63 ≤ first ∧ first < 2 ^ 63) ∧ -2 ^ 63 ≤ last ∧ last < 2 ^ 63 := by
  unfold extractRange
  constructor
  · intro h
    obtain ⟨⟨a, rest₁⟩, hfirst, h⟩ := Option.bind_eq_some_iff.1 h
    obtain ⟨⟨sep, rest₂⟩, hsep, h⟩ := Option.bind_eq_some_iff.1 h
    dsimp only at h
    split at h
    · exact absurd h (by simp)
    · rename_i hdash
      obtain rfl : sep = '-' := not_not.1 hdash
      obtain ⟨⟨b, rest₃⟩, hlast, h⟩ := Option.bind_eq_some_iff.1 h
      obtain ⟨rfl, rfl⟩ := Prod.mk.inj (Option.some.inj h)
      obtain ⟨s, f, rfl, hs, hf, -, hrf⟩ := extractInt64_iff.1 hfirst
      obtain ⟨s₂, rfl, hs₂, -⟩ := extractChar_iff.1 hsep
      obtain ⟨s₃, l, rfl, hs₃, hl, hrest, hrl⟩ := extractInt64_iff.1 hlast
      exact ⟨⟨s, f, s₂, s₃, l, rest₃, rfl, hs, hf, hs₂, hs₃, hl, hrest⟩, hrf, hrl⟩
  · rintro ⟨⟨s, f, s₂, s₃, l, rest, rfl, hs, hf, hs₂, hs₃, hl, hrest⟩, hrf, hrl⟩
    have hdigit := spaces_dash_not_digit hs₂ (s₃ ++ (l ++ rest))
    have hfirst := extractInt64_iff.2 ⟨s, f, rfl, hs, hf, hdigit, hrf⟩
    have hsep : extractChar (s₂ ++ '-' :: (s₃ ++ (l ++ rest))) = some ('-', s₃ ++ (l ++ rest)) :=
      extractChar_iff.2 ⟨s₂, rfl, hs₂, by decide⟩
    have hlast := extractInt64_iff.2 ⟨s₃, l, rfl, hs₃, hl, hrest, hrl⟩
    simp only [hfirst, hsep, hlast, Option.bind_eq_bind, Option.bind_some, ne_eq, not_true_eq_false, if_false]
    rfl

theorem head_any_iff {p : Char → Bool} {text : Str} : text.head?.any p = true ↔ text.takeWhile p ≠ [] := by
  cases text with
  | nil => simp
  | cons c text =>
    cases hc : p c with
    | true => simp [hc]
    | false => simp [hc]

theorem bytesUnit_head {unit : Str} (h : unit.map Char.toLower = bytesUnit) (rest : Str) :
    ∀ c ∈ (unit ++ rest).head?, isSpace c = false := by
  cases unit with
  | nil => exact absurd h (by decide)
  | cons d unit =>
    intro c hc
    obtain rfl : d = c := Option.some.inj hc
    have hlower : d.toLower = 'b' := (List.cons.inj h).1
    by_contra hsp
    rw [Bool.not_eq_false] at hsp
    simp only [isSpace, Bool.or_eq_true, decide_eq_true_eq, Bool.and_eq_true] at hsp
    have hsmall : d.toNat ≤ 32 := by
      rcases hsp with rfl | hsp
      · decide
      · omega
    have hupper : ¬ (d.val ≥ 'A'.val ∧ d.val ≤ 'Z'.val) := by
      rintro ⟨hA, -⟩
      have h65 : 65 ≤ d.toNat := UInt32.le_iff_toNat_le.1 hA
      omega
    unfold Char.toLower at hlower
    rw [dif_neg hupper] at hlower
    rw [hlower] at hsmall
    exact absurd hsmall (by decide)

/-- The stages of the parser, for the grammar. -/
theorem byteRange_iff {value : Str} {first last : Int} (hf : -2 ^ 63 ≤ first ∧ first < 2 ^ 63)
    (hl : -2 ^ 63 ≤ last ∧ last < 2 ^ 63) :
    ByteRange value first last ↔ ∃ unit rest, value.dropWhile isSpace = unit ++ rest ∧
      unit.map Char.toLower = bytesUnit ∧ rest.head?.any isSpace = true ∧
      extractRange (rest.dropWhile isSpace) = some (first, last) := by
  constructor
  · rintro ⟨s₀, unit, s₁, f, s₂, s₃, l, rest, rfl, hs₀, hunit, hs₁, hne, hfirst, hs₂, hs₃, hlast, hrest⟩
    have hdrop := (span_iff.2 ⟨rfl, hs₀, bytesUnit_head hunit (s₁ ++ (f ++ (s₂ ++ '-' :: (s₃ ++ (l ++ rest)))))⟩).2
    obtain ⟨htake₁, hdrop₁⟩ := span_iff.2
      ⟨rfl, hs₁, hfirst.head_not_space (s₂ ++ '-' :: (s₃ ++ (l ++ rest)))⟩
    refine ⟨unit, _, hdrop, hunit, head_any_iff.2 (by rwa [htake₁]), ?_⟩
    rw [hdrop₁, extractRange_iff]
    exact ⟨⟨[], f, s₂, s₃, l, rest, rfl, fun c hc => absurd hc List.not_mem_nil, hfirst, hs₂, hs₃, hlast, hrest⟩,
      hf, hl⟩
  · rintro ⟨unit, rest, hdrop, hunit, hspace, hextract⟩
    obtain ⟨⟨s, f, s₂, s₃, l, rest', hrest, hs, hfirst, hs₂, hs₃, hlast, hend⟩, -⟩ := extractRange_iff.1 hextract
    obtain ⟨hvalue, hs₀, -⟩ := span_iff.1 ⟨rfl, hdrop⟩
    obtain ⟨hsplit, hs₁, -⟩ := span_iff.1 ⟨rfl, hrest⟩
    refine ⟨_, unit, rest.takeWhile isSpace ++ s, f, s₂, s₃, l, rest', ?_, hs₀, hunit, ?_, ?_, hfirst, hs₂, hs₃, hlast,
      hend⟩
    · rw [List.append_assoc, ← hsplit]
      exact hvalue
    · intro c hc
      rcases List.mem_append.1 hc with hc | hc
      · exact hs₁ c hc
      · exact hs c hc
    · exact List.append_ne_nil_of_left_ne_nil (head_any_iff.1 hspace) s

theorem Numeral.no_nul {number : Str} {n : Int} (h : Numeral number n) : ∀ c ∈ number, c ≠ '\x00' := by
  have hdigit : ∀ {digits : Str}, (∀ d ∈ digits, d.isDigit = true) → ∀ c ∈ digits, c ≠ '\x00' :=
    fun hd c hc => isDigit_ne (hd c hc) (by decide)
  cases h with
  | plain _ hd => exact hdigit hd
  | plus _ hd => exact List.forall_mem_cons.2 ⟨by decide, hdigit hd⟩
  | minus _ hd => exact List.forall_mem_cons.2 ⟨by decide, hdigit hd⟩

theorem Spaces.no_nul {s : Str} (h : Spaces s) : ∀ c ∈ s, c ≠ '\x00' := by
  rintro c hc rfl
  exact absurd (h _ hc) (by decide)

theorem bytesUnit_no_nul {unit : Str} (h : unit.map Char.toLower = bytesUnit) : ∀ c ∈ unit, c ≠ '\x00' := by
  rintro c hc rfl
  have hmem : Char.toLower '\x00' ∈ bytesUnit := h ▸ List.mem_map_of_mem hc
  exact absurd hmem (by decide)

/-- What stands behind a NUL does not matter. -/
theorem byteRange_cString {text : Str} {first last : Int} :
    ByteRange (text.takeWhile (· ≠ '\x00')) first last ↔ ByteRange text first last := by
  constructor
  · rintro ⟨s₀, unit, s₁, f, s₂, s₃, l, rest, htext, hs₀, hunit, hs₁, hne, hf, hs₂, hs₃, hl, hrest⟩
    obtain ⟨happ, -, hnul⟩ := span_iff.1 ⟨htext, rfl⟩
    refine ⟨s₀, unit, s₁, f, s₂, s₃, l, rest ++ text.dropWhile (· ≠ '\x00'), ?_, hs₀, hunit, hs₁, hne, hf, hs₂, hs₃, hl,
      ?_⟩
    · conv => lhs; rw [happ]
      simp only [List.append_assoc, List.cons_append]
    · cases rest with
      | cons c rest => exact hrest
      | nil =>
        intro c hc
        obtain rfl : c = '\x00' := by simpa using hnul c hc
        decide
  · rintro ⟨s₀, unit, s₁, f, s₂, s₃, l, rest, rfl, hs₀, hunit, hs₁, hne, hf, hs₂, hs₃, hl, hrest⟩
    have hkeep : ∀ {front back : Str}, (∀ c ∈ front, c ≠ '\x00') →
        (front ++ back).takeWhile (· ≠ '\x00') = front ++ back.takeWhile (· ≠ '\x00') :=
      fun h => List.takeWhile_append_of_pos fun c hc => decide_eq_true (h c hc)
    refine ⟨s₀, unit, s₁, f, s₂, s₃, l, rest.takeWhile (· ≠ '\x00'), ?_, hs₀, hunit, hs₁, hne, hf, hs₂, hs₃, hl, ?_⟩
    · rw [hkeep hs₀.no_nul, hkeep (bytesUnit_no_nul hunit), hkeep hs₁.no_nul, hkeep hf.no_nul, hkeep hs₂.no_nul,
        List.takeWhile_cons_of_pos (by decide), hkeep hs₃.no_nul, hkeep hl.no_nul]
    · intro c hc
      cases rest with
      | nil => exact absurd hc (by simp)
      | cons d rest =>
        rw [List.takeWhile_cons] at hc
        split at hc
        · exact hrest c hc
        · exact absurd hc (by simp)

theorem not_byteRange_nil {first last : Int} : ¬ ByteRange [] first last := by
  rintro ⟨s₀, unit, s₁, f, s₂, s₃, l, rest, htext, -⟩
  have hlength := congrArg List.length htext
  simp at hlength

theorem sizeT_eq {n : Int} (h₀ : 0 ≤ n) (h : n < 2 ^ 64) : sizeT n = some n.toNat := if_pos ⟨h₀, h⟩

theorem drop_skipSpaces (value : Str) (pos : Nat) :
    value.drop (skipSpaces value pos) = (value.drop pos).dropWhile isSpace := by
  have happ : value.drop pos = (value.drop pos).takeWhile isSpace ++ (value.drop pos).dropWhile isSpace :=
    List.takeWhile_append_dropWhile.symm
  have hdrop := congrArg (List.drop ((value.drop pos).takeWhile isSpace).length) happ
  rw [List.drop_left, List.drop_drop] at hdrop
  exact hdrop

theorem skipSpaces_le {value : Str} {pos : Nat} (h : pos ≤ value.length) : skipSpaces value pos ≤ value.length := by
  have hle := (List.takeWhile_sublist isSpace (l := value.drop pos)).length_le
  rw [List.length_drop] at hle
  unfold skipSpaces
  omega

/-- **An answer is taken for the range asked for** only where it says so, or says nothing to a read from 0. -/
theorem rangeResponseHonoursRequest_spec (contentRange : HeaderValue) (allowUnverified : Bool) {start stop : Int}
    (hstart : -2 ^ 63 ≤ start ∧ start < 2 ^ 63) (hstop : -2 ^ 63 ≤ stop ∧ stop < 2 ^ 63) :
    ∃ honoured, rangeResponseHonoursRequest contentRange start stop allowUnverified = some honoured ∧
      (honoured = true ↔ contentRange.text = [] ∧ (start = 0 ∨ allowUnverified = true) ∨
        ByteRange contentRange.text start stop) := by
  unfold rangeResponseHonoursRequest
  by_cases hempty : contentRange.text = []
  · rw [if_pos hempty]
    refine ⟨_, rfl, ?_⟩
    rw [hempty]
    simp [not_byteRange_nil]
  rw [if_neg hempty, ← byteRange_cString, byteRange_iff hstart hstop]
  simp only [hempty, false_and, false_or]
  have hvalue : (contentRange.text.takeWhile (· ≠ '\x00')).length < 2 ^ 63 :=
    ((List.takeWhile_sublist _).length_le).trans_lt contentRange.size_lt
  generalize contentRange.text.takeWhile (· ≠ '\x00') = value at hvalue ⊢
  have hskip := skipSpaces_le (Nat.zero_le value.length)
  have hdrop : value.drop (skipSpaces value 0) = value.dropWhile isSpace := drop_skipSpaces value 0
  have hlength : value.length - skipSpaces value 0 = (value.dropWhile isSpace).length := by
    rw [← hdrop, List.length_drop]
  have hleft : sizeT (value.length - skipSpaces value 0) = some (value.dropWhile isSpace).length := by
    rw [sizeT_eq (by omega) (by omega), ← hlength]
    congr 1
    omega
  have hunit : bytesUnit.length = 5 := rfl
  simp only [hleft, hdrop, hunit, Option.bind_eq_bind, Option.bind_some]
  by_cases hmatch : 5 ≤ (value.dropWhile isSpace).length ∧
      ((value.dropWhile isSpace).take 5).map Char.toLower = bytesUnit
  · have hpos : sizeT (skipSpaces value 0 + 5) = some (skipSpaces value 0 + 5) := by
      rw [sizeT_eq (by omega) (by omega)]
      congr 1
    have hrest : value.drop (skipSpaces value 0 + 5) = (value.dropWhile isSpace).drop 5 := by
      rw [← List.drop_drop, hdrop]
    rw [if_neg (not_not.2 hmatch)]
    simp only [Nat.cast_ofNat, hpos, Option.bind_some, drop_skipSpaces, hrest]
    have hstages : (∃ unit rest, value.dropWhile isSpace = unit ++ rest ∧ unit.map Char.toLower = bytesUnit ∧
        rest.head?.any isSpace = true ∧ extractRange (rest.dropWhile isSpace) = some (start, stop)) ↔
        ((value.dropWhile isSpace).drop 5).head?.any isSpace = true ∧
          extractRange (((value.dropWhile isSpace).drop 5).dropWhile isSpace) = some (start, stop) := by
      constructor
      · rintro ⟨unit, rest, happ, hu, h⟩
        have hlen : unit.length = 5 := by rw [← List.length_map, hu, hunit]
        rw [happ, ← hlen, List.drop_left]
        exact h
      · intro h
        exact ⟨_, _, (List.take_append_drop 5 _).symm, hmatch.2, h⟩
    rw [hstages]
    cases hspace : ((value.dropWhile isSpace).drop 5).head?.any isSpace with
    | false => exact ⟨false, rfl, by simp⟩
    | true =>
      cases hextract : extractRange (((value.dropWhile isSpace).drop 5).dropWhile isSpace) with
      | none => exact ⟨false, rfl, by simp⟩
      | some range => exact ⟨_, rfl, by simp [Prod.ext_iff]⟩
  · rw [if_pos hmatch]
    refine ⟨false, rfl, iff_of_false (by simp) ?_⟩
    rintro ⟨unit, rest, happ, hu, -⟩
    have hlen : unit.length = 5 := by rw [← List.length_map, hu, hunit]
    refine hmatch ⟨?_, ?_⟩
    · rw [happ, List.length_append]
      omega
    · rw [happ, ← hlen, List.take_left, hu]

/-! ## The reads -/

theorem validateRange_spec {start stop : Int} (hstop : stop < 2 ^ 63) :
    validateRange start stop = some (if 0 ≤ start ∧ start ≤ stop ∧ stop - start < 2 ^ 63 - 1 then
      some (stop - start + 1) else none) := by
  unfold validateRange
  by_cases hs : start < 0
  · rw [if_pos hs, if_neg (by omega)]
    rfl
  · by_cases he : stop < start
    · rw [if_neg hs, if_pos he, if_neg (by omega)]
      rfl
    · have hspan : int64 (stop - start) = some (stop - start) := int64_eq_some.2 ⟨rfl, by omega, by omega⟩
      simp only [if_neg hs, if_neg he, hspan, Option.bind_eq_bind, Option.bind_some]
      by_cases hmax : stop - start = 9223372036854775807
      · rw [if_pos hmax, if_neg (by omega)]
        rfl
      · have hlength : int64 (stop - start + 1) = some (stop - start + 1) := int64_eq_some.2 ⟨rfl, by omega, by omega⟩
        rw [if_neg hmax, if_pos (by omega)]
        simp only [hlength, Option.bind_some]
        rfl

section Reads

variable {client : RangeClient} {heap : Heap} {object : Bytes} {start stop : Int} {answer : Nat → GetOutcome}

/-- A body of the right length, in an answer taken for the range. -/
theorem isRange_of_honoured (hverified : start = 0 ∨ client.allowUnverifiedRanges = false) (hs : 0 ≤ start)
    (hse : start ≤ stop) {contentRange : HeaderValue} {body : Bytes}
    (ht : (GetOutcome.success contentRange body).Truthful object start.toNat)
    (hh : contentRange.text = [] ∧ (start = 0 ∨ client.allowUnverifiedRanges = true) ∨
      ByteRange contentRange.text start stop) (hlength : (body.length : Int) = stop - start + 1) :
    IsRange object start stop body := by
  have hprefix : body <+: object.drop start.toNat := by
    rcases hh with ⟨hempty, hfrom⟩ | hrange
    · have hzero : start = 0 := by
        rcases hfrom with hzero | hunverified
        · exact hzero
        · refine hverified.resolve_right fun hf => ?_
          rw [hf] at hunverified
          exact absurd hunverified (by simp)
      subst hzero
      rcases ht.1 hempty with h | h
      · exact h
      · exact h
    · have hnat : ByteRange contentRange.text (start.toNat : Int) (stop.toNat : Int) := by
        rw [Int.toNat_of_nonneg hs, Int.toNat_of_nonneg (hs.trans hse)]
        exact hrange
      exact ht.2 _ _ hnat
  have hle := hprefix.length_le
  rw [List.length_drop] at hle
  refine ⟨hs, hse, by omega, ?_⟩
  have htake : (stop - start + 1).toNat = body.length := by omega
  rw [htake]
  exact List.prefix_iff_eq_take.1 hprefix

theorem getObjectRangeFrom_spec (heap : Heap) (hverified : start = 0 ∨ client.allowUnverifiedRanges = false)
    (hs : 0 ≤ start) (hse : start ≤ stop) (hstop : stop < 2 ^ 63)
    (ht : ∀ attempt, (answer attempt).Truthful object start.toNat) (left attempt : Nat) :
    ∃ data, getObjectRangeFrom client heap start stop answer (stop - start + 1) left attempt = some data ∧
      (data = [] ∨ IsRange object start stop data) := by
  induction left generalizing attempt with
  | zero => exact ⟨[], rfl, .inl rfl⟩
  | succ left ih =>
    have hagain : ∀ (p : Prop) [Decidable p], ∃ data,
        (if p then getObjectRangeFrom client heap start stop answer (stop - start + 1) left (attempt + 1)
          else some []) = some data ∧ (data = [] ∨ IsRange object start stop data) := by
      intro p _
      split
      · exact ih (attempt + 1)
      · exact ⟨[], rfl, .inl rfl⟩
    have htruthful := ht attempt
    unfold getObjectRangeFrom
    cases hanswer : answer attempt with
    | error retryable => exact hagain _
    | exception => exact hagain _
    | success contentRange body =>
      rw [hanswer] at htruthful
      have hstart : -2 ^ 63 ≤ start ∧ start < 2 ^ 63 := by omega
      have hstop' : -2 ^ 63 ≤ stop ∧ stop < 2 ^ 63 := by omega
      obtain ⟨honoured, heq, hiff⟩ :=
        rangeResponseHonoursRequest_spec contentRange client.allowUnverifiedRanges hstart hstop'
      simp only [heq, Option.bind_eq_bind, Option.bind_some]
      cases honoured with
      | false => exact ⟨[], rfl, .inl rfl⟩
      | true =>
        cases hgrows : heap.grows body.length with
        | false => exact hagain _
        | true =>
          have hlt := heap.lt_of_grows _ hgrows
          have hsize : int64 body.length = some (body.length : Int) := int64_eq_some.2 ⟨rfl, by omega, by omega⟩
          simp only [Bool.not_true, Bool.false_eq_true, if_false, if_true, hsize, Option.bind_some]
          by_cases hlong : (body.length : Int) > stop - start + 1
          · rw [if_pos hlong]
            exact ⟨[], rfl, .inl rfl⟩
          · rw [if_neg hlong]
            by_cases hshort : (body.length : Int) ≠ stop - start + 1
            · rw [if_pos hshort]
              exact hagain _
            · rw [if_neg hshort]
              exact ⟨body, rfl, .inr (isRange_of_honoured hverified hs hse htruthful (hiff.1 rfl) (not_not.1 hshort))⟩

theorem getObjectRangeIntoFrom_spec (heap : Heap) (hverified : start = 0 ∨ client.allowUnverifiedRanges = false)
    (hs : 0 ≤ start) (hse : start ≤ stop) (hstop : stop < 2 ^ 63)
    (ht : ∀ attempt, (answer attempt).Truthful object start.toNat)
    (left attempt : Nat) :
    ∃ ok buffer, getObjectRangeIntoFrom client heap start stop answer (stop - start + 1).toNat left attempt =
      some (ok, buffer) ∧ (ok = false ∧ buffer = [] ∨ ok = true ∧ IsRange object start stop buffer) := by
  induction left generalizing attempt with
  | zero => exact ⟨false, [], rfl, .inl ⟨rfl, rfl⟩⟩
  | succ left ih =>
    have hagain : ∀ (p : Prop) [Decidable p], ∃ ok buffer,
        (if p then getObjectRangeIntoFrom client heap start stop answer (stop - start + 1).toNat left (attempt + 1)
          else some (false, [])) = some (ok, buffer) ∧
          (ok = false ∧ buffer = [] ∨ ok = true ∧ IsRange object start stop buffer) := by
      intro p _
      split
      · exact ih (attempt + 1)
      · exact ⟨false, [], rfl, .inl ⟨rfl, rfl⟩⟩
    have htruthful := ht attempt
    unfold getObjectRangeIntoFrom
    cases hanswer : answer attempt with
    | error retryable => exact hagain _
    | exception => exact hagain _
    | success contentRange body =>
      rw [hanswer] at htruthful
      have hstart : -2 ^ 63 ≤ start ∧ start < 2 ^ 63 := by omega
      have hstop' : -2 ^ 63 ≤ stop ∧ stop < 2 ^ 63 := by omega
      obtain ⟨honoured, heq, hiff⟩ :=
        rangeResponseHonoursRequest_spec contentRange client.allowUnverifiedRanges hstart hstop'
      simp only [heq, Option.bind_eq_bind, Option.bind_some]
      cases honoured with
      | false => exact ⟨false, [], rfl, .inl ⟨rfl, rfl⟩⟩
      | true =>
        cases hholds : heap.holds (stop - start + 1).toNat with
        | false => exact ⟨false, [], rfl, .inl ⟨rfl, rfl⟩⟩
        | true =>
          simp only [Bool.not_true, Bool.false_eq_true, if_false]
          by_cases hlong : (body.take (stop - start + 1).toNat).length = (stop - start + 1).toNat ∧
              body.drop (stop - start + 1).toNat ≠ []
          · rw [if_pos hlong]
            exact ⟨false, [], rfl, .inl ⟨rfl, rfl⟩⟩
          · rw [if_neg hlong]
            by_cases hshort : (body.take (stop - start + 1).toNat).length ≠ (stop - start + 1).toNat
            · rw [if_pos hshort]
              exact hagain _
            · -- neither longer nor shorter
              rw [if_neg hshort]
              have hnil : body.drop (stop - start + 1).toNat = [] := by
                by_contra hne
                exact hlong ⟨not_not.1 hshort, hne⟩
              have hall : body.take (stop - start + 1).toNat = body :=
                List.take_of_length_le (List.drop_eq_nil_iff.1 hnil)
              rw [hall] at hshort ⊢
              have hrange : IsRange object start stop body :=
                isRange_of_honoured hverified hs hse htruthful (hiff.1 rfl) (by omega)
              exact ⟨true, body, rfl, .inr ⟨rfl, hrange⟩⟩

/-- **A ranged read that succeeds has the bytes it asked for**, and nothing overflows on the way. -/
theorem ranged_read_exact {start stop : Int64} (hverified : client.allowUnverifiedRanges = false)
    (ht : ∀ attempt, (answer attempt).Truthful object start.toInt.toNat) :
    (∃ data, getObjectRange client heap start.toInt stop.toInt answer = some data ∧
      (data ≠ [] → IsRange object start.toInt stop.toInt data)) ∧
    ∃ ok buffer, getObjectRangeInto client heap start.toInt stop.toInt answer = some (ok, buffer) ∧
      (ok = true → IsRange object start.toInt stop.toInt buffer) ∧ (ok = false → buffer = []) := by
  have hstop := stop.toInt_lt
  unfold getObjectRange getObjectRangeInto
  rw [validateRange_spec hstop]
  split
  · rename_i hvalid
    obtain ⟨hs, hse, hspan⟩ := hvalid
    have hsize : sizeT (stop.toInt - start.toInt + 1) = some (stop.toInt - start.toInt + 1).toNat :=
      sizeT_eq (by omega) (by omega)
    obtain ⟨data, hdata, hrange⟩ :=
      getObjectRangeFrom_spec heap (.inr hverified) hs hse hstop ht (client.maxRetries + 1).toNat 0
    obtain ⟨ok, buffer, hinto, hbuffer⟩ :=
      getObjectRangeIntoFrom_spec heap (.inr hverified) hs hse hstop ht (client.maxRetries + 1).toNat 0
    simp only [Option.bind_eq_bind, Option.bind_some, hsize]
    refine ⟨⟨data, hdata, hrange.resolve_left⟩, ok, buffer, hinto, ?_, ?_⟩
    · rintro rfl
      exact hbuffer.elim (fun h => absurd h.1 (by simp)) And.right
    · rintro rfl
      exact hbuffer.elim And.right (fun h => absurd h.1 (by simp))
  · exact ⟨⟨[], rfl, fun h => absurd rfl h⟩, false, [], rfl, fun h => absurd h (by simp), fun _ => rfl⟩

end Reads

/-! ### An answer cut short, and the one after it -/

theorem ByteRange.first_eq {text : Str} {first last : Int} (h : ByteRange text first last) :
    (readSigned (((text.dropWhile isSpace).drop 5).dropWhile isSpace)).map Prod.fst = some first := by
  obtain ⟨s₀, unit, s₁, f, s₂, s₃, l, rest, rfl, hs₀, hunit, hs₁, -, hf, hs₂, -, -, -⟩ := h
  have hdrop := (span_iff.2 ⟨rfl, hs₀, bytesUnit_head hunit (s₁ ++ (f ++ (s₂ ++ '-' :: (s₃ ++ (l ++ rest)))))⟩).2
  have hdrop₁ := (span_iff.2 ⟨rfl, hs₁, hf.head_not_space (s₂ ++ '-' :: (s₃ ++ (l ++ rest)))⟩).2
  have hlen : unit.length = 5 := by rw [← List.length_map, hunit]; rfl
  rw [hdrop, ← hlen, List.drop_left, hdrop₁,
    readSigned_iff.2 ⟨f, rfl, hf, spaces_dash_not_digit hs₂ (s₃ ++ (l ++ rest))⟩]
  rfl

def rangeHeader : HeaderValue := ⟨"bytes 2-4/6".toList, by decide⟩

def sixBytes : Bytes := [1, 2, 3, 4, 5, 6]

/-- The first body is cut off after a byte. -/
def cutAnswers : Nat → GetOutcome
  | 0 => .success rangeHeader [3]
  | _ => .success rangeHeader [3, 4, 5]

theorem cutAnswers_truthful (attempt : Nat) : (cutAnswers attempt).Truthful sixBytes 2 := by
  have hfirst : ∀ first last : Nat, ByteRange rangeHeader.text first last → first = 2 := by
    intro first last h
    have hread : (readSigned (((rangeHeader.text.dropWhile isSpace).drop 5).dropWhile isSpace)).map Prod.fst =
        some 2 := by decide
    exact Int.ofNat_inj.1 (Option.some.inj (h.first_eq.symm.trans hread))
  have htext : rangeHeader.text ≠ [] := by decide
  cases attempt with
  | zero =>
    refine ⟨fun h => absurd h htext, fun first last h => ?_⟩
    rw [hfirst first last h]
    decide
  | succ attempt =>
    refine ⟨fun h => absurd h htext, fun first last h => ?_⟩
    rw [hfirst first last h]
    decide

def anyHeap : Heap :=
  ⟨fun n => n < 2 ^ 63, fun n => n < 2 ^ 63, fun _ h => of_decide_eq_true h, fun _ h => of_decide_eq_true h⟩

theorem ranged_read_exact_cut :
    (getObjectRange {} anyHeap 2 4 cutAnswers = some [3, 4, 5] ∧
      getObjectRangeInto {} anyHeap 2 4 cutAnswers = some (true, [3, 4, 5])) ∧ IsRange sixBytes 2 4 [3, 4, 5] := by
  have hread : getObjectRange {} anyHeap 2 4 cutAnswers = some [3, 4, 5] := by decide
  have hinto : getObjectRangeInto {} anyHeap 2 4 cutAnswers = some (true, [3, 4, 5]) := by decide
  obtain ⟨⟨data, hdata, hrange⟩, -⟩ := @ranged_read_exact {} anyHeap sixBytes cutAnswers 2 4 rfl cutAnswers_truthful
  obtain rfl : data = [3, 4, 5] := Option.some.inj (hdata.symm.trans hread)
  exact ⟨⟨hread, hinto⟩, hrange (by simp)⟩

end Mito
