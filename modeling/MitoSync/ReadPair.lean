import MitoSync.RangedRead
import MitoSync.Lib.Retry
/-!
# ReadPair — the two ranged reads side by side

`GetObjectRange` and `GetObjectRangeInto` as loops of attempts, with the requests they send and with the buffer that the
second is given.  They give the same bytes after as many requests, unless an answer passes for the range with a body that
no vector grows to: the first reads all of it into a vector, takes the failed allocation for an exception and asks again,
where the second has its buffer and sees whether the bytes are too many, too few or the range.
-/
namespace Mito

open Lib.Retry (Verdict attempts InStep Agree Parted)

/-! ## The code -/

section Reads

variable (client : RangeClient) (heap : Heap) (start stop : Int) (answer : Nat → GetOutcome)

/-- An attempt of `GetObjectRange`, with `left` more behind it. -/
def getObjectRangeAttempt (expectedLength : Int) (left attempt : Nat) (_ : Unit) : Option (Verdict Unit Bytes) :=
  match answer attempt with
  | .success contentRange body => do
    let honoured ← rangeResponseHonoursRequest contentRange start stop client.allowUnverifiedRanges
    if !honoured then return .done []
    if heap.grows body.length then
      let size ← int64 body.length
      if size > expectedLength then return .done []
      if size ≠ expectedLength then
        if attempt < 1 ∧ left ≠ 0 then return .again () else return .done []
      else return .done body
    else if left ≠ 0 then return .again () else return .done []
  | .error retryable => if left ≠ 0 ∧ retryable then some (.again ()) else some (.done [])
  | .exception => if left ≠ 0 then some (.again ()) else some (.done [])

/-- `GetObjectRange`: its result, and the requests it sends. -/
def getObjectRangeSent : Option (Bytes × Nat) := do
  match ← validateRange start stop with
  | none => return ([], 0)
  | some expectedLength =>
    attempts (getObjectRangeAttempt client heap start stop answer expectedLength) (fun _ => [])
      (client.maxRetries + 1).toNat 0 ()

/-- An attempt of `GetObjectRangeInto`, on what the buffer holds. -/
def getObjectRangeIntoAttempt (expectedSize : Nat) (left attempt : Nat) (buffer : Bytes) :
    Option (Verdict Bytes (Bool × Bytes)) :=
  match answer attempt with
  | .success contentRange body => do
    let honoured ← rangeResponseHonoursRequest contentRange start stop client.allowUnverifiedRanges
    if !honoured then return .done (false, [])
    if !heap.holds expectedSize then return .done (false, [])
    let buffer := body.take expectedSize
    if buffer.length = expectedSize ∧ body.drop expectedSize ≠ [] then return .done (false, [])
    if buffer.length ≠ expectedSize then
      -- the buffer is cleared before the second attempt
      if attempt < 1 ∧ left ≠ 0 then return .again [] else return .done (false, [])
    else return .done (true, buffer)
  | .error retryable => if left ≠ 0 ∧ retryable then some (.again buffer) else some (.done (false, []))
  | .exception => if left ≠ 0 then some (.again buffer) else some (.done (false, []))

/-- `GetObjectRangeInto` with the buffer it is given: its result, the buffer it leaves, and the requests it sends. -/
def getObjectRangeIntoSent (buffer : Bytes) : Option ((Bool × Bytes) × Nat) := do
  match ← validateRange start stop with
  | none => return ((false, []), 0)
  | some expectedLength =>
    let expectedSize ← sizeT expectedLength
    attempts (getObjectRangeIntoAttempt client heap start stop answer expectedSize) (fun _ => (false, []))
      (client.maxRetries + 1).toNat 0 buffer

/-! ## Where they part -/

/-- The results of the two reads agree: bytes or success, the same bytes, and an empty buffer behind a failure. -/
def SameRead (data : Bytes) (into : Bool × Bytes) : Prop :=
  (into.1 = true ↔ data ≠ []) ∧ (into.1 = true → into.2 = data) ∧ (into.1 = false → into.2 = [])

/-- The two reads come to the same, whatever the buffer held, after as many requests. -/
def Interchangeable : Prop :=
  ∀ buffer, ∃ read into, getObjectRangeSent client heap start stop answer = some read ∧
    getObjectRangeIntoSent client heap start stop answer buffer = some into ∧ SameRead read.1 into.1 ∧ read.2 = into.2

/-- The header lets an answer pass for the range. -/
def RangeClient.Accepts (contentRange : HeaderValue) : Prop :=
  contentRange.text = [] ∧ (start = 0 ∨ client.allowUnverifiedRanges = true) ∨ ByteRange contentRange.text start stop

/-- An answer, with so many retries left, that passes for the range with a body that no vector grows to, and that
`GetObjectRangeInto` is done with: the range itself, or before the last attempt a longer body or another short one. -/
def GetOutcome.Outgrows (left attempt : Nat) : GetOutcome → Prop
  | .success contentRange body =>
    client.Accepts start stop contentRange ∧ heap.grows body.length = false ∧
      ((body.length : Int) = stop - start + 1 ∨ left ≠ 0 ∧ ((body.length : Int) > stop - start + 1 ∨ attempt ≠ 0))
  | .error _ => False
  | .exception => False

/-- An answer that another attempt follows: an error to retry, an exception, or the first body that is cut short. -/
def GetOutcome.TriedAgain (attempt : Nat) : GetOutcome → Prop
  | .success contentRange body =>
    client.Accepts start stop contentRange ∧ (body.length : Int) < stop - start + 1 ∧ attempt = 0
  | .error retryable => retryable = true
  | .exception => True

/-- Such an answer comes behind answers that were all tried again. -/
def Outgrown : Prop :=
  0 ≤ start ∧ start ≤ stop ∧ ∃ k left : Nat, (k + left : Int) = client.maxRetries ∧
    (answer k).Outgrows client heap start stop left k ∧ ∀ j < k, (answer j).TriedAgain client start stop j

end Reads

/-! ## Each attempt -/

section Reads

variable {client : RangeClient} {heap : Heap} {start stop : Int} {answer : Nat → GetOutcome} {left attempt : Nat}
  {buffer : Bytes} {contentRange : HeaderValue} {body : Bytes}

variable (client contentRange) in
/-- The parser lets an answer pass or not. -/
theorem honours_eq (hs : 0 ≤ start) (hse : start ≤ stop) (hstop : stop < 2 ^ 63) :
    (client.Accepts start stop contentRange ∧
      rangeResponseHonoursRequest contentRange start stop client.allowUnverifiedRanges = some true) ∨
    (¬ client.Accepts start stop contentRange ∧
      rangeResponseHonoursRequest contentRange start stop client.allowUnverifiedRanges = some false) := by
  have hstart : -2 ^ 63 ≤ start ∧ start < 2 ^ 63 := by omega
  have hstop' : -2 ^ 63 ≤ stop ∧ stop < 2 ^ 63 := by omega
  obtain ⟨honoured, heq, hiff⟩ :=
    rangeResponseHonoursRequest_spec contentRange client.allowUnverifiedRanges hstart hstop'
  cases honoured with
  | true => exact .inl ⟨hiff.1 rfl, heq⟩
  | false => exact .inr ⟨fun h => absurd (hiff.2 h) (by simp), heq⟩

variable (heap left) in
theorem getObjectRangeAttempt_accepted (hanswer : answer attempt = .success contentRange body)
    (hh : rangeResponseHonoursRequest contentRange start stop client.allowUnverifiedRanges = some true) :
    getObjectRangeAttempt client heap start stop answer (stop - start + 1) left attempt () =
      some (if heap.grows body.length then
        if (body.length : Int) > stop - start + 1 then .done []
        else if (body.length : Int) ≠ stop - start + 1 then
          if attempt < 1 ∧ left ≠ 0 then .again () else .done []
        else .done body
      else if left ≠ 0 then .again () else .done []) := by
  unfold getObjectRangeAttempt
  rw [hanswer]
  dsimp only
  rw [hh]
  cases hgrows : heap.grows body.length with
  | false =>
    simp only [Option.bind_eq_bind, Option.bind_some, Bool.not_true, Bool.false_eq_true, if_false]
    split <;> rfl
  | true =>
    have hlt := heap.lt_of_grows _ hgrows
    have hsize : int64 body.length = some (body.length : Int) := int64_eq_some.2 ⟨rfl, by omega, by omega⟩
    simp only [Option.bind_eq_bind, Option.bind_some, Bool.not_true, Bool.false_eq_true, if_false, if_true, hsize]
    split
    · rfl
    · split
      · split <;> rfl
      · rfl

variable (left buffer) in
theorem getObjectRangeIntoAttempt_accepted (hanswer : answer attempt = .success contentRange body)
    (hh : rangeResponseHonoursRequest contentRange start stop client.allowUnverifiedRanges = some true)
    (hfits : heap.holds (stop - start + 1).toNat = true) (hse : start ≤ stop) :
    getObjectRangeIntoAttempt client heap start stop answer (stop - start + 1).toNat left attempt buffer =
      some (if (body.length : Int) > stop - start + 1 then .done (false, [])
        else if (body.length : Int) ≠ stop - start + 1 then
          if attempt < 1 ∧ left ≠ 0 then .again [] else .done (false, [])
        else .done (true, body)) := by
  unfold getObjectRangeIntoAttempt
  rw [hanswer]
  dsimp only
  rw [hh]
  simp only [Option.bind_eq_bind, Option.bind_some, Bool.not_true, Bool.false_eq_true, if_false, hfits,
    List.length_take]
  have hlong : (min (stop - start + 1).toNat body.length = (stop - start + 1).toNat ∧
      body.drop (stop - start + 1).toNat ≠ []) ↔ (body.length : Int) > stop - start + 1 := by
    rw [ne_eq, List.drop_eq_nil_iff]
    omega
  by_cases hl : (body.length : Int) > stop - start + 1
  · rw [if_pos (hlong.2 hl), if_pos hl]
    rfl
  · rw [if_neg (fun h => hl (hlong.1 h)), if_neg hl]
    by_cases hshort : (body.length : Int) ≠ stop - start + 1
    · have hmin : min (stop - start + 1).toNat body.length ≠ (stop - start + 1).toNat := by omega
      rw [if_pos hmin, if_pos hshort]
      split <;> rfl
    · have hmin : ¬ min (stop - start + 1).toNat body.length ≠ (stop - start + 1).toNat := by omega
      have htake : body.take (stop - start + 1).toNat = body := List.take_of_length_le (by omega)
      rw [if_neg hmin, if_neg hshort, htake]
      rfl

variable (heap left buffer) in
theorem refused_attempts (hanswer : answer attempt = .success contentRange body)
    (hh : rangeResponseHonoursRequest contentRange start stop client.allowUnverifiedRanges = some false) :
    getObjectRangeAttempt client heap start stop answer (stop - start + 1) left attempt () = some (.done []) ∧
    getObjectRangeIntoAttempt client heap start stop answer (stop - start + 1).toNat left attempt buffer =
      some (.done (false, [])) := by
  unfold getObjectRangeAttempt getObjectRangeIntoAttempt
  rw [hanswer]
  dsimp only
  rw [hh]
  exact ⟨rfl, rfl⟩

theorem sameRead_failed : SameRead [] (false, []) := ⟨by simp, by simp, fun _ => rfl⟩

theorem sameRead_read (h : body ≠ []) : SameRead body (true, body) := ⟨by simp [h], fun _ => rfl, by simp⟩

/-- Where the body is not too long to grow to, both go on or both are done, with the same bytes. -/
theorem attempts_agree (hs : 0 ≤ start) (hse : start ≤ stop) (hstop : stop < 2 ^ 63)
    (hfits : heap.holds (stop - start + 1).toNat = true)
    (hgrown : ¬ (answer attempt).Outgrows client heap start stop left attempt) :
    Agree (getObjectRangeAttempt client heap start stop answer (stop - start + 1))
      (getObjectRangeIntoAttempt client heap start stop answer (stop - start + 1).toNat)
      (fun _ _ => True) SameRead left attempt () buffer := by
  cases hanswer : answer attempt with
  | error retryable =>
    by_cases hagain : left ≠ 0 ∧ retryable = true
    · refine .again () buffer ?_ ?_ trivial
      · rw [getObjectRangeAttempt, hanswer]
        exact if_pos hagain
      · rw [getObjectRangeIntoAttempt, hanswer]
        exact if_pos hagain
    · refine .done [] (false, []) ?_ ?_ sameRead_failed
      · rw [getObjectRangeAttempt, hanswer]
        exact if_neg hagain
      · rw [getObjectRangeIntoAttempt, hanswer]
        exact if_neg hagain
  | exception =>
    by_cases hagain : left ≠ 0
    · refine .again () buffer ?_ ?_ trivial
      · rw [getObjectRangeAttempt, hanswer]
        exact if_pos hagain
      · rw [getObjectRangeIntoAttempt, hanswer]
        exact if_pos hagain
    · refine .done [] (false, []) ?_ ?_ sameRead_failed
      · rw [getObjectRangeAttempt, hanswer]
        exact if_neg hagain
      · rw [getObjectRangeIntoAttempt, hanswer]
        exact if_neg hagain
  | success contentRange body =>
    rcases honours_eq client contentRange hs hse hstop with ⟨haccepts, hh⟩ | ⟨-, hh⟩
    · have hread := getObjectRangeAttempt_accepted heap left hanswer hh
      have hinto := getObjectRangeIntoAttempt_accepted left buffer hanswer hh hfits hse
      cases hgrows : heap.grows body.length with
      | true =>
        rw [if_pos hgrows] at hread
        rcases lt_trichotomy (body.length : Int) (stop - start + 1) with hshort | hexact | hlong
        · rw [if_neg (by omega), if_pos (by omega)] at hread hinto
          by_cases hagain : attempt < 1 ∧ left ≠ 0
          · rw [if_pos hagain] at hread hinto
            exact .again () [] hread hinto trivial
          · rw [if_neg hagain] at hread hinto
            exact .done [] (false, []) hread hinto sameRead_failed
        · rw [if_neg (by omega), if_neg (by omega)] at hread hinto
          have hne : body ≠ [] := by
            rintro rfl
            simp at hexact
            omega
          exact .done body (true, body) hread hinto (sameRead_read hne)
        · rw [if_pos hlong] at hread hinto
          exact .done [] (false, []) hread hinto sameRead_failed
      | false =>
        rw [hanswer] at hgrown
        have hnot : ¬ ((body.length : Int) = stop - start + 1 ∨
            left ≠ 0 ∧ ((body.length : Int) > stop - start + 1 ∨ attempt ≠ 0)) :=
          fun h => hgrown ⟨haccepts, hgrows, h⟩
        rw [if_neg (by simp [hgrows])] at hread
        by_cases hleft : left ≠ 0
        · -- the first body, and short: both try again
          rw [if_pos hleft] at hread
          rw [if_neg (by omega), if_pos (by omega), if_pos (by omega)] at hinto
          exact .again () [] hread hinto trivial
        · rw [if_neg hleft] at hread
          refine .done [] (false, []) hread ?_ sameRead_failed
          by_cases hlong : (body.length : Int) > stop - start + 1
          · rw [if_pos hlong] at hinto
            exact hinto
          · rw [if_neg hlong, if_pos (by omega), if_neg (by omega)] at hinto
            exact hinto
    · obtain ⟨hread, hinto⟩ := refused_attempts heap left buffer hanswer hh
      exact .done [] (false, []) hread hinto sameRead_failed

/-- An attempt of `GetObjectRange` is followed by another one where there is one left, after an answer to try again or
one whose body no vector grows to. -/
theorem getObjectRangeAttempt_cases (hs : 0 ≤ start) (hse : start ≤ stop) (hstop : stop < 2 ^ 63) :
    (∃ r, getObjectRangeAttempt client heap start stop answer (stop - start + 1) left attempt () = some (.done r)) ∧
        (left ≠ 0 → ¬ (answer attempt).TriedAgain client start stop attempt) ∨
      getObjectRangeAttempt client heap start stop answer (stop - start + 1) left attempt () = some (.again ()) ∧
        ((answer attempt).TriedAgain client start stop attempt ∨
          (answer attempt).Outgrows client heap start stop left attempt) := by
  cases hanswer : answer attempt with
  | error retryable =>
    unfold getObjectRangeAttempt
    rw [hanswer]
    by_cases hagain : left ≠ 0 ∧ retryable = true
    · exact .inr ⟨if_pos hagain, .inl hagain.2⟩
    · exact .inl ⟨⟨[], if_neg hagain⟩, fun hleft h => hagain ⟨hleft, h⟩⟩
  | exception =>
    unfold getObjectRangeAttempt
    rw [hanswer]
    by_cases hagain : left ≠ 0
    · exact .inr ⟨if_pos hagain, .inl trivial⟩
    · exact .inl ⟨⟨[], if_neg hagain⟩, fun hleft => absurd hleft hagain⟩
  | success contentRange body =>
    rcases honours_eq client contentRange hs hse hstop with ⟨haccepts, hh⟩ | ⟨hnot, hh⟩
    · have hread := getObjectRangeAttempt_accepted heap left hanswer hh
      cases hgrows : heap.grows body.length with
      | false =>
        rw [if_neg (by simp [hgrows])] at hread
        by_cases hleft : left ≠ 0
        · rw [if_pos hleft] at hread
          refine .inr ⟨hread, ?_⟩
          by_cases hshort : (body.length : Int) < stop - start + 1 ∧ attempt = 0
          · exact .inl ⟨haccepts, hshort⟩
          · exact .inr ⟨haccepts, hgrows, by omega⟩
        · rw [if_neg hleft] at hread
          exact .inl ⟨⟨[], hread⟩, fun h => absurd h hleft⟩
      | true =>
        rw [if_pos hgrows] at hread
        rcases lt_trichotomy (body.length : Int) (stop - start + 1) with hshort | hexact | hlong
        · rw [if_neg (by omega), if_pos (by omega)] at hread
          by_cases hagain : attempt < 1 ∧ left ≠ 0
          · rw [if_pos hagain] at hread
            exact .inr ⟨hread, .inl ⟨haccepts, hshort, by omega⟩⟩
          · rw [if_neg hagain] at hread
            exact .inl ⟨⟨[], hread⟩, fun hleft h => hagain ⟨h.2.2 ▸ Nat.one_pos, hleft⟩⟩
        · rw [if_neg (by omega), if_neg (by omega)] at hread
          exact .inl ⟨⟨body, hread⟩, fun _ h => absurd h.2.1 (by omega)⟩
        · rw [if_pos hlong] at hread
          exact .inl ⟨⟨[], hread⟩, fun _ h => absurd h.2.1 (by omega)⟩
    · exact .inl ⟨⟨[], (refused_attempts heap left [] hanswer hh).1⟩, fun _ h => hnot h.1⟩

/-- Where no vector grows to the body, one goes on and the other is done, or only the second has the bytes. -/
theorem outgrows_parted (hs : 0 ≤ start) (hse : start ≤ stop) (hstop : stop < 2 ^ 63)
    (hfits : heap.holds (stop - start + 1).toNat = true)
    (houtgrows : (answer attempt).Outgrows client heap start stop left attempt) :
    Parted (getObjectRangeAttempt client heap start stop answer (stop - start + 1))
      (getObjectRangeIntoAttempt client heap start stop answer (stop - start + 1).toNat) SameRead left attempt ()
      buffer := by
  cases hanswer : answer attempt with
  | error retryable =>
    rw [hanswer] at houtgrows
    exact houtgrows.elim
  | exception =>
    rw [hanswer] at houtgrows
    exact houtgrows.elim
  | success contentRange body =>
    rw [hanswer] at houtgrows
    obtain ⟨haccepts, hgrows, hlength⟩ := houtgrows
    have hh := ((honours_eq client contentRange hs hse hstop).resolve_right fun h => h.1 haccepts).2
    have hread := getObjectRangeAttempt_accepted heap left hanswer hh
    have hinto := getObjectRangeIntoAttempt_accepted left buffer hanswer hh hfits hse
    rw [if_neg (by simp [hgrows])] at hread
    by_cases hexact : (body.length : Int) = stop - start + 1
    · rw [if_neg (by omega), if_neg (by omega)] at hinto
      by_cases hleft : left ≠ 0
      · rw [if_pos hleft] at hread
        exact .again () _ hleft hread hinto
      · rw [if_neg hleft] at hread
        exact .done [] _ hread hinto fun h => absurd rfl (h.1.1 rfl)
    · obtain ⟨hleft, hlate⟩ := hlength.resolve_left hexact
      rw [if_pos hleft] at hread
      by_cases hlong : (body.length : Int) > stop - start + 1
      · rw [if_pos hlong] at hinto
        exact .again () _ hleft hread hinto
      · rw [if_neg hlong, if_pos hexact, if_neg (by omega)] at hinto
        exact .again () _ hleft hread hinto

end Reads

/-! ## The two loops -/

section Reads

variable {client : RangeClient} {heap : Heap} {start stop : Int} {answer : Nat → GetOutcome}

theorem attempts_read (expectedLength : Int) (left attempt : Nat) (s : Unit) :
    (attempts (getObjectRangeAttempt client heap start stop answer expectedLength) (fun _ => []) left attempt s).map
      Prod.fst = getObjectRangeFrom client heap start stop answer expectedLength left attempt := by
  induction left generalizing attempt s with
  | zero => rfl
  | succ left ih =>
    rw [Lib.Retry.attempts_fst]
    simp only [ih]
    rw [getObjectRangeAttempt, getObjectRangeFrom]
    cases answer attempt with
    | error retryable =>
      dsimp only
      split <;> rfl
    | exception =>
      dsimp only
      split <;> rfl
    | success contentRange body =>
      dsimp only
      cases rangeResponseHonoursRequest contentRange start stop client.allowUnverifiedRanges with
      | none => rfl
      | some honoured =>
        cases honoured with
        | false => rfl
        | true =>
          simp only [Option.bind_eq_bind, Option.bind_some, Bool.not_true, Bool.false_eq_true, if_false]
          cases heap.grows body.length with
          | false =>
            simp only [Bool.false_eq_true, if_false]
            split <;> rfl
          | true =>
            simp only [if_true]
            cases int64 body.length with
            | none => rfl
            | some size =>
              simp only [Option.bind_some]
              split
              · rfl
              · split
                · split <;> rfl
                · rfl

theorem attempts_readInto (expectedSize left attempt : Nat) (buffer : Bytes) :
    (attempts (getObjectRangeIntoAttempt client heap start stop answer expectedSize) (fun _ => (false, [])) left attempt
      buffer).map Prod.fst = getObjectRangeIntoFrom client heap start stop answer expectedSize left attempt := by
  induction left generalizing attempt buffer with
  | zero => rfl
  | succ left ih =>
    rw [Lib.Retry.attempts_fst]
    simp only [ih]
    rw [getObjectRangeIntoAttempt, getObjectRangeIntoFrom]
    cases answer attempt with
    | error retryable =>
      dsimp only
      split <;> rfl
    | exception =>
      dsimp only
      split <;> rfl
    | success contentRange body =>
      dsimp only
      cases rangeResponseHonoursRequest contentRange start stop client.allowUnverifiedRanges with
      | none => rfl
      | some honoured =>
        cases honoured with
        | false => rfl
        | true =>
          simp only [Option.bind_eq_bind, Option.bind_some, Bool.not_true, Bool.false_eq_true, if_false]
          split
          · rfl
          · split
            · rfl
            · split
              · split <;> rfl
              · rfl

theorem getObjectRangeSent_eq {length : Int} (h : validateRange start stop = some (some length)) :
    getObjectRangeSent client heap start stop answer =
      attempts (getObjectRangeAttempt client heap start stop answer length) (fun _ => [])
        (client.maxRetries + 1).toNat 0 () := by
  rw [getObjectRangeSent, h]
  rfl

theorem getObjectRangeIntoSent_eq {length : Int} (buffer : Bytes) (h : validateRange start stop = some (some length))
    (h₀ : 0 ≤ length) (h₁ : length < 2 ^ 63) :
    getObjectRangeIntoSent client heap start stop answer buffer =
      attempts (getObjectRangeIntoAttempt client heap start stop answer length.toNat) (fun _ => (false, []))
        (client.maxRetries + 1).toNat 0 buffer := by
  have hsize : sizeT length = some length.toNat := sizeT_eq h₀ (by omega)
  rw [getObjectRangeIntoSent, h]
  simp only [Option.bind_eq_bind, Option.bind_some, hsize]

/-- The reads with their requests are the reads. -/
theorem getObjectRangeSent_fst :
    (getObjectRangeSent client heap start stop answer).map Prod.fst =
      getObjectRange client heap start stop answer := by
  unfold getObjectRangeSent getObjectRange
  cases validateRange start stop with
  | none => rfl
  | some range =>
    cases range with
    | none => rfl
    | some expectedLength => exact attempts_read expectedLength _ 0 ()

theorem getObjectRangeIntoSent_fst (buffer : Bytes) :
    (getObjectRangeIntoSent client heap start stop answer buffer).map Prod.fst =
      getObjectRangeInto client heap start stop answer := by
  unfold getObjectRangeIntoSent getObjectRangeInto
  cases validateRange start stop with
  | none => rfl
  | some range =>
    cases range with
    | none => rfl
    | some expectedLength =>
      simp only [Option.bind_eq_bind, Option.bind_some]
      cases sizeT expectedLength with
      | none => rfl
      | some expectedSize => exact attempts_readInto expectedSize _ 0 buffer

/-- The loops stay in step until no vector grows to a body. -/
theorem reads_inStep (buffer : Bytes) (hs : 0 ≤ start) (hse : start ≤ stop) (hstop : stop < 2 ^ 63)
    (hfits : heap.holds (stop - start + 1).toNat = true) (left : Nat) :
    InStep (getObjectRangeAttempt client heap start stop answer (stop - start + 1)) (fun _ => [])
        (getObjectRangeIntoAttempt client heap start stop answer (stop - start + 1).toNat) (fun _ => (false, []))
        SameRead left 0 () buffer ↔
      ¬ ∃ k rest, 0 ≤ k ∧ k + 1 + rest = 0 + left ∧ (answer k).Outgrows client heap start stop rest k ∧
        ∀ j, 0 ≤ j → j < k → (answer j).TriedAgain client start stop j := by
  refine Lib.Retry.lockstep_iff (fun k => (answer k).TriedAgain client start stop k)
    (fun left k => (answer k).Outgrows client heap start stop left k) (fun _ _ _ => sameRead_failed)
    (fun _ _ _ _ _ hgrown => attempts_agree hs hse hstop hfits hgrown) (fun left attempt _ _ hv => ?_)
    (fun left attempt _ r hv hleft => ?_) (fun _ _ _ _ _ hk => outgrows_parted hs hse hstop hfits hk)
    left 0 () buffer trivial
  · rcases @getObjectRangeAttempt_cases client heap start stop answer left attempt hs hse hstop with
      ⟨⟨r, hr⟩, -⟩ | ⟨-, h⟩
    · exact absurd (hr.symm.trans hv) (by simp)
    · exact h
  · rcases @getObjectRangeAttempt_cases client heap start stop answer left attempt hs hse hstop with ⟨-, h⟩ | ⟨ha, -⟩
    · exact h hleft
    · exact absurd (ha.symm.trans hv) (by simp)

/-- **The two ranged reads are interchangeable, but for a body that no vector grows to.** -/
theorem ranged_reads_interchangeable (client : RangeClient) (heap : Heap) (start stop : Int64)
    (answer : Nat → GetOutcome)
    (hlength : ∀ n : Nat, (n : Int) = stop.toInt - start.toInt + 1 → heap.holds n = true) :
    Interchangeable client heap start.toInt stop.toInt answer ↔
      ¬ Outgrown client heap start.toInt stop.toInt answer := by
  have hstop := stop.toInt_lt
  have hstart := start.le_toInt
  unfold Interchangeable getObjectRangeSent getObjectRangeIntoSent Outgrown
  rw [validateRange_spec hstop]
  split
  · rename_i hvalid
    obtain ⟨hs, hse, hspan⟩ := hvalid
    have hfits : heap.holds (stop.toInt - start.toInt + 1).toNat = true := hlength _ (by omega)
    have hsize : sizeT (stop.toInt - start.toInt + 1) = some (stop.toInt - start.toInt + 1).toNat :=
      sizeT_eq (by omega) (by omega)
    simp only [Option.bind_eq_bind, Option.bind_some, hsize, hs, hse, true_and]
    -- the attempts are numbered from 0, the last of them by the retry limit
    have houtgrown : (∃ k left, 0 ≤ k ∧ k + 1 + left = 0 + (client.maxRetries + 1).toNat ∧
        (answer k).Outgrows client heap start.toInt stop.toInt left k ∧
        ∀ j, 0 ≤ j → j < k → (answer j).TriedAgain client start.toInt stop.toInt j) ↔
        ∃ k left : Nat, (k + left : Int) = client.maxRetries ∧
          (answer k).Outgrows client heap start.toInt stop.toInt left k ∧
          ∀ j < k, (answer j).TriedAgain client start.toInt stop.toInt j := by
      refine exists_congr fun k => exists_congr fun left => ?_
      have hk : k + 1 + left = 0 + (client.maxRetries + 1).toNat ↔ (k + left : Int) = client.maxRetries := by omega
      simp only [hk, Nat.zero_le, true_and, forall_const]
    rw [← houtgrown]
    constructor
    · intro h
      exact (reads_inStep [] hs hse hstop hfits _).1 (h [])
    · intro h buffer
      exact (reads_inStep buffer hs hse hstop hfits _).2 h
  · -- a range that is sent by neither
    rename_i hvalid
    refine iff_of_true (fun buffer => ⟨_, _, rfl, rfl, sameRead_failed, rfl⟩) ?_
    rintro ⟨hs, hse, -⟩
    have hholds := heap.lt_of_holds _ (hlength (stop.toInt - start.toInt + 1).toNat (by omega))
    omega

end Reads

/-! ### Two runs -/

/-- A process with 4 GiB: a vector grows in blocks that double. -/
def smallHeap : Heap :=
  ⟨fun n => n < 2 ^ 32, fun n => n ≤ 2 ^ 31, fun _ h => (of_decide_eq_true h).trans (by decide),
    fun _ h => (of_decide_eq_true h).trans_lt (by decide)⟩

/-- The first body is cut short, in a process with 4 GiB. -/
theorem ranged_reads_interchangeable_cut :
    Interchangeable {} smallHeap (2 : Int64).toInt (4 : Int64).toInt cutAnswers := by
  have hlength : ∀ n : Nat, (n : Int) = (4 : Int64).toInt - (2 : Int64).toInt + 1 → smallHeap.holds n = true := by
    intro n hn
    have hrange : (4 : Int64).toInt - (2 : Int64).toInt + 1 = 3 := by decide
    obtain rfl : n = 3 := by omega
    decide
  refine (ranged_reads_interchangeable {} smallHeap 2 4 cutAnswers hlength).2 ?_
  rintro ⟨-, -, k, left, -, houtgrows, -⟩
  cases k with
  | zero => exact absurd houtgrows.2.1 (by decide)
  | succ k => exact absurd houtgrows.2.1 (by decide)

def noHeader : HeaderValue := ⟨[], by decide⟩

/-- A gateway without ranges answers with the whole object of 8 GiB, and then with the range. -/
def floodAnswers : Nat → GetOutcome
  | 0 => .success noHeader (List.replicate (2 ^ 33) 0)
  | _ => .success noHeader [1, 2, 3, 4, 5]

/-- `GetObjectRange` asks again and reads the range, `GetObjectRangeInto` fails after one request. -/
theorem flooded_not_interchangeable :
    (∀ n : Nat, (n : Int) = 4 - 0 + 1 → smallHeap.holds n = true) ∧
    getObjectRangeSent {} smallHeap 0 4 floodAnswers = some ([1, 2, 3, 4, 5], 2) ∧
    (∀ buffer, getObjectRangeIntoSent {} smallHeap 0 4 floodAnswers buffer = some ((false, []), 1)) ∧
    ¬ Interchangeable {} smallHeap 0 4 floodAnswers := by
  have hfits : smallHeap.holds (4 - 0 + 1 : Int).toNat = true := by decide
  have hflood : smallHeap.grows (List.replicate (2 ^ 33) (0 : UInt8)).length = false := by
    rw [List.length_replicate]
    decide
  have hlong : ((List.replicate (2 ^ 33) (0 : UInt8)).length : Int) > 4 - 0 + 1 := by
    rw [List.length_replicate]
    decide
  have hfirst : getObjectRangeAttempt {} smallHeap 0 4 floodAnswers (4 - 0 + 1) 5 0 () = some (.again ()) := by
    rw [getObjectRangeAttempt_accepted smallHeap 5 (rfl : floodAnswers 0 = .success noHeader _) (by decide),
      if_neg (by simp only [hflood, Bool.false_eq_true, not_false_eq_true]), if_pos (by decide)]
  have hsecond : getObjectRangeAttempt {} smallHeap 0 4 floodAnswers (4 - 0 + 1) 4 1 () =
      some (.done [1, 2, 3, 4, 5]) := by
    rw [getObjectRangeAttempt_accepted smallHeap 4 (rfl : floodAnswers 1 = .success noHeader _) (by decide),
      if_pos (by decide), if_neg (by decide), if_neg (by decide)]
  have hrange : validateRange 0 4 = some (some (4 - 0 + 1)) := by decide
  have hread : getObjectRangeSent {} smallHeap 0 4 floodAnswers = some ([1, 2, 3, 4, 5], 2) := by
    rw [getObjectRangeSent_eq hrange]
    exact (Lib.Retry.attempts_again hfirst).trans (congrArg _ (Lib.Retry.attempts_done hsecond))
  have hinto : ∀ buffer, getObjectRangeIntoSent {} smallHeap 0 4 floodAnswers buffer = some ((false, []), 1) := by
    intro buffer
    have honly : getObjectRangeIntoAttempt {} smallHeap 0 4 floodAnswers (4 - 0 + 1 : Int).toNat 5 0 buffer =
        some (.done (false, [])) := by
      rw [getObjectRangeIntoAttempt_accepted 5 buffer (rfl : floodAnswers 0 = .success noHeader _) (by decide)
        hfits (by decide), if_pos hlong]
    rw [getObjectRangeIntoSent_eq buffer hrange (by decide) (by decide)]
    exact Lib.Retry.attempts_done honly
  refine ⟨fun n hn => ?_, hread, hinto, fun h => ?_⟩
  · obtain rfl : n = 5 := by omega
    exact hfits
  obtain ⟨read, into, hr, hi, -, hcount⟩ := h []
  rw [hread, Option.some.injEq] at hr
  rw [hinto, Option.some.injEq] at hi
  rw [← hr, ← hi] at hcount
  exact absurd hcount (by decide)

end Mito
