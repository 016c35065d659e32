import MitoSync.Rm
import MitoSync.Lib.Retry
import Mathlib.Data.Char
import Mathlib.Data.List.Lex
import Mathlib.Data.List.TakeWhile
/-!
# Presence — when `NotFound` is proof of absence

`CheckObjectPresence` asks with `HeadObject`, whose 404 may be wrong and does not say whether the key or the bucket is
missing.  It answers `NotFound` only behind a listing for the key as a prefix, limited to one key: of the keys that start
with it, the key itself comes first.
-/
namespace Mito

open Lib.Retry (Verdict attempts)

/-! ## The code -/

/-- The error types the check tells apart. -/
inductive S3Errors
  | noSuchBucket | noSuchKey | resourceNotFound | other
  deriving DecidableEq

/-- An error of the SDK, and whether `IsRetryableS3Error` accepts it. -/
structure S3Error where
  errorType : S3Errors
  responseCode : Nat
  retryable : Bool

inductive HeadObjectOutcome
  | success | error (e : S3Error) | exception

structure ListObjectsV2Request where
  prefix_ : Str
  maxKeys : Nat

/-- The keys of a page, a failure or an exception. -/
inductive ListOutcome
  | success (contents : List Str) | error | exception

/-- `std::string(s.c_str())` -/
def cString (s : Str) : Str := s.takeWhile (· ≠ '\x00')

def S3Error.isNotFound (e : S3Error) : Bool :=
  e.errorType = .noSuchKey || e.errorType = .resourceNotFound || e.responseCode = 404

section Check

variable (maxRetries : Int) (head : Nat → Str → HeadObjectOutcome) (list : Nat → ListObjectsV2Request → ListOutcome) (key : Str)

/-- What the listing says once a 404 is in. -/
def probeKey (left attempt : Nat) : Verdict Unit S3ObjectPresence :=
  match list attempt ⟨cString key, 1⟩ with
  | .error => .done .unknown
  | .exception => if left ≠ 0 then .again () else .done .unknown
  | .success contents => if contents.any (· == cString key) then .done .exists else .done .notFound

def checkObjectPresenceAttempt (left attempt : Nat) (_ : Unit) : Option (Verdict Unit S3ObjectPresence) :=
  some (match head attempt (cString key) with
    | .success => .done .exists
    | .error e =>
      if e.errorType = .noSuchBucket then .done .unknown
      else if e.isNotFound then probeKey list key left attempt
      else if left ≠ 0 ∧ e.retryable then .again () else .done .unknown
    | .exception => if left ≠ 0 then .again () else .done .unknown)

/-- `CheckObjectPresence`: its answer, and the attempts it made. -/
def checkObjectPresence : Option (S3ObjectPresence × Nat) :=
  attempts (checkObjectPresenceAttempt head list key) (fun _ => .unknown) (maxRetries + 1).toNat 0 ()

end Check

/-! ## The bucket -/

/-- The keys of a bucket, none of them with a NUL, which no listing could carry. -/
structure KeySet where
  keys : Set Str
  noNul : ∀ k ∈ keys, '\x00' ∉ k

/-- The first page of a listing in lexicographic order: of the keys with the prefix, at most so many, and none left out
but behind a full page. -/
structure FirstPage (keys : Set Str) (request : ListObjectsV2Request) (contents : List Str) : Prop where
  mem : ∀ k ∈ contents, k ∈ keys ∧ request.prefix_ <+: k
  sorted : contents.Pairwise (· < ·)
  length_le : contents.length ≤ request.maxKeys
  complete : ∀ k ∈ keys, request.prefix_ <+: k →
    k ∈ contents ∨ contents.length = request.maxKeys ∧ ∀ l ∈ contents, l < k

/-- A listing of the bucket, or of no bucket, that may fail but does not lie. -/
def ListOutcome.Truthful (bucket : Option KeySet) (request : ListObjectsV2Request) : ListOutcome → Prop
  | .success contents => ∃ b, bucket = some b ∧ FirstPage b.keys request contents
  | .error => True
  | .exception => True

/-! ## The check -/

theorem cString_of_noNul {s : Str} (h : '\x00' ∉ s) : cString s = s := by
  refine List.takeWhile_eq_self_iff.2 fun c hc => decide_eq_true ?_
  rintro rfl
  exact h hc

/-- A page for a key that has room for one names the key where the bucket has it: it is the least of those that start
with it. -/
theorem FirstPage.mem_of_key {keys : Set Str} {key : Str} {maxKeys : Nat} {contents : List Str}
    (h : FirstPage keys ⟨key, maxKeys⟩ contents) (hroom : 0 < maxKeys) (hkey : key ∈ keys) : key ∈ contents := by
  rcases h.complete key hkey List.prefix_rfl with hmem | ⟨hfull, hbefore⟩
  · exact hmem
  · have hne : 0 < contents.length := hroom.trans_eq hfull.symm
    obtain ⟨l, hl⟩ := List.exists_mem_of_length_pos hne
    have hnot : ¬ l < key := List.not_lt.2 (h.mem l hl).2.le
    exact absurd (hbefore l hl) hnot

variable {maxRetries : Int} {head : Nat → Str → HeadObjectOutcome} {list : Nat → ListObjectsV2Request → ListOutcome}
  {bucket : Option KeySet}

/-- The listing lets no `NotFound` pass for a key that is there. -/
theorem probeKey_spec (key : Str) (ht : ∀ attempt request, (list attempt request).Truthful bucket request)
    (left attempt : Nat) :
    (∃ t, probeKey list key left attempt = .again t) ∨ ∃ r, probeKey list key left attempt = .done r ∧
      (r = .notFound → ∃ b, bucket = some b ∧ key ∉ b.keys) := by
  have htruthful := ht attempt ⟨cString key, 1⟩
  unfold probeKey
  cases hlist : list attempt ⟨cString key, 1⟩ with
  | error => exact .inr ⟨.unknown, rfl, fun h => absurd h (by simp)⟩
  | exception =>
    dsimp only
    split
    · exact .inl ⟨(), rfl⟩
    · exact .inr ⟨.unknown, rfl, fun h => absurd h (by simp)⟩
  | success contents =>
    rw [hlist] at htruthful
    obtain ⟨b, hb, hpage⟩ := htruthful
    dsimp only
    split
    · exact .inr ⟨.exists, rfl, fun h => absurd h (by simp)⟩
    · rename_i hnamed
      refine .inr ⟨.notFound, rfl, fun _ => ⟨b, hb, fun hkey => hnamed ?_⟩⟩
      have hcut := cString_of_noNul (b.noNul key hkey)
      rw [hcut] at hpage ⊢
      have hmem := hpage.mem_of_key Nat.one_pos hkey
      exact List.any_eq_true.2 ⟨key, hmem, by simp⟩

theorem retry_spec {Q : S3ObjectPresence → Prop} (p : Prop) [Decidable p] (hunknown : Q .unknown) :
    (∃ t, some (if p then Verdict.again () else .done S3ObjectPresence.unknown) = some (Verdict.again t)) ∨
      ∃ r, some (if p then Verdict.again () else .done S3ObjectPresence.unknown) = some (Verdict.done r) ∧ Q r := by
  split
  · exact .inl ⟨(), rfl⟩
  · exact .inr ⟨S3ObjectPresence.unknown, rfl, hunknown⟩

/-- **`NotFound` is proof of absence**: the bucket is there and the key is not in it. -/
theorem notFound_absent (maxRetries : Int) (head : Nat → Str → HeadObjectOutcome) (key : Str)
    (ht : ∀ attempt request, (list attempt request).Truthful bucket request) :
    ∃ made, checkObjectPresence maxRetries head list key = some made ∧
      (made.1 = .notFound → ∃ b, bucket = some b ∧ key ∉ b.keys) := by
  have hover : S3ObjectPresence.unknown = .notFound → ∃ b, bucket = some b ∧ key ∉ b.keys :=
    fun h => absurd h (by simp)
  unfold checkObjectPresence
  refine Lib.Retry.attempts_spec (fun r => r = S3ObjectPresence.notFound → ∃ b, bucket = some b ∧ key ∉ b.keys)
    (fun _ => hover) (fun left attempt s => ?_) _ 0 ()
  unfold checkObjectPresenceAttempt
  cases head attempt (cString key) with
  | success => exact .inr ⟨.exists, rfl, fun h => absurd h (by simp)⟩
  | exception => exact retry_spec _ hover
  | error e =>
    dsimp only
    split
    · exact .inr ⟨.unknown, rfl, hover⟩
    · split
      · rcases probeKey_spec key ht left attempt with ⟨t, h⟩ | ⟨r, h, hr⟩
        · exact .inl ⟨t, congrArg some h⟩
        · exact .inr ⟨r, congrArg some h, hr⟩
      · exact retry_spec _ hover

/-! ### A 404 and a listing -/

/-- A bucket whose only key goes on behind the one asked for. -/
def longerKey : KeySet := ⟨{"ab".toList}, by
  rintro k rfl
  decide⟩

def lost404 : Nat → Str → HeadObjectOutcome
  | 0, _ => .exception
  | _, _ => .error ⟨.other, 404, false⟩

def listLonger (_ : Nat) (request : ListObjectsV2Request) : ListOutcome :=
  if request.prefix_ = "a".toList ∧ request.maxKeys = 1 then .success ["ab".toList] else .error

theorem listLonger_truthful (attempt : Nat) (request : ListObjectsV2Request) :
    (listLonger attempt request).Truthful (some longerKey) request := by
  unfold listLonger
  split
  · rename_i h
    have hpage : FirstPage longerKey.keys request ["ab".toList] := {
      mem := fun k hk => by
        obtain rfl := List.mem_singleton.1 hk
        exact ⟨rfl, h.1 ▸ by decide⟩
      sorted := List.pairwise_singleton _ _
      length_le := h.2.ge
      complete := fun k hk _ => .inl (List.mem_singleton.2 hk) }
    exact ⟨longerKey, rfl, hpage⟩
  · trivial

theorem notFound_absent_longer :
    checkObjectPresence 5 lost404 listLonger "a".toList = some (.notFound, 2) ∧ "a".toList ∉ longerKey.keys := by
  have hrun : checkObjectPresence 5 lost404 listLonger "a".toList = some (.notFound, 2) := by decide
  obtain ⟨made, hmade, h⟩ := notFound_absent 5 lost404 "a".toList listLonger_truthful
  obtain rfl : made = (.notFound, 2) := Option.some.inj (hmade.symm.trans hrun)
  obtain ⟨b, hb, hkey⟩ := h rfl
  exact ⟨hrun, Option.some.inj hb ▸ hkey⟩

end Mito
