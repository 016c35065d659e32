import MitoSync.Download
import MitoSync.UploadSpec
/-!
# DownloadSpec — what the file writers establish

The three writers that write a file in full leave the old entry or the complete new one at every point (`Whole`), and
`delete_local_file` the old entry or none.  As for the object writers, success means the goal and failure means that
something was refused (`F`) and nothing was touched.  A loop bound that is spent leaves the old entry too (`H`); in
`sound` mode a bound of the content's length is never spent.
-/
namespace Mito

open Lib Prog

namespace Env

variable (E : Env)

/-- Before a writer has opened its temporary file. -/
structure Untouched (old : Option Stored) (F : Prop) (s : Slot) : Prop where
  entry : s.entry = old
  calm : E.Calm s
  parent : s.parent = true ∨ F

/-- While it is open, holding `b`. -/
structure Writing (old : Option Stored) (b : Bytes) (s : Slot) : Prop where
  entry : s.entry = old
  calm : E.Calm s
  temp : ∃ t, E.stamp t ∧ s.temp = some ⟨b, t⟩

/-- The outcome of a file's executor. -/
def Placed (old : Option Stored) (goal : Option Bytes) (F : Prop) (r : Bool) (s : Slot) : Prop :=
  E.Calm s ∧ if r then E.hits goal s.entry else F ∧ s.entry = old

end Env

variable {E : Env} {I H : Slot → Prop} {old : Option Stored} {goal b d : Bytes} {F : Prop}

theorem not_sound_true (h : E.faulty ∨ ¬ True) : E.faulty := h.resolve_right (fun h => h trivial)

/-! ## AtomicFileWriter -/

theorem createTemp_spec (hI : ∀ s, s.entry = old → I s) (hF : E.faulty → F) :
    ∀ n {s : Slot}, E.Untouched old F s → (0 < n ∨ F) →
      wp (exec E) I H (createTemp n) (fun r s' => if r then E.Writing old [] s' else F ∧ E.Untouched old F s') s
  | 0, s, hs, hn => ⟨hn.resolve_left (Nat.lt_irrefl 0), hs⟩
  | n + 1, s, hs, _ => by
    rw [createTemp, wp_bind, wp_req]
    refine ⟨hI s hs.entry, fun r s' h => ?_⟩
    cases r with
    | opened =>
      obtain ⟨-, t, ht, rfl⟩ := h
      exact ⟨hs.entry, hs.calm, t, ht, rfl⟩
    | eexist =>
      obtain ⟨hf, rfl⟩ := h
      exact createTemp_spec hI hF n hs (.inr (hF hf))
    | failed =>
      obtain ⟨hf, rfl⟩ := h
      refine ⟨?_, hs⟩
      rcases hf with hf | hp
      · exact hF hf
      · exact hs.parent.resolve_left (by rw [hp]; simp)

theorem openWriter_spec (hI : ∀ s, s.entry = old → I s) (hF : E.faulty → F) {s : Slot} (hs : E.Untouched old F s) :
    wp (exec E) I H openWriter (fun r s' => if r then E.Writing old [] s' else F ∧ E.Untouched old F s') s := by
  rw [openWriter, wp_bind, wp_req]
  refine ⟨hI s hs.entry, fun r s' h => ?_⟩
  cases r with
  | refused =>
    obtain ⟨hf, rfl⟩ := h
    exact ⟨hF hf, hs⟩
  | absent =>
    obtain ⟨-, rfl⟩ := h
    exact createTemp_spec hI hF 8 hs (.inl (by omega))
  | regular =>
    obtain ⟨-, rfl⟩ := h
    exact createTemp_spec hI hF 8 hs (.inl (by omega))

/-- What one `write` to the temporary file may do. -/
theorem writeTemp_cases {s s' : Slot} {r : WriteAns} (hs : E.Writing old b s) (h : exec E (.writeTemp d) s r s') :
    match r with
    | .eintr => E.faulty ∧ s' = s
    | .failed => E.faulty ∧ s' = s
    | .wrote n => n ≤ d.length ∧ (n = 0 → E.faulty ∨ d = []) ∧ (n = 0 → s' = s) ∧
        (0 < n → E.Writing old (b ++ d.take n) s') := by
  obtain ⟨t, ht, htemp⟩ := hs.temp
  cases r with
  | eintr => exact h
  | failed => exact ⟨h.1.resolve_right (fun h => h (by rw [htemp]; simp)), h.2⟩
  | wrote n =>
    refine ⟨h.2.1, fun h0 => (h.2.2.1 h0).1, fun h0 => (h.2.2.1 h0).2, fun hn => ?_⟩
    obtain ⟨o, t', ho, ht', rfl⟩ := h.2.2.2 hn
    rw [htemp] at ho
    cases ho
    exact ⟨hs.entry, hs.calm, t', ht', rfl⟩

theorem writeAll_spec (hI : ∀ s, s.entry = old → I s) (hF : E.faulty → F) :
    ∀ (fuel : Nat) {b d : Bytes} {s : Slot}, (E.faulty ∨ fuel < d.length → ∀ s, s.entry = old → H s) →
      E.Writing old b s →
      wp (exec E) I H (writeAll fuel d)
        (fun r s' => if r then E.Writing old (b ++ d) s' else F ∧ s'.entry = old ∧ E.Calm s') s
  | 0, b, [], s, _, hs => by
    show E.Writing old (b ++ []) s
    rwa [List.append_nil]
  | fuel + 1, b, [], s, _, hs => by
    show E.Writing old (b ++ []) s
    rwa [List.append_nil]
  | 0, b, x :: d, s, hH, hs => hH (.inr (by simp)) s hs.entry
  | fuel + 1, b, x :: d, s, hH, hs => by
    rw [writeAll, wp_bind, wp_req]
    refine ⟨hI s hs.entry, fun r s' h => ?_⟩
    have hc := writeTemp_cases hs h
    cases r with
    | eintr =>
      obtain ⟨hf, rfl⟩ := hc
      exact writeAll_spec hI hF fuel (fun _ => hH (.inl hf)) hs
    | failed =>
      obtain ⟨hf, rfl⟩ := hc
      exact ⟨hF hf, hs.entry, hs.calm⟩
    | wrote n =>
      obtain ⟨hn, h0, h0', hw⟩ := hc
      by_cases hn0 : n = 0
      · obtain rfl := h0' hn0
        simp only [hn0, if_true]
        exact ⟨hF ((h0 hn0).resolve_right (by simp)), hs.entry, hs.calm⟩
      · simp only [hn0, if_false]
        have hshort : E.faulty ∨ fuel < ((x :: d).drop n).length → E.faulty ∨ fuel + 1 < (x :: d).length := by
          rw [List.length_drop]
          exact fun h => h.imp_right (fun h => by omega)
        have := writeAll_spec hI hF fuel (fun h => hH (hshort h)) (hw (Nat.pos_of_ne_zero hn0))
        rwa [List.append_assoc, List.take_append_drop] at this

theorem commit_spec (hI : ∀ s, s.entry = old → I s) (hF : E.faulty → F) {s : Slot} (hs : E.Writing old goal s) :
    wp (exec E) I H commit
      (fun r s' => if r then E.hits (some goal) s'.entry ∧ E.Calm s' else F ∧ s'.entry = old ∧ E.Calm s') s := by
  rw [commit, wp_bind, wp_req]
  refine ⟨hI s hs.entry, fun r s' h => ?_⟩
  cases r with
  | false =>
    obtain ⟨hf, rfl⟩ := h
    exact ⟨hF (not_sound_true hf), hs.entry, hs.calm⟩
  | true =>
    obtain ⟨-, rfl⟩ := h
    simp only [Bool.not_true, Bool.false_eq_true, if_false, wp_bind, wp_req]
    refine ⟨hI _ hs.entry, fun r s'' h => ?_⟩
    cases r with
    | false =>
      obtain ⟨hf, rfl⟩ := h
      exact ⟨hF (not_sound_true hf), hs.entry, hs.calm⟩
    | true =>
      obtain ⟨-, rfl⟩ := h
      simp only [Bool.not_true, Bool.false_eq_true, if_false, wp_req]
      refine ⟨hI _ hs.entry, fun r s₃ h => ?_⟩
      obtain ⟨t, ht, htemp⟩ := hs.temp
      cases r with
      | false =>
        obtain ⟨hf, rfl⟩ := h
        exact ⟨hF (hf.resolve_right (fun h => h (by rw [htemp]; simp))), hs.entry, hs.calm⟩
      | true =>
        obtain ⟨-, rfl⟩ := h
        exact ⟨⟨t, ht, htemp⟩, hs.calm⟩

/-- **Written and committed, or dropped**: the destination changes with the rename only. -/
theorem commitOrDrop_spec (hI : ∀ s, E.Whole old (some goal) s → I s) (hF : E.faulty → F) {written : Bool} {s : Slot}
    (hs : if written then E.Writing old goal s else F ∧ s.entry = old ∧ E.Calm s) :
    wp (exec E) I H (commitOrDrop written) (E.Placed old (some goal) F) s := by
  have hdrop : ∀ {s : Slot}, F ∧ s.entry = old ∧ E.Calm s →
      I s ∧ ∀ r s', exec E .removeTemp s r s' → E.Placed old (some goal) F false s' := by
    rintro s ⟨hf, he, hc⟩
    refine ⟨hI s (.inl he), fun r s' h => ?_⟩
    cases r with
    | false =>
      obtain ⟨-, rfl⟩ := h
      exact ⟨hc, hf, he⟩
    | true =>
      obtain ⟨-, rfl⟩ := h
      exact ⟨hc, hf, he⟩
  cases written with
  | false => exact hdrop hs
  | true =>
    simp only [commitOrDrop, if_true, wp_bind]
    refine wp_mono (fun r s' h => ?_) (commit_spec (fun s h => hI s (.inl h)) hF hs)
    cases r with
    | false => exact hdrop h
    | true => exact ⟨h.2, h.1⟩

/-- **A file written through the temporary is the old one or the new one at every point.** -/
theorem writeAtomically_spec (hI : ∀ s, E.Whole old (some goal) s → I s) (hF : E.faulty → F) {fuel : Nat}
    (hH : E.faulty ∨ fuel < goal.length → ∀ s, s.entry = old → H s) {s : Slot} (hs : E.Untouched old F s) :
    wp (exec E) I H (writeAtomically fuel goal) (E.Placed old (some goal) F) s := by
  have hI' : ∀ s, s.entry = old → I s := fun s h => hI s (.inl h)
  rw [writeAtomically, wp_bind]
  refine wp_mono (fun r s' h => ?_) (openWriter_spec hI' hF hs)
  cases r with
  | false => exact ⟨h.2.calm, h.1, h.2.entry⟩
  | true =>
    simp only [if_true, wp_bind] at h ⊢
    exact wp_mono (fun r s'' h => commitOrDrop_spec hI hF h) (writeAll_spec hI' hF fuel hH h)

/-! ## Whole-file executors -/

/-- A system call with no effect on the slot that is only asked whether it works. -/
theorem check_false {s s' : Slot} (hF : E.faulty → F) (h : E.syscall True s (· = s) false s') : F ∧ s' = s :=
  ⟨hF (not_sound_true h.1), h.2⟩

theorem Env.Untouched.refused {s : Slot} (hs : E.Untouched old F s) (hf : F) (g : Option Bytes) :
    E.Placed old g F false s := ⟨hs.calm, hf, hs.entry⟩

theorem downloadFromData_spec (hI : ∀ s, E.Whole old (some goal) s → I s) (hF : E.faulty → F) {fuel : Nat}
    {base relative : Str} (hv : targetAccepted base relative = true ∨ F)
    (hH : E.faulty ∨ fuel < goal.length → ∀ s, s.entry = old → H s) {s : Slot} (hs : E.Untouched old F s) :
    wp (exec E) I H (downloadFromData fuel base relative goal) (E.Placed old (some goal) F) s := by
  unfold downloadFromData
  cases hacc : targetAccepted base relative with
  | false => exact hs.refused (hv.resolve_left (by simp [hacc])) _
  | true =>
    simp only [Bool.not_true, Bool.false_eq_true, if_false, wp_bind, wp_req]
    refine ⟨hI s (.inl hs.entry), fun r s' h => ?_⟩
    cases r with
    | false =>
      obtain ⟨hf, rfl⟩ := check_false hF h
      exact hs.refused hf _
    | true =>
      obtain ⟨-, rfl⟩ := h
      exact writeAtomically_spec hI hF hH hs

/-- The outcome of an executor that lets an exception through. -/
def Env.PlacedAns (E : Env) (old : Option Stored) (g : Option Bytes) (F : Prop) : Ans Unit → Slot → Prop
  | .ok _, s => E.Placed old g F true s
  | _, s => E.Placed old g F false s

theorem downloadAttempts_spec (hI : ∀ s, E.Whole old (some E.source) s → I s) (hF : E.faulty → F) {fuel : Nat}
    (hH : E.faulty ∨ fuel < E.source.length → ∀ s, s.entry = old → H s) :
    ∀ n {s : Slot}, E.Untouched old F s → (0 < n ∨ F) →
      wp (exec E) I H (downloadAttempts fuel E.source.length n) (E.PlacedAns old (some E.source) F) s
  | 0, s, hs, hn => hs.refused (hn.resolve_left (Nat.lt_irrefl 0)) _
  | n + 1, s, hs, _ => by
    rw [downloadAttempts, wp_bind, wp_req]
    refine ⟨hI s (.inl hs.entry), fun r s' hr => ?_⟩
    obtain ⟨rfl, hrF⟩ := cancelled_cases hs.calm hr
    have hs' : E.Untouched old F { s with seen := r } := ⟨hs.entry, hrF, hs.parent⟩
    cases r with
    | true => exact hs'.refused (hF (hrF rfl)) _
    | false =>
      simp only [Bool.false_eq_true, if_false, wp_bind, wp_req]
      refine ⟨hI _ (.inl hs.entry), fun r s'' h => ?_⟩
      have hrange : (if 0 + E.source.length ≤ E.source.length then some (slice E.source 0 E.source.length) else none) =
          some E.source := by rw [if_pos (by omega), slice_zero_length]
      cases r with
      | threw =>
        obtain ⟨hf, rfl⟩ := h
        exact hs'.refused (hF hf) _
      | failed =>
        obtain ⟨hf, rfl⟩ := h
        rw [hrange] at hf
        exact downloadAttempts_spec hI hF hH n hs' (.inr (hF (hf.resolve_right (by simp))))
      | ok data =>
        obtain ⟨hd, rfl⟩ := h
        rw [hrange] at hd
        cases hd
        simp only [ne_eq, not_true, if_false, wp_bind]
        refine wp_mono (fun r s' h => ?_) (writeAtomically_spec hI hF hH hs')
        cases r <;> exact h

/-- **`download_small_file` leaves the object's bytes or what was there.** -/
theorem downloadSmallFile_spec (hI : ∀ s, E.Whole old (some E.source) s → I s) (hF : E.faulty → F) {fuel : Nat}
    {base relative : Str} (hv : targetAccepted base relative = true ∨ F) (hne : E.source ≠ [])
    (hH : E.faulty ∨ fuel < E.source.length → ∀ s, s.entry = old → H s) {s : Slot} (hs : E.Untouched old F s) :
    wp (exec E) I H (downloadSmallFile fuel base relative E.source.length)
      (E.PlacedAns old (some E.source) F) s := by
  have hpos : 0 < E.source.length := List.length_pos_iff.2 hne
  unfold downloadSmallFile
  rw [if_neg (by omega)]
  cases hacc : targetAccepted base relative with
  | false => exact hs.refused (hv.resolve_left (by simp [hacc])) _
  | true =>
    simp only [Bool.not_true, Bool.false_eq_true, if_false, wp_bind, wp_req]
    refine ⟨hI s (.inl hs.entry), fun r s' h => ?_⟩
    cases r with
    | false =>
      obtain ⟨hf, rfl⟩ := check_false hF h
      exact hs.refused hf _
    | true =>
      obtain ⟨-, rfl⟩ := h
      simp only [if_true]
      rw [if_neg (by omega), Int.toNat_natCast]
      exact downloadAttempts_spec hI hF hH _ hs (.inl (Nat.succ_pos _))

/-- **`delete_local_file` removes the entry or leaves it**, and reports a removal only where there was one. -/
theorem deleteLocalFile_spec (hI : ∀ s, E.Whole old none s → I s) (hF : E.faulty → F) {base relative : Str}
    (hv : targetAccepted base relative = true ∨ F) (hold : old ≠ none ∨ F) {s : Slot} (hs : E.Untouched old F s) :
    wp (exec E) I H (deleteLocalFile base relative) (E.Placed old none F) s := by
  rw [deleteLocalFile, wp_bind, wp_req]
  refine ⟨hI s (.inl hs.entry), fun r s' hr => ?_⟩
  obtain ⟨rfl, hrF⟩ := cancelled_cases hs.calm hr
  have hs' : E.Untouched old F { s with seen := r } := ⟨hs.entry, hrF, hs.parent⟩
  cases r with
  | true => exact hs'.refused (hF (hrF rfl)) _
  | false =>
    simp only [Bool.false_eq_true, if_false]
    cases hacc : targetAccepted base relative with
    | false => exact hs'.refused (hv.resolve_left (by simp [hacc])) _
    | true =>
      simp only [Bool.not_true, Bool.false_eq_true, if_false, wp_bind, wp_req]
      refine ⟨hI _ (.inl hs.entry), fun r s'' h => ?_⟩
      cases r with
      | false =>
        obtain ⟨hf, rfl⟩ := check_false hF h
        exact hs'.refused hf _
      | true =>
        obtain ⟨-, rfl⟩ := h
        simp only [if_true, wp_bind, wp_req]
        refine ⟨hI _ (.inl hs.entry), fun r s₃ h => ?_⟩
        cases r with
        | failed =>
          obtain ⟨hf, rfl⟩ := h
          exact hs'.refused (hF hf) _
        | threw =>
          obtain ⟨hf, rfl⟩ := h
          exact hs'.refused (hF hf) _
        | ok b =>
          obtain ⟨rfl, rfl⟩ := h
          show E.Placed old none F s.entry.isSome _
          cases he : s.entry with
          | none =>
            refine ⟨hrF, hold.resolve_left (fun h => h (hs.entry.symm.trans he)), ?_⟩
            exact he.symm.trans hs.entry
          | some o => exact ⟨hrF, rfl⟩

/-! ## Local copy -/

/-- The copy has written what it meant to, or has seen a cancellation. -/
def Env.Copied (E : Env) (old : Option Stored) (b : Bytes) (s : Slot) : Prop :=
  ∃ b', E.Writing old b' s ∧ (b' = b ∨ s.seen = true)

theorem copyWrite_spec (hI : ∀ s, s.entry = old → I s) (hF : E.faulty → F) :
    ∀ (fuel : Nat) {b d : Bytes} {s : Slot}, (E.faulty ∨ fuel < d.length → ∀ s, s.entry = old → H s) →
      E.Writing old b s →
      wp (exec E) I H (copyWrite fuel d)
        (fun r s' => if r then E.Copied old (b ++ d) s' else F ∧ s'.entry = old ∧ E.Calm s') s
  | 0, b, [], s, _, hs => by
    show E.Copied old (b ++ []) s
    exact ⟨b, hs, .inl (List.append_nil b).symm⟩
  | fuel + 1, b, [], s, _, hs => by
    show E.Copied old (b ++ []) s
    exact ⟨b, hs, .inl (List.append_nil b).symm⟩
  | 0, b, x :: d, s, hH, hs => hH (.inr (by simp)) s hs.entry
  | fuel + 1, b, x :: d, s, hH, hs => by
    rw [copyWrite, wp_bind, wp_req]
    refine ⟨hI s hs.entry, fun r s' hr => ?_⟩
    obtain ⟨rfl, hrF⟩ := cancelled_cases hs.calm hr
    have hs' : E.Writing old b { s with seen := r } := ⟨hs.entry, hrF, hs.temp⟩
    cases r with
    | true => exact ⟨b, hs', .inr rfl⟩
    | false =>
      simp only [Bool.false_eq_true, if_false, wp_bind, wp_req]
      refine ⟨hI _ hs.entry, fun r s' h => ?_⟩
      have hc := writeTemp_cases hs' h
      cases r with
      | eintr =>
        obtain ⟨hf, rfl⟩ := hc
        exact copyWrite_spec hI hF fuel (fun _ => hH (.inl hf)) hs'
      | failed =>
        obtain ⟨hf, rfl⟩ := hc
        exact ⟨hF hf, hs'.entry, hs'.calm⟩
      | wrote n =>
        obtain ⟨hn, h0, h0', hw⟩ := hc
        by_cases hn0 : n = 0
        · obtain rfl := h0' hn0
          simp only [hn0, if_true]
          exact ⟨hF ((h0 hn0).resolve_right (by simp)), hs'.entry, hs'.calm⟩
        · simp only [hn0, if_false]
          have hshort : E.faulty ∨ fuel < ((x :: d).drop n).length → E.faulty ∨ fuel + 1 < (x :: d).length := by
            rw [List.length_drop]
            exact fun h => h.imp_right (fun h => by omega)
          have := copyWrite_spec hI hF fuel (fun h => hH (hshort h)) (hw (Nat.pos_of_ne_zero hn0))
          rwa [List.append_assoc, List.take_append_drop] at this

theorem copyLoop_spec (hI : ∀ s, s.entry = old → I s) (hF : E.faulty → F) {fuel : Nat}
    (hH : E.faulty ∨ fuel ≤ E.source.length → ∀ s, s.entry = old → H s) :
    ∀ (turns : Nat) {offset : Nat} {s : Slot}, offset ≤ E.source.length →
      (E.faulty ∨ turns + offset ≤ E.source.length → ∀ s, s.entry = old → H s) →
      E.Copied old (E.source.take offset) s →
      wp (exec E) I H (copyLoop fuel turns offset)
        (fun r s' => if r then E.Copied old E.source s' else F ∧ s'.entry = old ∧ E.Calm s') s
  | 0, offset, s, ho, hT, ⟨b, hs, _⟩ => hT (.inr (by omega)) s hs.entry
  | turns + 1, offset, s, ho, hT, ⟨b, hs, hb⟩ => by
    rw [copyLoop, wp_bind, wp_req]
    refine ⟨hI s hs.entry, fun r s' hr => ?_⟩
    have hseen := hr.1
    obtain ⟨rfl, hrF⟩ := cancelled_cases hs.calm hr
    have hs' : E.Writing old b { s with seen := r } := ⟨hs.entry, hrF, hs.temp⟩
    cases r with
    | true => exact ⟨b, hs', .inr rfl⟩
    | false =>
      obtain rfl := hb.resolve_right (fun h => absurd (hseen h) (by simp))
      simp only [Bool.false_eq_true, if_false, wp_bind, wp_req]
      refine ⟨hI _ hs.entry, fun r s' h => ?_⟩
      cases r with
      | eintr =>
        obtain ⟨hf, rfl⟩ := h
        exact copyLoop_spec hI hF hH turns ho (fun _ => hT (.inl hf)) ⟨_, hs', .inl rfl⟩
      | failed =>
        obtain ⟨hf, rfl⟩ := h
        exact ⟨hF hf, hs'.entry, hs'.calm⟩
      | data d =>
        obtain ⟨hpre, -, hnil, rfl⟩ := h
        by_cases hd : d = []
        · simp only [hd, if_true]
          have : offset = E.source.length := by
            by_contra hne
            exact hnil (by omega) hd
          rw [this, List.take_length] at hs'
          exact ⟨_, hs', .inl rfl⟩
        · simp only [hd, if_false, wp_bind]
          have hlen : offset + d.length ≤ E.source.length := by
            have := hpre.length_le
            rw [List.length_drop] at this
            omega
          have hpos : 0 < d.length := List.length_pos_iff.2 hd
          have happ : E.source.take offset ++ d = E.source.take (offset + d.length) := by
            rw [List.take_add, ← List.prefix_iff_eq_take.1 hpre]
          have hw : E.faulty ∨ fuel < d.length → ∀ s, s.entry = old → H s :=
            fun h => hH (h.imp_right (fun h => by omega))
          refine wp_mono (fun r s' h => ?_) (copyWrite_spec hI hF fuel hw hs')
          cases r with
          | false => exact h
          | true =>
            rw [happ] at h
            exact copyLoop_spec hI hF hH turns hlen (fun h => hT (h.imp_right (fun h => by omega))) h

/-- **`copy_local_file` leaves the source's bytes or what was there**; a source that is a link is never copied. -/
theorem copyLocalFile_spec (hI : ∀ s, E.Whole old (some E.source) s → I s) (hF : E.faulty → F)
    (hlink : E.sourceIsLink = false ∨ F) {fuel : Nat} {sourceBase destBase relative : Str}
    (hv : targetAccepted destBase relative = true ∨ F)
    (hH : E.faulty ∨ fuel ≤ E.source.length → ∀ s, s.entry = old → H s) {s : Slot} (hc : E.Calm s)
    (he : s.entry = old) :
    wp (exec E) I H (copyLocalFile fuel sourceBase destBase relative) (E.Placed old (some E.source) F) s := by
  have hI' : ∀ s, s.entry = old → I s := fun s h => hI s (.inl h)
  rw [copyLocalFile, wp_bind, wp_req]
  refine ⟨hI' s he, fun r s' hr => ?_⟩
  obtain ⟨rfl, hrF⟩ := cancelled_cases hc hr
  cases r with
  | true => exact ⟨hrF, hF (hrF rfl), he⟩
  | false =>
    simp only [Bool.false_eq_true, if_false]
    rw [targetAccepted_eq] at hv
    rw [targetAccepted_eq, targetAccepted_eq, Bool.and_self]
    cases hacc : validateRelativePath relative with
    | false => exact ⟨hrF, hv.resolve_left (by simp [hacc]), he⟩
    | true =>
      simp only [Bool.not_true, Bool.false_eq_true, if_false, wp_bind, wp_req]
      refine ⟨hI' _ he, fun r s' h => ?_⟩
      cases r with
      | false =>
        obtain ⟨hf, rfl⟩ := check_false hF h
        exact ⟨hrF, hf, he⟩
      | true =>
        obtain ⟨-, rfl⟩ := h
        simp only [Bool.not_true, Bool.false_eq_true, if_false, wp_bind, wp_req]
        refine ⟨hI' _ he, fun r s' h => ?_⟩
        cases r with
        | false =>
          obtain ⟨hf, rfl⟩ := h
          exact ⟨hrF, hF (not_sound_true hf), he⟩
        | true =>
          obtain ⟨-, rfl⟩ := h
          simp only [Bool.not_true, Bool.false_eq_true, if_false, wp_bind, wp_req]
          refine ⟨hI' _ he, fun r s' h => ?_⟩
          cases r with
          | false =>
            obtain ⟨hf, rfl⟩ := h
            refine ⟨hrF, ?_, he⟩
            rcases hf with hf | hl
            · exact hF hf
            · exact hlink.resolve_left hl
          | true =>
            obtain ⟨-, rfl⟩ := h
            simp only [Bool.not_true, Bool.false_eq_true, if_false, wp_bind]
            have hs : E.Untouched old F { s with seen := false, parent := true } := ⟨he, hrF, .inl rfl⟩
            refine wp_mono (fun r s' h => ?_) (openWriter_spec hI' hF hs)
            cases r with
            | false => exact ⟨h.2.calm, h.1, h.2.entry⟩
            | true =>
              simp only [if_true, wp_bind, wp_req] at h ⊢
              refine wp_mono (fun r s' h => ?_) (copyLoop_spec hI' hF hH fuel (Nat.zero_le _)
                (fun h => hH (h.imp_right (fun h => by omega))) ⟨[], h, .inl rfl⟩)
              cases r with
              | false =>
                refine ⟨hI' _ h.2.1, fun r s'' hr => ?_⟩
                obtain ⟨rfl, hrF⟩ := cancelled_cases h.2.2 hr
                exact commitOrDrop_spec hI hF ⟨h.1, h.2.1, hrF⟩
              | true =>
                obtain ⟨b, hw, hb⟩ := h
                refine ⟨hI' _ hw.entry, fun r s'' hr => ?_⟩
                have hseen := hr.1
                obtain ⟨rfl, hrF⟩ := cancelled_cases hw.calm hr
                cases r with
                | true => exact commitOrDrop_spec hI hF ⟨hF (hrF rfl), hw.entry, hrF⟩
                | false =>
                  obtain rfl := hb.resolve_right (fun h => absurd (hseen h) (by simp))
                  have hw' : E.Writing old E.source { s' with seen := false } := ⟨hw.entry, hrF, hw.temp⟩
                  exact commitOrDrop_spec hI hF hw'

end Mito
