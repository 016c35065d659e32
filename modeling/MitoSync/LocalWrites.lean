import MitoSync.PatchSpec
import MitoSync.Planner
/-!
# LocalWrites — what a call that writes a file leaves, whatever it met

Runs of one executor alone.  The three that write a file in full replace it at one instant or not at all, and leave no
temporary file that could be removed (`wholeFileWrite_atomic`).  The differential download, which edits in place,
returns true over the object's bytes only, and otherwise leaves the file as it was or dated so that the next plan
fetches it again (`diffDownloadFile_detected`).
-/
namespace Mito

open Lib Prog

/-! ## Whole-file writes -/

/-- The calls that write a file in full, and the bytes they write. -/
inductive WholeFileWrite (E : Env) : Exec Bool → Bytes → Prop
  | downloadFromData (fuel : Nat) (base relative : Str) (data : Bytes) :
    WholeFileWrite E (downloadFromData fuel base relative data) data
  | downloadSmallFile (fuel : Nat) (base relative : Str) (h : E.source ≠ []) :
    WholeFileWrite E (do return (← downloadSmallFile fuel base relative E.source.length) = .ok ()) E.source
  | copyLocalFile (fuel : Nat) (sourceBase destBase relative : Str) :
    WholeFileWrite E (copyLocalFile fuel sourceBase destBase relative) E.source

/-! ## The temporary file -/

/-- `exec` where every unlink of a temporary file succeeds. -/
def Env.unlinking (E : Env) (c : Call) (s : Slot) (r : Resp c) (s' : Slot) : Prop :=
  exec E c s r s' ∧
    match c, r with
    | .removeTemp, r => r = true
    | _, _ => True

variable {E : Env}

/-- A precondition about how a program returns, and about nothing before. -/
abbrev Env.leaves (E : Env) {α : Type} (p : Exec α) (Q : α → Slot → Prop) (s : Slot) : Prop :=
  wp E.unlinking (fun _ => True) (fun _ => True) p Q s

theorem createTemp_temp : ∀ (n : Nat) {s : Slot}, s.temp = none →
    E.leaves (createTemp n) (fun r s' => r = false → s'.temp = none) s
  | 0, _, ht => fun _ => ht
  | n + 1, s, ht => by
    rw [Env.leaves, createTemp, wp_bind, wp_req]
    refine ⟨trivial, fun r s' h => ?_⟩
    cases r with
    | opened => exact fun hr => by cases hr
    | eexist =>
      obtain ⟨⟨-, rfl⟩, -⟩ := h
      exact createTemp_temp n ht
    | failed =>
      obtain ⟨⟨-, rfl⟩, -⟩ := h
      exact fun _ => ht

theorem openWriter_temp {s : Slot} (ht : s.temp = none) :
    E.leaves openWriter (fun r s' => r = false → s'.temp = none) s := by
  rw [Env.leaves, openWriter, wp_bind, wp_req]
  refine ⟨trivial, fun r s' h => ?_⟩
  have hs : s' = s := by cases r <;> exact h.1.2
  subst hs
  cases r with
  | refused => exact fun _ => ht
  | absent => exact createTemp_temp 8 ht
  | regular => exact createTemp_temp 8 ht

theorem commit_temp {s : Slot} : E.leaves commit (fun r s' => r = true → s'.temp = none) s := by
  rw [Env.leaves, commit, wp_bind, wp_req]
  refine ⟨trivial, fun r s₁ _ => ?_⟩
  cases r with
  | false => exact fun hr => by cases hr
  | true =>
    simp only [Bool.not_true, Bool.false_eq_true, if_false, wp_bind, wp_req]
    refine ⟨trivial, fun r s₂ _ => ?_⟩
    cases r with
    | false => exact fun hr => by cases hr
    | true =>
      simp only [Bool.not_true, Bool.false_eq_true, if_false, wp_req]
      refine ⟨trivial, fun r s₃ h hr => ?_⟩
      subst hr
      obtain ⟨⟨-, rfl⟩, -⟩ := h
      rfl

theorem dropTemp_temp {s : Slot} :
    E.leaves (do let _ ← ask .removeTemp; return false) (fun _ s' => s'.temp = none) s := by
  rw [Env.leaves, wp_bind, wp_req]
  refine ⟨trivial, fun r s' h => ?_⟩
  obtain ⟨h, hr⟩ := h
  obtain rfl : r = true := hr
  obtain ⟨-, rfl⟩ := h
  rfl

/-- **A writer that was opened leaves no temporary file**: it is renamed, or unlinked. -/
theorem commitOrDrop_temp {s : Slot} (written : Bool) :
    E.leaves (commitOrDrop written) (fun _ s' => s'.temp = none) s := by
  unfold commitOrDrop
  cases written with
  | false => exact dropTemp_temp
  | true =>
    rw [Env.leaves, if_pos rfl, wp_bind]
    refine wp_mono (fun r s' h => ?_) commit_temp
    cases r with
    | true => exact h rfl
    | false => exact dropTemp_temp

theorem writeAtomically_temp {fuel : Nat} {data : Bytes} {s : Slot} (ht : s.temp = none) :
    E.leaves (writeAtomically fuel data) (fun _ s' => s'.temp = none) s := by
  rw [Env.leaves, writeAtomically, wp_bind]
  refine wp_mono (fun r s' h => ?_) (openWriter_temp ht)
  cases r with
  | false => exact h rfl
  | true =>
    rw [if_pos rfl, wp_bind]
    exact wp_mono (fun written _ _ => commitOrDrop_temp written) wp_true

theorem downloadFromData_temp {fuel : Nat} {base relative : Str} {data : Bytes} {s : Slot} (ht : s.temp = none) :
    E.leaves (downloadFromData fuel base relative data) (fun _ s' => s'.temp = none) s := by
  unfold downloadFromData
  split
  · exact ht
  · rw [Env.leaves, wp_bind, wp_req]
    refine ⟨trivial, fun r s' h => ?_⟩
    have hs : s' = s := by cases r <;> exact h.1.2
    subst hs
    cases r with
    | false => exact ht
    | true => exact writeAtomically_temp ht

theorem downloadAttempts_temp {fuel s3Size : Nat} : ∀ (n : Nat) {s : Slot}, s.temp = none →
    E.leaves (downloadAttempts fuel s3Size n) (fun _ s' => s'.temp = none) s
  | 0, _, ht => ht
  | n + 1, s, ht => by
    rw [Env.leaves, downloadAttempts, wp_bind, wp_req]
    refine ⟨trivial, fun r s' h => ?_⟩
    obtain ⟨⟨-, -, rfl⟩, -⟩ := h
    cases r with
    | true => exact ht
    | false =>
      simp only [Bool.false_eq_true, if_false, wp_bind, wp_req]
      refine ⟨trivial, fun r s' h => ?_⟩
      have hs : s'.temp = none := by
        cases r <;> (obtain ⟨⟨-, rfl⟩, -⟩ := h; exact ht)
      cases r with
      | threw => exact hs
      | failed => exact downloadAttempts_temp n hs
      | ok data =>
        simp only
        split
        · exact downloadAttempts_temp n hs
        · rw [wp_bind]
          refine wp_mono (fun r s' h => ?_) (writeAtomically_temp hs)
          cases r <;> exact h

theorem downloadSmallFile_temp {fuel : Nat} {base relative : Str} {s3Size : Int} {s : Slot} (ht : s.temp = none) :
    E.leaves (downloadSmallFile fuel base relative s3Size) (fun _ s' => s'.temp = none) s := by
  unfold downloadSmallFile
  split
  · exact ht
  · split
    · exact ht
    · rw [Env.leaves, wp_bind, wp_req]
      refine ⟨trivial, fun r s' h => ?_⟩
      have hs : s' = s := by cases r <;> exact h.1.2
      subst hs
      cases r with
      | false => exact ht
      | true =>
        rw [if_pos rfl]
        split
        · rw [wp_bind, wp_req]
          refine ⟨trivial, fun r s'' h => ?_⟩
          cases r with
          | false =>
            obtain ⟨⟨-, rfl⟩, -⟩ := h
            exact ht
          | true =>
            obtain ⟨⟨-, t, -, rfl⟩, -⟩ := h
            exact ht
        · exact downloadAttempts_temp _ ht

theorem copyLocalFile_temp {fuel : Nat} {sourceBase destBase relative : Str} {s : Slot} (ht : s.temp = none) :
    E.leaves (copyLocalFile fuel sourceBase destBase relative) (fun _ s' => s'.temp = none) s := by
  rw [Env.leaves, copyLocalFile, wp_bind, wp_req]
  refine ⟨trivial, fun r s' h => ?_⟩
  obtain ⟨⟨-, -, rfl⟩, -⟩ := h
  cases r with
  | true => exact ht
  | false =>
    simp only [Bool.false_eq_true, if_false]
    split
    · exact ht
    · rw [wp_bind, wp_req]
      refine ⟨trivial, fun r s₁ h => ?_⟩
      have h₁ : s₁.temp = none := by cases r <;> (obtain ⟨⟨-, rfl⟩, -⟩ := h; exact ht)
      cases r with
      | false => exact h₁
      | true =>
        simp only [Bool.not_true, Bool.false_eq_true, if_false, wp_bind, wp_req]
        refine ⟨trivial, fun r s₂ h => ?_⟩
        have h₂ : s₂.temp = none := by cases r <;> (obtain ⟨⟨-, rfl⟩, -⟩ := h; exact h₁)
        cases r with
        | false => exact h₂
        | true =>
          simp only [Bool.not_true, Bool.false_eq_true, if_false, wp_bind, wp_req]
          refine ⟨trivial, fun r s₃ h => ?_⟩
          have h₃ : s₃.temp = none := by cases r <;> (obtain ⟨⟨-, rfl⟩, -⟩ := h; exact h₂)
          cases r with
          | false => exact h₃
          | true =>
            simp only [Bool.not_true, Bool.false_eq_true, if_false, wp_bind]
            refine wp_mono (fun r s₄ h => ?_) (openWriter_temp h₃)
            cases r with
            | false => exact h rfl
            | true =>
              rw [if_pos rfl, wp_bind]
              refine wp_mono (fun success s₅ _ => ?_) wp_true
              rw [wp_bind, wp_req]
              exact ⟨trivial, fun r s₆ _ => commitOrDrop_temp _⟩

/-! ## Atomicity -/

theorem wholeFileWrite_placed {p : Exec Bool} {b : Bytes} (hp : WholeFileWrite E p b) {s : Slot} (hc : E.Calm s) :
    wp (exec E) (E.Whole s.entry (some b)) (E.Whole s.entry (some b)) p (E.Placed s.entry (some b) True) s := by
  have hun : E.Untouched s.entry True s := ⟨rfl, hc, .inr trivial⟩
  cases hp with
  | downloadFromData fuel base relative data =>
    exact downloadFromData_spec (fun _ h => h) (fun _ => trivial) (.inr trivial) (fun _ _ h => .inl h) hun
  | downloadSmallFile fuel base relative hne =>
    rw [wp_bind]
    refine wp_mono (fun r s' h => ?_)
      (downloadSmallFile_spec (fun _ h => h) (fun _ => trivial) (.inr trivial) hne (fun _ _ h => .inl h) hun)
    cases r <;> exact h
  | copyLocalFile fuel sourceBase destBase relative =>
    exact copyLocalFile_spec (fun _ h => h) (fun _ => trivial) (.inr trivial) (.inr trivial) (fun _ _ h => .inl h) hc rfl

theorem wholeFileWrite_temp {p : Exec Bool} {b : Bytes} (hp : WholeFileWrite E p b) {s : Slot} (ht : s.temp = none) :
    E.leaves p (fun _ s' => s'.temp = none) s := by
  cases hp with
  | downloadFromData fuel base relative data => exact downloadFromData_temp ht
  | downloadSmallFile fuel base relative hne =>
    rw [Env.leaves, wp_bind]
    exact wp_mono (fun _ _ h => h) (downloadSmallFile_temp ht)
  | copyLocalFile fuel sourceBase destBase relative => exact copyLocalFile_temp ht

theorem content_of_hits {b : Bytes} {s : Slot} (h : E.hits (some b) s.entry) : s.content = some b := by
  obtain ⟨t, -, he⟩ := h
  rw [Slot.content, he]
  rfl

/-- **A whole-file write is atomic**: at every step the destination is as it was or holds all the new bytes; it returns
true over the new bytes and false over the old entry; and no temporary file stays that could be unlinked. -/
theorem wholeFileWrite_atomic {p : Exec Bool} {b : Bytes} (hp : WholeFileWrite E p b) {s : Slot} (hs : s.seen = false) :
    (∀ q s', Steps (exec E) (p, s) (q, s') → s'.entry = s.entry ∨ s'.content = some b) ∧
    (∀ r s', Steps (exec E) (p, s) (.ret r, s') → if r then s'.content = some b else s'.entry = s.entry) ∧
    (s.temp = none → ∀ r s', Steps E.unlinking (p, s) (.ret r, s') → s'.temp = none) := by
  have hspec := wholeFileWrite_placed hp (show E.Calm s by intro h; rw [hs] at h; cases h)
  have hplaced : ∀ (r : Bool) (s' : Slot), E.Placed s.entry (some b) True r s' → E.Whole s.entry (some b) s' := by
    intro r s' h
    cases r with
    | false => exact .inl h.2.2
    | true => exact .inr h.2
  refine ⟨fun q s' h => ?_, fun r s' h => ?_, fun ht r s' h => ?_⟩
  · exact (wp_crash hplaced (fun _ h => h) hspec h).imp_right content_of_hits
  · have h' := wp_returns hspec h
    cases r with
    | false => exact h'.2.2
    | true => exact content_of_hits h'.2
  · exact wp_returns (Q := fun _ s' => s'.temp = none) (wholeFileWrite_temp hp ht) h

theorem wholeFileWrite_atomic_new : ∃ s', Steps (exec oneByte) (downloadFromData 1 ['d'] ['a'] [7], {}) (.ret true, s') ∧
    s'.content = some [7] := by
  have hrun : Steps (exec oneByte) (downloadFromData 1 ['d'] ['a'] [7], {})
      (.ret true, { entry := some ⟨[7], 0⟩ }) := by
    refine steps_answer true {} ⟨trivial, rfl⟩ ?_
    refine steps_answer .absent {} ⟨rfl, rfl⟩ ?_
    refine steps_answer .opened { temp := some ⟨[], 0⟩ } ⟨rfl, 0, trivial, rfl⟩ ?_
    refine steps_answer (.wrote 1) { temp := some ⟨[7], 0⟩ }
      ⟨nofun, Nat.le_refl 1, nofun, fun _ => ⟨⟨[], 0⟩, 0, rfl, trivial, rfl⟩⟩ ?_
    refine steps_answer true { temp := some ⟨[7], 0⟩ } ⟨trivial, rfl⟩ ?_
    refine steps_answer true { temp := some ⟨[7], 0⟩ } ⟨trivial, rfl⟩ ?_
    refine steps_answer true _ ⟨nofun, rfl⟩ ?_
    exact .refl
  exact ⟨_, hrun, (wholeFileWrite_atomic (E := oneByte) (.downloadFromData 1 ['d'] ['a'] [7]) rfl).2.1 true _ hrun⟩

/-! ## The differential download -/

/-- `exec` where every clearing of a file's time succeeds. -/
def Env.marking (E : Env) (c : Call) (s : Slot) (r : Resp c) (s' : Slot) : Prop :=
  exec E c s r s' ∧
    match c, r with
    | .clearMtime, r => r = true
    | _, _ => True

/-- The next plan does not skip `path`, whatever else the two sides list, where it finds the file `o` there. -/
def NotSkipped (path : Str) (o : Stored) : Prop :=
  ∀ (config : SyncConfig) (s3 loc : Listing) (localExists cancelled : Bool),
    (∀ e ∈ loc.entries, e.relativePath = path → e.mtime = o.mtime) →
      ∀ f ∈ (classifyFilesDownload config s3 localExists loc cancelled).1, f.relativePath = path → f.action ≠ .skip

/-- A file dated the epoch is never current. -/
theorem notSkipped_of_epoch {path : Str} {o : Stored} (h : o.mtime = 0) : NotSkipped path o := by
  rintro config s3 loc localExists cancelled hloc f hf rfl hskip
  cases cancelled with
  | true => exact absurd hf List.not_mem_nil
  | false =>
    obtain ⟨e, -, rfl, i, hi, -, hcur⟩ := planEntries_skip hf hskip
    have hmem := infoMap_eq_some hi
    cases localExists with
    | false => exact absurd hmem List.not_mem_nil
    | true =>
      have hm : i.mtime = 0 := (hloc _ hmem (sourceLine_path downloadRoles loc.entries e).symm).trans h
      have := (destinationIsCurrent_iff _ _).1 hcur
      omega

theorem diffDownloadFile_empty {fuel maxParallelChunks : Nat} {base relative : Str} {s : Slot} :
    wp (exec E) (fun _ => True) (fun _ => True) (diffDownloadFile fuel maxParallelChunks base relative 0)
      (fun r s' => if r then s'.content = some [] else s'.entry = s.entry) s := by
  unfold diffDownloadFile
  rw [if_neg (by decide)]
  split
  · exact rfl
  · rw [wp_bind, wp_req]
    refine ⟨trivial, fun r s' h => ?_⟩
    have hs : s' = s := by cases r <;> exact h.2
    subst hs
    cases r with
    | false => exact rfl
    | true =>
      simp only [Bool.not_true, Bool.false_eq_true, if_false, if_true, wp_req]
      refine ⟨trivial, fun r s' h => ?_⟩
      cases r with
      | false => exact congrArg Slot.entry h.2
      | true =>
        obtain ⟨-, t, -, rfl⟩ := h
        exact rfl

/-- **No half-updated file looks current**: a differential download that returns true leaves the object's bytes, and one
that returns false leaves the file as it was or, where its time could be cleared, one that the next plan fetches again. -/
theorem diffDownloadFile_detected {fuel maxParallelChunks : Nat} {base relative : Str} (hpar : 0 < maxParallelChunks)
    {s : Slot} (hs : s.seen = false) (hsep : ∀ o, s.entry = some o → E.Separates E.source o.bytes) :
    (∀ s', Steps (exec E) (diffDownloadFile fuel maxParallelChunks base relative E.source.length, s) (.ret true, s') →
      s'.content = some E.source) ∧
    ∀ s', Steps E.marking (diffDownloadFile fuel maxParallelChunks base relative E.source.length, s) (.ret false, s') →
      s'.entry = s.entry ∨ ∃ o, s'.entry = some o ∧ o.mtime = 0 ∧ NotSkipped relative o := by
  have hc : E.Calm s := by intro h; rw [hs] at h; cases h
  have hun : E.Untouched s.entry True s := ⟨rfl, hc, .inr trivial⟩
  by_cases hne : E.source = []
  · rw [hne]
    have hempty : wp (exec E) (fun _ => True) (fun _ => True) (diffDownloadFile fuel maxParallelChunks base relative 0)
        (fun r s' => if r then s'.content = some [] else s'.entry = s.entry) s := diffDownloadFile_empty
    refine ⟨fun s' h => ?_, fun s' h => ?_⟩
    · have hplaced := wp_returns hempty h
      exact hplaced
    · have hkept := wp_returns (wp_weaken (fun _ _ _ _ h => h.1) (fun _ h => h) (fun _ h => h) hempty) h
      exact .inl hkept
  · have hX : ∀ c s r s', E.marking c s r s' → exec E c s r s' := fun _ _ _ _ h => h.1
    have hM : True → ∀ s s', ¬ E.marking .clearMtime s false s' := fun _ _ _ h => by cases h.2
    have hspec : wp (exec E) (fun _ => True) (fun _ => True)
        (diffDownloadFile fuel maxParallelChunks base relative E.source.length)
        (E.DiffDownloaded (maxParallelChunks ≤ 1) s.entry True) s :=
      diffDownloadFile_spec (fun _ _ => trivial) (fun _ => trivial) (.inr trivial) hne hpar hsep (fun _ _ _ => trivial) hun
    have hmarked : wp E.marking (fun _ => True) (fun _ => True)
        (diffDownloadFile fuel maxParallelChunks base relative E.source.length)
        (E.DiffReturned (maxParallelChunks ≤ 1) s.entry True True) s :=
      diffDownloadFile_marked hX hM (fun _ _ => trivial) (fun _ => trivial) (.inr trivial) hne hpar hsep
        (fun _ _ _ => trivial) hun
    refine ⟨fun s' h => ?_, fun s' h => ?_⟩
    · rcases (wp_returns hspec h).2 with hit | ⟨he, hb⟩
      · exact content_of_hits hit
      · rw [Slot.content, he, hb]
    · rcases (wp_returns hmarked h).2 trivial rfl with he | ⟨o, ho, hm⟩
      · exact .inl he
      · exact .inr ⟨o, ho, hm, notSkipped_of_epoch hm⟩

/-- The one worker has fetched the chunk that differs. -/
theorem halfOld_fetched :
    Steps twoChunks.marking (diffDownloadFile 9 1 ['d'] ['a'] 8388610, halfOld)
      (patchLoop [1] 8388610 6 { nextChunkIdx := 1, workers := [.write 1 3 [1, 2]] } >>= finishPatch 8388610 8388610,
        halfOld) := by
  have hlen := length_twoChunks 1 2
  have hcrcs : twoChunks.chunkCRC32s (zeros ++ [1, 2]) = [0, 2] := lastByte_crcs rfl (by simp) (by decide)
  have hcrcs' : twoChunks.chunkCRC32s (zeros ++ [3, 4]) = [0, 4] := lastByte_crcs rfl (by simp) (by decide)
  have hsource : twoChunks.source = zeros ++ [1, 2] := rfl
  have hcontent : halfOld.content = some (zeros ++ [3, 4]) := rfl
  have hgo : exec twoChunks .cancelled halfOld false halfOld := ⟨nofun, nofun, rfl⟩
  refine steps_answer true halfOld ⟨⟨trivial, rfl⟩, trivial⟩ ?_
  refine steps_answer (.ok [0, 2]) halfOld ⟨⟨?_, rfl⟩, trivial⟩ ?_
  · have hsize : (8388610 : Int).toNat = 8388610 := rfl
    rw [hsource, hsize, if_pos ⟨by decide, by rw [hlen]⟩, ← hlen, List.take_length, hcrcs]
  refine steps_answer (.ok true) halfOld ⟨⟨rfl, rfl⟩, trivial⟩ ?_
  refine steps_answer (.ok 8388610) halfOld ⟨⟨congrArg some (length_twoChunks 3 4), rfl⟩, trivial⟩ ?_
  refine steps_answer (.ok [0, 4]) halfOld ⟨⟨?_, rfl⟩, trivial⟩ ?_
  · rw [hcontent, Option.bind_some, if_neg (by simp), hcrcs']
  refine steps_answer true halfOld ⟨⟨.inl nofun, .inl ⟨nofun, rfl⟩⟩, trivial⟩ ?_
  refine steps_answer (0 : Fin 1) halfOld ⟨rfl, trivial⟩ ?_
  refine steps_answer false halfOld ⟨hgo, trivial⟩ ?_
  refine steps_answer (0 : Fin 1) halfOld ⟨rfl, trivial⟩ ?_
  refine steps_answer false halfOld ⟨hgo, trivial⟩ ?_
  refine steps_answer (0 : Fin 1) halfOld ⟨rfl, trivial⟩ ?_
  refine steps_answer (.ok [1, 2]) halfOld ⟨⟨?_, rfl⟩, trivial⟩ ?_
  · have hstart : 1 * defaultChunkSize = 8388608 := by decide
    have hrest : chunkLen defaultChunkSize (8388610 : Int).toNat 1 = 2 := by decide
    have hle : 8388608 + 2 ≤ twoChunks.source.length := (length_twoChunks 1 2).ge
    rw [hstart, hrest, if_pos hle]
    exact congrArg some (slice_zeros 1 2)
  exact .refl

/-- The worker's write of its two bytes, or of one of them. -/
theorem halfOld_pwrite {n : Nat} {b : Bytes} (hn : 0 < n ∧ n ≤ 2)
    (hb : Lib.pwrite 0 (zeros ++ [3, 4]) 8388608 ([1, 2].take n) = b) :
    twoChunks.marking
      (.pwrite (1 * defaultChunkSize + (chunkLen defaultChunkSize 8388610 1 - ([1, 2] : Bytes).length)) [1, 2]) halfOld
      (.wrote n) { entry := some ⟨b, 9⟩ } := by
  have hoff : 1 * defaultChunkSize + (chunkLen defaultChunkSize 8388610 1 - ([1, 2] : Bytes).length) = 8388608 := by
    decide
  refine ⟨⟨nofun, hn.2, fun h => by omega, fun _ => ⟨_, rfl, 9, rfl, ?_⟩⟩, trivial⟩
  rw [hoff, ← hb]
  rfl

theorem halfOld_patched : Steps twoChunks.marking (diffDownloadFile 9 1 ['d'] ['a'] 8388610, halfOld)
    (.ret true, { entry := some ⟨zeros ++ [1, 2], 9⟩ }) := by
  have hbytes : Lib.pwrite 0 (zeros ++ [3, 4]) 8388608 [1, 2] = zeros ++ [1, 2] := by
    have hlen : zeros.length = 8388608 := length_zeros
    rw [← hlen, Lib.pwrite]
    simp
  refine halfOld_fetched.trans ?_
  refine steps_answer (0 : Fin 1) halfOld ⟨rfl, trivial⟩ ?_
  refine steps_answer (.wrote 2) _ (halfOld_pwrite (by decide) hbytes) ?_
  refine steps_answer (0 : Fin 1) _ ⟨rfl, trivial⟩ ?_
  refine steps_answer (0 : Fin 1) _ ⟨rfl, trivial⟩ ?_
  refine steps_answer false _ ⟨⟨nofun, nofun, rfl⟩, trivial⟩ ?_
  refine steps_answer false _ ⟨⟨nofun, nofun, rfl⟩, trivial⟩ ?_
  refine steps_answer true _ ⟨⟨trivial, rfl⟩, trivial⟩ ?_
  exact .refl

/-- One byte is written, then a write fails and the run is cancelled. -/
theorem halfOld_marked : Steps twoChunks.marking (diffDownloadFile 9 1 ['d'] ['a'] 8388610, halfOld)
    (.ret false, { entry := some ⟨zeros ++ [1, 4], 0⟩, seen := true }) := by
  have hfaulty : twoChunks.faulty := Mode.noConfusion
  have hbytes : Lib.pwrite 0 (zeros ++ [3, 4]) 8388608 [1] = zeros ++ [1, 4] := by
    have hlen : zeros.length = 8388608 := length_zeros
    rw [← hlen]
    exact pwrite_one 0 zeros 3 1 [4]
  have hseen : ∀ s : Slot, twoChunks.marking .cancelled s true { s with seen := true } := fun _ =>
    ⟨⟨fun _ => rfl, fun _ => .inl hfaulty, rfl⟩, trivial⟩
  refine halfOld_fetched.trans ?_
  refine steps_answer (0 : Fin 1) halfOld ⟨rfl, trivial⟩ ?_
  refine steps_answer (.wrote 1) _ (halfOld_pwrite (by decide) hbytes) ?_
  refine steps_answer (0 : Fin 1) _ ⟨rfl, trivial⟩ ?_
  refine steps_answer .failed _ ⟨⟨.inl hfaulty, rfl⟩, trivial⟩ ?_
  refine steps_answer (0 : Fin 1) _ ⟨rfl, trivial⟩ ?_
  refine steps_answer true _ (hseen _) ?_
  refine steps_answer (0 : Fin 1) _ ⟨rfl, trivial⟩ ?_
  refine steps_answer true _ (hseen _) ?_
  refine steps_answer (0 : Fin 1) _ ⟨rfl, trivial⟩ ?_
  refine steps_answer true _ (hseen _) ?_
  refine steps_answer true _ (hseen _) ?_
  refine steps_answer true _ ⟨⟨trivial, rfl⟩, rfl⟩ ?_
  exact .refl

theorem diffDownloadFile_detected_patched :
    (∃ s', Steps (exec twoChunks) (diffDownloadFile 9 1 ['d'] ['a'] 8388610, halfOld) (.ret true, s') ∧
      s'.content = some (zeros ++ [1, 2])) ∧
    ∃ s' o, Steps twoChunks.marking (diffDownloadFile 9 1 ['d'] ['a'] 8388610, halfOld) (.ret false, s') ∧
      s'.entry = some o ∧ o.bytes = zeros ++ [1, 4] ∧ NotSkipped ['a'] o := by
  have hlen : (twoChunks.source.length : Int) = 8388610 := congrArg Int.ofNat (length_twoChunks 1 2)
  have hsep : ∀ o, halfOld.entry = some o → twoChunks.Separates twoChunks.source o.bytes := by
    rintro _ ⟨⟩
    exact lastByte_separates rfl (by simp) (by decide) (by simp) (by decide) fun h => absurd h (by decide)
  obtain ⟨htrue, hfalse⟩ := @diffDownloadFile_detected twoChunks 9 1 ['d'] ['a'] Nat.one_pos halfOld rfl hsep
  rw [hlen] at htrue hfalse
  have hpatched := steps_weaken (fun _ _ _ _ h => h.1) halfOld_patched
  refine ⟨⟨_, hpatched, htrue _ hpatched⟩, _, _, halfOld_marked, rfl, rfl, ?_⟩
  rcases hfalse _ halfOld_marked with hsame | ⟨o, ho, -, hskip⟩
  · have hbytes := congrArg Stored.bytes (Option.some.inj hsame)
    have htail : ([1, 4] : Bytes) = [3, 4] := List.append_cancel_left hbytes
    exact absurd htail (by decide)
  · obtain rfl := Option.some.inj ho
    exact hskip

end Mito
