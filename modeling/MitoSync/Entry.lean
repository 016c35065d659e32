import MitoSync.Sync
import MitoSync.DiffUpload
import MitoSync.PatchSpec
/-!
# Entry — what processing one line establishes

Every action refines one assignment: the destination becomes the line's goal, the source's bytes or, for a delete,
nothing.  A line counted as done has made it so (`Did`); one that failed was refused something; one that was dropped
has seen a cancellation; and while it runs the destination is the old entry or the goal, except under a differential
download, which may leave a blend of both (`During`).
-/
namespace Mito

open Lib Prog

def SyncFileEntry.goal (f : SyncFileEntry) (source : Bytes) : Option Bytes :=
  if f.action = .delete then none else some source

/-- The lines that look for what to change, and may find nothing. -/
def SyncFileEntry.isDiff (f : SyncFileEntry) : Prop := f.action = .uploadDiff ∨ f.action = .downloadDiff

namespace Env

variable (E : Env)

/-- The states a line passes through. -/
def During (config : SyncConfig) (f : SyncFileEntry) (old : Option Stored) (s : Slot) : Prop :=
  if f.action = .downloadDiff then E.Torn (parallelChunks config ≤ 1) old s else E.Whole old (f.goal E.source) s

/-- What a line that is done has done. -/
def Did (f : SyncFileEntry) (old : Option Stored) (s : Slot) : Prop :=
  E.hits (f.goal E.source) s.entry ∨ f.isDiff ∧ s.entry = old ∧ old.map Stored.bytes = some E.source

def Counted (config : SyncConfig) (f : SyncFileEntry) (old : Option Stored) (F : Prop) : Outcome → Slot → Prop
  | .done, s => E.Did f old s
  | .failed, s => F ∧ E.During config f old s
  | .dropped, s => s.seen = true ∧ E.During config f old s

/-- What the planner read of a line's source.  A local size that could not be read is 0. -/
structure Sized (f : SyncFileEntry) : Prop where
  loc : f.action = .upload → f.localSize = E.source.length ∨ f.localSize = 0
  s3 : f.action = .download ∨ f.action = .downloadDiff ∨ f.action = .copy → f.s3Size = E.source.length
  diff : f.isDiff → E.source ≠ []

/-- Everything an executor may refuse a line for shows `F`. -/
structure Admits (config : SyncConfig) (f : SyncFileEntry) (old : Option Stored) (F : Prop) : Prop where
  fault : E.faulty → F
  put : f.action = .upload → config.direction ≠ .localToLocal → E.source.length ≤ kMaxSinglePutBytes ∨ F
  parts : f.action = .uploadDiff → numChunks defaultChunkSize E.source.length ≤ kMaxMultipartParts ∨ F
  copyParts : f.action = .copy → numChunks multipartPartSize E.source.length ≤ kMaxMultipartParts ∨ F
  target : f.action = .download ∨ f.action = .downloadDiff ∨ f.action = .delete ∧ config.direction = .download →
    targetAccepted config.localPath f.relativePath = true ∨ F
  destTarget : (f.action = .upload ∨ f.action = .delete) ∧ config.direction = .localToLocal →
    targetAccepted config.destLocalPath f.relativePath = true ∨ F
  link : f.action = .upload → config.direction = .localToLocal → E.sourceIsLink = false ∨ F
  present : f.action = .delete → config.direction = .download ∨ config.direction = .localToLocal → old ≠ none ∨ F

end Env

variable {E : Env} {I H : Slot → Prop} {old : Option Stored} {F : Prop} {config : SyncConfig}
  {f : SyncFileEntry}

theorem Env.Torn.during (ha : f.action = .downloadDiff) {s : Slot} (h : E.Torn (parallelChunks config ≤ 1) old s) :
    E.During config f old s := by
  rw [Env.During, if_pos ha]
  exact h

theorem Env.Whole.during (ha : f.action ≠ .downloadDiff) {s : Slot} (h : E.Whole old (f.goal E.source) s) :
    E.During config f old s := by
  rw [Env.During, if_neg ha]
  exact h

theorem during_of_eq {s : Slot} (h : s.entry = old) : E.During config f old s := by
  by_cases ha : f.action = .downloadDiff
  · exact Env.Torn.during ha (.inl (.inl h))
  · exact Env.Whole.during ha (.inl h)

/-! ## Counting -/

theorem count_spec (hI : ∀ s, E.During config f old s → I s) {success : Bool} {s : Slot} (hc : E.Calm s)
    (h : if success then E.Did f old s else F ∧ E.During config f old s) :
    wp (exec E) I H (count success) (E.Counted config f old F) s := by
  unfold count
  cases success with
  | true => exact h
  | false =>
    obtain ⟨hF, hd⟩ := h
    simp only [Bool.false_eq_true, if_false, wp_bind, wp_req]
    refine ⟨hI s hd, fun r s' hr => ?_⟩
    obtain ⟨rfl, -⟩ := cancelled_cases hc hr
    cases r with
    | true => exact ⟨rfl, hd⟩
    | false => exact ⟨hF, hd⟩

theorem countAns_spec (hI : ∀ s, E.During config f old s → I s) (hH : F → ∀ s, E.During config f old s → H s) {a : Ans Unit}
    {s : Slot} (hc : E.Calm s)
    (h : match a with | .ok _ => E.Did f old s | _ => F ∧ E.During config f old s) :
    wp (exec E) I H (countAns a) (E.Counted config f old F) s := by
  cases a with
  | ok _ => exact count_spec hI hc h
  | failed => exact count_spec hI hc h
  | threw => exact hH h.1 s h.2

/-- A request's outcome, counted. -/
theorem settled_counted (hI : ∀ s, E.During config f old s → I s) (hH : F → ∀ s, E.During config f old s → H s)
    (hd : f.action ≠ .downloadDiff) {U : List MultipartUpload → Prop} {F' : Prop} (hF : F' → F) {a : Ans Unit} {s : Slot}
    (h : E.Settled old U (f.goal E.source) F' a s) : wp (exec E) I H (countAns a) (E.Counted config f old F) s := by
  cases a with
  | ok _ => exact countAns_spec hI hH h.2.2 (.inl h.1)
  | failed => exact countAns_spec hI hH h.1.calm ⟨hF h.2, Env.Whole.during hd h.1.entry.whole⟩
  | threw => exact countAns_spec hI hH h.1.calm ⟨hF h.2, Env.Whole.during hd h.1.entry.whole⟩

/-- A file writer's outcome, counted. -/
theorem placed_counted (hI : ∀ s, E.During config f old s → I s) {success : Bool} {s : Slot}
    (h : E.Placed old (f.goal E.source) F success s) : wp (exec E) I H (count success) (E.Counted config f old F) s := by
  refine count_spec hI h.1 ?_
  cases success with
  | true => exact .inl h.2
  | false => exact ⟨h.2.1, during_of_eq h.2.2⟩

/-! ## Processing -/

/-- Where an executor starts: the destination as it was. -/
structure Env.Starts (E : Env) (config : SyncConfig) (f : SyncFileEntry) (old : Option Stored) (F : Prop) (s : Slot) :
    Prop where
  entry : s.entry = old
  calm : E.Calm s
  /-- only a file's executor needs its directory -/
  parent : f.action = .download ∨ f.action = .downloadDiff ∨
    f.action = .delete ∧ (config.direction = .download ∨ config.direction = .localToLocal) → s.parent = true ∨ F

theorem Env.Starts.pending {s : Slot} (h : E.Starts config f old F s) (g : Option Bytes) :
    E.Pending old (fun _ => True) g s := ⟨.inl h.entry, trivial, h.calm⟩

theorem goal_of_ne (h : f.action ≠ .delete) (b : Bytes) : f.goal b = some b := if_neg h

theorem goal_of_delete (h : f.action = .delete) (b : Bytes) : f.goal b = none := if_pos h

section Process

variable {limits : Limits} (hI : ∀ s, E.During config f old s → I s)
  (hH : F ∨ limits.fuel < fuelFor E.source.length → ∀ s, E.During config f old s → H s)
  (hz : E.Sized f) (hA : E.Admits config f old F) (hsep : f.isDiff → ∀ o, old = some o → E.Separates E.source o.bytes)

include hI hH hA in
theorem processUpload_spec (ha : f.action = .upload) {preRead : Option Bytes} (hp : ∀ d ∈ preRead, d = E.source)
    {s : Slot} (hs : E.Starts config f old F s) :
    wp (exec E) I H (match config.direction, preRead with
      | .localToLocal, _ => do
        let success ← copyLocalFile limits.fuel config.localPath config.destLocalPath f.relativePath
        count success
      | _, some data => do
        let a ← uploadFromData data
        countAns a
      | _, none => do
        let a ← uploadSmallFile
        countAns a) (E.Counted config f old F) s := by
  have hnd : f.action ≠ .downloadDiff := by rw [ha]; simp
  have hg : f.goal E.source = some E.source := goal_of_ne (by rw [ha]; simp) _
  have hw : ∀ s, E.Whole old (some E.source) s → I s := fun s h => hI s (Env.Whole.during hnd (hg ▸ h))
  have hHF : F → ∀ s, E.During config f old s → H s := fun hF => hH (.inl hF)
  have hpend := hs.pending (some E.source)
  by_cases hl : config.direction = .localToLocal
  · simp only [hl, wp_bind]
    refine wp_mono (fun success s' h => placed_counted hI (hg ▸ h))
      (copyLocalFile_spec hw hA.fault (hA.link ha hl) (hA.destTarget ⟨.inl ha, hl⟩) ?_ hs.calm hs.entry)
    intro hf s h
    refine hH (hf.imp hA.fault (fun hlt => ?_)) s (during_of_eq h)
    unfold fuelFor
    omega
  · have hF : E.faulty ∨ ¬ E.source.length ≤ kMaxSinglePutBytes → F := by
      rintro (hf | hlim)
      · exact hA.fault hf
      · exact (hA.put ha hl).resolve_left hlim
    cases preRead with
    | some data =>
      obtain rfl := hp data rfl
      have h := wp_mono (fun a s' h => settled_counted hI hHF hnd hF (hg ▸ h))
        (wp_weaken (I := E.Whole old (some E.source)) (H := H) (fun _ _ _ _ h => h) hw (fun _ h => h)
          (uploadFromData_spec hpend))
      cases hd : config.direction with
      | localToLocal => exact absurd hd hl
      | upload => simpa only [wp_bind] using h
      | download => simpa only [wp_bind] using h
      | s3ToS3 => simpa only [wp_bind] using h
    | none =>
      have h := wp_mono (fun a s' h => settled_counted hI hHF hnd hF (hg ▸ h))
        (wp_weaken (I := E.Whole old (some E.source)) (H := H) (fun _ _ _ _ h => h) hw (fun _ h => h)
          (uploadSmallFile_spec hpend))
      cases hd : config.direction with
      | localToLocal => exact absurd hd hl
      | upload => simpa only [wp_bind] using h
      | download => simpa only [wp_bind] using h
      | s3ToS3 => simpa only [wp_bind] using h

include hI hH hA in
theorem enqueueWrite_spec (ha : f.action = .download) {s : Slot} (hs : E.Starts config f old F s) :
    wp (exec E) I H (enqueueWrite limits.fuel config.localPath f.relativePath E.source) (E.Counted config f old F) s := by
  have hnd : f.action ≠ .downloadDiff := by rw [ha]; simp
  have hg : f.goal E.source = some E.source := goal_of_ne (by rw [ha]; simp) _
  unfold enqueueWrite
  rw [wp_bind, wp_req]
  refine ⟨hI s (during_of_eq hs.entry), fun r s' hr => ?_⟩
  obtain ⟨rfl, hrF⟩ := cancelled_cases hs.calm hr
  cases r with
  | true => exact ⟨rfl, during_of_eq hs.entry⟩
  | false =>
    have hun : E.Untouched old F { s with seen := false } := ⟨hs.entry, by simp [Env.Calm], hs.parent (.inl ha)⟩
    simp only [Bool.false_eq_true, if_false, wp_bind]
    refine wp_mono (fun success s' h => ?_) (downloadFromData_spec
      (fun s h => hI s (Env.Whole.during hnd (hg ▸ h))) hA.fault (hA.target (.inl ha)) (fun hf s h => ?_) hun)
    · cases success with
      | true => exact .inl (hg ▸ h.2)
      | false => exact ⟨h.2.1, during_of_eq h.2.2⟩
    · refine hH (hf.imp hA.fault (fun hlt => ?_)) s (during_of_eq h)
      unfold fuelFor
      omega

/-- The object read whole, in the loop that retries it. -/
theorem sourceRange_spec (hI : ∀ s, E.Starts config f old F s → I s) (hF : E.faulty → F) {s : Slot}
    (hs : E.Starts config f old F s) :
    wp (exec E) I H (retry (ask (.sourceRange 0 E.source.length)) (maxRetries + 1))
      (fun a s' => E.Starts config f old F s' ∧ match a with | .ok d => d = E.source | _ => F) s := by
  refine wp_retry (J := E.Starts config f old F) (F := F) hI hF (fun s h => h.calm)
    (fun s b h hb => ⟨h.entry, hb, h.parent⟩) (fun s h => ?_)
    (fun hF s h => ⟨h, hF⟩) _ s hs (.inl (Nat.succ_pos _))
  rw [wp_req]
  refine ⟨hI s h, fun r s' hr => ?_⟩
  cases r with
  | ok d =>
    obtain ⟨hd, rfl⟩ := hr
    refine ⟨fun h => absurd h (by simp), fun _ => ⟨h, ?_⟩⟩
    rw [Nat.zero_add, if_pos (Nat.le_refl _), slice_zero_length, Option.some.injEq] at hd
    exact hd.symm
  | failed =>
    obtain ⟨hf, rfl⟩ := hr
    exact ⟨fun _ => ⟨h, hF (hf.resolve_right (by simp))⟩, fun hn => absurd rfl hn⟩
  | threw =>
    obtain ⟨hf, rfl⟩ := hr
    exact ⟨fun h => absurd h (by simp), fun _ => ⟨h, hF hf⟩⟩

include hI hH hz hA in
theorem processDownload_spec (ha : f.action = .download) {preRead : Option Bytes} (hp : ∀ d ∈ preRead, d = E.source)
    {s : Slot} (hs : E.Starts config f old F s) :
    wp (exec E) I H (processDownload limits.fuel config f preRead) (E.Counted config f old F) s := by
  have hnd : f.action ≠ .downloadDiff := by rw [ha]; simp
  have hg : f.goal E.source = some E.source := goal_of_ne (by rw [ha]; simp) _
  have hsize : f.s3Size = E.source.length := hz.s3 (.inl ha)
  have hHF : F → ∀ s, E.During config f old s → H s := fun hF => hH (.inl hF)
  unfold processDownload
  cases preRead with
  | some data =>
    obtain rfl := hp data rfl
    exact enqueueWrite_spec hI hH hA ha hs
  | none =>
    by_cases h0 : f.s3Size = 0
    · have hnil : E.source = [] := List.length_eq_zero_iff.1 (by omega)
      have hun : E.Untouched old F s := ⟨hs.entry, hs.calm, hs.parent (.inl ha)⟩
      have hg' : f.goal E.source = some [] := by rw [hg, hnil]
      simp only [h0, if_true, wp_bind]
      refine wp_mono (fun success s' h => placed_counted hI (hg' ▸ h)) (downloadFromData_spec
        (fun s h => hI s (Env.Whole.during hnd (hg' ▸ h))) hA.fault (hA.target (.inl ha)) (fun hf s h => ?_) hun)
      exact hH (.inl (hA.fault (hf.resolve_right (by simp)))) s (during_of_eq h)
    · have hlen : f.s3Size.toNat = E.source.length := by omega
      simp only [h0, if_false, wp_bind]
      rw [hlen]
      refine wp_mono (fun a s' h => ?_) (sourceRange_spec (fun s h => hI s (during_of_eq h.entry)) hA.fault hs)
      obtain ⟨hs', ha'⟩ := h
      cases a with
      | ok data =>
        obtain rfl := ha'
        exact enqueueWrite_spec hI hH hA ha hs'
      | failed => exact count_spec hI hs'.calm ⟨ha', during_of_eq hs'.entry⟩
      | threw => exact hHF ha' s' (during_of_eq hs'.entry)

include hI hA hz hsep in
theorem processUploadDiff_spec (ha : f.action = .uploadDiff) {s : Slot} (hs : E.Starts config f old F s) :
    wp (exec E) I H (diffUploadFile >>= count) (E.Counted config f old F) s := by
  have hnd : f.action ≠ .downloadDiff := by rw [ha]; simp
  have hg : f.goal E.source = some E.source := goal_of_ne (by rw [ha]; simp) _
  have hw : ∀ s', E.Whole s.entry (some E.source) s' → I s' := by
    rw [hs.entry]
    exact fun s h => hI s (Env.Whole.during hnd (hg ▸ h))
  rw [wp_bind]
  refine wp_mono (fun success s' h => count_spec hI h.1 ?_) (wp_weaken (H := H) (fun _ _ _ _ h => h) hw (fun _ h => h)
    (diffUploadFile_spec hs.calm (hz.diff (.inl ha)) (by rw [hs.entry]; exact hsep (.inl ha))))
  have h' := h.2
  rw [hs.entry] at h'
  cases success with
  | true =>
    rcases h' with h' | h'
    · exact .inl (hg ▸ h')
    · exact .inr ⟨.inl ha, h'⟩
  | false =>
    refine ⟨?_, Env.Whole.during hnd (hg ▸ h'.2.1.whole)⟩
    rcases h'.1 with hf | hp
    · exact hA.fault hf
    · exact (hA.parts ha).resolve_left (Nat.not_le.2 hp)

include hI hH hA hz hsep in
theorem processDownloadDiff_spec (ha : f.action = .downloadDiff) {s : Slot} (hs : E.Starts config f old F s) :
    wp (exec E) I H (diffDownloadFile limits.fuel (parallelChunks config) config.localPath f.relativePath f.s3Size >>=
      count) (E.Counted config f old F) s := by
  have hg : f.goal E.source = some E.source := goal_of_ne (by rw [ha]; simp) _
  have hpar : 0 < parallelChunks config := by unfold parallelChunks; omega
  have hun : E.Untouched old F s := ⟨hs.entry, hs.calm, hs.parent (.inr (.inl ha))⟩
  rw [wp_bind, hz.s3 (.inr (.inl ha))]
  refine wp_mono (fun success s' h => count_spec hI h.1 ?_) (diffDownloadFile_spec
    (fun s h => hI s (Env.Torn.during ha h)) hA.fault (hA.target (.inr (.inl ha))) (hz.diff (.inr ha)) hpar
    (hsep (.inr ha)) (fun hf s h => hH (hf.imp_left hA.fault) s (Env.Torn.during ha h)) hun)
  have h' := h.2
  cases success with
  | true =>
    rcases h' with h' | h'
    · exact .inl (hg ▸ h')
    · exact .inr ⟨.inr ha, h'⟩
  | false => exact ⟨h'.1, Env.Torn.during ha h'.2⟩

include hI hH hA in
theorem processDelete_spec (ha : f.action = .delete) {s : Slot} (hs : E.Starts config f old F s) :
    wp (exec E) I H (match config.direction with
      | .download => do
        let success ← deleteLocalFile config.localPath f.relativePath
        count success
      | .localToLocal => do
        let success ← deleteLocalFile config.destLocalPath f.relativePath
        count success
      | _ => do
        let a ← deleteS3Object
        countAns a) (E.Counted config f old F) s := by
  have hnd : f.action ≠ .downloadDiff := by rw [ha]; simp
  have hg : f.goal E.source = none := goal_of_delete ha _
  have hw : ∀ s, E.Whole old none s → I s := fun s h => hI s (Env.Whole.during hnd (hg ▸ h))
  have hs3 := wp_mono (fun a s' h => settled_counted hI (fun hF => hH (.inl hF)) hnd hA.fault (hg ▸ h))
    (wp_weaken (I := E.Whole old none) (H := H) (fun _ _ _ _ h => h) hw (fun _ h => h)
      (deleteS3Object_spec (hs.pending none)))
  cases hd : config.direction with
  | upload => simpa only [wp_bind] using hs3
  | s3ToS3 => simpa only [wp_bind] using hs3
  | download =>
    have hun : E.Untouched old F s := ⟨hs.entry, hs.calm, hs.parent (.inr (.inr ⟨ha, .inl hd⟩))⟩
    simp only [wp_bind]
    exact wp_mono (fun success s' h => placed_counted hI (hg ▸ h))
      (deleteLocalFile_spec hw hA.fault (hA.target (.inr (.inr ⟨ha, hd⟩))) (hA.present ha (.inl hd)) hun)
  | localToLocal =>
    have hun : E.Untouched old F s := ⟨hs.entry, hs.calm, hs.parent (.inr (.inr ⟨ha, .inr hd⟩))⟩
    simp only [wp_bind]
    exact wp_mono (fun success s' h => placed_counted hI (hg ▸ h))
      (deleteLocalFile_spec hw hA.fault (hA.destTarget ⟨.inr ha, hd⟩) (hA.present ha (.inr hd)) hun)

include hI hH hA hz in
theorem processCopy_spec (ha : f.action = .copy) {s : Slot} (hs : E.Starts config f old F s) :
    wp (exec E) I H (copyS3Object limits.clientRetries f.s3Size.toNat >>= countAns) (E.Counted config f old F) s := by
  have hnd : f.action ≠ .downloadDiff := by rw [ha]; simp
  have hg : f.goal E.source = some E.source := goal_of_ne (by rw [ha]; simp) _
  have hw : ∀ s, E.Whole old (some E.source) s → I s := fun s h => hI s (Env.Whole.during hnd (hg ▸ h))
  have hF : E.CopyRefused → F := by
    rintro (hf | hp)
    · exact hA.fault hf
    · exact (hA.copyParts ha).resolve_left (Nat.not_le.2 hp)
  have hlen : f.s3Size.toNat = E.source.length := by
    have := hz.s3 (.inr (.inr ha))
    omega
  rw [wp_bind, hlen]
  exact wp_mono (fun a s' h => settled_counted hI (fun hF => hH (.inl hF)) hnd hF (hg ▸ h))
    (wp_weaken (I := E.Whole old (some E.source)) (H := H) (fun _ _ _ _ h => h) hw (fun _ h => h)
      (copyS3Object_spec (hs.pending _)))

include hI hH hz hA hsep in
/-- **`process_file` makes the destination the line's goal**, or was refused, or saw a cancellation. -/
theorem processFile_spec (hns : f.action ≠ .skip) {preRead : Option Bytes} (hp : ∀ d ∈ preRead, d = E.source)
    {s : Slot} (hs : E.Starts config f old F s) :
    wp (exec E) I H (processFile limits config f preRead) (E.Counted config f old F) s := by
  unfold processFile
  rw [wp_bind, wp_req]
  refine ⟨hI s (during_of_eq hs.entry), fun r s' hr => ?_⟩
  obtain ⟨rfl, hrF⟩ := cancelled_cases hs.calm hr
  cases r with
  | true => exact ⟨rfl, during_of_eq hs.entry⟩
  | false =>
    have hs' : E.Starts config f old F { s with seen := false } := ⟨hs.entry, by simp [Env.Calm], hs.parent⟩
    simp only [Bool.false_eq_true, if_false]
    cases ha : f.action with
    | skip => exact absurd ha hns
    | upload => exact processUpload_spec hI hH hA ha hp hs'
    | uploadDiff => exact processUploadDiff_spec hI hz hA hsep ha hs'
    | download => exact processDownload_spec hI hH hz hA ha hp hs'
    | downloadDiff => exact processDownloadDiff_spec hI hH hz hA hsep ha hs'
    | copy => exact processCopy_spec hI hH hz hA ha hs'
    | delete => exact processDelete_spec hI hH hA ha hs'

include hz in
/-- What the pre-read stage hands on is the source. -/
theorem prefetch_spec {s : Slot} (hI : I s) :
    wp (exec E) I H (prefetch f) (fun preRead s' => (∀ d ∈ preRead, d = E.source) ∧ s' = s) s := by
  unfold prefetch
  cases hsz : prefetchSize f with
  | none => exact ⟨by simp, rfl⟩
  | some size =>
    have hsize : size = E.source.length := by
      unfold prefetchSize at hsz
      cases ha : f.action <;> simp only [ha, reduceCtorEq, Option.ite_none_right_eq_some, Option.some.injEq] at hsz
      · rcases hz.loc ha with h | h <;> omega
      · have := hz.s3 (.inl ha)
        omega
    subst hsize
    simp only [wp_bind, wp_req]
    refine ⟨hI, fun r s' hr => ?_⟩
    cases r with
    | failed => exact ⟨by simp, hr.2⟩
    | threw => exact ⟨by simp, hr.2⟩
    | ok d =>
      obtain ⟨hd, rfl⟩ := hr
      rw [Nat.zero_add, if_pos (Nat.le_refl _), slice_zero_length, Option.some.injEq] at hd
      refine ⟨hI, fun hit s'' hh => ?_⟩
      obtain rfl : s'' = s' := hh
      cases hit with
      | false => exact ⟨by simp, rfl⟩
      | true => exact ⟨by simp [hd], rfl⟩

include hI hH hz hA hsep in
/-- **A line, from the submitter to its count.** -/
theorem processEntry_spec (hns : f.action ≠ .skip) {s : Slot} (hs : E.Starts config f old F s) :
    wp (exec E) I H (processEntry limits config f) (E.Counted config f old F) s := by
  unfold processEntry
  rw [wp_bind]
  refine wp_mono (fun preRead s' h => ?_) (prefetch_spec hz (hI s (during_of_eq hs.entry)))
  obtain ⟨hp, rfl⟩ := h
  rw [wp_bind, wp_req]
  refine ⟨hI s' (during_of_eq hs.entry), fun r s'' hr => ?_⟩
  obtain ⟨rfl, hrF⟩ := cancelled_cases hs.calm hr
  cases r with
  | true => exact ⟨rfl, during_of_eq hs.entry⟩
  | false =>
    simp only [Bool.false_eq_true, if_false]
    exact processFile_spec hI hH hz hA hsep hns hp ⟨hs.entry, by simp [Env.Calm], hs.parent⟩

end Process

/-! ## A line that is dropped -/

section Dropped

variable {E : Env}

/-- What a line's program leaves where it drops the line. -/
abbrev DropSpec {α : Type} (p : Exec α) (Q : α → Slot → Prop) (s : Slot) : Prop :=
  wp (exec E) (fun _ => True) (fun _ => True) p Q s

def SawDrop (o : Outcome) (s : Slot) : Prop := o = .dropped → s.seen = true

/-- A look at the flag, before a line is dropped for it. -/
theorem dropped_ask {s : Slot} {p : Exec Outcome} (h : ∀ s, DropSpec (E := E) p SawDrop s) :
    DropSpec (E := E) (do if ← ask .cancelled then return .dropped else p) SawDrop s := by
  refine wp_bind.2 ⟨trivial, fun r s' hr => ?_⟩
  obtain ⟨-, -, rfl⟩ := hr
  cases r with
  | true => exact fun _ => rfl
  | false => exact h _

theorem dropped_count (success : Bool) (s : Slot) : DropSpec (E := E) (count success) SawDrop s := by
  unfold count
  cases success with
  | true => exact fun h => (by cases h)
  | false => exact dropped_ask fun _ h => (by cases h)

theorem dropped_countAns (a : Ans Unit) (s : Slot) : DropSpec (E := E) (countAns a) SawDrop s := by
  unfold countAns
  cases a with
  | ok _ => exact dropped_count true s
  | failed => exact dropped_count false s
  | threw => trivial

/-- Whatever goes before the count of a line. -/
theorem dropped_then {α : Type} {p : Exec α} {f : α → Exec Outcome} (h : ∀ a s, DropSpec (E := E) (f a) SawDrop s)
    (s : Slot) : DropSpec (E := E) (p >>= f) SawDrop s := wp_bind.2 (wp_mono (fun a s' _ => h a s') wp_true)

theorem dropped_enqueueWrite (fuel : Nat) (base relative : Str) (data : Bytes) (s : Slot) :
    DropSpec (E := E) (enqueueWrite fuel base relative data) SawDrop s := by
  refine dropped_ask fun s => dropped_then (fun success s => ?_) s
  cases success <;> exact fun h => (by cases h)

theorem dropped_processDownload (fuel : Nat) (config : SyncConfig) (f : SyncFileEntry) (preRead : Option Bytes)
    (s : Slot) : DropSpec (E := E) (processDownload fuel config f preRead) SawDrop s := by
  unfold processDownload
  cases preRead with
  | some data => exact dropped_enqueueWrite _ _ _ data s
  | none =>
    dsimp only
    split
    · exact dropped_then dropped_count s
    · refine dropped_then (fun a s => ?_) s
      cases a with
      | ok data => exact dropped_enqueueWrite _ _ _ data s
      | failed => exact dropped_count false s
      | threw => trivial

/-- **A line that is dropped has seen the cancellation.** -/
theorem dropped_processEntry (limits : Limits) (config : SyncConfig) {f : SyncFileEntry} (hns : f.action ≠ .skip)
    (s : Slot) : DropSpec (E := E) (processEntry limits config f) SawDrop s := by
  refine dropped_then (fun preRead s => dropped_ask (fun s => dropped_ask fun s => ?_)) s
  cases ha : f.action with
  | skip => exact absurd ha hns
  | upload =>
    cases hd : config.direction with
    | localToLocal => exact dropped_then dropped_count s
    | upload | download | s3ToS3 => cases preRead <;> exact dropped_then dropped_countAns s
  | uploadDiff => exact dropped_then dropped_count s
  | download => exact dropped_processDownload _ _ _ _ s
  | downloadDiff => exact dropped_then dropped_count s
  | copy => exact dropped_then dropped_countAns s
  | delete =>
    cases hd : config.direction with
    | download | localToLocal => exact dropped_then dropped_count s
    | upload | s3ToS3 => exact dropped_then dropped_countAns s

end Dropped

end Mito
