import MitoSync.Convergence
import MitoSync.DiffRequests
import MitoSync.Lib.Ending
/-!
# Completion — a run that nothing disturbs ends, and does what its guards let it

Every request of an executor is one that has an answer (`processEntry_served`, `exec_serves`), so a pool of lines whose
loops have turns enough runs until all have returned.  Where no request fails and nobody cancels, a line is done exactly
if it gets past its executor's guards (`processEntry_completes`), and the run reports success exactly if all are
(`completes_iff`).
-/
namespace Mito

open Lib Prog

/-! ## Every request has an answer -/

/-- The requests that always have an answer: all but a read of no bytes. -/
def Call.served : Call → Prop
  | .readSource _ n => 0 < n
  | _ => True

section Served

theorem ask_served (c : Call) (h : c.whole) : (ask c).Asks Call.served := by
  refine asks_req.2 ?_
  cases c with
  | readSource offset n => exact h
  | _ => trivial

theorem openWriter_served : openWriter.Asks Call.served :=
  openWriter_composes (asks_composes _) ask_served (asks_req.2 trivial)

theorem ofLook_served (c : Call) (h : c.ofLook) : c.served := by
  cases c <;> first | exact h.elim | trivial

theorem ofParts_served {localSize : Nat} {localCrcs s3Crcs : List UInt32} (c : Call)
    (h : c.ofParts localSize localCrcs s3Crcs) : c.served := by
  cases c <;> first | exact h.elim | trivial

theorem ofPatch_served {todo : List Nat} {s3Size : Nat} (c : Call) (h : c.ofPatch todo s3Size) : c.served := by
  cases c <;> first | exact h.elim | trivial

theorem diffUploadFile_served : diffUploadFile.Asks Call.served := by
  refine asks_bind (asks_req.2 trivial) (fun ans => ?_)
  cases ans with
  | failed => trivial
  | threw => trivial
  | ok localSize =>
    dsimp only
    split
    · trivial
    refine asks_bind (asks_req.2 trivial) (fun ans => ?_)
    cases ans with
    | failed => trivial
    | threw => trivial
    | ok localCrcs =>
      refine asks_bind (asks_mono ofLook_served remoteChunks_asks) (fun remote => ?_)
      cases remote with
      | none => trivial
      | some p =>
        obtain ⟨s3Size, s3Crcs⟩ := p
        dsimp only
        unfold diffUploadDecide
        dsimp only
        split
        · trivial
        split
        · refine asks_bind (uploadSmallFile_composes (asks_composes _) ask_served) (fun ans => ?_)
          cases ans <;> trivial
        · split
          · trivial
          · exact asks_mono ofParts_served diffUploadMultipart_asks

theorem downloadSmallFile_served (fuel : Nat) (base relative : Str) (s3Size : Int) :
    (downloadSmallFile fuel base relative s3Size).Asks Call.served :=
  downloadSmallFile_composes (asks_composes _) ask_served openWriter_served (asks_req.2 trivial) _ _ _ _

theorem deleteLocalFile_served (base relative : Str) : (deleteLocalFile base relative).Asks Call.served := by
  refine asks_bind (asks_req.2 trivial) (fun stop => ?_)
  cases stop with
  | true => trivial
  | false =>
    simp only [Bool.false_eq_true, if_false]
    split
    · trivial
    · refine asks_bind (asks_req.2 trivial) (fun inside => ?_)
      cases inside with
      | false => trivial
      | true =>
        refine asks_bind (asks_req.2 trivial) (fun ans => ?_)
        cases ans <;> trivial

theorem diffDownloadDecide_served (fuel maxParallelChunks : Nat) (base relative : Str) (s3Size : Nat) (localSize : Int)
    (s3Crcs localCrcs : List UInt32) :
    (diffDownloadDecide fuel maxParallelChunks base relative s3Size localSize s3Crcs localCrcs).Asks Call.served := by
  unfold diffDownloadDecide
  dsimp only
  split
  · trivial
  split
  · refine asks_bind (downloadSmallFile_served _ _ _ _) (fun ans => ?_)
    cases ans <;> trivial
  · exact asks_mono ofPatch_served (patchInPlace_asks _ _ _ _ _)

theorem diffDownloadFile_served (fuel maxParallelChunks : Nat) (base relative : Str) (s3Size : Int) :
    (diffDownloadFile fuel maxParallelChunks base relative s3Size).Asks Call.served := by
  unfold diffDownloadFile
  split
  · trivial
  split
  · trivial
  refine asks_bind (asks_req.2 trivial) (fun inside => ?_)
  cases inside with
  | false => trivial
  | true =>
    simp only [Bool.not_true, Bool.false_eq_true, if_false]
    split
    · exact asks_req.2 trivial
    · refine asks_bind (asks_req.2 trivial) (fun ans => ?_)
      cases ans with
      | threw => trivial
      | failed =>
        refine asks_bind (downloadSmallFile_served _ _ _ _) (fun ans => ?_)
        cases ans <;> trivial
      | ok s3Crcs =>
        refine asks_bind (asks_mono ofLook_served localChunks_asks) (fun chunks => ?_)
        cases chunks with
        | none => trivial
        | some c => exact diffDownloadDecide_served _ _ _ _ _ _ _ _

theorem processFile_served (limits : Limits) (config : SyncConfig) (f : SyncFileEntry) (preRead : Option Bytes) :
    (processFile limits config f preRead).Asks Call.served := by
  by_cases hf : f.isWhole config
  · exact processFile_composes (asks_composes _) ask_served openWriter_served limits hf preRead
  have hcount := count_composes (asks_composes Call.served) ask_served
  unfold SyncFileEntry.isWhole at hf
  refine asks_bind (asks_req.2 trivial) (fun stop => ?_)
  cases stop with
  | true => trivial
  | false =>
    simp only [Bool.false_eq_true, if_false]
    cases ha : f.action with
    | skip => trivial
    | upload => simp [ha] at hf
    | download => simp [ha] at hf
    | copy => simp [ha] at hf
    | uploadDiff => exact asks_bind diffUploadFile_served hcount
    | downloadDiff => exact asks_bind (diffDownloadFile_served _ _ _ _ _) hcount
    | delete =>
      rw [ha] at hf
      cases hd : config.direction with
      | download => exact asks_bind (deleteLocalFile_served _ _) hcount
      | localToLocal => exact asks_bind (deleteLocalFile_served _ _) hcount
      | upload => exact absurd (.inl hd) hf
      | s3ToS3 => exact absurd (.inr hd) hf

/-- **A line asks only what has an answer.** -/
theorem processEntry_served (limits : Limits) (config : SyncConfig) (f : SyncFileEntry) :
    (processEntry limits config f).Asks Call.served := by
  refine asks_bind (prefetch_composes (asks_composes _) ask_served f) (fun preRead => ?_)
  refine asks_bind (asks_req.2 trivial) (fun stop => ?_)
  cases stop with
  | true => trivial
  | false => exact processFile_served _ _ _ _

end Served

section Answers

variable {E : Env} {s : Slot}

theorem syscall_answers {can : Prop} {done : Slot → Prop} (h : can → ∃ s', done s') :
    ∃ r s', E.syscall can s done r s' := by
  by_cases hc : can
  · obtain ⟨s', hd⟩ := h hc
    exact ⟨true, s', hc, hd⟩
  · exact ⟨false, s, .inr hc, rfl⟩

theorem lookup_answers {α : Type} (value : Option α) : ∃ r s', E.lookup s value r s' := by
  cases value with
  | none => exact ⟨.failed, s, .inr rfl, rfl⟩
  | some a => exact ⟨.ok a, s, rfl, rfl⟩

theorem request_answers {α : Type} {can : Prop} {done : α → Slot → Prop} (h : can → ∃ a s', done a s') :
    ∃ r s', E.request can s done r s' := by
  by_cases hc : can
  · obtain ⟨a, s', hd⟩ := h hc
    exact ⟨.ok a, s', hc, hd⟩
  · exact ⟨.failed, s, .inr hc, .inl rfl⟩

theorem addPart_answers (id partNumber : Nat) (b : Option Bytes) : ∃ r s', E.addPart s id partNumber b r s' :=
  request_answers fun ⟨u, d, hu, _, hb, _⟩ => ⟨_, _, u, d, hu, hb, rfl, rfl⟩

theorem writeCall_answers {can : Prop} {d : Bytes} {done : Bytes → Slot → Prop}
    (h : can → ∃ s', done d s') : ∃ r s', E.writeCall can s d done r s' := by
  by_cases hc : can
  · rcases Nat.eq_zero_or_pos d.length with h0 | hpos
    · exact ⟨.wrote 0, s, hc, Nat.zero_le _, fun _ => ⟨.inr (List.length_eq_zero_iff.1 h0), rfl⟩,
        fun h => absurd h (Nat.lt_irrefl 0)⟩
    · obtain ⟨s', hd⟩ := h hc
      refine ⟨.wrote d.length, s', hc, Nat.le_refl _, fun h => by omega, fun _ => ?_⟩
      rwa [List.take_length]
  · exact ⟨.failed, s, .inr hc, rfl⟩

/-- **Every such request has an answer**, whatever the state, if there is a time for a write to leave. -/
theorem exec_serves (hstamp : ∃ t, E.stamp t) (c : Call) (hc : c.served) (s : Slot) : ∃ r s', exec E c s r s' := by
  obtain ⟨t, ht⟩ := hstamp
  have hwrites : ∀ b, ∃ s', E.writes s b s' := fun b => ⟨_, t, ht, rfl⟩
  cases c with
  | cancelled => exact ⟨s.seen, _, id, .inr, rfl⟩
  | cacheHit => exact ⟨true, s, rfl⟩
  | pick n => exact ⟨0, s, rfl⟩
  | sourceSize | sourceChunkCRC32s | sourceObjectCRC32s n | sourceRange a b | exists_ | fileSize | fileChunkCRC32s
  | getObjectSize | getChunkCRC32s n => exact lookup_answers _
  | openSource | openSourceStream | resolvesWithinBase | createDirectories | fdatasync | closeTemp | renameTemp
  | removeTemp | fsync | clearMtime => exact syscall_answers fun _ => ⟨_, rfl⟩
  | readSource offset n =>
    refine ⟨.data ((E.source.drop offset).take n), s, List.take_prefix _ _, List.length_take_le _ _, fun hlt hnil => ?_,
      rfl⟩
    have hlen := congrArg List.length hnil
    rw [List.length_take, List.length_drop, List.length_nil] at hlen
    have hn : 0 < n := hc
    omega
  | symlinkStatus =>
    by_cases he : s.entry = none
    · exact ⟨.absent, s, he, rfl⟩
    · exact ⟨.regular, s, he, rfl⟩
  | openTemp =>
    cases hp : s.parent with
    | true => exact ⟨.opened, _, hp, t, ht, rfl⟩
    | false => exact ⟨.failed, s, .inr hp, rfl⟩
  | writeTemp d =>
    simp only [exec]
    refine writeCall_answers fun hopen => ?_
    obtain ⟨o, ho⟩ := Option.ne_none_iff_exists'.1 hopen
    exact ⟨_, o, t, ho, ht, rfl⟩
  | openInPlace =>
    refine syscall_answers fun _ => ?_
    by_cases he : s.entry = none
    · exact ⟨_, .inr ⟨he, t, ht, rfl⟩⟩
    · exact ⟨s, .inl ⟨he, rfl⟩⟩
  | pwrite offset d =>
    simp only [exec]
    refine writeCall_answers fun he => ?_
    obtain ⟨o, ho⟩ := Option.ne_none_iff_exists'.1 he
    exact ⟨_, o, ho, t, ht, rfl⟩
  | ftruncate n =>
    refine syscall_answers fun he => ?_
    obtain ⟨o, ho⟩ := Option.ne_none_iff_exists'.1 he
    exact ⟨_, o, ho, t, ht, rfl⟩
  | createEmpty => exact syscall_answers fun _ => hwrites []
  | remove => exact ⟨.ok s.entry.isSome, _, rfl, rfl⟩
  | putObject d => exact request_answers fun _ => ⟨(), hwrites d⟩
  | putSource | copyObject => exact request_answers fun _ => ⟨(), hwrites E.source⟩
  | deleteObject => exact request_answers fun _ => ⟨(), _, rfl⟩
  | createMultipartUpload => exact request_answers fun _ => ⟨_, _, rfl, rfl⟩
  | uploadPart id n d crc => exact addPart_answers _ _ _
  | uploadPartCopy id n a b | uploadPartCopyFromSource id n a b => exact addPart_answers _ _ _
  | completeMultipartUpload id ps =>
    refine request_answers fun hcan => ?_
    obtain ⟨u, bs, hu, -, hb, -⟩ := hcan
    exact ⟨(), _, u, bs, hu, hb, t, ht, rfl⟩
  | abortMultipartUpload id => exact ⟨true, _, fun h => absurd h (by simp), rfl⟩

end Answers

/-! ## A line without faults -/

section Lines

variable {E : Env} {s : Slot} {config : SyncConfig} {f : SyncFileEntry} {limits : Limits}

/-- What the planner says of a line besides its size: a file sent whole fits a single request, and what is removed is
there. -/
structure Env.Fits (E : Env) (config : SyncConfig) (f : SyncFileEntry) (old : Option Stored) : Prop where
  put : f.action = .upload → config.direction ≠ .localToLocal → E.source.length ≤ kMaxSinglePutBytes
  present : f.action = .delete → old ≠ none

theorem processFile_of_entry {H : Slot → Prop} {Q : Outcome → Slot → Prop} (hm : E.mode = .sound) (hs : s.seen = false)
    (hz : E.Sized f)
    (h : ∀ preRead : Option Bytes, (∀ d ∈ preRead, d = E.source) →
      wp (exec E) (fun _ => True) H (processFile limits config f preRead) Q s) :
    wp (exec E) (fun _ => True) H (processEntry limits config f) Q s := by
  refine wp_bind.2 (wp_mono (fun preRead s' hp => ?_) (prefetch_spec (I := fun _ => True) hz trivial))
  obtain ⟨hpre, rfl⟩ := hp
  refine wp_bind.2 ⟨trivial, fun r s'' hr => ?_⟩
  obtain ⟨rfl, rfl⟩ := cancelled_sound hm hs hr
  exact h preRead hpre

/-- **A line that gets past its guards is done**, where nothing fails. -/
theorem processEntry_accepted (hm : E.mode = .sound) (hs : s.seen = false) (hns : f.action ≠ .skip) (hz : E.Sized f)
    (hfits : E.Fits config f s.entry) (hfree : E.Unhindered config f s.entry s.parent)
    (hok : E.Accepts config f s.entry) (hfuel : fuelFor E.source.length ≤ limits.fuel) :
    wp (exec E) (fun _ => True) (fun _ => False) (processEntry limits config f)
      (fun o s' => s'.seen = false → o = .done) s := by
  have hsound : ¬ E.faulty := fun h => h hm
  by_cases hdiff : f.isDiff
  · refine processFile_of_entry hm hs hz fun preRead _ => wp_bind.2 ⟨trivial, fun r s' hr => ?_⟩
    obtain ⟨rfl, rfl⟩ := cancelled_sound hm hs hr
    have hcount : ∀ {success : Bool} {s : Slot}, success = true →
        wp (exec E) (fun _ => True) (fun _ => False) (count success) (fun o s' => s'.seen = false → o = .done) s := by
      rintro _ _ rfl _
      rfl
    rcases hdiff with ha | ha
    · simp only [ha]
      exact wp_bind.2 (wp_mono (fun _ _ h => hcount h)
        (diffUploadFile_succeeds hm (hz.diff (.inl ha)) hs (hfree.inRange ha) (hok.parts ha)))
    · have hv := hok.path (.inr (.inl ha))
      simp only [ha]
      rw [hz.s3 (.inr (.inl ha))]
      exact wp_bind.2 (wp_mono (fun _ _ h => hcount h) (diffDownloadFile_succeeds hm (hz.diff (.inr ha)) hs
        (by rw [targetAccepted_eq, hv]) (hfree.directory (.inr (.inl ha)) hv) hfuel))
  · have hv : f.toFile config → targetAccepted config.localPath f.relativePath = true ∧
        targetAccepted config.destLocalPath f.relativePath = true := fun h => by
      rw [targetAccepted_eq, targetAccepted_eq, hok.path h]
      exact ⟨rfl, rfl⟩
    have hA : E.Admits config f s.entry False :=
      { fault := hsound
        put := fun ha hl => .inl (hfits.put ha hl)
        parts := fun ha => absurd (.inl ha) hdiff
        copyParts := fun ha => .inl (hfree.copyParts ha)
        target := fun h => .inl (hv (h.imp_right (.imp_right fun h => .inr ⟨h.1, .inl h.2⟩))).1
        destTarget := fun h => .inl (hv (h.1.elim (fun ha => .inr (.inr (.inl ⟨ha, h.2⟩)))
          (fun ha => .inr (.inr (.inr ⟨ha, .inr h.2⟩))))).2
        link := fun ha hl => .inl (hok.link ha hl)
        present := fun ha _ => .inl (hfits.present ha) }
    have hstart : E.Starts config f s.entry False s := by
      refine ⟨rfl, fun h => absurd h (by simp [hs]), fun h => .inl (hfree.directory h (hok.path ?_))⟩
      rcases h with ha | ha | ha
      · exact .inl ha
      · exact .inr (.inl ha)
      · exact .inr (.inr (.inr ha))
    have hspent : False ∨ limits.fuel < fuelFor E.source.length → ∀ s', E.During config f s.entry s' → False :=
      fun h => (h.resolve_left id).not_ge hfuel |>.elim
    refine wp_mono (fun o s' h hunseen => ?_) (processEntry_spec (I := fun _ => True) (fun _ _ => trivial) hspent hz hA
      (fun h => absurd h hdiff) hns hstart)
    cases o with
    | done => rfl
    | failed => exact h.1.elim
    | dropped => exact absurd (hunseen.symm.trans h.1) (by simp)

/-- **A line is done exactly if it gets past its guards**, where nothing fails, and otherwise has failed. -/
theorem processEntry_completes (hm : E.mode = .sound) (hs : s.seen = false) (hns : f.action ≠ .skip) (hz : E.Sized f)
    (hfits : E.Fits config f s.entry) (hfree : E.Unhindered config f s.entry s.parent)
    (hfuel : fuelFor E.source.length ≤ limits.fuel) :
    wp (exec E) (fun _ => True) (fun _ => False) (processEntry limits config f)
      (fun o s' => s'.seen = false ∧ o ≠ .dropped ∧ (o = .done ↔ E.Accepts config f s.entry)) s := by
  have hunseen : ∀ c s r s', s.seen = false → exec E c s r s' → s'.seen = false :=
    fun _ _ _ _ h he => exec_unseen hm h he
  have hdropped : DropSpec (E := E) (processEntry limits config f) SawDrop s := dropped_processEntry limits config hns s
  by_cases hok : E.Accepts config f s.entry
  · refine wp_mono (fun o s' h => ?_)
      (wp_and (wp_inv hunseen hs (processEntry_accepted hm hs hns hz hfits hfree hok hfuel)) hdropped)
    obtain ⟨⟨hdone, hseen⟩, hdrop⟩ := h
    exact ⟨hseen, fun h => absurd (hseen.symm.trans (hdrop h)) (by simp), fun _ => hok, fun _ => hdone hseen⟩
  · have hrefused : wp (exec E) (fun _ => True) (fun _ => False) (processEntry limits config f)
        (fun o _ => o ≠ .done) s :=
      processFile_of_entry hm hs hz fun preRead _ => processFile_refused hm hs hz hok
    refine wp_mono (fun o s' h => ?_) (wp_and (wp_inv hunseen hs hrefused) hdropped)
    obtain ⟨⟨hnot, hseen⟩, hdrop⟩ := h
    exact ⟨hseen, fun h => absurd (hseen.symm.trans (hdrop h)) (by simp), fun h => absurd h hnot, fun h => absurd h hok⟩

end Lines

/-! ## A whole run -/

/-- No check of `run_sync` refuses, nobody cancels, and the source was listed in full. -/
structure Undisturbed (config : SyncConfig) (scan : Scan) : Prop where
  overlap : scan.overlap = none
  sweep : scan.sweep = none
  clients : scan.clients = none
  sweepAgain : scan.sweepAgain = none
  uncancelled : scan.cancelled = false
  complete : sourceComplete config scan.source = true

/-- The line gets past its guards, given what is at its destination before the run. -/
def Setting.Accepts (S : Setting) (config : SyncConfig) (w : World) (f : SyncFileEntry) : Prop :=
  (S.env f.relativePath).Accepts config f (w.store (destKey config f.relativePath))

section Plan

variable {sides : Sides} {config : SyncConfig} {scan : Scan} {S : Setting} {w : World} {files : List SyncFileEntry}
  {f : SyncFileEntry}

theorem planRun_undisturbed (h : Undisturbed config scan) : planRun config scan = .ok (classify config scan).1 := by
  have hok : (classify config scan).2 = true := by rw [classify_eq]; exact h.complete
  unfold planRun
  simp only [h.overlap, h.sweep, h.clients, h.sweepAgain, h.uncancelled, hok, Bool.not_true, Bool.false_eq_true,
    if_false]
  rfl

/-- What is uploaded in one request is shorter than what is uploaded by differences. -/
theorem planned_upload_small (hs : Scanned sides config scan) (hd : Describes sides config S w)
    (hread : Read sides config scan) (hp : planRun config scan = .ok files) (hf : f ∈ files) (ha : f.action = .upload)
    (hdir : config.direction ≠ .localToLocal) :
    ((S.env f.relativePath).source.length : Int) < diffUploadThreshold := by
  have hfile := planned_isFilePath hs hp hf
  rw [planRun_files hs hp] at hf
  obtain ⟨e, he, rfl⟩ := planEntries_source hf (by rw [ha]; simp)
  rw [sourceLine_path] at hfile ⊢
  obtain ⟨file, hsrc, hi⟩ := (hd.source _ _ hfile).1 (hread.source e he)
  have hlen : ((S.env e.relativePath).source.length : Int) = e.size := by
    rw [show e.size = _ from congrArg SyncEntryInfo.size hi]
    simp [Setting.env, hsrc]
  rw [hlen]
  by_contra hlarge
  have hl : diffUploadThreshold ≤ e.size := not_lt.1 hlarge
  have hline := sourceLine_lineOf config.direction (destEntries config scan) e
  rw [sourceLine_action] at ha
  rcases sourceAction_cases (rolesOf config.direction) e (infoMap (destEntries config scan) e.relativePath) with
    h | h | h
  · exact absurd (h.symm.trans ha) (by simp)
  · rw [h] at ha
    cases hd : config.direction <;> rw [hd] at ha <;> simp_all [rolesOf, uploadRoles, downloadRoles, s3ToS3Roles]
  · rw [h] at ha
    cases hd : config.direction <;> rw [hd] at ha <;> simp_all [rolesOf, uploadRoles, downloadRoles, s3ToS3Roles]

theorem planned_fits (hs : Scanned sides config scan) (hd : Describes sides config S w)
    (hread : Read sides config scan) (hp : planRun config scan = .ok files) (hf : f ∈ files) :
    (S.env f.relativePath).Fits config f (w.store (destKey config f.relativePath)) := by
  refine ⟨fun ha hdir => ?_, fun ha => ?_⟩
  · have hsmall := planned_upload_small hs hd hread hp hf ha hdir
    unfold diffUploadThreshold at hsmall
    unfold kMaxSinglePutBytes
    omega
  · rcases planned_cases hs hd hp hf with ⟨file, size, -, hl, -⟩ | ⟨-, -, -, hstore⟩
    · exact absurd ha hl.ne_delete
    · exact hstore

/-- A fuel that every line of the plan has turns enough with. -/
def turnsFor (S : Setting) (files : List SyncFileEntry) : Nat :=
  (files.map (fun f => fuelFor (S.env f.relativePath).source.length)).sum

/-- **Every line of a plan is done exactly if it gets past its guards**, whatever the others do. -/
theorem line_completes (hs : Scanned sides config scan) (hd : Describes sides config S w) (hread : Read sides config scan)
    (hm : S.mode = .sound) (hfresh : Fresh w) (hp : planRun config scan = .ok files) {limits : Limits}
    (hfuel : turnsFor S (actionable files) ≤ limits.fuel) (i : Fin (actionable files).length)
    (hfree : (S.env (actionable files)[i].relativePath).Unhindered config (actionable files)[i]
      (w.store (destKey config (actionable files)[i].relativePath)) (w.locals i).parent) :
    wp (exec (S.env (actionable files)[i].relativePath)) (fun _ => True) (fun _ => False)
      (processEntry limits config (actionable files)[i])
      (fun o s' => s'.seen = false ∧ o ≠ .dropped ∧ (o = .done ↔ S.Accepts config w (actionable files)[i]))
      (slotOf config (actionable files) i w) := by
  have hmem : (actionable files)[i] ∈ actionable files := List.getElem_mem _
  have hf : (actionable files)[i] ∈ files := List.mem_of_mem_filter hmem
  have hns : (actionable files)[i].action ≠ .skip := by simpa using List.of_mem_filter hmem
  have hin := List.mem_map_of_mem (f := fun f => fuelFor (S.env f.relativePath).source.length) hmem
  have hsum : fuelFor (S.env (actionable files)[i].relativePath).source.length ≤ limits.fuel :=
    Nat.le_trans (List.single_le_sum (by simp) _ hin) hfuel
  exact processEntry_completes (s := slotOf config (actionable files) i w) hm (hfresh i).2.2 hns
    (planned_sized hs hd hp hf) (planned_fits hs hd hread hp hf) hfree hsum

/-- **What such lines come to**: each that returned is done or has failed, and the run reports success exactly if every
line of the plan gets past its guards. -/
theorem executes_accepted (hp : planRun config scan = .ok files) (hwet : config.dryRun = false) {limits : Limits}
    {hn : ((actionable files).map SyncFileEntry.relativePath).Nodup}
    (hline : ∀ i : Fin (actionable files).length, wp (exec (S.env ((actionable files).get i).relativePath)) (fun _ => True)
      (fun _ => False) (processEntry limits config ((actionable files).get i))
      (fun o s' => s'.seen = false ∧ o ≠ .dropped ∧ (o = .done ↔ S.Accepts config w ((actionable files).get i)))
      (slotOf config (actionable files) i w))
    {y : (Fin (actionable files).length → Exec Outcome) × World}
    (hy : Executes S limits config (actionable files) hn w y) (hret : ∀ i, ∃ o, y.1 i = .ret o) :
    (∀ i, y.1 i = .ret .done ∧ S.Accepts config w ((actionable files).get i) ∨
      y.1 i = .ret .failed ∧ ¬ S.Accepts config w ((actionable files).get i)) ∧
    ∃ success, Runs S limits config scan w (some success) y.2 ∧
      (success = true ↔ ∀ f ∈ actionable files, S.Accepts config w f) := by
  have hend : ∀ i : Fin (actionable files).length, ∀ o, y.1 i = .ret o →
      (slotOf config (actionable files) i y.2).seen = false ∧ o ≠ .dropped ∧
        (o = .done ↔ S.Accepts config w ((actionable files).get i)) := fun i o ho =>
    Pool.wp_returns (I := fun _ _ => True) (H := fun _ _ => False) (Q := fun i o s => s.seen = false ∧ o ≠ .dropped ∧
      (o = .done ↔ S.Accepts config w ((actionable files).get i))) (hline i) hy ho
  choose outcome hout using hret
  have hdone : ∀ i, outcome i = .done ∧ S.Accepts config w ((actionable files).get i) ∨
      outcome i = .failed ∧ ¬ S.Accepts config w ((actionable files).get i) := by
    intro i
    obtain ⟨-, hnd, hiff⟩ := hend i _ (hout i)
    rw [← hiff]
    cases hi : outcome i with
    | done => simp
    | failed => simp
    | dropped => exact absurd hi hnd
  have hcancel : CancelledAtEnd (actionable files) y.2 false := fun i hi => (hend i _ (hout i)).1.symm.trans hi
  refine ⟨fun i => ?_, _, .returned hp hwet hn hy hout hcancel, ?_⟩
  · rw [hout i, Prog.ret.injEq, Prog.ret.injEq]
    exact hdone i
  · rw [Bool.not_false, Bool.true_and, decide_eq_true_eq]
    constructor
    · intro h f hf
      obtain ⟨n, hlt, rfl⟩ := List.getElem_of_mem hf
      exact ((hdone ⟨n, hlt⟩).resolve_right fun hfailed => h ⟨n, hlt⟩ hfailed.1).2
    · intro h i hfailed
      rcases hdone i with ⟨hd, -⟩ | ⟨-, hno⟩
      · exact absurd (hd.symm.trans hfailed) (by simp)
      · exact hno (h _ (List.getElem_mem _))

/-- **A run that nothing disturbs ends**, in whatever order its lines' requests are answered; each line is done exactly
if it gets past its guards, and the run reports success exactly if all are. -/
theorem completes_iff (hs : Scanned sides config scan) (hd : Describes sides config S w) (hread : Read sides config scan)
    (hcalm : Undisturbed config scan) (hm : S.mode = .sound) (hstamp : ∃ t, S.stamp t) (hwet : config.dryRun = false)
    (hfresh : Fresh w)
    (hfree : ∀ files, planRun config scan = .ok files → ∀ i : Fin (actionable files).length,
      (S.env ((actionable files).get i).relativePath).Unhindered config ((actionable files).get i)
        (w.store (destKey config ((actionable files).get i).relativePath)) (w.locals i).parent) :
    ∃ files, planRun config scan = .ok files ∧ ∃ hn fuel, ∀ limits : Limits, fuel ≤ limits.fuel →
      Terminates (Pool.Step (slots config (actionable files) hn)
          (fun i => exec (S.env ((actionable files).get i).relativePath))) (fun y => ∀ i, ∃ o, y.1 i = .ret o)
        (fun i => processEntry limits config ((actionable files).get i), w) ∧
      ∀ y, Executes S limits config (actionable files) hn w y → (∀ i, ∃ o, y.1 i = .ret o) →
        (∀ i, y.1 i = .ret .done ↔ S.Accepts config w ((actionable files).get i)) ∧
        ∃ success, Runs S limits config scan w (some success) y.2 ∧
          (success = true ↔ ∀ f ∈ actionable files, S.Accepts config w f) := by
  have hp := planRun_undisturbed hcalm
  generalize (classify config scan).1 = files at hp
  have hn : ((actionable files).map SyncFileEntry.relativePath).Nodup :=
    (planned_nodup hs hp).sublist (List.Sublist.map _ List.filter_sublist)
  refine ⟨files, hp, hn, turnsFor S (actionable files), fun limits hfuel => ?_⟩
  have hline := fun i => line_completes hs hd hread hm hfresh hp hfuel i (hfree files hp i)
  refine ⟨Pool.terminates hline (fun i => processEntry_served _ _ _) (fun i c s hc => exec_serves hstamp c hc s),
    fun y hy hret => ?_⟩
  obtain ⟨hlines, hsuccess⟩ := executes_accepted hp hwet hline hy hret
  refine ⟨fun i => ⟨fun hdone => ?_, fun hok => ?_⟩, hsuccess⟩
  · rcases hlines i with ⟨-, hok⟩ | ⟨hfailed, -⟩
    · exact hok
    · exact absurd (hdone.symm.trans hfailed) (by simp)
  · exact ((hlines i).resolve_right fun hno => hno.2 hok).1

end Plan

/-! ## A download of two objects, one of them named `..` -/

def dotDotBucket : Bucket := fun k => if k = ['a'] ∨ k = ['.', '.'] then some ⟨1, 5⟩ else none

def dotDotSides : Sides := ⟨oneFileTree 1 5, ⟨.unresolved, fun _ => none⟩, dotDotBucket, emptyBucket⟩

def dotDotScan : Scan where
  source := { entries := [⟨['a'], 1, 5⟩, ⟨['.', '.'], 1, 5⟩] }
  dest := { entries := [], complete := false }
  destExists := false

def intoDir : SyncConfig := { direction := .download, localPath := ['d'] }

def dotDotSetting : Setting where
  source k := if k = ['a'] ∨ k = ['.', '.'] then some ⟨[7], 5, false⟩ else none
  crc _ := 0
  stamp t := t = 9
  mode := .sound

/-- Nothing stands at the destinations, and their directories are there. -/
def readyWorld : World where
  store _ := none
  locals _ := { parent := true }

def dotDotPlan : List SyncFileEntry :=
  [{ relativePath := ['a'], action := .download, s3Size := 1 },
    { relativePath := ['.', '.'], action := .download, s3Size := 1 }]

theorem dotDotBucket_lists : S3Lists dotDotBucket [] dotDotScan.source false := by
  refine .walked (w := ⟨[], [], [], [], dotDotScan.source.entries, true, false⟩) ?_ ⟨rfl, rfl, rfl, .inl rfl⟩
  have hlisted : Listed dotDotBucket [] ([(['a'], ⟨1, 5⟩), (['.', '.'], ⟨1, 5⟩)] ++ []) ([] ++ []) :=
    ⟨by simp, by simp [dotDotBucket], by simp, by simp⟩
  have hcovers : (⟨[], { objects := [(['a'], ⟨1, 5⟩), (['.', '.'], ⟨1, 5⟩)] }, [], List.prefix_rfl, .inl rfl, hlisted⟩ :
      Pages dotDotBucket []).Covers := by
    intro k hk _
    apply Or.inl
    by_contra hne
    exact hk (if_neg (by simpa [Pages.objects] using hne))
  refine .head (.opens (a := []) (b := []) rfl (.listed hcovers)) ?_
  refine .head (.reads (a := []) (b := []) rfl (.object (o := (['a'], ⟨1, 5⟩)) rfl)) ?_
  refine .head (.reads (a := []) (b := []) rfl (.object (o := (['.', '.'], ⟨1, 5⟩)) rfl)) ?_
  refine .head (.reads (a := []) (b := []) rfl (.page rfl)) ?_
  refine .head (.merge (a := []) (b := []) rfl (.inl rfl)) ?_
  exact .single (.advance rfl rfl)

theorem dotDot_describes : Describes dotDotSides intoDir dotDotSetting readyWorld := by
  refine ⟨fun p i _ => ?_, fun p i _ => ⟨fun h => ?_, fun h => ?_⟩⟩
  · by_cases hp : p = ['a'] ∨ p = ['.', '.'] <;>
      simp [sourceHas, intoDir, dotDotSides, dotDotBucket, makeS3Key, withSlash, dotDotSetting, hp, eq_comm]
  · obtain ⟨n, hn, -⟩ := h
    cases hn
  · obtain ⟨o, ho, -⟩ := h
    cases ho

/-- The object with the file's name is downloaded and the other refused, in every order of the requests. -/
theorem completes_beside_dotDot :
    ∃ hn fuel, ∀ limits : Limits, fuel ≤ limits.fuel →
      Terminates (Pool.Step (slots intoDir (actionable dotDotPlan) hn)
          (fun i => exec (dotDotSetting.env ((actionable dotDotPlan).get i).relativePath)))
        (fun y => ∀ i, ∃ o, y.1 i = .ret o)
        (fun i => processEntry limits intoDir ((actionable dotDotPlan).get i), readyWorld) ∧
      ∀ y, Executes dotDotSetting limits intoDir (actionable dotDotPlan) hn readyWorld y →
        (∀ i, ∃ o, y.1 i = .ret o) →
        (∀ i, y.1 i = .ret .done ↔ ((actionable dotDotPlan).get i).relativePath = ['a']) ∧
          Runs dotDotSetting limits intoDir dotDotScan readyWorld (some false) y.2 := by
  have hread : Read dotDotSides intoDir dotDotScan := by
    refine ⟨fun e he => ?_, fun e he => absurd he (by simp [dotDotScan])⟩
    have he : e = ⟨['a'], 1, 5⟩ ∨ e = ⟨['.', '.'], 1, 5⟩ := by simpa [dotDotScan] using he
    rcases he with rfl | rfl <;> simp [sourceHas, intoDir, dotDotSides, dotDotBucket, makeS3Key, withSlash]
  have hplan : planRun intoDir dotDotScan = .ok dotDotPlan := rfl
  have hup : ∀ f ∈ actionable dotDotPlan, f.action = .download := by decide
  have hvalid : ∀ f ∈ actionable dotDotPlan, validateRelativePath f.relativePath = true → f.relativePath = ['a'] := by
    decide
  have haccepts : ∀ f ∈ actionable dotDotPlan,
      (dotDotSetting.Accepts intoDir readyWorld f ↔ f.relativePath = ['a']) := by
    intro f hf
    have hdown := hup f hf
    refine ⟨fun h => hvalid f hf (h.path (.inl hdown)), fun hpath => ⟨fun _ => ?_, fun ha => ?_, fun ha => ?_⟩⟩
    · rw [hpath]
      rfl
    · cases hdown.symm.trans ha
    · cases hdown.symm.trans ha
  have hscanned : Scanned dotDotSides intoDir dotDotScan :=
    ⟨⟨false, dotDotBucket_lists, by simp⟩, ⟨false, LocalListsWithin.notDirectory, by simp⟩, by simp [dotDotScan]⟩
  obtain ⟨files, hfiles, hn, fuel, h⟩ := completes_iff hscanned dotDot_describes hread
    ⟨rfl, rfl, rfl, rfl, rfl, rfl⟩ rfl ⟨9, rfl⟩ rfl (fun i => ⟨rfl, rfl, rfl⟩) (fun files hp i => by
      obtain rfl : files = dotDotPlan := Except.ok.inj (hp.symm.trans hplan)
      have hdown := hup _ (List.getElem_mem i.isLt)
      refine ⟨fun ha => ?_, fun ha => ?_, fun _ _ => rfl⟩
      · cases hdown.symm.trans ha
      · cases hdown.symm.trans ha)
  obtain rfl : files = dotDotPlan := Except.ok.inj (hfiles.symm.trans hplan)
  refine ⟨hn, fuel, fun limits hlimits => ⟨(h limits hlimits).1, fun y hy hret => ?_⟩⟩
  obtain ⟨hdone, success, hruns, hsuccess⟩ := (h limits hlimits).2 y hy hret
  have hfails : success = false := by
    rw [← Bool.not_eq_true, hsuccess]
    intro hall
    have hmem : (⟨['.', '.'], .download, -1, 1, -1, 0⟩ : SyncFileEntry) ∈ actionable dotDotPlan := by decide
    exact absurd ((haccepts _ hmem).1 (hall _ hmem)) (by decide)
  rw [hfails] at hruns
  exact ⟨fun i => (hdone i).trans (haccepts _ (List.getElem_mem i.isLt)), hruns⟩

end Mito
