import MitoSync.Crash
import MitoSync.Faultless
/-!
# Convergence — what the next run finds to do

After a successful run under the delete flag every path of the source has its bytes at the destination, and nothing
else is there.  The next run skips a path whose copy is also newer than the source (`skips_iff_current`), and every copy
the run wrote is; but a differential line that finds nothing to change writes nothing, and leaves a copy as old as it
was (`converges_iff`).
-/
namespace Mito

open Lib Prog

/-- What an enumerator read of a file or an object is what is there: no size or time was left unread. -/
structure Read (sides : Sides) (config : SyncConfig) (scan : Scan) : Prop where
  source : ∀ e ∈ scan.source.entries, sourceHas sides config e.relativePath ⟨e.size, e.mtime⟩
  dest : ∀ e ∈ scan.dest.entries, destHas sides config e.relativePath ⟨e.size, e.mtime⟩

/-- A differential line whose destination has the source's bytes already, and is no newer. -/
def Setting.Stale (S : Setting) (config : SyncConfig) (w : World) (f : SyncFileEntry) : Prop :=
  f.isDiff ∧ ∃ file o, S.source f.relativePath = some file ∧ w.store (destKey config f.relativePath) = some o ∧
    o.bytes = file.bytes ∧ o.mtime ≤ file.mtime

/-! ## A differential line with nothing to change -/

section Same

variable {E : Env} {s : Slot} {f : SyncFileEntry} {config : SyncConfig}

theorem diffUploadFile_same (hm : E.mode = .sound) (hne : E.source ≠ []) (hs : s.content = some E.source) :
    wp (exec E) (fun _ => True) (fun _ => True) diffUploadFile (fun _ s' => s'.entry = s.entry) s := by
  have hlen : 0 < E.source.length := List.length_pos_iff.2 hne
  rw [diffUploadFile, wp_bind, wp_req]
  refine ⟨trivial, fun r s₁ h => ?_⟩
  obtain ⟨rfl, rfl⟩ := lookup_sound hm rfl h
  simp only [hlen.ne', if_false, wp_bind, wp_req]
  refine ⟨trivial, fun r s₂ h => ?_⟩
  obtain ⟨rfl, rfl⟩ := lookup_sound hm (if_neg hne) h
  simp only [remoteChunks, wp_bind, wp_req]
  refine ⟨trivial, fun r s₃ h => ?_⟩
  obtain ⟨rfl, rfl⟩ := lookup_sound (a := E.source.length) hm (by rw [hs]; rfl) h
  simp only [hlen.ne', if_false, wp_bind, wp_req]
  refine ⟨trivial, fun r s₄ h => ?_⟩
  obtain ⟨rfl, rfl⟩ := lookup_sound (a := E.chunkCRC32s E.source) hm
    (by rw [hs, Option.bind_some, if_pos ⟨hlen, Nat.le_refl _⟩, List.take_length]) h
  simp only [pure_eq, wp_ret]
  rw [diffUploadDecide, if_pos ⟨unchangedChunks_self _, rfl⟩]
  rfl

theorem diffDownloadFile_same {fuel maxParallelChunks : Nat} {base relative : Str} {s3Size : Int}
    (hm : E.mode = .sound) (hne : E.source ≠ []) (hsize : s3Size = E.source.length) (hs : s.content = some E.source) :
    wp (exec E) (fun _ => True) (fun _ => True) (diffDownloadFile fuel maxParallelChunks base relative s3Size)
      (fun _ s' => s'.entry = s.entry) s := by
  have hlen : 0 < E.source.length := List.length_pos_iff.2 hne
  have hentry : s.entry.isSome = true := by
    unfold Slot.content at hs
    cases he : s.entry with
    | none => rw [he] at hs; exact absurd hs (by simp)
    | some o => rfl
  subst hsize
  unfold diffDownloadFile
  by_cases htarget : targetAccepted base relative = true
  · simp only [htarget, Int.natCast_nonneg, not_lt.2, if_false, Bool.not_true, Bool.false_eq_true, wp_bind, wp_req]
    refine ⟨trivial, fun r s₁ h => ?_⟩
    cases r with
    | false => exact congrArg Slot.entry h.2
    | true =>
      obtain rfl : s₁ = s := h.2
      have hz : ¬ (E.source.length : Int) = 0 := by omega
      simp only [Bool.not_true, Bool.false_eq_true, hz, if_false, wp_bind, wp_req, Int.toNat_natCast]
      refine ⟨trivial, fun r s₂ h => ?_⟩
      obtain ⟨rfl, rfl⟩ := lookup_sound (a := E.chunkCRC32s E.source) hm
        (by rw [if_pos ⟨hlen, Nat.le_refl _⟩, List.take_length]) h
      simp only [localChunks, wp_bind, wp_req]
      refine ⟨trivial, fun r s₃ h => ?_⟩
      obtain ⟨rfl, rfl⟩ := lookup_sound hm rfl h
      simp only [hentry, wp_bind, wp_req]
      refine ⟨trivial, fun r s₄ h => ?_⟩
      obtain ⟨rfl, rfl⟩ := lookup_sound (a := E.source.length) hm (by rw [hs]; rfl) h
      simp only [hlen.ne', if_false, wp_bind, wp_req]
      refine ⟨trivial, fun r s₅ h => ?_⟩
      obtain ⟨rfl, rfl⟩ := lookup_sound (a := E.chunkCRC32s E.source) hm
        (by rw [hs, Option.bind_some, if_neg hne]) h
      simp only [pure_eq, wp_ret]
      rw [diffDownloadDecide, if_pos ⟨unchangedChunks_self _, rfl⟩]
      rfl
  · simp [htarget]

/-- **A differential line with nothing to change changes nothing**, where no request fails. -/
theorem processEntry_same (limits : Limits) (hm : E.mode = .sound) (hdiff : f.isDiff) (hz : E.Sized f)
    (hs : s.content = some E.source) :
    wp (exec E) (fun _ => True) (fun _ => True) (processEntry limits config f) (fun _ s' => s'.entry = s.entry) s := by
  have hne := hz.diff hdiff
  have hcount : ∀ (success : Bool) (s₁ : Slot), s₁.entry = s.entry →
      wp (exec E) (fun _ => True) (fun _ => True) (count success) (fun _ s' => s'.entry = s.entry) s₁ := by
    intro success s₁ he
    unfold count
    cases success with
    | true => exact he
    | false =>
      simp only [Bool.false_eq_true, if_false, wp_bind, wp_req]
      refine ⟨trivial, fun r s₂ h => ?_⟩
      obtain ⟨-, -, rfl⟩ := h
      cases r <;> exact he
  have hpre : prefetch f = return none := by
    unfold prefetch prefetchSize
    rcases hdiff with ha | ha <;> rw [ha]
  unfold processEntry
  simp only [hpre, wp_bind, pure_eq, wp_ret, wp_req]
  refine ⟨trivial, fun r s₁ h => ?_⟩
  obtain ⟨-, -, rfl⟩ := h
  cases r with
  | true => rfl
  | false =>
    simp only [Bool.false_eq_true, if_false, processFile, wp_bind, wp_req]
    refine ⟨trivial, fun r s₂ h => ?_⟩
    obtain ⟨-, -, rfl⟩ := h
    cases r with
    | true => rfl
    | false =>
      rcases hdiff with ha | ha
      · simp only [Bool.false_eq_true, if_false, ha, wp_bind]
        exact wp_mono (fun success s₃ he => hcount success s₃ he) (diffUploadFile_same (s := { s with seen := false }) hm hne hs)
      · simp only [Bool.false_eq_true, if_false, ha, wp_bind]
        exact wp_mono (fun success s₃ he => hcount success s₃ he)
          (diffDownloadFile_same (s := { s with seen := false }) hm hne (hz.s3 (.inr (.inl ha))) hs)

end Same

/-! ## What a run leaves of a path of the source -/

section Plan

variable {sides sides' : Sides} {config : SyncConfig} {scan scan' : Scan} {S : Setting} {w w' : World}
  {files files' : List SyncFileEntry} {f : SyncFileEntry} {limits : Limits}

theorem stale_unchanged (hs : Scanned sides config scan) (hd : Describes sides config S w)
    (hp : planRun config scan = .ok files) (hm : S.mode = .sound) (hf : f ∈ files) (hstale : S.Stale config w f)
    {hn : ((actionable files).map SyncFileEntry.relativePath).Nodup}
    {y : (Fin (actionable files).length → Exec Outcome) × World}
    (hy : Executes S limits config (actionable files) hn w y)
    (hret : ∀ i, ∃ o, y.1 i = .ret o) :
    y.2.store (destKey config f.relativePath) = w.store (destKey config f.relativePath) := by
  obtain ⟨hdiff, file, o, hfile, ho, hbytes, -⟩ := hstale
  have hns : f.action ≠ .skip := by
    rcases hdiff with ha | ha <;> rw [ha] <;> simp
  have hact : f ∈ actionable files := List.mem_filter.2 ⟨hf, by simpa using hns⟩
  obtain ⟨n, hlt, rfl⟩ := List.getElem_of_mem hact
  obtain ⟨outcome, hout⟩ := hret ⟨n, hlt⟩
  have hcontent : (slotOf config (actionable files) ⟨n, hlt⟩ w).content =
      some (S.env (actionable files)[n].relativePath).source := by
    simp [Slot.content, slotOf, ho, Setting.env, hfile, hbytes]
  exact Pool.wp_returns (I := fun _ _ => True) (H := fun _ _ => True)
    (Q := fun i _ s => s.entry = (slotOf config (actionable files) ⟨n, hlt⟩ w).entry) (i := ⟨n, hlt⟩)
    (processEntry_same limits hm hdiff (planned_sized hs hd hp hf) hcontent) hy hout

/-- **After a successful run the copy of a path is of the source's size, and newer**, unless its line was stale. -/
theorem run_leaves (hs : Scanned sides config scan) (hd : Describes sides config S w) (hsep : S.Separates config w)
    (hfresh : Fresh w) (hwet : config.dryRun = false)
    (hclock : ∀ t p file, S.stamp t → S.source p = some file → file.mtime < t)
    (hp : planRun config scan = .ok files) (hr : Runs S limits config scan w (some true) w') {p : Str}
    {file : SourceFile} (hpath : isFilePath p) (hsrc : S.source p = some file) :
    ∃ f ∈ files, f.relativePath = p ∧ ∃ o, w'.store (destKey config p) = some o ∧ o.bytes.length = file.bytes.length ∧
      (file.mtime < o.mtime ∨ S.Stale config w f) := by
  obtain ⟨files₀, hp₀, hn, y, hy, rfl, hall⟩ := runs_success hwet hr
  obtain rfl : files = files₀ := Except.ok.inj (hp.symm.trans hp₀)
  obtain ⟨f, hf, rfl, hdel⟩ := planned_of_source hs hd hp hpath hsrc
  refine ⟨f, hf, rfl, ?_⟩
  by_cases hskip : f.action = .skip
  · obtain ⟨file', o, hfile', ho, hlen, -, hlt⟩ := planned_skip hs hd hp hf hskip
    obtain rfl : file = file' := Option.some.inj (hsrc.symm.trans hfile')
    refine ⟨o, ?_, hlen, .inl hlt⟩
    rw [← ho]
    refine executes_frame hy fun g hg hkey => ?_
    have hgf : g = f := List.inj_on_of_nodup_map (planned_nodup hs hp) (List.mem_of_mem_filter hg) hf (makeS3Key_inj hkey)
    have hns : g.action ≠ .skip := by simpa using List.of_mem_filter hg
    exact hns (hgf ▸ hskip)
  · have hact : f ∈ actionable files := List.mem_filter.2 ⟨hf, by simpa using hskip⟩
    obtain ⟨n, hlt, rfl⟩ := List.getElem_of_mem hact
    obtain ⟨outcome, hout, hnf, hseen⟩ := hall ⟨n, hlt⟩
    have hcount := executes_counted hs hd hsep hfresh hp hy hout
    have henv : (S.env (actionable files)[n].relativePath).source = file.bytes := by simp [Setting.env, hsrc]
    cases outcome with
    | failed => exact absurd rfl hnf
    | dropped => exact absurd (hseen.symm.trans hcount.1) (by simp)
    | done =>
      rcases hcount with hhit | ⟨hdiff, hsame, hbytes⟩
      · have hgoal : SyncFileEntry.goal (actionable files)[n] (S.env (actionable files)[n].relativePath).source =
            some file.bytes := by rw [goal_of_ne hdel, henv]
        have hhit' : (S.env (actionable files)[n].relativePath).hits (some file.bytes)
            (y.2.store (destKey config (actionable files)[n].relativePath)) := hgoal ▸ hhit
        obtain ⟨t, ht, he⟩ := hhit'
        exact ⟨⟨file.bytes, t⟩, he, rfl, .inl (hclock t _ file ht hsrc)⟩
      · have hbytes' : (w.store (destKey config (actionable files)[n].relativePath)).map Stored.bytes =
            some file.bytes := by rw [← henv]; exact hbytes
        obtain ⟨o, ho, hob⟩ := Option.map_eq_some_iff.1 hbytes'
        refine ⟨o, ?_, by rw [hob], ?_⟩
        · rw [← ho]
          exact hsame
        · by_cases hlt' : file.mtime < o.mtime
          · exact .inl hlt'
          · exact .inr ⟨hdiff, file, o, hsrc, ho, hob, by omega⟩

/-- **A path of the source is skipped exactly where its copy is of its size and newer**, both sides having been read. -/
theorem skips_iff_current (hs : Scanned sides config scan) (hd : Describes sides config S w)
    (hc : DestComplete sides config scan) (hread : Read sides config scan)
    (hpos : ∀ p file, S.source p = some file → 0 < file.mtime) (hp : planRun config scan = .ok files) (hf : f ∈ files)
    (ha : f.action ≠ .delete) :
    f.action = .skip ↔ ∃ file o, S.source f.relativePath = some file ∧
      w.store (destKey config f.relativePath) = some o ∧ o.bytes.length = file.bytes.length ∧ file.mtime < o.mtime := by
  constructor
  · intro hskip
    obtain ⟨file, o, hfile, ho, hlen, -, hlt⟩ := planned_skip hs hd hp hf hskip
    exact ⟨file, o, hfile, ho, hlen, hlt⟩
  · rintro ⟨file, o, hfile, ho, hlen, hlt⟩
    have hpath := planned_isFilePath hs hp hf
    obtain ⟨hcan, -, -⟩ := planRun_ok hp
    obtain ⟨c, hdst, hcs⟩ := hs.dest
    obtain rfl : c = false := by
      cases c with
      | false => rfl
      | true => rw [hcs rfl] at hcan; exact absurd hcan (by simp)
    rw [planRun_files hs hp] at hf
    obtain ⟨e, he, rfl⟩ := planEntries_source hf ha
    rw [sourceLine_path] at hfile ho hpath
    -- what the two lookups of the path say
    obtain ⟨file', hfile', hi⟩ := (hd.source _ _ hpath).1 (hread.source e he)
    obtain rfl : file' = file := Option.some.inj (hfile'.symm.trans hfile)
    have hhas : destHas sides config e.relativePath ⟨o.bytes.length, o.mtime⟩ := (hd.dest _ _ hpath).2 ⟨o, ho, rfl⟩
    obtain ⟨e', he', hpe⟩ := List.mem_map.1 (destLists_complete hdst hc hpath hhas)
    obtain ⟨o', ho', hi'⟩ := (hd.dest _ _ (hpe ▸ hpath)).1 (hread.dest e' (destEntries_subset config scan he'))
    obtain rfl : o' = o := Option.some.inj (ho'.symm.trans (hpe ▸ ho))
    have hinfo : infoMap (destEntries config scan) e.relativePath = some ⟨e'.size, e'.mtime⟩ :=
      hpe ▸ infoMap_of_mem (destEntries_nodup hs) he'
    have hsize : e.size = file'.bytes.length := congrArg SyncEntryInfo.size hi
    have hmtime : e.mtime = file'.mtime := congrArg SyncEntryInfo.mtime hi
    have hpos' := hpos _ _ hfile
    rw [sourceLine_action, hinfo, hi', sourceAction_eq_skip]
    refine ⟨_, rfl, ?_, ?_⟩
    · show e.size = (o'.bytes.length : Int)
      omega
    · rw [destinationIsCurrent_iff]
      show 0 < e.mtime ∧ 0 < o'.mtime ∧ e.mtime < o'.mtime
      omega

/-- Every path of the source is skipped and nothing is deleted. -/
structure Converged (S : Setting) (files : List SyncFileEntry) : Prop where
  planned : ∀ p file, isFilePath p → S.source p = some file → ∃ f ∈ files, f.relativePath = p
  skipped : ∀ f ∈ files, f.action = .skip

/-- **The run after a successful one finds nothing to do**, if no differential line of the first had a destination with
the source's bytes and no newer a time; without faults, only if. -/
theorem converges_iff (hs : Scanned sides config scan) (hd : Describes sides config S w)
    (hc : DestComplete sides config scan) (hsep : S.Separates config w) (hfresh : Fresh w) (hwet : config.dryRun = false)
    (hdel : config.deleteOrphans = true) (hpos : ∀ p file, S.source p = some file → 0 < file.mtime)
    (hclock : ∀ t p file, S.stamp t → S.source p = some file → file.mtime < t)
    (hp : planRun config scan = .ok files) (hr : Runs S limits config scan w (some true) w')
    (hs' : Scanned sides' config scan') (hd' : Describes sides' config S w') (hc' : DestComplete sides' config scan')
    (hread' : Read sides' config scan') (hp' : planRun config scan' = .ok files') :
    ((∀ f ∈ files, ¬ S.Stale config w f) → Converged S files') ∧
      (S.mode = .sound → Converged S files' → ∀ f ∈ files, ¬ S.Stale config w f) := by
  have hsource : ∀ p file, isFilePath p → S.source p = some file →
      ∃ f ∈ files', f.relativePath = p ∧ f.action ≠ .delete := fun p file hpath hsrc =>
    planned_of_source hs' hd' hp' hpath hsrc
  constructor
  · intro hnone
    refine ⟨fun p file hpath hsrc => ?_, fun f' hf' => ?_⟩
    · obtain ⟨f, hf, hfp, -⟩ := hsource p file hpath hsrc
      exact ⟨f, hf, hfp⟩
    · have hpath := planned_isFilePath hs' hp' hf'
      rcases planned_cases hs' hd' hp' hf' with ⟨file, _, hsrc, hl, -⟩ | ⟨-, -, hsrc, hstore⟩
      · obtain ⟨f, hf, -, o, ho, hlen, hor⟩ := run_leaves hs hd hsep hfresh hwet hclock hp hr hpath hsrc
        exact (skips_iff_current hs' hd' hc' hread' hpos hp' hf' hl.ne_delete).2
          ⟨file, o, hsrc, ho, hlen, hor.resolve_right (hnone f hf)⟩
      · rw [runs_rest hs hd hc hsep hfresh hwet hr hpath hsrc, if_pos hdel] at hstore
        exact absurd rfl hstore
  · intro hm hsettled f hf hstale
    obtain ⟨files₀, hp₀, hn, y, hy, rfl, hall⟩ := runs_success hwet hr
    obtain rfl : files = files₀ := Except.ok.inj (hp.symm.trans hp₀)
    have hkept := stale_unchanged hs hd hp hm hf hstale hy fun i => (hall i).imp fun _ h => h.1
    obtain ⟨-, file, o, hsrc, ho, -, hle⟩ := hstale
    obtain ⟨f', hf', hfp, ha⟩ := hsource _ file (planned_isFilePath hs hp hf) hsrc
    obtain ⟨file', o', hfile', ho', -, hlt⟩ :=
      (skips_iff_current hs' hd' hc' hread' hpos hp' hf' ha).1 (hsettled.skipped f' hf')
    rw [hfp] at hfile' ho'
    obtain rfl : file' = file := Option.some.inj (hfile'.symm.trans hsrc)
    obtain rfl : o' = o := Option.some.inj (ho'.symm.trans (hkept.trans ho))
    omega

end Plan

/-! ## One file up, and nothing left to do -/

def mirrorUp : SyncConfig := { deleteOrphans := true }

def oneFileSides (bucket : Bucket) : Sides := ⟨oneFileTree 1 5, oneFileTree 1 5, emptyBucket, bucket⟩

def oneFileScan (dest : List DirectoryEntry) : Scan where
  source := { entries := [⟨['a'], 1, 5⟩] }
  dest := { entries := dest }

theorem oneFile_scanned {bucket : Bucket} {dest : List DirectoryEntry}
    (h : S3Lists bucket [] { entries := dest } false) : Scanned (oneFileSides bucket) mirrorUp (oneFileScan dest) :=
  ⟨⟨false, oneFileTree_lists 1 5, by simp⟩, ⟨false, h, by simp⟩, by simp [oneFileScan]⟩

theorem oneFile_describes {bucket : Bucket} {w : World}
    (h : ∀ p i, bucket p = some i ↔ ∃ o, w.store p = some o ∧ i = ⟨o.bytes.length, o.mtime⟩) :
    Describes (oneFileSides bucket) mirrorUp oneFileSetting w := by
  refine ⟨fun p i _ => (oneFileTree_has p i).trans ?_, fun p i _ => h _ i⟩
  by_cases hp : p = ['a'] <;> simp [oneFileSetting, hp]

theorem oneFile_mirrors : ∃ w', Runs oneFileSetting ⟨0, 0⟩ mirrorUp (oneFileScan []) emptyWorld (some true) w' ∧
    w'.store = Function.update (fun _ => none) ['a'] (some ⟨[7], 9⟩) := by
  have hrun : Steps (exec (oneFileSetting.env ['a'])) (processEntry ⟨0, 0⟩ mirrorUp oneFileLine, {})
      (.ret .done, { entry := some ⟨[7], 9⟩ }) := by
    refine steps_answer (.ok [7]) {} ⟨rfl, rfl⟩ ?_
    refine steps_answer true {} rfl ?_
    refine steps_answer false {} ⟨by simp, by simp, rfl⟩ ?_
    refine steps_answer false {} ⟨by simp, by simp, rfl⟩ ?_
    refine steps_answer false {} ⟨by simp, by simp, rfl⟩ ?_
    refine steps_answer (.ok ()) _ ⟨by decide, 9, rfl, rfl⟩ ?_
    exact .refl
  have hp : planRun mirrorUp (oneFileScan []) = .ok [oneFileLine] := rfl
  obtain ⟨w', hr, hw'⟩ := runs_solo (w := emptyWorld) hp rfl rfl hrun rfl
  exact ⟨w', hr, hw'⟩

/-- The upload of one file to an empty prefix, and the plan of the run after it. -/
theorem converges_one_file :
    ∃ w', Runs oneFileSetting ⟨0, 0⟩ mirrorUp (oneFileScan []) emptyWorld (some true) w' ∧
      ((∀ f ∈ [oneFileLine], ¬ oneFileSetting.Stale mirrorUp emptyWorld f) →
        Converged oneFileSetting [{ oneFileLine with action := .skip, s3Size := 1 }]) ∧
      (oneFileSetting.mode = .sound → Converged oneFileSetting [{ oneFileLine with action := .skip, s3Size := 1 }] →
        ∀ f ∈ [oneFileLine], ¬ oneFileSetting.Stale mirrorUp emptyWorld f) := by
  obtain ⟨w', hr, hw'⟩ := oneFile_mirrors
  have hd : Describes (oneFileSides emptyBucket) mirrorUp oneFileSetting emptyWorld :=
    oneFile_describes (by simp [emptyBucket, emptyWorld])
  have hd' : Describes (oneFileSides (oneObjectBucket 'a' ⟨1, 9⟩)) mirrorUp oneFileSetting w' := by
    refine oneFile_describes fun p i => ?_
    rw [hw']
    by_cases hp : p = ['a'] <;> simp [oneObjectBucket, Function.update, hp, eq_comm]
  have hread : Read (oneFileSides (oneObjectBucket 'a' ⟨1, 9⟩)) mirrorUp (oneFileScan [⟨['a'], 1, 9⟩]) := by
    constructor
    · intro e he
      rw [List.mem_singleton.1 he]
      exact (oneFileTree_has _ _).2 ⟨rfl, rfl⟩
    · intro e he
      rw [List.mem_singleton.1 he]
      rfl
  have hsource : ∀ p file, oneFileSetting.source p = some file → file.mtime = 5 := by
    intro p file h
    simp only [oneFileSetting, Option.ite_none_right_eq_some, Option.some.injEq] at h
    rw [← h.2]
  refine ⟨w', hr, converges_iff (oneFile_scanned emptyBucket_lists) hd ⟨⟨rfl, rfl⟩, by simp [oneFileScan]⟩
    (fun p file o _ ho => absurd ho (by simp [emptyWorld])) (fun _ => ⟨rfl, rfl, rfl⟩) rfl rfl
    (fun p file h => by rw [hsource p file h]; decide) (fun t p file ht h => ?_) rfl hr
    (oneFile_scanned (oneObjectBucket_lists (by simp) ⟨1, 9⟩)) hd' ⟨⟨rfl, rfl⟩, by simp [oneFileScan]⟩ hread rfl⟩
  obtain rfl : t = 9 := ht
  rw [hsource p file h]
  decide

/-! ## A copy that is older than its source, with its bytes -/

def mirrorDown : SyncConfig := { direction := .download, deleteOrphans := true }

theorem planRun_old : planRun mirrorDown (patchScan (zeros ++ [1, 2]) 1) =
    .ok [patchLine (zeros ++ [1, 2]).length 1] := by
  have hplan : planRun mirrorDown (patchScan (zeros ++ [1, 2]) 1) =
      planRun { direction := .download } (patchScan (zeros ++ [1, 2]) 1) := rfl
  exact hplan.trans (planRun_patch (.inr (by decide : (1 : Int) ≤ 5)))

theorem old_scanned : Scanned (patchSides (zeros ++ [1, 2]) 1) mirrorDown (patchScan (zeros ++ [1, 2]) 1) :=
  ⟨(patch_scanned _ _).source, (patch_scanned _ _).dest, (patch_scanned _ _).classified⟩

theorem old_describes {w : World} (hw : w.store = (fileWorld (zeros ++ [1, 2]) 1).store) :
    Describes (patchSides (zeros ++ [1, 2]) 1) mirrorDown patchSetting w :=
  ⟨(patch_describes hw).source, (patch_describes hw).dest⟩

/-- The checksums all match, so nothing is written. -/
theorem old_runs : ∃ w', Runs patchSetting ⟨9, 0⟩ mirrorDown (patchScan (zeros ++ [1, 2]) 1)
    (fileWorld (zeros ++ [1, 2]) 1) (some true) w' ∧ w'.store = (fileWorld (zeros ++ [1, 2]) 1).store := by
  have hlen : (zeros ++ [1, 2]).length = 8388610 := by rw [List.length_append, length_zeros]; rfl
  have hcrc : (patchSetting.env ['a']).chunkCRC32s (zeros ++ [1, 2]) = [0, 2] := patch_crcs (by simp) (by decide) _
  have hne : (zeros ++ [1, 2] : Bytes) ≠ [] := by simp
  have hsource : (patchSetting.env ['a']).source = zeros ++ [1, 2] := rfl
  obtain ⟨s, hs⟩ : ∃ s : Slot, s = { entry := some ⟨zeros ++ [1, 2], 1⟩ } := ⟨_, rfl⟩
  have hcontent : s.content = some (zeros ++ [1, 2]) := by rw [hs]; rfl
  have hseen : s.seen = false := by rw [hs]
  have hrun : Steps (exec (patchSetting.env ['a']))
      (processEntry ⟨9, 0⟩ mirrorDown (patchLine (zeros ++ [1, 2]).length 1), s) (.ret .done, s) := by
    have hcancel : exec (patchSetting.env ['a']) .cancelled s false s :=
      ⟨by simp [hseen], by simp, by rw [hs]⟩
    refine steps_answer false s hcancel ?_
    refine steps_answer false s hcancel ?_
    refine steps_answer true s ⟨trivial, rfl⟩ ?_
    refine steps_answer (.ok [0, 2]) s ⟨?_, rfl⟩ ?_
    · have hsize : ∀ n m, (patchLine n m).s3Size.toNat = 8388610 := fun _ _ => rfl
      rw [hsource, hsize, if_pos ⟨by decide, by rw [hlen]⟩, ← hlen, List.take_length, hcrc]
    refine steps_answer (.ok true) s ⟨by rw [hs]; rfl, rfl⟩ ?_
    refine steps_answer (.ok 8388610) s ⟨by rw [hcontent, Option.map_some, hlen], rfl⟩ ?_
    refine steps_answer (.ok [0, 2]) s ⟨by rw [hcontent, Option.bind_some, if_neg hne, hcrc], rfl⟩ ?_
    exact .refl
  subst hs
  obtain ⟨w', hr, hw'⟩ := runs_solo (w := fileWorld (zeros ++ [1, 2]) 1) planRun_old rfl rfl hrun rfl
  refine ⟨w', hr, hw'.trans (funext fun k => ?_)⟩
  by_cases hk : k = ['a'] <;> simp [fileWorld, mirrorDown, destKey, destRoot, makeS3Key, withSlash, patchLine, hk]

/-- A copy with the object's bytes and an older time is looked at again by every run. -/
theorem unchanged_copy_unsettled :
    ¬ ∀ (sides : Sides) (config : SyncConfig) (scan : Scan) (S : Setting) (w : World), Scanned sides config scan →
      Describes sides config S w → DestComplete sides config scan → S.Separates config w → Fresh w →
      config.dryRun = false → config.deleteOrphans = true →
      (∀ p file, S.source p = some file → 0 < file.mtime) →
      (∀ t p file, S.stamp t → S.source p = some file → file.mtime < t) →
      ∀ (limits : Limits) (files : List SyncFileEntry) (w' : World), planRun config scan = .ok files →
        Runs S limits config scan w (some true) w' →
      ∀ (sides' : Sides) (scan' : Scan) (files' : List SyncFileEntry), Scanned sides' config scan' →
        Describes sides' config S w' → DestComplete sides' config scan' → Read sides' config scan' →
        planRun config scan' = .ok files' → Converged S files' := by
  intro h
  obtain ⟨w', hr, hw'⟩ := old_runs
  have hcomplete : DestComplete (patchSides (zeros ++ [1, 2]) 1) mirrorDown (patchScan (zeros ++ [1, 2]) 1) :=
    ⟨⟨rfl, rfl⟩, by simp [patchScan]⟩
  have hsource : ∀ p file, patchSetting.source p = some file → file = ⟨zeros ++ [1, 2], 5, false⟩ := by
    intro p file hfile
    simp only [patchSetting, Option.ite_none_right_eq_some, Option.some.injEq] at hfile
    exact hfile.2.symm
  have hsep : patchSetting.Separates mirrorDown (fileWorld (zeros ++ [1, 2]) 1) := by
    intro p file o hfile ho
    obtain rfl := hsource p file hfile
    obtain ⟨-, rfl⟩ : _ ∧ ⟨zeros ++ [1, 2], 1⟩ = o := by
      simpa only [fileWorld, Option.ite_none_right_eq_some, Option.some.injEq] using ho
    exact lastByte_separates rfl (by simp) (by decide) (by simp) (by decide) fun _ => rfl
  have hread : Read (patchSides (zeros ++ [1, 2]) 1) mirrorDown (patchScan (zeros ++ [1, 2]) 1) := by
    constructor
    · intro e he
      rw [List.mem_singleton.1 he]
      rfl
    · intro e he
      rw [List.mem_singleton.1 he]
      exact (oneFileTree_has _ _).2 ⟨rfl, rfl⟩
  have hsettled := h _ _ _ _ _ old_scanned (old_describes rfl) hcomplete hsep (fun _ => ⟨rfl, rfl, rfl⟩) rfl rfl
    (fun p file hfile => by rw [hsource p file hfile]; decide)
    (fun t p file ht hfile => by rw [hsource p file hfile, show t = 9 from ht]; decide) _ _ w' planRun_old hr _ _ _
    old_scanned (old_describes hw') hcomplete hread planRun_old
  exact absurd (hsettled.skipped _ (List.mem_singleton.2 rfl)) (by simp [patchLine])

end Mito
