import MitoSync.Entry
import MitoSync.Gate
/-!
# Mirror — what a successful run leaves

The abstract sync is one assignment of maps: every path of the source takes its bytes, the paths the planner skips keep
what they had, and the rest goes under the delete flag and stays otherwise (`Mirrored`).  A run that reports success
refines it, in every direction and whatever the interleaving (`mirror`).
-/
namespace Mito

open Lib Prog

/-! ## Lines and the entries they come from -/

/-- The lines a direction may make of a source entry of a given size. -/
inductive LineOf (size : Int) (f : SyncFileEntry) : SyncDirection → Prop
  | skip {direction : SyncDirection} (ha : f.action = .skip) : LineOf size f direction
  | upload (ha : f.action = .upload) (hs : f.localSize = size) : LineOf size f .upload
  | uploadDiff (ha : f.action = .uploadDiff) (hs : diffUploadThreshold ≤ size) : LineOf size f .upload
  | download (ha : f.action = .download) (hs : f.s3Size = size) : LineOf size f .download
  | downloadDiff (ha : f.action = .downloadDiff) (hs : f.s3Size = size) (hl : diffUploadThreshold ≤ size) :
      LineOf size f .download
  | s3ToS3 (ha : f.action = .copy) (hs : f.s3Size = size) : LineOf size f .s3ToS3
  | localToLocal (ha : f.action = .upload) (hs : f.localSize = size) : LineOf size f .localToLocal

theorem LineOf.ne_delete {size : Int} {f : SyncFileEntry} {direction : SyncDirection} (h : LineOf size f direction) :
    f.action ≠ .delete := by
  cases h <;> simp [*]

/-- The actions a source entry's line may have. -/
theorem sourceAction_cases (r : Roles) (e : DirectoryEntry) (d : Option SyncEntryInfo) :
    sourceAction r e d = .skip ∨ sourceAction r e d = r.fresh e.size ∨ sourceAction r e d = r.update e.size := by
  unfold sourceAction
  split
  · exact .inr (.inl rfl)
  · split
    · exact .inr (.inr rfl)
    · split
      · exact .inl rfl
      · exact .inr (.inr rfl)

theorem sourceLine_lineOf (direction : SyncDirection) (dst : List DirectoryEntry) (e : DirectoryEntry) :
    LineOf e.size (sourceLine (rolesOf direction) dst e) direction := by
  rcases sourceAction_cases (rolesOf direction) e (infoMap dst e.relativePath) with h | h | h
  · exact .skip h
  · cases direction with
    | upload =>
      by_cases hsize : e.size ≥ diffUploadThreshold
      · exact .uploadDiff (h.trans (if_pos hsize)) hsize
      · exact .upload (h.trans (if_neg hsize)) rfl
    | download => exact .download h rfl
    | s3ToS3 => exact .s3ToS3 h rfl
    | localToLocal => exact .localToLocal h rfl
  · cases direction with
    | upload =>
      by_cases hsize : e.size ≥ diffUploadThreshold
      · exact .uploadDiff (h.trans (if_pos hsize)) hsize
      · exact .upload (h.trans (if_neg hsize)) rfl
    | download =>
      by_cases hsize : e.size ≥ diffUploadThreshold
      · exact .downloadDiff (h.trans (if_pos hsize)) rfl hsize
      · exact .download (h.trans (if_neg hsize)) rfl
    | s3ToS3 => exact .s3ToS3 h rfl
    | localToLocal => exact .localToLocal h rfl

/-! ## The two sides of a run -/

/-- What the source, or the destination, really has at a path. -/
def sourceHas (sides : Sides) (config : SyncConfig) (path : Str) (i : SyncEntryInfo) : Prop :=
  match config.direction with
  | .upload | .localToLocal => sides.sourceTree.Has path i
  | .download | .s3ToS3 => sides.sourceBucket (makeS3Key config.source.path path) = some i

def destHas (sides : Sides) (config : SyncConfig) (path : Str) (i : SyncEntryInfo) : Prop :=
  match config.direction with
  | .upload | .s3ToS3 => sides.destBucket (makeS3Key config.destination.path path) = some i
  | .download | .localToLocal => sides.destTree.Has path i

/-- The sides hold the setting's static source and the world's destination, a file or an object a path. -/
structure Describes (sides : Sides) (config : SyncConfig) (S : Setting) (w : World) : Prop where
  source : ∀ p i, isFilePath p →
    (sourceHas sides config p i ↔ ∃ file, S.source p = some file ∧ i = ⟨file.bytes.length, file.mtime⟩)
  dest : ∀ p i, isFilePath p →
    (destHas sides config p i ↔ ∃ o, w.store (destKey config p) = some o ∧ i = ⟨o.bytes.length, o.mtime⟩)

/-- The destination's listing is complete: nothing was left out, and where its root does not exist there is nothing. -/
structure DestComplete (sides : Sides) (config : SyncConfig) (scan : Scan) : Prop where
  whole : scan.dest.complete = true ∧ scan.dest.aliasOmitted = false
  rootless : scan.destExists = false → ∀ p i, ¬ destHas sides config p i

section Listings

variable {sides : Sides} {config : SyncConfig} {l : Listing} {cancelled : Bool}

/-- What a source entry says of its path: the true size and time, or, of a local file, neither. -/
theorem sourceLists_info (h : SourceLists sides config l cancelled) {e : DirectoryEntry} (he : e ∈ l.entries) :
    ∃ i, sourceHas sides config e.relativePath i ∧ (⟨e.size, e.mtime⟩ = i ∨
      (config.direction = .upload ∨ config.direction = .localToLocal) ∧
        ⟨e.size, e.mtime⟩ = (⟨0, 0⟩ : SyncEntryInfo)) := by
  unfold SourceLists at h
  unfold sourceHas
  cases hd : config.direction <;> simp only [hd] at h ⊢
  · obtain ⟨i, hi, hor⟩ := localLists_info h e he
    exact ⟨i, hi, hor.imp_right fun h0 => ⟨by simp, h0⟩⟩
  · exact ⟨_, s3Lists_info h e he, .inl rfl⟩
  · exact ⟨_, s3Lists_info h e he, .inl rfl⟩
  · obtain ⟨i, hi, hor⟩ := localLists_info h e he
    exact ⟨i, hi, hor.imp_right fun h0 => ⟨by simp, h0⟩⟩

theorem sourceLists_isFilePath (h : SourceLists sides config l cancelled) {p : Str} (hp : p ∈ l.paths) :
    isFilePath p := by
  unfold SourceLists at h
  cases hd : config.direction <;> simp only [hd] at h
  · obtain ⟨i, n, -, hf⟩ := (localLists_paths h).2.1 p hp
    exact hf.isFilePath
  · exact ((s3Lists_paths h).2.1 p hp).1
  · exact ((s3Lists_paths h).2.1 p hp).1
  · obtain ⟨i, n, -, hf⟩ := (localLists_paths h).2.1 p hp
    exact hf.isFilePath

/-- A complete listing of the destination has every path of it. -/
theorem destLists_complete {scan : Scan} (h : DestLists sides config scan.dest false) (hc : DestComplete sides config scan)
    {p : Str} {i : SyncEntryInfo} (hf : isFilePath p) (hp : destHas sides config p i) :
    p ∈ (destEntries config scan).map DirectoryEntry.relativePath := by
  have hex : scan.destExists = true := by
    cases hx : scan.destExists with
    | true => rfl
    | false => exact absurd hp (hc.rootless hx p i)
  unfold DestLists at h
  unfold destHas at hp
  unfold destEntries
  cases hd : config.direction <;> simp only [hd, hex, if_true] at h hp ⊢
  · exact (s3Lists_paths h).2.2 hc.whole.1 rfl p ⟨hf, by rw [hp]; simp⟩
  · exact (localLists_paths h).2.2 hc.whole rfl p ⟨i, hp⟩
  · exact (s3Lists_paths h).2.2 hc.whole.1 rfl p ⟨hf, by rw [hp]; simp⟩
  · exact (localLists_paths h).2.2 hc.whole rfl p ⟨i, hp⟩

/-- What a destination entry says of its path. -/
theorem destLists_info (h : DestLists sides config l cancelled) {e : DirectoryEntry} (he : e ∈ l.entries) :
    ∃ i, destHas sides config e.relativePath i ∧
      (⟨e.size, e.mtime⟩ = i ∨ ⟨e.size, e.mtime⟩ = (⟨0, 0⟩ : SyncEntryInfo)) := by
  unfold DestLists at h
  unfold destHas
  cases hd : config.direction <;> simp only [hd] at h ⊢
  · exact ⟨_, s3Lists_info h e he, .inl rfl⟩
  · exact localLists_info h e he
  · exact ⟨_, s3Lists_info h e he, .inl rfl⟩
  · exact localLists_info h e he

theorem destLists_has (h : DestLists sides config l cancelled) {p : Str} (hp : p ∈ l.paths) :
    ∃ i, destHas sides config p i := by
  obtain ⟨e, he, rfl⟩ := List.mem_map.1 hp
  obtain ⟨i, hi, -⟩ := destLists_info h he
  exact ⟨i, hi⟩

end Listings

section Plan

variable {sides : Sides} {config : SyncConfig} {scan : Scan} {S : Setting} {w : World} {files : List SyncFileEntry}
  {f : SyncFileEntry}

theorem destEntries_nodup (hs : Scanned sides config scan) :
    ((destEntries config scan).map DirectoryEntry.relativePath).Nodup := by
  obtain ⟨c, hdst, -⟩ := hs.dest
  have hn := (destLists_paths hdst).1
  unfold destEntries
  cases config.direction
  · exact hn
  · dsimp only
    split
    · exact hn
    · exact List.nodup_nil
  · exact hn
  · dsimp only
    split
    · exact hn
    · exact List.nodup_nil

/-- **Every path is planned at most once.** -/
theorem planned_nodup (hs : Scanned sides config scan) (hp : planRun config scan = .ok files) :
    (files.map SyncFileEntry.relativePath).Nodup := by
  obtain ⟨c, hsrc, -⟩ := hs.source
  rw [planRun_files hs hp]
  exact planEntries_paths_nodup _ _ (sourceLists_paths hsrc).1 (destEntries_nodup hs)

theorem planned_isFilePath (hs : Scanned sides config scan) (hp : planRun config scan = .ok files) (hf : f ∈ files) :
    isFilePath f.relativePath := by
  obtain ⟨c, hsrc, -⟩ := hs.source
  obtain ⟨c', hdst, -⟩ := hs.dest
  rw [planRun_files hs hp] at hf
  rcases mem_planEntries.1 hf with ⟨e, he, rfl⟩ | ⟨-, e, he, rfl⟩
  · rw [sourceLine_path]
    exact sourceLists_isFilePath hsrc (List.mem_map_of_mem he)
  · rw [orphanLine_path]
    exact (destLists_paths hdst).2 _ (List.mem_map_of_mem (destEntries_subset _ _ (mem_orphans.1 he).1))

/-- **A line is of a source file, with the size the planner read of it, or deletes a path the source lacks.** -/
theorem planned_cases (hs : Scanned sides config scan) (hd : Describes sides config S w)
    (hp : planRun config scan = .ok files) (hf : f ∈ files) :
    (∃ file size, S.source f.relativePath = some file ∧ LineOf size f config.direction ∧
      (size = file.bytes.length ∨ (config.direction = .upload ∨ config.direction = .localToLocal) ∧ size = 0)) ∨
    (f.action = .delete ∧ config.deleteOrphans = true ∧ S.source f.relativePath = none ∧
      w.store (destKey config f.relativePath) ≠ none) := by
  have hfile := planned_isFilePath hs hp hf
  obtain ⟨hcan, hwhole, -⟩ := planRun_ok hp
  obtain ⟨c, hsrc, hcs⟩ := hs.source
  obtain ⟨c', hdst, -⟩ := hs.dest
  rw [planRun_files hs hp] at hf
  rcases mem_planEntries.1 hf with ⟨e, he, rfl⟩ | ⟨hdel, e, he, rfl⟩
  · apply Or.inl
    rw [sourceLine_path] at hfile ⊢
    obtain ⟨i, hi, hor⟩ := sourceLists_info hsrc he
    obtain ⟨file, hfile', rfl⟩ := (hd.source _ i hfile).1 hi
    refine ⟨file, e.size, hfile', sourceLine_lineOf _ _ e, ?_⟩
    rcases hor with h | ⟨hloc, h⟩
    · exact .inl (congrArg SyncEntryInfo.size h)
    · exact .inr ⟨hloc, congrArg SyncEntryInfo.size h⟩
  · apply Or.inr
    rw [orphanLine_path] at hfile ⊢
    obtain ⟨hmem, hout⟩ := mem_orphans.1 he
    refine ⟨rfl, hdel, ?_, ?_⟩
    · cases hsome : S.source e.relativePath with
      | none => rfl
      | some file =>
        have hin := (hd.source _ _ hfile).2 ⟨file, hsome, rfl⟩
        have hpath : e.relativePath ∈ sourcePaths sides config := by
          unfold sourcePaths
          unfold sourceHas at hin
          cases hdir : config.direction <;> simp only [hdir] at hin ⊢
          · exact ⟨_, hin⟩
          · rw [Set.mem_ofPred_eq, hin]; simp
          · rw [Set.mem_ofPred_eq, hin]; simp
          · exact ⟨_, hin⟩
        have hcf : c = false := by
          cases c with
          | false => rfl
          | true => rw [hcs rfl] at hcan; exact absurd hcan (by simp)
        exact absurd ((sourceLists_paths hsrc).2.2 hwhole hcf _ hpath hfile) hout
    · obtain ⟨i, hi⟩ := destLists_has hdst (List.mem_map_of_mem (destEntries_subset config scan hmem))
      obtain ⟨o, ho, -⟩ := (hd.dest _ i hfile).1 hi
      rw [ho]
      simp

/-- **A skip is of a path whose two sides are of one size, the destination strictly newer.** -/
theorem planned_skip (hs : Scanned sides config scan) (hd : Describes sides config S w)
    (hp : planRun config scan = .ok files) (hf : f ∈ files) (ha : f.action = .skip) :
    ∃ file o, S.source f.relativePath = some file ∧ w.store (destKey config f.relativePath) = some o ∧
      o.bytes.length = file.bytes.length ∧ 0 < file.mtime ∧ file.mtime < o.mtime := by
  have hfile := planned_isFilePath hs hp hf
  obtain ⟨c, hsrc, -⟩ := hs.source
  obtain ⟨c', hdst, -⟩ := hs.dest
  rw [planRun_files hs hp] at hf
  obtain ⟨e, he, rfl, i, hi, hsize, hcur⟩ := planEntries_skip hf ha
  rw [sourceLine_path] at hfile ⊢
  obtain ⟨hpos, hpos', hlt⟩ := (destinationIsCurrent_iff _ _).1 hcur
  obtain ⟨i₀, hi₀, hor⟩ := sourceLists_info hsrc he
  obtain ⟨i₁, hi₁, hor'⟩ := destLists_info hdst (destEntries_subset config scan (infoMap_eq_some hi))
  have h₀ : ⟨e.size, e.mtime⟩ = i₀ := by
    refine hor.resolve_right fun h => ?_
    have : e.mtime = 0 := congrArg SyncEntryInfo.mtime h.2
    omega
  have h₁ : i = i₁ := by
    refine hor'.resolve_right fun h => ?_
    have : i.mtime = 0 := congrArg SyncEntryInfo.mtime h
    omega
  subst h₀ h₁
  obtain ⟨file, hfs, hfi⟩ := (hd.source _ _ hfile).1 hi₀
  obtain ⟨o, ho, hoi⟩ := (hd.dest _ _ hfile).1 hi₁
  have hes : e.size = file.bytes.length := congrArg SyncEntryInfo.size hfi
  have hem : e.mtime = file.mtime := congrArg SyncEntryInfo.mtime hfi
  have his : i.size = o.bytes.length := congrArg SyncEntryInfo.size hoi
  have him : i.mtime = o.mtime := congrArg SyncEntryInfo.mtime hoi
  exact ⟨file, o, hfs, ho, by omega, by omega, by omega⟩

theorem planned_sized (hs : Scanned sides config scan) (hd : Describes sides config S w)
    (hp : planRun config scan = .ok files) (hf : f ∈ files) : (S.env f.relativePath).Sized f := by
  rcases planned_cases hs hd hp hf with ⟨file, size, hsrc, hl, hsize⟩ | ⟨ha, -⟩
  · have henv : (S.env f.relativePath).source = file.bytes := by simp [Setting.env, hsrc]
    have hlarge : diffUploadThreshold ≤ size → size = file.bytes.length ∧ file.bytes ≠ [] := by
      intro hl
      unfold diffUploadThreshold at hl
      have hlen : size = file.bytes.length := by
        rcases hsize with h | ⟨-, h⟩
        · exact h
        · omega
      exact ⟨hlen, fun hnil => by rw [hnil, List.length_nil] at hlen; omega⟩
    have hexact : config.direction = .download ∨ config.direction = .s3ToS3 → size = file.bytes.length := by
      intro hdir
      rcases hsize with h | ⟨h | h, -⟩
      · exact h
      · rw [h] at hdir; exact absurd hdir (by simp)
      · rw [h] at hdir; exact absurd hdir (by simp)
    refine ⟨fun ha => ?_, fun ha => ?_, fun ha => ?_⟩ <;> rw [henv] <;> generalize config.direction = dir at *
    · cases hl <;> simp_all
    · cases hl <;> simp_all
    · unfold SyncFileEntry.isDiff at ha
      cases hl <;> simp_all
  · exact ⟨by simp [ha], by simp [ha], by simp [SyncFileEntry.isDiff, ha]⟩

/-! ## The execution -/

/-- No executor is asked here what made it fail. -/
theorem admits_true (E : Env) (old : Option Stored) : E.Admits config f old True := by
  constructor <;> intros <;> first | trivial | exact .inr trivial

/-- The lines of a static source and the destination they find differ in checksum wherever they differ in a chunk. -/
def Setting.Separates (S : Setting) (config : SyncConfig) (w : World) : Prop :=
  ∀ p file o, S.source p = some file → w.store (destKey config p) = some o → (S.env p).Separates file.bytes o.bytes

theorem Setting.Separates.line (h : S.Separates config w) (hs : Scanned sides config scan)
    (hd : Describes sides config S w) (hp : planRun config scan = .ok files) (hf : f ∈ files) (hdiff : f.isDiff) :
    ∀ o, w.store (destKey config f.relativePath) = some o →
      (S.env f.relativePath).Separates (S.env f.relativePath).source o.bytes := by
  intro o ho
  rcases planned_cases hs hd hp hf with ⟨file, size, hsrc, -⟩ | ⟨ha, -⟩
  · have henv : (S.env f.relativePath).source = file.bytes := by simp [Setting.env, hsrc]
    rw [henv]
    exact h _ _ _ hsrc ho
  · unfold SyncFileEntry.isDiff at hdiff
    rw [ha] at hdiff
    exact absurd hdiff (by simp)

/-- **A line of the plan, at the start of the execution.** -/
theorem line_wp (hs : Scanned sides config scan) (hd : Describes sides config S w) (hsep : S.Separates config w)
    (hfresh : Fresh w) (hp : planRun config scan = .ok files) (limits : Limits) {I H : Slot → Prop} {F : Prop}
    (i : Fin (actionable files).length)
    (hI : ∀ s, (S.env (actionable files)[i].relativePath).During config (actionable files)[i]
      (w.store (destKey config (actionable files)[i].relativePath)) s → I s)
    (hH : F ∨ limits.fuel < fuelFor (S.env (actionable files)[i].relativePath).source.length →
      ∀ s, (S.env (actionable files)[i].relativePath).During config (actionable files)[i]
        (w.store (destKey config (actionable files)[i].relativePath)) s → H s)
    (hA : (S.env (actionable files)[i].relativePath).Admits config (actionable files)[i]
      (w.store (destKey config (actionable files)[i].relativePath)) F)
    (hparent : (w.locals i).parent = true ∨ F) :
    wp (exec (S.env (actionable files)[i].relativePath)) I H (processEntry limits config (actionable files)[i])
      ((S.env (actionable files)[i].relativePath).Counted config (actionable files)[i]
        (w.store (destKey config (actionable files)[i].relativePath)) F)
      (slotOf config (actionable files) i w) := by
  have hmem : (actionable files)[i] ∈ actionable files := List.getElem_mem _
  have hf : (actionable files)[i] ∈ files := List.mem_of_mem_filter hmem
  have hns : (actionable files)[i].action ≠ .skip := by simpa using List.of_mem_filter hmem
  have hstart : (S.env (actionable files)[i].relativePath).Starts config (actionable files)[i]
      (w.store (destKey config (actionable files)[i].relativePath)) F (slotOf config (actionable files) i w) :=
    ⟨rfl, fun hseen => absurd hseen (by simp [slotOf, (hfresh i).2.2]), fun _ => hparent⟩
  exact processEntry_spec hI hH (planned_sized hs hd hp hf) hA (hsep.line hs hd hp hf) hns hstart

/-- **A line that returned is counted right**, whatever the others did. -/
theorem executes_counted (hs : Scanned sides config scan) (hd : Describes sides config S w)
    (hsep : S.Separates config w) (hfresh : Fresh w) (hp : planRun config scan = .ok files) {limits : Limits}
    {hn : ((actionable files).map SyncFileEntry.relativePath).Nodup}
    {y : (Fin (actionable files).length → Exec Outcome) × World}
    (hy : Executes S limits config (actionable files) hn w y) {i : Fin (actionable files).length} {o : Outcome}
    (ho : y.1 i = .ret o) :
    (S.env (actionable files)[i].relativePath).Counted config (actionable files)[i]
      (w.store (destKey config (actionable files)[i].relativePath)) True o (slotOf config (actionable files) i y.2) :=
  Pool.wp_returns (I := fun _ _ => True) (H := fun _ _ => True)
    (Q := fun i o s => (S.env (actionable files)[i].relativePath).Counted config (actionable files)[i]
      (w.store (destKey config (actionable files)[i].relativePath)) True o s)
    (line_wp hs hd hsep hfresh hp limits i (fun _ _ => trivial) (fun _ _ _ => trivial) (admits_true _ _) (.inr trivial))
    hy ho

/-- A line done leaves its goal's bytes, or nothing. -/
theorem Env.Did.content {E : Env} {old : Option Stored} {s : Slot} (h : E.Did f old s) :
    s.entry.map Stored.bytes = f.goal E.source := by
  rcases h with h | ⟨hdiff, he, hb⟩
  · cases hg : f.goal E.source with
    | none => rw [hg] at h; rw [show s.entry = none from h]; rfl
    | some b =>
      rw [hg] at h
      obtain ⟨t, -, he⟩ := h
      rw [he]
      rfl
  · rw [he, hb, goal_of_ne]
    rintro ha
    unfold SyncFileEntry.isDiff at hdiff
    rw [ha] at hdiff
    exact absurd hdiff (by simp)

/-! ## The mirror law -/

/-- **The abstract sync**, from one destination to the next. -/
structure Mirrored (S : Setting) (config : SyncConfig) (files : List SyncFileEntry) (w w' : World) : Prop where
  /-- a path of the source is planned, and unless it is skipped the destination takes its bytes -/
  source : ∀ p file, isFilePath p → S.source p = some file → ∃ f ∈ files, f.relativePath = p ∧ f.action ≠ .delete ∧
    (f.action = .skip → w'.store (destKey config p) = w.store (destKey config p)) ∧
    (f.action ≠ .skip → (w'.store (destKey config p)).map Stored.bytes = some file.bytes)
  rest : ∀ p, isFilePath p → S.source p = none →
    w'.store (destKey config p) = if config.deleteOrphans then none else w.store (destKey config p)
  outside : ∀ k, (∀ p, isFilePath p → destKey config p ≠ k) → w'.store k = w.store k

theorem planned_of_source (hs : Scanned sides config scan) (hd : Describes sides config S w)
    (hp : planRun config scan = .ok files) {p : Str} {file : SourceFile} (hf : isFilePath p)
    (hsrc : S.source p = some file) : ∃ f ∈ files, f.relativePath = p ∧ f.action ≠ .delete := by
  obtain ⟨hcan, hwhole, -⟩ := planRun_ok hp
  obtain ⟨c, hlist, hcs⟩ := hs.source
  have hcf : c = false := by
    cases c with
    | false => rfl
    | true => rw [hcs rfl] at hcan; exact absurd hcan (by simp)
  have hin := (hd.source p _ hf).2 ⟨file, hsrc, rfl⟩
  have hpath : p ∈ sourcePaths sides config := by
    unfold sourcePaths
    unfold sourceHas at hin
    cases hdir : config.direction <;> simp only [hdir] at hin ⊢
    · exact ⟨_, hin⟩
    · rw [Set.mem_ofPred_eq, hin]; simp
    · rw [Set.mem_ofPred_eq, hin]; simp
    · exact ⟨_, hin⟩
  obtain ⟨e, he, hep⟩ := List.mem_map.1 ((sourceLists_paths hlist).2.2 hwhole hcf p hpath hf)
  refine ⟨sourceLine (rolesOf config.direction) (destEntries config scan) e, ?_, by rw [sourceLine_path, hep],
    sourceAction_ne_delete _ _ _⟩
  rw [planRun_files hs hp]
  exact mem_planEntries.2 (.inl ⟨e, he, rfl⟩)

theorem planned_of_orphan (hs : Scanned sides config scan) (hd : Describes sides config S w)
    (hc : DestComplete sides config scan) (hp : planRun config scan = .ok files) (hdel : config.deleteOrphans = true)
    {p : Str} (hf : isFilePath p) (hsrc : S.source p = none) (hstore : w.store (destKey config p) ≠ none) :
    ∃ f ∈ files, f.relativePath = p ∧ f.action = .delete := by
  obtain ⟨hcan, -, -⟩ := planRun_ok hp
  obtain ⟨c, hsrcl, -⟩ := hs.source
  obtain ⟨c', hdst, hcs⟩ := hs.dest
  have hcf : c' = false := by
    cases c' with
    | false => rfl
    | true => rw [hcs rfl] at hcan; exact absurd hcan (by simp)
  subst hcf
  obtain ⟨o, ho⟩ := Option.ne_none_iff_exists'.1 hstore
  have hhas := (hd.dest p _ hf).2 ⟨o, ho, rfl⟩
  obtain ⟨e, he, rfl⟩ := List.mem_map.1 (destLists_complete hdst hc hf hhas)
  refine ⟨orphanLine (rolesOf config.direction) e, ?_, orphanLine_path _ _, rfl⟩
  rw [planRun_files hs hp]
  refine mem_planEntries.2 (.inr ⟨hdel, e, mem_orphans.2 ⟨he, fun hin => ?_⟩, rfl⟩)
  obtain ⟨e', he', hpe⟩ := List.mem_map.1 hin
  obtain ⟨i, hi, -⟩ := sourceLists_info hsrcl he'
  rw [hpe] at hi
  obtain ⟨file, hfile, -⟩ := (hd.source _ i hf).1 hi
  rw [hsrc] at hfile
  exact absurd hfile (by simp)

/-- **What a run that reports success did**: a line that was not skipped has its goal's bytes, and what is no line's is as
it was. -/
theorem runs_did (hs : Scanned sides config scan) (hd : Describes sides config S w) (hsep : S.Separates config w)
    (hfresh : Fresh w) (hwet : config.dryRun = false) {limits : Limits} {w' : World}
    (hr : Runs S limits config scan w (some true) w') : ∃ files, planRun config scan = .ok files ∧
      (∀ f ∈ files, f.action ≠ .skip → (w'.store (destKey config f.relativePath)).map Stored.bytes =
        f.goal (S.env f.relativePath).source) ∧
      ∀ k, (∀ f ∈ files, f.action ≠ .skip → destKey config f.relativePath ≠ k) → w'.store k = w.store k := by
  obtain ⟨files, hp, hn, y, hy, rfl, hall⟩ := runs_success hwet hr
  refine ⟨files, hp, fun f hf hns => ?_, fun k hk => ?_⟩
  · obtain ⟨n, hlt, rfl⟩ := List.getElem_of_mem (List.mem_filter.2 ⟨hf, by simpa using hns⟩ : f ∈ actionable files)
    obtain ⟨o, ho, hnf, hseen⟩ := hall ⟨n, hlt⟩
    have hcount := executes_counted hs hd hsep hfresh hp hy ho
    cases o with
    | done => exact hcount.content
    | failed => exact absurd rfl hnf
    | dropped => exact absurd (hseen.symm.trans hcount.1) (by simp)
  · exact executes_frame hy fun f hf => hk f (List.mem_of_mem_filter hf) (by simpa using List.of_mem_filter hf)

/-- A line of a path that the source lacks deletes it. -/
theorem planned_deletes (hs : Scanned sides config scan) (hd : Describes sides config S w)
    (hp : planRun config scan = .ok files) {p : Str} (hsrc : S.source p = none) :
    ∀ f ∈ files, f.relativePath = p → f.action = .delete ∧ config.deleteOrphans = true ∧
      w.store (destKey config p) ≠ none := by
  rintro f hf rfl
  rcases planned_cases hs hd hp hf with ⟨file, -, hfile, -⟩ | ⟨ha, hdel, -, hstore⟩
  · exact absurd (hsrc.symm.trans hfile) (by simp)
  · exact ⟨ha, hdel, hstore⟩

/-- **What the source lacks is deleted, or left as it was.** -/
theorem runs_rest (hs : Scanned sides config scan) (hd : Describes sides config S w) (hc : DestComplete sides config scan)
    (hsep : S.Separates config w) (hfresh : Fresh w) (hwet : config.dryRun = false) {limits : Limits} {w' : World}
    (hr : Runs S limits config scan w (some true) w') {p : Str} (hpath : isFilePath p) (hsrc : S.source p = none) :
    w'.store (destKey config p) = if config.deleteOrphans then none else w.store (destKey config p) := by
  obtain ⟨files, hp, hcontent, hframe⟩ := runs_did hs hd hsep hfresh hwet hr
  have hlines := planned_deletes hs hd hp hsrc
  by_cases hdel : config.deleteOrphans = true
  · rw [if_pos hdel]
    by_cases hstore : w.store (destKey config p) = none
    · exact (hframe _ fun f hf _ hkey => (hlines f hf (makeS3Key_inj hkey)).2.2 hstore).trans hstore
    · obtain ⟨f, hf, rfl, ha⟩ := planned_of_orphan hs hd hc hp hdel hpath hsrc hstore
      have hbytes := hcontent f hf (by rw [ha]; simp)
      rw [goal_of_delete ha, Option.map_eq_none_iff] at hbytes
      exact hbytes
  · rw [if_neg hdel]
    exact hframe _ fun f hf _ hkey => hdel (hlines f hf (makeS3Key_inj hkey)).2.1

/-- **The mirror law.**  A run that reports success leaves the mirror of its source. -/
theorem mirror (hs : Scanned sides config scan) (hd : Describes sides config S w) (hc : DestComplete sides config scan)
    (hsep : S.Separates config w) (hfresh : Fresh w) (hwet : config.dryRun = false) {limits : Limits} {w' : World}
    (hr : Runs S limits config scan w (some true) w') :
    ∃ files, planRun config scan = .ok files ∧ Mirrored S config files w w' := by
  obtain ⟨files, hp, hcontent, hframe⟩ := runs_did hs hd hsep hfresh hwet hr
  refine ⟨files, hp, fun p file hpath hsrc => ?_, fun p hpath hsrc => runs_rest hs hd hc hsep hfresh hwet hr hpath hsrc,
    fun k hk => hframe k fun f hf _ => hk _ (planned_isFilePath hs hp hf)⟩
  obtain ⟨f, hf, rfl, hdel⟩ := planned_of_source hs hd hp hpath hsrc
  refine ⟨f, hf, rfl, hdel, fun hskip => hframe _ fun g hg hns hkey => ?_, fun hns => ?_⟩
  · rw [List.inj_on_of_nodup_map (planned_nodup hs hp) hg hf (makeS3Key_inj hkey)] at hns
    exact hns hskip
  · rw [hcontent f hf hns, goal_of_ne hdel]
    simp [Setting.env, hsrc]

end Plan

def emptyBucket : Bucket := fun _ => none

theorem emptyBucket_lists : S3Lists emptyBucket [] { entries := [] } false := by
  refine .walked (w := ⟨[], [], [], [], [], true, false⟩) ?_ ⟨rfl, rfl, rfl, .inl rfl⟩
  have hlisted : Listed emptyBucket [] ([] ++ []) ([] ++ []) := ⟨by simp, by simp, by simp, by simp⟩
  have hcovers : (⟨[], {}, [], List.prefix_rfl, .inl rfl, hlisted⟩ : Pages emptyBucket []).Covers := fun k hk _ =>
    absurd rfl hk
  refine .head (.opens (a := []) (b := []) rfl (.listed hcovers)) ?_
  refine .head (.reads (a := []) (b := []) rfl (.page rfl)) ?_
  refine .head (.merge (a := []) (b := []) rfl (.inl rfl)) ?_
  exact .single (.advance rfl rfl)

theorem oneFileTree_has {size mtime : Int} (p : Str) (i : SyncEntryInfo) :
    (oneFileTree size mtime).Has p i ↔ p = ['a'] ∧ i = ⟨size, mtime⟩ := Tree.has_single rfl rfl rfl p i

/-- The upload of one file to an empty prefix. -/
theorem mirror_one_file :
    ∃ w', Runs oneFileSetting ⟨0, 0⟩ {} { source := { entries := [⟨['a'], 1, 5⟩] }, dest := { entries := [] } }
        emptyWorld (some true) w' ∧
      ∃ files, planRun {} { source := { entries := [⟨['a'], 1, 5⟩] }, dest := { entries := [] } } = .ok files ∧
        Mirrored oneFileSetting {} files emptyWorld w' := by
  have hs : Scanned ⟨oneFileTree 1 5, oneFileTree 1 5, emptyBucket, emptyBucket⟩ {}
      { source := { entries := [⟨['a'], 1, 5⟩] }, dest := { entries := [] } } :=
    ⟨⟨false, oneFileTree_lists 1 5, by simp⟩, ⟨false, emptyBucket_lists, by simp⟩, by simp⟩
  have hd : Describes ⟨oneFileTree 1 5, oneFileTree 1 5, emptyBucket, emptyBucket⟩ {} oneFileSetting emptyWorld := by
    refine ⟨fun p i _ => (oneFileTree_has p i).trans ?_, fun p i _ => by simp [destHas, emptyBucket, emptyWorld]⟩
    by_cases hp : p = ['a'] <;> simp [oneFileSetting, hp]
  obtain ⟨w', hr⟩ := oneFile_uploads (planRun_oneFile true)
  exact ⟨w', hr, mirror hs hd ⟨⟨rfl, rfl⟩, by simp⟩ (fun p file o _ ho => absurd ho (by simp [emptyWorld]))
    (fun i => ⟨rfl, rfl, rfl⟩) rfl hr⟩

end Mito
