import MitoSync.Planner
/-!
# FourPlanners — the decision as the four planners write it out

`sync_task.cpp` writes the comparison of two listings four times, with the sides and the size fields changing roles.
Here each planner stands as it is written (`Loops`).  Each is `planEntries` at its roles, so the four make one plan up
to the name of a transfer (`four_planners_agree`).
-/
namespace Mito

/-! ## The planners as written -/

/-- `map[e.relative_path] = SyncEntryInfo{e.size, e.mtime}` for each entry. -/
def fillMap (entries : List DirectoryEntry) : Str → Option SyncEntryInfo :=
  entries.foldl (fun map e => Function.update map e.relativePath (some ⟨e.size, e.mtime⟩)) fun _ => none

namespace Loops

def classifyFiles (config : SyncConfig) (loc s3 : Listing) (cancelled : Bool) : List SyncFileEntry × Bool :=
  let localComplete := if loc.aliasOmitted then false else loc.complete
  let enumerationOk := localComplete
  if cancelled then ([], enumerationOk) else
    let localMap := fillMap loc.entries
    let s3Map := fillMap s3.entries
    let entries := loc.entries.map fun e =>
      let entry : SyncFileEntry := { relativePath := e.relativePath, localSize := e.size, localMtime := e.mtime }
      match s3Map e.relativePath with
      | none =>
        { entry with s3Size := -1, action := if e.size ≥ diffUploadThreshold then .uploadDiff else .upload }
      | some it =>
        let entry := { entry with s3Size := it.size }
        let s3Mtime := it.mtime
        if entry.localSize ≠ entry.s3Size then
          { entry with action := if entry.localSize ≥ diffUploadThreshold then .uploadDiff else .upload }
        else if destinationIsCurrent entry.localMtime s3Mtime then { entry with action := .skip }
        else { entry with action := if entry.localSize ≥ diffUploadThreshold then .uploadDiff else .upload }
    let onlyInS3 := (s3.entries.filter fun e => (localMap e.relativePath).isNone).map fun e =>
      ({ relativePath := e.relativePath, localSize := -1, s3Size := e.size, action := .delete } : SyncFileEntry)
    (entries ++ if config.deleteOrphans then onlyInS3 else [], enumerationOk)

def classifyFilesDownload (config : SyncConfig) (s3 : Listing) (localExists : Bool) (loc : Listing)
    (cancelled : Bool) : List SyncFileEntry × Bool :=
  let localEntries := if localExists then loc.entries else []
  let enumerationOk := s3.complete
  if cancelled then ([], enumerationOk) else
    let localMap := fillMap localEntries
    let s3Map := fillMap s3.entries
    let entries := s3.entries.map fun e =>
      let entry : SyncFileEntry := { relativePath := e.relativePath, s3Size := e.size }
      let s3Mtime := e.mtime
      match localMap e.relativePath with
      | none => { entry with localSize := -1, action := .download }
      | some it =>
        let entry := { entry with localSize := it.size, localMtime := it.mtime }
        if entry.localSize ≠ entry.s3Size then
          { entry with action := if entry.s3Size ≥ diffUploadThreshold then .downloadDiff else .download }
        else if destinationIsCurrent s3Mtime entry.localMtime then { entry with action := .skip }
        else { entry with action := if entry.s3Size ≥ diffUploadThreshold then .downloadDiff else .download }
    let onlyInLocal := (localEntries.filter fun e => (s3Map e.relativePath).isNone).map fun e =>
      ({ relativePath := e.relativePath, localSize := e.size, s3Size := -1, action := .delete } : SyncFileEntry)
    (entries ++ if config.deleteOrphans then onlyInLocal else [], enumerationOk)

def classifyFilesS3ToS3 (config : SyncConfig) (source dest : Listing) (cancelled : Bool) :
    List SyncFileEntry × Bool :=
  let enumerationOk := source.complete
  if cancelled then ([], enumerationOk) else
    let sourceMap := fillMap source.entries
    let destMap := fillMap dest.entries
    let entries := source.entries.map fun e =>
      let entry : SyncFileEntry := { relativePath := e.relativePath, s3Size := e.size }
      let srcMtime := e.mtime
      match destMap e.relativePath with
      | none => { entry with destSize := -1, action := .copy }
      | some it =>
        let entry := { entry with destSize := it.size }
        let dstMtime := it.mtime
        if entry.destSize ≠ entry.s3Size then { entry with action := .copy }
        else if destinationIsCurrent srcMtime dstMtime then { entry with action := .skip }
        else { entry with action := .copy }
    let onlyInDest := (dest.entries.filter fun e => (sourceMap e.relativePath).isNone).map fun e =>
      ({ relativePath := e.relativePath, destSize := e.size, s3Size := -1, action := .delete } : SyncFileEntry)
    (entries ++ if config.deleteOrphans then onlyInDest else [], enumerationOk)

def classifyFilesLocalToLocal (config : SyncConfig) (source : Listing) (destExists : Bool) (dest : Listing)
    (cancelled : Bool) : List SyncFileEntry × Bool :=
  let destEntries := if destExists then dest.entries else []
  let sourceComplete := if source.aliasOmitted then false else source.complete
  let enumerationOk := sourceComplete
  if cancelled then ([], enumerationOk) else
    let sourceMap := fillMap source.entries
    let destMap := fillMap destEntries
    let entries := source.entries.map fun e =>
      let entry : SyncFileEntry := { relativePath := e.relativePath, localSize := e.size }
      let srcMtime := e.mtime
      match destMap e.relativePath with
      | none => { entry with destSize := -1, action := .upload }
      | some it =>
        let entry := { entry with destSize := it.size }
        let dstMtime := it.mtime
        if entry.destSize ≠ entry.localSize then { entry with action := .upload }
        else if destinationIsCurrent srcMtime dstMtime then { entry with action := .skip }
        else { entry with action := .upload }
    let onlyInDest := (destEntries.filter fun e => (sourceMap e.relativePath).isNone).map fun e =>
      ({ relativePath := e.relativePath, destSize := e.size, localSize := -1, action := .delete } : SyncFileEntry)
    (entries ++ if config.deleteOrphans then onlyInDest else [], enumerationOk)

end Loops

/-! ## Each is the shared plan at its roles -/

theorem infoMap_concat (es : List DirectoryEntry) (e : DirectoryEntry) :
    infoMap (es ++ [e]) = Function.update (infoMap es) e.relativePath (some ⟨e.size, e.mtime⟩) := by
  funext p
  unfold infoMap
  rw [List.reverse_append, List.reverse_singleton, List.singleton_append, List.find?_cons]
  by_cases hp : e.relativePath = p
  · subst hp
    simp
  · rw [Function.update_of_ne (Ne.symm hp), show (e.relativePath == p) = false by simpa using hp]

theorem fillMap_eq (es : List DirectoryEntry) : fillMap es = infoMap es := by
  induction es using List.reverseRecOn with
  | nil => rfl
  | append_singleton es e ih => rw [infoMap_concat, ← ih, fillMap, fillMap, List.foldl_concat]

/-- Two loops over the same entries, where each entry gets the same line. -/
theorem planEntries_congr {r : Roles} {del : Bool} {src dst : List DirectoryEntry}
    {line orphan : DirectoryEntry → SyncFileEntry} (hline : ∀ e, line e = sourceLine r dst e)
    (horphan : ∀ e, orphan e = orphanLine r e) :
    (src.map line ++ if del then ((dst.filter fun e => (infoMap src e.relativePath).isNone).map orphan) else []) =
      planEntries r del src dst := by
  rw [funext hline, funext horphan]
  rfl

/-- A line built branch by branch, where the sizes may be compared the other way round. -/
theorem line_ite {differ differ' : Prop} [Decidable differ] [Decidable differ'] (h : differ ↔ differ') {current : Bool}
    {update : SyncAction} (line : SyncAction → SyncFileEntry) :
    (if differ then line update else if current then line .skip else line update) =
      line (if differ' then update else if current then .skip else update) := by
  by_cases hd : differ
  · rw [if_pos hd, if_pos (h.1 hd)]
  · rw [if_neg hd, if_neg (fun hd' => hd (h.2 hd'))]
    split <;> rfl

theorem Loops.classifyFiles_eq : Loops.classifyFiles = Mito.classifyFiles := by
  funext config loc s3 cancelled
  unfold Loops.classifyFiles Mito.classifyFiles
  cases cancelled with
  | true => rfl
  | false =>
    simp only [fillMap_eq, Bool.false_eq_true, if_false]
    refine Prod.ext (planEntries_congr (fun e => ?_) fun e => rfl) rfl
    unfold sourceLine sourceAction
    cases infoMap s3.entries e.relativePath with
    | none => rfl
    | some it =>
      exact line_ite Iff.rfl fun action => { uploadRoles.fields e.relativePath (some ⟨e.size, e.mtime⟩) (some it) with action }

theorem Loops.classifyFilesDownload_eq : Loops.classifyFilesDownload = Mito.classifyFilesDownload := by
  funext config s3 localExists loc cancelled
  unfold Loops.classifyFilesDownload Mito.classifyFilesDownload
  cases cancelled with
  | true => rfl
  | false =>
    simp only [fillMap_eq, Bool.false_eq_true, if_false]
    refine Prod.ext (planEntries_congr (fun e => ?_) fun e => rfl) rfl
    unfold sourceLine sourceAction
    cases infoMap (if localExists then loc.entries else []) e.relativePath with
    | none => rfl
    | some it =>
      exact line_ite ne_comm fun action => { downloadRoles.fields e.relativePath (some ⟨e.size, e.mtime⟩) (some it) with action }

theorem Loops.classifyFilesS3ToS3_eq : Loops.classifyFilesS3ToS3 = Mito.classifyFilesS3ToS3 := by
  funext config source dest cancelled
  unfold Loops.classifyFilesS3ToS3 Mito.classifyFilesS3ToS3
  cases cancelled with
  | true => rfl
  | false =>
    simp only [fillMap_eq, Bool.false_eq_true, if_false]
    refine Prod.ext (planEntries_congr (fun e => ?_) fun e => rfl) rfl
    unfold sourceLine sourceAction
    cases infoMap dest.entries e.relativePath with
    | none => rfl
    | some it =>
      exact line_ite ne_comm fun action => { s3ToS3Roles.fields e.relativePath (some ⟨e.size, e.mtime⟩) (some it) with action }

theorem Loops.classifyFilesLocalToLocal_eq : Loops.classifyFilesLocalToLocal = Mito.classifyFilesLocalToLocal := by
  funext config source destExists dest cancelled
  unfold Loops.classifyFilesLocalToLocal Mito.classifyFilesLocalToLocal
  cases cancelled with
  | true => rfl
  | false =>
    simp only [fillMap_eq, Bool.false_eq_true, if_false]
    refine Prod.ext (planEntries_congr (fun e => ?_) fun e => rfl) rfl
    unfold sourceLine sourceAction
    cases infoMap (if destExists then dest.entries else []) e.relativePath with
    | none => rfl
    | some it =>
      exact line_ite ne_comm fun action => { localToLocalRoles.fields e.relativePath (some ⟨e.size, e.mtime⟩) (some it) with action }

/-! ## One plan -/

/-- What a line decides, whatever a transfer is called. -/
inductive Decision
  | transfer | skip | delete
  deriving DecidableEq

def SyncAction.decision : SyncAction → Decision
  | .skip => .skip
  | .delete => .delete
  | .upload | .uploadDiff | .download | .downloadDiff | .copy => .transfer

/-- A line by its sides. -/
structure PlanLine where
  path : Str
  sourceSize : Int
  destSize : Int
  decision : Decision
  deriving DecidableEq

def SyncFileEntry.planLine (direction : SyncDirection) (f : SyncFileEntry) : PlanLine where
  path := f.relativePath
  sourceSize := match direction with
    | .upload | .localToLocal => f.localSize
    | .download | .s3ToS3 => f.s3Size
  destSize := match direction with
    | .upload => f.s3Size
    | .download => f.localSize
    | .s3ToS3 | .localToLocal => f.destSize
  decision := f.action.decision

/-- The planner of a direction, given two complete listings. -/
def planner (direction : SyncDirection) (config : SyncConfig) (src dst : List DirectoryEntry) :
    List SyncFileEntry × Bool :=
  match direction with
  | .upload => Loops.classifyFiles config ⟨src, true, false⟩ ⟨dst, true, false⟩ false
  | .download => Loops.classifyFilesDownload config ⟨src, true, false⟩ true ⟨dst, true, false⟩ false
  | .s3ToS3 => Loops.classifyFilesS3ToS3 config ⟨src, true, false⟩ ⟨dst, true, false⟩ false
  | .localToLocal => Loops.classifyFilesLocalToLocal config ⟨src, true, false⟩ true ⟨dst, true, false⟩ false

/-- A destination directory that does not exist is an empty listing. -/
theorem missing_destination (config : SyncConfig) (src dst : Listing) (cancelled : Bool) :
    Loops.classifyFilesDownload config src false dst cancelled =
      Loops.classifyFilesDownload config src true { dst with entries := [] } cancelled ∧
    Loops.classifyFilesLocalToLocal config src false dst cancelled =
      Loops.classifyFilesLocalToLocal config src true { dst with entries := [] } cancelled := ⟨rfl, rfl⟩

theorem planner_eq (direction : SyncDirection) (config : SyncConfig) (src dst : List DirectoryEntry) :
    planner direction config src dst = (planEntries (rolesOf direction) config.deleteOrphans src dst, true) := by
  cases direction with
  | upload => rw [planner, Loops.classifyFiles_eq]; rfl
  | download => rw [planner, Loops.classifyFilesDownload_eq]; rfl
  | s3ToS3 => rw [planner, Loops.classifyFilesS3ToS3_eq]; rfl
  | localToLocal => rw [planner, Loops.classifyFilesLocalToLocal_eq]; rfl

/-! ## What the plan decides -/

/-- Both sides have the path, of one size and with known times, and the destination's is strictly newer. -/
def Current (src dst : List DirectoryEntry) (path : Str) : Prop :=
  ∃ s ∈ src, ∃ d ∈ dst, s.relativePath = path ∧ d.relativePath = path ∧ 0 < s.mtime ∧ 0 < d.mtime ∧
    s.size = d.size ∧ s.mtime < d.mtime

/-- One destination entry is made older, or of unknown time, or absent. -/
inductive Weakened : List DirectoryEntry → List DirectoryEntry → Prop
  | retimed (pre post : List DirectoryEntry) (e : DirectoryEntry) (mtime : Int) (h : mtime < e.mtime ∨ mtime ≤ 0) :
      Weakened (pre ++ e :: post) (pre ++ { e with mtime } :: post)
  | absent (pre post : List DirectoryEntry) (e : DirectoryEntry) : Weakened (pre ++ e :: post) (pre ++ post)

section Weakening

variable {src dst dst' : List DirectoryEntry}

theorem Weakened.paths (h : Weakened dst dst') :
    (dst'.map DirectoryEntry.relativePath).Sublist (dst.map DirectoryEntry.relativePath) := by
  cases h with
  | retimed pre post e mtime h => simp
  | absent pre post e => exact ((List.sublist_cons_self e post).append_left pre).map _

/-- Each entry of known time that is left was there, and no older. -/
theorem Weakened.entry (h : Weakened dst dst') {d : DirectoryEntry} (hd : d ∈ dst') (hknown : 0 < d.mtime) :
    ∃ d₀ ∈ dst, d₀.relativePath = d.relativePath ∧ d₀.size = d.size ∧ d.mtime ≤ d₀.mtime := by
  have hkept : ∀ (pre post : List DirectoryEntry) (e : DirectoryEntry), d ∈ pre ++ post → d ∈ pre ++ e :: post :=
    fun pre post e hm => ((List.sublist_cons_self e post).append_left pre).subset hm
  cases h with
  | absent pre post e => exact ⟨d, hkept pre post e hd, rfl, rfl, le_refl _⟩
  | retimed pre post e mtime h =>
    rcases List.mem_append.1 hd with hpre | hrest
    · exact ⟨d, hkept pre post e (List.mem_append_left _ hpre), rfl, rfl, le_refl _⟩
    · rcases List.mem_cons.1 hrest with rfl | hpost
      · have holder : mtime ≤ e.mtime := (h.resolve_right (not_le.2 hknown)).le
        exact ⟨e, List.mem_append_right _ List.mem_cons_self, rfl, rfl, holder⟩
      · exact ⟨d, hkept pre post e (List.mem_append_right _ hpost), rfl, rfl, le_refl _⟩

theorem Weakened.current (h : Weakened dst dst') {path : Str} (hc : Current src dst' path) : Current src dst path := by
  obtain ⟨s, hs, d, hd, hsp, hdp, hsm, hdm, hsize, hnewer⟩ := hc
  obtain ⟨d₀, hd₀, hpath, hsize₀, hle⟩ := h.entry hd hdm
  exact ⟨s, hs, d₀, hd₀, hsp, hpath.trans hdp, hsm, hdm.trans_le hle, hsize.trans hsize₀.symm, hnewer.trans_le hle⟩

end Weakening

section Plans

variable {r : Roles} {del : Bool} {src dst : List DirectoryEntry}

theorem SyncAction.decision_skip {a : SyncAction} : a.decision = .skip ↔ a = .skip := by cases a <;> decide

theorem SyncAction.decision_delete {a : SyncAction} : a.decision = .delete ↔ a = .delete := by cases a <;> decide

theorem SyncAction.decision_transfer {a : SyncAction} : a.decision = .transfer ↔ a ≠ .skip ∧ a ≠ .delete := by
  cases a <;> decide

/-- **A source entry is skipped exactly where it is current.** -/
theorem sourceLine_skip (hsrc : (src.map DirectoryEntry.relativePath).Nodup)
    (hdst : (dst.map DirectoryEntry.relativePath).Nodup) {e : DirectoryEntry} (he : e ∈ src) :
    (sourceLine r dst e).action = .skip ↔ Current src dst e.relativePath := by
  rw [sourceLine_action, sourceAction_eq_skip]
  constructor
  · rintro ⟨i, hi, hsize, hcurrent⟩
    obtain ⟨hs, hd, hnewer⟩ := (destinationIsCurrent_iff _ _).1 hcurrent
    exact ⟨e, he, _, infoMap_eq_some hi, rfl, rfl, hs, hd, hsize, hnewer⟩
  · rintro ⟨s, hs, d, hd, hsp, hdp, hsm, hdm, hsize, hnewer⟩
    obtain rfl : s = e := List.inj_on_of_nodup_map hsrc hs he hsp
    refine ⟨⟨d.size, d.mtime⟩, ?_, hsize, (destinationIsCurrent_iff _ _).2 ⟨hsm, hdm, hnewer⟩⟩
    rw [← hdp]
    exact infoMap_of_mem hdst hd

theorem planEntries_decision_delete (path : Str) :
    (∃ f ∈ planEntries r del src dst, f.relativePath = path ∧ f.action.decision = .delete) ↔
      del = true ∧ path ∈ dst.map DirectoryEntry.relativePath ∧ path ∉ src.map DirectoryEntry.relativePath := by
  constructor
  · rintro ⟨f, hf, rfl, hdecision⟩
    exact planEntries_delete hf (SyncAction.decision_delete.1 hdecision)
  · rintro ⟨hdel, hd, hs⟩
    obtain ⟨e, he, rfl⟩ := List.mem_map.1 hd
    exact ⟨orphanLine r e, mem_planEntries.2 (.inr ⟨hdel, e, mem_orphans.2 ⟨he, hs⟩, rfl⟩), orphanLine_path r e, rfl⟩

/-- A line of a source path is skipped where the path is current, and else a transfer; other lines are deletes. -/
theorem planEntries_decision (hsrc : (src.map DirectoryEntry.relativePath).Nodup)
    (hdst : (dst.map DirectoryEntry.relativePath).Nodup) {f : SyncFileEntry} (hf : f ∈ planEntries r del src dst) :
    (f.action.decision = .skip ↔ Current src dst f.relativePath) ∧
    (f.action.decision = .transfer ↔
      f.relativePath ∈ src.map DirectoryEntry.relativePath ∧ ¬ Current src dst f.relativePath) := by
  rw [SyncAction.decision_skip, SyncAction.decision_transfer]
  rcases mem_planEntries.1 hf with ⟨e, he, rfl⟩ | ⟨-, e, he, rfl⟩
  · have hskip := sourceLine_skip (r := r) hsrc hdst he
    have hmem : e.relativePath ∈ src.map DirectoryEntry.relativePath := List.mem_map_of_mem he
    rw [sourceLine_path, ← hskip]
    refine ⟨Iff.rfl, fun h => ⟨hmem, h.1⟩, fun h => ⟨h.2, ?_⟩⟩
    exact sourceAction_ne_delete _ _ _
  · have hnot : e.relativePath ∉ src.map DirectoryEntry.relativePath := (mem_orphans.1 he).2
    rw [orphanLine_path]
    refine ⟨⟨fun h => absurd h (by simp), fun h => ?_⟩, fun h => absurd rfl h.2, fun h => absurd h.1 hnot⟩
    obtain ⟨s, hs, d, -, hsp, -⟩ := h
    exact absurd (hsp ▸ List.mem_map_of_mem hs) hnot

theorem planEntries_count (hsrc : (src.map DirectoryEntry.relativePath).Nodup)
    (hdst : (dst.map DirectoryEntry.relativePath).Nodup) {path : Str}
    (hpath : path ∈ src.map DirectoryEntry.relativePath) :
    ((planEntries r del src dst).map SyncFileEntry.relativePath).count path = 1 := by
  refine List.count_eq_one_of_mem (planEntries_paths_nodup r del hsrc hdst) ?_
  obtain ⟨e, he, rfl⟩ := List.mem_map.1 hpath
  exact List.mem_map.2 ⟨sourceLine r dst e, mem_planEntries.2 (.inl ⟨e, he, rfl⟩), sourceLine_path r dst e⟩

end Plans

/-! ## The four agree -/

/-- The line of a source path, whatever the direction. -/
def sharedLine (dst : List DirectoryEntry) (e : DirectoryEntry) : PlanLine where
  path := e.relativePath
  sourceSize := e.size
  destSize := sizeOr (infoMap dst e.relativePath)
  decision := match infoMap dst e.relativePath with
    | none => .transfer
    | some d => if e.size = d.size ∧ destinationIsCurrent e.mtime d.mtime then .skip else .transfer

theorem sourceLine_decision (r : Roles) (dst : List DirectoryEntry) (e : DirectoryEntry) :
    (sourceLine r dst e).action.decision = (sharedLine dst e).decision := by
  rw [sourceLine_action]
  unfold sharedLine
  cases infoMap dst e.relativePath with
  | none => exact SyncAction.decision_transfer.2 (r.fresh_transfers _)
  | some d =>
    dsimp only
    by_cases hskip : e.size = d.size ∧ destinationIsCurrent e.mtime d.mtime = true
    · rw [if_pos hskip]
      exact SyncAction.decision_skip.2 (sourceAction_eq_skip.2 ⟨d, rfl, hskip⟩)
    · rw [if_neg hskip]
      refine SyncAction.decision_transfer.2 ⟨fun h => hskip ?_, sourceAction_ne_delete _ _ _⟩
      obtain ⟨_, hd, hsame⟩ := sourceAction_eq_skip.1 h
      obtain rfl := Option.some.inj hd
      exact hsame

theorem planLine_sourceLine (direction : SyncDirection) (dst : List DirectoryEntry) (e : DirectoryEntry) :
    (sourceLine (rolesOf direction) dst e).planLine direction = sharedLine dst e := by
  have hdecision := sourceLine_decision (rolesOf direction) dst e
  cases direction <;> exact congrArg (PlanLine.mk _ _ _) hdecision

theorem planLine_orphanLine (direction : SyncDirection) (e : DirectoryEntry) :
    (orphanLine (rolesOf direction) e).planLine direction = ⟨e.relativePath, -1, e.size, .delete⟩ := by
  cases direction <;> rfl

theorem planEntries_planLine (direction : SyncDirection) (del : Bool) (src dst : List DirectoryEntry) :
    (planEntries (rolesOf direction) del src dst).map (SyncFileEntry.planLine direction) =
      src.map (sharedLine dst) ++
        if del then (orphans src dst).map fun e => ⟨e.relativePath, -1, e.size, .delete⟩ else [] := by
  unfold planEntries
  rw [List.map_append, List.map_map]
  cases del with
  | false => exact congrArg (· ++ []) (List.map_congr_left fun e _ => planLine_sourceLine direction dst e)
  | true =>
    rw [if_pos rfl, if_pos rfl, List.map_map]
    exact congrArg₂ (· ++ ·) (List.map_congr_left fun e _ => planLine_sourceLine direction dst e)
      (List.map_congr_left fun e _ => planLine_orphanLine direction e)

/-- **The four planners make one plan**: each source path once, a skip where it is current and else a transfer, a delete
for each path that only the destination has; and what is lost of the destination's listing turns no transfer into either. -/
theorem four_planners_agree (config : SyncConfig) {src dst : List DirectoryEntry}
    (hsrc : (src.map DirectoryEntry.relativePath).Nodup) (hdst : (dst.map DirectoryEntry.relativePath).Nodup) :
    (∀ d d', (planner d config src dst).1.map (SyncFileEntry.planLine d) =
      (planner d' config src dst).1.map (SyncFileEntry.planLine d')) ∧
    ∀ d, (planner d config src dst).2 = true ∧
      (∀ path ∈ src.map DirectoryEntry.relativePath,
        ((planner d config src dst).1.map SyncFileEntry.relativePath).count path = 1) ∧
      (∀ f ∈ (planner d config src dst).1,
        (f.action.decision = .skip ↔ Current src dst f.relativePath) ∧
        (f.action.decision = .transfer ↔
          f.relativePath ∈ src.map DirectoryEntry.relativePath ∧ ¬ Current src dst f.relativePath)) ∧
      (∀ path, (∃ f ∈ (planner d config src dst).1, f.relativePath = path ∧ f.action.decision = .delete) ↔
        config.deleteOrphans = true ∧ path ∈ dst.map DirectoryEntry.relativePath ∧
          path ∉ src.map DirectoryEntry.relativePath) ∧
      ∀ dst', Weakened dst dst' → ∀ f ∈ (planner d config src dst).1, f.action.decision = .transfer →
        ∀ f' ∈ (planner d config src dst').1, f'.relativePath = f.relativePath → f'.action.decision = .transfer := by
  simp only [planner_eq]
  refine ⟨fun d d' => (planEntries_planLine d _ src dst).trans (planEntries_planLine d' _ src dst).symm, fun d =>
    ⟨trivial, fun path hpath => planEntries_count hsrc hdst hpath, fun f hf => planEntries_decision hsrc hdst hf,
      planEntries_decision_delete, fun dst' hweak f hf htransfer f' hf' hpath => ?_⟩⟩
  obtain ⟨hmem, hcurrent⟩ := (planEntries_decision hsrc hdst hf).2.1 htransfer
  refine (planEntries_decision hsrc (hdst.sublist hweak.paths) hf').2.2 ?_
  rw [hpath]
  exact ⟨hmem, fun hc => hcurrent (hweak.current hc)⟩

/-- A file edited in place, one that is current and one that only the destination has. -/
theorem four_planners_agree_three : (planner .download { deleteOrphans := true }
    [⟨"a".toList, 5, 20⟩, ⟨"b".toList, 5, 20⟩] [⟨"a".toList, 5, 20⟩, ⟨"b".toList, 5, 21⟩, ⟨"c".toList, 1, 1⟩]).1.map
      (SyncFileEntry.planLine .download) =
    [⟨"a".toList, 5, 5, .transfer⟩, ⟨"b".toList, 5, 5, .skip⟩, ⟨"c".toList, -1, 1, .delete⟩] := by
  refine ((four_planners_agree { deleteOrphans := true } ?_ ?_).1 .download .upload).trans ?_
  · decide +kernel
  · decide +kernel
  · decide +kernel

end Mito
