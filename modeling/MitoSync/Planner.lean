import MitoSync.Basic
/-!
# Planner — from two listings to a plan

The four classifiers of `sync_task.cpp`.  They make one decision and differ in which size field holds which side and in
the action a transfer is called, so each is `planEntries` at its own `Roles`.  What a plan says about a path is read off
the two lookups (`mem_planEntries`), and the facts the executors need follow: its paths are distinct
(`planEntries_paths_nodup`), a delete is of a path the source listing lacks (`planEntries_delete`), and a skip is of a
path whose two sides agree on size and whose destination is strictly newer (`planEntries_skip`).
-/
namespace Mito

/-- True when the destination can be proven no older than the source. -/
def destinationIsCurrent (sourceMtime destMtime : Int) : Bool :=
  if sourceMtime ≤ 0 ∨ destMtime ≤ 0 then false else decide (destMtime > sourceMtime)

theorem destinationIsCurrent_iff (s d : Int) : destinationIsCurrent s d = true ↔ 0 < s ∧ 0 < d ∧ s < d := by
  unfold destinationIsCurrent
  split
  · simp only [Bool.false_eq_true, false_iff]; omega
  · simp only [decide_eq_true_eq]; omega

/-- The `unordered_map` a classifier fills from a listing: the last entry of a path is the one kept. -/
def infoMap (es : List DirectoryEntry) (p : Str) : Option SyncEntryInfo :=
  (es.reverse.find? (fun e => e.relativePath == p)).map (fun e => ⟨e.size, e.mtime⟩)

theorem infoMap_eq_none {es : List DirectoryEntry} {p : Str} :
    infoMap es p = none ↔ p ∉ es.map DirectoryEntry.relativePath := by
  simp [infoMap, List.find?_eq_none]

theorem infoMap_eq_some {es : List DirectoryEntry} {p : Str} {i : SyncEntryInfo} (h : infoMap es p = some i) :
    ⟨p, i.size, i.mtime⟩ ∈ es := by
  obtain ⟨e, he, rfl⟩ := Option.map_eq_some_iff.1 h
  have hp : e.relativePath = p := by simpa using List.find?_some he
  have hm : e ∈ es := List.mem_reverse.1 (List.mem_of_find?_eq_some he)
  rw [← hp]
  exact hm

/-- With one entry a path, the lookup of a listed entry is that entry. -/
theorem infoMap_of_mem {es : List DirectoryEntry} (hn : (es.map DirectoryEntry.relativePath).Nodup)
    {e : DirectoryEntry} (he : e ∈ es) : infoMap es e.relativePath = some ⟨e.size, e.mtime⟩ := by
  cases h : infoMap es e.relativePath with
  | none => exact absurd (List.mem_map.2 ⟨e, he, rfl⟩) (infoMap_eq_none.1 h)
  | some i =>
    have hi := infoMap_eq_some h
    have := List.inj_on_of_nodup_map hn hi he rfl
    rw [← this]

/-! ## One decision, four sets of roles -/

/-- How a direction writes a plan's line: the action of a transfer, by the source's size, for a path the destination
lacks (`fresh`) and for one it has (`update`), and the size fields.  No transfer is a skip or a delete. -/
structure Roles where
  fresh : Int → SyncAction
  update : Int → SyncAction
  fields : Str → Option SyncEntryInfo → Option SyncEntryInfo → SyncFileEntry
  fresh_transfers : ∀ n, fresh n ≠ .skip ∧ fresh n ≠ .delete
  update_transfers : ∀ n, update n ≠ .skip ∧ update n ≠ .delete
  fields_path : ∀ p s d, (fields p s d).relativePath = p

def sizeOr (i : Option SyncEntryInfo) : Int := (i.map SyncEntryInfo.size).getD (-1)

/-- Local to S3: a large file goes up as a diff whether or not the destination has it. -/
def uploadRoles : Roles where
  fresh n := if n ≥ diffUploadThreshold then .uploadDiff else .upload
  update n := if n ≥ diffUploadThreshold then .uploadDiff else .upload
  fields p s d := { relativePath := p, localSize := sizeOr s, s3Size := sizeOr d,
                    localMtime := (s.map SyncEntryInfo.mtime).getD 0 }
  fresh_transfers n := by split <;> simp
  update_transfers n := by split <;> simp
  fields_path _ _ _ := rfl

/-- S3 to local: a path the destination lacks has nothing to diff against, whatever its size. -/
def downloadRoles : Roles where
  fresh _ := .download
  update n := if n ≥ diffUploadThreshold then .downloadDiff else .download
  fields p s d := { relativePath := p, localSize := sizeOr d, s3Size := sizeOr s,
                    localMtime := match s, d with | some _, some d => d.mtime | _, _ => 0 }
  fresh_transfers _ := by simp
  update_transfers n := by split <;> simp
  fields_path _ _ _ := rfl

def s3ToS3Roles : Roles where
  fresh _ := .copy
  update _ := .copy
  fields p s d := { relativePath := p, s3Size := sizeOr s, destSize := sizeOr d }
  fresh_transfers _ := by simp
  update_transfers _ := by simp
  fields_path _ _ _ := rfl

/-- Local to local reuses `Upload` for a copy. -/
def localToLocalRoles : Roles where
  fresh _ := .upload
  update _ := .upload
  fields p s d := { relativePath := p, localSize := sizeOr s, destSize := sizeOr d }
  fresh_transfers _ := by simp
  update_transfers _ := by simp
  fields_path _ _ _ := rfl

/-- The action of a source entry against what the destination's map has for its path. -/
def sourceAction (r : Roles) (e : DirectoryEntry) : Option SyncEntryInfo → SyncAction
  | none => r.fresh e.size
  | some d =>
    if e.size ≠ d.size then r.update e.size
    else if destinationIsCurrent e.mtime d.mtime then .skip
    else r.update e.size

def sourceLine (r : Roles) (dst : List DirectoryEntry) (e : DirectoryEntry) : SyncFileEntry :=
  { r.fields e.relativePath (some ⟨e.size, e.mtime⟩) (infoMap dst e.relativePath) with
    action := sourceAction r e (infoMap dst e.relativePath) }

def orphanLine (r : Roles) (e : DirectoryEntry) : SyncFileEntry :=
  { r.fields e.relativePath none (some ⟨e.size, e.mtime⟩) with action := .delete }

/-- The destination entries whose path the source's map lacks. -/
def orphans (src dst : List DirectoryEntry) : List DirectoryEntry :=
  dst.filter (fun e => (infoMap src e.relativePath).isNone)

def planEntries (r : Roles) (deleteOrphans : Bool) (src dst : List DirectoryEntry) : List SyncFileEntry :=
  src.map (sourceLine r dst) ++ if deleteOrphans then (orphans src dst).map (orphanLine r) else []

/-! ## The classifiers

Each returns its plan and `enumeration_ok`.  Only the source side gates the sync. -/

def classifyFiles (config : SyncConfig) (loc s3 : Listing) (cancelled : Bool) : List SyncFileEntry × Bool :=
  -- an omitted alias leaves paths out of the source list, so it counts as incomplete
  let localComplete := if loc.aliasOmitted then false else loc.complete
  (if cancelled then [] else planEntries uploadRoles config.deleteOrphans loc.entries s3.entries, localComplete)

/-- The destination is listed only where `fs::exists(local_path)`. -/
def classifyFilesDownload (config : SyncConfig) (s3 : Listing) (localExists : Bool) (loc : Listing)
    (cancelled : Bool) : List SyncFileEntry × Bool :=
  let localEntries := if localExists then loc.entries else []
  (if cancelled then [] else planEntries downloadRoles config.deleteOrphans s3.entries localEntries, s3.complete)

def classifyFilesS3ToS3 (config : SyncConfig) (source dest : Listing) (cancelled : Bool) :
    List SyncFileEntry × Bool :=
  (if cancelled then [] else planEntries s3ToS3Roles config.deleteOrphans source.entries dest.entries,
    source.complete)

def classifyFilesLocalToLocal (config : SyncConfig) (source : Listing) (destExists : Bool) (dest : Listing)
    (cancelled : Bool) : List SyncFileEntry × Bool :=
  let destEntries := if destExists then dest.entries else []
  let sourceComplete := if source.aliasOmitted then false else source.complete
  (if cancelled then [] else planEntries localToLocalRoles config.deleteOrphans source.entries destEntries,
    sourceComplete)

def rolesOf : SyncDirection → Roles
  | .upload => uploadRoles
  | .download => downloadRoles
  | .s3ToS3 => s3ToS3Roles
  | .localToLocal => localToLocalRoles

/-! ## What a plan says of a path -/

@[simp] theorem sourceLine_path (r : Roles) (dst : List DirectoryEntry) (e : DirectoryEntry) :
    (sourceLine r dst e).relativePath = e.relativePath := r.fields_path _ _ _

@[simp] theorem sourceLine_action (r : Roles) (dst : List DirectoryEntry) (e : DirectoryEntry) :
    (sourceLine r dst e).action = sourceAction r e (infoMap dst e.relativePath) := rfl

@[simp] theorem orphanLine_path (r : Roles) (e : DirectoryEntry) :
    (orphanLine r e).relativePath = e.relativePath := r.fields_path _ _ _

@[simp] theorem orphanLine_action (r : Roles) (e : DirectoryEntry) : (orphanLine r e).action = .delete := rfl

theorem sourceAction_ne_delete (r : Roles) (e : DirectoryEntry) (d : Option SyncEntryInfo) :
    sourceAction r e d ≠ .delete := by
  unfold sourceAction
  split
  · exact (r.fresh_transfers _).2
  · split
    · exact (r.update_transfers _).2
    · split
      · simp
      · exact (r.update_transfers _).2

theorem sourceAction_eq_skip {r : Roles} {e : DirectoryEntry} {d : Option SyncEntryInfo} :
    sourceAction r e d = .skip ↔
      ∃ i, d = some i ∧ e.size = i.size ∧ destinationIsCurrent e.mtime i.mtime = true := by
  unfold sourceAction
  split
  · simp [(r.fresh_transfers e.size).1]
  · rename_i i
    by_cases hs : e.size = i.size
    · cases hc : destinationIsCurrent e.mtime i.mtime <;> simp [hs, hc, (r.update_transfers i.size).1]
    · simp [hs, (r.update_transfers e.size).1]

theorem mem_orphans {src dst : List DirectoryEntry} {e : DirectoryEntry} :
    e ∈ orphans src dst ↔ e ∈ dst ∧ e.relativePath ∉ src.map DirectoryEntry.relativePath := by
  unfold orphans
  rw [List.mem_filter, Option.isNone_iff_eq_none, infoMap_eq_none]

theorem mem_planEntries {r : Roles} {del : Bool} {src dst : List DirectoryEntry} {f : SyncFileEntry} :
    f ∈ planEntries r del src dst ↔
      (∃ e ∈ src, f = sourceLine r dst e) ∨ (del = true ∧ ∃ e ∈ orphans src dst, f = orphanLine r e) := by
  unfold planEntries
  cases del <;> simp [eq_comm]

/-- **A delete is of a destination path the source listing lacks**, and only under the flag. -/
theorem planEntries_delete {r : Roles} {del : Bool} {src dst : List DirectoryEntry} {f : SyncFileEntry}
    (hf : f ∈ planEntries r del src dst) (ha : f.action = .delete) :
    del = true ∧ f.relativePath ∈ dst.map DirectoryEntry.relativePath ∧
      f.relativePath ∉ src.map DirectoryEntry.relativePath := by
  rcases mem_planEntries.1 hf with ⟨e, -, rfl⟩ | ⟨hd, e, he, rfl⟩
  · exact absurd ha (sourceAction_ne_delete _ _ _)
  · rw [orphanLine_path]
    obtain ⟨hm, hn⟩ := mem_orphans.1 he
    exact ⟨hd, List.mem_map.2 ⟨e, hm, rfl⟩, hn⟩

/-- **Any other line is of a source entry**, with the action the entry and the destination's map give. -/
theorem planEntries_source {r : Roles} {del : Bool} {src dst : List DirectoryEntry} {f : SyncFileEntry}
    (hf : f ∈ planEntries r del src dst) (ha : f.action ≠ .delete) : ∃ e ∈ src, f = sourceLine r dst e := by
  rcases mem_planEntries.1 hf with h | ⟨-, e, -, rfl⟩
  · exact h
  · exact absurd rfl ha

theorem planEntries_skip {r : Roles} {del : Bool} {src dst : List DirectoryEntry} {f : SyncFileEntry}
    (hf : f ∈ planEntries r del src dst) (ha : f.action = .skip) :
    ∃ e ∈ src, f = sourceLine r dst e ∧ ∃ i, infoMap dst e.relativePath = some i ∧ e.size = i.size ∧
      destinationIsCurrent e.mtime i.mtime = true := by
  obtain ⟨e, he, rfl⟩ := planEntries_source hf (by rw [ha]; simp)
  exact ⟨e, he, rfl, sourceAction_eq_skip.1 ha⟩

/-- **Every path is planned at most once**, when neither listing repeats one. -/
theorem planEntries_paths_nodup (r : Roles) (del : Bool) {src dst : List DirectoryEntry}
    (hs : (src.map DirectoryEntry.relativePath).Nodup) (hd : (dst.map DirectoryEntry.relativePath).Nodup) :
    ((planEntries r del src dst).map SyncFileEntry.relativePath).Nodup := by
  have hsrc : (src.map (sourceLine r dst)).map SyncFileEntry.relativePath = src.map DirectoryEntry.relativePath := by
    simp [List.map_map, Function.comp_def]
  have horph : ((orphans src dst).map (orphanLine r)).map SyncFileEntry.relativePath =
      (orphans src dst).map DirectoryEntry.relativePath := by
    simp [List.map_map, Function.comp_def]
  unfold planEntries
  rw [List.map_append, hsrc]
  cases del with
  | false => simpa using hs
  | true =>
    simp only [if_true]
    rw [horph, List.nodup_append]
    refine ⟨hs, hd.sublist (List.filter_sublist.map _), ?_⟩
    rintro p hp q hq rfl
    obtain ⟨e, he, rfl⟩ := List.mem_map.1 hq
    exact (mem_orphans.1 he).2 hp

end Mito
