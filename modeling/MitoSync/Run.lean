import MitoSync.Sync
import MitoSync.Lib.Pool
/-!
# Run — a run of `run_sync` on a destination

A destination is a map from keys to entries: an object's key, or a file's path below the local root.  The lines of a
plan name distinct keys, so they work on disjoint parts of it (`slots`) and the execution is a pool of their programs.
`Runs` is every state a run of `run_sync` passes through, with what it has returned if it has.
-/
namespace Mito

open Lib Prog

/-- The source, a file or an object a path. -/
structure SourceFile where
  bytes : Bytes
  mtime : Int
  isLink : Bool := false
  deriving DecidableEq

abbrev Source := Str → Option SourceFile

/-- What a line's executor has besides its destination. -/
structure TaskLocal where
  temp : Option Stored := none
  uploads : List MultipartUpload := []
  parent : Bool := true
  seen : Bool := false

structure World where
  store : Str → Option Stored
  locals : Nat → TaskLocal

def destRoot (config : SyncConfig) : Str :=
  match config.direction with
  | .upload | .s3ToS3 => config.destination.path
  | .download => config.localPath
  | .localToLocal => config.destLocalPath

/-- The key of a path's destination. -/
def destKey (config : SyncConfig) (path : Str) : Str := makeS3Key (destRoot config) path

def slotOf (config : SyncConfig) (files : List SyncFileEntry) (i : Fin files.length) (w : World) : Slot where
  entry := w.store (destKey config files[i].relativePath)
  temp := (w.locals i).temp
  uploads := (w.locals i).uploads
  parent := (w.locals i).parent
  seen := (w.locals i).seen

def putSlot (config : SyncConfig) (files : List SyncFileEntry) (i : Fin files.length) (s : Slot) (w : World) :
    World where
  store := Function.update w.store (destKey config files[i].relativePath) s.entry
  locals := Function.update w.locals i ⟨s.temp, s.uploads, s.parent, s.seen⟩

theorem destKey_ne {config : SyncConfig} {files : List SyncFileEntry}
    (hn : (files.map SyncFileEntry.relativePath).Nodup) {i j : Fin files.length} (hij : i ≠ j) :
    destKey config files[j].relativePath ≠ destKey config files[i].relativePath := by
  intro h
  have hp : files[j].relativePath = files[i].relativePath := makeS3Key_inj h
  have hi : i.val < (files.map SyncFileEntry.relativePath).length := by rw [List.length_map]; exact i.isLt
  have hj : j.val < (files.map SyncFileEntry.relativePath).length := by rw [List.length_map]; exact j.isLt
  have := (@List.Nodup.getElem_inj_iff _ _ hn _ hj _ hi).1 (by simpa using hp)
  exact hij (Fin.ext this.symm)

/-- The parts of the world the lines work on, disjoint where their paths are distinct. -/
def slots (config : SyncConfig) (files : List SyncFileEntry) (hn : (files.map SyncFileEntry.relativePath).Nodup) :
    View (Fin files.length) World Slot where
  view := slotOf config files
  put := putSlot config files
  view_put i s w := by simp [slotOf, putSlot]
  view_put_ne i j s w hij := by
    have hv : (j : Nat) ≠ i := fun h => hij (Fin.ext h.symm)
    simp only [slotOf, putSlot, Function.update_of_ne (destKey_ne hn hij), Function.update_of_ne hv]

/-- The environment of a line: its source's bytes, and what the run's requests may do. -/
structure Setting where
  source : Source
  crc : Bytes → UInt32
  stamp : Int → Prop
  mode : Mode

def Setting.env (S : Setting) (path : Str) : Env where
  source := ((S.source path).map SourceFile.bytes).getD []
  sourceIsLink := ((S.source path).map SourceFile.isLink).getD false
  crc := S.crc
  stamp := S.stamp
  mode := S.mode

/-- An execution of a plan, from the world `w` to some point of it. -/
def Executes (S : Setting) (limits : Limits) (config : SyncConfig) (files : List SyncFileEntry)
    (hn : (files.map SyncFileEntry.relativePath).Nodup) (w : World)
    (y : (Fin files.length → Exec Outcome) × World) : Prop :=
  Pool.Steps (slots config files hn) (fun i => exec (S.env files[i].relativePath))
    (fun i => processEntry limits config files[i], w) y

/-- `progress.cancelled` at the end of a run, set if any line saw it set. -/
def CancelledAtEnd (files : List SyncFileEntry) (w : World) (cancelled : Bool) : Prop :=
  ∀ i : Fin files.length, (w.locals i).seen = true → cancelled = true

/-- Before the execution no line has a temporary, an upload or a cancellation of its own. -/
def Fresh (w : World) : Prop := ∀ i, (w.locals i).temp = none ∧ (w.locals i).uploads = [] ∧ (w.locals i).seen = false

/-- **Every state of a run**, with `result.success` where it has returned. -/
inductive Runs (S : Setting) (limits : Limits) (config : SyncConfig) (scan : Scan) (w : World) :
    Option Bool → World → Prop
  | refused {message : String} (h : planRun config scan = .error message) : Runs S limits config scan w (some false) w
  | dry {files : List SyncFileEntry} (h : planRun config scan = .ok files) (hd : config.dryRun = true)
      (cancelled : Bool) : Runs S limits config scan w (some !cancelled) w
  | running {files : List SyncFileEntry} (h : planRun config scan = .ok files) (hd : config.dryRun = false)
      (hn : ((actionable files).map SyncFileEntry.relativePath).Nodup)
      {y : (Fin (actionable files).length → Exec Outcome) × World}
      (hy : Executes S limits config (actionable files) hn w y) : Runs S limits config scan w none y.2
  | returned {files : List SyncFileEntry} (h : planRun config scan = .ok files) (hd : config.dryRun = false)
      (hn : ((actionable files).map SyncFileEntry.relativePath).Nodup)
      {y : (Fin (actionable files).length → Exec Outcome) × World}
      (hy : Executes S limits config (actionable files) hn w y) {outcome : Fin (actionable files).length → Outcome}
      (ho : ∀ i, y.1 i = .ret (outcome i)) {cancelled : Bool} (hc : CancelledAtEnd (actionable files) y.2 cancelled) :
      Runs S limits config scan w (some (!cancelled && decide (∀ i, outcome i ≠ .failed))) y.2

/-- **A run that reports success** executed its whole plan: no line failed and none saw a cancellation. -/
theorem runs_success {S : Setting} {limits : Limits} {config : SyncConfig} {scan : Scan} {w w' : World}
    (hd : config.dryRun = false) (h : Runs S limits config scan w (some true) w') :
    ∃ files, planRun config scan = .ok files ∧ ∃ hn y, Executes S limits config (actionable files) hn w y ∧ w' = y.2 ∧
      ∀ i, ∃ o, y.1 i = .ret o ∧ o ≠ .failed ∧ (y.2.locals i).seen = false := by
  generalize hr : some true = r at h
  cases h with
  | refused _ => exact absurd hr (by simp)
  | dry _ hdry _ => rw [hd] at hdry; exact absurd hdry (by simp)
  | running _ _ _ _ => exact absurd hr (by simp)
  | @returned files hp _ hn y hy outcome ho cancelled hc =>
    rw [Option.some.injEq, eq_comm, Bool.and_eq_true, Bool.not_eq_true', decide_eq_true_eq] at hr
    refine ⟨files, hp, hn, y, hy, rfl, fun i => ⟨outcome i, ho i, hr.2 i, ?_⟩⟩
    cases hs : (y.2.locals i).seen with
    | false => rfl
    | true => rw [hc i hs] at hr; exact absurd hr.1 (by simp)

/-! ## A line alone -/

/-- **A run changes only the keys of its lines.** -/
theorem executes_frame {S : Setting} {limits : Limits} {config : SyncConfig} {files : List SyncFileEntry}
    {hn : (files.map SyncFileEntry.relativePath).Nodup} {w : World}
    {y : (Fin files.length → Exec Outcome) × World} (h : Executes S limits config files hn w y) {k : Str}
    (hk : ∀ f ∈ files, destKey config f.relativePath ≠ k) : y.2.store k = w.store k := by
  apply Pool.steps_frame (f := fun w : World => w.store k) _ h
  intro i s w
  exact Function.update_of_ne (hk _ (List.getElem_mem _)).symm _ _

theorem executes_solo {S : Setting} {limits : Limits} {config : SyncConfig} {files : List SyncFileEntry}
    (hn : (files.map SyncFileEntry.relativePath).Nodup) {w : World} {i : Fin files.length} {z : Exec Outcome × Slot}
    (h : Steps (exec (S.env files[i].relativePath)) (processEntry limits config files[i], slotOf config files i w) z) :
    ∃ y, Executes S limits config files hn w y ∧ y.1 i = z.1 ∧ slotOf config files i y.2 = z.2 := by
  have hl : ∃ y, Executes S limits config files hn w y ∧ (y.1 i, slotOf config files i y.2) = z ∧
      ∀ j, j ≠ i → y.1 j = processEntry limits config files[j] := Pool.steps_lift h
  obtain ⟨y, hy, rfl, -⟩ := hl
  exact ⟨y, hy, rfl, rfl⟩

/-- **A plan of one line runs as that line does**, and changes its key only. -/
theorem executes_one {S : Setting} {limits : Limits} {config : SyncConfig} {files : List SyncFileEntry}
    {f : SyncFileEntry} (hf : files = [f]) (hn : (files.map SyncFileEntry.relativePath).Nodup) {w : World}
    {z : Exec Outcome × Slot}
    (h : Steps (exec (S.env f.relativePath)) (processEntry limits config f,
      ⟨w.store (destKey config f.relativePath), (w.locals 0).temp, (w.locals 0).uploads, (w.locals 0).parent,
        (w.locals 0).seen⟩) z) :
    ∃ y, Executes S limits config files hn w y ∧ (∀ i, y.1 i = z.1 ∧ (y.2.locals i).seen = z.2.seen) ∧
      y.2.store = Function.update w.store (destKey config f.relativePath) z.2.entry := by
  subst hf
  have hzero : ∀ i : Fin [f].length, i = ⟨0, Nat.one_pos⟩ := fun i => Fin.ext (Nat.lt_one_iff.1 i.isLt)
  obtain ⟨y, hy, hret, hslot⟩ := executes_solo (i := ⟨0, Nat.one_pos⟩) hn h
  refine ⟨y, hy, fun i => ?_, ?_⟩
  · rw [hzero i]
    exact ⟨hret, congrArg Slot.seen hslot⟩
  · funext k
    by_cases hk : k = destKey config f.relativePath
    · rw [hk, Function.update_self]
      exact congrArg Slot.entry hslot
    · rw [Function.update_of_ne hk]
      apply executes_frame hy
      intro g hg
      rw [List.mem_singleton.1 hg]
      exact Ne.symm hk

section Solo

variable {S : Setting} {limits : Limits} {config : SyncConfig} {scan : Scan} {files : List SyncFileEntry}
  {f : SyncFileEntry} (hp : planRun config scan = .ok files) (hd : config.dryRun = false) (hf : actionable files = [f])
  {w : World}

include hp hd hf

theorem runs_solo_killed {z : Exec Outcome × Slot}
    (h : Steps (exec (S.env f.relativePath)) (processEntry limits config f,
      ⟨w.store (destKey config f.relativePath), (w.locals 0).temp, (w.locals 0).uploads, (w.locals 0).parent,
        (w.locals 0).seen⟩) z) :
    ∃ w', Runs S limits config scan w none w' ∧
      w'.store = Function.update w.store (destKey config f.relativePath) z.2.entry := by
  have hn : ((actionable files).map SyncFileEntry.relativePath).Nodup := by rw [hf]; simp
  obtain ⟨y, hy, -, hstore⟩ := executes_one hf hn h
  exact ⟨y.2, .running hp hd hn hy, hstore⟩

theorem runs_solo {o : Outcome} {s' : Slot}
    (h : Steps (exec (S.env f.relativePath)) (processEntry limits config f,
      ⟨w.store (destKey config f.relativePath), (w.locals 0).temp, (w.locals 0).uploads, (w.locals 0).parent,
        (w.locals 0).seen⟩) (.ret o, s')) (hs : s'.seen = false) :
    ∃ w', Runs S limits config scan w (some (decide (o ≠ .failed))) w' ∧
      w'.store = Function.update w.store (destKey config f.relativePath) s'.entry := by
  have hn : ((actionable files).map SyncFileEntry.relativePath).Nodup := by rw [hf]; simp
  obtain ⟨y, hy, hall, hstore⟩ := executes_one hf hn h
  have hseen : CancelledAtEnd (actionable files) y.2 false := fun i hi => ((hall i).2.trans hs).symm.trans hi
  refine ⟨y.2, ?_, hstore⟩
  have hr : Runs S limits config scan w _ y.2 := .returned hp hd hn hy (fun i => (hall i).1) hseen
  have hiff : decide (∀ _ : Fin (actionable files).length, o ≠ .failed) = decide (o ≠ .failed) :=
    decide_eq_decide.2 ⟨fun h => h ⟨0, by rw [hf]; exact Nat.one_pos⟩, fun h _ => h⟩
  rw [hiff] at hr
  exact hr

end Solo

end Mito
