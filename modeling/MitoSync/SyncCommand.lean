import MitoSync.CliArgs
import MitoSync.Containment
import MitoSync.Run
/-!
# SyncCommand — `mito sync`, from its words to its exit code

What `run_sync_command` does with the words it is given before it starts `run_sync` — it parses and checks them, makes
the destination of a download, and opens the metrics in the application's data directory — and what it makes of the
result.  A command ends with an exit code, a tree with the directories it made before its run, the places where it
wrote, replaced or removed an entry outside its run, and the destination as `Runs` leaves it.
-/
namespace Mito

open Lib Files

/-! ## Before the run -/

/-- What the words after `mito sync` ask for. -/
def syncOptions (args : List Str) : SyncCliOptions := (parseSyncWords args {}).toSyncCliOptions

/-- The machine the command runs on.  In a directory that is read-only no entry can be made or removed. -/
structure Host where
  files : Files
  readOnly : Loc → Bool
  xdgDataHome : Option Str
  /-- the user's home, empty where it cannot be found -/
  home : Str
  /-- the threads that the limit on file descriptors leaves of those asked for -/
  maxSafeThreads : Int → Int

def Host.refused (host : Host) (l : Loc) : Bool := host.readOnly l.dropLast

def requiredArguments (o : SyncCliOptions) : Bool :=
  if o.direction = .s3ToS3 then o.hasS3Source && o.hasS3Dest else o.hasLocal && o.hasS3Source

/-- `fs::is_directory`. -/
def isDirectory (fs : Files) (p : Str) : Bool :=
  match canonical fs p with
  | some l => isDir (fs.node l)
  | none => false

/-- The local path's check, with the destination of a download made where there is none; or the exit code.  An error
of `create_directories` is that the directory is not there after it. -/
def preparePath (host : Host) (o : SyncCliOptions) : Except (Nat × Files) Files :=
  match o.direction with
  | .upload => if isDirectory host.files o.localPath then .ok host.files else .error (2, host.files)
  | .download =>
    if !pathExists host.files o.localPath then
      let made := createDirectories host.refused host.files o.localPath
      if isDirectory made o.localPath then .ok made else .error (1, made)
    else if isDirectory host.files o.localPath then .ok host.files
    else .error (2, host.files)
  | _ => .ok host.files

/-- `mkdirRecursive`: a `mkdir` for each part of a path, whatever comes of it. -/
def mkdirRecursive (refused : Loc → Bool) (start : Loc) (fs : Files) (done : List Name) : List Name → Files
  | [] => fs
  | x :: xs =>
    mkdirRecursive refused start ((createDirectory fs refused start done x).getD fs) (done ++ [x]) xs

/-- `GetAppDataDirectory`, its name. -/
def appDataDirectory (host : Host) : Str :=
  match host.xdgDataHome with
  | some (c :: xdg) => c :: xdg ++ "/mitosync".toList
  | _ => if host.home = [] then ['.'] else host.home ++ "/.local/share/mitosync".toList

/-- `CloudMetrics::load`: the tree with the data directory in it. -/
def loadMetrics (host : Host) (fs : Files) : Files :=
  mkdirRecursive host.refused (startAt fs.cwd (appDataDirectory host)) fs [] (names (appDataDirectory host))

def metricsFile : Name := "cloud_metrics.json".toList

/-- The names `CloudMetrics::save` writes, replaces or removes: its file, and temporary ones beside it. -/
def metricsName (x : Name) : Prop := x = metricsFile ∨ (metricsFile ++ ".tmp.".toList) <+: x

/-- What `CloudMetrics::save` may touch, however far it gets. -/
def SavesMetrics (host : Host) (fs : Files) (wrote : List Loc) : Prop :=
  wrote = [] ∨ ∃ d, canonical fs (appDataDirectory host) = some d ∧ isDir (fs.node d) = true ∧ host.readOnly d = false ∧
    ∃ xs : List Name, wrote = xs.map (fun x => d ++ [x]) ∧
      ∀ x ∈ xs, metricsName x ∧ isDir (fs.node (d ++ [x])) = false

/-! ## The sweep of temporary files -/

/-- What `kill` answers about the process in a temporary file's name. -/
inductive OwnerAns
  | alive | gone | failed (reason : String)

/-- `process_exists`, and its error. -/
def processExists (pid : Nat) : OwnerAns → Bool × Option String
  | .alive => (true, none)
  | .gone => (false, none)
  | .failed reason => (true, some ("could not check owner process " ++ toString pid ++ ": " ++ reason))

/-- What the iterator finds under the roots. -/
structure FoundEntry where
  place : Loc
  path : String
  name : Str
  regular : Bool := true
  owner : OwnerAns := .gone
  unlinkError : Option String := none

def tempSuffix : Str := ".mito-tmp".toList

def isSyncTempName (name : Str) : Bool :=
  tempSuffix.length < name.length && name.head? = some '.' && tempSuffix.isSuffixOf name

def parseSyncTempPid (name : Str) : Option Nat := do
  guard (isSyncTempName name)
  let body := name.take (name.length - tempSuffix.length)
  let (before, counter) ← splitLast '-' body
  guard (counter ≠ [])
  let (stem, pid) ← splitLast '-' before
  guard (1 < stem.length ∧ pid ≠ [])
  guard (pid.all Char.isDigit ∧ counter.all Char.isDigit)
  guard (0 < decimal pid ∧ decimal pid ≤ 2147483647)
  return decimal pid

/-- The temporary files that are removed, and the error the sweep ends with.  `TempSweepMode::RefuseOrphans` is
`refuse`. -/
def sweepLocalSyncTemps (refuse : Bool) : List FoundEntry → List Loc × Option String
  | [] => ([], none)
  | e :: es =>
    if !isSyncTempName e.name then sweepLocalSyncTemps refuse es
    else
      match parseSyncTempPid e.name with
      | none => ([], some ("Refusing to sync with an unrecognized temporary sync file present: " ++ e.path))
      | some pid =>
        if !e.regular then ([], some ("Refusing to remove non-regular temporary sync entry: " ++ e.path))
        else
          match processExists pid e.owner with
          | (true, none) => ([], some ("Refusing to sync while another process owns temporary sync file: " ++ e.path))
          | (true, some m) => ([], some ("Refusing to sync because " ++ m ++ " for " ++ e.path))
          | (false, _) =>
            if refuse then ([], some ("Refusing to sync with orphaned temporary sync file present: " ++ e.path))
            else
              match e.unlinkError with
              | some m => ([], some ("Failed to remove orphaned temporary sync file " ++ e.path ++ ": " ++ m))
              | none => (e.place :: (sweepLocalSyncTemps refuse es).1, (sweepLocalSyncTemps refuse es).2)

/-! ## The run -/

/-- The configuration of the run. -/
def syncConfigOf (host : Host) (o : SyncCliOptions) : SyncConfig where
  direction := o.direction
  localPath := o.localPath
  source := if o.direction = .upload then {} else o.s3Source.source
  destination :=
    if o.direction = .s3ToS3 then o.s3Dest.source else if o.direction = .upload then o.s3Source.source else {}
  deleteOrphans := o.deleteOrphans
  dryRun := o.dryRun
  maxThreads := host.maxSafeThreads o.numThreads

/-- What is known of a `run_sync` that has returned: its success, whether it saw `progress.cancelled`, the plan it
made, and how each line of it was counted. -/
structure SyncReport where
  success : Bool
  cancelled : Bool
  plan : Option (List SyncFileEntry)
  outcomes : List Outcome

/-- A `run_sync` that returns: `Runs`, with its report. -/
inductive RunSync (S : Setting) (limits : Limits) (config : SyncConfig) (scan : Scan) (w : World) :
    SyncReport → World → Prop
  | refused {message : String} (h : planRun config scan = .error message) :
      RunSync S limits config scan w ⟨false, scan.cancelled, none, []⟩ w
  | dry {files : List SyncFileEntry} (h : planRun config scan = .ok files) (hd : config.dryRun = true)
      (cancelled : Bool) : RunSync S limits config scan w ⟨!cancelled, cancelled, some files, []⟩ w
  | returned {files : List SyncFileEntry} (h : planRun config scan = .ok files) (hd : config.dryRun = false)
      (hn : ((actionable files).map SyncFileEntry.relativePath).Nodup)
      {y : (Fin (actionable files).length → Exec Outcome) × World}
      (hy : Executes S limits config (actionable files) hn w y) {outcome : Fin (actionable files).length → Outcome}
      (ho : ∀ i, y.1 i = .ret (outcome i)) {cancelled : Bool} (hc : CancelledAtEnd (actionable files) y.2 cancelled) :
      RunSync S limits config scan w
        ⟨!cancelled && decide (∀ i, outcome i ≠ .failed), cancelled, some files, List.ofFn outcome⟩ y.2

theorem RunSync.runs {S : Setting} {limits : Limits} {config : SyncConfig} {scan : Scan} {w w' : World}
    {report : SyncReport} (h : RunSync S limits config scan w report w') :
    Runs S limits config scan w (some report.success) w' := by
  cases h with
  | refused h => exact .refused h
  | dry h hd cancelled => exact .dry h hd cancelled
  | returned h hd hn hy ho hc => exact .returned h hd hn hy ho hc

/-- A region that `detect_bucket_region` has to ask AWS for. -/
def S3Side.asksRegion (s : S3Side) : Prop := s.region = [] ∧ s.endpoint = []

/-- A command that has ended. -/
structure Ended where
  exit : Nat
  files : Files
  wrote : List Loc
  world : World
  report : Option SyncReport

/-- **How `mito sync` can end.** -/
inductive SyncCommand (S : Setting) (limits : Limits) (args : List Str) (host : Host) (w : World) : Ended → Prop
  | usage (h : (syncOptions args).error = true) : SyncCommand S limits args host w ⟨2, host.files, [], w, none⟩
  | help (he : (syncOptions args).error = false) (h : (syncOptions args).help = true) :
      SyncCommand S limits args host w ⟨0, host.files, [], w, none⟩
  | incomplete (he : (syncOptions args).error = false) (hh : (syncOptions args).help = false)
      (h : requiredArguments (syncOptions args) = false) :
      SyncCommand S limits args host w ⟨2, host.files, [], w, none⟩
  | badPath (he : (syncOptions args).error = false) (hh : (syncOptions args).help = false)
      (ha : requiredArguments (syncOptions args) = true) {code : Nat} {fs : Files}
      (h : preparePath host (syncOptions args) = .error (code, fs)) :
      SyncCommand S limits args host w ⟨code, fs, [], w, none⟩
  | noRegion (he : (syncOptions args).error = false) (hh : (syncOptions args).help = false)
      (ha : requiredArguments (syncOptions args) = true) {fs : Files}
      (hp : preparePath host (syncOptions args) = .ok fs)
      (h : (syncOptions args).s3Source.asksRegion ∨
        (syncOptions args).direction = .s3ToS3 ∧ (syncOptions args).s3Dest.asksRegion) {wrote : List Loc}
      (hs : SavesMetrics host (loadMetrics host fs) wrote) :
      SyncCommand S limits args host w ⟨1, loadMetrics host fs, wrote, w, none⟩
  | ran (he : (syncOptions args).error = false) (hh : (syncOptions args).help = false)
      (ha : requiredArguments (syncOptions args) = true) {fs : Files}
      (hp : preparePath host (syncOptions args) = .ok fs) {found : List FoundEntry} {scan : Scan}
      (hsweep : scan.sweep = (sweepLocalSyncTemps (syncOptions args).dryRun found).2)
      {report : SyncReport} {w' : World}
      (hr : RunSync S limits (syncConfigOf host (syncOptions args)) scan w report w') {wrote : List Loc}
      (hs : SavesMetrics host (loadMetrics host fs) wrote) :
      SyncCommand S limits args host w ⟨if report.success then 0 else 1, loadMetrics host fs,
        (sweepLocalSyncTemps (syncOptions args).dryRun found).1 ++ wrote, w', some report⟩
  /-- a second Ctrl-C, at any moment of the run -/
  | killed (he : (syncOptions args).error = false) (hh : (syncOptions args).help = false)
      (ha : requiredArguments (syncOptions args) = true) {fs : Files}
      (hp : preparePath host (syncOptions args) = .ok fs) {found : List FoundEntry} {scan : Scan}
      {removed : List Loc} (hsweep : removed <+: (sweepLocalSyncTemps (syncOptions args).dryRun found).1)
      {r : Option Bool} {w' : World}
      (hr : Runs S limits (syncConfigOf host (syncOptions args)) scan w r w') {wrote : List Loc}
      (hs : SavesMetrics host (loadMetrics host fs) wrote) :
      SyncCommand S limits args host w ⟨130, loadMetrics host fs, removed ++ wrote, w', none⟩

end Mito
