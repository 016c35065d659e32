import MitoSync.DryRun
import MitoSync.Entry
import MitoSync.RmCommand
import MitoSync.RmGone
/-!
# ExitCodes — what the exit codes of `sync` and `rm` say

By the documentation 0 is a success, 2 says that nothing was attempted, and 130 that Ctrl-C stopped the command.  Every
run of `rm` ends so.  A run of `sync` that one Ctrl-C stops ends with 1 (`exit_codes`): `run_sync_command` makes its
code of `result.success` alone.
-/
namespace Mito

open Lib Prog Files

/-- **What the documentation says of an exit code.** -/
structure Documented (exit : Nat) (completed untouched stopped : Prop) : Prop where
  success : exit = 0 → completed
  configuration : exit = 2 → untouched
  interrupted : stopped → ¬ completed → exit = 130

/-! ## `sync` -/

/-- The run made its plan and, unless it was a preview, every line of it was counted as done. -/
def SyncReport.Completed (dryRun : Bool) (r : SyncReport) : Prop :=
  ∃ plan, r.plan = some plan ∧
    (dryRun = true ∨ r.outcomes.length = (actionable plan).length ∧ ∀ o ∈ r.outcomes, o = .done)

/-- The command did what its words ask for. -/
def Ended.Completed (args : List Str) (e : Ended) : Prop :=
  (syncOptions args).help = true ∨ ∃ r, e.report = some r ∧ r.Completed (syncOptions args).dryRun

/-- No entry of the tree, no object and no upload was made, changed or removed. -/
structure Ended.Untouched (host : Host) (w : World) (e : Ended) : Prop where
  files : e.files = host.files
  wrote : e.wrote = []
  world : e.world = w

/-- Whether Ctrl-C stopped the command.  It did where the run has seen `progress.cancelled`, and may have where only a
differential upload looked at the signal's own flag; a command that ends before its run was stopped if it was killed. -/
structure Ended.StoppedBy (e : Ended) (stopped : Bool) : Prop where
  seen : ∀ r, e.report = some r → r.cancelled = true → stopped = true
  killed : e.report = none → (stopped = true ↔ e.exit = 130)

/-- **A success is a run that has completed its plan.** -/
theorem RunSync.completed {S : Setting} {limits : Limits} {config : SyncConfig} {scan : Scan} {w w' : World}
    {r : SyncReport} (h : RunSync S limits config scan w r w') (hs : r.success = true) : r.Completed config.dryRun := by
  cases h with
  | refused h => cases hs
  | @dry files h hd cancelled => exact ⟨files, rfl, .inl hd⟩
  | @returned files h hd hn y hy outcome ho cancelled hc =>
    rw [Bool.and_eq_true, Bool.not_eq_true', decide_eq_true_eq] at hs
    refine ⟨files, rfl, .inr ⟨List.length_ofFn, fun o ho' => ?_⟩⟩
    obtain ⟨i, rfl⟩ := (List.mem_ofFn' outcome o).1 ho'
    cases hi : outcome i with
    | done => rfl
    | failed => exact absurd hi (hs.2 i)
    | dropped =>
      have hns : (actionable files)[i].action ≠ .skip := by
        have := List.mem_filter.1 (List.getElem_mem i.isLt)
        simpa using this.2
      have hseen : SawDrop (outcome i) (slotOf config (actionable files) i y.2) :=
        Pool.wp_returns (I := fun _ _ => True) (H := fun _ _ => True) (Q := fun _ => SawDrop)
          (dropped_processEntry limits config hns _) hy (ho i)
      have hcancel := hc i (hseen hi)
      rw [hs.1] at hcancel
      cases hcancel

/-- A path that is refused ends the command with a failure, or with nothing made. -/
theorem preparePath_code {host : Host} {o : SyncCliOptions} {code : Nat} {fs : Files}
    (h : preparePath host o = .error (code, fs)) : code = 1 ∨ code = 2 ∧ fs = host.files := by
  unfold preparePath at h
  dsimp only at h
  repeat' split at h
  all_goals cases h
  all_goals first | exact .inl rfl | exact .inr ⟨rfl, rfl⟩

/-! ## `rm` -/

/-- The command did what its words ask for. -/
def RmEnded.Completed (args : List Str) (e : RmEnded) : Prop :=
  (parseRmArgs args {}).help = true ∨ RmCompleted (rmConfigOf (parseRmArgs args {})) e.log

/-- No delete was issued. -/
def RmEnded.Untouched (e : RmEnded) : Prop := ∀ k, ¬ Deletes e.log k

theorem checkRm_code {o : RmCliOptions} {code : Nat} (h : checkRm o = some code) :
    code = 2 ∨ code = 0 ∧ o.help = true := by
  unfold checkRm at h
  repeat' split at h
  all_goals cases h
  all_goals first | exact .inl rfl | exact .inr ⟨rfl, ‹_›⟩

theorem rmExit_cancelled (result : RmResult) : rmExit result true = 130 := by
  unfold rmExit
  split <;> rfl

/-- **The codes of a run that was not cancelled.** -/
theorem rmExit_cases {result : RmResult} {cancelled : Bool} :
    (rmExit result cancelled = 0 → cancelled = false ∧ result.errorMessage = [] ∧ result.objectsFailed = 0) ∧
      (rmExit result cancelled = 2 → cancelled = false ∧ result.errorMessage ≠ []) := by
  cases cancelled with
  | true =>
    rw [rmExit_cancelled]
    exact ⟨fun h => (by cases h), fun h => (by cases h)⟩
  | false =>
    unfold rmExit
    by_cases hm : result.errorMessage = []
    · rw [if_neg (not_not.2 hm)]
      by_cases hf : result.objectsFailed > 0
      · rw [if_pos hf]
        exact ⟨fun h => (by cases h), fun h => (by cases h)⟩
      · rw [if_neg hf]
        exact ⟨fun _ => ⟨rfl, hm, by omega⟩, fun h => (by cases h)⟩
    · rw [if_pos hm]
      exact ⟨fun h => (by cases h), fun _ => ⟨rfl, hm⟩⟩

/-- **The codes of `rm` say what they are documented to.** -/
theorem rm_documented {args : List Str} {e : RmEnded} (h : RmCommand args e) :
    Documented e.exit (e.Completed args) e.Untouched (e.cancelled = true) := by
  have hnone : ∀ k, ¬ Deletes [] k := fun k ⟨_, hb⟩ => List.not_mem_nil hb
  have hstop : ∀ {result : RmResult} {cancelled : Bool}, cancelled = true → rmExit result cancelled = 130 := by
    rintro result _ rfl
    exact rmExit_cancelled result
  have hnot : ∀ {log : List RmEvent} {m : Str} {cancelled : Bool} {completed : Prop}, m ≠ [] →
      (∀ k, ¬ Deletes log k) →
      Documented (rmExit { errorMessage := m } cancelled) completed (∀ k, ¬ Deletes log k) (cancelled = true) := by
    intro log m cancelled completed hm hlog
    exact ⟨fun h => absurd (rmExit_cases.1 h).2.1 hm, fun _ => hlog, fun hc _ => hstop hc⟩
  cases h with
  | checked h =>
    refine ⟨fun hz => ?_, fun _ => hnone, fun h => (by cases h)⟩
    rcases checkRm_code h with rfl | ⟨-, hh⟩
    · cases hz
    · exact .inl hh
  | noRegion h hr he => exact ⟨fun h => (by cases h), fun _ => hnone, fun h => (by cases h)⟩
  | noClient h cancelled => exact hnot (m := "Failed to create S3 client".toList) (by decide +kernel) hnone
  | threw h hs hw hc hm what =>
    have hm : "Exception: ".toList ++ what ≠ [] := List.append_ne_nil_of_left_ne_nil (by decide +kernel) what
    exact hnot hm (waiting_untouched hs hw hc)
  | @ran h s hs result hr cancelled hm =>
    have hclear : cancelled = false → s.world.cancelled = false := by
      rintro rfl
      exact Bool.eq_false_iff.2 fun h => by cases hm h
    refine ⟨fun h => ?_, fun h => ?_, fun hc _ => hstop hc⟩
    · obtain ⟨hc, hmsg, hf⟩ := rmExit_cases.1 h
      exact .inr ((returned_ends hs hr (hclear hc)).2 hmsg hf)
    · obtain ⟨hc, hmsg⟩ := rmExit_cases.2 h
      exact (returned_ends hs hr (hclear hc)).1 hmsg
  | killed h hs => exact ⟨fun h => (by cases h), fun h => (by cases h), fun _ _ => rfl⟩

/-! ## The commands -/

/-- A command that ends before its run has nothing that one Ctrl-C could stop. -/
theorem documented_early {args : List Str} {host : Host} {w : World} {e : Ended} {stopped : Bool}
    (hs : e.StoppedBy stopped) (hn : e.report = none) (hzero : e.exit = 0 → e.Completed args)
    (htwo : e.exit = 2 → e.Untouched host w) :
    Documented e.exit (e.Completed args) (e.Untouched host w) (stopped = true) ↔
      (e.report.isSome = true → stopped = true → e.Completed args) := by
  refine ⟨fun _ h => ?_, fun _ => ⟨hzero, htwo, fun hst _ => (hs.killed hn).1 hst⟩⟩
  rw [hn] at h
  cases h

/-- **The codes of `sync` say what they are documented to exactly where Ctrl-C has not stopped its run.** -/
theorem sync_documented {args : List Str} {host : Host} {S : Setting} {limits : Limits} {w : World} {e : Ended}
    (h : SyncCommand S limits args host w e) {stopped : Bool} (hs : e.StoppedBy stopped) :
    Documented e.exit (e.Completed args) (e.Untouched host w) (stopped = true) ↔
      (e.report.isSome = true → stopped = true → e.Completed args) := by
  cases h with
  | usage h => exact documented_early hs rfl (fun h => (by cases h)) fun _ => ⟨rfl, rfl, rfl⟩
  | help he h => exact documented_early hs rfl (fun _ => .inl h) fun h => (by cases h)
  | incomplete he hh h => exact documented_early hs rfl (fun h => (by cases h)) fun _ => ⟨rfl, rfl, rfl⟩
  | badPath he hh ha h =>
    rcases preparePath_code h with rfl | ⟨rfl, rfl⟩
    · exact documented_early hs rfl (fun h => (by cases h)) fun h => (by cases h)
    · exact documented_early hs rfl (fun h => (by cases h)) fun _ => ⟨rfl, rfl, rfl⟩
  | noRegion he hh ha hp h hm => exact documented_early hs rfl (fun h => (by cases h)) fun h => (by cases h)
  | killed he hh ha hp hsweep hr hm => exact documented_early hs rfl (fun h => (by cases h)) fun h => (by cases h)
  | @ran he hh ha fs hp found scan hsweep report w' hr wrote hm =>
    -- the code is made of `success` alone: 0 or 1
    have hcode : ∀ {b : Bool}, (if b = true then 0 else 1) ≠ 130 ∧ (if b = true then 0 else 1) ≠ 2 ∧
        ((if b = true then 0 else 1) = 0 → b = true) := by
      intro b
      cases b <;> simp
    obtain ⟨hne, htwo, hzero⟩ := hcode (b := report.success)
    constructor
    · intro hd _ hst
      by_contra hnc
      exact hne (hd.interrupted hst hnc)
    · intro hdone
      refine ⟨fun h => ?_, fun h => absurd h htwo, fun hst hnc => absurd (hdone rfl hst) hnc⟩
      exact .inr ⟨report, rfl, hr.completed (hzero h)⟩

/-- **Exit codes mean what the documentation says** in every run of `rm`, and in exactly those runs of `sync` that have
not been stopped by one Ctrl-C before they had done what was planned. -/
theorem exit_codes (args : List Str) :
    (∀ e, RmCommand args e → Documented e.exit (e.Completed args) e.Untouched (e.cancelled = true)) ∧
    ∀ S limits host w e stopped, SyncCommand S limits args host w e → e.StoppedBy stopped →
      (Documented e.exit (e.Completed args) (e.Untouched host w) (stopped = true) ↔
        (e.report.isSome = true → stopped = true → e.Completed args)) :=
  ⟨fun _ h => rm_documented h, fun _ _ _ _ _ _ h hs => sync_documented h hs⟩

/-! ## A download that is stopped while it lists -/

/-- `mito sync s3://b/p /d`. -/
def downloadArgs : List Str := ["s3://b/p".toList, "/d".toList]

theorem downloadArgs_parsed : syncOptions downloadArgs =
    { localPath := "/d".toList, s3Source := ⟨true, ⟨"b".toList, "p".toList⟩, [], []⟩,
      direction := .download, hasLocal := true, hasS3Source := true } := by decide +kernel

/-- What the command is told of an empty bucket and an empty directory, with Ctrl-C while it lists. -/
def stoppedScan : Scan := { source := ⟨[], true, false⟩, dest := ⟨[], true, false⟩, cancelled := true }

def stoppedDownload : Ended :=
  ⟨1, loadMetrics (plainHost readyTree) readyTree, [], noObjects, some ⟨false, true, none, []⟩⟩

def quietSetting : Setting := ⟨fun _ => none, fun _ => 0, fun _ => True, .sound⟩

theorem stoppedDownload_ends :
    SyncCommand quietSetting ⟨0, 0⟩ downloadArgs (plainHost readyTree) noObjects stoppedDownload := by
  have hprepared : preparePath (plainHost readyTree) (syncOptions downloadArgs) = .ok readyTree := by
    rw [downloadArgs_parsed]
    exact preparePath_ready rfl (by decide +kernel)
  have hplan : planRun (syncConfigOf (plainHost readyTree) (syncOptions downloadArgs)) stoppedScan =
      .error "Cancelled during enumeration" := by
    rw [downloadArgs_parsed]
    rfl
  have hsweep : stoppedScan.sweep = (sweepLocalSyncTemps (syncOptions downloadArgs).dryRun []).2 := rfl
  have hrun : RunSync quietSetting ⟨0, 0⟩ (syncConfigOf (plainHost readyTree) (syncOptions downloadArgs))
      stoppedScan noObjects ⟨false, true, none, []⟩ noObjects := .refused hplan
  refine .ran ?_ ?_ ?_ hprepared hsweep hrun (.inl rfl)
  all_goals rw [downloadArgs_parsed]
  rfl

theorem stoppedDownload_stopped : stoppedDownload.StoppedBy true := ⟨fun _ _ _ => rfl, fun h => (by cases h)⟩

theorem stoppedDownload_incomplete : ¬ stoppedDownload.Completed downloadArgs := by
  rintro (h | ⟨r, hr, plan, hp, -⟩)
  · rw [downloadArgs_parsed] at h
    cases h
  · cases hr
    cases hp

/-- **A run of `sync` that Ctrl-C stops ends with 1.** -/
theorem sync_stopped_fails : ¬ ∀ S limits args host w e stopped, SyncCommand S limits args host w e →
    e.StoppedBy stopped → Documented e.exit (e.Completed args) (e.Untouched host w) (stopped = true) := by
  intro h
  have hd := h _ _ _ _ _ _ _ stoppedDownload_ends stoppedDownload_stopped
  exact absurd (hd.interrupted rfl stoppedDownload_incomplete) (by decide)

/-! ## A deletion that is done -/

/-- `mito rm -f s3://b/a`. -/
def rmArgs : List Str := ["-f".toList, "s3://b/a".toList]

theorem rmArgs_parsed : parseRmArgs rmArgs {} =
    { force := true, s3Url := "s3://b/a".toList, bucket := ['b'], prefix_ := ['a'] } := by decide +kernel

def rmDone : RmEnded := ⟨0, [.size ['a'] 1, .deleted ['a'] true], false⟩

theorem rmDone_ends : RmCommand rmArgs rmDone := by
  have hsized : rmExec (.getObjectSize ['a']) {} (1 : Int) { log := [.size ['a'] 1] } := rfl
  have hgone : rmExec (.deleteObject ['a']) { log := [.size ['a'] 1] } true { log := rmDone.log } := rfl
  have hrun : RmSteps (rmConfigOf (parseRmArgs rmArgs {})) ⟨runRm (rmConfigOf (parseRmArgs rmArgs {})), [], {}⟩
      ⟨.ret { success := true, objectsDeleted := 1, bytesFreed := BitVec.ofInt 64 1 }, [], { log := rmDone.log }⟩ := by
    rw [rmArgs_parsed]
    refine .head (.ask hsized) ?_
    refine .head (.ask hgone) ?_
    exact .refl
  have hcheck : checkRm (parseRmArgs rmArgs {}) = none := by
    rw [rmArgs_parsed]
    rfl
  have hclear : ({ log := rmDone.log } : RmWorld).cancelled = true → false = true := id
  exact .ran hcheck hrun rfl hclear

theorem exit_codes_both : Documented rmDone.exit (rmDone.Completed rmArgs) rmDone.Untouched (rmDone.cancelled = true) ∧
    ¬ Documented stoppedDownload.exit (stoppedDownload.Completed downloadArgs)
      (stoppedDownload.Untouched (plainHost readyTree) noObjects) (true = true) := by
  refine ⟨(exit_codes rmArgs).1 _ rmDone_ends, fun hd => ?_⟩
  have hdone := ((exit_codes downloadArgs).2 _ _ _ _ _ _ stoppedDownload_ends stoppedDownload_stopped).1 hd rfl rfl
  exact stoppedDownload_incomplete hdone

end Mito
