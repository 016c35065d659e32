import MitoSync.MakeDirs
/-!
# DryRun — what `--dry-run` leaves alone

A dry run plans and returns: no object, no upload and no temporary file is touched (`dry_world`).  What the command
does before it looks at the flag is left: it makes the destination of a download, and keeps its metrics in the
application's data directory.  `dry_run_spares` says for which machines that changes nothing under the paths of the
command line.
-/
namespace Mito

open Lib Files

/-- The words that are options or operands.  An option's value is neither. -/
def optionWords : List Str → List Str
  | [] => []
  | arg :: rest =>
    if (syncOption arg).isSome then
      match rest with
      | [] => [arg]
      | _ :: rest => arg :: optionWords rest
    else arg :: optionWords rest

def DryRunGiven (args : List Str) : Prop := "--dry-run".toList ∈ optionWords args

/-- **Nothing changed**: no object, no upload, and nothing at the local path of the command line or below it, taken as
it is before the command or after it. -/
structure Unchanged (args : List Str) (host : Host) (w : World) (e : Ended) : Prop where
  world : e.world = w
  place : (syncOptions args).hasLocal = true → ∀ b,
    canonical host.files (syncOptions args).localPath = some b ∨
      canonical e.files (syncOptions args).localPath = some b →
    ∀ l, b <+: l → e.files.node l = host.files.node l ∧ l ∉ e.wrote

/-- The directories the command makes on the way to the destination of a download. -/
def destinationMade (host : Host) (o : SyncCliOptions) : Set Loc :=
  { l | o.direction = .download ∧
    l ∈ Makes host.refused host.files ∅ (startAt host.files.cwd o.localPath) (names o.localPath) }

/-- The directories it makes after them for the application's data directory. -/
def dataMade (host : Host) (o : SyncCliOptions) : Set Loc :=
  Makes host.refused host.files (destinationMade host o) (startAt host.files.cwd (appDataDirectory host))
    (names (appDataDirectory host))

/-- The local path is the directory `b`, or for a download can be made to be. -/
def LocalPlace (host : Host) (o : SyncCliOptions) (b : Loc) : Prop :=
  if o.direction = .download then
    CanMake host.refused host.files ∅ (startAt host.files.cwd o.localPath) (names o.localPath) ∧
      leadsTo host.files true o.localPath = some b ∧ (host.files.node b = none ∨ isDir (host.files.node b) = true)
  else canonical host.files o.localPath = some b ∧ isDir (host.files.node b) = true

/-- The application's data directory is `d`, or can be made to be. -/
def DataPlace (host : Host) (o : SyncCliOptions) (d : Loc) : Prop :=
  CanMake host.refused host.files (destinationMade host o) (startAt host.files.cwd (appDataDirectory host))
      (names (appDataDirectory host)) ∧
    leadsTo host.files true (appDataDirectory host) = some d ∧
      (host.files.node d = none ∨ isDir (host.files.node d) = true)

/-- **The machine before the command spares the local path**: where the command gets to its run, no directory that is
missing for its destination or its data directory, and no file of its metrics, stands at the local path or below it. -/
def Spares (args : List Str) (host : Host) : Prop :=
  (syncOptions args).error = false → (syncOptions args).help = false →
    requiredArguments (syncOptions args) = true → (syncOptions args).hasLocal = true →
    ∀ b, LocalPlace host (syncOptions args) b →
      (∀ l, l ∈ destinationMade host (syncOptions args) ∨ l ∈ dataMade host (syncOptions args) → ¬ b <+: l) ∧
      ∀ d x, DataPlace host (syncOptions args) d → host.readOnly d = false → metricsName x →
        isDir (host.files.node (d ++ [x])) = false → ¬ b <+: d ++ [x]

/-! ## The flag -/

theorem parsePositional_dryRun (o : SyncCliOptions) (arg : Str) : (parsePositional o arg).dryRun = o.dryRun := by
  unfold parsePositional SyncCliOptions.fail
  repeat' split
  all_goals rfl

theorem position_dryRun (o : SyncArgs) (arg : Str) : (o.position arg).dryRun = o.dryRun :=
  parsePositional_dryRun o.toSyncCliOptions arg

theorem set_dryRun (v : SyncOption) (value : Str) (o : SyncArgs) : (v.set value o).dryRun = o.dryRun := by
  cases v with
  | threads =>
    rw [SyncOption.set]
    split
    · rfl
    · split <;> rfl
  | sourceProfile | destProfile | endpointUrl => rfl

theorem finish_dryRun (o : SyncArgs) : o.finish.dryRun = o.dryRun := by
  show (applyEndpoint o.toSyncCliOptions).dryRun = _
  unfold applyEndpoint
  split <;> rfl

/-- A flag is no option that takes a value. -/
theorem syncOption_of_flag {arg : Str} {f : SyncFlag} (h : syncFlag arg = some f) : syncOption arg = none := by
  have hall : ∀ a ∈ ["-h", "--help", "-d", "--debug", "-v", "--verbose", "-q", "--quiet", "--allow-unverified-ranges",
      "--delete", "--dry-run"], syncOption a.toList = none := by decide +kernel
  unfold syncFlag at h
  split_ifs at h with h₁ h₂ h₃ h₄ h₅ h₆ h₇
  · rcases h₁ with rfl | rfl <;> exact hall _ (by simp)
  · rcases h₂ with rfl | rfl <;> exact hall _ (by simp)
  · rcases h₃ with rfl | rfl <;> exact hall _ (by simp)
  · rcases h₄ with rfl | rfl <;> exact hall _ (by simp)
  · exact h₅ ▸ hall _ (by simp)
  · exact h₆ ▸ hall _ (by simp)
  · exact h₇ ▸ hall _ (by simp)

theorem dryRunGiven_cons {arg : Str} {rest : List Str} (h : syncOption arg = none) :
    DryRunGiven (arg :: rest) ↔ "--dry-run".toList = arg ∨ DryRunGiven rest := by
  have hw : optionWords (arg :: rest) = arg :: optionWords rest := by
    rw [optionWords.eq_def]
    simp [h]
  unfold DryRunGiven
  rw [hw, List.mem_cons]

theorem dryRunGiven_value {arg value : Str} {rest : List Str} (h : (syncOption arg).isSome = true) :
    DryRunGiven (arg :: value :: rest) ↔ "--dry-run".toList = arg ∨ DryRunGiven rest := by
  have hw : optionWords (arg :: value :: rest) = arg :: optionWords rest := by
    rw [optionWords.eq_def]
    exact if_pos h
  unfold DryRunGiven
  rw [hw, List.mem_cons]

theorem syncFlag_dryRun : syncFlag "--dry-run".toList = some .dryRun := by decide +kernel

/-- **The flag is read where it is given**, unless the command line is refused. -/
theorem parseSyncWords_dryRun : ∀ (args : List Str) (o : SyncArgs), (parseSyncWords args o).error = false →
    DryRunGiven args ∨ o.dryRun = true → (parseSyncWords args o).dryRun = true
  | [], o, _, hg => (finish_dryRun o).trans (hg.resolve_left List.not_mem_nil)
  | arg :: rest, o, h, hg => by
    rw [parseSyncWords.eq_2] at h ⊢
    cases hf : syncFlag arg with
    | some flag =>
      rw [hf] at h
      refine parseSyncWords_dryRun rest _ h ?_
      rw [dryRunGiven_cons (syncOption_of_flag hf)] at hg
      rcases hg with (rfl | hg) | hg
      · rw [syncFlag_dryRun] at hf
        obtain rfl := Option.some.inj hf
        exact .inr rfl
      · exact .inl hg
      · exact .inr (by cases flag <;> first | exact hg | rfl)
    | none =>
      have hne : "--dry-run".toList ≠ arg := by
        rintro rfl
        rw [syncFlag_dryRun] at hf
        cases hf
      rw [hf] at h
      dsimp only at h ⊢
      cases ho : syncOption arg with
      | some option =>
        rw [ho] at h
        cases rest with
        | nil => cases h
        | cons value rest =>
          rw [dryRunGiven_value (by rw [ho]; rfl)] at hg
          dsimp only at h ⊢
          split at h
          · rename_i he
            rw [he] at h
            cases h
          · rename_i he
            rw [if_neg he]
            refine parseSyncWords_dryRun rest _ h ?_
            rw [set_dryRun]
            exact hg.imp_left fun hd => hd.resolve_left hne
      | none =>
        rw [ho] at h
        rw [dryRunGiven_cons ho] at hg
        dsimp only at h ⊢
        by_cases hdash : arg.head? = some '-'
        · rw [if_pos hdash] at h
          cases h
        · rw [if_neg hdash] at h ⊢
          split at h
          · rename_i he
            rw [he] at h
            cases h
          · rename_i he
            rw [if_neg he]
            refine parseSyncWords_dryRun rest _ h ?_
            rw [position_dryRun]
            exact hg.imp_left fun hd => hd.resolve_left hne

/-- A command line with a local path is an upload or a download. -/
theorem syncOptions_direction {args : List Str} (he : (syncOptions args).error = false)
    (hl : (syncOptions args).hasLocal = true) :
    (syncOptions args).direction = .upload ∨ (syncOptions args).direction = .download := by
  obtain ⟨xs, o, rfl, hrun⟩ := items_of_words args {} he
  have hparse : syncOptions (wordsOf xs) = applyEndpoint o.toSyncCliOptions :=
    congrArg SyncArgs.toSyncCliOptions (parseSyncWords_items xs {} o hrun)
  have hfields : (applyEndpoint o.toSyncCliOptions).hasLocal = o.hasLocal ∧
      (applyEndpoint o.toSyncCliOptions).direction = o.direction := by
    unfold applyEndpoint
    split <;> exact ⟨rfl, rfl⟩
  rw [hparse, hfields.1] at hl
  rw [hparse, hfields.2]
  have htook := Took.runs (.none rfl) hrun
  generalize [] ++ positionalsOf xs = ps at htook
  cases htook with
  | none h => exact .inl (shape_eq h).2.2.2
  | oneLocal _ h => exact .inl (shape_eq h).2.2.2
  | oneS3 _ h _ => exact .inr (shape_eq h).2.2.2
  | localToS3 _ _ h _ => exact .inl (shape_eq h).2.2.2
  | s3ToLocal _ _ h _ => exact .inr (shape_eq h).2.2.2
  | s3ToS3 _ _ h _ _ =>
    rw [(shape_eq h).1] at hl
    cases hl

/-! ## The directories a command makes -/

theorem createDirectories_eq (refused : Loc → Bool) (fs : Files) (p : Str) :
    createDirectories refused fs p = mkdirRecursive refused (startAt fs.cwd p) fs [] (names p) :=
  createDirectoriesFrom_eq refused _ _ _ _

theorem createDirectories_grows (refused : Loc → Bool) (fs : Files) (p : Str) :
    GrowsDirs fs (createDirectories refused fs p) := createDirectoriesFrom_grows refused _ _ fs _

theorem loadMetrics_grows (host : Host) (fs : Files) : GrowsDirs fs (loadMetrics host fs) := by
  unfold loadMetrics
  rw [← createDirectoriesFrom_eq]
  exact createDirectoriesFrom_grows _ _ _ _ _

theorem canonical_stays {fs fs' : Files} (h : Grows fs fs') {p : Str} {b : Loc} (hb : canonical fs p = some b) :
    canonical fs' p = some b := by
  obtain ⟨hp, k, hk⟩ := leadsTo_some.mp hb
  refine leadsTo_some.mpr ⟨hp, k, ?_⟩
  rw [h.cwd]
  exact walk_stays h (node_startAt fs p) hk

variable {host : Host} {o : SyncCliOptions} {fs : Files}

theorem preparePath_ok (h : preparePath host o = .ok fs) : GrowsDirs host.files fs := by
  unfold preparePath at h
  dsimp only at h
  repeat' split at h
  all_goals cases h
  all_goals first | exact .refl _ | exact createDirectories_grows _ _ _

/-- A path that is refused is no directory, and where it is none of the tree's own, it was nothing before. -/
theorem preparePath_error {code : Nat} (h : preparePath host o = .error (code, fs)) :
    fs = host.files ∨
      GrowsDirs host.files fs ∧ canonical host.files o.localPath = none ∧ isDirectory fs o.localPath = false := by
  unfold preparePath at h
  dsimp only at h
  cases hd : o.direction with
  | upload =>
    rw [hd] at h
    dsimp only at h
    split at h <;> cases h
    exact .inl rfl
  | download =>
    rw [hd] at h
    dsimp only at h
    cases hc : canonical host.files o.localPath with
    | some b =>
      simp only [pathExists, hc, Option.isSome_some, Bool.not_true, Bool.false_eq_true, if_false] at h
      split at h <;> cases h
      exact .inl rfl
    | none =>
      simp only [pathExists, hc, Option.isSome_none, Bool.not_false, if_true] at h
      split at h
      · cases h
      · rename_i hdir
        cases h
        exact .inr ⟨createDirectories_grows _ _ _, rfl, by simpa using hdir⟩
  | s3ToS3 => rw [hd] at h; cases h
  | localToLocal => rw [hd] at h; cases h

theorem preparePath_ready (hd : o.direction = .download) (h : isDirectory host.files o.localPath = true) :
    preparePath host o = .ok host.files := by
  have he : pathExists host.files o.localPath = true := by
    unfold isDirectory at h
    unfold pathExists
    cases hc : canonical host.files o.localPath with
    | none => rw [hc] at h; cases h
    | some b => rfl
  unfold preparePath
  rw [hd, he, h]
  rfl

theorem preparePath_made (hd : o.direction = .download) (hn : canonical host.files o.localPath = none)
    (h : isDirectory (createDirectories host.refused host.files o.localPath) o.localPath = true) :
    preparePath host o = .ok (createDirectories host.refused host.files o.localPath) := by
  unfold preparePath pathExists
  rw [hd, hn]
  dsimp only
  rw [h]
  rfl

/-- Where the path of a download is there it is left as it is, and where it is not it is made. -/
theorem preparePath_download (hd : o.direction = .download) (h : preparePath host o = .ok fs) :
    (Resolves host.files (startAt host.files.cwd o.localPath) (names o.localPath) ∧ fs = host.files) ∨
      canonical host.files o.localPath = none ∧ fs = createDirectories host.refused host.files o.localPath := by
  unfold preparePath at h
  rw [hd] at h
  dsimp only at h
  cases hc : canonical host.files o.localPath with
  | some b =>
    simp only [pathExists, hc, Option.isSome_some, Bool.not_true, Bool.false_eq_true, if_false] at h
    split at h <;> cases h
    exact .inl ⟨⟨b, (leadsTo_some.1 hc).2⟩, rfl⟩
  | none =>
    simp only [pathExists, hc, Option.isSome_none, Bool.not_false, if_true] at h
    split at h <;> cases h
    exact .inr ⟨rfl, rfl⟩

/-- **The tree once the local path was prepared**, told of the machine before. -/
theorem preparePath_node (h : preparePath host o = .ok fs) {l : Loc} (hl : host.files.node l = none) :
    fs.node l ≠ none ↔ l ∈ destinationMade host o := by
  by_cases hd : o.direction = .download
  · have hmakes : l ∈ destinationMade host o ↔
        l ∈ Makes host.refused host.files ∅ (startAt host.files.cwd o.localPath) (names o.localPath) :=
      and_iff_right hd
    rw [hmakes]
    rcases preparePath_download hd h with ⟨hr, rfl⟩ | ⟨-, rfl⟩
    · rw [hr.makes]
      exact iff_of_false (fun hn => hn hl) (Set.notMem_empty l)
    · rw [createDirectories_eq]
      have hbefore : MadeSoFar host.refused host.files ∅ (startAt host.files.cwd o.localPath) [] host.files :=
        madeSoFar_nil (.refl _) (fun l hl => iff_of_false (fun hn => hn hl) (Set.notMem_empty l)) nofun
      rw [mkdirRecursive_node (node_startAt _ _) hbefore hl]
      exact or_iff_right (Set.notMem_empty l)
  · refine iff_of_false (fun hn => ?_) fun hm => hd hm.1
    unfold preparePath at h
    cases hdir : o.direction with
    | download => exact hd hdir
    | upload =>
      rw [hdir] at h
      dsimp only at h
      split at h <;> cases h
      exact hn hl
    | s3ToS3 | localToLocal =>
      rw [hdir] at h
      cases h
      exact hn hl

/-- What is there when the metrics are opened. -/
theorem madeSoFar_data (h : preparePath host o = .ok fs) :
    MadeSoFar host.refused host.files (destinationMade host o) (startAt host.files.cwd (appDataDirectory host)) [] fs :=
  madeSoFar_nil (preparePath_ok h) (fun _ hl => preparePath_node h hl) fun _ hm => hm.2.1

theorem loadMetrics_eq (h : preparePath host o = .ok fs) : loadMetrics host fs =
    mkdirRecursive host.refused (startAt host.files.cwd (appDataDirectory host)) fs []
      (names (appDataDirectory host)) := by
  unfold loadMetrics
  rw [(preparePath_ok h).1]

/-- **The tree once the metrics were opened**, told of the machine before. -/
theorem loadMetrics_node (h : preparePath host o = .ok fs) {l : Loc} (hl : host.files.node l = none) :
    (loadMetrics host fs).node l ≠ none ↔ l ∈ destinationMade host o ∨ l ∈ dataMade host o := by
  rw [loadMetrics_eq h]
  exact mkdirRecursive_node (node_startAt _ _) (madeSoFar_data h) hl

/-- Where a path leads in a tree that was made of this one, told of this one. -/
theorem canonical_made {g : Files} (hg : GrowsDirs host.files g) {p : Str} {also : Set Loc}
    (hr : Resolves g (startAt host.files.cwd p) (names p) ↔
      CanMake host.refused host.files also (startAt host.files.cwd p) (names p)) {b : Loc} :
    (canonical g p = some b ∧ isDir (g.node b) = true) ↔
      CanMake host.refused host.files also (startAt host.files.cwd p) (names p) ∧
        leadsTo host.files true p = some b ∧ (host.files.node b = none ∨ isDir (host.files.node b) = true) := by
  constructor
  · rintro ⟨hc, hdir⟩
    refine ⟨hr.1 ?_, leadsTo_grows hg.grows hc, ?_⟩
    · obtain ⟨-, k, hk⟩ := leadsTo_some.1 hc
      rw [hg.1] at hk
      exact ⟨b, k, hk⟩
    · rcases hg.2 b with hsame | ⟨hnone, -⟩
      · exact .inr (hsame ▸ hdir)
      · exact .inl hnone
  · rintro ⟨hcan, hb, hdir⟩
    obtain ⟨r, k, hk⟩ := hr.2 hcan
    obtain ⟨hp, j, hj⟩ := leadsTo_some.1 hb
    obtain ⟨rfl, rfl⟩ : r = b ∧ k = j := by simpa using (walk_grows hg.grows hk).symm.trans hj
    have hthere : g.node r ≠ none := by
      refine node_of_walk ?_ hk
      rw [node_of_grows hg (node_startAt _ _)]
      exact node_startAt _ _
    refine ⟨leadsTo_some.2 ⟨hp, k, by rw [hg.1]; exact hk⟩, ?_⟩
    rcases hg.2 r with hsame | ⟨-, hmade⟩
    · rw [hsame] at hthere ⊢
      exact hdir.resolve_left hthere
    · rw [hmade]
      rfl

/-- **Where the local path leads once it was prepared.** -/
theorem localPlace_iff (hdir : o.direction = .upload ∨ o.direction = .download) {b : Loc} :
    LocalPlace host o b ↔ ∃ fs, preparePath host o = .ok fs ∧ canonical fs o.localPath = some b := by
  unfold LocalPlace
  rcases hdir with hd | hd
  · rw [hd, if_neg nofun]
    unfold preparePath
    rw [hd]
    dsimp only
    constructor
    · rintro ⟨hc, hisdir⟩
      have hready : isDirectory host.files o.localPath = true := by
        unfold isDirectory
        rw [hc]
        exact hisdir
      exact ⟨host.files, if_pos hready, hc⟩
    · rintro ⟨fs, hp, hc⟩
      split at hp <;> cases hp
      rename_i hready
      unfold isDirectory at hready
      rw [hc] at hready
      exact ⟨hc, hready⟩
  · rw [if_pos hd]
    cases hc : canonical host.files o.localPath with
    | some r =>
      have hr : Resolves host.files (startAt host.files.cwd o.localPath) (names o.localPath) :=
        ⟨r, (leadsTo_some.1 hc).2⟩
      rw [← canonical_made (.refl _) (iff_of_true hr hr.canMake)]
      constructor
      · rintro ⟨hb, hisdir⟩
        refine ⟨host.files, preparePath_ready hd ?_, hb⟩
        unfold isDirectory
        rw [hb]
        exact hisdir
      · rintro ⟨fs, hp, hb⟩
        rcases preparePath_download hd hp with ⟨-, rfl⟩ | ⟨hnone, -⟩
        · refine ⟨hb, ?_⟩
          unfold preparePath pathExists at hp
          rw [hd, hc] at hp
          dsimp only at hp
          simp only [Option.isSome_some, Bool.not_true, Bool.false_eq_true, if_false] at hp
          split at hp
          · rename_i hready
            unfold isDirectory at hready
            rw [hb] at hready
            exact hready
          · cases hp
        · rw [hc] at hnone
          cases hnone
    | none =>
      have hbefore : MadeSoFar host.refused host.files ∅ (startAt host.files.cwd o.localPath) [] host.files :=
        madeSoFar_nil (.refl _) (fun l hl => iff_of_false (fun hn => hn hl) (Set.notMem_empty l)) nofun
      have hresolves := mkdirRecursive_resolves (names o.localPath) (node_startAt _ _) hbefore
      rw [← createDirectories_eq] at hresolves
      rw [← canonical_made (createDirectories_grows _ _ _) hresolves]
      constructor
      · rintro ⟨hb, hisdir⟩
        refine ⟨_, preparePath_made hd hc ?_, hb⟩
        unfold isDirectory
        rw [hb]
        exact hisdir
      · rintro ⟨fs, hp, hb⟩
        rcases preparePath_download hd hp with ⟨hr, rfl⟩ | ⟨-, rfl⟩
        · rw [hc] at hb
          cases hb
        · refine ⟨hb, ?_⟩
          unfold preparePath pathExists at hp
          rw [hd, hc] at hp
          dsimp only at hp
          simp only [Option.isSome_none, Bool.not_false, if_true] at hp
          split at hp
          · rename_i hready
            unfold isDirectory at hready
            rw [hb] at hready
            exact hready
          · cases hp

/-- **Where the data directory is when the metrics are saved.** -/
theorem dataPlace_iff (h : preparePath host o = .ok fs) {d : Loc} : DataPlace host o d ↔
    canonical (loadMetrics host fs) (appDataDirectory host) = some d ∧
      isDir ((loadMetrics host fs).node d) = true := by
  have hresolves := mkdirRecursive_resolves (names (appDataDirectory host)) (node_startAt _ _)
    (madeSoFar_data h)
  rw [← loadMetrics_eq h] at hresolves
  exact (canonical_made ((preparePath_ok h).trans (loadMetrics_grows host fs)) hresolves).symm

/-- Where a path leads to no directory, making directories has changed nothing there. -/
theorem node_of_not_dir {fs' : Files} (h : GrowsDirs fs fs') {b l : Loc} (hb : isDir (fs'.node b) = false)
    (hl : b <+: l) : fs'.node l = fs.node l := by
  obtain he | ⟨hn, hd⟩ := h.2 l
  · exact he
  · by_cases hlb : l = b
    · rw [hlb] at hd
      rw [hd] at hb
      cases hb
    · rw [node_below_none hb hl hlb] at hd
      cases hd

/-! ## What the flag keeps from being done -/

theorem sweep_refuse : ∀ found : List FoundEntry, (sweepLocalSyncTemps true found).1 = []
  | [] => rfl
  | e :: es => by
    unfold sweepLocalSyncTemps
    split
    · exact sweep_refuse es
    · repeat' split
      all_goals first | rfl | contradiction

/-- **A dry run changes no object and no upload.** -/
theorem dry_world {S : Setting} {limits : Limits} {config : SyncConfig} {scan : Scan} {w w' : World} {r : Option Bool}
    (hd : config.dryRun = true) (h : Runs S limits config scan w r w') : w' = w := by
  cases h with
  | refused h => rfl
  | dry h _ cancelled => rfl
  | running h hn _ _ => rw [hd] at hn; cases hn
  | returned h hn _ _ _ _ => rw [hd] at hn; cases hn

/-- A path that was prepared leads somewhere. -/
theorem preparePath_leads (hdir : o.direction = .upload ∨ o.direction = .download) (h : preparePath host o = .ok fs) :
    ∃ b, canonical fs o.localPath = some b := by
  have hready : isDirectory fs o.localPath = true := by
    unfold preparePath at h
    rcases hdir with hd | hd
    all_goals
      rw [hd] at h
      dsimp only at h
      repeat' split at h
    all_goals cases h
    all_goals assumption
  unfold isDirectory at hready
  cases hc : canonical fs o.localPath with
  | some b => exact ⟨b, rfl⟩
  | none =>
    rw [hc] at hready
    cases hready

/-- What holds where the command gets to its run. -/
theorem unchanged_of_entered {args : List Str} {w : World} {wrote : List Loc} {code : Nat} {report : Option SyncReport}
    (hsp : Spares args host) (he : (syncOptions args).error = false) (hh : (syncOptions args).help = false)
    (ha : requiredArguments (syncOptions args) = true)
    (hp : preparePath host (syncOptions args) = .ok fs) (hs : SavesMetrics host (loadMetrics host fs) wrote) :
    Unchanged args host w ⟨code, loadMetrics host fs, wrote, w, report⟩ := by
  refine ⟨rfl, fun hloc b hb l hl => ?_⟩
  have hdir := syncOptions_direction he hloc
  have hgrows := (preparePath_ok hp).trans (loadMetrics_grows host fs)
  have hb : canonical fs (syncOptions args).localPath = some b := by
    obtain ⟨r, hr⟩ := preparePath_leads hdir hp
    rcases hb with hb | hb
    · exact canonical_stays (preparePath_ok hp).grows hb
    · rw [canonical_stays (loadMetrics_grows host fs).grows hr] at hb
      rwa [Option.some.inj hb] at hr
  obtain ⟨hmade, hmetrics⟩ := hsp he hh ha hloc b ((localPlace_iff hdir).2 ⟨fs, hp, hb⟩)
  have hsame : ∀ l, b <+: l → (loadMetrics host fs).node l = host.files.node l := by
    intro l hl
    by_contra hne
    obtain ⟨hnone, hnew⟩ := (hgrows.2 l).resolve_left hne
    exact hmade l ((loadMetrics_node hp hnone).1 (by rw [hnew]; exact nofun)) hl
  refine ⟨hsame l hl, fun hm => ?_⟩
  obtain rfl | ⟨d, hd, hisdir, hro, xs, rfl, hxs⟩ := hs
  · exact absurd hm List.not_mem_nil
  · obtain ⟨x, hx, rfl⟩ := List.mem_map.mp hm
    obtain ⟨hname, hfile⟩ := hxs x hx
    rw [hsame _ hl] at hfile
    exact hmetrics d x ((dataPlace_iff hp).2 ⟨hd, hisdir⟩) hro hname hfile hl

/-- **Dry run changes nothing**, on every machine on which what comes before the run spares the paths. -/
theorem unchanged_of_spares {args : List Str} (hdry : DryRunGiven args) (hsp : Spares args host) {S : Setting}
    {limits : Limits} {w : World} {e : Ended} (h : SyncCommand S limits args host w e) : Unchanged args host w e := by
  have hconfig : (syncOptions args).error = false → (syncConfigOf host (syncOptions args)).dryRun = true :=
    fun he => parseSyncWords_dryRun args {} he (.inl hdry)
  cases h with
  | usage h => exact ⟨rfl, fun _ _ _ _ _ => ⟨rfl, List.not_mem_nil⟩⟩
  | help he h => exact ⟨rfl, fun _ _ _ _ _ => ⟨rfl, List.not_mem_nil⟩⟩
  | incomplete he hh h => exact ⟨rfl, fun _ _ _ _ _ => ⟨rfl, List.not_mem_nil⟩⟩
  | badPath he hh ha h =>
    refine ⟨rfl, fun _ b hb l hl => ⟨?_, List.not_mem_nil⟩⟩
    obtain rfl | ⟨hg, hnone, hdir⟩ := preparePath_error h
    · rfl
    · rw [hnone] at hb
      obtain hb | hb := hb
      · cases hb
      · unfold isDirectory at hdir
        rw [hb] at hdir
        exact node_of_not_dir hg hdir hl
  | noRegion he hh ha hp h hs => exact unchanged_of_entered hsp he hh ha hp hs
  | ran he hh ha hp hsweep hr hs =>
    obtain rfl := dry_world (hconfig he) hr.runs
    have hd : (syncOptions args).dryRun = true := hconfig he
    rw [hd, sweep_refuse, List.nil_append]
    exact unchanged_of_entered hsp he hh ha hp hs
  | killed he hh ha hp hsweep hr hs =>
    obtain rfl := dry_world (hconfig he) hr
    have hd : (syncOptions args).dryRun = true := hconfig he
    rw [hd, sweep_refuse] at hsweep
    rw [List.prefix_nil.mp hsweep, List.nil_append]
    exact unchanged_of_entered hsp he hh ha hp hs

/-- **Dry run changes nothing exactly where what comes before the run spares the paths**: whatever is in the tree and
in the buckets, and however the command ends. -/
theorem dry_run_spares (args : List Str) (host : Host) (hdry : DryRunGiven args) :
    (∀ S limits w e, SyncCommand S limits args host w e → Unchanged args host w e) ↔ Spares args host := by
  constructor
  · intro hall he hh ha hloc b hplace
    obtain ⟨fs, hp, hb⟩ := (localPlace_iff (syncOptions_direction he hloc)).1 hplace
    -- a run that ends because no client could be made gets as far as any
    have hrun : ∀ wrote, SavesMetrics host (loadMetrics host fs) wrote →
        Unchanged args host ⟨fun _ => none, fun _ => {}⟩ ⟨1, loadMetrics host fs, wrote, ⟨fun _ => none, fun _ => {}⟩,
          some ⟨false, false, none, []⟩⟩ := by
      intro wrote hs
      have hscan : planRun (syncConfigOf host (syncOptions args))
          { clients := some "Failed to create S3 client", source := ⟨[], true, false⟩, dest := ⟨[], true, false⟩ } =
          .error "Failed to create S3 client" := rfl
      have hsweep : (none : Option String) = (sweepLocalSyncTemps (syncOptions args).dryRun []).2 := rfl
      exact hall ⟨fun _ => none, fun _ => 0, fun _ => True, .sound⟩ ⟨0, 0⟩ _ _
        (.ran he hh ha hp hsweep (.refused hscan) hs)
    have hb : canonical (loadMetrics host fs) (syncOptions args).localPath = some b :=
      canonical_stays (loadMetrics_grows host fs).grows hb
    have hsame : ∀ l, b <+: l → (loadMetrics host fs).node l = host.files.node l :=
      fun l hl => ((hrun [] (.inl rfl)).place hloc b (.inr hb) l hl).1
    refine ⟨fun l hmade hl => ?_, fun d x hd hro hname hfile hl => ?_⟩
    · have hnone : host.files.node l = none := hmade.elim (fun hm => hm.2.1) fun hm => hm.1
      exact (loadMetrics_node hp hnone).2 hmade ((hsame l hl).trans hnone)
    · obtain ⟨hc, hisdir⟩ := (dataPlace_iff hp).1 hd
      rw [← hsame _ hl] at hfile
      have hs : SavesMetrics host (loadMetrics host fs) [d ++ [x]] :=
        .inr ⟨d, hc, hisdir, hro, [x], rfl, by simpa using ⟨hname, hfile⟩⟩
      exact ((hrun _ hs).place hloc b (.inr hb) _ hl).2 List.mem_cons_self
  · exact fun hsp S limits w e h => unchanged_of_spares hdry hsp h

/-! ## A destination that is not there, and one that is -/

/-- `mito sync s3://b/p /d --dry-run`. -/
def dryArgs : List Str := ["s3://b/p".toList, "/d".toList, "--dry-run".toList]

theorem dryArgs_parsed : syncOptions dryArgs =
    { dryRun := true, localPath := "/d".toList, s3Source := ⟨true, ⟨"b".toList, "p".toList⟩, [], []⟩,
      direction := .download, hasLocal := true, hasS3Source := true } := by decide +kernel

/-- A machine with the given tree, and the data directory where the command runs. -/
def plainHost (files : Files) : Host := ⟨files, fun _ => false, none, [], id⟩

def noObjects : World := ⟨fun _ => none, fun _ => {}⟩

/-- The command as it ends when the bucket's region is not found. -/
theorem dryArgs_ends {host : Host} {fs : Files} (hp : preparePath host (syncOptions dryArgs) = .ok fs) :
    SyncCommand ⟨fun _ => none, fun _ => 0, fun _ => True, .sound⟩ ⟨0, 0⟩ dryArgs host noObjects
      ⟨1, loadMetrics host fs, [], noObjects, none⟩ := by
  refine .noRegion ?_ ?_ ?_ hp ?_ (.inl rfl)
  all_goals rw [dryArgs_parsed]
  · rfl
  · exact .inl ⟨rfl, rfl⟩

/-- **A dry run makes the destination of a download.** -/
theorem dry_run_makes : ¬ ∀ args host, DryRunGiven args → ∀ S limits w e, SyncCommand S limits args host w e →
    Unchanged args host w e := by
  intro h
  have hgiven : DryRunGiven dryArgs := by unfold DryRunGiven; decide +kernel
  have hmade : preparePath (plainHost bare) (syncOptions dryArgs) =
      .ok (createDirectories (plainHost bare).refused bare "/d".toList) := by
    rw [dryArgs_parsed]
    exact preparePath_made rfl (by decide +kernel) (by decide +kernel)
  have hplace := (h _ _ hgiven _ _ _ _ (dryArgs_ends hmade)).place
  rw [dryArgs_parsed] at hplace
  have hb : canonical (loadMetrics (plainHost bare) (createDirectories (plainHost bare).refused bare "/d".toList))
      "/d".toList = some [['d']] := by decide +kernel
  have hnode := (hplace rfl [['d']] (.inr hb) [['d']] (List.prefix_refl _)).1
  exact absurd hnode (by decide +kernel)

/-- A tree with the directory `/d`. -/
def readyTree : Files := bare.place [] ['d'] (.dir true)

theorem loadMetrics_plain (fs : Files) : loadMetrics (plainHost fs) fs = fs := by
  have hdata : names (appDataDirectory (plainHost fs)) = [dot] := by
    have : appDataDirectory (plainHost fs) = ['.'] := rfl
    rw [this]
    decide
  have hdir : createDirectory fs (plainHost fs).refused (startAt fs.cwd (appDataDirectory (plainHost fs))) [] dot = none := by
    unfold createDirectory
    split
    · rfl
    · rw [if_neg]
      rintro ⟨-, hd, -⟩
      exact absurd hd (by decide)
  unfold loadMetrics
  rw [hdata, mkdirRecursive, hdir, mkdirRecursive]
  rfl

theorem readyTree_spares : Spares dryArgs (plainHost readyTree) := by
  have hready : preparePath (plainHost readyTree) (syncOptions dryArgs) = .ok readyTree := by
    rw [dryArgs_parsed]
    exact preparePath_ready rfl (by decide +kernel)
  have hd : canonical readyTree (syncOptions dryArgs).localPath = some [['d']] := by
    rw [dryArgs_parsed]
    decide +kernel
  have hcwd : canonical readyTree (appDataDirectory (plainHost readyTree)) = some [] := by decide +kernel
  intro he _ _ hloc b hb
  obtain ⟨fs, hp, hb⟩ := (localPlace_iff (syncOptions_direction he hloc)).1 hb
  obtain rfl : readyTree = fs := Except.ok.inj (hready.symm.trans hp)
  obtain rfl : b = [['d']] := Option.some.inj (hb.symm.trans hd)
  refine ⟨fun l hl => ?_, fun e x hdata _ hname _ hpre => ?_⟩
  · have hthere : ∀ {also : Set Loc} {p : Str} {r : Loc}, canonical readyTree p = some r →
        Makes (plainHost readyTree).refused readyTree also (startAt readyTree.cwd p) (names p) = ∅ := by
      intro also p r hr
      exact Resolves.makes ⟨r, (leadsTo_some.1 hr).2⟩
    rcases hl with ⟨-, hl⟩ | hl
    · exact absurd ((hthere hd).subset hl) (Set.notMem_empty l)
    · exact absurd ((hthere hcwd).subset hl) (Set.notMem_empty l)
  · obtain ⟨hplace, -⟩ := (dataPlace_iff hready).1 hdata
    rw [loadMetrics_plain] at hplace
    obtain rfl : e = [] := Option.some.inj (hplace.symm.trans hcwd)
    obtain rfl : ['d'] = x := by simpa using hpre
    rcases hname with hm | hm
    · exact absurd hm (by decide)
    · exact absurd (List.isPrefixOf_iff_prefix.mpr hm) (by decide)

theorem dry_run_ready : Unchanged dryArgs (plainHost readyTree) noObjects
    ⟨1, loadMetrics (plainHost readyTree) readyTree, [], noObjects, none⟩ := by
  have hgiven : DryRunGiven dryArgs := by unfold DryRunGiven; decide +kernel
  have hready : preparePath (plainHost readyTree) (syncOptions dryArgs) = .ok readyTree := by
    rw [dryArgs_parsed]
    exact preparePath_ready rfl (by decide +kernel)
  exact (dry_run_spares dryArgs (plainHost readyTree) hgiven).2 readyTree_spares _ _ _ _ (dryArgs_ends hready)

end Mito
