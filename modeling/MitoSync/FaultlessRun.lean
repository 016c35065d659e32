import MitoSync.Completion
import MitoSync.Relay
/-!
# FaultlessRun — what a run without faults executes of its plan

The planner and the executors judge an entry by rules of their own.  Where nothing fails a run of `run_sync` executes
every line of its plan but those that a guard of their executor refuses: a path that `validate_relative_path` does not
accept, a source of a local copy that is itself a link, a differential upload of too many parts (`executes_planned`).
Each of the three guards refuses a line that the planner admits (`guards_refuse`).
-/
namespace Mito

open Lib Prog

/-- A run without faults: both sides were read as they are and the source in full, no check of `run_sync` refuses,
nobody cancels, no request and no call fails but where its own rules make it, the directories of the destination are
there or can be made, chunks that differ have checksums that differ, and an object that is copied within S3 has no more
parts than S3 takes. -/
structure Faultless (sides : Sides) (config : SyncConfig) (scan : Scan) (S : Setting) (w : World) : Prop where
  scanned : Scanned sides config scan
  describes : Describes sides config S w
  read : Read sides config scan
  undisturbed : Undisturbed config scan
  sound : S.mode = .sound
  clock : ∃ t, S.stamp t
  separates : S.Separates config w
  fresh : Fresh w
  wet : config.dryRun = false
  directories : ∀ i, (w.locals i).parent = true
  copies : ∀ files, planRun config scan = .ok files → ∀ f ∈ files, f.action = .copy →
    numChunks multipartPartSize (S.env f.relativePath).source.length ≤ kMaxMultipartParts

/-- A chunk that is not sent again lies in the object, where checksums separate. -/
theorem inRange_of_separates {E : Env} {old : Option Stored} (h : ∀ o, old = some o → E.Separates E.source o.bytes) :
    E.InRange old := by
  intro o ho i hu
  have hlen := congrArg List.length (unchangedChunk_eq (h o ho) hu)
  obtain ⟨hi, hio⟩ := unchangedChunk_lt hu
  rw [length_chunkCRC32s] at hi hio
  have hstart := (lt_numChunks defaultChunkSize_pos).1 hi
  have hstart' := (lt_numChunks defaultChunkSize_pos).1 hio
  rw [length_chunk hstart, length_chunk hstart'] at hlen
  rw [← chunk_end hstart, hlen, chunk_end hstart']
  exact Nat.min_le_right _ _

namespace Faultless

variable {sides : Sides} {config : SyncConfig} {scan : Scan} {S : Setting} {w : World} {files : List SyncFileEntry}
  {limits : Limits}

/-- A line meets no limit that its executor has no guard for. -/
theorem unhindered (h : Faultless sides config scan S w) (hp : planRun config scan = .ok files) {f : SyncFileEntry}
    (hf : f ∈ files) (i : Nat) : (S.env f.relativePath).Unhindered config f
      (w.store (destKey config f.relativePath)) (w.locals i).parent where
  copyParts ha := h.copies files hp f hf ha
  inRange ha := inRange_of_separates (h.separates.line h.scanned h.describes hp hf (.inl ha))
  directory _ _ := h.directories i

theorem line (h : Faultless sides config scan S w) (hp : planRun config scan = .ok files)
    (hfuel : turnsFor S (actionable files) ≤ limits.fuel) (i : Fin (actionable files).length) :
    wp (exec (S.env ((actionable files).get i).relativePath)) (fun _ => True) (fun _ => False)
      (processEntry limits config ((actionable files).get i))
      (fun o s' => s'.seen = false ∧ o ≠ .dropped ∧ (o = .done ↔ S.Accepts config w ((actionable files).get i)))
      (slotOf config (actionable files) i w) :=
  line_completes h.scanned h.describes h.read h.sound h.fresh hp hfuel i
    (h.unhindered hp (List.mem_of_mem_filter (List.getElem_mem _)) i)

/-- **It ends**, in whatever order the requests are answered. -/
theorem terminates (h : Faultless sides config scan S w) (hp : planRun config scan = .ok files)
    (hn : ((actionable files).map SyncFileEntry.relativePath).Nodup)
    (hfuel : turnsFor S (actionable files) ≤ limits.fuel) :
    Terminates (Pool.Step (slots config (actionable files) hn)
        (fun i => exec (S.env ((actionable files).get i).relativePath))) (fun y => ∀ i, ∃ o, y.1 i = .ret o)
      (fun i => processEntry limits config ((actionable files).get i), w) :=
  Pool.terminates (h.line hp hfuel) (fun _ => processEntry_served _ _ _) (fun _ c s hc => exec_serves h.clock c hc s)

theorem plan (h : Faultless sides config scan S w) : ∃ files, planRun config scan = .ok files ∧
    ((actionable files).map SyncFileEntry.relativePath).Nodup := by
  have hp := planRun_undisturbed h.undisturbed
  exact ⟨_, hp, (planned_nodup h.scanned hp).sublist (List.Sublist.map _ List.filter_sublist)⟩

/-- **A line that a guard refuses makes every run report failure.** -/
theorem refuses (h : Faultless sides config scan S w) (hp : planRun config scan = .ok files) {f : SyncFileEntry}
    (hf : f ∈ actionable files) (hno : ¬ S.Accepts config w f) (hfuel : turnsFor S (actionable files) ≤ limits.fuel) :
    (∃ w', Runs S limits config scan w (some false) w') ∧ ∀ w', ¬ Runs S limits config scan w (some true) w' := by
  obtain ⟨files', hp', hn⟩ := h.plan
  obtain rfl : files = files' := Except.ok.inj (hp.symm.trans hp')
  constructor
  · obtain ⟨y, hy, hret⟩ := (h.terminates hp hn hfuel).exists_over
    obtain ⟨-, success, hruns, hsuccess⟩ := executes_accepted hp h.wet (h.line hp hfuel) hy hret
    have hfails : success = false := by
      rw [← Bool.not_eq_true, hsuccess]
      exact fun hall => hno (hall f hf)
    exact ⟨y.2, hfails ▸ hruns⟩
  · intro w' hrun
    obtain ⟨files', hp', hn', y, hy, -, hall⟩ := runs_success h.wet hrun
    obtain rfl : files = files' := Except.ok.inj (hp.symm.trans hp')
    obtain ⟨hlines, -⟩ := executes_accepted hp h.wet (h.line hp hfuel) hy fun i => (hall i).imp fun _ h => h.1
    obtain ⟨n, hlt, rfl⟩ := List.getElem_of_mem hf
    obtain ⟨o, ho, hne, -⟩ := hall ⟨n, hlt⟩
    rcases hlines ⟨n, hlt⟩ with ⟨-, hok⟩ | ⟨hfailed, -⟩
    · exact hno hok
    · exact hne (Prog.ret.inj (ho.symm.trans hfailed))

end Faultless

/-- **Without faults a run executes what it planned, but for what its guards refuse**: it ends in whatever order the
requests are answered; a line that gets past its guards is done, with its goal's bytes at its path, and one that does not
has failed; and the run reports success exactly if all get past. -/
theorem executes_planned {sides : Sides} {config : SyncConfig} {scan : Scan} {S : Setting} {w : World}
    (h : Faultless sides config scan S w) :
    ∃ files, planRun config scan = .ok files ∧ ∃ hn fuel, ∀ limits : Limits, fuel ≤ limits.fuel →
      Terminates (Pool.Step (slots config (actionable files) hn)
          (fun i => exec (S.env ((actionable files).get i).relativePath))) (fun y => ∀ i, ∃ o, y.1 i = .ret o)
        (fun i => processEntry limits config ((actionable files).get i), w) ∧
      ∀ y, Executes S limits config (actionable files) hn w y → (∀ i, ∃ o, y.1 i = .ret o) →
        (∀ i, S.Accepts config w ((actionable files).get i) → y.1 i = .ret .done ∧
          y.2.has config ((actionable files).get i).relativePath =
            ((actionable files).get i).goal (S.env ((actionable files).get i).relativePath).source) ∧
        (∀ i, ¬ S.Accepts config w ((actionable files).get i) → y.1 i = .ret .failed) ∧
        ∃ success, Runs S limits config scan w (some success) y.2 ∧
          (success = true ↔ ∀ f ∈ actionable files, S.Accepts config w f) := by
  obtain ⟨files, hp, hn⟩ := h.plan
  refine ⟨files, hp, hn, turnsFor S (actionable files), fun limits hfuel =>
    ⟨h.terminates hp hn hfuel, fun y hy hret => ?_⟩⟩
  obtain ⟨hlines, hsuccess⟩ := executes_accepted hp h.wet (h.line hp hfuel) hy hret
  refine ⟨fun i hok => ?_, fun i hno => ((hlines i).resolve_left fun hd => hno hd.2).1, hsuccess⟩
  have hdone := ((hlines i).resolve_right fun hf => hf.2 hok).1
  exact ⟨hdone, (executes_counted h.scanned h.describes h.separates h.fresh hp hy hdone).content⟩

/-! ## A copy and a delete -/

/-- One file on a machine without faults, whose clock stands at 9. -/
def loneSetting (c : Char) (file : SourceFile) : Setting where
  source k := if k = [c] then some file else none
  crc _ := 0
  stamp t := t = 9
  mode := .sound

def relocateConfig : SyncConfig := { direction := .s3ToS3, deleteOrphans := true }

def relocateSides : Sides :=
  ⟨oneFileTree 1 5, oneFileTree 1 5, oneObjectBucket 'a' ⟨1, 5⟩, oneObjectBucket 'b' ⟨1, 5⟩⟩

def relocateScan : Scan where
  source := { entries := [⟨['a'], 1, 5⟩] }
  dest := { entries := [⟨['b'], 1, 5⟩] }

/-- The destination has an object that the source lacks. -/
def orphanWorld : World where
  store k := if k = ['b'] then some ⟨[3], 5⟩ else none
  locals _ := { parent := true }

def relocatePlan : List SyncFileEntry :=
  [{ relativePath := ['a'], action := .copy, s3Size := 1 }, { relativePath := ['b'], action := .delete, destSize := 1 }]

theorem relocate_plan : planRun relocateConfig relocateScan = .ok relocatePlan := rfl

theorem relocate_faultless :
    Faultless relocateSides relocateConfig relocateScan (loneSetting 'a' ⟨[7], 5, false⟩) orphanWorld where
  scanned := ⟨⟨false, oneObjectBucket_lists (by decide) _, by simp⟩, ⟨false, oneObjectBucket_lists (by decide) _, by simp⟩,
    by simp [relocateScan]⟩
  describes := by
    refine ⟨fun p i _ => ?_, fun p i _ => ?_⟩
    · by_cases hp : p = ['a'] <;>
        simp [sourceHas, relocateConfig, relocateSides, oneObjectBucket, makeS3Key, withSlash, loneSetting, hp, eq_comm]
    · by_cases hp : p = ['b'] <;>
        simp [destHas, relocateConfig, relocateSides, oneObjectBucket, makeS3Key, withSlash, destKey, destRoot,
          orphanWorld, hp, eq_comm]
  read := by
    refine ⟨fun e he => ?_, fun e he => ?_⟩
    · obtain rfl : e = ⟨['a'], 1, 5⟩ := by simpa [relocateScan] using he
      simp [sourceHas, relocateConfig, relocateSides, oneObjectBucket, makeS3Key, withSlash]
    · obtain rfl : e = ⟨['b'], 1, 5⟩ := by simpa [relocateScan] using he
      simp [destHas, relocateConfig, relocateSides, oneObjectBucket, makeS3Key, withSlash]
  undisturbed := ⟨rfl, rfl, rfl, rfl, rfl, rfl⟩
  sound := rfl
  clock := ⟨9, rfl⟩
  separates := by
    intro p file o hsrc ho
    by_cases hp : p = ['a']
    · subst hp
      simp [orphanWorld, destKey, destRoot, relocateConfig, makeS3Key, withSlash] at ho
    · simp [loneSetting, hp] at hsrc
  fresh i := ⟨rfl, rfl, rfl⟩
  wet := rfl
  directories _ := rfl
  copies := by
    intro files hp f hf ha
    obtain rfl : files = relocatePlan := Except.ok.inj (hp.symm.trans relocate_plan)
    have hpath : f.relativePath = ['a'] := by
      rcases List.mem_cons.1 hf with rfl | hf
      · rfl
      · obtain rfl := List.mem_singleton.1 hf
        cases ha
    rw [hpath]
    decide

/-- The object is copied and the other deleted, in every order of the requests. -/
theorem executes_planned_relocate :
    ∃ hn fuel, ∀ limits : Limits, fuel ≤ limits.fuel →
      Terminates (Pool.Step (slots relocateConfig (actionable relocatePlan) hn)
          (fun i => exec ((loneSetting 'a' ⟨[7], 5, false⟩).env ((actionable relocatePlan).get i).relativePath)))
        (fun y => ∀ i, ∃ o, y.1 i = .ret o)
        (fun i => processEntry limits relocateConfig ((actionable relocatePlan).get i), orphanWorld) ∧
      ∀ y, Executes (loneSetting 'a' ⟨[7], 5, false⟩) limits relocateConfig (actionable relocatePlan) hn orphanWorld y →
        (∀ i, ∃ o, y.1 i = .ret o) → (∀ i, y.1 i = .ret .done) ∧ y.2.has relocateConfig ['a'] = some [7] ∧
          y.2.has relocateConfig ['b'] = none ∧
          Runs (loneSetting 'a' ⟨[7], 5, false⟩) limits relocateConfig relocateScan orphanWorld (some true) y.2 := by
  have haccepts : ∀ f ∈ actionable relocatePlan,
      (loneSetting 'a' ⟨[7], 5, false⟩).Accepts relocateConfig orphanWorld f := by
    intro f hf
    have hact : f.action = .copy ∨ f.action = .delete := by
      revert f
      decide
    refine ⟨fun h => ?_, fun h => ?_, fun h => ?_⟩
    · rcases hact with ha | ha <;> simp [SyncFileEntry.toFile, ha, relocateConfig] at h
    · rcases hact with ha | ha <;> cases ha.symm.trans h
    · rcases hact with ha | ha <;> cases ha.symm.trans h
  obtain ⟨files, hp, hn, fuel, h⟩ := executes_planned relocate_faultless
  obtain rfl : files = relocatePlan := Except.ok.inj (hp.symm.trans relocate_plan)
  refine ⟨hn, fuel, fun limits hlimits => ⟨(h limits hlimits).1, fun y hy hret => ?_⟩⟩
  obtain ⟨hdone, -, success, hruns, hsuccess⟩ := (h limits hlimits).2 y hy hret
  rw [hsuccess.2 haccepts] at hruns
  have hall := fun i => hdone i (haccepts _ (List.getElem_mem i.isLt))
  exact ⟨fun i => (hall i).1, (hall (0 : Fin 2)).2, (hall (1 : Fin 2)).2, hruns⟩

/-! ## A line for each guard -/

/-- A run over one file to an empty destination. -/
theorem lone_faultless {c : Char} {file : SourceFile} {sides : Sides} {config : SyncConfig} {scan : Scan}
    {line : SyncFileEntry} (hs : Scanned sides config scan)
    (hsource : ∀ p i, sourceHas sides config p i ↔ p = [c] ∧ i = ⟨file.bytes.length, file.mtime⟩)
    (hdest : ∀ p i, ¬ destHas sides config p i) (hentries : scan.source.entries = [⟨[c], file.bytes.length, file.mtime⟩])
    (hnone : scan.dest.entries = []) (hcalm : Undisturbed config scan) (hwet : config.dryRun = false)
    (hp : planRun config scan = .ok [line]) (hcopy : line.action ≠ .copy) :
    Faultless sides config scan (loneSetting c file) readyWorld where
  scanned := hs
  describes := by
    refine ⟨fun p i _ => (hsource p i).trans ?_, fun p i _ => iff_of_false (hdest p i) (by simp [readyWorld])⟩
    by_cases hpath : p = [c] <;> simp [loneSetting, hpath]
  read := by
    refine ⟨fun e he => ?_, fun e he => absurd he (by simp [hnone])⟩
    obtain rfl : e = ⟨[c], file.bytes.length, file.mtime⟩ := by simpa [hentries] using he
    exact (hsource _ _).2 ⟨rfl, rfl⟩
  undisturbed := hcalm
  sound := rfl
  clock := ⟨9, rfl⟩
  separates _ _ _ _ ho := absurd ho (by simp [readyWorld])
  fresh _ := ⟨rfl, rfl, rfl⟩
  wet := hwet
  directories _ := rfl
  copies files hp' f hf ha := by
    obtain rfl : files = [line] := Except.ok.inj (hp'.symm.trans hp)
    obtain rfl := List.mem_singleton.1 hf
    exact absurd ha hcopy

/-- There is nowhere the destination is. -/
def noTree : Tree := ⟨.unresolved, fun _ => none⟩

theorem noTree_has (p : Str) (i : SyncEntryInfo) : ¬ noTree.Has p i := by
  rintro ⟨n, hn, -⟩
  cases hn

/-- No destination was listed, for there is none. -/
def intoNowhere (e : DirectoryEntry) : Scan where
  source := { entries := [e] }
  dest := { entries := [], complete := false }
  destExists := false

/-- Every run reports failure, given turns enough, and there is one. -/
def Setting.ReportsFailure (S : Setting) (config : SyncConfig) (scan : Scan) (w : World) : Prop :=
  ∃ fuel, ∀ limits : Limits, fuel ≤ limits.fuel →
    (∃ w', Runs S limits config scan w (some false) w') ∧ ∀ w', ¬ Runs S limits config scan w (some true) w'

theorem lone_refused {c : Char} {file : SourceFile} {sides : Sides} {config : SyncConfig} {scan : Scan}
    {line : SyncFileEntry} (h : Faultless sides config scan (loneSetting c file) readyWorld)
    (hp : planRun config scan = .ok [line]) (hskip : line.action ≠ .skip)
    (hno : ¬ (loneSetting c file).Accepts config readyWorld line) :
    (loneSetting c file).ReportsFailure config scan readyWorld := by
  have hf : line ∈ actionable [line] := List.mem_filter.2 ⟨List.mem_singleton.2 rfl, by simpa using hskip⟩
  exact ⟨_, fun _ hfuel => h.refuses hp hf hno hfuel⟩

/-- A directory whose one file is reached through a link of that name. -/
def linkTree : Tree where
  root := .dir 0
  dir n := if n = 0 then some ⟨[⟨['a'], true, .file 1 5⟩], by simp, by simp⟩ else none

def copyOver : SyncConfig := { direction := .localToLocal, localPath := ['s'], destLocalPath := ['d'] }

theorem link_refused : Faultless ⟨linkTree, noTree, emptyBucket, emptyBucket⟩ copyOver (intoNowhere ⟨['a'], 1, 5⟩)
      (loneSetting 'a' ⟨[7], 5, true⟩) readyWorld ∧
    (loneSetting 'a' ⟨[7], 5, true⟩).ReportsFailure copyOver (intoNowhere ⟨['a'], 1, 5⟩) readyWorld := by
  have hp : planRun copyOver (intoNowhere ⟨['a'], 1, 5⟩) =
    .ok [{ relativePath := ['a'], action := .upload, localSize := 1 }] := rfl
  have hlists : LocalLists linkTree { entries := [⟨['a'], 1, 5⟩] } false := lists_file rfl rfl rfl
  have h : Faultless ⟨linkTree, noTree, emptyBucket, emptyBucket⟩ copyOver (intoNowhere ⟨['a'], 1, 5⟩)
      (loneSetting 'a' ⟨[7], 5, true⟩) readyWorld :=
    lone_faultless ⟨⟨false, hlists, by simp⟩, ⟨false, .notDirectory, by simp⟩, by simp [intoNowhere]⟩
      (Tree.has_single rfl rfl rfl) noTree_has rfl rfl ⟨rfl, rfl, rfl, rfl, rfl, rfl⟩ rfl hp (by simp)
  refine ⟨h, lone_refused h hp (by simp) fun hok => ?_⟩
  exact absurd (hok.link rfl rfl) (by decide)

theorem separator_refused : Faultless ⟨noTree, noTree, oneObjectBucket '\\' ⟨1, 5⟩, emptyBucket⟩ intoDir
      (intoNowhere ⟨['\\'], 1, 5⟩) (loneSetting '\\' ⟨[7], 5, false⟩) readyWorld ∧
    (loneSetting '\\' ⟨[7], 5, false⟩).ReportsFailure intoDir (intoNowhere ⟨['\\'], 1, 5⟩) readyWorld := by
  have hp : planRun intoDir (intoNowhere ⟨['\\'], 1, 5⟩) =
    .ok [{ relativePath := ['\\'], action := .download, s3Size := 1 }] := rfl
  have h : Faultless ⟨noTree, noTree, oneObjectBucket '\\' ⟨1, 5⟩, emptyBucket⟩ intoDir
      (intoNowhere ⟨['\\'], 1, 5⟩) (loneSetting '\\' ⟨[7], 5, false⟩) readyWorld :=
    lone_faultless ⟨⟨false, oneObjectBucket_lists (by decide) _, by simp⟩, ⟨false, .notDirectory, by simp⟩,
        by simp [intoNowhere]⟩ (fun p i => by
        simp [sourceHas, intoDir, oneObjectBucket, makeS3Key, withSlash, eq_comm])
      noTree_has rfl rfl ⟨rfl, rfl, rfl, rfl, rfl, rfl⟩ rfl hp (by simp)
  refine ⟨h, lone_refused h hp (by simp) fun hok => ?_⟩
  exact absurd (hok.path (.inl rfl)) (by decide)

/-- One byte more than 10000 parts of 8 MiB. -/
def manyParts : SourceFile := ⟨List.replicate 83886080001 0, 5, false⟩

def manyPartsScan : Scan where
  source := { entries := [⟨['a'], 83886080001, 5⟩] }
  dest := { entries := [] }

theorem parts_refused : Faultless ⟨oneFileTree 83886080001 5, noTree, emptyBucket, emptyBucket⟩ {} manyPartsScan
      (loneSetting 'a' manyParts) readyWorld ∧
    (loneSetting 'a' manyParts).ReportsFailure {} manyPartsScan readyWorld := by
  have hlen : manyParts.bytes.length = 83886080001 := List.length_replicate
  have hcast : (manyParts.bytes.length : Int) = 83886080001 := congrArg Int.ofNat hlen
  have hp : planRun {} manyPartsScan =
    .ok [{ relativePath := ['a'], action := .uploadDiff, localSize := 83886080001, localMtime := 5 }] := rfl
  have h : Faultless ⟨oneFileTree 83886080001 5, noTree, emptyBucket, emptyBucket⟩ {} manyPartsScan
      (loneSetting 'a' manyParts) readyWorld :=
    lone_faultless ⟨⟨false, oneFileTree_lists _ _, by simp⟩, ⟨false, emptyBucket_lists, by simp⟩,
        by simp [manyPartsScan]⟩ (fun p i => by rw [hcast]; exact oneFileTree_has p i) (fun p i => by
        simp [destHas, emptyBucket]) (by rw [hcast]; rfl) rfl ⟨rfl, rfl, rfl, rfl, rfl, rfl⟩ rfl hp (by simp)
  refine ⟨h, lone_refused h hp (by simp) fun hok => ?_⟩
  rcases hok.parts rfl with ⟨-, hsize⟩ | hparts
  · exact absurd hsize (by simp [readyWorld])
  · have hsource : ((loneSetting 'a' manyParts).env ['a']).source.length = 83886080001 := hlen
    rw [hsource] at hparts
    exact absurd hparts (by decide)

/-- **Each guard refuses a line that the planner admits**, without any fault: a linked source of a local copy, a name
with a backslash, and a file of too many parts. -/
theorem guards_refuse :
    (Faultless ⟨linkTree, noTree, emptyBucket, emptyBucket⟩ copyOver (intoNowhere ⟨['a'], 1, 5⟩)
        (loneSetting 'a' ⟨[7], 5, true⟩) readyWorld ∧
      (loneSetting 'a' ⟨[7], 5, true⟩).ReportsFailure copyOver (intoNowhere ⟨['a'], 1, 5⟩) readyWorld) ∧
    (Faultless ⟨noTree, noTree, oneObjectBucket '\\' ⟨1, 5⟩, emptyBucket⟩ intoDir (intoNowhere ⟨['\\'], 1, 5⟩)
        (loneSetting '\\' ⟨[7], 5, false⟩) readyWorld ∧
      (loneSetting '\\' ⟨[7], 5, false⟩).ReportsFailure intoDir (intoNowhere ⟨['\\'], 1, 5⟩) readyWorld) ∧
    Faultless ⟨oneFileTree 83886080001 5, noTree, emptyBucket, emptyBucket⟩ {} manyPartsScan
        (loneSetting 'a' manyParts) readyWorld ∧
      (loneSetting 'a' manyParts).ReportsFailure {} manyPartsScan readyWorld :=
  ⟨link_refused, separator_refused, parts_refused⟩

end Mito
