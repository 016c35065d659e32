import MitoSync.Run
import MitoSync.S3Listing
/-!
# Gate — what an incomplete listing does to a run

`run_sync` refuses before its first mutation whenever the source was not listed in full, and so a delete it plans is of
a path the source really lacks.  The destination's flags do not gate: a destination entry the listing left out is
copied again or not deleted, and neither loses anything.
-/
namespace Mito

open Lib Prog

/-- What is really on the two sides of a sync: two trees, two buckets, or one of each. -/
structure Sides where
  sourceTree : Tree
  destTree : Tree
  sourceBucket : Bucket
  destBucket : Bucket

/-- How the classifier of a direction lists the source. -/
def SourceLists (sides : Sides) (config : SyncConfig) : Listing → Bool → Prop :=
  match config.direction with
  | .upload | .localToLocal => LocalLists sides.sourceTree
  | .download | .s3ToS3 => S3Lists sides.sourceBucket config.source.path

def DestLists (sides : Sides) (config : SyncConfig) : Listing → Bool → Prop :=
  match config.direction with
  | .upload | .s3ToS3 => S3Lists sides.destBucket config.destination.path
  | .download | .localToLocal => LocalLists sides.destTree

/-- Both sides were listed, whatever went wrong; `progress.cancelled`, once set, stays set. -/
structure Scanned (sides : Sides) (config : SyncConfig) (scan : Scan) : Prop where
  source : ∃ cancelled, SourceLists sides config scan.source cancelled ∧ (cancelled = true → scan.cancelled = true)
  dest : ∃ cancelled, DestLists sides config scan.dest cancelled ∧ (cancelled = true → scan.cancelled = true)
  classified : scan.cancelledClassify = true → scan.cancelled = true

/-- The paths of the true source: the files of the tree, or every key under the prefix. -/
def sourcePaths (sides : Sides) (config : SyncConfig) : Set Str :=
  match config.direction with
  | .upload | .localToLocal => sides.sourceTree.paths
  | .download | .s3ToS3 => { path | sides.sourceBucket (makeS3Key config.source.path path) ≠ none }

/-! ## Past the refusal -/

/-- The `enumeration_ok` of a direction's classifier. -/
def sourceComplete (config : SyncConfig) (source : Listing) : Bool :=
  match config.direction with
  | .upload | .localToLocal => if source.aliasOmitted then false else source.complete
  | .download | .s3ToS3 => source.complete

/-- The destination entries a direction's classifier reads. -/
def destEntries (config : SyncConfig) (scan : Scan) : List DirectoryEntry :=
  match config.direction with
  | .upload | .s3ToS3 => scan.dest.entries
  | .download | .localToLocal => if scan.destExists then scan.dest.entries else []

theorem classify_eq (config : SyncConfig) (scan : Scan) :
    classify config scan =
      (if scan.cancelledClassify then []
        else planEntries (rolesOf config.direction) config.deleteOrphans scan.source.entries (destEntries config scan),
        sourceComplete config scan.source) := by
  unfold classify sourceComplete destEntries
  cases config.direction <;> rfl

theorem throw_bind {α β : Type} (m : String) (f : α → Except String β) : ((throw m : Except String α) >>= f) = .error m :=
  rfl

/-- **A plan is returned only where nothing refused**, and then it is the classifier's. -/
theorem planRun_ok {config : SyncConfig} {scan : Scan} {files : List SyncFileEntry}
    (h : planRun config scan = .ok files) :
    scan.cancelled = false ∧ sourceComplete config scan.source = true ∧ files = (classify config scan).1 := by
  have hok : (classify config scan).2 = sourceComplete config scan.source := by rw [classify_eq]
  unfold planRun at h
  rw [← hok]
  cases ho : scan.overlap with
  | some m => simp only [ho, throw_bind, reduceCtorEq] at h
  | none =>
  cases hs : scan.sweep with
  | some m => simp only [ho, hs, throw_bind, reduceCtorEq] at h
  | none =>
  cases hc : scan.clients with
  | some m => simp only [ho, hs, hc, throw_bind, reduceCtorEq] at h
  | none =>
  simp only [ho, hs, hc] at h
  cases hx : scan.cancelled with
  | true => simp only [hx, if_true, throw_bind, reduceCtorEq] at h
  | false =>
  simp only [hx, Bool.false_eq_true, if_false] at h
  cases he : (classify config scan).2 with
  | false => simp only [he, Bool.not_false, if_true, throw_bind, reduceCtorEq] at h
  | true =>
  simp only [he, Bool.not_true, Bool.false_eq_true, if_false] at h
  cases ha : scan.sweepAgain with
  | some m => simp only [ha, throw_bind, reduceCtorEq] at h
  | none =>
  simp only [ha] at h
  exact ⟨rfl, rfl, (Except.ok.inj h).symm⟩

/-- The plan of an uncancelled scan is made of the two listings. -/
theorem planRun_files {sides : Sides} {config : SyncConfig} {scan : Scan} (hs : Scanned sides config scan)
    {files : List SyncFileEntry} (h : planRun config scan = .ok files) :
    files = planEntries (rolesOf config.direction) config.deleteOrphans scan.source.entries
      (destEntries config scan) := by
  obtain ⟨hc, -, rfl⟩ := planRun_ok h
  rw [classify_eq]
  have hcc : scan.cancelledClassify = false := by
    cases hx : scan.cancelledClassify with
    | false => rfl
    | true => rw [hs.classified hx] at hc; exact absurd hc (by simp)
  simp [hcc]

/-! ## What the listings say of the two sides -/

theorem Tree.File.isFilePath {T : Tree} {n : Nat} {path : Str} {i : SyncEntryInfo} (h : T.File n path i) :
    isFilePath path := by
  induction h with
  | here hd he =>
    obtain ⟨hne, hns⟩ := Dir.named _ _ he
    exact ⟨hne, fun hl => hns (List.mem_of_getLast? hl)⟩
  | @inside n m D name path l i hd he hf ih =>
    refine ⟨by simp, fun hl => ih.2 ?_⟩
    rw [List.getLast?_append_of_ne_nil _ (by simp), List.getLast?_cons, Option.some.injEq,
      List.getLast?_eq_some_getLast ih.1, Option.getD_some] at hl
    rw [List.getLast?_eq_some_getLast ih.1, hl]

/-- **A listing that says it is whole has every path of the source.** -/
theorem sourceLists_paths {sides : Sides} {config : SyncConfig} {l : Listing} {cancelled : Bool}
    (h : SourceLists sides config l cancelled) :
    l.paths.Nodup ∧ (∀ p ∈ l.paths, p ∈ sourcePaths sides config) ∧
      (sourceComplete config l = true → cancelled = false →
        ∀ p ∈ sourcePaths sides config, isFilePath p → p ∈ l.paths) := by
  have hlocal : LocalLists sides.sourceTree l cancelled → l.paths.Nodup ∧
      (∀ p ∈ l.paths, p ∈ sides.sourceTree.paths) ∧ ((if l.aliasOmitted then false else l.complete) = true →
        cancelled = false → ∀ p ∈ sides.sourceTree.paths, isFilePath p → p ∈ l.paths) := by
    intro h
    obtain ⟨hn, hin, hall⟩ := localLists_paths h
    refine ⟨hn, hin, fun hw hc p hp _ => hall ?_ hc p hp⟩
    split at hw
    · exact absurd hw (by simp)
    · rename_i ha
      exact ⟨hw, by simpa using ha⟩
  have hs3 : S3Lists sides.sourceBucket config.source.path l cancelled → l.paths.Nodup ∧
      (∀ p ∈ l.paths, sides.sourceBucket (makeS3Key config.source.path p) ≠ none) ∧ (l.complete = true →
        cancelled = false → ∀ p, sides.sourceBucket (makeS3Key config.source.path p) ≠ none → isFilePath p →
          p ∈ l.paths) := by
    intro h
    obtain ⟨hn, hin, hall⟩ := s3Lists_paths h
    exact ⟨hn, fun p hp => (hin p hp).2, fun hw hc p hp hf => hall hw hc p ⟨hf, hp⟩⟩
  unfold SourceLists at h
  unfold sourcePaths sourceComplete
  cases hd : config.direction <;> simp only [hd] at h ⊢
  · exact hlocal h
  · exact hs3 h
  · exact hs3 h
  · exact hlocal h

theorem destLists_paths {sides : Sides} {config : SyncConfig} {l : Listing} {cancelled : Bool}
    (h : DestLists sides config l cancelled) : l.paths.Nodup ∧ ∀ p ∈ l.paths, isFilePath p := by
  have hlocal : LocalLists sides.destTree l cancelled → l.paths.Nodup ∧ ∀ p ∈ l.paths, isFilePath p := by
    intro h
    obtain ⟨hn, hin, -⟩ := localLists_paths h
    refine ⟨hn, fun p hp => ?_⟩
    obtain ⟨i, n, -, hf⟩ := hin p hp
    exact hf.isFilePath
  have hs3 : S3Lists sides.destBucket config.destination.path l cancelled →
      l.paths.Nodup ∧ ∀ p ∈ l.paths, isFilePath p := by
    intro h
    obtain ⟨hn, hin, -⟩ := s3Lists_paths h
    exact ⟨hn, fun p hp => (hin p hp).1⟩
  unfold DestLists at h
  cases hd : config.direction <;> simp only [hd] at h
  · exact hs3 h
  · exact hlocal h
  · exact hs3 h
  · exact hlocal h

theorem destEntries_subset (config : SyncConfig) (scan : Scan) {e : DirectoryEntry}
    (he : e ∈ destEntries config scan) : e ∈ scan.dest.entries := by
  unfold destEntries at he
  cases hd : config.direction <;> simp only [hd, List.mem_ite_nil_right] at he
  · exact he
  · exact he.2
  · exact he
  · exact he.2

/-! ## Deletes -/

/-- **A delete is of a path the true source lacks**: whatever went wrong while the source was listed, a run that has a
plan has seen every path of the source. -/
theorem planned_delete_absent {sides : Sides} {config : SyncConfig} {scan : Scan} (hs : Scanned sides config scan)
    {files : List SyncFileEntry} (hp : planRun config scan = .ok files) {f : SyncFileEntry} (hf : f ∈ actionable files)
    (ha : f.action = .delete) : f.relativePath ∉ sourcePaths sides config := by
  intro hin
  obtain ⟨hc, hwhole, -⟩ := planRun_ok hp
  obtain ⟨c, hsrc, hcs⟩ := hs.source
  obtain ⟨c', hdst, -⟩ := hs.dest
  have hcf : c = false := by
    cases c with
    | false => rfl
    | true => rw [hcs rfl] at hc; exact absurd hc (by simp)
  have hf' : f ∈ files := List.mem_of_mem_filter hf
  rw [planRun_files hs hp] at hf'
  obtain ⟨-, hd, hn⟩ := planEntries_delete hf' ha
  obtain ⟨e, he, hpe⟩ := List.mem_map.1 hd
  have hpath : isFilePath f.relativePath := by
    rw [← hpe]
    exact (destLists_paths hdst).2 _ (List.mem_map_of_mem (destEntries_subset config scan he))
  exact hn ((sourceLists_paths hsrc).2.2 hwhole hcf _ hin hpath)

/-- A tree of one file, `a`. -/
def oneFileTree (size mtime : Int) : Tree where
  root := .dir 0
  dir n := if n = 0 then some ⟨[⟨['a'], false, .file size mtime⟩], by simp, by simp⟩ else none

theorem oneFileTree_lists (size mtime : Int) :
    LocalLists (oneFileTree size mtime) { entries := [⟨['a'], size, mtime⟩] } false := lists_file rfl rfl rfl

/-- A bucket of one object, whose key is one character. -/
def oneObjectBucket (c : Char) (i : SyncEntryInfo) : Bucket := fun k => if k = [c] then some i else none

theorem oneObjectBucket_lists {c : Char} (hc : c ≠ '/') (i : SyncEntryInfo) :
    S3Lists (oneObjectBucket c i) [] { entries := [⟨[c], i.size, i.mtime⟩] } false := by
  refine .walked (w := ⟨[], [], [], [], [⟨[c], i.size, i.mtime⟩], true, false⟩) ?_ ⟨rfl, rfl, rfl, .inl rfl⟩
  have hpath : listedPath false [] [] [c] = some [c] := by simp [listedPath, hc]
  have hlisted : Listed (oneObjectBucket c i) [] ([([c], i)] ++ []) ([] ++ []) :=
    ⟨by simp, by simp [oneObjectBucket, hc.symm], by simp, by simp⟩
  have hcovers : (⟨[], { objects := [([c], i)] }, [], List.prefix_rfl, .inl rfl, hlisted⟩ :
      Pages (oneObjectBucket c i) []).Covers := by
    intro k hk _
    apply Or.inl
    by_contra hne
    exact hk (if_neg (by simpa [Pages.objects] using hne))
  have hread : ∀ R : Pages (oneObjectBucket c i) [], R.currentPrefix = [] → R.page.objects.head? = some ([c], i) →
      ReadsPrefix false (oneObjectBucket c i) [] R true [⟨[c], i.size, i.mtime⟩] [] (some R.tail) true := by
    intro R hR ho
    have h : ReadsPrefix false (oneObjectBucket c i) [] R true
        ((listedPath false [] R.currentPrefix [c]).toList.map (fun p => ⟨p, i.size, i.mtime⟩)) [] (some R.tail) true := .object ho
    rw [hR, hpath] at h
    exact h
  refine .head (.opens (a := []) (b := []) rfl (.listed hcovers)) ?_
  refine .head (.reads (a := []) (b := []) rfl (hread _ rfl rfl)) ?_
  refine .head (.reads (a := []) (b := []) rfl (.page rfl)) ?_
  refine .head (.merge (a := []) (b := []) rfl (.inl rfl)) ?_
  exact .single (.advance rfl rfl)

/-- The file is uploaded and the object deleted. -/
theorem planned_delete_absent_one :
    ['b'] ∉ sourcePaths ⟨oneFileTree 1 5, oneFileTree 1 5, oneObjectBucket 'b' ⟨1, 5⟩, oneObjectBucket 'b' ⟨1, 5⟩⟩
      { deleteOrphans := true } := by
  have hs : Scanned ⟨oneFileTree 1 5, oneFileTree 1 5, oneObjectBucket 'b' ⟨1, 5⟩, oneObjectBucket 'b' ⟨1, 5⟩⟩
      { deleteOrphans := true } { source := { entries := [⟨['a'], 1, 5⟩] }, dest := { entries := [⟨['b'], 1, 5⟩] } } :=
    ⟨⟨false, oneFileTree_lists 1 5, by simp⟩, ⟨false, oneObjectBucket_lists (by simp) _, by simp⟩, by simp⟩
  exact planned_delete_absent hs rfl (f := { relativePath := ['b'], action := .delete, s3Size := 1 }) (by decide) rfl

/-! ## Refusals -/

/-- The source was not listed in full: a page, a directory or an entry could not be read or an alias was left out, and
the listing says so, or a path of the source is not in it, on a system that follows every path (`LocalLists`: an answer
"too many links" or "name too long" is true). -/
def SourceIncomplete (sides : Sides) (config : SyncConfig) (scan : Scan) : Prop :=
  sourceComplete config scan.source = false ∨
    ∃ p ∈ sourcePaths sides config, isFilePath p ∧ p ∉ scan.source.paths

theorem planRun_incomplete {sides : Sides} {config : SyncConfig} {scan : Scan} (hs : Scanned sides config scan)
    (hi : SourceIncomplete sides config scan) (files : List SyncFileEntry) : planRun config scan ≠ .ok files := by
  intro hp
  obtain ⟨hc, hwhole, -⟩ := planRun_ok hp
  rcases hi with hi | ⟨p, hin, hfile, hout⟩
  · rw [hi] at hwhole; exact absurd hwhole (by simp)
  · obtain ⟨c, hsrc, hcs⟩ := hs.source
    cases c with
    | true => rw [hcs rfl] at hc; exact absurd hc (by simp)
    | false => exact hout ((sourceLists_paths hsrc).2.2 hwhole rfl p hin hfile)

/-- The flags of the destination's listing do not enter the plan. -/
theorem planRun_dest_flags (config : SyncConfig) (scan : Scan) (complete aliasOmitted : Bool) :
    planRun config { scan with dest := ⟨scan.dest.entries, complete, aliasOmitted⟩ } = planRun config scan := by
  have hc : classify config { scan with dest := ⟨scan.dest.entries, complete, aliasOmitted⟩ } =
      classify config scan := by
    rw [classify_eq, classify_eq]
    rfl
  unfold planRun
  rw [hc]

theorem runs_of_planRun_eq {S : Setting} {limits : Limits} {config : SyncConfig} {scan scan' : Scan} {w w' : World}
    {r : Option Bool} (hp : planRun config scan' = planRun config scan) (h : Runs S limits config scan w r w') :
    Runs S limits config scan' w r w' := by
  cases h with
  | refused h => exact .refused (hp.trans h)
  | dry h hd c => exact .dry (hp.trans h) hd c
  | running h hd hn hy => exact .running (hp.trans h) hd hn hy
  | returned h hd hn hy ho hc => exact .returned (hp.trans h) hd hn hy ho hc

/-- **An incomplete source listing makes a run change nothing and fail, and an incomplete destination listing alone
makes no difference to it.** -/
theorem runs_incomplete {sides : Sides} {config : SyncConfig} {scan : Scan} (hs : Scanned sides config scan)
    (S : Setting) (limits : Limits) (w : World) :
    (SourceIncomplete sides config scan → ∀ r w', Runs S limits config scan w r w' → r = some false ∧ w' = w) ∧
    (∀ complete aliasOmitted r w',
      Runs S limits config { scan with dest := ⟨scan.dest.entries, complete, aliasOmitted⟩ } w r w' ↔
        Runs S limits config scan w r w') := by
  constructor
  · intro hi r w' hr
    cases hr with
    | refused h => exact ⟨rfl, rfl⟩
    | dry h _ _ => exact absurd h (planRun_incomplete hs hi _)
    | running h _ _ _ => exact absurd h (planRun_incomplete hs hi _)
    | returned h _ _ _ _ _ => exact absurd h (planRun_incomplete hs hi _)
  · intro complete aliasOmitted r w'
    have hp := planRun_dest_flags config scan complete aliasOmitted
    exact ⟨runs_of_planRun_eq hp.symm, runs_of_planRun_eq hp⟩

/-- A source that is not a directory is refused. -/
theorem runs_incomplete_not_directory :
    Runs ⟨fun _ => none, fun _ => 0, fun _ => True, .sound⟩ ⟨0, 0⟩ {}
        { source := { entries := [], complete := false }, dest := { entries := [⟨['b'], 1, 5⟩] } }
        ⟨fun _ => none, fun _ => {}⟩ (some false) ⟨fun _ => none, fun _ => {}⟩ ∧
      ∀ r w', Runs ⟨fun _ => none, fun _ => 0, fun _ => True, .sound⟩ ⟨0, 0⟩ {}
        { source := { entries := [], complete := false }, dest := { entries := [⟨['b'], 1, 5⟩] } }
        ⟨fun _ => none, fun _ => {}⟩ r w' → r = some false ∧ w' = ⟨fun _ => none, fun _ => {}⟩ := by
  have hs : Scanned ⟨oneFileTree 1 5, oneFileTree 1 5, oneObjectBucket 'b' ⟨1, 5⟩, oneObjectBucket 'b' ⟨1, 5⟩⟩ {}
      { source := { entries := [], complete := false }, dest := { entries := [⟨['b'], 1, 5⟩] } } :=
    ⟨⟨false, .notDirectory, by simp⟩, ⟨false, oneObjectBucket_lists (by simp) _, by simp⟩, by simp⟩
  exact ⟨.refused rfl, (runs_incomplete hs _ _ _).1 (.inl rfl)⟩

/-- A destination that cannot be listed at all. -/
theorem failedBucket_lists : S3Lists (oneObjectBucket 'b' ⟨1, 5⟩) [] { entries := [], complete := false } false := by
  refine .walked (w := ⟨[], [], [], [], [], false, false⟩) ?_ ⟨rfl, rfl, rfl, .inl rfl⟩
  refine .head (.opens (a := []) (b := []) rfl .failed) ?_
  refine .head (.merge (a := []) (b := []) rfl (.inl rfl)) ?_
  exact .single (.advance rfl rfl)

/-- The file `a` on a machine without faults, whose clock stands at 9. -/
def oneFileSetting : Setting where
  source k := if k = ['a'] then some ⟨[7], 5, false⟩ else none
  crc _ := 0
  stamp t := t = 9
  mode := .sound

def oneFileLine : SyncFileEntry := { relativePath := ['a'], action := .upload, localSize := 1, localMtime := 5 }

def emptyWorld : World where
  store _ := none
  locals _ := {}

theorem planRun_oneFile (complete : Bool) :
    planRun {} { source := { entries := [⟨['a'], 1, 5⟩] }, dest := { entries := [], complete := complete } } =
      .ok [oneFileLine] := rfl

theorem oneFile_uploads {scan : Scan} (hp : planRun {} scan = .ok [oneFileLine]) :
    ∃ w', Runs oneFileSetting ⟨0, 0⟩ {} scan emptyWorld (some true) w' := by
  have hrun : Steps (exec (oneFileSetting.env ['a'])) (processEntry ⟨0, 0⟩ {} oneFileLine, {})
      (.ret .done, { entry := some ⟨[7], 9⟩ }) := by
    refine steps_answer (.ok [7]) {} ⟨rfl, rfl⟩ ?_
    refine steps_answer true {} rfl ?_
    refine steps_answer false {} ⟨by simp, by simp, rfl⟩ ?_
    refine steps_answer false {} ⟨by simp, by simp, rfl⟩ ?_
    refine steps_answer false {} ⟨by simp, by simp, rfl⟩ ?_
    refine steps_answer (.ok ()) _ ⟨by decide, 9, rfl, rfl⟩ ?_
    exact .refl
  obtain ⟨w', hr, -⟩ := runs_solo (w := emptyWorld) hp rfl rfl hrun rfl
  exact ⟨w', hr⟩

/-- Its run uploads all the same, and reports success. -/
theorem incomplete_dest_uploads :
    ¬ ∀ (sides : Sides) (config : SyncConfig) (scan : Scan), Scanned sides config scan →
      (SourceIncomplete sides config scan ∨ scan.dest.complete = false) →
      ∀ (S : Setting) (limits : Limits) (w : World) (r : Option Bool) (w' : World),
        Runs S limits config scan w r w' → r ≠ some true ∧ w' = w := by
  intro h
  have hs : Scanned ⟨oneFileTree 1 5, oneFileTree 1 5, oneObjectBucket 'b' ⟨1, 5⟩, oneObjectBucket 'b' ⟨1, 5⟩⟩ {}
      { source := { entries := [⟨['a'], 1, 5⟩] }, dest := { entries := [], complete := false } } :=
    ⟨⟨false, oneFileTree_lists 1 5, by simp⟩, ⟨false, failedBucket_lists, by simp⟩, by simp⟩
  obtain ⟨w', hr⟩ := oneFile_uploads (planRun_oneFile false)
  exact (h _ _ _ hs (.inr rfl) _ _ _ _ w' hr).1 rfl

end Mito
