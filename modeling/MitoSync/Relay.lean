import MitoSync.Convergence
import MitoSync.DiffSound
/-!
# Relay — a destination that is the next run's source

A run that reports success leaves a copy of its source exactly where every copy it skipped was one already, and what the
source lacks was deleted or never there (`Leg.copied_iff`).  Copies compose: what goes through any number of such runs,
each reading what the one before it left, arrives as it set out (`relayed`).  And `mito diff` agrees: of the two sides
of such a run it exits with 0 exactly if the run left a copy (`diff_exits_zero_iff_copied`).
-/
namespace Mito

open Lib Prog

/-! ## A copy -/

/-- What the source has at a path. -/
def Setting.has (S : Setting) (p : Str) : Option Bytes := (S.source p).map SourceFile.bytes

/-- What the destination has at a path. -/
def World.has (w : World) (config : SyncConfig) (p : Str) : Option Bytes :=
  (w.store (destKey config p)).map Stored.bytes

/-- The destination is a copy of the source. -/
def Setting.CopiedTo (S : Setting) (config : SyncConfig) (w : World) : Prop :=
  ∀ p, isFilePath p → w.has config p = S.has p

/-- A run that reported success, between sides that were listed in full. -/
structure Leg where
  sides : Sides
  config : SyncConfig
  scan : Scan
  setting : Setting
  limits : Limits
  before : World
  after : World
  scanned : Scanned sides config scan
  describes : Describes sides config setting before
  complete : DestComplete sides config scan
  separates : setting.Separates config before
  fresh : Fresh before
  wet : config.dryRun = false
  success : Runs setting limits config scan before (some true) after

namespace Leg

/-- What the run skips is a copy already, and nothing is left of what the source lacks. -/
structure Trusts (l : Leg) : Prop where
  skipped : ∀ files, planRun l.config l.scan = .ok files → ∀ f ∈ files, f.action = .skip →
    l.before.has l.config f.relativePath = l.setting.has f.relativePath
  rest : l.config.deleteOrphans = true ∨
    ∀ p, isFilePath p → l.setting.source p = none → l.before.store (destKey l.config p) = none

/-- **What a run did**: a line that was not skipped has its goal's bytes, and a path without one is as it was. -/
theorem did (l : Leg) : ∃ files, planRun l.config l.scan = .ok files ∧
    (∀ f ∈ files, f.action ≠ .skip →
      l.after.has l.config f.relativePath = f.goal (l.setting.env f.relativePath).source) ∧
    ∀ p, (∀ f ∈ files, f.relativePath = p → f.action = .skip) →
      l.after.store (destKey l.config p) = l.before.store (destKey l.config p) := by
  obtain ⟨files, hp, hdone, hkept⟩ := runs_did l.scanned l.describes l.separates l.fresh l.wet l.success
  refine ⟨files, hp, hdone, fun p hskips => hkept _ fun f hf hns hkey => ?_⟩
  exact hns (hskips f hf (makeS3Key_inj hkey))

variable {l : Leg} {files : List SyncFileEntry}

theorem skips_alone (hp : planRun l.config l.scan = .ok files) {f : SyncFileEntry} (hf : f ∈ files)
    (hskip : f.action = .skip) : ∀ g ∈ files, g.relativePath = f.relativePath → g.action = .skip := by
  intro g hg hgf
  rw [List.inj_on_of_nodup_map (planned_nodup l.scanned hp) hg hf hgf]
  exact hskip

/-- Where what is skipped is a copy, every path of the source gets its bytes. -/
theorem has_of_source (l : Leg) (hskipped : ∀ files, planRun l.config l.scan = .ok files → ∀ f ∈ files,
      f.action = .skip → l.before.has l.config f.relativePath = l.setting.has f.relativePath) {p : Str}
    {file : SourceFile} (hpath : isFilePath p) (hsrc : l.setting.source p = some file) :
    l.after.has l.config p = l.setting.has p := by
  obtain ⟨files, hp, hdone, hkept⟩ := l.did
  obtain ⟨f, hf, rfl, hdel⟩ := planned_of_source l.scanned l.describes hp hpath hsrc
  by_cases hskip : f.action = .skip
  · rw [World.has, hkept _ (skips_alone hp hf hskip)]
    exact hskipped files hp f hf hskip
  · rw [hdone f hf hskip, goal_of_ne hdel]
    simp [Setting.env, Setting.has, hsrc]

/-- **A run leaves a copy of its source exactly if what it skipped was one**, and what the source lacks was deleted or
never there. -/
theorem copied_iff (l : Leg) : l.setting.CopiedTo l.config l.after ↔ l.Trusts := by
  obtain ⟨files, hp, hdone, hkept⟩ := l.did
  constructor
  · intro hcopy
    refine ⟨fun files' hp' f hf hskip => ?_, ?_⟩
    · obtain rfl : files = files' := Except.ok.inj (hp.symm.trans hp')
      have hsame := hkept f.relativePath (skips_alone hp hf hskip)
      rw [← hcopy _ (planned_isFilePath l.scanned hp hf), World.has, World.has, hsame]
    · by_cases hdel : l.config.deleteOrphans = true
      · exact .inl hdel
      · refine .inr fun p hpath hsrc => ?_
        have hsame := hkept p fun f hf hfp => absurd (planned_deletes l.scanned l.describes hp hsrc f hf hfp).2.1 hdel
        have hnone := hcopy p hpath
        rw [World.has, hsame, Setting.has, hsrc, Option.map_none, Option.map_eq_none_iff] at hnone
        exact hnone
  · intro htrust p hpath
    cases hsrc : l.setting.source p with
    | some file => exact l.has_of_source htrust.skipped hpath hsrc
    | none =>
      rw [Setting.has, hsrc, Option.map_none]
      have hlines := planned_deletes l.scanned l.describes hp hsrc
      by_cases hstore : l.before.store (destKey l.config p) = none
      · rw [World.has, hkept p fun f hf hfp => absurd hstore (hlines f hf hfp).2.2, hstore, Option.map_none]
      · have hdel := htrust.rest.resolve_right fun h => hstore (h p hpath hsrc)
        obtain ⟨f, hf, rfl, ha⟩ := planned_of_orphan l.scanned l.describes l.complete hp hdel hpath hsrc hstore
        rw [hdone f hf (by rw [ha]; simp), goal_of_delete ha]

/-- A run to a place where there is nothing has nothing to trust. -/
theorem trusts_of_empty (h : ∀ p, isFilePath p → l.before.store (destKey l.config p) = none) : l.Trusts where
  skipped files hp f hf hskip := by
    obtain ⟨file, o, -, ho, -⟩ := planned_skip l.scanned l.describes hp hf hskip
    exact absurd ((h _ (planned_isFilePath l.scanned hp hf)).symm.trans ho) (by simp)
  rest := .inr fun p hpath _ => h p hpath

/-! ## From hand to hand -/

/-- The next run's source is what this one left. -/
def Feeds (l next : Leg) : Prop := ∀ p, isFilePath p → next.setting.has p = l.after.has l.config p

end Leg

/-- **What goes from hand to hand arrives as it set out.** -/
theorem relayed : ∀ (first : Leg) (rest : List Leg), List.IsChain Leg.Feeds (first :: rest) →
    (∀ l ∈ first :: rest, l.Trusts) → ∀ last ∈ (first :: rest).getLast?, ∀ p, isFilePath p →
      last.after.has last.config p = first.setting.has p
  | first, [], _, htrust, last, hlast, p, hpath => by
    obtain rfl : first = last := by simpa using hlast
    exact first.copied_iff.2 (htrust first List.mem_cons_self) p hpath
  | first, next :: rest, hchain, htrust, last, hlast, p, hpath => by
    obtain ⟨hfeeds, hrest⟩ := List.isChain_cons_cons.1 hchain
    have hnext := relayed next rest hrest (fun l hl => htrust l (List.mem_cons_of_mem _ hl)) last
      (by rwa [List.getLast?_cons_cons] at hlast) p hpath
    rw [hnext, hfeeds p hpath]
    exact first.copied_iff.2 (htrust first List.mem_cons_self) p hpath

/-! ### One file, up and on to another bucket -/

def copyOn : SyncConfig := { direction := .s3ToS3 }

/-- The bucket that a first run left a file in. -/
def copyOnSetting : Setting where
  source k := if k = ['a'] then some ⟨[7], 9, false⟩ else none
  crc _ := 0
  stamp t := t = 12
  mode := .sound

def copyOnSides : Sides where
  sourceTree := oneFileTree 1 5
  destTree := oneFileTree 1 5
  sourceBucket := oneObjectBucket 'a' ⟨1, 9⟩
  destBucket := emptyBucket

def copyOnScan : Scan where
  source := { entries := [⟨['a'], 1, 9⟩] }
  dest := { entries := [] }

theorem copyOn_describes : Describes copyOnSides copyOn copyOnSetting emptyWorld := by
  refine ⟨fun p i _ => ?_, fun p i _ => by simp [destHas, copyOn, copyOnSides, emptyBucket, emptyWorld]⟩
  by_cases hp : p = ['a']
  · simp [sourceHas, copyOn, copyOnSides, oneObjectBucket, makeS3Key, withSlash, copyOnSetting, hp, eq_comm]
  · simp [sourceHas, copyOn, copyOnSides, oneObjectBucket, makeS3Key, withSlash, copyOnSetting, hp]

theorem exists_copyOn : ∃ l : Leg, l.setting = copyOnSetting ∧ l.config = copyOn ∧ l.before = emptyWorld ∧
    l.after.store = Function.update (fun _ => none) ['a'] (some ⟨[7], 12⟩) := by
  have hrun : Steps (exec (copyOnSetting.env ['a']))
      (processEntry ⟨0, 0⟩ copyOn { relativePath := ['a'], action := .copy, s3Size := 1 }, {})
      (.ret .done, { entry := some ⟨[7], 12⟩ }) := by
    refine steps_answer false {} ⟨by simp, by simp, rfl⟩ ?_
    refine steps_answer false {} ⟨by simp, by simp, rfl⟩ ?_
    refine steps_answer false {} ⟨by simp, by simp, rfl⟩ ?_
    refine steps_answer false {} ⟨by simp, by simp, rfl⟩ ?_
    refine steps_answer (.ok ()) _ ⟨by decide, 12, rfl, rfl⟩ ?_
    exact .refl
  have hp : planRun copyOn copyOnScan = .ok [{ relativePath := ['a'], action := .copy, s3Size := 1 }] := rfl
  obtain ⟨w', hr, hw'⟩ := runs_solo (S := copyOnSetting) (w := emptyWorld) hp rfl rfl hrun rfl
  exact ⟨{
    sides := copyOnSides, config := copyOn, scan := copyOnScan, setting := copyOnSetting, limits := ⟨0, 0⟩
    before := emptyWorld, after := w'
    scanned := ⟨⟨false, oneObjectBucket_lists (by simp) ⟨1, 9⟩, by simp⟩, ⟨false, emptyBucket_lists, by simp⟩,
      by simp [copyOnScan]⟩
    describes := copyOn_describes
    complete := ⟨⟨rfl, rfl⟩, by simp [copyOnScan]⟩
    separates := fun p file o _ ho => absurd ho (by simp [emptyWorld])
    fresh := fun _ => ⟨rfl, rfl, rfl⟩
    wet := rfl
    success := hr }, rfl, rfl, rfl, hw'⟩

theorem exists_oneFile : ∃ l : Leg, l.setting = oneFileSetting ∧ l.config = mirrorUp ∧ l.before = emptyWorld ∧
    l.after.store = Function.update (fun _ => none) ['a'] (some ⟨[7], 9⟩) := by
  obtain ⟨w', hr, hw'⟩ := oneFile_mirrors
  exact ⟨{
    sides := oneFileSides emptyBucket, config := mirrorUp, scan := oneFileScan [], setting := oneFileSetting
    limits := ⟨0, 0⟩, before := emptyWorld, after := w'
    scanned := oneFile_scanned emptyBucket_lists
    describes := oneFile_describes (by simp [emptyBucket, emptyWorld])
    complete := ⟨⟨rfl, rfl⟩, by simp [oneFileScan]⟩
    separates := fun p file o _ ho => absurd ho (by simp [emptyWorld])
    fresh := fun _ => ⟨rfl, rfl, rfl⟩
    wet := rfl
    success := hr }, rfl, rfl, rfl, hw'⟩

/-- An upload to an empty bucket, and a copy from there to another. -/
theorem relayed_twice : ∃ first last : Leg, first.setting.has ['a'] = some [7] ∧ first.Feeds last ∧
    last.after.has last.config ['a'] = first.setting.has ['a'] := by
  obtain ⟨first, hS, hconfig, hbefore, hafter⟩ := exists_oneFile
  obtain ⟨last, hS', -, hbefore', -⟩ := exists_copyOn
  have hfeeds : first.Feeds last := by
    intro p _
    rw [hS', World.has, hafter, hconfig]
    by_cases hp : p = ['a'] <;>
      simp [Setting.has, copyOnSetting, mirrorUp, destKey, destRoot, makeS3Key, withSlash, Function.update_apply, hp]
  refine ⟨first, last, by rw [hS]; rfl, hfeeds, ?_⟩
  refine relayed first [last] (List.isChain_pair.2 hfeeds) (fun l hl => Leg.trusts_of_empty fun p _ => ?_) last rfl ['a']
    ⟨by simp, by simp⟩
  rcases List.mem_pair.1 hl with rfl | rfl
  · rw [hbefore]
    rfl
  · rw [hbefore']
    rfl

/-! ## What `mito diff` makes of it -/

/-- The two directories of a diff are the sides of a run. -/
structure Leg.Compared (l : Leg) (w : DiffWorld) (opts : CliOptions) : Prop where
  source : ∀ p, w.under .a opts.sourceA p = if isFilePath p then l.setting.has p else none
  dest : ∀ p, w.under .b opts.sourceB p = if isFilePath p then l.after.has l.config p else none
  /-- two contents of one path with the same checksums are the same -/
  tells : ∀ p x y, l.setting.has p = some x → l.after.has l.config p = some y → w.checksums x = w.checksums y → x = y

/-- **A diff of the two sides exits with 0 exactly if the run left a copy**, where it can list and read them. -/
theorem diff_exits_zero_iff_copied {l : Leg} {w : DiffWorld} {opts : CliOptions} {ans : DiffAnswers}
    (hans : ans.Truthful w opts) (hc : l.Compared w opts) (hdirs : ComparesDirectories opts ans)
    (hlisted : BothListed ans opts.sourceA opts.sourceB)
    (hread : ∀ p, w.under .a opts.sourceA p ≠ none →
      Readable ans .a (makeFileSource opts.sourceA p) defaultChunkSize ∧
        Readable ans .b (makeFileSource opts.sourceB p) defaultChunkSize) (hrunning : ans.interrupted = false) :
    DiffExits opts ans 0 ↔ l.Trusts := by
  have hsame : w.SameBelow opts.sourceA opts.sourceB ↔ l.setting.CopiedTo l.config l.after := by
    constructor
    · intro h p hpath
      have heq := h p
      rw [hc.source, hc.dest, if_pos hpath, if_pos hpath] at heq
      cases hx : l.setting.has p with
      | none =>
        rw [hx] at heq
        exact Option.map_eq_none_iff.1 heq.symm
      | some x =>
        cases hy : l.after.has l.config p with
        | none => rw [hx, hy] at heq; exact absurd heq (by simp)
        | some y =>
          rw [hx, hy] at heq
          rw [hc.tells p x y hx hy (Option.some.inj heq)]
    · intro h p
      rw [hc.source, hc.dest]
      by_cases hpath : isFilePath p
      · rw [if_pos hpath, if_pos hpath, h p hpath]
      · rw [if_neg hpath, if_neg hpath]
  rw [← l.copied_iff, ← hsame, diffExits_zero]
  constructor
  · rintro ⟨-, ⟨-, h⟩ | ⟨h, -⟩⟩
    · exact ((directoriesMatch_sound hans).1 h).2.1
    · exact absurd hdirs h
  · intro h
    exact ⟨hrunning, .inl ⟨hdirs, (directoriesMatch_sound hans).2 ⟨hlisted, h, hread⟩⟩⟩

/-! ### A copy of one object, compared with it -/

/-- Both buckets hold the object. -/
def copiedWorld : DiffWorld where
  object _ k := if k = ['a'] then some [7] else none
  localThing _ := .absent
  crc b := b.headD 0 |>.toUInt32

def copiedOptions : CliOptions where
  directoryMode := true
  sourceA := { type := .s3 }
  sourceB := { type := .s3 }

def copiedAnswers : DiffAnswers := copiedWorld.answers (fun _ => false) fun _ => { entries := [⟨['a'], 1, 9⟩] }

theorem copiedWorld_under (side : Side) (p : Str) :
    copiedWorld.under side (copiedOptions.source side) p = if p = ['a'] then some [7] else none := by
  unfold DiffWorld.under
  by_cases hp : p = ['a']
  · subst hp
    cases side <;> rfl
  · have hkey : makeS3Key [] p = p := rfl
    cases side <;> simp [copiedOptions, CliOptions.source, hkey, copiedWorld, hp]

theorem copiedAnswers_truthful : copiedAnswers.Truthful copiedWorld copiedOptions := by
  have hh := copiedWorld.answers_honest (fun _ => false) (fun _ => { entries := [⟨['a'], 1, 9⟩] })
  refine ⟨⟨hh.head, hh.fileSize, hh.fileCrcs, hh.objectCrcs⟩, fun side ht => ?_, fun side attempt n hn => ?_,
    fun side _ => ⟨fun ht => ?_, fun path => ?_⟩⟩
  · cases side <;> exact absurd ht (by decide)
  · exact absurd hn (by simp [copiedAnswers, DiffWorld.answers])
  · cases side <;> exact absurd ht (by decide)
  · rw [copiedWorld_under]
    by_cases hp : path = ['a'] <;> simp [copiedAnswers, DiffWorld.answers, Listing.paths, hp]

theorem copied_readable (side : Side) (source : DiffSource) (ht : source.type = .s3) (hp : source.path = ['a']) :
    Readable copiedAnswers side source defaultChunkSize := by
  have hsize : getSourceSize copiedAnswers side source = 1 := by
    unfold getSourceSize
    rw [ht, hp]
    rfl
  have hcrcs : computeSourceCrcs copiedAnswers side source 1 [] defaultChunkSize =
      copiedWorld.chunkCRC32s defaultChunkSize [7] := by
    unfold computeSourceCrcs
    rw [ht, hp]
    rfl
  refine ⟨by rw [hsize]; decide, fun hnil => ?_⟩
  rw [hsize, hcrcs] at hnil
  exact absurd ((DiffWorld.chunkCRC32s_eq_nil defaultChunkSize_pos).1 hnil) (by simp)

/-- The diff of an object and the copy a run made of it. -/
theorem diff_of_copy : ∃ l : Leg, DiffExits copiedOptions copiedAnswers 0 ↔ l.Trusts := by
  obtain ⟨l, hS, hconfig, -, hafter⟩ := exists_copyOn
  have hsrc : ∀ p, l.setting.has p = if p = ['a'] then some [7] else none := by
    intro p
    rw [hS, Setting.has]
    by_cases hp : p = ['a'] <;> simp [copyOnSetting, hp]
  have hdst : ∀ p, l.after.has l.config p = if p = ['a'] then some [7] else none := by
    intro p
    rw [World.has, hafter, hconfig]
    by_cases hp : p = ['a'] <;>
      simp [copyOn, destKey, destRoot, makeS3Key, withSlash, Function.update_apply, hp]
  have hunder : ∀ p, (if p = ['a'] then some [(7 : UInt8)] else none) =
      if isFilePath p then (if p = ['a'] then some [7] else none) else none := by
    intro p
    by_cases hp : p = ['a']
    · subst hp
      rfl
    · simp [hp]
  refine ⟨l, diff_exits_zero_iff_copied copiedAnswers_truthful
    ⟨fun p => ?_, fun p => ?_, fun p x y hx hy _ => ?_⟩ (.inl rfl) ⟨fun _ => rfl, fun _ => rfl, rfl, rfl⟩
    (fun p hp => ?_) rfl⟩
  · exact (copiedWorld_under .a p).trans (by rw [hsrc]; exact hunder p)
  · exact (copiedWorld_under .b p).trans (by rw [hdst]; exact hunder p)
  · rw [hsrc] at hx
    rw [hdst] at hy
    exact Option.some.inj (hx.symm.trans hy)
  · have hpa : p = ['a'] := by
      by_contra hne
      exact hp ((copiedWorld_under .a p).trans (if_neg hne))
    subst hpa
    exact ⟨copied_readable _ _ rfl rfl, copied_readable _ _ rfl rfl⟩

end Mito
