import MitoSync.DiffReport
import MitoSync.Listings
/-!
# DiffSound — what an exit of 0 tells of what was named

An exit of 0 is right about what was compared, so it is wrong only where the run compared something else than was named
(`diff_exit_sound`): two objects taken for prefixes, by `-D`, a closing separator or a HEAD that failed, or a directory
that says it has no bytes taken for an empty file.
-/
namespace Mito

/-! ## What is really there -/

instance : DecidablePred isFilePath := fun path => inferInstanceAs (Decidable (path ≠ [] ∧ path.getLast? ≠ some '/'))

/-- A path that stays below where it starts. -/
def isBelow (path : Str) : Bool := (path.splitOn '/').all componentOk

namespace DiffWorld

variable (w : DiffWorld)

/-- The file at a relative path under a source. -/
def under (side : Side) (source : DiffSource) (path : Str) : Option Bytes :=
  match source.type with
  | .s3 => if isFilePath path then w.object side (makeS3Key source.path path) else none
  | .local =>
    match w.localThing source.path with
    | .directory _ =>
      match w.localThing (pathAppend source.path path) with
      | .file bytes => if isBelow path then some bytes else none
      | _ => none
    | _ => none

/-- The checksums a comparison of two contents is about. -/
abbrev checksums (b : Bytes) : List UInt32 := w.chunkCRC32s defaultChunkSize b

/-- Every path under one source is under the other, with the same checksums. -/
def SameBelow (a b : DiffSource) : Prop :=
  ∀ path, (w.under .a a path).map w.checksums = (w.under .b b path).map w.checksums

/-- The two named things are equal. -/
def Same (a b : DiffSource) : Prop :=
  match w.content .a a, w.content .b b with
  | some x, some y => w.checksums x = w.checksums y
  | _, _ => w.SameBelow a b

variable {w} {side : Side} {source : DiffSource} {path : Str} {b x : Bytes}

/-- **A file under a source is what its `make_file_source` names.** -/
theorem content_makeFileSource (h : w.under side source path = some b) :
    w.content side (makeFileSource source path) = some b := by
  unfold under at h
  unfold content makeFileSource
  cases htype : source.type with
  | s3 =>
    simp only [htype] at h ⊢
    split at h
    · exact h
    · exact absurd h (by simp)
  | «local» =>
    simp only [htype] at h ⊢
    split at h
    · split at h
      · rename_i bytes hfile
        split at h
        · rw [hfile]
          exact h
        · exact absurd h (by simp)
      · exact absurd h (by simp)
    · exact absurd h (by simp)

theorem reads_unique (h : w.content side source = some b) (hr : w.Reads side source x) : x = b := by
  rcases hr with hr | ⟨ht, hd, -⟩
  · exact Option.some.inj (hr.symm.trans h)
  · unfold content at h
    rw [ht] at h
    simp only [hd] at h
    exact absurd h (by simp [LocalThing.content])

end DiffWorld

/-- **A source is read as one content.** -/
theorem reads_functional {w : DiffWorld} {side : Side} {source : DiffSource} {x y : Bytes}
    (hx : w.Reads side source x) (hy : w.Reads side source y) : x = y := by
  rcases hy with hy | ⟨ht, hd, rfl⟩
  · exact DiffWorld.reads_unique hy hx
  · rcases hx with hx | ⟨-, -, rfl⟩
    · unfold DiffWorld.content at hx
      rw [ht] at hx
      simp only [hd] at hx
      exact absurd hx (by simp [LocalThing.content])
    · rfl

/-- Every answer is a failure or true, and a listing that says it is complete has exactly the files under its source. -/
structure DiffAnswers.Truthful (ans : DiffAnswers) (w : DiffWorld) (opts : CliOptions) : Prop extends ans.Honest w where
  isDirectory : ∀ side, (opts.source side).type = .local →
    (ans.isDirectory side = true ↔ ∃ n, w.localThing (opts.source side).path = .directory n)
  probe : ∀ side attempt n, ans.probeHead side attempt = .success n →
    ∃ b, w.object side (opts.source side).path = some b ∧ n = b.length
  listing : ∀ side, (ans.listing side).complete = true →
    ((opts.source side).type = .local → ∃ n, w.localThing (opts.source side).path = .directory n) ∧
      ∀ path, path ∈ (ans.listing side).paths ↔ w.under side (opts.source side) path ≠ none

/-! ## What is compared -/

/-- What a source passes for. -/
def seemsDirectory (ans : DiffAnswers) (side : Side) (source : DiffSource) : Bool :=
  match source.type with
  | .local => ans.isDirectory side
  | .s3 => isS3Prefix ans side source

theorem isS3Prefix_of_slash {ans : DiffAnswers} {side : Side} {source : DiffSource} (ht : source.type = .s3)
    (h : isDirectorySource ans side source = true) : isS3Prefix ans side source = true := by
  unfold isDirectorySource at h
  rw [ht] at h
  simp only [Bool.and_eq_true, decide_eq_true_eq] at h
  unfold isS3Prefix
  rw [if_neg (by rw [ht]; simp), if_neg h.1, if_pos h.2]

/-- **Two directories are compared where both sources pass for one.** -/
theorem directoryDetection_both (ans : DiffAnswers) (a b : DiffSource) :
    ((directoryDetection ans a b).1 && (directoryDetection ans a b).2) =
      (seemsDirectory ans .a a && seemsDirectory ans .b b) := by
  have hs3 : ∀ side (s : DiffSource), s.type = .s3 → isDirectorySource ans side s = true →
      isS3Prefix ans side s = true := fun side s ht h => isS3Prefix_of_slash ht h
  have hlocal : ∀ side (s : DiffSource), s.type = .local → isDirectorySource ans side s = ans.isDirectory side := by
    intro side s ht
    unfold isDirectorySource
    rw [ht]
  unfold directoryDetection seemsDirectory
  cases hta : a.type with
  | «local» =>
    cases htb : b.type with
    | «local» => simp [hlocal, hta, htb]
    | s3 =>
      have hb := hs3 .b b htb
      simp only [hlocal _ _ hta, reduceCtorEq]
      cases hda : ans.isDirectory .a <;> cases hdb : isDirectorySource ans .b b <;> simp_all
  | s3 =>
    have ha := hs3 .a a hta
    cases htb : b.type with
    | «local» =>
      simp only [hlocal _ _ htb, reduceCtorEq]
      cases hda : isDirectorySource ans .a a <;> cases hdb : ans.isDirectory .b <;> simp_all
    | s3 =>
      have hb := hs3 .b b htb
      cases hda : isDirectorySource ans .a a <;> cases hdb : isDirectorySource ans .b b <;> simp_all

section Exit

variable {w : DiffWorld} {opts : CliOptions} {ans : DiffAnswers}

/-- A comparison of two files that finds no difference. -/
def FilesMatch (ans : DiffAnswers) (a b : DiffSource) : Prop :=
  (runComparison ans { sourceA := a, sourceB := b }).success = true ∧
    (runComparison ans { sourceA := a, sourceB := b }).allMatch = true

/-- A comparison of two directories that finds no difference. -/
structure DirectoriesMatch (ans : DiffAnswers) (a b : DiffSource) : Prop where
  listed : BothListed ans a b
  paths : ∀ path, path ∈ (ans.listing .a).paths ↔ path ∈ (ans.listing .b).paths
  files : ∀ path ∈ (ans.listing .a).paths, FilesMatch ans (makeFileSource a path) (makeFileSource b path)

/-- A counter of the tasks is 0 where no file has that status. -/
theorem countStatus_eq_zero {status : FileCompareStatus} {outcome : Str → ComparisonResult} {files : List Str} :
    countStatus status (files.map (resultOf outcome)) = 0 ↔
      ∀ path ∈ files, (resultOf outcome path).status ≠ status := by
  simp [countStatus, List.countP_eq_zero]

/-- **The verdict on two directories.** -/
theorem directoriesMatch_iff {a b : DiffSource} {tally : Tally}
    (h : Tallied (compareFile ans a b) (commonFiles (ans.listing .a) (ans.listing .b)) tally) :
    ((runDirectoryComparison ans a b tally).success = true ∧
      (runDirectoryComparison ans a b tally).mismatchedFiles = 0 ∧
      (runDirectoryComparison ans a b tally).onlyInA = 0 ∧ (runDirectoryComparison ans a b tally).onlyInB = 0 ∧
      (runDirectoryComparison ans a b tally).errors = 0) ↔ DirectoriesMatch ans a b := by
  have hfile : ∀ path, ((resultOf (compareFile ans a b) path).status ≠ .mismatch ∧
      (resultOf (compareFile ans a b) path).status ≠ .error) ↔
        FilesMatch ans (makeFileSource a path) (makeFileSource b path) := by
    intro path
    unfold resultOf FilesMatch
    rw [fileCompareResult_status]
    change _ ↔ (compareFile ans a b path).success = true ∧ (compareFile ans a b path).allMatch = true
    cases (compareFile ans a b path).success <;> cases (compareFile ans a b path).allMatch <;> simp
  have honly : ∀ l l' : Listing, (onlyIn l l').length = 0 ↔ ∀ path ∈ l.paths, path ∈ l'.paths := by
    intro l l'
    rw [List.length_eq_zero_iff, List.eq_nil_iff_forall_not_mem]
    simp only [mem_onlyIn, not_and, not_not]
  constructor
  · rintro ⟨hs, hm, hA, hB, he⟩
    have hl := runDirectoryComparison_success.1 hs
    rw [runDirectoryComparison_eq hl, mergeResults_eq h] at hm hA hB he
    dsimp only at hm hA hB he
    rw [honly] at hA hB
    have hpaths : ∀ path, path ∈ (ans.listing .a).paths ↔ path ∈ (ans.listing .b).paths :=
      fun path => ⟨hA path, hB path⟩
    refine ⟨hl, hpaths, fun path hp => (hfile path).1 ⟨?_, ?_⟩⟩
    · exact countStatus_eq_zero.1 (by omega) path (mem_commonFiles.2 ⟨hp, (hpaths path).1 hp⟩)
    · exact countStatus_eq_zero.1 he path (mem_commonFiles.2 ⟨hp, (hpaths path).1 hp⟩)
  · rintro ⟨hl, hpaths, hfiles⟩
    rw [runDirectoryComparison_eq hl, mergeResults_eq h]
    have hA := (honly _ _).2 fun path hp => (hpaths path).1 hp
    have hB := (honly _ _).2 fun path hp => (hpaths path).2 hp
    have hm : countStatus .mismatch ((commonFiles (ans.listing .a) (ans.listing .b)).map
        (resultOf (compareFile ans a b))) = 0 :=
      countStatus_eq_zero.2 fun path hp => ((hfile path).2 (hfiles path (mem_commonFiles.1 hp).1)).1
    have he : countStatus .error ((commonFiles (ans.listing .a) (ans.listing .b)).map
        (resultOf (compareFile ans a b))) = 0 :=
      countStatus_eq_zero.2 fun path hp => ((hfile path).2 (hfiles path (mem_commonFiles.1 hp).1)).2
    refine ⟨rfl, ?_, hA, hB, he⟩
    dsimp only
    omega

/-- Two directories are compared. -/
def ComparesDirectories (opts : CliOptions) (ans : DiffAnswers) : Prop :=
  opts.directoryMode = true ∨
    seemsDirectory ans .a opts.sourceA = true ∧ seemsDirectory ans .b opts.sourceB = true

/-- **When a diff exits with 0.** -/
theorem diffExits_zero : DiffExits opts ans 0 ↔ ans.interrupted = false ∧
    (ComparesDirectories opts ans ∧ DirectoriesMatch ans opts.sourceA opts.sourceB ∨
      ¬ ComparesDirectories opts ans ∧ FilesMatch ans opts.sourceA opts.sourceB) := by
  have hboth := directoryDetection_both ans opts.sourceA opts.sourceB
  have hdir : ComparesDirectories opts ans ↔ (opts.directoryMode ||
      ((directoryDetection ans opts.sourceA opts.sourceB).1 &&
        (directoryDetection ans opts.sourceA opts.sourceB).2)) = true := by
    rw [hboth, ComparesDirectories, Bool.or_eq_true, Bool.and_eq_true]
  -- the error for a directory and a file is never reached: it stands under the test that both are directories
  have hnone : ComparesDirectories opts ans →
      ¬ (((directoryDetection ans opts.sourceA opts.sourceB).1 ≠
        (directoryDetection ans opts.sourceA opts.sourceB).2 && !opts.directoryMode) = true) := by
    intro h hne
    rw [hdir] at h
    cases hm : opts.directoryMode <;> simp_all
  have hcode : ∀ tally, Tallied (compareFile ans opts.sourceA opts.sourceB)
      (commonFiles (ans.listing .a) (ans.listing .b)) tally → (diffExitCode opts ans tally = 0 ↔
        ans.interrupted = false ∧ (ComparesDirectories opts ans ∧ DirectoriesMatch ans opts.sourceA opts.sourceB ∨
          ¬ ComparesDirectories opts ans ∧ FilesMatch ans opts.sourceA opts.sourceB)) := by
    intro tally ht
    unfold diffExitCode
    generalize directoryDetection ans opts.sourceA opts.sourceB = detected at hdir hnone
    obtain ⟨isDirA, isDirB⟩ := detected
    dsimp only at hdir hnone ⊢
    by_cases hc : ComparesDirectories opts ans
    · rw [if_pos (hdir.1 hc), if_neg (hnone hc), ← directoriesMatch_iff ht]
      cases ans.interrupted with
      | true => simp
      | false =>
        simp only [hc, Bool.false_eq_true, if_false, true_and, not_true_eq_false, false_and, or_false]
        cases (runDirectoryComparison ans opts.sourceA opts.sourceB tally).success with
        | false => simp
        | true =>
          simp only [Bool.not_true, Bool.false_eq_true, if_false, true_and]
          split
          · simp_all
          · simp_all
    · rw [if_neg (fun h => hc (hdir.2 h))]
      cases ans.interrupted with
      | true => simp
      | false =>
        simp only [hc, Bool.false_eq_true, if_false, true_and, not_false_eq_true, false_and, false_or, FilesMatch]
        cases (runComparison ans { sourceA := opts.sourceA, sourceB := opts.sourceB }).success <;>
          cases (runComparison ans { sourceA := opts.sourceA, sourceB := opts.sourceB }).allMatch <;> simp
  constructor
  · rintro ⟨tally, ht, h⟩
    exact (hcode tally ht).1 h
  · intro h
    obtain ⟨tally, ht⟩ := exists_tallied (compareFile ans opts.sourceA opts.sourceB)
      (commonFiles (ans.listing .a) (ans.listing .b)) {}
    exact ⟨tally, ht, (hcode tally ht).2 h⟩

end Exit

/-! ## Where an exit of 0 is wrong -/

section Sound

variable {w : DiffWorld} {opts : CliOptions} {ans : DiffAnswers}

/-- Two existing objects of different contents are compared as prefixes, and the prefixes hold the same files. -/
structure ObjectsAsPrefixes (w : DiffWorld) (opts : CliOptions) (ans : DiffAnswers) : Prop where
  differ : ∃ x y, w.object .a opts.sourceA.path = some x ∧ w.object .b opts.sourceB.path = some y ∧
    w.checksums x ≠ w.checksums y
  objects : opts.sourceA.type = .s3 ∧ opts.sourceB.type = .s3
  asPrefixes : opts.directoryMode = true ∨
    isS3Prefix ans .a opts.sourceA = true ∧ isS3Prefix ans .b opts.sourceB = true
  same : w.SameBelow opts.sourceA opts.sourceB
  listed : BothListed ans opts.sourceA opts.sourceB
  readable : ∀ path, w.under .a opts.sourceA path ≠ none →
    Readable ans .a (makeFileSource opts.sourceA path) defaultChunkSize ∧
      Readable ans .b (makeFileSource opts.sourceB path) defaultChunkSize
  running : ans.interrupted = false

/-- A directory that says it has no bytes is compared with an empty file or object, and other files are below them. -/
structure DirectoryAsFile (w : DiffWorld) (opts : CliOptions) (ans : DiffAnswers) : Prop where
  directory : (opts.sourceA.type = .local ∧ w.localThing opts.sourceA.path = .directory 0 ∧
      w.content .b opts.sourceB = some []) ∨
    opts.sourceB.type = .local ∧ w.localThing opts.sourceB.path = .directory 0 ∧
      w.content .a opts.sourceA = some []
  asFiles : ¬ ComparesDirectories opts ans
  differ : ¬ w.SameBelow opts.sourceA opts.sourceB
  readable : Readable ans .a opts.sourceA defaultChunkSize ∧ Readable ans .b opts.sourceB defaultChunkSize
  running : ans.interrupted = false

theorem content_of_directory {side : Side} {source : DiffSource} {n : Nat} (ht : source.type = .local)
    (hd : w.localThing source.path = .directory n) : w.content side source = none := by
  unfold DiffWorld.content
  rw [ht]
  simp only [hd, LocalThing.content]

theorem same_of_contents {a b : DiffSource} {x y : Bytes} (hx : w.content .a a = some x)
    (hy : w.content .b b = some y) : w.Same a b ↔ w.checksums x = w.checksums y := by
  unfold DiffWorld.Same
  rw [hx, hy]

theorem same_of_none {a b : DiffSource} (h : w.content .a a = none ∨ w.content .b b = none) :
    w.Same a b ↔ w.SameBelow a b := by
  unfold DiffWorld.Same
  rcases h with h | h
  · rw [h]
  · rw [h]
    cases w.content .a a <;> exact Iff.rfl

/-- **Two files match where both are readable and their checksums agree.** -/
theorem filesMatch_iff {a b : DiffSource} (h : ans.Honest w) : FilesMatch ans a b ↔
    Readable ans .a a defaultChunkSize ∧ Readable ans .b b defaultChunkSize ∧
      ∀ x y, w.Reads .a a x → w.Reads .b b y → w.checksums x = w.checksums y := by
  constructor
  · rintro ⟨hs, hm⟩
    obtain ⟨ha, hb⟩ := runComparison_spec.1 hs
    obtain ⟨x, y, hx, hy, r, hr, -, -, hcx, hcy⟩ := runComparison_reads h defaultChunkSize_pos hs
    refine ⟨ha, hb, fun x' y' hx' hy' => ?_⟩
    rw [show runComparison ans { sourceA := a, sourceB := b } = compareCrcs r from hr, compareCrcs_allMatch, hcx,
      hcy] at hm
    rw [reads_functional hx' hx, reads_functional hy' hy]
    exact hm
  · rintro ⟨ha, hb, heq⟩
    have hs := runComparison_spec.2 ⟨ha, hb⟩
    obtain ⟨x, y, hx, hy, r, hr, -, -, hcx, hcy⟩ := runComparison_reads h defaultChunkSize_pos hs
    refine ⟨hs, ?_⟩
    rw [show runComparison ans { sourceA := a, sourceB := b } = compareCrcs r from hr, compareCrcs_allMatch, hcx, hcy]
    exact heq x y hx hy

/-- **Two directories match where the same files are below both**, all of them readable. -/
theorem directoriesMatch_sound (h : ans.Truthful w opts) : DirectoriesMatch ans opts.sourceA opts.sourceB ↔
    BothListed ans opts.sourceA opts.sourceB ∧ w.SameBelow opts.sourceA opts.sourceB ∧
      ∀ path, w.under .a opts.sourceA path ≠ none →
        Readable ans .a (makeFileSource opts.sourceA path) defaultChunkSize ∧
          Readable ans .b (makeFileSource opts.sourceB path) defaultChunkSize := by
  constructor
  · rintro ⟨hl, hpaths, hfiles⟩
    have hA : ∀ path, path ∈ (ans.listing .a).paths ↔ w.under .a opts.sourceA path ≠ none :=
      (h.listing .a hl.completeA).2
    have hB : ∀ path, path ∈ (ans.listing .b).paths ↔ w.under .b opts.sourceB path ≠ none :=
      (h.listing .b hl.completeB).2
    refine ⟨hl, fun path => ?_, fun path hp => ?_⟩
    · by_cases hp : path ∈ (ans.listing .a).paths
      · obtain ⟨x, hx⟩ := Option.ne_none_iff_exists'.1 ((hA path).1 hp)
        obtain ⟨y, hy⟩ := Option.ne_none_iff_exists'.1 ((hB path).1 ((hpaths path).1 hp))
        obtain ⟨-, -, heq⟩ := (filesMatch_iff h.toHonest).1 (hfiles path hp)
        have hxy := heq x y (.inl (DiffWorld.content_makeFileSource hx)) (.inl (DiffWorld.content_makeFileSource hy))
        rw [hx, hy]
        exact congrArg some hxy
      · have hA' : w.under .a opts.sourceA path = none := by
          by_contra hne
          exact hp ((hA path).2 hne)
        have hB' : w.under .b opts.sourceB path = none := by
          by_contra hne
          exact hp ((hpaths path).2 ((hB path).2 hne))
        rw [hA', hB']
    · obtain ⟨ha, hb, -⟩ := (filesMatch_iff h.toHonest).1 (hfiles path ((hA path).2 hp))
      exact ⟨ha, hb⟩
  · rintro ⟨hl, hsame, hread⟩
    have hA : ∀ path, path ∈ (ans.listing .a).paths ↔ w.under .a opts.sourceA path ≠ none :=
      (h.listing .a hl.completeA).2
    have hB : ∀ path, path ∈ (ans.listing .b).paths ↔ w.under .b opts.sourceB path ≠ none :=
      (h.listing .b hl.completeB).2
    have hnone : ∀ path, w.under .a opts.sourceA path = none ↔ w.under .b opts.sourceB path = none := by
      intro path
      rw [← Option.map_eq_none_iff (f := w.checksums), hsame path, Option.map_eq_none_iff]
    refine ⟨hl, fun path => ?_, fun path hp => ?_⟩
    · exact ((hA path).trans (not_congr (hnone path))).trans (hB path).symm
    · have hp' := (hA path).1 hp
      obtain ⟨ha, hb⟩ := hread path hp'
      refine (filesMatch_iff h.toHonest).2 ⟨ha, hb, fun x y hx hy => ?_⟩
      obtain ⟨x', hx'⟩ := Option.ne_none_iff_exists'.1 hp'
      obtain ⟨y', hy'⟩ := Option.ne_none_iff_exists'.1 ((not_congr (hnone path)).1 hp')
      have heq := hsame path
      rw [hx', hy'] at heq
      rw [DiffWorld.reads_unique (DiffWorld.content_makeFileSource hx') hx,
        DiffWorld.reads_unique (DiffWorld.content_makeFileSource hy') hy]
      exact Option.some.inj heq

/-- **An exit of 0 is right unless objects were compared as prefixes, or a directory as an empty file.** -/
theorem diff_exit_sound (h : ans.Truthful w opts) : (DiffExits opts ans 0 → w.Same opts.sourceA opts.sourceB) ↔
    ¬ (ObjectsAsPrefixes w opts ans ∨ DirectoryAsFile w opts ans) := by
  constructor
  · rintro hsound (hm | hm)
    · obtain ⟨x, y, hx, hy, hne⟩ := hm.differ
      have hc : ComparesDirectories opts ans := by
        refine hm.asPrefixes.imp_right ?_
        unfold seemsDirectory
        rw [hm.objects.1, hm.objects.2]
        exact id
      have hexit : DiffExits opts ans 0 := diffExits_zero.2 ⟨hm.running, .inl ⟨hc,
        (directoriesMatch_sound h).2 ⟨hm.listed, hm.same, hm.readable⟩⟩⟩
      have hcx : w.content .a opts.sourceA = some x := by
        unfold DiffWorld.content
        rw [hm.objects.1]
        exact hx
      have hcy : w.content .b opts.sourceB = some y := by
        unfold DiffWorld.content
        rw [hm.objects.2]
        exact hy
      exact hne ((same_of_contents hcx hcy).1 (hsound hexit))
    · have hnone : w.content .a opts.sourceA = none ∨ w.content .b opts.sourceB = none := by
        rcases hm.directory with ⟨ht, hd, -⟩ | ⟨ht, hd, -⟩
        · exact .inl (content_of_directory ht hd)
        · exact .inr (content_of_directory ht hd)
      have hempty : ∀ x y, w.Reads .a opts.sourceA x → w.Reads .b opts.sourceB y → x = [] ∧ y = [] := by
        intro x y hx hy
        rcases hm.directory with ⟨ht, hd, hc⟩ | ⟨ht, hd, hc⟩
        · exact ⟨reads_functional hx (.inr ⟨ht, hd, rfl⟩), DiffWorld.reads_unique hc hy⟩
        · exact ⟨DiffWorld.reads_unique hc hx, reads_functional hy (.inr ⟨ht, hd, rfl⟩)⟩
      have hexit : DiffExits opts ans 0 := by
        refine diffExits_zero.2 ⟨hm.running, .inr ⟨hm.asFiles, (filesMatch_iff h.toHonest).2
          ⟨hm.readable.1, hm.readable.2, fun x y hx hy => ?_⟩⟩⟩
        obtain ⟨rfl, rfl⟩ := hempty x y hx hy
        rfl
      exact hm.differ ((same_of_none hnone).1 (hsound hexit))
  · intro hright hexit
    obtain ⟨hrunning, ⟨hc, hd⟩ | ⟨hc, hf⟩⟩ := diffExits_zero.1 hexit
    · obtain ⟨hl, hsame, hread⟩ := (directoriesMatch_sound h).1 hd
      cases hx : w.content .a opts.sourceA with
      | none => exact (same_of_none (.inl hx)).2 hsame
      | some x =>
        cases hy : w.content .b opts.sourceB with
        | none => exact (same_of_none (.inr hy)).2 hsame
        | some y =>
          refine (same_of_contents hx hy).2 ?_
          by_contra hne
          -- a listing of a local path is complete only of a directory, which has no content
          have hs3 : ∀ side b, w.content side (opts.source side) = some b → (ans.listing side).complete = true →
              (opts.source side).type = .s3 ∧ w.object side (opts.source side).path = some b := by
            intro side b hb hcomplete
            cases ht : (opts.source side).type with
            | s3 =>
              unfold DiffWorld.content at hb
              rw [ht] at hb
              exact ⟨rfl, hb⟩
            | «local» =>
              obtain ⟨n, hn⟩ := (h.listing side hcomplete).1 ht
              rw [content_of_directory ht hn] at hb
              exact absurd hb (by simp)
          obtain ⟨hta, hox⟩ := hs3 .a x hx hl.completeA
          obtain ⟨htb, hoy⟩ := hs3 .b y hy hl.completeB
          refine hright (.inl ⟨⟨x, y, hox, hoy, hne⟩, ⟨hta, htb⟩, ?_, hsame, hl, hread, hrunning⟩)
          refine hc.imp_right ?_
          unfold seemsDirectory
          rw [show opts.sourceA.type = .s3 from hta, show opts.sourceB.type = .s3 from htb]
          exact id
    · obtain ⟨ha, hb, heq⟩ := (filesMatch_iff h.toHonest).1 hf
      obtain ⟨x, hx, -⟩ := h.toHonest.reads defaultChunkSize_pos ha
      obtain ⟨y, hy, -⟩ := h.toHonest.reads defaultChunkSize_pos hb
      have hxy := heq x y hx hy
      by_contra hsame
      rcases hx with hx | ⟨hta, hda, rfl⟩
      · rcases hy with hy | ⟨htb, hdb, rfl⟩
        · exact hsame ((same_of_contents hx hy).2 hxy)
        · have hxe : x = [] := (DiffWorld.chunkCRC32s_eq_nil defaultChunkSize_pos).1
            (hxy.trans (DiffWorld.chunkCRC32s_nil defaultChunkSize_pos))
          rw [hxe] at hx
          refine hright (.inr ⟨.inr ⟨htb, hdb, hx⟩, hc, fun hb => hsame ?_, ⟨ha, ‹_›⟩, hrunning⟩)
          exact (same_of_none (.inr (content_of_directory htb hdb))).2 hb
      · have hnone : w.content .a opts.sourceA = none := content_of_directory hta hda
        rcases hy with hy | ⟨htb, hdb, rfl⟩
        · have hye : y = [] := (DiffWorld.chunkCRC32s_eq_nil defaultChunkSize_pos).1
            (hxy.symm.trans (DiffWorld.chunkCRC32s_nil defaultChunkSize_pos))
          rw [hye] at hy
          refine hright (.inr ⟨.inl ⟨hta, hda, hy⟩, hc, fun hb => hsame ?_, ⟨ha, ‹_›⟩, hrunning⟩)
          exact (same_of_none (.inl hnone)).2 hb
        · -- two directories are not compared as files
          refine hc (.inr ⟨?_, ?_⟩)
          · unfold seemsDirectory
            rw [hta]
            exact (h.isDirectory .a hta).2 ⟨0, hda⟩
          · unfold seemsDirectory
            rw [htb]
            exact (h.isDirectory .b htb).2 ⟨0, hdb⟩

/-! ### Two objects, and nothing else -/

/-- The objects `a` and `b`, of different contents. -/
def twoObjects : DiffWorld where
  object _ key := if key = ['a'] then some [1] else if key = ['b'] then some [2] else none
  localThing _ := .absent
  crc b := b.headD 0 |>.toUInt32

def twoObjectsOptions : CliOptions where
  sourceA := { type := .s3, bucket := ['m'], region := ['r'], path := ['a'] }
  sourceB := { type := .s3, bucket := ['m'], region := ['r'], path := ['b'] }

/-- The answers of a run whose first HEADs fare like this. -/
def twoObjectsAnswers (probe : HeadOutcome) : DiffAnswers :=
  { twoObjects.answers (fun _ => false) (fun _ => { entries := [] }) with probeHead := fun _ _ => probe }

theorem twoObjects_under (side : Side) (path : Str) :
    twoObjects.under side (twoObjectsOptions.source side) path = none := by
  have hkey : ∀ c : Char, twoObjects.object side (makeS3Key [c] path) = none := by
    intro c
    unfold twoObjects makeS3Key withSlash
    dsimp only
    split
    · simp
    · rename_i h
      have hc : c = '/' := by simpa using h
      simp [hc]
  unfold DiffWorld.under
  cases side <;> simp only [twoObjectsOptions, CliOptions.source, hkey, ite_self]

theorem twoObjects_truthful {probe : HeadOutcome} (h : probe = .error true ∨ probe = .success 1) :
    (twoObjectsAnswers probe).Truthful twoObjects twoObjectsOptions := by
  have hh := twoObjects.answers_honest (fun _ => false) (fun _ => { entries := [] })
  refine ⟨⟨hh.head, hh.fileSize, hh.fileCrcs, hh.objectCrcs⟩, ?_, ?_, ?_⟩
  · intro side ht
    cases side <;> exact absurd ht (by decide)
  · intro side attempt n hn
    rcases h with rfl | rfl
    · exact absurd hn (by simp [twoObjectsAnswers])
    · obtain rfl : (1 : Int) = n := HeadOutcome.success.inj hn
      cases side
      · exact ⟨[1], rfl, rfl⟩
      · exact ⟨[2], rfl, rfl⟩
  · intro side _
    refine ⟨fun ht => ?_, fun path => ?_⟩
    · cases side <;> exact absurd ht (by decide)
    · rw [twoObjects_under]
      exact ⟨fun hp => absurd hp List.not_mem_nil, fun hp => absurd rfl hp⟩

theorem twoObjects_not_same : ¬ twoObjects.Same twoObjectsOptions.sourceA twoObjectsOptions.sourceB := by
  intro h
  rw [same_of_contents (x := [1]) (y := [2]) rfl rfl] at h
  exact absurd (List.head_eq_of_cons_eq h) (by decide)

/-- Both HEADs are throttled to the last attempt, and the diff of two different objects exits with 0. -/
theorem diff_exit_throttled : ¬ ∀ (w : DiffWorld) (opts : CliOptions) (ans : DiffAnswers), ans.Truthful w opts →
    DiffExits opts ans 0 → w.Same opts.sourceA opts.sourceB := by
  intro h
  have hexit : DiffExits twoObjectsOptions (twoObjectsAnswers (.error true)) 0 := by
    refine diffExits_zero.2 ⟨rfl, .inl ⟨.inr (by decide), ⟨fun _ => rfl, fun _ => rfl, rfl, rfl⟩, fun _ => Iff.rfl, ?_⟩⟩
    intro path hp
    exact absurd hp List.not_mem_nil
  exact twoObjects_not_same (h twoObjects twoObjectsOptions _ (twoObjects_truthful (.inl rfl)) hexit)

/-- With its HEADs answered it does not. -/
theorem diff_exit_answered : ¬ DiffExits twoObjectsOptions (twoObjectsAnswers (.success 1)) 0 := by
  intro hexit
  refine twoObjects_not_same ((diff_exit_sound (twoObjects_truthful (.inr rfl))).2 ?_ hexit)
  rintro (hm | hm)
  · exact absurd hm.asPrefixes (by decide)
  · rcases hm.directory with ⟨ht, -⟩ | ⟨ht, -⟩
    · exact absurd ht (by decide)
    · exact absurd ht (by decide)

end Sound

end Mito
