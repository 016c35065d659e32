import MitoSync.DiffReport
import MitoSync.Listings
import MitoSync.Gate
/-!
# OnlyIn — what a directory comparison says is on one side only

A comparison refuses a listing that is not complete, and does not ask whether a link was left out because its target had
been entered under another name.  Such a link, and a path the system gives up on, are the two ways in which a walk that
is complete and not cancelled misses a file (`localListsBut_paths`).  So what the comparison says is on one side only is
right where no file of both sides lies behind either, and wrong where one does (`only_in_real`).
-/
namespace Mito

open Lib

/-! ## What a walk leaves out -/

abbrev LocalState := Walker.State (Str × Nat) (Str × Dir) DirectoryEntry LocalScan

/-- The step that passes over a link, `e` of the directory `base`: its target was entered under another name. -/
inductive Omits (base : Str) (e : DirEnt) : LocalState → LocalState → Prop
  | link {w a b fs ds} {D : Dir} {node : Nat} (h : w.workers = a ++ ⟨some (base, D), fs, ds⟩ :: b)
      (hh : D.entries.head? = some e) (hl : e.isLink = true) (hi : e.item = .dir node)
      (hv : node ∈ w.shared.visitedSymlinkTargets) :
      Omits base e w
        { w with workers := a ++ ⟨some (base, D.tail), fs, ds⟩ :: b, shared := { w.shared with aliasOmitted := true } }

/-- The files a walk missed on its way to `w`: those the system does not lead to, and those below the links the walk
passed over. -/
def omitted (T : Tree) (tooFar : Str → Bool) (start w : LocalState) : Set Str :=
  { path | path ∉ T.pathsWithin tooFar ∨ ∃ base e w₁ w₂, (localWalker T tooFar).Run start w₁ ∧
    Omits base e w₁ w₂ ∧ (localWalker T tooFar).Run w₂ w ∧ path ∈ entryBelow T tooFar base e }

/-- A listing of a tree with what it left out. -/
inductive LocalListsBut (T : Tree) (tooFar : Str → Bool) : Listing → Bool → Set Str → Prop
  | notDirectory {cancelled : Bool} : LocalListsBut T tooFar { entries := [], complete := false } cancelled ∅
  | walked {n : Nat} (hr : T.root = .dir n) {targets : List Nat} (ht : targets = [] ∨ targets = [n]) {w : LocalState}
      (h : (localWalker T tooFar).Run (.start ([], n) { visitedSymlinkTargets := targets }) w) (ho : w.Over) :
      LocalListsBut T tooFar ⟨w.entries, w.shared.complete, w.shared.aliasOmitted⟩ w.cancelled
        (omitted T tooFar (.start ([], n) { visitedSymlinkTargets := targets }) w)

theorem localLists_iff {T : Tree} {tooFar : Str → Bool} {l : Listing} {cancelled : Bool} :
    LocalListsWithin T tooFar l cancelled ↔ ∃ O, LocalListsBut T tooFar l cancelled O := by
  constructor
  · intro h
    cases h with
    | notDirectory => exact ⟨_, .notDirectory⟩
    | walked hr ht hw ho => exact ⟨_, .walked hr ht hw ho⟩
  · rintro ⟨O, h⟩
    cases h with
    | notDirectory => exact .notDirectory
    | walked hr ht hw ho => exact .walked hr ht hw ho

theorem scanEntry_incomplete {base : Str} {e : DirEnt} {a : EntryAns} {s s' : LocalScan} {fs : List DirectoryEntry}
    {ds : List (Str × Nat)} (hr : scanEntry base e a s = (fs, ds, s')) (hc : s.complete = false) :
    s'.complete = false := by
  obtain rfl : (scanEntry base e a s).2.2 = s' := by rw [hr]
  unfold scanEntry
  split
  · exact hc
  · rfl
  · exact hc
  · split
    · split
      · rfl
      · split
        · exact hc
        · exact hc
    · exact hc
  · exact hc

theorem run_incomplete {T : Tree} {tooFar : Str → Bool} {w w' : LocalState} (h : (localWalker T tooFar).Run w w')
    (hc : w.shared.complete = false) : w'.shared.complete = false := by
  refine Walker.run_shared (p := fun s => s.complete = false) ?_ ?_ h hc
  · intro d s r s' ho hs
    cases ho with
    | opened _ _ => exact hs
    | absent _ => exact hs
    | unreadable => rfl
  · intro r s es ds r' s' hr hs
    cases hr with
    | done _ => exact hs
    | threw => rfl
    | entry _ _ hscan => exact scanEntry_incomplete hscan hs

/-- **A step that leaves a file out passes over a link**, or the listing is not complete. -/
theorem omits_of_drops {T : Tree} {tooFar : Str → Bool} {f : Str} {w w' : LocalState}
    (h : Walker.Drops (localWalker T tooFar) (localBelow T tooFar) DirectoryEntry.relativePath f w w') :
    w'.shared.complete = false ∨ ∃ base e, Omits base e w w' ∧ f ∈ entryBelow T tooFar base e := by
  cases h with
  | @opens a b d r s hl ho hf =>
    apply Or.inl
    by_contra hc
    exact hf ((opensDir_weight ho f).2 (Bool.eq_true_of_not_eq_false hc))
  | @reads a b fs ds r r' es ds' s hw hr hf =>
    rcases readsDir_weight T hr f with heq | ⟨hc | ⟨e, hh, rfl, rfl, rfl, hleft, hfe⟩, -⟩
    · exact absurd heq hf
    · exact .inl hc
    · obtain ⟨base, D⟩ := r
      cases hleft with
      | unread => exact .inl rfl
      | aliased hl hi hv =>
        refine .inr ⟨base, e, ?_, hfe⟩
        have homits := Omits.link hw hh hl hi hv
        simpa only [List.append_nil] using homits

/-- The system leads to no file through an entry it gives up on. -/
theorem item_seen_of_fileOf {T : Tree} {tooFar : Str → Bool} {base : Str} {e : DirEnt} {path : Str}
    (h : T.FileOf tooFar base e path) : (e.seen tooFar base).item = e.item := by
  cases hfar : tooFar (base ++ e.name) with
  | false => simp only [DirEnt.seen, hfar, cond_false]
  | true => simp only [Tree.FileOf, DirEnt.seen, hfar, cond_true] at h

/-- **Passing over a link leaves out what is below it.** -/
theorem drops_of_omits {T : Tree} {tooFar : Str → Bool} {base : Str} {e : DirEnt} {f : Str} {w w' : LocalState}
    (h : Omits base e w w') (hf : f ∈ entryBelow T tooFar base e) :
    Walker.Drops (localWalker T tooFar) (localBelow T tooFar) DirectoryEntry.relativePath f w w' := by
  cases h with
  | @link a b fs ds D node hw hh hl hi hv =>
    let answer : EntryAns := ⟨true, .directory, none, some node⟩
    obtain ⟨q, -, hq⟩ := id hf
    have ha : answer.Of (e.seen tooFar base) := ⟨fun _ => hl, node, (item_seen_of_fileOf hq).trans hi, .inr rfl⟩
    have hscan : scanEntry base e answer w.shared = ([], [], { w.shared with aliasOmitted := true }) := by
      simp [scanEntry, answer, hv]
    have hne : weight (localBelow T tooFar)
        ((some (base, D.tail)).toList.map .inr ++ ([] : List (Str × Nat)).map .inl)
        (([] : List DirectoryEntry).map DirectoryEntry.relativePath) f ≠
          weightOf (localBelow T tooFar) (.inr (base, D)) f := by
      simp only [Option.toList_some, List.map_cons, List.map_nil, List.append_nil, weight_singleton]
      rw [weightOf_of_notMem (below_head_disjoint hh hf), weightOf_of_mem ((below_head hh).2 (.inl hf))]
      exact Nat.zero_ne_one
    have hdrops : Walker.Drops (localWalker T tooFar) (localBelow T tooFar) DirectoryEntry.relativePath f w _ :=
      .reads hw (.entry hh ha hscan) hne
    simpa only [List.append_nil] using hdrops

/-- **A walk that is complete and not cancelled lists every file but those the system does not lead to and those below
the links it passed over.** -/
theorem localListsBut_paths {T : Tree} {tooFar : Str → Bool} {l : Listing} {cancelled : Bool} {O : Set Str}
    (h : LocalListsBut T tooFar l cancelled O) :
    (∀ p ∈ l.paths, p ∈ T.paths) ∧
      (l.complete = true → cancelled = false → ∀ p ∈ T.paths, p ∈ l.paths ↔ p ∉ O) := by
  have hin := (localListsWithin_paths (localLists_iff.2 ⟨O, h⟩)).2.1
  refine ⟨fun p hp => T.pathsWithin_subset tooFar (hin p hp), fun hcomplete hc p _ => ?_⟩
  cases h with
  | notDirectory => exact absurd hcomplete Bool.false_ne_true
  | @walked n hr targets ht w hw ho =>
    constructor
    · rintro hlisted (hfar | ⟨base, e, w₁, w₂, h₁, homits, h₂, hf⟩)
      · exact hfar (hin p hlisted)
      · exact Walker.dropped_notMem (localWalker_counts T tooFar) h₁ (drops_of_omits homits hf) h₂ ho hlisted
    · intro hO
      have hled : p ∈ T.pathsWithin tooFar := by
        by_contra hfar
        exact hO (.inl hfar)
      have hbelow := (mem_pathsWithin_iff hr _ p).1 hled
      rcases Walker.run_drops DirectoryEntry.relativePath hbelow hw with hcan | hone | ⟨w₁, w₂, h₁, hd, h₂⟩
      · exact absurd hcan (by simp [hc])
      · exact ho.mem_of_holds hc (hone ▸ Nat.one_pos)
      · rcases omits_of_drops hd with hfalse | ⟨base, e, homits, hf⟩
        · exact absurd hcomplete (by rw [run_incomplete h₂ hfalse]; exact Bool.false_ne_true)
        · exact absurd (.inr ⟨base, e, w₁, w₂, h₁, homits, h₂, hf⟩) hO

/-! ## The two sides -/

/-- What a source of a comparison really is. -/
inductive DiffSide
  | tree (T : Tree)
  | bucket (B : Bucket)

/-- The files of a source by their paths, symbolic links followed. -/
def DiffSide.paths (source : DiffSource) : DiffSide → Set Str
  | .tree T => T.paths
  | .bucket B => B.paths source.path

/-- A listing of a source, with or without the parallel discovery, whether `cancelled` was set by then, and the files a
walk missed though they are there. -/
inductive SideLists (source : DiffSource) : DiffSide → Listing → Bool → Set Str → Prop
  | tree {T : Tree} {tooFar : Str → Bool} {l : Listing} {cancelled : Bool} {O : Set Str} (ht : source.type = .local)
      (h : LocalListsBut T tooFar l cancelled O) : SideLists source (.tree T) l cancelled O
  | bucket {B : Bucket} {l : Listing} {cancelled : Bool} (ht : source.type = .s3)
      (h : S3Lists B source.path l cancelled ∨ FlatLists B source.path l cancelled) :
      SideLists source (.bucket B) l cancelled ∅

/-- **A listing that is complete and not cancelled lists what the walk did not leave out.** -/
theorem sideLists_paths {source : DiffSource} {side : DiffSide} {l : Listing} {cancelled : Bool} {O : Set Str}
    (h : SideLists source side l cancelled O) :
    (∀ p ∈ l.paths, p ∈ side.paths source) ∧
      (l.complete = true → cancelled = false → ∀ p ∈ side.paths source, p ∈ l.paths ↔ p ∉ O) := by
  cases h with
  | tree _ h => exact localListsBut_paths h
  | @bucket B _ _ _ h =>
    have hpaths : (∀ p ∈ l.paths, p ∈ B.paths source.path) ∧
        (l.complete = true → cancelled = false → ∀ p ∈ B.paths source.path, p ∈ l.paths) := by
      rcases h with h | h
      · exact (s3Lists_paths h).2
      · obtain ⟨-, hin, hall⟩ := flatLists_paths h
        exact ⟨fun p hp => Bucket.mem_listed_false.1 (hin p hp),
          fun hcomplete hc p hp => hall hcomplete hc p (Bucket.mem_listed_false.2 hp)⟩
    exact ⟨hpaths.1, fun hcomplete hc p hp =>
      ⟨fun _ => Set.notMem_empty p, fun _ => hpaths.2 hcomplete hc p hp⟩⟩

/-! ## The comparison -/

/-- `run_directory_comparison` with its two looks at `progress.cancelled`: after the listings, and at its end. -/
def cancellableComparison (ans : DiffAnswers) (sourceA sourceB : DiffSource) (cancelledScan cancelledEnd : Bool)
    (tally : Tally) : DirectoryComparisonResult :=
  let result := runDirectoryComparison ans sourceA sourceB tally
  if !result.success then result
  else if cancelledScan then { errorMessage := "Cancelled during enumeration".toList }
  else if cancelledEnd then { result with success := false, errorMessage := "Cancelled during comparison".toList }
  else result

theorem cancellableComparison_success {ans : DiffAnswers} {a b : DiffSource} {cancelledScan cancelledEnd : Bool}
    {tally : Tally} (h : (cancellableComparison ans a b cancelledScan cancelledEnd tally).success = true) :
    BothListed ans a b ∧ cancelledScan = false ∧ cancelledEnd = false ∧
      cancellableComparison ans a b cancelledScan cancelledEnd tally =
        mergeResults (ans.listing .a) (ans.listing .b) tally := by
  unfold cancellableComparison at h ⊢
  dsimp only at h ⊢
  by_cases hs : (runDirectoryComparison ans a b tally).success = true
  · have hboth := runDirectoryComparison_success.1 hs
    rw [hs] at h ⊢
    cases cancelledScan with
    | true => exact absurd h Bool.false_ne_true
    | false =>
      cases cancelledEnd with
      | true => exact absurd h Bool.false_ne_true
      | false => exact ⟨hboth, rfl, rfl, runDirectoryComparison_eq hboth tally⟩
  · rw [Bool.eq_false_of_not_eq_true hs] at h
    exact absurd h hs

/-- A comparison that got past the sizes knows them. -/
theorem runComparison_sizes {ans : DiffAnswers} {config : ComparisonConfig}
    (h : (runComparison ans config).success = true) :
    0 ≤ (runComparison ans config).sizeA ∧ 0 ≤ (runComparison ans config).sizeB := by
  unfold runComparison at h ⊢
  dsimp only at h ⊢
  split at h
  · exact absurd h Bool.false_ne_true
  rename_i hA
  rw [if_neg hA]
  split at h
  · exact absurd h Bool.false_ne_true
  rename_i hB
  rw [if_neg hB]
  split at h
  · exact absurd h Bool.false_ne_true
  rename_i hcrcA
  rw [if_neg hcrcA]
  split at h
  · exact absurd h Bool.false_ne_true
  rename_i hcrcB
  rw [if_neg hcrcB]
  exact ⟨Int.not_lt.1 hA, Int.not_lt.1 hB⟩


theorem mapSize_of_notMem {l : Listing} {path : Str} (h : path ∉ l.paths) : mapSize l path = 0 := by
  unfold mapSize
  rw [List.find?_eq_none.2]
  intro e he heq
  exact h (of_decide_eq_true heq ▸ List.mem_map_of_mem (List.mem_reverse.1 he))

/-- A compared file that differs has a size on both sides. -/
theorem mismatch_sizes {ans : DiffAnswers} {a b : DiffSource} {path : Str}
    (h : (resultOf (compareFile ans a b) path).status = .mismatch) :
    (resultOf (compareFile ans a b) path).sizeA ≠ -1 ∧ (resultOf (compareFile ans a b) path).sizeB ≠ -1 := by
  have hsucc : (compareFile ans a b path).success = true := by
    by_contra hf
    have hstatus := fileCompareResult_status path (compareFile ans a b path)
    rw [Bool.eq_false_of_not_eq_true hf] at hstatus
    have herror : FileCompareStatus.mismatch = .error := h.symm.trans hstatus
    exact absurd herror (by decide)
  obtain ⟨hA, hB⟩ := runComparison_sizes hsucc
  have hsizes : (resultOf (compareFile ans a b) path).sizeA = (compareFile ans a b path).sizeA ∧
      (resultOf (compareFile ans a b) path).sizeB = (compareFile ans a b path).sizeB := by
    unfold resultOf fileCompareResult
    dsimp only
    split
    · exact ⟨rfl, rfl⟩
    · split <;> exact ⟨rfl, rfl⟩
  rw [hsizes.1, hsizes.2]
  unfold compareFile
  exact ⟨by omega, by omega⟩

/-- **The lines of the report for one side are those of its files the other listing lacks.** -/
theorem onlyInALine_iff {ans : DiffAnswers} {a b : DiffSource} {lA lB : Listing} {tally : Tally}
    (ht : Tallied (compareFile ans a b) (commonFiles lA lB) tally) {path : Str} :
    onlyInAResult lA path ∈ (mergeResults lA lB tally).files ↔ path ∈ onlyIn lA lB := by
  rw [mergeResults_eq ht, List.mem_mergeSort]
  unfold reportLines
  rw [List.mem_append, List.mem_append]
  constructor
  · rintro ((h | h) | h)
    · obtain ⟨p, hp, heq⟩ := List.mem_map.1 h
      obtain rfl : p = path := congrArg FileCompareResult.relativePath heq
      exact hp
    · obtain ⟨p, hp, heq⟩ := List.mem_map.1 h
      have hsize : (-1 : Int) = mapSize lA path := congrArg FileCompareResult.sizeA heq
      have hpath : p = path := congrArg FileCompareResult.relativePath heq
      have hnot : path ∉ lA.paths := hpath ▸ (mem_onlyIn.1 hp).2
      exact absurd hsize (by rw [mapSize_of_notMem hnot]; decide)
    · obtain ⟨p, hp, heq⟩ := List.mem_map.1 h
      have hsize : (resultOf (compareFile ans a b) p).sizeB = -1 := congrArg FileCompareResult.sizeB heq
      have hstatus : (resultOf (compareFile ans a b) p).status = .mismatch := congrArg FileCompareResult.status heq
      exact absurd hsize (mismatch_sizes hstatus).2
  · intro h
    exact .inl (.inl (List.mem_map_of_mem h))


theorem onlyInBLine_iff {ans : DiffAnswers} {a b : DiffSource} {lA lB : Listing} {tally : Tally}
    (ht : Tallied (compareFile ans a b) (commonFiles lA lB) tally) {path : Str} :
    onlyInBResult lB path ∈ (mergeResults lA lB tally).files ↔ path ∈ onlyIn lB lA := by
  rw [mergeResults_eq ht, List.mem_mergeSort]
  unfold reportLines
  rw [List.mem_append, List.mem_append]
  constructor
  · rintro ((h | h) | h)
    · obtain ⟨p, hp, heq⟩ := List.mem_map.1 h
      have hsize : (-1 : Int) = mapSize lB path := congrArg FileCompareResult.sizeB heq
      have hpath : p = path := congrArg FileCompareResult.relativePath heq
      have hnot : path ∉ lB.paths := hpath ▸ (mem_onlyIn.1 hp).2
      exact absurd hsize (by rw [mapSize_of_notMem hnot]; decide)
    · obtain ⟨p, hp, heq⟩ := List.mem_map.1 h
      obtain rfl : p = path := congrArg FileCompareResult.relativePath heq
      exact hp
    · obtain ⟨p, hp, heq⟩ := List.mem_map.1 h
      have hsize : (resultOf (compareFile ans a b) p).sizeA = -1 := congrArg FileCompareResult.sizeA heq
      have hstatus : (resultOf (compareFile ans a b) p).status = .mismatch := congrArg FileCompareResult.status heq
      exact absurd hsize (mismatch_sizes hstatus).1
  · intro h
    exact .inl (.inr (List.mem_map_of_mem h))

/-! ## What it says is on one side only -/

/-- Two sources, listed in one run of a comparison, and what the run was told. -/
structure ComparisonRun where
  sourceA : DiffSource
  sourceB : DiffSource
  sideA : DiffSide
  sideB : DiffSide
  ans : DiffAnswers
  /-- the files of a side that its walk missed: those the system does not lead to, and those below the links the walk
  passed over -/
  omittedA : Set Str
  omittedB : Set Str
  cancelledA : Bool
  cancelledB : Bool
  listedA : SideLists sourceA sideA (ans.listing .a) cancelledA omittedA
  listedB : SideLists sourceB sideB (ans.listing .b) cancelledB omittedB
  cancelledScan : Bool
  cancelledEnd : Bool
  /-- `progress.cancelled`, once set, stays set -/
  stays : (cancelledA = true ∨ cancelledB = true → cancelledScan = true) ∧ (cancelledScan = true → cancelledEnd = true)
  tally : Tally
  /-- a comparison that is not cancelled compares every common file -/
  tallied : cancelledEnd = false →
    Tallied (compareFile ans sourceA sourceB) (commonFiles (ans.listing .a) (ans.listing .b)) tally

namespace ComparisonRun

variable (run : ComparisonRun)

def result : DirectoryComparisonResult :=
  cancellableComparison run.ans run.sourceA run.sourceB run.cancelledScan run.cancelledEnd run.tally

/-- What the comparison says of the two sources is so. -/
structure Real : Prop where
  onlyA : ∀ path, onlyInAResult (run.ans.listing .a) path ∈ run.result.files → path ∉ run.sideB.paths run.sourceB
  onlyB : ∀ path, onlyInBResult (run.ans.listing .b) path ∈ run.result.files → path ∉ run.sideA.paths run.sourceA
  compared : ∀ path, path ∈ run.sideA.paths run.sourceA → path ∈ run.sideB.paths run.sourceB →
    path ∈ commonFiles (run.ans.listing .a) (run.ans.listing .b)

end ComparisonRun

namespace ComparisonRun

variable {run : ComparisonRun}

/-- A comparison that succeeds listed both sides whole but for the links, and was not cancelled. -/
theorem of_success (h : run.result.success = true) :
    BothListed run.ans run.sourceA run.sourceB ∧ run.cancelledA = false ∧ run.cancelledB = false ∧
      Tallied (compareFile run.ans run.sourceA run.sourceB)
        (commonFiles (run.ans.listing .a) (run.ans.listing .b)) run.tally ∧
      run.result.files = (mergeResults (run.ans.listing .a) (run.ans.listing .b) run.tally).files := by
  obtain ⟨hboth, hscan, hend, heq⟩ := cancellableComparison_success h
  refine ⟨hboth, ?_, ?_, run.tallied hend, congrArg DirectoryComparisonResult.files heq⟩
  · by_contra hc
    exact absurd (run.stays.1 (.inl (Bool.eq_true_of_not_eq_false hc))) (by simp [hscan])
  · by_contra hc
    exact absurd (run.stays.1 (.inr (Bool.eq_true_of_not_eq_false hc))) (by simp [hscan])

theorem onlyA_iff (h : run.result.success = true) {path : Str} :
    onlyInAResult (run.ans.listing .a) path ∈ run.result.files ↔
      path ∈ onlyIn (run.ans.listing .a) (run.ans.listing .b) := by
  obtain ⟨-, -, -, htallied, hfiles⟩ := of_success h
  rw [hfiles, onlyInALine_iff htallied]

theorem onlyB_iff (h : run.result.success = true) {path : Str} :
    onlyInBResult (run.ans.listing .b) path ∈ run.result.files ↔
      path ∈ onlyIn (run.ans.listing .b) (run.ans.listing .a) := by
  obtain ⟨-, -, -, htallied, hfiles⟩ := of_success h
  rw [hfiles, onlyInBLine_iff htallied]

end ComparisonRun

/-- Two trees compared, with these listings. -/
theorem exists_run {TA TB : Tree} {farA farB : Str → Bool} {lA lB : Listing} {OA OB : Set Str}
    (hA : LocalListsBut TA farA lA false OA) (hB : LocalListsBut TB farB lB false OB) (hcA : lA.complete = true)
    (hcB : lB.complete = true) :
    ∃ run : ComparisonRun, run.sideA = .tree TA ∧ run.sideB = .tree TB ∧ run.ans.listing .a = lA ∧
      run.ans.listing .b = lB ∧ run.omittedA = OA ∧ run.omittedB = OB ∧ run.result.success = true := by
  let ans : DiffAnswers := colliding.answers (fun _ => true) (fun side => if side = .a then lA else lB)
  obtain ⟨tally, htally⟩ := exists_tallied (compareFile ans {} {}) (commonFiles (ans.listing .a) (ans.listing .b)) {}
  let run : ComparisonRun := {
    sourceA := {}
    sourceB := {}
    sideA := .tree TA
    sideB := .tree TB
    ans
    omittedA := OA
    omittedB := OB
    cancelledA := false
    cancelledB := false
    listedA := .tree rfl hA
    listedB := .tree rfl hB
    cancelledScan := false
    cancelledEnd := false
    stays := ⟨by simp, by simp⟩
    tally
    tallied := fun _ => htally }
  have hboth : BothListed ans {} {} := ⟨nofun, nofun, hcA, hcB⟩
  have hsucc : run.result.success = true := by
    have hrun : (runDirectoryComparison ans {} {} tally).success = true := runDirectoryComparison_success.2 hboth
    show (cancellableComparison ans {} {} false false tally).success = true
    unfold cancellableComparison
    dsimp only
    rw [hrun]
    exact hrun
  exact ⟨run, rfl, rfl, rfl, rfl, rfl, rfl, hsucc⟩

/-- A whole listing missed nothing. -/
theorem notMem_of_whole {T : Tree} {l : Listing} {O : Set Str} (h : LocalListsBut T noLimit l false O)
    (hwhole : l.Whole) {path : Str} (hp : path ∈ T.paths) : path ∉ O := by
  have hlisted := (localLists_paths (localLists_iff.2 ⟨O, h⟩)).2.2 hwhole rfl path hp
  exact ((localListsBut_paths h).2 hwhole.1 rfl path hp).1 hlisted

/-- A tree of two files, `a` and `b`. -/
def twoFileTree : Tree where
  root := .dir 0
  dir n :=
    if n = 0 then some ⟨[⟨['a'], false, .file 1 5⟩, ⟨['b'], false, .file 2 5⟩], by simp, by simp⟩ else none

theorem twoFileTree_lists : LocalLists twoFileTree { entries := [⟨['a'], 1, 5⟩, ⟨['b'], 2, 5⟩] } false := by
  refine .walked (w := ⟨[], [], [], [], [⟨['a'], 1, 5⟩, ⟨['b'], 2, 5⟩], { visitedSymlinkTargets := [0] }, false⟩) rfl
    (.inr rfl) ?_ ⟨rfl, rfl, rfl, .inl rfl⟩
  refine .head (.opens (a := []) (b := []) rfl (.opened rfl (.refl _))) ?_
  refine .head (.reads (a := []) (b := []) rfl (.entry (e := ⟨['a'], false, .file 1 5⟩) rfl
    (a := ⟨false, .regular, some (1, 5), none⟩) ⟨by simp, 1, 5, rfl, .inr rfl⟩ rfl)) ?_
  refine .head (.reads (a := []) (b := []) rfl (.entry (e := ⟨['b'], false, .file 2 5⟩) rfl
    (a := ⟨false, .regular, some (2, 5), none⟩) ⟨by simp, 2, 5, rfl, .inr rfl⟩ rfl)) ?_
  refine .head (.reads (a := []) (b := []) rfl (.done rfl)) ?_
  refine .head (.merge (a := []) (b := []) rfl (.inl rfl)) ?_
  exact .single (.advance rfl rfl)

/-- Two links to one directory of one file. -/
def aliasedTree : Tree where
  root := .dir 0
  dir n :=
    if n = 0 then some ⟨[⟨['x'], true, .dir 1⟩, ⟨['y'], true, .dir 1⟩], by simp, by simp⟩
    else if n = 1 then some ⟨[⟨['f'], false, .file 1 0⟩], by simp, by simp⟩
    else none

/-- Either link may come first, and the other is passed over. -/
theorem aliasedTree_lists (first second : Char) (hf : first ≠ '/') (hs : second ≠ '/') (hne : first ≠ second)
    (hp : [⟨[first], true, .dir 1⟩, ⟨[second], true, .dir 1⟩].Perm
      ([⟨['x'], true, .dir 1⟩, ⟨['y'], true, .dir 1⟩] : List DirEnt)) :
    LocalLists aliasedTree { entries := [⟨[first, '/', 'f'], 1, 0⟩], aliasOmitted := true } false := by
  let D : Dir := ⟨[⟨[first], true, .dir 1⟩, ⟨[second], true, .dir 1⟩], by simp [hne], by simp [hf.symm, hs.symm]⟩
  refine .walked (w := ⟨[], [], [], [], [⟨[first, '/', 'f'], 1, 0⟩],
    { visitedSymlinkTargets := [1, 0], aliasOmitted := true }, false⟩) rfl (.inr rfl) ?_ ⟨rfl, rfl, rfl, .inl rfl⟩
  have hlink : ∀ name : Str, (⟨true, .directory, none, some 1⟩ : EntryAns).Of ⟨name, true, .dir 1⟩ :=
    fun _ => ⟨fun _ => rfl, 1, rfl, .inr rfl⟩
  have hopens : OpensDir aliasedTree noLimit ([], 0) { visitedSymlinkTargets := [0] } (some ([], D))
      { visitedSymlinkTargets := [0] } := .opened rfl hp
  refine .head (.opens (a := []) (b := []) rfl hopens) ?_
  refine .head (.reads (a := []) (b := []) rfl (.entry (e := ⟨[first], true, .dir 1⟩) rfl (hlink _) rfl)) ?_
  refine .head (.reads (a := []) (b := []) rfl (.entry (e := ⟨[second], true, .dir 1⟩) rfl (hlink _) rfl)) ?_
  refine .head (.reads (a := []) (b := []) rfl (.done rfl)) ?_
  refine .head (.merge (a := []) (b := []) rfl (.inl rfl)) ?_
  refine .head (.advance rfl rfl) ?_
  exact run_file rfl rfl

end Mito
