import MitoSync.DiffSpec
/-!
# DiffReport — the result of a directory comparison

The tasks of the pool count a file and insert its result in two steps, among those of the others.  Whatever the order,
they leave every file counted and inserted once (`tallied_spec`).  The report is then a list without repeated paths in
a total order, so it does not depend on the order the tasks ended in (`directory_partition`).
-/
namespace Mito

open Relation

/-! ## The tasks -/

def countStatus (status : FileCompareStatus) (files : List FileCompareResult) : Nat :=
  files.countP (fun f => f.status = status)

@[simp] theorem countStatus_nil (status : FileCompareStatus) : countStatus status [] = 0 := rfl

theorem countStatus_perm {status : FileCompareStatus} {fs gs : List FileCompareResult} (h : fs.Perm gs) :
    countStatus status fs = countStatus status gs := h.countP_eq _

@[simp] theorem fileCompareResult_path (path : Str) (r : ComparisonResult) :
    (fileCompareResult path r).relativePath = path := by
  unfold fileCompareResult
  dsimp only
  split
  · rfl
  · split <;> rfl

/-- A compared file matches, differs or could not be compared. -/
theorem fileCompareResult_status (path : Str) (r : ComparisonResult) :
    (fileCompareResult path r).status = if !r.success then .error else if r.allMatch then .match else .mismatch := by
  unfold fileCompareResult
  dsimp only
  split
  · rfl
  · split <;> rfl

section Tasks

variable {outcome : Str → ComparisonResult} {files : List Str}

/-- What the tasks make of a file. -/
def resultOf (outcome : Str → ComparisonResult) (path : Str) : FileCompareResult :=
  fileCompareResult path (outcome path)

/-- Every file is pending, counted or inserted, and the counters are those of the counted and the inserted ones. -/
structure Accounts (outcome : Str → ComparisonResult) (files : List Str) (s : WorkerState) : Prop where
  all : (s.pending.map (resultOf outcome) ++ (s.counted ++ s.tally.parallelResults)).Perm (files.map (resultOf outcome))
  matching : s.tally.matchingCount = countStatus .match (s.counted ++ s.tally.parallelResults)
  mismatch : s.tally.mismatchCount = countStatus .mismatch (s.counted ++ s.tally.parallelResults)
  error : s.tally.errorCount = countStatus .error (s.counted ++ s.tally.parallelResults)

theorem accounts_start : Accounts outcome files { pending := files } :=
  ⟨by simp, rfl, rfl, rfl⟩

theorem Accounts.step {s s' : WorkerState} (h : Accounts outcome files s) (hs : WorkerStep outcome s s') :
    Accounts outcome files s' := by
  cases hs with
  | @count l r path counted tally =>
    have hstatus := fileCompareResult_status path (outcome path)
    have hall : ((l ++ r).map (resultOf outcome) ++ (resultOf outcome path :: counted ++ tally.parallelResults)).Perm
        (files.map (resultOf outcome)) := by
      refine List.Perm.trans ?_ h.all
      simp only [List.map_append, List.map_cons, List.append_assoc, List.cons_append]
      exact List.perm_middle.append_left _
    obtain ⟨-, hm, hmm, he⟩ := h
    cases hsucc : (outcome path).success with
    | false =>
      rw [hsucc] at hstatus
      have hst : (fileCompareResult path (outcome path)).status = .error := hstatus
      rw [hst]
      refine ⟨hall, ?_, ?_, ?_⟩
      · simpa [Tally.count, countStatus, hst] using hm
      · simpa [Tally.count, countStatus, hst] using hmm
      · simpa [Tally.count, countStatus, hst] using he
    | true =>
      cases hmatch : (outcome path).allMatch with
      | true =>
        rw [hsucc, hmatch] at hstatus
        have hst : (fileCompareResult path (outcome path)).status = .match := hstatus
        rw [hst]
        refine ⟨hall, ?_, ?_, ?_⟩
        · simpa [Tally.count, countStatus, hst] using hm
        · simpa [Tally.count, countStatus, hst] using hmm
        · simpa [Tally.count, countStatus, hst] using he
      | false =>
        rw [hsucc, hmatch] at hstatus
        have hst : (fileCompareResult path (outcome path)).status = .mismatch := hstatus
        rw [hst]
        refine ⟨hall, ?_, ?_, ?_⟩
        · simpa [Tally.count, countStatus, hst] using hm
        · simpa [Tally.count, countStatus, hst] using hmm
        · simpa [Tally.count, countStatus, hst] using he
  | @insert pending l r fcr tally =>
    have hperm : (l ++ r ++ (tally.parallelResults ++ [fcr])).Perm (l ++ fcr :: r ++ tally.parallelResults) := by
      rw [← List.append_assoc]
      refine List.perm_append_singleton _ _ |>.trans ?_
      rw [List.append_assoc l (fcr :: r), List.cons_append, List.append_assoc]
      exact List.perm_middle.symm
    exact ⟨(hperm.append_left _).trans h.all, h.matching.trans (countStatus_perm hperm.symm),
      h.mismatch.trans (countStatus_perm hperm.symm), h.error.trans (countStatus_perm hperm.symm)⟩

theorem Accounts.run {s s' : WorkerState} (h : Accounts outcome files s)
    (hs : ReflTransGen (WorkerStep outcome) s s') : Accounts outcome files s' := by
  induction hs with
  | refl => exact h
  | tail _ hstep ih => exact ih.step hstep

/-- **The tasks leave every file counted and inserted once**, in the order they ended in. -/
theorem tallied_spec {tally : Tally} (h : Tallied outcome files tally) :
    tally.parallelResults.Perm (files.map (resultOf outcome)) ∧
      tally.matchingCount = countStatus .match (files.map (resultOf outcome)) ∧
      tally.mismatchCount = countStatus .mismatch (files.map (resultOf outcome)) ∧
      tally.errorCount = countStatus .error (files.map (resultOf outcome)) := by
  have hrun := accounts_start.run h
  have hall : tally.parallelResults.Perm (files.map (resultOf outcome)) := hrun.all
  exact ⟨hall, hrun.matching.trans (countStatus_perm hall), hrun.mismatch.trans (countStatus_perm hall),
    hrun.error.trans (countStatus_perm hall)⟩

/-- One task after the other. -/
theorem exists_tallied (outcome : Str → ComparisonResult) : ∀ (files : List Str) (tally : Tally),
    ∃ tally', ReflTransGen (WorkerStep outcome) ⟨files, [], tally⟩ ⟨[], [], tally'⟩
  | [], tally => ⟨tally, .refl⟩
  | path :: files, tally => by
    obtain ⟨tally', h⟩ := exists_tallied outcome files
      { tally.count (resultOf outcome path).status with
        parallelResults := (tally.count (resultOf outcome path).status).parallelResults ++ [resultOf outcome path] }
    refine ⟨tally', .head (.count (l := [])) (.head (.insert (l := []) (r := [])) h)⟩

end Tasks

/-! ## The order of the report -/

theorem reportOrder_total (f g : FileCompareResult) : (reportOrder f g || reportOrder g f) = true := by
  unfold reportOrder
  by_cases h : statusPriority f.status = statusPriority g.status
  · simp only [h, ne_eq, not_true_eq_false, if_false, Bool.or_eq_true, decide_eq_true_eq]
    exact le_total _ _
  · simp only [h, Ne.symm h, ne_eq, not_false_eq_true, if_true, Bool.or_eq_true, decide_eq_true_eq]
    omega

theorem reportOrder_iff {f g : FileCompareResult} : reportOrder f g = true ↔
    statusPriority f.status < statusPriority g.status ∨
      statusPriority f.status = statusPriority g.status ∧ f.relativePath ≤ g.relativePath := by
  unfold reportOrder
  by_cases h : statusPriority f.status = statusPriority g.status
  · simp [h]
  · simp [h]

theorem reportOrder_trans (f g k : FileCompareResult) (hfg : reportOrder f g = true) (hgk : reportOrder g k = true) :
    reportOrder f k = true := by
  rw [reportOrder_iff] at *
  rcases hfg with hfg | ⟨hfg, hp⟩
  · rcases hgk with hgk | ⟨hgk, -⟩
    · exact .inl (hfg.trans hgk)
    · exact .inl (hgk ▸ hfg)
  · rcases hgk with hgk | ⟨hgk, hq⟩
    · exact .inl (hfg ▸ hgk)
    · exact .inr ⟨hfg.trans hgk, hp.trans hq⟩

/-- Two lines that could change places are of one path. -/
theorem reportOrder_antisymm {f g : FileCompareResult} (hfg : reportOrder f g = true) (hgf : reportOrder g f = true) :
    f.relativePath = g.relativePath := by
  rw [reportOrder_iff] at hfg hgf
  rcases hfg with hfg | ⟨hfg, hp⟩
  · rcases hgf with hgf | ⟨hgf, -⟩
    · omega
    · omega
  · rcases hgf with hgf | ⟨hgf, hq⟩
    · omega
    · exact le_antisymm hp hq

theorem pairwise_report (files : List FileCompareResult) :
    (files.mergeSort reportOrder).Pairwise (fun f g => reportOrder f g = true) :=
  List.pairwise_mergeSort reportOrder_trans reportOrder_total files

/-- **A report without repeated paths has one order.** -/
theorem report_eq_of_perm {fs gs : List FileCompareResult} (h : fs.Perm gs)
    (hn : (fs.map FileCompareResult.relativePath).Nodup) : fs.mergeSort reportOrder = gs.mergeSort reportOrder := by
  have hperm : (fs.mergeSort reportOrder).Perm (gs.mergeSort reportOrder) :=
    (List.mergeSort_perm fs _).trans (h.trans (List.mergeSort_perm gs _).symm)
  have hanti : ∀ f g, f ∈ fs.mergeSort reportOrder → g ∈ gs.mergeSort reportOrder →
      reportOrder f g = true → reportOrder g f = true → f = g := by
    intro f g hf hg hfg hgf
    have hf' : f ∈ fs := (List.mergeSort_perm fs _).mem_iff.1 hf
    have hg' : g ∈ fs := h.mem_iff.2 ((List.mergeSort_perm gs _).mem_iff.1 hg)
    exact List.inj_on_of_nodup_map hn hf' hg' (reportOrder_antisymm hfg hgf)
  exact List.Perm.eq_of_pairwise hanti (pairwise_report fs) (pairwise_report gs) hperm

/-! ## The paths of the report -/

section Paths

variable {lA lB : Listing}

@[simp] theorem mem_mapPaths {path : Str} : path ∈ mapPaths lA ↔ path ∈ lA.paths := List.mem_dedup

theorem mem_sorted {paths : List Str} {path : Str} : path ∈ sorted paths ↔ path ∈ paths := List.mem_mergeSort

theorem nodup_sorted {paths : List Str} : (sorted paths).Nodup ↔ paths.Nodup :=
  (List.mergeSort_perm paths _).nodup_iff

theorem mem_commonFiles {path : Str} : path ∈ commonFiles lA lB ↔ path ∈ lA.paths ∧ path ∈ lB.paths := by
  unfold commonFiles
  rw [mem_sorted, List.mem_filter, List.contains_iff_mem, mem_mapPaths, mem_mapPaths]

theorem mem_onlyIn {path : Str} : path ∈ onlyIn lA lB ↔ path ∈ lA.paths ∧ path ∉ lB.paths := by
  unfold onlyIn
  rw [mem_sorted, List.mem_filter, Bool.not_eq_true', ← Bool.not_eq_true, List.contains_iff_mem, mem_mapPaths,
    mem_mapPaths]

theorem nodup_commonFiles : (commonFiles lA lB).Nodup := nodup_sorted.2 ((List.nodup_dedup _).filter _)

theorem nodup_onlyIn : (onlyIn lA lB).Nodup := nodup_sorted.2 ((List.nodup_dedup _).filter _)

theorem length_onlyIn (hn : lA.paths.Nodup) : (onlyIn lA lB).length = (lA.paths.filter (· ∉ lB.paths)).length := by
  unfold onlyIn sorted mapPaths
  rw [List.length_mergeSort, hn.dedup]
  refine congrArg List.length (List.filter_congr fun path _ => ?_)
  rw [Bool.eq_iff_iff, Bool.not_eq_true', ← Bool.not_eq_true, List.contains_iff_mem, List.mem_dedup, decide_eq_true_eq]

/-- The lines of the report, as they are collected. -/
def reportLines (lA lB : Listing) (results : List FileCompareResult) : List FileCompareResult :=
  (onlyIn lA lB).map (onlyInAResult lA) ++ (onlyIn lB lA).map (onlyInBResult lB) ++ results

theorem reportLines_paths (outcome : Str → ComparisonResult) :
    (reportLines lA lB ((commonFiles lA lB).map (resultOf outcome))).map FileCompareResult.relativePath =
      onlyIn lA lB ++ onlyIn lB lA ++ commonFiles lA lB := by
  have hresult : FileCompareResult.relativePath ∘ resultOf outcome = id := by
    funext path
    exact fileCompareResult_path path (outcome path)
  unfold reportLines
  simp only [List.map_append, List.map_map, hresult]
  have hA : FileCompareResult.relativePath ∘ onlyInAResult lA = id := rfl
  have hB : FileCompareResult.relativePath ∘ onlyInBResult lB = id := rfl
  rw [hA, hB, List.map_id, List.map_id, List.map_id]

theorem nodup_paths : (onlyIn lA lB ++ onlyIn lB lA ++ commonFiles lA lB).Nodup := by
  rw [List.nodup_append, List.nodup_append]
  refine ⟨⟨nodup_onlyIn, nodup_onlyIn, ?_⟩, nodup_commonFiles, ?_⟩
  · rintro p hp _ hq rfl
    exact (mem_onlyIn.1 hp).2 (mem_onlyIn.1 hq).1
  · rintro p hp _ hq rfl
    obtain ⟨hA, hB⟩ := mem_commonFiles.1 hq
    rcases List.mem_append.1 hp with hp | hp
    · exact (mem_onlyIn.1 hp).2 hB
    · exact (mem_onlyIn.1 hp).2 hA

theorem mem_paths {path : Str} :
    path ∈ onlyIn lA lB ++ onlyIn lB lA ++ commonFiles lA lB ↔ path ∈ lA.paths ∨ path ∈ lB.paths := by
  rw [List.mem_append, List.mem_append, mem_onlyIn, mem_onlyIn, mem_commonFiles]
  tauto

end Paths

section Report

variable {ans : DiffAnswers} {a b : DiffSource} {outcome : Str → ComparisonResult} {tally : Tally}

/-- Both sides can be listed and were, to the end. -/
structure BothListed (ans : DiffAnswers) (a b : DiffSource) : Prop where
  clientA : a.type = .s3 → ans.s3Client .a = true
  clientB : b.type = .s3 → ans.s3Client .b = true
  completeA : (ans.listing .a).complete = true
  completeB : (ans.listing .b).complete = true

theorem runDirectoryComparison_eq (h : BothListed ans a b) (tally : Tally) :
    runDirectoryComparison ans a b tally = mergeResults (ans.listing .a) (ans.listing .b) tally := by
  unfold runDirectoryComparison
  rw [if_neg, if_neg, if_neg]
  · rw [h.completeA, h.completeB]
    simp
  · rintro ⟨ht, hc⟩
    exact absurd (hc.symm.trans (h.clientB ht)) (by simp)
  · rintro ⟨ht, hc⟩
    exact absurd (hc.symm.trans (h.clientA ht)) (by simp)

/-- **A comparison of directories succeeds where both sides were listed to the end.** -/
theorem runDirectoryComparison_success :
    (runDirectoryComparison ans a b tally).success = true ↔ BothListed ans a b := by
  refine ⟨fun h => ?_, fun h => by rw [runDirectoryComparison_eq h]; rfl⟩
  unfold runDirectoryComparison at h
  split at h
  · exact absurd h Bool.false_ne_true
  rename_i hA
  split at h
  · exact absurd h Bool.false_ne_true
  rename_i hB
  dsimp only at h
  split at h
  · exact absurd h Bool.false_ne_true
  rename_i hc
  refine ⟨fun ht => ?_, fun ht => ?_, ?_, ?_⟩
  · by_contra hf
    exact hA ⟨ht, Bool.eq_false_of_not_eq_true hf⟩
  · by_contra hf
    exact hB ⟨ht, Bool.eq_false_of_not_eq_true hf⟩
  · by_contra hf
    exact hc (.inl (Bool.eq_false_of_not_eq_true hf))
  · by_contra hf
    exact hc (.inr (Bool.eq_false_of_not_eq_true hf))

/-- The result does not depend on the order of the tasks. -/
theorem mergeResults_eq {lA lB : Listing} (h : Tallied outcome (commonFiles lA lB) tally) :
    mergeResults lA lB tally =
      { files := (reportLines lA lB ((commonFiles lA lB).map (resultOf outcome))).mergeSort reportOrder
        totalFiles := (reportLines lA lB ((commonFiles lA lB).map (resultOf outcome))).length
        matchingFiles := countStatus .match ((commonFiles lA lB).map (resultOf outcome))
        mismatchedFiles := (onlyIn lA lB).length + (onlyIn lB lA).length +
          countStatus .mismatch ((commonFiles lA lB).map (resultOf outcome))
        onlyInA := (onlyIn lA lB).length
        onlyInB := (onlyIn lB lA).length
        errors := countStatus .error ((commonFiles lA lB).map (resultOf outcome))
        success := true } := by
  obtain ⟨hperm, hm, hmm, he⟩ := tallied_spec h
  have hlines : (reportLines lA lB ((commonFiles lA lB).map (resultOf outcome))).Perm
      (reportLines lA lB tally.parallelResults) := hperm.symm.append_left _
  have hnodup : ((reportLines lA lB ((commonFiles lA lB).map (resultOf outcome))).map
      FileCompareResult.relativePath).Nodup := by
    rw [reportLines_paths]
    exact nodup_paths
  have hsort := report_eq_of_perm hlines hnodup
  have hlen := hlines.length_eq
  unfold mergeResults
  rw [← hm, ← hmm, ← he, hsort, hlen]
  rfl

/-- Every compared file matches, differs or could not be compared. -/
theorem countStatus_total (outcome : Str → ComparisonResult) (files : List Str) :
    countStatus .match (files.map (resultOf outcome)) + countStatus .mismatch (files.map (resultOf outcome)) +
      countStatus .error (files.map (resultOf outcome)) = files.length := by
  induction files with
  | nil => rfl
  | cons path files ih =>
    have hstatus := fileCompareResult_status path (outcome path)
    simp only [countStatus, List.map_cons, List.countP_cons, List.length_cons, resultOf] at ih ⊢
    rw [hstatus, ← ih]
    cases (outcome path).success <;> cases (outcome path).allMatch <;>
      simp [reduceCtorEq] <;> omega

/-- **The result of a directory comparison is a partition of the two listings**, and the same for every order in which
the tasks end. -/
theorem directory_partition (h : BothListed ans a b) (hA : (ans.listing .a).paths.Nodup)
    (hB : (ans.listing .b).paths.Nodup)
    (ht : Tallied outcome (commonFiles (ans.listing .a) (ans.listing .b)) tally) :
    ((runDirectoryComparison ans a b tally).files.map FileCompareResult.relativePath).Nodup ∧
    (∀ path, path ∈ (runDirectoryComparison ans a b tally).files.map FileCompareResult.relativePath ↔
      path ∈ (ans.listing .a).paths ∨ path ∈ (ans.listing .b).paths) ∧
    (runDirectoryComparison ans a b tally).files.Pairwise (fun f g => reportOrder f g = true) ∧
    (runDirectoryComparison ans a b tally).totalFiles = (runDirectoryComparison ans a b tally).files.length ∧
    (runDirectoryComparison ans a b tally).totalFiles = (runDirectoryComparison ans a b tally).matchingFiles +
      (runDirectoryComparison ans a b tally).mismatchedFiles + (runDirectoryComparison ans a b tally).errors ∧
    (runDirectoryComparison ans a b tally).onlyInA =
      ((ans.listing .a).paths.filter (· ∉ (ans.listing .b).paths)).length ∧
    (runDirectoryComparison ans a b tally).onlyInB =
      ((ans.listing .b).paths.filter (· ∉ (ans.listing .a).paths)).length ∧
    (runDirectoryComparison ans a b tally).onlyInA + (runDirectoryComparison ans a b tally).onlyInB ≤
      (runDirectoryComparison ans a b tally).mismatchedFiles ∧
    contentDifferences (runDirectoryComparison ans a b tally) =
      ((commonFiles (ans.listing .a) (ans.listing .b)).filter
        (fun path => (fileCompareResult path (outcome path)).status = .mismatch)).length ∧
    ∀ tally', Tallied outcome (commonFiles (ans.listing .a) (ans.listing .b)) tally' →
      runDirectoryComparison ans a b tally' = runDirectoryComparison ans a b tally := by
  have heq : ∀ tally', Tallied outcome (commonFiles (ans.listing .a) (ans.listing .b)) tally' →
      runDirectoryComparison ans a b tally' = _ := fun tally' ht' =>
    (runDirectoryComparison_eq h tally').trans (mergeResults_eq ht')
  have htotal := countStatus_total outcome (commonFiles (ans.listing .a) (ans.listing .b))
  rw [heq tally ht]
  generalize ans.listing .a = lA at *
  generalize ans.listing .b = lB at *
  have hperm : ((reportLines lA lB ((commonFiles lA lB).map (resultOf outcome))).mergeSort reportOrder).Perm
      (reportLines lA lB ((commonFiles lA lB).map (resultOf outcome))) := List.mergeSort_perm _ _
  have hpaths : (((reportLines lA lB ((commonFiles lA lB).map (resultOf outcome))).mergeSort reportOrder).map
      FileCompareResult.relativePath).Perm (onlyIn lA lB ++ onlyIn lB lA ++ commonFiles lA lB) := by
    rw [← reportLines_paths outcome]
    exact hperm.map _
  have hlen : (reportLines lA lB ((commonFiles lA lB).map (resultOf outcome))).length =
      (onlyIn lA lB).length + (onlyIn lB lA).length + (commonFiles lA lB).length := by
    simp [reportLines, Nat.add_assoc]
  refine ⟨hpaths.nodup_iff.2 nodup_paths, fun path => (hpaths.mem_iff).trans mem_paths, pairwise_report _,
    hperm.length_eq.symm, ?_, length_onlyIn hA, length_onlyIn hB, ?_, ?_, fun tally' ht' => heq tally' ht'⟩
  · dsimp only
    rw [hlen]
    omega
  · dsimp only
    omega
  · have hcount : countStatus .mismatch ((commonFiles lA lB).map (resultOf outcome)) =
        ((commonFiles lA lB).filter (fun path => (fileCompareResult path (outcome path)).status = .mismatch)).length := by
      rw [countStatus, List.countP_map, List.countP_eq_length_filter]
      rfl
    unfold contentDifferences
    dsimp only
    rw [← hcount]
    split
    · omega
    · omega

def twoListings : Side → Listing
  | .a => { entries := [⟨['x'], 1, 0⟩] }
  | .b => { entries := [⟨['x'], 1, 0⟩, ⟨['y'], 2, 0⟩] }

/-- Two listings of one and of two files. -/
theorem directory_partition_two : ∃ (ans : DiffAnswers) (tally : Tally),
    Tallied (fun _ => {}) (commonFiles (ans.listing .a) (ans.listing .b)) tally ∧
      (runDirectoryComparison ans {} {} tally).onlyInA = 0 ∧ (runDirectoryComparison ans {} {} tally).onlyInB = 1 := by
  let ans : DiffAnswers := colliding.answers (fun _ => true) twoListings
  obtain ⟨tally, h⟩ := exists_tallied (fun _ => {}) (commonFiles (ans.listing .a) (ans.listing .b)) {}
  have hboth : BothListed ans {} {} := ⟨nofun, nofun, rfl, rfl⟩
  obtain ⟨-, -, -, -, -, hA, hB, -⟩ := directory_partition hboth (by decide) (by decide) h
  exact ⟨ans, tally, h, hA, hB⟩

end Report

end Mito
