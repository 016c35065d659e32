import MitoSync.Run
import Mathlib.Data.Prod.Lex
import Mathlib.Data.List.Sort
/-!
# SubmissionOrder — the smallest first, and the deletes last

`run_sync` sorts the lines of its plan before it posts their tasks: the deletes behind everything else, and otherwise by
`s3_size` for a download and `local_size` for any other line, which is -1 for every line of an S3-to-S3 run
(`submitSize`).  The sort is not stable, so `Submission` is whatever it may leave; they differ in lines
of one size only (`Submission.keys_eq`).  A task does nothing before it is posted, so nothing that the plan deletes is
gone while anything else has yet to be posted (`deletes_wait`).
-/
namespace Mito

open Lib Prog Relation

/-- The size that a line is sorted by. -/
def submitSize (f : SyncFileEntry) : Int :=
  if f.action = .download ∨ f.action = .downloadDiff then f.s3Size else f.localSize

/-- The comparator of the sort. -/
def submitBefore (a b : SyncFileEntry) : Bool :=
  if a.action = .delete ∧ b.action ≠ .delete then false
  else if a.action ≠ .delete ∧ b.action = .delete then true
  else submitSize a < submitSize b

/-- What the comparator compares. -/
def submitKey (f : SyncFileEntry) : Bool ×ₗ Int := toLex (decide (f.action = .delete), submitSize f)

/-- **The comparator is the order of a key**, so a strict weak order as `std::sort` wants it. -/
theorem submitBefore_iff (a b : SyncFileEntry) : submitBefore a b = true ↔ submitKey a < submitKey b := by
  unfold submitBefore submitKey
  rw [Prod.Lex.toLex_lt_toLex]
  by_cases ha : a.action = .delete <;> by_cases hb : b.action = .delete <;> simp [ha, hb]

theorem not_submitBefore_iff (a b : SyncFileEntry) : submitBefore b a = false ↔ submitKey a ≤ submitKey b := by
  rw [← not_lt, ← submitBefore_iff, Bool.not_eq_true]

/-- What `std::sort` may leave of the lines of a plan. -/
structure Submission (files sorted : List SyncFileEntry) : Prop where
  perm : sorted.Perm (actionable files)
  sorted : sorted.Pairwise fun a b => submitBefore b a = false

theorem exists_submission (files : List SyncFileEntry) : ∃ sorted, Submission files sorted := by
  refine ⟨(actionable files).mergeSort fun a b => !submitBefore b a, List.mergeSort_perm _ _, ?_⟩
  have hle : ∀ a b, (!submitBefore b a) = true ↔ submitKey a ≤ submitKey b := fun a b => by
    rw [Bool.not_eq_true', not_submitBefore_iff]
  refine (List.pairwise_mergeSort (fun a b c hab hbc => ?_) (fun a b => ?_) _).imp fun h => by simpa using h
  · exact (hle a c).2 (((hle a b).1 hab).trans ((hle b c).1 hbc))
  · rw [Bool.or_eq_true, hle, hle]
    exact le_total _ _

variable {files sorted sorted' : List SyncFileEntry}

/-- **Two sorts of one plan differ in lines of one size only.** -/
theorem Submission.keys_eq (h : Submission files sorted) (h' : Submission files sorted') :
    sorted.map submitKey = sorted'.map submitKey := by
  have hpairwise : ∀ {l : List SyncFileEntry}, l.Pairwise (fun a b => submitBefore b a = false) →
      (l.map submitKey).Pairwise (· ≤ ·) := fun hl =>
    List.pairwise_map.2 (hl.imp fun {a b} hab => (not_submitBefore_iff a b).1 hab)
  exact ((h.perm.trans h'.perm.symm).map submitKey).eq_of_pairwise (fun a b _ _ hab hba => le_antisymm hab hba)
    (hpairwise h.sorted) (hpairwise h'.sorted)

/-- Everything that is not a delete stands before the deletes. -/
theorem Submission.delete_last (h : Submission files sorted) {d j : Fin sorted.length}
    (hd : (sorted.get d).action = .delete) (hj : (sorted.get j).action ≠ .delete) : j < d := by
  by_contra hnot
  rcases eq_or_lt_of_le (not_lt.1 hnot) with heq | hlt
  · exact hj (heq ▸ hd)
  · have hkey := List.pairwise_iff_get.1 h.sorted d j hlt
    unfold submitBefore at hkey
    rw [if_neg (fun hboth => hj hboth.1), if_pos ⟨hj, hd⟩] at hkey
    exact absurd hkey (by simp)

/-- Of two lines that are not deletes, the one that stands before is no larger. -/
theorem Submission.smallest_first (h : Submission files sorted) {i j : Fin sorted.length} (hij : i < j)
    (hi : (sorted.get i).action ≠ .delete) (hj : (sorted.get j).action ≠ .delete) :
    submitSize (sorted.get i) ≤ submitSize (sorted.get j) := by
  have hkey := List.pairwise_iff_get.1 h.sorted i j hij
  unfold submitBefore at hkey
  rw [if_neg (fun hboth => hj hboth.1), if_neg (fun hboth => hi hboth.2), decide_eq_false_iff_not, not_lt] at hkey
  exact hkey

/-! ## The tasks -/

section

variable (S : Setting) (config : SyncConfig) (hn : (sorted.map SyncFileEntry.relativePath).Nodup)

/-- A step of the submission of `sorted`: a task is posted, or one that has been does a request. -/
inductive SubmitStep : ℕ × ((Fin sorted.length → Exec Outcome) × World) →
    ℕ × ((Fin sorted.length → Exec Outcome) × World) → Prop
  | post {k : ℕ} {y : (Fin sorted.length → Exec Outcome) × World} (h : k < sorted.length) :
      SubmitStep (k, y) (k + 1, y)
  | task {k : ℕ} {P : Fin sorted.length → Exec Outcome} {w : World} (i : Fin sorted.length) (hi : i.val < k)
      {p : Exec Outcome} {s : Slot}
      (h : Prog.Step (exec (S.env (sorted.get i).relativePath)) (P i, (slots config sorted hn).view i w) (p, s)) :
      SubmitStep (k, (P, w)) (k, (Function.update P i p, (slots config sorted hn).put i s w))

end

variable {S : Setting} {limits : Limits} {config : SyncConfig} {hn : (sorted.map SyncFileEntry.relativePath).Nodup}

/-- A submission of the whole plan, from its first task on. -/
abbrev Submits (S : Setting) (limits : Limits) (config : SyncConfig)
    (hn : (sorted.map SyncFileEntry.relativePath).Nodup) (w : World)
    (z : ℕ × ((Fin sorted.length → Exec Outcome) × World)) : Prop :=
  ReflTransGen (SubmitStep S config hn) (0, (fun i => processEntry limits config (sorted.get i), w)) z

/-- **A submission is an execution**, in which a task that is not posted has done nothing. -/
theorem Submits.executes {w : World} {z : ℕ × ((Fin sorted.length → Exec Outcome) × World)}
    (h : Submits S limits config hn w z) : Executes S limits config sorted hn w z.2 ∧ z.1 ≤ sorted.length ∧
      ∀ i : Fin sorted.length, z.1 ≤ i.val → z.2.1 i = processEntry limits config (sorted.get i) ∧
        slotOf config sorted i z.2.2 = slotOf config sorted i w := by
  induction h with
  | refl => exact ⟨.refl, Nat.zero_le _, fun i _ => ⟨rfl, rfl⟩⟩
  | tail _ hstep ih =>
    obtain ⟨hexec, hle, hidle⟩ := ih
    cases hstep with
    | post hk => exact ⟨hexec, hk, fun i hi => hidle i (Nat.le_of_succ_le hi)⟩
    | @task k P w' i hi p s hs =>
      refine ⟨hexec.tail (.task i hs), hle, fun j hj => ?_⟩
      have hij : i ≠ j := fun heq => absurd (heq ▸ hi) (Nat.not_lt.2 hj)
      obtain ⟨hprogram, hslot⟩ := hidle j hj
      exact ⟨(Function.update_of_ne hij.symm p P).trans hprogram,
        ((slots config sorted hn).view_put_ne i j s w' hij).trans hslot⟩

/-- A line whose destination has changed is posted. -/
theorem Submits.posted_of_changed {w : World} {z : ℕ × ((Fin sorted.length → Exec Outcome) × World)}
    (h : Submits S limits config hn w z) {i : Fin sorted.length}
    (hi : z.2.2.store (destKey config (sorted.get i).relativePath) ≠
      w.store (destKey config (sorted.get i).relativePath)) : i.val < z.1 := by
  by_contra hnot
  exact hi (congrArg Slot.entry ((h.executes.2.2 i (not_lt.1 hnot)).2))

/-- **Nothing that the plan deletes is gone while anything else has yet to be posted**, and nothing is transferred while
a line of a smaller `submitSize` has yet to be: at every point of a run, whatever the sort has made of the lines of one
size. -/
theorem deletes_wait (hsort : Submission files sorted) {w : World}
    {z : ℕ × ((Fin sorted.length → Exec Outcome) × World)} (h : Submits S limits config hn w z)
    {i j : Fin sorted.length}
    (hi : z.2.2.store (destKey config (sorted.get i).relativePath) ≠
      w.store (destKey config (sorted.get i).relativePath))
    (hj : (sorted.get j).action ≠ .delete)
    (hlast : (sorted.get i).action = .delete ∨ submitSize (sorted.get j) < submitSize (sorted.get i)) :
    j.val < z.1 := by
  have hposted := h.posted_of_changed hi
  by_cases hdelete : (sorted.get i).action = .delete
  · exact lt_trans (hsort.delete_last hdelete hj) hposted
  · have hsmaller := hlast.resolve_left hdelete
    by_contra hnot
    have hij : i.val < j.val := lt_of_lt_of_le hposted (Nat.not_lt.1 hnot)
    exact absurd (hsort.smallest_first hij hdelete hj) (not_le.2 hsmaller)

/-- A run of a posted task alone is a run of the submission in which the others wait. -/
theorem SubmitStep.lift {k : ℕ} {P : Fin sorted.length → Exec Outcome} {w : World} {i : Fin sorted.length}
    (hi : i.val < k) {z : Exec Outcome × Slot}
    (h : Steps (exec (S.env (sorted.get i).relativePath)) (P i, slotOf config sorted i w) z) :
    ∃ y, ReflTransGen (SubmitStep S config hn) (k, (P, w)) (k, y) ∧ (y.1 i, slotOf config sorted i y.2) = z := by
  induction h with
  | refl => exact ⟨(P, w), .refl, rfl⟩
  | @tail z z' _ hs ih =>
    obtain ⟨y, hy, rfl⟩ := ih
    obtain ⟨p, s⟩ := z'
    refine ⟨_, hy.tail (.task i hi hs), ?_⟩
    simp only [Function.update_self]
    exact congrArg (Prod.mk p) ((slots config sorted hn).view_put i s y.2)

/-- An upload that is posted and not begun, and a delete that is carried out. -/
theorem deletes_wait_one : ∃ (sorted : List SyncFileEntry) (hn : (sorted.map SyncFileEntry.relativePath).Nodup)
    (w : World) (z : ℕ × ((Fin sorted.length → Exec Outcome) × World)),
    Submits ⟨fun _ => none, fun _ => 0, fun _ => True, .sound⟩ ⟨0, 0⟩ {} hn w z ∧ w.store ['b'] = some ⟨[1], 0⟩ ∧
      z.2.2.store ['b'] = none ∧ 0 < z.1 := by
  let sorted : List SyncFileEntry :=
    [{ relativePath := ['a'], action := .upload, localSize := 1 }, { relativePath := ['b'], action := .delete }]
  let w : World := { store := fun p => if p = ['b'] then some ⟨[1], 0⟩ else none, locals := fun _ => {} }
  let S : Setting := ⟨fun _ => none, fun _ => 0, fun _ => True, .sound⟩
  have hn : (sorted.map SyncFileEntry.relativePath).Nodup := by decide
  have hsort : Submission sorted sorted := ⟨List.Perm.refl _, by decide⟩
  have hposts : Submits S ⟨0, 0⟩ {} hn w (2, (fun i => processEntry ⟨0, 0⟩ {} (sorted.get i), w)) :=
    (ReflTransGen.refl.tail (.post (by decide))).tail (.post (by decide))
  have hrun : Steps (exec (S.env ['b'])) (processEntry ⟨0, 0⟩ {} (sorted.get ⟨1, by decide⟩),
      slotOf {} sorted ⟨1, by decide⟩ w) (.ret .done, {}) := by
    refine steps_answer false { entry := some ⟨[1], 0⟩ } ⟨by simp [slotOf, w], by simp, rfl⟩ ?_
    refine steps_answer false { entry := some ⟨[1], 0⟩ } ⟨by simp, by simp, rfl⟩ ?_
    refine steps_answer false { entry := some ⟨[1], 0⟩ } ⟨by simp, by simp, rfl⟩ ?_
    refine steps_answer (.ok ()) {} ⟨trivial, rfl⟩ ?_
    exact .refl
  obtain ⟨y, hy, hend⟩ := SubmitStep.lift (S := S) (k := 2) (P := fun i => processEntry ⟨0, 0⟩ {} (sorted.get i))
    (i := ⟨1, by decide⟩) (by decide) hrun
  have hgone : y.2.store ['b'] = none := congrArg (fun z => z.2.entry) hend
  refine ⟨sorted, hn, w, (2, y), hposts.trans hy, rfl, hgone, ?_⟩
  refine deletes_wait (i := ⟨1, by decide⟩) (j := ⟨0, by decide⟩) hsort (hposts.trans hy) (fun hsame => ?_) (by decide)
    (.inl rfl)
  exact absurd (hgone.symm.trans hsame) (by decide)

end Mito
