import MitoSync.Execution
import MitoSync.Mirror
/-!
# ExecutionSpec — every entry is booked once

`Accounted` says where every posted entry is: booked by its task or by a disk writer, in the write queue, in a writer's
hands, or with a task that has yet to decide.  `Ordered` says what each join leaves behind.  Together they have that a
result is read only when everything posted is booked.
-/
namespace Mito

open Relation

/-- The counter of an action. -/
def Counts.of (c : Counts) : SyncAction → Nat
  | .skip => 0
  | .upload => c.uploadCount
  | .uploadDiff => c.diffUploadCount
  | .download => c.downloadCount
  | .downloadDiff => c.diffDownloadCount
  | .copy => c.copyCount
  | .delete => c.deleteCount

theorem Counts.of_succeed (c : Counts) (a b : SyncAction) (ha : a ≠ .skip) :
    (c.succeed a).of b = c.of b + if a = b then 1 else 0 := by
  cases a <;> cases b <;> first | exact absurd rfl ha | rfl

@[simp] theorem Counts.succeed_failCount (c : Counts) (a : SyncAction) : (c.succeed a).failCount = c.failCount := by
  cases a <;> rfl

@[simp] theorem Counts.of_fail (c : Counts) (a : SyncAction) : c.fail.of a = c.of a := by cases a <;> rfl

@[simp] theorem Counts.fail_failCount (c : Counts) : c.fail.failCount = c.failCount + 1 := rfl

/-- The task may still book the entry, or queue it. -/
def Stage.undecided : Stage → Bool
  | .posted _ | .working _ | .fetched => true
  | .settled | .leaving => false

/-- Past the loops of the tasks. -/
def Phase.Closed : Phase → Prop
  | .submitting | .draining => False
  | .closing | .joined _ | .returned _ => True

namespace Execution

variable {n : Nat} {config : SyncConfig} {files : Fin n → SyncFileEntry} {skipped : Nat} {s s' : Execution n}

/-- The entries whose task has yet to decide. -/
def undecided (pool : List (Fin n × Stage)) : List (Fin n) := (pool.filter fun t => t.2.undecided).map Prod.fst

theorem undecided_split (a b : List (Fin n × Stage)) (i : Fin n) (stage : Stage) :
    undecided (a ++ (i, stage) :: b) = undecided a ++ ((if stage.undecided then [i] else []) ++ undecided b) := by
  unfold undecided
  rw [List.filter_append, List.filter_cons, List.map_append]
  split <;> rfl

theorem undecided_cons (t : Fin n × Stage) (pool : List (Fin n × Stage)) :
    undecided (t :: pool) = (if t.2.undecided then [t.1] else []) ++ undecided pool :=
  undecided_split [] pool t.1 t.2

/-- Where the posted entries are. -/
def places (s : Execution n) : List (Fin n) :=
  s.booked.map Prod.fst ++ s.written.map Prod.fst ++ s.writing ++ s.writeQueue ++ undecided s.pool

structure Accounted (files : Fin n → SyncFileEntry) (s : Execution n) : Prop where
  inFlight : s.inFlight = s.pool.length
  next_le : s.next ≤ n
  entries : s.cancelled = false → ∀ i, s.places.count i = if i.val < s.next then 1 else 0
  processed : s.cancelled = false → s.filesProcessed + s.pool.countP (fun t => t.2 ≠ .leaving) = s.next
  pushed : ∀ i, s.pushed.count i = (s.written.map Prod.fst ++ s.writing ++ s.writeQueue).count i
  succeeded : ∀ a, s.counts.of a = s.booked.countP fun e => e.2 && (files e.1).action = a
  failed : s.counts.failCount = s.booked.countP fun e => !e.2
  writes : s.writeQueueSuccess = s.written.countP fun e => e.2
  writeFails : s.writeQueueFail = s.written.countP fun e => !e.2
  fetched : ∀ t ∈ s.pool, t.2 = .fetched → (files t.1).action = .download
  downloads : ∀ i ∈ s.pushed, (files i).action = .download

structure Ordered (config : SyncConfig) (skipped : Nat) (s : Execution n) : Prop where
  writing : s.writing.length ≤ s.writers
  submitted : s.phase = .submitting ∨ n ≤ s.next ∨ s.cancelled = true
  closed : s.phase.Closed → s.pool = []
  done : s.writeQueueDone = true → s.phase.Closed
  exits : config.direction = .download → s.writers < diskWriterThreads → s.writeQueue = [] ∧ s.phase.Closed
  joined : ∀ total, s.phase = .joined total → total = s.total config ∧ s.writers = 0
  returned : ∀ result, s.phase = .returned result →
    result = syncResultOf skipped (s.total config) s.cancelled ∧ s.writers = 0

theorem Accounted.fetched_replace (h : Accounted files s) {a b : List (Fin n × Stage)} {i : Fin n} {x y : Stage}
    (hpool : s.pool = a ++ (i, x) :: b) (hy : y = .fetched → (files i).action = .download) :
    ∀ t ∈ a ++ (i, y) :: b, t.2 = .fetched → (files t.1).action = .download := by
  intro t ht hst
  have hmem := h.fetched t
  rw [hpool] at hmem
  simp only [List.mem_append, List.mem_cons] at ht hmem
  rcases ht with ht | rfl | ht
  · exact hmem (.inl ht) hst
  · exact hy hst
  · exact hmem (.inr (.inr ht)) hst

/-- A task goes on without deciding. -/
theorem Accounted.advance (h : Accounted files s) {a b : List (Fin n × Stage)} {i : Fin n} {x y : Stage}
    (hpool : s.pool = a ++ (i, x) :: b) (hx : x.undecided = true) (hy : y.undecided = true)
    (hfetched : y = .fetched → (files i).action = .download) :
    Accounted files { s with pool := a ++ (i, y) :: b } := by
  have hplaces : ({ s with pool := a ++ (i, y) :: b } : Execution n).places = s.places := by
    unfold places
    rw [hpool, undecided_split, undecided_split, hx, hy]
  have hlive : x ≠ .leaving ∧ y ≠ .leaving := by
    constructor
    · rintro rfl
      exact absurd hx (by decide)
    · rintro rfl
      exact absurd hy (by decide)
  refine { h with inFlight := ?_, entries := ?_, processed := ?_, fetched := h.fetched_replace hpool hfetched }
  · rw [h.inFlight, hpool]
    simp
  · rw [hplaces]
    exact h.entries
  · intro hc
    have hp := h.processed hc
    rw [hpool] at hp
    simpa [List.countP_append, List.countP_cons, hlive.1, hlive.2] using hp

/-- What a task that decides does to the pool. -/
theorem Accounted.settle (h : Accounted files s) {a b : List (Fin n × Stage)} {i : Fin n} {x : Stage}
    (hpool : s.pool = a ++ (i, x) :: b) (hx : x.undecided = true) :
    s.inFlight = (a ++ (i, Stage.settled) :: b).length ∧
    (s.cancelled = false →
      s.filesProcessed + (a ++ (i, Stage.settled) :: b).countP (fun t => t.2 ≠ .leaving) = s.next) ∧
    (∀ t ∈ a ++ (i, Stage.settled) :: b, t.2 = .fetched → (files t.1).action = .download) ∧
    ∀ j, (undecided s.pool).count j =
      (undecided (a ++ (i, Stage.settled) :: b)).count j + if i = j then 1 else 0 := by
  have hlive : x ≠ .leaving := by
    rintro rfl
    exact absurd hx (by decide)
  refine ⟨?_, ?_, h.fetched_replace hpool (by simp), ?_⟩
  · rw [h.inFlight, hpool]
    simp
  · intro hc
    have hp := h.processed hc
    rw [hpool] at hp
    simpa [List.countP_append, List.countP_cons, hlive] using hp
  · intro j
    rw [hpool, undecided_split, undecided_split, hx]
    simp only [if_true, List.count_append, List.count_cons, List.count_nil, beq_iff_eq, Stage.undecided,
      Bool.false_eq_true, if_false]
    omega

/-- A task decides: it books its entry, or leaves it uncounted once the run is cancelled. -/
theorem Accounted.book (h : Accounted files s) (hskip : ∀ i, (files i).action ≠ .skip) {a b : List (Fin n × Stage)}
    {i : Fin n} {x : Stage} (hpool : s.pool = a ++ (i, x) :: b) (hx : x.undecided = true) (success : Bool) :
    Accounted files { s.book files i success with pool := a ++ (i, .settled) :: b } := by
  obtain ⟨hlength, hprocessed, hfetched, hdecided⟩ := h.settle hpool hx
  have hmoved : ∀ success, s.cancelled = false → ∀ j,
      (((i, success) :: s.booked).map Prod.fst ++ s.written.map Prod.fst ++ s.writing ++ s.writeQueue ++
        undecided (a ++ (i, Stage.settled) :: b)).count j = if j.val < s.next then 1 else 0 := by
    intro success hc j
    rw [← h.entries hc j]
    unfold places
    simp only [List.map_cons, List.count_append, List.count_cons, beq_iff_eq, hdecided j]
    omega
  unfold Execution.book
  cases success with
  | true =>
    refine ⟨hlength, h.next_le, hmoved true, hprocessed, h.pushed, ?_, ?_, h.writes, h.writeFails, hfetched,
      h.downloads⟩
    · intro action
      simp only [if_true]
      rw [Counts.of_succeed _ _ _ (hskip i), h.succeeded, List.countP_cons]
      simp
    · simp only [if_true]
      rw [Counts.succeed_failCount, h.failed, List.countP_cons]
      simp
  | false =>
    cases hc : s.cancelled with
    | true =>
      refine ⟨hlength, h.next_le, fun hf => ?_, fun hf => ?_, h.pushed, h.succeeded, h.failed, h.writes, h.writeFails,
        hfetched, h.downloads⟩
      · exact absurd (hc.symm.trans hf) (by simp)
      · exact absurd (hc.symm.trans hf) (by simp)
    | false =>
      refine ⟨hlength, h.next_le, fun _ => hmoved false hc, fun _ => hprocessed hc, h.pushed, ?_, ?_, h.writes,
        h.writeFails, hfetched, h.downloads⟩
      · intro action
        simp only [Bool.false_eq_true, if_false]
        rw [Counts.of_fail, h.succeeded, List.countP_cons]
        simp
      · simp only [Bool.false_eq_true, if_false]
        rw [Counts.fail_failCount, h.failed, List.countP_cons]
        simp

/-- A task hands its bytes to the disk writers, or drops them once the run is cancelled. -/
theorem Accounted.enqueue (h : Accounted files s) {a b : List (Fin n × Stage)} {i : Fin n}
    (hpool : s.pool = a ++ (i, .fetched) :: b) :
    Accounted files { s.enqueue i with pool := a ++ (i, .settled) :: b } := by
  obtain ⟨hlength, hprocessed, hfetched, hdecided⟩ := h.settle hpool rfl
  unfold Execution.enqueue
  cases hc : s.cancelled with
  | true =>
    refine ⟨hlength, h.next_le, fun hf => ?_, fun hf => ?_, h.pushed, h.succeeded, h.failed, h.writes, h.writeFails,
      hfetched, h.downloads⟩
    · exact absurd (hc.symm.trans hf) (by simp)
    · exact absurd (hc.symm.trans hf) (by simp)
  | false =>
    refine ⟨hlength, h.next_le, fun _ j => ?_, fun _ => hprocessed hc, fun j => ?_, h.succeeded, h.failed, h.writes,
      h.writeFails, hfetched, ?_⟩
    · have hj := h.entries hc j
      unfold places at hj ⊢
      simp only [Bool.false_eq_true, if_false, List.count_append, List.count_cons, List.count_nil, beq_iff_eq,
        hdecided j] at hj ⊢
      omega
    · have hj := h.pushed j
      simp only [Bool.false_eq_true, if_false, List.count_append, List.count_cons, List.count_nil, beq_iff_eq] at hj ⊢
      omega
    · intro j hj
      simp only [Bool.false_eq_true, if_false, List.mem_cons] at hj
      rcases hj with rfl | hj
      · exact h.fetched (j, .fetched) (by rw [hpool]; simp) rfl
      · exact h.downloads j hj

/-- A disk writer finishes a job. -/
theorem Accounted.bookWrite (h : Accounted files s) {a b : List (Fin n)} {i : Fin n} (hw : s.writing = a ++ i :: b)
    (success : Bool) : Accounted files { s.bookWrite i success with writing := a ++ b } := by
  have hmoved : ∀ success, s.cancelled = false → ∀ j,
      (s.booked.map Prod.fst ++ ((i, success) :: s.written).map Prod.fst ++ (a ++ b) ++ s.writeQueue ++
        undecided s.pool).count j = if j.val < s.next then 1 else 0 := by
    intro success hc j
    have hj := h.entries hc j
    unfold places at hj
    rw [hw] at hj
    simp only [List.map_cons, List.count_append, List.count_cons, beq_iff_eq] at hj ⊢
    omega
  have hpushed : ∀ success j, s.pushed.count j =
      (((i, success) :: s.written).map Prod.fst ++ (a ++ b) ++ s.writeQueue).count j := by
    intro success j
    have hj := h.pushed j
    rw [hw] at hj
    simp only [List.map_cons, List.count_append, List.count_cons, beq_iff_eq] at hj ⊢
    omega
  unfold Execution.bookWrite
  cases success with
  | true =>
    refine ⟨h.inFlight, h.next_le, hmoved true, h.processed, hpushed true, h.succeeded, h.failed, ?_, ?_, h.fetched,
      h.downloads⟩
    · simp [h.writes]
    · simp [h.writeFails]
  | false =>
    refine ⟨h.inFlight, h.next_le, hmoved false, h.processed, hpushed false, h.succeeded, h.failed, ?_, ?_, h.fetched,
      h.downloads⟩
    · simp [h.writes]
    · simp [h.writeFails]

theorem Accounted.step (h : Accounted files s) (hskip : ∀ i, (files i).action ≠ .skip)
    (hs : Step config files skipped s s') : Accounted files s' := by
  cases hs with
  | cancel => exact { h with entries := fun hc => absurd hc (by simp), processed := fun hc => absurd hc (by simp) }
  | prefetch => exact { h with }
  | @post _ hn hc preRead =>
    refine { h with inFlight := ?_, next_le := hn, entries := ?_, processed := ?_, fetched := ?_ }
    · simp [h.inFlight]
    · intro _ j
      have hj := h.entries hc j
      unfold places at hj ⊢
      simp only [undecided_cons, Stage.undecided, if_true, List.count_append, List.count_cons, List.count_nil,
        beq_iff_eq, Fin.ext_iff] at hj ⊢
      split at hj <;> split <;> split <;> omega
    · intro _
      have hp := h.processed hc
      simp only [List.countP_cons, ne_eq, reduceCtorEq, not_false_eq_true, decide_true, if_true] at hp ⊢
      omega
    · intro t ht hst
      rcases List.mem_cons.1 ht with rfl | ht
      · exact absurd hst (by simp)
      · exact h.fetched t ht hst
  | stopSubmitting => exact { h with }
  | turnAway hpool hc =>
    refine { h with inFlight := ?_, entries := ?_, processed := ?_, fetched := h.fetched_replace hpool (by simp) }
    · rw [h.inFlight, hpool]
      simp
    · exact fun hf => absurd (hc.symm.trans hf) (by simp)
    · exact fun hf => absurd (hc.symm.trans hf) (by simp)
  | begin hpool hc => exact h.advance hpool rfl rfl (by simp)
  | act hpool hd success => exact h.book hskip hpool rfl success
  | fetch hpool hd => exact h.advance hpool rfl rfl fun _ => (not_or.1 hd).1 |> not_not.1
  | fetchFailed hpool hd => exact h.book hskip hpool rfl false
  | push hpool => exact h.enqueue hpool
  | processed hpool =>
    refine { h with inFlight := ?_, entries := ?_, processed := ?_, fetched := h.fetched_replace hpool (by simp) }
    · rw [h.inFlight, hpool]
      simp
    · intro hc j
      have hj := h.entries hc j
      unfold places at hj ⊢
      rw [hpool] at hj
      rw [undecided_split] at hj ⊢
      exact hj
    · intro hc
      have hp := h.processed hc
      rw [hpool] at hp
      simp only [List.countP_append, List.countP_cons, ne_eq, reduceCtorEq, not_false_eq_true, not_true_eq_false,
        decide_true, decide_false, if_true, Bool.false_eq_true, if_false] at hp ⊢
      omega
  | release hpool =>
    refine { h with inFlight := ?_, entries := ?_, processed := ?_, fetched := ?_ }
    · rw [h.inFlight, hpool]
      simp
    · intro hc j
      have hj := h.entries hc j
      unfold places at hj ⊢
      rw [hpool, undecided_split] at hj
      unfold undecided at hj ⊢
      rw [List.filter_append, List.map_append]
      exact hj
    · intro hc
      have hp := h.processed hc
      rw [hpool] at hp
      simpa [List.countP_append, List.countP_cons] using hp
    · intro t ht
      refine h.fetched t ?_
      rw [hpool]
      simp only [List.mem_append, List.mem_cons] at ht ⊢
      exact ht.imp_right .inr
  | @takeJob i rest hq hidle =>
    refine { h with entries := ?_, pushed := ?_ }
    · intro hc j
      have hj := h.entries hc j
      unfold places at hj ⊢
      rw [hq] at hj
      simp only [List.count_append, List.count_cons] at hj ⊢
      omega
    · intro j
      have hj := h.pushed j
      rw [hq] at hj
      simp only [List.count_append, List.count_cons] at hj ⊢
      omega
  | write hw success => exact h.bookWrite hw success
  | writerExits => exact { h with }
  | close => exact { h with }
  | join => exact { h with }
  | finish => exact { h with }

theorem accounted_start (config : SyncConfig) (files : Fin n → SyncFileEntry) :
    Accounted files (start config n) := by
  unfold start
  split
  · exact ⟨rfl, Nat.zero_le _, fun _ _ => rfl, fun _ => rfl, fun _ => rfl, fun a => by cases a <;> rfl, rfl, rfl, rfl,
      fun t ht => absurd ht List.not_mem_nil, fun i hi => absurd hi List.not_mem_nil⟩
  · exact ⟨rfl, Nat.zero_le _, fun _ _ => rfl, fun _ => rfl, fun _ => rfl, fun a => by cases a <;> rfl, rfl, rfl, rfl,
      fun t ht => absurd ht List.not_mem_nil, fun i hi => absurd hi List.not_mem_nil⟩

/-! ## The joins -/

theorem book_control (i : Fin n) (success : Bool) :
    (s.book files i success).phase = s.phase ∧ (s.book files i success).next = s.next ∧
    (s.book files i success).cancelled = s.cancelled ∧ (s.book files i success).writing = s.writing ∧
    (s.book files i success).writers = s.writers ∧
    (s.book files i success).writeQueueDone = s.writeQueueDone := by
  unfold book
  split
  · exact ⟨rfl, rfl, rfl, rfl, rfl, rfl⟩
  · split
    · exact ⟨rfl, rfl, rfl, rfl, rfl, rfl⟩
    · exact ⟨rfl, rfl, rfl, rfl, rfl, rfl⟩

theorem enqueue_control (i : Fin n) :
    (s.enqueue i).phase = s.phase ∧ (s.enqueue i).next = s.next ∧ (s.enqueue i).cancelled = s.cancelled ∧
    (s.enqueue i).writing = s.writing ∧ (s.enqueue i).writers = s.writers ∧
    (s.enqueue i).writeQueueDone = s.writeQueueDone := by
  unfold enqueue
  split
  · exact ⟨rfl, rfl, rfl, rfl, rfl, rfl⟩
  · exact ⟨rfl, rfl, rfl, rfl, rfl, rfl⟩

theorem bookWrite_control (i : Fin n) (success : Bool) :
    (s.bookWrite i success).phase = s.phase ∧ (s.bookWrite i success).next = s.next ∧
    (s.bookWrite i success).cancelled = s.cancelled ∧ (s.bookWrite i success).pool = s.pool ∧
    (s.bookWrite i success).writers = s.writers ∧ (s.bookWrite i success).writeQueue = s.writeQueue ∧
    (s.bookWrite i success).writeQueueDone = s.writeQueueDone := by
  unfold bookWrite
  split
  · exact ⟨rfl, rfl, rfl, rfl, rfl, rfl, rfl⟩
  · exact ⟨rfl, rfl, rfl, rfl, rfl, rfl, rfl⟩

/-- What a task does leaves the main thread and the writers where they are: there are tasks, so nothing is closed. -/
theorem Ordered.task (h : Ordered config skipped s) {a b : List (Fin n × Stage)} {i : Fin n} {x : Stage}
    (hpool : s.pool = a ++ (i, x) :: b)
    (hs' : s'.phase = s.phase ∧ s'.next = s.next ∧ s'.cancelled = s.cancelled ∧ s'.writing = s.writing ∧
      s'.writers = s.writers ∧ s'.writeQueueDone = s.writeQueueDone) : Ordered config skipped s' := by
  obtain ⟨hphase, hnext, hcancelled, hwriting, hwriters, hdone⟩ := hs'
  have hopen : ¬ s.phase.Closed := by
    intro hc
    have hnil := h.closed hc
    rw [hpool] at hnil
    exact absurd hnil (by simp)
  refine ⟨?_, ?_, ?_, ?_, ?_, ?_, ?_⟩
  · rw [hwriting, hwriters]
    exact h.writing
  · rw [hphase, hnext, hcancelled]
    exact h.submitted
  · rw [hphase]
    exact fun hc => absurd hc hopen
  · rw [hphase, hdone]
    exact h.done
  · rw [hwriters]
    exact fun hd hw => absurd (h.exits hd hw).2 hopen
  · rw [hphase]
    exact fun total ht => absurd (by rw [ht]; trivial) hopen
  · rw [hphase]
    exact fun result hr => absurd (by rw [hr]; trivial) hopen

/-- The disk writers run, so they are not joined. -/
theorem Ordered.not_joined (h : Ordered config skipped s) (hw : 0 < s.writers) :
    (∀ total, s.phase ≠ .joined total) ∧ ∀ result, s.phase ≠ .returned result := by
  constructor
  · intro total ht
    have := (h.joined total ht).2
    omega
  · intro result hr
    have := (h.returned result hr).2
    omega

theorem Ordered.step (h : Ordered config skipped s) (ha : Accounted files s)
    (hs : Step config files skipped s s') : Ordered config skipped s' := by
  cases hs with
  | cancel hne =>
    exact { h with submitted := .inr (.inr rfl), returned := fun result hr => absurd hr (hne result) }
  | prefetch => exact { h with }
  | post hp hn hc preRead =>
    have hopen : ¬ s.phase.Closed := by rw [hp]; exact id
    exact { h with
      submitted := .inl hp
      closed := fun hcl => absurd hcl hopen
      exits := fun hd hw => absurd (h.exits hd hw).2 hopen
      joined := fun total ht => absurd (hp.symm.trans ht) (by simp)
      returned := fun result hr => absurd (hp.symm.trans hr) (by simp) }
  | stopSubmitting hp hend =>
    have hopen : ¬ s.phase.Closed := by rw [hp]; exact id
    exact { h with
      submitted := .inr hend
      closed := False.elim
      done := fun hd => absurd (h.done hd) hopen
      exits := fun hd hw => absurd (h.exits hd hw).2 hopen
      joined := fun total ht => absurd ht (by simp)
      returned := fun result hr => absurd hr (by simp) }
  | turnAway hpool => exact h.task hpool ⟨rfl, rfl, rfl, rfl, rfl, rfl⟩
  | begin hpool => exact h.task hpool ⟨rfl, rfl, rfl, rfl, rfl, rfl⟩
  | act hpool => exact h.task hpool (book_control _ _)
  | fetch hpool => exact h.task hpool ⟨rfl, rfl, rfl, rfl, rfl, rfl⟩
  | fetchFailed hpool => exact h.task hpool (book_control _ _)
  | push hpool => exact h.task hpool (enqueue_control _)
  | processed hpool => exact h.task hpool ⟨rfl, rfl, rfl, rfl, rfl, rfl⟩
  | release hpool => exact h.task hpool ⟨rfl, rfl, rfl, rfl, rfl, rfl⟩
  | takeJob hq hidle =>
    obtain ⟨hj, hr⟩ := h.not_joined (by omega)
    refine { h with writing := hidle, exits := fun hd hw => ?_, joined := fun t ht => absurd ht (hj t),
                    returned := fun r ht => absurd ht (hr r) }
    have hnil := (h.exits hd hw).1
    rw [hq] at hnil
    exact absurd hnil (by simp)
  | @write a b i hw success =>
    obtain ⟨hphase, hnext, hcancelled, hpool, hwriters, hqueue, hdone⟩ := bookWrite_control (s := s) i success
    have hlength : a.length + b.length < s.writers := by
      have := h.writing
      rw [hw, List.length_append, List.length_cons] at this
      omega
    obtain ⟨hj, hr⟩ := h.not_joined (by omega)
    refine ⟨?_, ?_, ?_, ?_, ?_, ?_, ?_⟩
    · rw [hwriters, List.length_append]
      exact hlength.le
    · rw [hphase, hnext, hcancelled]
      exact h.submitted
    · rw [hphase, hpool]
      exact h.closed
    · rw [hphase, hdone]
      exact h.done
    · rw [hphase, hwriters, hqueue]
      exact h.exits
    · rw [hphase]
      exact fun t ht => absurd ht (hj t)
    · rw [hphase]
      exact fun r ht => absurd ht (hr r)
  | writerExits hq hdone hidle =>
    obtain ⟨hj, hr⟩ := h.not_joined (by omega)
    exact { h with
      writing := by have := h.writing; simp only; omega
      exits := fun _ _ => ⟨hq, h.done hdone⟩
      joined := fun t ht => absurd ht (hj t)
      returned := fun r ht => absurd ht (hr r) }
  | close hp hidle =>
    have hnil : s.pool = [] := by rw [← List.length_eq_zero_iff, ← ha.inFlight, hidle]
    have hsub : n ≤ s.next ∨ s.cancelled = true := h.submitted.resolve_left (by rw [hp]; simp)
    exact { h with
      submitted := .inr hsub
      closed := fun _ => hnil
      done := fun _ => trivial
      exits := fun hd hw => ⟨(h.exits hd hw).1, trivial⟩
      joined := fun t ht => absurd ht (by simp)
      returned := fun r ht => absurd ht (by simp) }
  | join hp hw =>
    have hsub : n ≤ s.next ∨ s.cancelled = true := h.submitted.resolve_left (by rw [hp]; simp)
    have hclosed : s.phase.Closed := by rw [hp]; trivial
    refine { h with submitted := .inr hsub, closed := fun _ => h.closed hclosed, done := fun _ => trivial,
                    exits := fun hd hw => ⟨(h.exits hd hw).1, trivial⟩, joined := fun t ht => ?_,
                    returned := fun r ht => absurd ht (by simp) }
    exact ⟨(Phase.joined.inj ht).symm, hw⟩
  | finish hp =>
    have hsub : n ≤ s.next ∨ s.cancelled = true := h.submitted.resolve_left (by rw [hp]; simp)
    have hclosed : s.phase.Closed := by rw [hp]; trivial
    refine { h with submitted := .inr hsub, closed := fun _ => h.closed hclosed, done := fun _ => trivial,
                    exits := fun hd hw => ⟨(h.exits hd hw).1, trivial⟩, joined := fun t ht => absurd ht (by simp),
                    returned := fun r ht => ?_ }
    obtain ⟨rfl, hw⟩ := h.joined _ hp
    exact ⟨(Phase.returned.inj ht).symm, hw⟩

theorem ordered_start (config : SyncConfig) (n skipped : Nat) : Ordered config skipped (start config n) := by
  unfold start
  split
  · rename_i hn
    refine ⟨Nat.le_refl _, .inr (.inl hn.le), fun _ => rfl, fun hd => absurd hd (by simp), fun _ _ => ⟨rfl, trivial⟩,
      fun t ht => ?_, fun r hr => absurd hr (by simp)⟩
    obtain rfl := Phase.joined.inj ht
    refine ⟨?_, rfl⟩
    unfold total
    split <;> rfl
  · refine ⟨Nat.zero_le _, .inl rfl, False.elim, fun hd => absurd hd (by simp), fun hd hw => ?_,
      fun t ht => absurd ht (by simp), fun r hr => absurd hr (by simp)⟩
    simp only [hd, if_true] at hw
    exact absurd hw (Nat.lt_irrefl _)

/-- **Every state of a run is accounted and ordered.** -/
theorem run_invariant (hskip : ∀ i, (files i).action ≠ .skip)
    (hr : ReflTransGen (Step config files skipped) (start config n) s) :
    Accounted files s ∧ Ordered config skipped s := by
  induction hr with
  | refl => exact ⟨accounted_start config files, ordered_start config n skipped⟩
  | tail _ hs ih => exact ⟨ih.1.step hskip hs, ih.2.step ih.1 hs⟩

/-! ## The result -/

/-- The count of an entry says that its action was done. -/
def completed (s : Execution n) (i : Fin n) : Bool := decide ((i, true) ∈ s.booked ++ s.written)

theorem perm_completed (h : ((s.booked ++ s.written).map Prod.fst).Perm (List.finRange n)) :
    (s.booked ++ s.written).Perm ((List.finRange n).map fun i => (i, s.completed i)) := by
  have hn : ((s.booked ++ s.written).map Prod.fst).Nodup := h.nodup_iff.2 (List.nodup_finRange n)
  have hone : ∀ i a b, (i, a) ∈ s.booked ++ s.written → (i, b) ∈ s.booked ++ s.written → a = b :=
    fun i a b ha hb => congrArg Prod.snd (List.inj_on_of_nodup_map hn ha hb rfl)
  have hr : ((List.finRange n).map fun i => (i, s.completed i)).Nodup :=
    (List.nodup_finRange n).map fun i j hij => congrArg Prod.fst hij
  rw [List.perm_ext_iff_of_nodup hn.of_map hr]
  rintro ⟨i, a⟩
  have hcompleted : s.completed i = true ↔ (i, true) ∈ s.booked ++ s.written := decide_eq_true_iff
  constructor
  · intro hi
    refine List.mem_map.2 ⟨i, List.mem_finRange i, Prod.ext rfl ?_⟩
    cases hc : s.completed i with
    | true => exact hone i _ _ (hcompleted.1 hc) hi
    | false =>
      cases a with
      | false => rfl
      | true => rw [hcompleted.2 hi] at hc; exact absurd hc (by simp)
  · intro hi
    obtain ⟨j, -, hj⟩ := List.mem_map.1 hi
    obtain ⟨rfl, rfl⟩ := Prod.mk.inj hj
    obtain ⟨⟨j', a⟩, hmem, rfl⟩ := List.mem_map.1 (h.mem_iff.2 (List.mem_finRange j))
    cases hc : s.completed j' with
    | true => exact hcompleted.1 hc
    | false =>
      cases a with
      | false => exact hmem
      | true => rw [hcompleted.2 hmem] at hc; exact absurd hc (by simp)

theorem Accounted.written_download (h : Accounted files s) {e : Fin n × Bool} (he : e ∈ s.written) :
    (files e.1).action = .download := by
  refine h.downloads e.1 (List.count_pos_iff.1 ?_)
  have hpos : 0 < (s.written.map Prod.fst).count e.1 := List.count_pos_iff.2 (List.mem_map_of_mem he)
  rw [h.pushed, List.count_append, List.count_append]
  omega

theorem Accounted.total_spec (ha : Accounted files s)
    (hdir : ∀ i, (files i).action = .download → config.direction = .download) :
    (∀ a, (s.total config).of a = (s.booked ++ s.written).countP fun e => e.2 && (files e.1).action = a) ∧
    (s.total config).failCount = (s.booked ++ s.written).countP fun e => !e.2 := by
  by_cases hd : config.direction = .download
  · constructor
    · intro a
      have hsum : (s.total config).of a = s.counts.of a + if a = .download then s.writeQueueSuccess else 0 := by
        unfold total
        rw [if_pos hd]
        cases a <;> rfl
      have hwritten : (s.written.countP fun e => e.2 && (files e.1).action = a) =
          if a = .download then s.written.countP fun e => e.2 else 0 := by
        split
        · rename_i hda
          refine List.countP_congr fun e he => ?_
          simp [ha.written_download he, hda]
        · rename_i hda
          refine List.countP_eq_zero.2 fun e he => ?_
          simp [ha.written_download he, Ne.symm hda]
      rw [hsum, List.countP_append, hwritten, ha.succeeded, ha.writes]
    · unfold total
      rw [if_pos hd, List.countP_append, ← ha.failed, ← ha.writeFails]
  · have hnil : s.written = [] :=
      List.eq_nil_iff_forall_not_mem.2 fun e he => hd (hdir e.1 (ha.written_download he))
    unfold total
    rw [if_neg hd, hnil, List.append_nil]
    exact ⟨ha.succeeded, ha.failed⟩

section Returned

variable (ha : Accounted files s) (ho : Ordered config skipped s) {result : SyncResult}
  (hret : s.phase = .returned result) (hdir : ∀ i, (files i).action = .download → config.direction = .download)

include ha ho hret hdir

/-- **When the result is read, nothing is in flight.** -/
theorem drained : s.pool = [] ∧ s.writing = [] ∧ s.writeQueue = [] := by
  have hclosed : s.phase.Closed := by rw [hret]; trivial
  have hwriters := (ho.returned _ hret).2
  have hwriting := ho.writing
  rw [hwriters, Nat.le_zero, List.length_eq_zero_iff] at hwriting
  refine ⟨ho.closed hclosed, hwriting, ?_⟩
  by_cases hd : config.direction = .download
  · exact (ho.exits hd (by rw [hwriters]; decide)).1
  · -- no writer was started, and no entry is one for a writer
    refine List.eq_nil_iff_forall_not_mem.2 fun i hi => hd (hdir i (ha.downloads i (List.count_pos_iff.1 ?_)))
    have hpos : 0 < s.writeQueue.count i := List.count_pos_iff.2 hi
    rw [ha.pushed, List.count_append]
    omega

/-- **A run that is not cancelled books every entry once.** -/
theorem bookings_perm (hc : s.cancelled = false) :
    (s.booked ++ s.written).Perm ((List.finRange n).map fun i => (i, s.completed i)) := by
  obtain ⟨hpool, hwriting, hqueue⟩ := drained ha ho hret hdir
  have hnext : n ≤ s.next := (ho.submitted.resolve_left (by rw [hret]; simp)).resolve_right (by rw [hc]; simp)
  refine perm_completed (List.perm_iff_count.2 fun i => ?_)
  have hi := ha.entries hc i
  rw [if_pos (i.isLt.trans_le hnext)] at hi
  unfold places at hi
  rw [hpool, hwriting, hqueue] at hi
  rw [List.count_eq_one_of_mem (List.nodup_finRange n) (List.mem_finRange i), ← hi, List.map_append]
  simp [undecided]

end Returned

/-- Every entry is done under its action or failed. -/
theorem countP_actions (hskip : ∀ i, (files i).action ≠ .skip) (c : Fin n → Bool) (xs : List (Fin n)) :
    xs.countP (fun i => c i && (files i).action = .upload) + xs.countP (fun i => c i && (files i).action = .uploadDiff) +
      xs.countP (fun i => c i && (files i).action = .download) +
      xs.countP (fun i => c i && (files i).action = .downloadDiff) +
      xs.countP (fun i => c i && (files i).action = .copy) + xs.countP (fun i => c i && (files i).action = .delete) +
      xs.countP (fun i => !c i) = xs.length := by
  induction xs with
  | nil => rfl
  | cons i xs ih =>
    have hi := hskip i
    simp only [List.countP_cons, List.length_cons]
    cases hc : c i with
    | false =>
      simp only [Bool.false_and, Bool.false_eq_true, if_false, Bool.not_false, if_true]
      omega
    | true =>
      simp only [Bool.true_and, decide_eq_true_eq, Bool.not_true, Bool.false_eq_true, if_false]
      cases haction : (files i).action with
      | skip => exact absurd haction hi
      | _ =>
        simp only [reduceCtorEq, if_true, if_false]
        omega

end Execution

/-- How an entry was counted, as a line of `Runs` is. -/
def Execution.outcome {n : Nat} (s : Execution n) (i : Fin n) : Outcome :=
  if s.completed i then .done else if (i, false) ∈ s.booked ++ s.written then .failed else .dropped

/-- The counter of the result that an action is reported in. -/
def SyncResult.filesOf (r : SyncResult) : SyncAction → Nat
  | .skip => r.filesSkipped
  | .upload => r.filesUploaded
  | .uploadDiff => r.filesDiffUploaded
  | .download => r.filesDownloaded
  | .downloadDiff => r.filesDiffDownloaded
  | .copy => r.filesCopied
  | .delete => r.filesDeleted

theorem syncResultOf_filesOf (skipped : Nat) (c : Counts) (cancelled : Bool) {a : SyncAction} (ha : a ≠ .skip) :
    (syncResultOf skipped c cancelled).filesOf a = c.of a := by
  cases a <;> first | exact absurd rfl ha | rfl

/-- Only the plan of a download has downloads. -/
theorem planned_download {config : SyncConfig} {scan : Scan} {plan : List SyncFileEntry} {f : SyncFileEntry}
    (hp : planRun config scan = .ok plan) (hf : f ∈ plan) (ha : f.action = .download) :
    config.direction = .download := by
  obtain ⟨-, -, rfl⟩ := planRun_ok hp
  rw [classify_eq] at hf
  dsimp only at hf
  split at hf
  · exact absurd hf List.not_mem_nil
  · rcases mem_planEntries.1 hf with ⟨e, -, rfl⟩ | ⟨-, e, -, rfl⟩
    · have hline := sourceLine_lineOf config.direction (destEntries config scan) e
      generalize config.direction = direction at hline ha ⊢
      cases hline with
      | download => rfl
      | downloadDiff => rfl
      | skip h => exact absurd (h.symm.trans ha) (by simp)
      | upload h => exact absurd (h.symm.trans ha) (by simp)
      | uploadDiff h => exact absurd (h.symm.trans ha) (by simp)
      | s3ToS3 h => exact absurd (h.symm.trans ha) (by simp)
      | localToLocal h => exact absurd (h.symm.trans ha) (by simp)
    · exact absurd ha (by simp)

section Returned

variable {config : SyncConfig} {scan : Scan} {plan files : List SyncFileEntry} {skipped : Nat}

theorem entries_not_skip (hfiles : files.Perm (actionable plan)) (i : Fin files.length) :
    (files.get i).action ≠ .skip := by
  have hi := (List.mem_filter.1 (hfiles.mem_iff.1 (List.get_mem files i))).2
  simpa using hi

theorem entries_download (hp : planRun config scan = .ok plan) (hfiles : files.Perm (actionable plan))
    (i : Fin files.length) (hi : (files.get i).action = .download) : config.direction = .download :=
  planned_download hp (List.mem_filter.1 (hfiles.mem_iff.1 (List.get_mem files i))).1 hi

variable (hp : planRun config scan = .ok plan) (hfiles : files.Perm (actionable plan)) {s : Execution files.length}
  {result : SyncResult}
  (hr : ReflTransGen (Execution.Step config files.get skipped) (Execution.start config files.length) s)
  (hret : s.phase = .returned result)

include hp hfiles hr hret

/-- A run that is not cancelled has booked every entry once, whatever one counts. -/
theorem returned_count (hc : s.cancelled = false) (p : Fin files.length × Bool → Bool) :
    (s.booked ++ s.written).countP p = (List.finRange files.length).countP fun i => p (i, s.completed i) := by
  obtain ⟨ha, ho⟩ := Execution.run_invariant (entries_not_skip hfiles) hr
  rw [(Execution.bookings_perm ha ho hret (entries_download hp hfiles) hc).countP_eq, List.countP_map]
  rfl

/-- It reports success exactly if it was not cancelled and completed every entry. -/
theorem returned_success_iff : result.success = true ↔ s.cancelled = false ∧ ∀ i, s.completed i = true := by
  obtain ⟨ha, ho⟩ := Execution.run_invariant (entries_not_skip hfiles) hr
  obtain ⟨-, hfailed⟩ := ha.total_spec (entries_download hp hfiles)
  obtain ⟨rfl, -⟩ := ho.returned _ hret
  have hsuccess : (syncResultOf skipped (s.total config) s.cancelled).success = true ↔
      s.cancelled = false ∧ (s.total config).failCount = 0 := by
    simp [syncResultOf]
  rw [hsuccess]
  refine and_congr_right fun hc => ?_
  rw [hfailed, returned_count hp hfiles hr hret hc, List.countP_eq_zero]
  simp

/-- The success of `Runs`, of the entries' outcomes. -/
theorem returned_success : result.success = (!s.cancelled && decide (∀ i, s.outcome i ≠ .failed)) := by
  obtain ⟨ha, ho⟩ := Execution.run_invariant (entries_not_skip hfiles) hr
  rw [Bool.eq_iff_iff, returned_success_iff hp hfiles hr hret, Bool.and_eq_true, Bool.not_eq_true', decide_eq_true_eq]
  refine and_congr_right fun hc => forall_congr' fun i => ?_
  have hmem : (i, s.completed i) ∈ s.booked ++ s.written :=
    (Execution.bookings_perm ha ho hret (entries_download hp hfiles) hc).mem_iff.2
      (List.mem_map.2 ⟨i, List.mem_finRange i, rfl⟩)
  unfold Execution.outcome
  cases hdone : s.completed i with
  | true => simp
  | false =>
    rw [hdone] at hmem
    simp [hmem]

end Returned

/-- **The accounts of a sync**, whatever its threads do in whatever order.  Not cancelled, the run books every entry of
the plan once, done under its own action or failed; cancelled or not, what was queued for writing is booked before the
result is read; and success is the run's that was not cancelled and completed every entry. -/
theorem sync_accounting {config : SyncConfig} {scan : Scan} {plan files : List SyncFileEntry} {skipped : Nat}
    (hp : planRun config scan = .ok plan) (hfiles : files.Perm (actionable plan)) {s : Execution files.length}
    {result : SyncResult}
    (hr : ReflTransGen (Execution.Step config files.get skipped) (Execution.start config files.length) s)
    (hret : s.phase = .returned result) :
    (s.cancelled = false →
      (s.booked ++ s.written).Perm ((List.finRange files.length).map fun i => (i, s.completed i)) ∧
      (∀ action, action ≠ .skip → result.filesOf action =
        (List.finRange files.length).countP fun i => s.completed i && (files.get i).action = action) ∧
      result.filesFailed = (List.finRange files.length).countP (fun i => !s.completed i) ∧
      result.filesUploaded + result.filesDiffUploaded + result.filesDownloaded + result.filesDiffDownloaded +
        result.filesCopied + result.filesDeleted + result.filesFailed = (actionable plan).length ∧
      s.filesProcessed = (actionable plan).length) ∧
    s.pushed.Perm (s.written.map Prod.fst) ∧
    (result.success = true ↔ s.cancelled = false ∧ ∀ i, s.completed i = true) := by
  have hskip := entries_not_skip hfiles
  have hdir := entries_download hp hfiles
  have hcount := fun hc => returned_count hp hfiles hr hret hc
  have hsuccess := returned_success_iff hp hfiles hr hret
  obtain ⟨ha, ho⟩ := Execution.run_invariant hskip hr
  obtain ⟨hpool, hwriting, hqueue⟩ := Execution.drained ha ho hret hdir
  obtain ⟨htotal, hfailed⟩ := ha.total_spec hdir
  obtain ⟨rfl, -⟩ := ho.returned _ hret
  have hof : s.cancelled = false → ∀ action, action ≠ .skip →
      (syncResultOf skipped (s.total config) s.cancelled).filesOf action =
        (List.finRange files.length).countP fun i => s.completed i && (files.get i).action = action := by
    intro hc action haction
    rw [syncResultOf_filesOf _ _ _ haction, htotal, hcount hc]
  have hfail : s.cancelled = false → (syncResultOf skipped (s.total config) s.cancelled).filesFailed =
      (List.finRange files.length).countP fun i => !s.completed i := by
    intro hc
    exact hfailed.trans (hcount hc _)
  refine ⟨fun hc => ⟨Execution.bookings_perm ha ho hret hdir hc, hof hc, hfail hc, ?_, ?_⟩, ?_, hsuccess⟩
  · have hsum := Execution.countP_actions hskip s.completed (List.finRange files.length)
    rw [← hof hc .upload (by simp), ← hof hc .uploadDiff (by simp), ← hof hc .download (by simp),
      ← hof hc .downloadDiff (by simp), ← hof hc .copy (by simp), ← hof hc .delete (by simp), ← hfail hc,
      List.length_finRange] at hsum
    exact hsum.trans hfiles.length_eq
  · have hprocessed := ha.processed hc
    have hnext : files.length ≤ s.next :=
      (ho.submitted.resolve_left (by rw [hret]; simp)).resolve_right (by rw [hc]; simp)
    rw [hpool, List.countP_nil] at hprocessed
    exact (hprocessed.trans (le_antisymm ha.next_le hnext)).trans hfiles.length_eq
  · refine List.perm_iff_count.2 fun i => ?_
    rw [ha.pushed, hwriting, hqueue, List.append_nil, List.append_nil]

/-! ### One file queued and written, one not fetched -/

def downloading : SyncConfig := { direction := .download }

def twoDownloadScan : Scan where
  source := { entries := [⟨['f'], 3, 1⟩, ⟨['g'], 2, 1⟩] }
  dest := { entries := [] }

def twoDownloads : List SyncFileEntry :=
  [{ relativePath := ['f'], action := .download, s3Size := 3 },
    { relativePath := ['g'], action := .download, s3Size := 2 }]

/-- Idle writers end once they are told to. -/
theorem writers_exit {n : Nat} {config : SyncConfig} {files : Fin n → SyncFileEntry} {skipped : Nat} {s : Execution n}
    (hqueue : s.writeQueue = []) (hdone : s.writeQueueDone = true) (hidle : s.writing = []) :
    ∀ k, ReflTransGen (Execution.Step config files skipped) { s with writers := k } { s with writers := 0 }
  | 0 => .refl
  | k + 1 => by
    refine .head (.writerExits (s := { s with writers := k + 1 }) hqueue hdone ?_) (writers_exit hqueue hdone hidle k)
    rw [hidle]
    exact Nat.succ_pos k

theorem sync_accounting_two : ∃ (s : Execution twoDownloads.length) (result : SyncResult),
    ReflTransGen (Execution.Step downloading twoDownloads.get 0) (Execution.start downloading twoDownloads.length) s ∧
      s.phase = .returned result ∧ result.success = false ∧ result.filesDownloaded = 1 ∧ result.filesFailed = 1 ∧
      s.filesProcessed = 2 ∧ s.pushed.Perm (s.written.map Prod.fst) := by
  have hp : planRun downloading twoDownloadScan = .ok twoDownloads := by decide
  have hfiles : twoDownloads.Perm (actionable twoDownloads) := by decide
  let f : Fin twoDownloads.length := ⟨0, by decide⟩
  let g : Fin twoDownloads.length := ⟨1, by decide⟩
  have hindirect : ∀ i preRead, ¬ Execution.Direct (twoDownloads.get i) preRead := by
    unfold Execution.Direct
    decide
  let closed : Execution twoDownloads.length :=
    { phase := .closing, next := 2, filesProcessed := 2, counts := { failCount := 1 }, booked := [(g, false)],
      writeQueueDone := true, writeQueueSuccess := 1, written := [(f, true)], pushed := [f] }
  have hclosed : ReflTransGen (Execution.Step downloading twoDownloads.get 0)
      (Execution.start downloading twoDownloads.length) { closed with writers := diskWriterThreads } := by
    refine .head (.prefetch (.inl rfl) (i := f) (by decide)) ?_
    refine .head (.post rfl (by decide) rfl true (fun _ => List.mem_cons_self)) ?_
    refine .head (.post rfl (by decide) rfl false (by simp)) ?_
    refine .head (.begin (a := []) (i := g) rfl rfl) ?_
    refine .head (.begin (a := [(g, .working false)]) (i := f) rfl rfl) ?_
    refine .head (.fetchFailed (a := []) (i := g) rfl (hindirect g false)) ?_
    refine .head (.fetch (a := [(g, .settled)]) (i := f) rfl (hindirect f true)) ?_
    refine .head (.push (a := [(g, .settled)]) (i := f) rfl) ?_
    refine .head (.stopSubmitting rfl (.inl (by decide))) ?_
    refine .head (.takeJob (i := f) rfl (by decide)) ?_
    refine .head (.write (a := []) (i := f) rfl true) ?_
    refine .head (.processed (a := []) (i := g) rfl) ?_
    refine .head (.release (a := []) (i := g) rfl) ?_
    refine .head (.processed (a := []) (i := f) rfl) ?_
    refine .head (.release (a := []) (i := f) rfl) ?_
    exact .single (.close rfl rfl)
  have hexit : ReflTransGen (Execution.Step downloading twoDownloads.get 0) { closed with writers := diskWriterThreads }
      { closed with writers := 0 } := writers_exit rfl rfl rfl _
  have hret := ((hclosed.trans hexit).tail (.join rfl rfl)).tail (.finish rfl)
  obtain ⟨hbooked, hpushed, -⟩ := sync_accounting hp hfiles hret rfl
  obtain ⟨-, hof, hfail, -, hprocessed⟩ := hbooked rfl
  refine ⟨_, _, hret, rfl, rfl, ?_, hfail.trans (by decide), hprocessed, hpushed⟩
  exact (hof .download (by simp)).trans (by decide)

end Mito
