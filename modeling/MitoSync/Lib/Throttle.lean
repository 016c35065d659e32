import MitoSync.Lib.Tally
import Mathlib.Logic.Relation
/-!
# Throttle — tasks in flight under an adaptive limit

A submitter posts tasks while fewer are in flight than a window allows, and sleeps on a condition variable when there
are not.  A task that ends adapts the window by compare-and-swap, counts itself out and notifies, each of these one
action of its own; which of them it does under the lock is up to its program.  Whatever the program, the window stays
in its bounds and no wake-up is lost, so long as it notifies under the lock and after it counted itself out (`Legal`).
-/
namespace Lib.Throttle

/-- The actions of a task. -/
inductive Op
  | work | adapt | lock | decrement | notify | unlock
  deriving DecidableEq

/-- How its work ended; `neither` adapts nothing. -/
inductive Outcome
  | failed | succeeded | neither
  deriving DecidableEq

/-- A program that takes the lock before it gives it back, counts itself out at most once, and notifies under the lock
once it did. -/
def Legal : Bool → List Op → Bool
  | held, [] => !held
  | held, .work :: ops => Legal held ops
  | held, .adapt :: ops => Legal held ops
  | held, .lock :: ops => !held && Legal true ops
  | held, .decrement :: ops => !ops.contains .decrement && ops.contains .notify && Legal held ops
  | held, .notify :: ops => held && Legal held ops
  | held, .unlock :: ops => held && Legal false ops

end Lib.Throttle

namespace Lib

open Throttle

/-- A window and how it moves.  `σ` is what the tasks count to decide when it does. -/
structure Throttle (σ : Type) where
  max : Nat
  floor : Nat
  raise : Nat → Nat
  initial : Nat
  counts : σ
  onWork : σ → σ
  onFailure : σ → σ
  onSuccess : σ → σ × Bool
  /-- what is stored with a raise, from what was counted when it was decided on -/
  onRaise : σ → Nat → σ → σ
  /-- the program of a task -/
  ops : List Op
  /-- the submitter holds the lock until its task is posted -/
  keepsLock : Bool
  /-- the submitter waits for all tasks with the same condition variable -/
  waitsForAll : Bool
  max_pos : 1 ≤ max
  floor_pos : 1 ≤ floor
  initial_mem : 1 ≤ initial ∧ initial ≤ max
  raise_pos : ∀ c, 1 ≤ c → 1 ≤ raise c
  legal : Legal false ops = true
  counted : Op.decrement ∈ ops

namespace Throttle

/-- Where a task is in adapting the window. -/
inductive Adapting (σ : Type)
  | start
  | toReduce
  | reducing (current : Nat)
  | toRaise (seen : σ)
  | raising (seen : σ) (current : Nat)

structure Task (σ : Type) where
  ops : List Op := []
  outcome : Outcome := .neither
  adapting : Adapting σ := .start

inductive Await (n : Nat)
  | slot (i : Fin n)
  | all

/-- The operand of the comparison that was read first. -/
inductive Operand
  | inFlight (value : Nat)
  | current (value : Nat)

inductive Submitter (n : Nat)
  | top (i : Nat)
  | locking (w : Await n)
  | checking (w : Await n)
  | comparing (i : Fin n) (read : Operand)
  /-- the condition did not hold, and the lock is not given up yet -/
  | falling (w : Await n)
  | asleep (w : Await n)
  | passed (i : Fin n)
  | counting (i : Fin n)
  | counted (i : Fin n)
  | done

inductive Holder (n : Nat)
  | free
  | submitter
  | task (i : Fin n)
  deriving DecidableEq

structure State (σ : Type) (n : Nat) where
  current : Nat
  counts : σ
  inFlight : Nat := 0
  stopped : Bool := false
  holder : Holder n := .free
  submitter : Submitter n := .top 0
  tasks : Fin n → Task σ := fun _ => {}

variable {σ : Type} {n : Nat} (W : Throttle σ)

def reduced (current : Nat) : Nat := Nat.max (current / 2) W.floor

def raised (current : Nat) : Nat := min (W.raise current) W.max

def start : State σ n where
  current := W.initial
  counts := W.counts

/-- One action of a task that adapts the window, on the window and what is counted.  A compare-and-swap that fails on
the value it expects leaves everything as it is. -/
inductive Adapts : Outcome → Nat × σ → Adapting σ → Nat × σ → Option (Adapting σ) → Prop
  | nothing {c : Nat} {t : σ} : Adapts .neither (c, t) .start (c, t) none
  | failure {c : Nat} {t : σ} : Adapts .failed (c, t) .start (c, W.onFailure t) (some .toReduce)
  | loadReduce {o : Outcome} {c : Nat} {t : σ} : Adapts o (c, t) .toReduce (c, t) (some (.reducing c))
  | enough {o : Outcome} {c r : Nat} {t : σ} (h : r ≤ W.reduced r) : Adapts o (c, t) (.reducing r) (c, t) none
  | reduce {o : Outcome} {c : Nat} {t : σ} (h : W.reduced c < c) :
      Adapts o (c, t) (.reducing c) (W.reduced c, t) none
  | retry {o : Outcome} {c r : Nat} {t : σ} (h : W.reduced r < r) (hr : r ≠ c) :
      Adapts o (c, t) (.reducing r) (c, t) (some (.reducing c))
  | success {c : Nat} {t : σ} (h : (W.onSuccess t).2 = false) :
      Adapts .succeeded (c, t) .start (c, (W.onSuccess t).1) none
  | ramp {c : Nat} {t : σ} (h : (W.onSuccess t).2 = true) :
      Adapts .succeeded (c, t) .start (c, (W.onSuccess t).1) (some (.toRaise (W.onSuccess t).1))
  | loadRaise {o : Outcome} {c : Nat} {t seen : σ} (h : c < W.max) :
      Adapts o (c, t) (.toRaise seen) (c, t) (some (.raising seen c))
  | wide {o : Outcome} {c : Nat} {t seen : σ} (h : W.max ≤ c) : Adapts o (c, t) (.toRaise seen) (c, t) none
  | raise {o : Outcome} {c : Nat} {t seen : σ} :
      Adapts o (c, t) (.raising seen c) (W.raised c, W.onRaise seen (W.raised c) t) none
  /-- the compare-and-swap fails, and is not tried again -/
  | lost {o : Outcome} {c r : Nat} {t seen : σ} : Adapts o (c, t) (.raising seen r) (c, t) none

/-- The task behind the action it did. -/
def Task.next (t : Task σ) : Task σ := { t with ops := t.ops.tail, adapting := .start }

def Task.adapted (t : Task σ) : Option (Adapting σ) → Task σ
  | some a => { t with adapting := a }
  | none => t.next

/-- What is left to do when the loop over the tasks ends. -/
def leaving : Submitter n := if W.waitsForAll then .locking .all else .done

def Submitter.woken : Submitter n → Submitter n
  | .asleep w => .locking w
  | p => p

namespace State

variable (s : State σ n)

/-- The comparison, with the operand that was read before. -/
def Below : Operand → Prop
  | .inFlight value => value < s.current
  | .current value => s.inFlight < value

def setTask (i : Fin n) (t : Task σ) : State σ n := { s with tasks := Function.update s.tasks i t }

end State

/-- One action of the submitter or of a task. -/
inductive Move : State σ n → State σ n → Prop
  | enter {s : State σ n} {i : Nat} (h : s.submitter = .top i) (hi : i < n) (hs : s.stopped = false) :
      Move s { s with submitter := .locking (.slot ⟨i, hi⟩) }
  | leave {s : State σ n} {i : Nat} (h : s.submitter = .top i) (hi : n ≤ i ∨ s.stopped = true) :
      Move s { s with submitter := W.leaving }
  | lock {s : State σ n} {w : Await n} (h : s.submitter = .locking w) (hf : s.holder = .free) :
      Move s { s with submitter := .checking w, holder := .submitter }
  | readInFlight {s : State σ n} {i : Fin n} (h : s.submitter = .checking (.slot i)) :
      Move s { s with submitter := .comparing i (.inFlight s.inFlight) }
  | readCurrent {s : State σ n} {i : Fin n} (h : s.submitter = .checking (.slot i)) :
      Move s { s with submitter := .comparing i (.current s.current) }
  | pass {s : State σ n} {i : Fin n} {read : Operand} (h : s.submitter = .comparing i read)
      (hp : s.Below read ∨ s.stopped = true) :
      Move s { s with submitter := .passed i, holder := if W.keepsLock then .submitter else .free }
  | full {s : State σ n} {i : Fin n} {read : Operand} (h : s.submitter = .comparing i read) (hp : ¬ s.Below read)
      (hs : s.stopped = false) : Move s { s with submitter := .falling (.slot i) }
  | drained {s : State σ n} (h : s.submitter = .checking .all) (h0 : s.inFlight = 0) :
      Move s { s with submitter := .done, holder := .free }
  | undrained {s : State σ n} (h : s.submitter = .checking .all) (h0 : s.inFlight ≠ 0) :
      Move s { s with submitter := .falling .all }
  | sleep {s : State σ n} {w : Await n} (h : s.submitter = .falling w) :
      Move s { s with submitter := .asleep w, holder := .free }
  | giveUp {s : State σ n} {i : Fin n} (h : s.submitter = .passed i) (hs : s.stopped = true) :
      Move s { s with submitter := W.leaving, holder := if W.keepsLock then .free else s.holder }
  | goOn {s : State σ n} {i : Fin n} (h : s.submitter = .passed i) (hs : s.stopped = false) :
      Move s { s with submitter := .counting i }
  | count {s : State σ n} {i : Fin n} (h : s.submitter = .counting i) :
      Move s { s with submitter := .counted i, inFlight := s.inFlight + 1 }
  | post {s : State σ n} {i : Fin n} (h : s.submitter = .counted i) :
      Move s { s.setTask i { ops := W.ops } with
        submitter := .top (i + 1), holder := if W.keepsLock then .free else s.holder }
  | work {s : State σ n} {i : Fin n} {ops : List Op} (h : (s.tasks i).ops = .work :: ops) (o : Outcome) :
      Move s { s.setTask i { (s.tasks i).next with outcome := o } with counts := W.onWork s.counts }
  | adapt {s : State σ n} {i : Fin n} {ops : List Op} {c : Nat} {t : σ} {a : Option (Adapting σ)}
      (h : (s.tasks i).ops = .adapt :: ops)
      (ha : Adapts W (s.tasks i).outcome (s.current, s.counts) (s.tasks i).adapting (c, t) a) :
      Move s { s.setTask i ((s.tasks i).adapted a) with current := c, counts := t }
  | taskLock {s : State σ n} {i : Fin n} {ops : List Op} (h : (s.tasks i).ops = .lock :: ops)
      (hf : s.holder = .free) : Move s { s.setTask i (s.tasks i).next with holder := .task i }
  | decrement {s : State σ n} {i : Fin n} {ops : List Op} (h : (s.tasks i).ops = .decrement :: ops) :
      Move s { s.setTask i (s.tasks i).next with inFlight := s.inFlight - 1 }
  | notify {s : State σ n} {i : Fin n} {ops : List Op} (h : (s.tasks i).ops = .notify :: ops) :
      Move s { s.setTask i (s.tasks i).next with submitter := s.submitter.woken }
  | unlock {s : State σ n} {i : Fin n} {ops : List Op} (h : (s.tasks i).ops = .unlock :: ops) :
      Move s { s.setTask i (s.tasks i).next with holder := .free }

/-- A step of a run: an action, the request to stop, or a wake-up nobody asked for. -/
inductive Step : State σ n → State σ n → Prop
  | move {s s' : State σ n} (h : Move W s s') : Step s s'
  | stop {s : State σ n} : Step s { s with stopped := true }
  | spurious {s : State σ n} {w : Await n} (h : s.submitter = .asleep w) :
      Step s { s with submitter := .locking w }

abbrev Run : State σ n → State σ n → Prop := Relation.ReflTransGen W.Step

/-! ## What every run keeps -/

variable {W : Throttle σ}

theorem notify_of_decrement {held : Bool} {ops : List Op} (h : Legal held ops = true) (hd : Op.decrement ∈ ops) :
    Op.notify ∈ ops := by
  induction ops generalizing held with
  | nil => cases hd
  | cons op ops ih =>
    cases op with
    | decrement =>
      simp only [Legal, Bool.and_eq_true, List.contains_iff_mem] at h
      exact List.mem_cons_of_mem _ h.1.2
    | notify => exact List.mem_cons_self
    | work | adapt | lock | unlock =>
      simp only [Legal, Bool.and_eq_true] at h
      have hops : Op.decrement ∈ ops := by simpa using hd
      exact List.mem_cons_of_mem _ (ih (by first | exact h | exact h.2) hops)

/-- The task has been posted and has not counted itself out. -/
def Task.counted (t : Task σ) : Bool := t.ops.contains .decrement

namespace Submitter

/-- Whether the submitter holds the lock. -/
def holds (keepsLock : Bool) : Submitter n → Bool
  | checking _ | comparing _ _ | falling _ => true
  | passed _ | counting _ | counted _ => keepsLock
  | top _ | locking _ | asleep _ | done => false

/-- The first task that is not posted yet. -/
def next : Submitter n → Nat
  | top i => i
  | locking w | checking w | falling w | asleep w =>
    match w with
    | .slot i => i
    | .all => n
  | comparing i _ | passed i | counting i | counted i => i
  | done => n

/-- A task that is counted in before it is posted. -/
def unposted : Submitter n → Nat
  | counted _ => 1
  | _ => 0

end Submitter

namespace State

/-- Some task has yet to notify. -/
def Owing (s : State σ n) : Prop := ∃ i, Op.notify ∈ (s.tasks i).ops

/-- What the submitter knows where it stands. -/
def Knows (W : Throttle σ) (s : State σ n) : Prop :=
  match s.submitter with
  | .comparing _ (.inFlight value) => s.inFlight ≤ value ∧ (0 < value → s.Owing)
  | .comparing _ (.current value) => 1 ≤ value ∧ value ≤ W.max
  | .falling _ => s.Owing
  | .asleep _ => s.Owing
  | .passed _ => s.inFlight < W.max ∨ s.stopped = true
  | .counting _ => s.inFlight < W.max
  | _ => True

end State

structure Inv (W : Throttle σ) (s : State σ n) : Prop where
  window : 1 ≤ s.current ∧ s.current ≤ W.max
  bound : s.inFlight ≤ W.max
  count : s.inFlight = tally Task.counted s.tasks + s.submitter.unposted
  legal : ∀ i, Legal (decide (s.holder = .task i)) (s.tasks i).ops = true
  mutex : s.holder = .submitter ↔ s.submitter.holds W.keepsLock = true
  fresh : ∀ i : Fin n, s.submitter.next ≤ i → (s.tasks i).ops = []
  knows : s.Knows W

theorem inv_start : Inv W (W.start : State σ n) where
  window := W.initial_mem
  bound := Nat.zero_le _
  count := by
    have hzero : tally Task.counted (W.start : State σ n).tasks = 0 := tally_eq_zero fun _ => rfl
    rw [hzero]
    rfl
  legal _ := rfl
  mutex := by simp [start, Submitter.holds]
  fresh _ _ := rfl
  knows := trivial

theorem reduced_pos (c : Nat) : 1 ≤ W.reduced c := le_trans W.floor_pos (Nat.le_max_right _ _)

theorem raised_mem {c : Nat} (h : 1 ≤ c) : 1 ≤ W.raised c ∧ W.raised c ≤ W.max :=
  ⟨le_min (W.raise_pos c h) W.max_pos, Nat.min_le_right _ _⟩

/-- Adapting keeps the window in its bounds. -/
theorem adapts_window {o : Outcome} {c c' : Nat} {t t' : σ} {a : Adapting σ} {a' : Option (Adapting σ)}
    (h : Adapts W o (c, t) a (c', t') a') (hc : 1 ≤ c ∧ c ≤ W.max) : 1 ≤ c' ∧ c' ≤ W.max := by
  cases h with
  | reduce h => exact ⟨reduced_pos c, le_trans h.le hc.2⟩
  | raise => exact raised_mem hc.1
  | nothing | failure | loadReduce | enough | retry | success | ramp | loadRaise | wide | lost => exact hc

theorem Inv.owing_of_pos {s : State σ n} (h : Inv W s) (hs : s.submitter.unposted = 0) (hpos : 0 < s.inFlight) :
    s.Owing := by
  have hcount := h.count
  obtain ⟨i, hi⟩ := exists_of_tally_pos (p := Task.counted) (f := s.tasks) (by omega)
  exact ⟨i, notify_of_decrement (h.legal i) (by simpa [Task.counted] using hi)⟩

/-! ### The tasks -/

@[simp] theorem setTask_self (s : State σ n) (i : Fin n) (t : Task σ) : (s.setTask i t).tasks i = t :=
  Function.update_self ..

@[simp] theorem setTask_submitter (s : State σ n) (i : Fin n) (t : Task σ) :
    (s.setTask i t).submitter = s.submitter := rfl

theorem State.Knows.mono {s s' : State σ n} (h : s.Knows W) (hsub : s'.submitter = s.submitter)
    (hst : s.stopped = true → s'.stopped = true) (hle : s'.inFlight ≤ s.inFlight) (how : s.Owing → s'.Owing) :
    s'.Knows W := by
  unfold Knows at h ⊢
  rw [hsub]
  cases hs : s.submitter with
  | comparing i read =>
    rw [hs] at h
    cases read with
    | inFlight value => exact ⟨hle.trans h.1, fun hv => how (h.2 hv)⟩
    | current value => exact h
  | falling w | asleep w =>
    rw [hs] at h
    exact how h
  | passed i =>
    rw [hs] at h
    exact h.imp hle.trans_lt hst
  | counting i =>
    rw [hs] at h
    exact hle.trans_lt h
  | top | locking | checking | counted | done => trivial

/-- **What a task does keeps the invariant**, where it keeps to its part of it. -/
theorem Inv.of_task {s s' : State σ n} (h : Inv W s) {i : Fin n} {t : Task σ}
    (htasks : s'.tasks = Function.update s.tasks i t) (hlive : (s.tasks i).ops ≠ [])
    (hwindow : 1 ≤ s'.current ∧ s'.current ≤ W.max) (hle : s'.inFlight ≤ s.inFlight)
    (hcount : s'.inFlight + (s.tasks i).counted.toNat = s.inFlight + t.counted.toNat)
    (hlegal : Legal (decide (s'.holder = .task i)) t.ops = true)
    (hothers : ∀ j ≠ i, s'.holder = .task j ↔ s.holder = .task j)
    (hmutex : s'.holder = .submitter ↔ s.holder = .submitter)
    (hnext : s'.submitter.next = s.submitter.next) (hunposted : s'.submitter.unposted = s.submitter.unposted)
    (hholds : s'.submitter.holds W.keepsLock = s.submitter.holds W.keepsLock) (hknows : s'.Knows W) : Inv W s' where
  window := hwindow
  bound := hle.trans h.bound
  count := by
    have hupdate := tally_update Task.counted (f := s.tasks) (i := i) rfl t
    have hs := h.count
    rw [htasks, hunposted]
    omega
  legal j := by
    by_cases hj : j = i
    · subst hj
      rw [htasks, Function.update_self]
      exact hlegal
    · rw [htasks, Function.update_of_ne hj, decide_eq_decide.2 (hothers j hj)]
      exact h.legal j
  mutex := by rw [hmutex, hholds, h.mutex]
  fresh j hj := by
    rw [hnext] at hj
    have hne : j ≠ i := by
      rintro rfl
      exact hlive (h.fresh j hj)
    rw [htasks, Function.update_of_ne hne]
    exact h.fresh j hj
  knows := hknows

theorem Task.next_ops {t : Task σ} {op : Op} {ops : List Op} (h : t.ops = op :: ops) : t.next.ops = ops := by
  rw [next, h]
  rfl

theorem counted_iff {t : Task σ} : t.counted = true ↔ Op.decrement ∈ t.ops := by simp [Task.counted]

/-- Who owes a notification still does, behind any action but that one. -/
theorem owing_setTask {s s' : State σ n} {i : Fin n} {t : Task σ} (htasks : s'.tasks = Function.update s.tasks i t)
    (h : Op.notify ∈ (s.tasks i).ops → Op.notify ∈ t.ops) (how : s.Owing) : s'.Owing := by
  obtain ⟨j, hj⟩ := how
  refine ⟨j, ?_⟩
  rw [htasks]
  by_cases hji : j = i
  · subst hji
    rw [Function.update_self]
    exact h hj
  · rwa [Function.update_of_ne hji]

/-- The program behind an action that neither counts nor locks nor notifies. -/
theorem next_same {held : Bool} {t : Task σ} {op : Op} {ops : List Op} (h : t.ops = op :: ops)
    (hop : op = .work ∨ op = .adapt) (hl : Legal held t.ops = true) :
    Legal held ops = true ∧ (Op.decrement ∈ ops ↔ Op.decrement ∈ t.ops) ∧
      (Op.notify ∈ t.ops → Op.notify ∈ ops) := by
  rw [h] at hl ⊢
  rcases hop with rfl | rfl <;> exact ⟨hl, by simp, by simp⟩

theorem counted_congr {t t' : Task σ} (h : Op.decrement ∈ t.ops ↔ Op.decrement ∈ t'.ops) : t.counted = t'.counted := by
  rw [Bool.eq_iff_iff, counted_iff, counted_iff, h]

theorem Task.next_counted {t : Task σ} {op : Op} {ops : List Op} (h : t.ops = op :: ops) (hop : op ≠ .decrement) :
    t.next.counted = t.counted := by
  apply counted_congr
  rw [Task.next_ops h, h]
  simpa using fun hd => absurd hd.symm hop

/-- A task that works or adapts. -/
theorem Inv.task_work {s s' : State σ n} (h : Inv W s) {i : Fin n} {t : Task σ} {op : Op} {ops : List Op}
    (htasks : s'.tasks = Function.update s.tasks i t) (hops : (s.tasks i).ops = op :: ops)
    (hop : op = .work ∨ op = .adapt) (ht : t.ops = ops ∨ t.ops = (s.tasks i).ops)
    (hwindow : 1 ≤ s'.current ∧ s'.current ≤ W.max) (hin : s'.inFlight = s.inFlight) (hh : s'.holder = s.holder)
    (hsub : s'.submitter = s.submitter) (hst : s'.stopped = s.stopped) : Inv W s' := by
  have hlive : (s.tasks i).ops ≠ [] := by
    rw [hops]
    exact List.cons_ne_nil _ _
  have hsame : Legal (decide (s.holder = .task i)) t.ops = true ∧
      (Op.decrement ∈ t.ops ↔ Op.decrement ∈ (s.tasks i).ops) ∧
      (Op.notify ∈ (s.tasks i).ops → Op.notify ∈ t.ops) := by
    rcases ht with ht | ht
    · rw [ht]
      exact next_same hops hop (h.legal i)
    · rw [ht]
      exact ⟨h.legal i, Iff.rfl, id⟩
  obtain ⟨hlegal, hdec, hnot⟩ := hsame
  refine h.of_task htasks hlive hwindow hin.le ?_ (by rwa [hh]) (fun j _ => by rw [hh]) (by rw [hh]) (by rw [hsub])
    (by rw [hsub]) (by rw [hsub]) (h.knows.mono hsub (by rw [hst]; exact id) hin.le (owing_setTask htasks hnot))
  rw [hin, counted_congr hdec]

theorem Inv.task_lock {s : State σ n} (h : Inv W s) {i : Fin n} {ops : List Op}
    (hops : (s.tasks i).ops = .lock :: ops) (hf : s.holder = .free) :
    Inv W { s.setTask i (s.tasks i).next with holder := .task i } := by
  have hl := h.legal i
  rw [hops, Legal, Bool.and_eq_true] at hl
  have hnext := Task.next_ops hops
  refine h.of_task rfl (by rw [hops]; exact List.cons_ne_nil _ _) h.window le_rfl ?_ ?_ ?_ ?_ rfl rfl rfl
    (h.knows.mono rfl id le_rfl (owing_setTask rfl ?_))
  · rw [Task.next_counted hops (by decide)]
    rfl
  · rw [hnext]
    simpa using hl.2
  · intro j hj
    simp only [hf]
    simpa using fun hij => hj hij.symm
  · simp [hf]
  · rw [hnext, hops]
    simp

theorem Inv.task_decrement {s : State σ n} (h : Inv W s) {i : Fin n} {ops : List Op}
    (hops : (s.tasks i).ops = .decrement :: ops) :
    0 < s.inFlight ∧ Inv W { s.setTask i (s.tasks i).next with inFlight := s.inFlight - 1 } := by
  have hl := h.legal i
  rw [hops] at hl
  simp only [Legal, Bool.and_eq_true, Bool.not_eq_true', List.contains_iff_mem] at hl
  have hnext := Task.next_ops hops
  have hcounted : (s.tasks i).counted = true := by
    rw [counted_iff, hops]
    exact List.mem_cons_self
  have hpos : 0 < s.inFlight := by
    have htally := tally_pos (p := Task.counted) hcounted
    have hcount := h.count
    omega
  refine ⟨hpos, h.of_task rfl (by rw [hops]; exact List.cons_ne_nil _ _) h.window (Nat.sub_le _ _) ?_ ?_
    (fun _ _ => Iff.rfl) Iff.rfl rfl rfl rfl (h.knows.mono rfl id (Nat.sub_le _ _) (owing_setTask rfl ?_))⟩
  · have hout : (s.tasks i).next.counted = false := by
      rw [Task.counted, hnext]
      exact hl.1.1
    rw [hcounted, hout]
    simp only [Bool.toNat_true, Bool.toNat_false]
    omega
  · rw [hnext]
    exact hl.2
  · rw [hnext]
    exact fun _ => hl.1.2

theorem woken_next (p : Submitter n) : p.woken.next = p.next := by cases p <;> rfl

theorem woken_unposted (p : Submitter n) : p.woken.unposted = p.unposted := by cases p <;> rfl

theorem woken_holds (p : Submitter n) (keepsLock : Bool) : p.woken.holds keepsLock = p.holds keepsLock := by
  cases p <;> rfl

/-- **A notification comes under the lock**, so it never falls between the submitter's look at the condition and its
sleep. -/
theorem Inv.task_notify {s : State σ n} (h : Inv W s) {i : Fin n} {ops : List Op}
    (hops : (s.tasks i).ops = .notify :: ops) :
    Inv W { s.setTask i (s.tasks i).next with submitter := s.submitter.woken } := by
  have hl := h.legal i
  rw [hops, Legal, Bool.and_eq_true] at hl
  have hnext := Task.next_ops hops
  have hholder : s.holder = .task i := by simpa using hl.1
  have hfree : s.submitter.holds W.keepsLock = false := by
    rw [← Bool.not_eq_true, ← h.mutex, hholder]
    simp
  refine h.of_task rfl (by rw [hops]; exact List.cons_ne_nil _ _) h.window le_rfl ?_ ?_ (fun _ _ => Iff.rfl) Iff.rfl
    (woken_next _) (woken_unposted _) (woken_holds _ _) ?_
  · rw [Task.next_counted hops (by decide)]
    rfl
  · rw [hnext]
    exact hl.2
  · have hknows := h.knows
    unfold State.Knows at hknows ⊢
    cases hs : s.submitter with
    | comparing | falling | checking =>
      rw [hs] at hfree
      cases hfree
    | passed | counting =>
      rw [hs] at hknows
      exact hknows
    | top | locking | asleep | counted | done => trivial

theorem Inv.task_unlock {s : State σ n} (h : Inv W s) {i : Fin n} {ops : List Op}
    (hops : (s.tasks i).ops = .unlock :: ops) : Inv W { s.setTask i (s.tasks i).next with holder := .free } := by
  have hl := h.legal i
  rw [hops, Legal, Bool.and_eq_true] at hl
  have hnext := Task.next_ops hops
  have hholder : s.holder = .task i := by simpa using hl.1
  refine h.of_task rfl (by rw [hops]; exact List.cons_ne_nil _ _) h.window le_rfl ?_ ?_ ?_ ?_ rfl rfl rfl
    (h.knows.mono rfl id le_rfl (owing_setTask rfl ?_))
  · rw [Task.next_counted hops (by decide)]
    rfl
  · rw [hnext]
    simpa using hl.2
  · intro j hj
    simp only [hholder]
    simpa using fun hij => hj hij.symm
  · simp [hholder]
  · rw [hnext, hops]
    simp

/-! ### The submitter -/

/-- **What the submitter does keeps the invariant**, where it keeps to its part of it. -/
theorem Inv.of_submitter {s s' : State σ n} (h : Inv W s) (htasks : s'.tasks = s.tasks)
    (hcurrent : s'.current = s.current) (hbound : s'.inFlight ≤ W.max)
    (hcount : s'.inFlight + s.submitter.unposted = s.inFlight + s'.submitter.unposted)
    (hothers : ∀ j, s'.holder = .task j ↔ s.holder = .task j)
    (hmutex : s'.holder = .submitter ↔ s'.submitter.holds W.keepsLock = true)
    (hnext : ∀ j : Fin n, s'.submitter.next ≤ j → s.submitter.next ≤ j) (hknows : s'.Knows W) : Inv W s' where
  window := by
    rw [hcurrent]
    exact h.window
  bound := hbound
  count := by
    have hs := h.count
    rw [htasks]
    omega
  legal j := by
    rw [htasks, decide_eq_decide.2 (hothers j)]
    exact h.legal j
  mutex := hmutex
  fresh j hj := by
    rw [htasks]
    exact h.fresh j (hnext j hj)
  knows := hknows

theorem leaving_cases : (W.leaving : Submitter n) = .locking .all ∨ (W.leaving : Submitter n) = .done := by
  unfold leaving
  split
  · exact .inl rfl
  · exact .inr rfl

/-- The submitter leaves the loop: the lock is free of it. -/
theorem Inv.leaves {s s' : State σ n} (h : Inv W s) (hsub : s'.submitter = W.leaving) (htasks : s'.tasks = s.tasks)
    (hcurrent : s'.current = s.current) (hin : s'.inFlight = s.inFlight) (hs : s.submitter.unposted = 0)
    (hothers : ∀ j, s'.holder = .task j ↔ s.holder = .task j) (hfree : s'.holder ≠ .submitter) : Inv W s' := by
  have hbound : s'.inFlight ≤ W.max := hin ▸ h.bound
  rcases leaving_cases (W := W) (n := n) with hl | hl <;> rw [hl] at hsub
  · refine h.of_submitter htasks hcurrent hbound (by rw [hsub, hin, hs]; rfl) hothers ?_ ?_ ?_
    · rw [hsub]
      simpa [Submitter.holds] using hfree
    · intro j hj
      rw [hsub] at hj
      exact absurd j.isLt (Nat.not_lt.2 hj)
    · unfold State.Knows
      rw [hsub]
      trivial
  · refine h.of_submitter htasks hcurrent hbound (by rw [hsub, hin, hs]; rfl) hothers ?_ ?_ ?_
    · rw [hsub]
      simpa [Submitter.holds] using hfree
    · intro j hj
      rw [hsub] at hj
      exact absurd j.isLt (Nat.not_lt.2 hj)
    · unfold State.Knows
      rw [hsub]
      trivial

/-- Where the submitter holds the lock, no task does. -/
theorem Inv.holder_of_holds {s : State σ n} (h : Inv W s) {p : Submitter n} (hs : s.submitter = p)
    (hp : p.holds W.keepsLock = true) : s.holder = .submitter := by
  rw [h.mutex, hs]
  exact hp

/-- Where it does not hold the lock, it does not get it by looking on. -/
theorem Inv.holder_ne {s : State σ n} (h : Inv W s) {p : Submitter n} (hs : s.submitter = p)
    (hp : p.holds W.keepsLock = false) : s.holder ≠ .submitter := by
  intro hh
  rw [h.mutex, hs, hp] at hh
  cases hh

/-- Posting a task. -/
theorem Inv.posts {s : State σ n} (h : Inv W s) {i : Fin n} (hs : s.submitter = .counted i) :
    Inv W { s.setTask i { ops := W.ops } with
      submitter := .top (i + 1), holder := if W.keepsLock then .free else s.holder } := by
  have hempty : (s.tasks i).ops = [] := h.fresh i (by rw [hs]; rfl)
  have hnone : s.holder ≠ .task i := by
    intro hh
    have hl := h.legal i
    rw [hempty, hh] at hl
    simp [Legal] at hl
  have hothers : ∀ j : Fin n, (if W.keepsLock then Holder.free else s.holder) = .task j ↔ s.holder = .task j := by
    intro j
    cases hk : W.keepsLock with
    | false => simp
    | true => simp [h.holder_of_holds hs hk]
  refine ⟨h.window, h.bound, ?_, fun j => ?_, ?_, fun j hj => ?_, trivial⟩
  · have hin : ({ ops := W.ops } : Task σ).counted = true := counted_iff.2 W.counted
    have hout : (s.tasks i).counted = false := by
      rw [Task.counted, hempty]
      rfl
    have hupdate := tally_update Task.counted (f := s.tasks) (i := i) rfl { ops := W.ops }
    rw [hin, hout] at hupdate
    have hcount := h.count
    rw [hs] at hcount
    simp only [Submitter.unposted, State.setTask, Bool.toNat_true, Bool.toNat_false] at hcount hupdate ⊢
    omega
  · rw [decide_eq_decide.2 (hothers j)]
    by_cases hj : j = i
    · subst hj
      rw [decide_eq_false hnone]
      simpa [State.setTask] using W.legal
    · simpa [State.setTask, Function.update_of_ne hj] using h.legal j
  · cases hk : W.keepsLock with
    | false => simpa [Submitter.holds] using h.holder_ne hs hk
    | true => simp [Submitter.holds]
  · have hlt : (i : Nat) + 1 ≤ j := hj
    have hne : j ≠ i := by
      rintro rfl
      omega
    have hfresh := h.fresh j (by rw [hs]; exact Nat.le_of_succ_le hlt)
    simpa [State.setTask, Function.update_of_ne hne] using hfresh

/-- **Every action keeps the invariant.** -/
theorem inv_move {s s' : State σ n} (hm : Move W s s') (h : Inv W s) : Inv W s' := by
  cases hm with
  | work hops o => exact h.task_work rfl hops (.inl rfl) (.inl (Task.next_ops hops)) h.window rfl rfl rfl rfl
  | @adapt i ops c t a hops ha =>
    refine h.task_work rfl hops (.inr rfl) ?_ (adapts_window ha h.window) rfl rfl rfl rfl
    cases a with
    | none => exact .inl (Task.next_ops hops)
    | some a => exact .inr rfl
  | taskLock hops hf => exact h.task_lock hops hf
  | decrement hops => exact (h.task_decrement hops).2
  | notify hops => exact h.task_notify hops
  | unlock hops => exact h.task_unlock hops
  | @enter i hs hi _ =>
    refine h.of_submitter rfl rfl h.bound (by rw [hs]; rfl) (fun _ => Iff.rfl) ?_ ?_ trivial
    · simpa [Submitter.holds] using h.holder_ne hs rfl
    · intro j hj
      rwa [hs]
  | leave hs hi =>
    exact h.leaves rfl rfl rfl rfl (by rw [hs]; rfl) (fun _ => Iff.rfl) (h.holder_ne hs rfl)
  | @lock w hs hf =>
    refine h.of_submitter rfl rfl h.bound (by rw [hs]; rfl) ?_ ?_ ?_ trivial
    · simp [hf]
    · simp [Submitter.holds]
    · intro j hj
      rw [hs]
      exact hj
  | @readInFlight i hs =>
    refine h.of_submitter rfl rfl h.bound (by rw [hs]; rfl) (fun _ => Iff.rfl) ?_ ?_ ?_
    · simpa [Submitter.holds] using h.holder_of_holds hs rfl
    · intro j hj
      rwa [hs]
    · exact ⟨le_rfl, fun hpos => h.owing_of_pos (by rw [hs]; rfl) hpos⟩
  | @readCurrent i hs =>
    refine h.of_submitter rfl rfl h.bound (by rw [hs]; rfl) (fun _ => Iff.rfl) ?_ ?_ h.window
    · simpa [Submitter.holds] using h.holder_of_holds hs rfl
    · intro j hj
      rwa [hs]
  | @pass i read hs hp =>
    have hholder := h.holder_of_holds hs rfl
    have hknows := h.knows
    unfold State.Knows at hknows
    rw [hs] at hknows
    refine h.of_submitter rfl rfl h.bound (by rw [hs]; rfl) ?_ ?_ ?_ ?_
    · intro j
      rw [hholder]
      cases W.keepsLock <;> simp
    · cases W.keepsLock <;> simp [Submitter.holds]
    · intro j hj
      rwa [hs]
    · rcases hp with hp | hp
      · left
        cases read with
        | inFlight value => exact lt_of_le_of_lt hknows.1 (lt_of_lt_of_le hp h.window.2)
        | current value => exact lt_of_lt_of_le hp hknows.2
      · exact .inr hp
  | @full i read hs hp hst =>
    have hknows := h.knows
    unfold State.Knows at hknows
    rw [hs] at hknows
    refine h.of_submitter rfl rfl h.bound (by rw [hs]; rfl) (fun _ => Iff.rfl) ?_ ?_ ?_
    · simpa [Submitter.holds] using h.holder_of_holds hs rfl
    · intro j hj
      rwa [hs]
    · cases read with
      | inFlight value =>
        have hle : s.current ≤ value := Nat.not_lt.1 hp
        exact hknows.2 (lt_of_lt_of_le h.window.1 hle)
      | current value =>
        have hle : value ≤ s.inFlight := Nat.not_lt.1 hp
        exact h.owing_of_pos (by rw [hs]; rfl) (lt_of_lt_of_le hknows.1 hle)
  | drained hs h0 =>
    refine h.of_submitter rfl rfl h.bound (by rw [hs]; rfl) ?_ (by simp [Submitter.holds]) ?_ trivial
    · simp [h.holder_of_holds hs rfl]
    · intro j hj
      exact absurd j.isLt (Nat.not_lt.2 hj)
  | undrained hs h0 =>
    refine h.of_submitter rfl rfl h.bound (by rw [hs]; rfl) (fun _ => Iff.rfl) ?_ ?_ ?_
    · simpa [Submitter.holds] using h.holder_of_holds hs rfl
    · intro j hj
      rwa [hs]
    · exact h.owing_of_pos (by rw [hs]; rfl) (Nat.pos_of_ne_zero h0)
  | @sleep w hs =>
    have hknows := h.knows
    unfold State.Knows at hknows
    rw [hs] at hknows
    refine h.of_submitter rfl rfl h.bound (by rw [hs]; rfl) ?_ (by simp [Submitter.holds]) ?_ hknows
    · simp [h.holder_of_holds hs rfl]
    · intro j hj
      rwa [hs]
  | @giveUp i hs hst =>
    cases hk : W.keepsLock with
    | false =>
      refine h.leaves rfl rfl rfl rfl (by rw [hs]; rfl) (fun j => ?_) ?_
      · simp
      · simpa using h.holder_ne hs hk
    | true =>
      refine h.leaves rfl rfl rfl rfl (by rw [hs]; rfl) (fun j => ?_) (by simp)
      simp [h.holder_of_holds hs hk]
  | @goOn i hs hst =>
    have hknows := h.knows
    unfold State.Knows at hknows
    rw [hs] at hknows
    refine h.of_submitter rfl rfl h.bound (by rw [hs]; rfl) (fun _ => Iff.rfl) ?_ ?_ ?_
    · have hmutex := h.mutex
      rw [hs] at hmutex
      exact hmutex
    · intro j hj
      rwa [hs]
    · exact hknows.resolve_right (by simp [hst])
  | @count i hs =>
    have hknows := h.knows
    unfold State.Knows at hknows
    rw [hs] at hknows
    refine h.of_submitter rfl rfl hknows (by rw [hs]; rfl) (fun _ => Iff.rfl) ?_ ?_ trivial
    · have hmutex := h.mutex
      rw [hs] at hmutex
      exact hmutex
    · intro j hj
      rwa [hs]
  | @post i hs => exact h.posts hs

/-- **Every step keeps the invariant.** -/
theorem inv_step {s s' : State σ n} (hstep : W.Step s s') (h : Inv W s) : Inv W s' := by
  cases hstep with
  | move hm => exact inv_move hm h
  | stop =>
    exact h.of_submitter rfl rfl h.bound rfl (fun _ => Iff.rfl) h.mutex (fun _ hj => hj)
      (h.knows.mono rfl (fun _ => rfl) le_rfl id)
  | @spurious w hs =>
    refine h.of_submitter rfl rfl h.bound (by rw [hs]; rfl) (fun _ => Iff.rfl) ?_ ?_ trivial
    · simpa [Submitter.holds] using h.holder_ne hs rfl
    · intro j hj
      rwa [hs]

theorem inv_run {s s' : State σ n} (hrun : W.Run s s') (h : Inv W s) : Inv W s' := by
  induction hrun with
  | refl => exact h
  | tail _ hstep ih => exact inv_step hstep ih

end Throttle
end Lib
