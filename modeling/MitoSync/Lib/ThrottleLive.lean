import MitoSync.Lib.Throttle
import Mathlib.Data.Prod.Lex
/-!
# ThrottleLive — no wake-up is lost

A notification comes under the lock, so it never falls between the submitter's look at the condition and its sleep, and
a sleeper has its wake-up still to come.  Someone always has an action (`Inv.progress`), and the actions end
(`move_wf`): each is paid for with the weight of what is left, but for the compare-and-swaps that fail because another
one succeeded.
-/
namespace Lib.Throttle

variable {σ : Type} {n : Nat} {W : Throttle σ}

/-! ## No one is left waiting -/

/-- The submitter has returned and every task has ended. -/
def State.Over (s : State σ n) : Prop := s.submitter = .done ∧ ∀ i, (s.tasks i).ops = []

/-- A task that adapts has an action. -/
theorem exists_adapts (o : Outcome) (c : Nat) (t : σ) (a : Adapting σ) :
    ∃ c' t' a', Adapts W o (c, t) a (c', t') a' := by
  cases a with
  | start =>
    cases o with
    | neither => exact ⟨_, _, _, .nothing⟩
    | failed => exact ⟨_, _, _, .failure⟩
    | succeeded =>
      cases hs : (W.onSuccess t).2 with
      | false => exact ⟨_, _, _, .success hs⟩
      | true => exact ⟨_, _, _, .ramp hs⟩
  | toReduce => exact ⟨_, _, _, .loadReduce⟩
  | reducing r =>
    by_cases hr : r ≤ W.reduced r
    · exact ⟨_, _, _, .enough hr⟩
    · by_cases hc : r = c
      · subst hc
        exact ⟨_, _, _, .reduce (Nat.not_le.1 hr)⟩
      · exact ⟨_, _, _, .retry (Nat.not_le.1 hr) hc⟩
  | toRaise seen =>
    by_cases hc : c < W.max
    · exact ⟨_, _, _, .loadRaise hc⟩
    · exact ⟨_, _, _, .wide (Nat.not_lt.1 hc)⟩
  | raising seen r => exact ⟨_, _, _, .lost⟩

/-- A task that has not ended has an action, unless it waits for the lock. -/
theorem task_moves {s : State σ n} {i : Fin n} {op : Op} {ops : List Op} (h : (s.tasks i).ops = op :: ops)
    (hlock : op = .lock → s.holder = .free) : ∃ s', Move W s s' := by
  cases op with
  | work => exact ⟨_, .work h .neither⟩
  | adapt =>
    obtain ⟨c, t, a, ha⟩ := exists_adapts (s.tasks i).outcome s.current s.counts (s.tasks i).adapting
    exact ⟨_, .adapt h ha⟩
  | lock => exact ⟨_, .taskLock h (hlock rfl)⟩
  | decrement => exact ⟨_, .decrement h⟩
  | notify => exact ⟨_, .notify h⟩
  | unlock => exact ⟨_, .unlock h⟩

/-- The submitter has an action, unless it sleeps, waits for the lock or has returned. -/
theorem submitter_moves {s : State σ n} (hlock : ∀ w, s.submitter = .locking w → s.holder = .free)
    (hawake : ∀ w, s.submitter ≠ .asleep w) (hdone : s.submitter ≠ .done) : ∃ s', Move W s s' := by
  cases hs : s.submitter with
  | top i =>
    by_cases hi : i < n ∧ s.stopped = false
    · exact ⟨_, .enter hs hi.1 hi.2⟩
    · refine ⟨_, .leave hs ?_⟩
      rw [not_and_or, Nat.not_lt, Bool.not_eq_false] at hi
      exact hi
  | locking w => exact ⟨_, .lock hs (hlock w hs)⟩
  | checking w =>
    cases w with
    | slot i => exact ⟨_, .readInFlight hs⟩
    | all =>
      by_cases h0 : s.inFlight = 0
      · exact ⟨_, .drained hs h0⟩
      · exact ⟨_, .undrained hs h0⟩
  | comparing i read =>
    by_cases hp : s.Below read ∨ s.stopped = true
    · exact ⟨_, .pass hs hp⟩
    · rw [not_or, Bool.not_eq_true] at hp
      exact ⟨_, .full hs hp.1 hp.2⟩
  | falling w => exact ⟨_, .sleep hs⟩
  | asleep w => exact absurd hs (hawake w)
  | passed i =>
    cases hst : s.stopped with
    | false => exact ⟨_, .goOn hs hst⟩
    | true => exact ⟨_, .giveUp hs hst⟩
  | counting i => exact ⟨_, .count hs⟩
  | counted i => exact ⟨_, .post hs⟩
  | done => exact absurd hs hdone

/-- **Someone always has an action until all is over.** -/
theorem Inv.progress {s : State σ n} (h : Inv W s) (hover : ¬ s.Over) : ∃ s', Move W s s' := by
  by_cases hall : ∀ i, (s.tasks i).ops = []
  · -- no task is left, so the lock is free of them and no one owes the submitter a wake-up
    apply submitter_moves
    · intro w hs
      cases hh : s.holder with
      | free => rfl
      | submitter => exact absurd hh (h.holder_ne hs rfl)
      | task i =>
        have hl := h.legal i
        rw [hall i, hh] at hl
        simp [Legal] at hl
    · intro w hs
      have hknows := h.knows
      unfold State.Knows at hknows
      rw [hs] at hknows
      obtain ⟨i, hi⟩ := hknows
      rw [hall i] at hi
      cases hi
    · intro hs
      exact hover ⟨hs, hall⟩
  · rw [not_forall] at hall
    obtain ⟨i, hi⟩ := hall
    obtain ⟨op, ops, hops⟩ := List.exists_cons_of_ne_nil hi
    by_cases hlock : op = .lock → s.holder = .free
    · exact task_moves hops hlock
    · -- whoever holds the lock it waits for can go on
      have hheld : s.holder ≠ .free := fun hf => hlock fun _ => hf
      cases hh : s.holder with
      | free => exact absurd hh hheld
      | submitter =>
        have hholds : s.submitter.holds W.keepsLock = true := h.mutex.1 hh
        apply submitter_moves
        · intro w hs
          rw [hs] at hholds
          cases hholds
        · intro w hs
          rw [hs] at hholds
          cases hholds
        · intro hs
          rw [hs] at hholds
          cases hholds
      | task j =>
        have hl := h.legal j
        rw [hh, decide_eq_true rfl] at hl
        cases hj : (s.tasks j).ops with
        | nil =>
          rw [hj] at hl
          cases hl
        | cons op' ops' =>
          refine task_moves hj fun hop => ?_
          rw [hj, hop] at hl
          cases hl

/-- **The submitter sleeps only while some task has yet to notify it**, and one that has counted itself out already
where nothing is in flight. -/
theorem Inv.awaited {s : State σ n} (h : Inv W s) {w : Await n} (hs : s.submitter = .asleep w) :
    s.Owing ∧ (s.inFlight = 0 → ∃ i, Op.notify ∈ (s.tasks i).ops ∧ Op.decrement ∉ (s.tasks i).ops) := by
  have howing : s.Owing := by
    have hknows := h.knows
    unfold State.Knows at hknows
    rw [hs] at hknows
    exact hknows
  refine ⟨howing, fun h0 => ?_⟩
  obtain ⟨i, hi⟩ := howing
  refine ⟨i, hi, fun hd => ?_⟩
  have hpos := tally_pos (p := Task.counted) (f := s.tasks) (counted_iff.2 hd)
  have hcount := h.count
  omega

/-! ## The actions end -/

def Op.weight : Op → Nat
  | .notify => 7
  | _ => 3

def opsWeight (ops : List Op) : Nat := (ops.map Op.weight).sum

def Adapting.weight : Adapting σ → Nat
  | start => 3
  | toReduce => 2
  | toRaise _ => 2
  | reducing _ => 1
  | raising _ _ => 1

def Task.weight (t : Task σ) : Nat := opsWeight t.ops + t.adapting.weight

/-- How far the submitter is from its end: every task it posts is paid for when it is still to come. -/
def Submitter.weight (k : Nat) : Submitter n → Nat
  | top i => (n - i) * (k + 9) + 9
  | locking (.slot i) => (n - i) * (k + 9) + 8
  | checking (.slot i) => (n - i) * (k + 9) + 7
  | comparing i _ => (n - i) * (k + 9) + 6
  | falling (.slot i) => (n - i) * (k + 9) + 5
  | asleep (.slot i) => (n - i) * (k + 9) + 4
  | passed i => (n - i) * (k + 9) + 5
  | counting i => (n - i) * (k + 9) + 4
  | counted i => (n - i) * (k + 9) + 3
  | locking .all => 8
  | checking .all => 7
  | falling .all => 5
  | asleep .all => 4
  | done => 0

/-- A task that is about to see its compare-and-swap fail. -/
def Task.stale (current : Nat) (t : Task σ) : Bool :=
  match t.adapting with
  | .reducing r => r != current
  | _ => false

def State.weight (W : Throttle σ) (s : State σ n) : Nat :=
  ∑ i, (s.tasks i).weight + s.submitter.weight (opsWeight W.ops)

theorem adapting_weight (a : Adapting σ) : 1 ≤ a.weight ∧ a.weight ≤ 3 := by
  cases a <;> simp [Adapting.weight]

theorem next_weight {t : Task σ} {op : Op} {ops : List Op} (h : t.ops = op :: ops) :
    t.next.weight + op.weight ≤ t.weight + 2 := by
  have ha := adapting_weight t.adapting
  have hnext : t.next.weight = opsWeight ops + 3 := by
    rw [Task.weight, Task.next_ops h]
    rfl
  have ht : t.weight = op.weight + opsWeight ops + t.adapting.weight := by
    rw [Task.weight, h]
    rfl
  omega

theorem op_weight (op : Op) : 3 ≤ op.weight := by cases op <;> simp [Op.weight]

/-- A task's move pays for itself. -/
theorem weight_setTask (s : State σ n) (i : Fin n) (t : Task σ) :
    ∑ j, ((s.setTask i t).tasks j).weight + (s.tasks i).weight = ∑ j, (s.tasks j).weight + t.weight :=
  sum_update Task.weight s.tasks i t

theorem woken_weight (p : Submitter n) (k : Nat) : p.woken.weight k ≤ p.weight k + 4 := by
  cases p with
  | asleep w => cases w <;> simp [Submitter.woken, Submitter.weight]
  | _ => simp [Submitter.woken]

theorem weight_lt_of_task {s s' : State σ n} {i : Fin n} {t : Task σ}
    (htasks : s'.tasks = Function.update s.tasks i t)
    (hlt : s'.submitter.weight (opsWeight W.ops) + t.weight <
      s.submitter.weight (opsWeight W.ops) + (s.tasks i).weight) : s'.weight W < s.weight W := by
  have hsum := sum_update Task.weight s.tasks i t
  unfold State.weight
  rw [htasks]
  omega

theorem weight_lt_of_next {s s' : State σ n} {i : Fin n} {t : Task σ} {op : Op} {ops : List Op}
    (htasks : s'.tasks = Function.update s.tasks i t) (hops : (s.tasks i).ops = op :: ops)
    (ht : t.weight = (s.tasks i).next.weight) (hsub : s'.submitter = s.submitter) : s'.weight W < s.weight W := by
  apply weight_lt_of_task htasks
  have hnext := next_weight hops
  have hop := op_weight op
  rw [ht, hsub]
  omega

theorem weight_lt_of_submitter {s s' : State σ n} (htasks : s'.tasks = s.tasks)
    (hlt : s'.submitter.weight (opsWeight W.ops) < s.submitter.weight (opsWeight W.ops)) :
    s'.weight W < s.weight W := by
  unfold State.weight
  rw [htasks]
  omega

theorem leaving_weight (k : Nat) : (W.leaving : Submitter n).weight k ≤ 8 := by
  rcases leaving_cases (W := W) (n := n) with h | h <;> rw [h] <;> simp [Submitter.weight]

/-- A task to come leaves room for its weight. -/
theorem room_le (i : Fin n) (k : Nat) : (n - (i + 1)) * (k + 9) + (k + 9) = (n - i) * (k + 9) := by
  have hi : n - (i : Nat) = n - (i + 1) + 1 := by omega
  rw [hi, Nat.add_mul, Nat.one_mul]

/-- Adapting goes on, except where a compare-and-swap failed on a window that another task moved. -/
theorem adapts_weight {o : Outcome} {c c' : Nat} {t t' : σ} {a a' : Adapting σ}
    (h : Adapts W o (c, t) a (c', t') (some a')) :
    a'.weight < a.weight ∨ (c' = c ∧ a' = .reducing c ∧ ∃ r, a = .reducing r ∧ r ≠ c) := by
  cases h with
  | failure | loadReduce | ramp | loadRaise => exact .inl (by simp [Adapting.weight])
  | retry _ hr => exact .inr ⟨rfl, rfl, _, rfl, hr⟩

/-- **Every action takes the run nearer to its end**: it pays with the weight of what is left, or it is one of the
compare-and-swaps that the last change of the window made fail. -/
theorem move_descends {s s' : State σ n} (hm : Move W s s') :
    s'.weight W < s.weight W ∨
      (s'.weight W = s.weight W ∧ tally (Task.stale s'.current) s'.tasks < tally (Task.stale s.current) s.tasks) := by
  cases hm with
  | work hops o => exact .inl (weight_lt_of_next rfl hops rfl rfl)
  | @adapt i ops c t a hops ha =>
    cases a with
    | none => exact .inl (weight_lt_of_next rfl hops rfl rfl)
    | some a =>
      rcases adapts_weight ha with hlt | ⟨rfl, rfl, r, hr, hne⟩
      · refine .inl (weight_lt_of_task rfl ?_)
        simpa [Task.adapted, Task.weight] using hlt
      · right
        have hsum := weight_setTask s i ((s.tasks i).adapted (some (.reducing s.current)))
        have hsame : ((s.tasks i).adapted (some (.reducing s.current))).weight = (s.tasks i).weight := by
          simp [Task.adapted, Task.weight, hr, Adapting.weight]
        have hstale : (s.tasks i).stale s.current = true := by simpa [Task.stale, hr] using hne
        have hfresh : ((s.tasks i).adapted (some (.reducing s.current))).stale s.current = false := by
          simp [Task.stale, Task.adapted]
        have hupdate := tally_update (Task.stale s.current) (f := s.tasks) (i := i) rfl
          ((s.tasks i).adapted (some (.reducing s.current)))
        rw [hstale, hfresh, Bool.toNat_true, Bool.toNat_false] at hupdate
        refine ⟨?_, ?_⟩
        · unfold State.weight
          dsimp only
          rw [setTask_submitter]
          omega
        · exact Nat.lt_of_add_one_le (le_of_eq hupdate)
  | taskLock hops hf => exact .inl (weight_lt_of_next rfl hops rfl rfl)
  | decrement hops => exact .inl (weight_lt_of_next rfl hops rfl rfl)
  | unlock hops => exact .inl (weight_lt_of_next rfl hops rfl rfl)
  | notify hops =>
    refine .inl (weight_lt_of_task rfl ?_)
    have hnext := next_weight hops
    have hwoken := woken_weight s.submitter (opsWeight W.ops)
    have hop : Op.notify.weight = 7 := rfl
    dsimp only
    omega
  | enter hs hi _ =>
    refine .inl (weight_lt_of_submitter rfl ?_)
    simp [hs, Submitter.weight]
  | leave hs hi =>
    refine .inl (weight_lt_of_submitter rfl ?_)
    have hleaving := leaving_weight (W := W) (n := n) (opsWeight W.ops)
    dsimp only
    rw [hs, Submitter.weight]
    omega
  | @lock w hs hf =>
    refine .inl (weight_lt_of_submitter rfl ?_)
    cases w <;> simp [hs, Submitter.weight]
  | readInFlight hs | readCurrent hs | pass hs | full hs | drained hs | goOn hs | count hs =>
    refine .inl (weight_lt_of_submitter rfl ?_)
    simp [hs, Submitter.weight]
  | undrained hs =>
    refine .inl (weight_lt_of_submitter rfl ?_)
    simp [hs, Submitter.weight]
  | @sleep w hs =>
    refine .inl (weight_lt_of_submitter rfl ?_)
    cases w <;> simp [hs, Submitter.weight]
  | @giveUp i hs hst =>
    refine .inl (weight_lt_of_submitter rfl ?_)
    have hleaving := leaving_weight (W := W) (n := n) (opsWeight W.ops)
    have hroom := room_le i (opsWeight W.ops)
    dsimp only
    rw [hs, Submitter.weight]
    omega
  | @post i hs =>
    refine .inl (weight_lt_of_task rfl ?_)
    have hroom := room_le i (opsWeight W.ops)
    have hold := adapting_weight (s.tasks i).adapting
    have hnew : ({ ops := W.ops } : Task σ).weight = opsWeight W.ops + 3 := rfl
    have htask : (s.tasks i).weight = opsWeight (s.tasks i).ops + (s.tasks i).adapting.weight := rfl
    rw [hs, hnew, htask, Submitter.weight, Submitter.weight]
    omega

/-- **The actions of a run end.** -/
theorem move_wf : WellFounded (fun s' s : State σ n => Move W s s') := by
  let measure : State σ n → Nat ×ₗ Nat := fun s => toLex (s.weight W, tally (Task.stale s.current) s.tasks)
  have hwf : WellFounded (InvImage (· < ·) measure) := InvImage.wf measure wellFounded_lt
  refine Subrelation.wf (fun {s' s} hm => ?_) hwf
  rcases move_descends hm with hlt | ⟨heq, hlt⟩
  · exact Prod.Lex.toLex_lt_toLex.2 (.inl hlt)
  · exact Prod.Lex.toLex_lt_toLex.2 (.inr ⟨heq, hlt⟩)

/-! ## What holds in every state of a run -/

/-- The window stays in its bounds, and no one is left waiting. -/
structure Holds (W : Throttle σ) (s : State σ n) : Prop where
  window : 1 ≤ s.current ∧ s.current ≤ W.max
  in_flight_le : s.inFlight ≤ W.max
  /-- no task counts itself out where none is counted in -/
  no_underflow : ∀ i ops, (s.tasks i).ops = .decrement :: ops → 0 < s.inFlight
  /-- a submitter asleep has its wake-up still to come, also where nothing is in flight any more -/
  wake_up : ∀ w, s.submitter = .asleep w → s.Owing ∧
    (s.inFlight = 0 → ∃ i, Op.notify ∈ (s.tasks i).ops ∧ Op.decrement ∉ (s.tasks i).ops)
  /-- the actions from here end, and they end only where the submitter has returned -/
  ends : Acc (fun s₂ s₁ => Move W s₁ s₂) s
  progress : ¬ s.Over → ∃ s', Move W s s'

theorem holds_run {s : State σ n} (h : W.Run W.start s) : Holds W s := by
  have hinv := inv_run h inv_start
  exact {
    window := hinv.window
    in_flight_le := hinv.bound
    no_underflow := fun i ops hops => (hinv.task_decrement hops).1
    wake_up := fun w hs => hinv.awaited hs
    ends := move_wf.apply s
    progress := hinv.progress }

end Lib.Throttle
