import MitoSync.SharedMetrics
import MitoSync.Lib.LockFree
import Mathlib.Data.Set.Insert
/-!
# Recording — the threads of a process count their calls

A call is counted by one `fetch_add` after another, and its latency goes into the minimum and the maximum by loops of
`compare_exchange_weak`.  So the threads interleave inside the calls, and a thread's minimum may be overtaken between
its look and its exchange.  The counters are all the same what they were if the calls had been counted one after another
(`records_add_up`), which is how `Metrics` and `SharedMetrics` have them.
-/
namespace Mito

open Lib Relation

/-- An access to an operation's counters.  A `fetch_add` changes one of `Counters`. -/
inductive MetricsAccess
  | fetchAdd (c : Counters)
  | totalLatency (latencyMs : Int64)
  | updateMinLatency (latencyMs : Int64)
  | updateMaxLatency (latencyMs : Int64)

namespace MetricsAccess

def eff : MetricsAccess → OperationMetrics → OperationMetrics
  | fetchAdd c, o => { o with toCounters := o.toCounters + c }
  | totalLatency latencyMs, o => { o with totalLatencyMs := o.totalLatencyMs + latencyMs }
  | updateMinLatency latencyMs, o =>
    { o with minLatencyMs := if latencyMs < o.minLatencyMs then latencyMs else o.minLatencyMs }
  | updateMaxLatency latencyMs, o =>
    { o with maxLatencyMs := if latencyMs > o.maxLatencyMs then latencyMs else o.maxLatencyMs }

/-- The counter that a loop looks at. -/
def view : MetricsAccess → OperationMetrics → Int64
  | updateMinLatency _, o => o.minLatencyMs
  | updateMaxLatency _, o => o.maxLatencyMs
  | _, _ => 0

def atomic : MetricsAccess → Bool
  | fetchAdd _ | totalLatency _ => true
  | updateMinLatency _ | updateMaxLatency _ => false

/-- The condition of the loop does not hold. -/
def idle : MetricsAccess → Int64 → Prop
  | updateMinLatency latencyMs, current => ¬ latencyMs < current
  | updateMaxLatency latencyMs, current => ¬ latencyMs > current
  | _, _ => False

theorem int64_min_comm (a b c : Int64) :
    (if a < (if b < c then b else c) then a else if b < c then b else c) =
      if b < (if a < c then a else c) then b else if a < c then a else c := by
  rw [← Int64.toInt_inj]
  simp only [Int64.lt_iff_toInt_lt]
  split_ifs <;> omega

theorem int64_max_comm (a b c : Int64) :
    (if a > (if b > c then b else c) then a else if b > c then b else c) =
      if b > (if a > c then a else c) then b else if a > c then a else c := by
  rw [← Int64.toInt_inj]
  simp only [gt_iff_lt, Int64.lt_iff_toInt_lt]
  split_ifs <;> omega

theorem eff_comm (a b : MetricsAccess) (o : OperationMetrics) : a.eff (b.eff o) = b.eff (a.eff o) := by
  cases a with
  | fetchAdd x =>
    cases b with
    | fetchAdd y => simp only [eff, add_assoc, add_comm y x]
    | _ => rfl
  | totalLatency x =>
    cases b with
    | totalLatency y => simp only [eff, Int64.add_assoc, Int64.add_comm y x]
    | _ => rfl
  | updateMinLatency x =>
    cases b with
    | updateMinLatency y => exact congrArg (fun v => { o with minLatencyMs := v }) (int64_min_comm x y o.minLatencyMs)
    | _ => rfl
  | updateMaxLatency x =>
    cases b with
    | updateMaxLatency y => exact congrArg (fun v => { o with maxLatencyMs := v }) (int64_max_comm x y o.maxLatencyMs)
    | _ => rfl

theorem idle_eff (a : MetricsAccess) (o : OperationMetrics) (h : a.idle (a.view o)) : a.eff o = o := by
  cases a with
  | fetchAdd _ => exact h.elim
  | totalLatency _ => exact h.elim
  | updateMinLatency _ => simp only [eff, if_neg (show ¬ _ < o.minLatencyMs from h)]
  | updateMaxLatency _ => simp only [eff, if_neg (show ¬ _ > o.maxLatencyMs from h)]

/-- The minimum only falls and the maximum only rises. -/
theorem idle_stable (a b : MetricsAccess) (o : OperationMetrics) (h : a.idle (a.view o)) :
    a.idle (a.view (b.eff o)) := by
  cases a with
  | fetchAdd _ => exact h
  | totalLatency _ => exact h
  | updateMinLatency x =>
    cases b with
    | updateMinLatency y =>
      have hx : ¬ x < o.minLatencyMs := h
      show ¬ x < (if y < o.minLatencyMs then y else o.minLatencyMs)
      split
      · exact fun hlt => hx (Int64.lt_trans hlt ‹_›)
      · exact hx
    | _ => exact h
  | updateMaxLatency x =>
    cases b with
    | updateMaxLatency y =>
      have hx : ¬ x > o.maxLatencyMs := h
      show ¬ x > (if y > o.maxLatencyMs then y else o.maxLatencyMs)
      split
      · exact fun hlt => hx (Int64.lt_trans ‹_› hlt)
      · exact hx
    | _ => exact h

end MetricsAccess

/-- What a thread does to the counters in one access, or in one loop. -/
inductive MetricsInstr
  | access (op : S3OperationType) (a : MetricsAccess)
  /-- `addRegion`, under its lock -/
  | addRegion (region : Str)

/-- The accesses of a call, in their order. -/
def MetricsCall.instrs : MetricsCall → List MetricsInstr
  | .recordStart op => if op = .count then [] else [.access op (.fetchAdd { calls := 1 })]
  | .recordSuccess op latencyMs bytesUp bytesDown bytesServerSide =>
    if op = .count then []
    else
      [.access op (.fetchAdd { success := 1 }), .access op (.totalLatency latencyMs),
        .access op (.fetchAdd { bytesUp }), .access op (.fetchAdd { bytesDown }),
        .access op (.fetchAdd { bytesServer := bytesServerSide }), .access op (.updateMinLatency latencyMs),
        .access op (.updateMaxLatency latencyMs)]
  | .recordFailure op latencyMs =>
    if op = .count then []
    else
      [.access op (.fetchAdd { failures := 1 }), .access op (.totalLatency latencyMs),
        .access op (.updateMinLatency latencyMs), .access op (.updateMaxLatency latencyMs)]
  | .recordRetry op => if op = .count then [] else [.access op (.fetchAdd { retries := 1 })]
  | .addServerSideBytes op bytes =>
    if op = .count ∨ bytes = 0 then [] else [.access op (.fetchAdd { bytesServer := bytes })]
  | .addRegion region => [.addRegion region]

namespace MetricsInstr

def eff : MetricsInstr → CloudMetrics → CloudMetrics
  | access op a, m => { m with metrics := Function.update m.metrics op (a.eff (m.metrics op)) }
  | addRegion region, m => m.addRegion region

/-- The counters, and which regions there are. -/
abbrev Totals : Type := (S3OperationType → OperationMetrics) × Set Str

def totals (m : CloudMetrics) : Totals := (m.metrics, {region | region ∈ m.regions})

def totalsEff : MetricsInstr → Totals → Totals
  | access op a, (metrics, regions) => (Function.update metrics op (a.eff (metrics op)), regions)
  | addRegion region, (metrics, regions) => (metrics, if region = [] then regions else insert region regions)

theorem totals_eff (i : MetricsInstr) (m : CloudMetrics) : totals (i.eff m) = i.totalsEff (totals m) := by
  cases i with
  | access op a => rfl
  | addRegion region =>
    refine Prod.ext ?_ (Set.ext fun r => ?_)
    · show (m.addRegion region).metrics = m.metrics
      unfold CloudMetrics.addRegion
      split <;> rfl
    · show r ∈ (m.addRegion region).regions ↔
        r ∈ if region = [] then {x | x ∈ m.regions} else insert region {x | x ∈ m.regions}
      unfold CloudMetrics.addRegion
      by_cases hempty : region = []
      · simp [hempty]
      · by_cases hany : region ∈ m.regions
        · rw [if_pos (by simp [hany]), if_neg hempty, Set.insert_eq_of_mem (by exact hany)]
          rfl
        · rw [if_neg (by simp [hempty, hany]), if_neg hempty]
          simp [or_comm]

theorem totalsEff_comm (i j : MetricsInstr) (t : Totals) :
    i.totalsEff (j.totalsEff t) = j.totalsEff (i.totalsEff t) := by
  obtain ⟨metrics, regions⟩ := t
  cases i with
  | access op a =>
    cases j with
    | access op' b =>
      refine Prod.ext ?_ rfl
      show Function.update (Function.update metrics op' (b.eff (metrics op'))) op
          (a.eff (Function.update metrics op' (b.eff (metrics op')) op)) =
        Function.update (Function.update metrics op (a.eff (metrics op))) op'
          (b.eff (Function.update metrics op (a.eff (metrics op)) op'))
      by_cases hop : op = op'
      · subst hop
        simp only [Function.update_self, Function.update_idem, MetricsAccess.eff_comm]
      · rw [Function.update_of_ne hop, Function.update_of_ne (Ne.symm hop), Function.update_comm hop]
    | addRegion region => rfl
  | addRegion region =>
    cases j with
    | access op b => rfl
    | addRegion region' =>
      refine Prod.ext rfl ?_
      show (if region = [] then (if region' = [] then regions else insert region' regions) else
        insert region (if region' = [] then regions else insert region' regions)) =
        if region' = [] then (if region = [] then regions else insert region regions) else
        insert region' (if region = [] then regions else insert region regions)
      split_ifs
      · rfl
      · rfl
      · rfl
      · exact Set.insert_comm region region' regions

def view : MetricsInstr → CloudMetrics → Int64
  | access op a, m => a.view (m.metrics op)
  | addRegion _, _ => 0

def atomic : MetricsInstr → Bool
  | access _ a => a.atomic
  | addRegion _ => true

def idle : MetricsInstr → Int64 → Prop
  | access _ a, current => a.idle current
  | addRegion _, _ => False

theorem idle_eff (i : MetricsInstr) (m : CloudMetrics) (h : i.idle (i.view m)) : i.totalsEff (totals m) = totals m := by
  cases i with
  | addRegion _ => exact h.elim
  | access op a =>
    refine Prod.ext ?_ rfl
    show Function.update m.metrics op (a.eff (m.metrics op)) = m.metrics
    rw [a.idle_eff _ h, Function.update_eq_self]

theorem idle_stable (i j : MetricsInstr) (m : CloudMetrics) (h : i.idle (i.view m)) : i.idle (i.view (j.eff m)) := by
  cases i with
  | addRegion _ => exact h
  | access op a =>
    cases j with
    | addRegion region =>
      have hsame : (m.addRegion region).metrics = m.metrics := congrArg Prod.fst (totals_eff (.addRegion region) m)
      show a.idle (a.view ((m.addRegion region).metrics op))
      rw [hsame]
      exact h
    | access op' b =>
      show a.idle (a.view (Function.update m.metrics op' (b.eff (m.metrics op')) op))
      by_cases hop : op = op'
      · subst hop
        rw [Function.update_self]
        exact a.idle_stable b _ h
      · rw [Function.update_of_ne hop]
        exact h

end MetricsInstr

/-- The threads on the counters of their process. -/
def recording : LockFree CloudMetrics MetricsInstr.Totals MetricsInstr Int64 where
  eff := MetricsInstr.eff
  atomic := MetricsInstr.atomic
  view := MetricsInstr.view
  idle := MetricsInstr.idle
  abs := MetricsInstr.totals
  absEff := MetricsInstr.totalsEff
  abs_eff := MetricsInstr.totals_eff
  comm := MetricsInstr.totalsEff_comm
  idle_eff := MetricsInstr.idle_eff
  idle_stable := MetricsInstr.idle_stable

/-! ## The calls -/

/-- Accesses to one operation, one after another. -/
theorem foldl_access (op : S3OperationType) (as : List MetricsAccess) (m : CloudMetrics) :
    (as.map (MetricsInstr.access op)).foldl (fun m i => i.eff m) m =
      { m with metrics := Function.update m.metrics op (as.foldl (fun o a => a.eff o) (m.metrics op)) } := by
  induction as generalizing m with
  | nil => simp
  | cons a as ih =>
    rw [List.map_cons, List.foldl_cons, ih]
    simp [MetricsInstr.eff]

/-- A change of an operation that its accesses add up to. -/
theorem modify_eq_foldl (op : S3OperationType) (m : CloudMetrics) {f : OperationMetrics → OperationMetrics}
    (as : List MetricsAccess) (hf : f (m.metrics op) = as.foldl (fun o a => a.eff o) (m.metrics op)) :
    m.modify op f = (if op = .count then [] else as.map (MetricsInstr.access op)).foldl (fun m i => i.eff m) m := by
  unfold CloudMetrics.modify
  split
  · rfl
  · rw [foldl_access, ← hf]

/-- **A call is its accesses.** -/
theorem call_eq (m : CloudMetrics) (c : MetricsCall) : m.call c = c.instrs.foldl (fun m i => i.eff m) m := by
  cases c with
  | recordStart op =>
    rw [CloudMetrics.call, CloudMetrics.recordStart, MetricsCall.instrs]
    refine modify_eq_foldl op m [.fetchAdd { calls := 1 }] ?_
    simp [MetricsAccess.eff, Counters.add_def]
  | recordSuccess op latencyMs bytesUp bytesDown bytesServerSide =>
    rw [CloudMetrics.call, CloudMetrics.recordSuccess, MetricsCall.instrs]
    refine modify_eq_foldl op m [.fetchAdd { success := 1 }, .totalLatency latencyMs, .fetchAdd { bytesUp },
      .fetchAdd { bytesDown }, .fetchAdd { bytesServer := bytesServerSide }, .updateMinLatency latencyMs,
      .updateMaxLatency latencyMs] ?_
    simp [MetricsAccess.eff, Counters.add_def, CloudMetrics.addLatency]
  | recordFailure op latencyMs =>
    rw [CloudMetrics.call, CloudMetrics.recordFailure, MetricsCall.instrs]
    refine modify_eq_foldl op m [.fetchAdd { failures := 1 }, .totalLatency latencyMs, .updateMinLatency latencyMs,
      .updateMaxLatency latencyMs] ?_
    simp [MetricsAccess.eff, Counters.add_def, CloudMetrics.addLatency]
  | recordRetry op =>
    rw [CloudMetrics.call, CloudMetrics.recordRetry, MetricsCall.instrs]
    refine modify_eq_foldl op m [.fetchAdd { retries := 1 }] ?_
    simp [MetricsAccess.eff, Counters.add_def]
  | addServerSideBytes op bytes =>
    show m.addServerSideBytes op bytes = (if op = .count ∨ bytes = 0 then [] else
      [MetricsInstr.access op (.fetchAdd { bytesServer := bytes })]).foldl (fun m i => i.eff m) m
    unfold CloudMetrics.addServerSideBytes
    by_cases hbytes : bytes = 0
    · rw [if_pos hbytes, if_pos (.inr hbytes)]
      rfl
    · rw [if_neg hbytes, if_congr (or_iff_left hbytes) rfl rfl]
      refine modify_eq_foldl op m [.fetchAdd { bytesServer := bytes }] ?_
      simp [MetricsAccess.eff, Counters.add_def]
  | addRegion region => rfl

theorem foldl_call_eq (calls : List MetricsCall) (m : CloudMetrics) :
    calls.foldl CloudMetrics.call m = (calls.flatMap MetricsCall.instrs).foldl (fun m i => i.eff m) m := by
  induction calls generalizing m with
  | nil => rfl
  | cons c calls ih => rw [List.foldl_cons, List.flatMap_cons, List.foldl_append, ih, call_eq]

theorem totals_foldl (is : List MetricsInstr) (m : CloudMetrics) :
    MetricsInstr.totals (is.foldl (fun m i => i.eff m) m) =
      is.foldl (fun t i => i.totalsEff t) (MetricsInstr.totals m) := by
  induction is generalizing m with
  | nil => rfl
  | cons i is ih => rw [List.foldl_cons, List.foldl_cons, ih, MetricsInstr.totals_eff]

/-! ## The threads -/

/-- Threads about to make their calls. -/
def aboutToRecord (m : CloudMetrics) (threads : List (List MetricsCall)) :
    LockFree.State CloudMetrics MetricsInstr Int64 where
  shared := m
  threads := threads.map fun calls => ⟨calls.flatMap MetricsCall.instrs, none⟩

theorem totals_recorded (m : CloudMetrics) (threads : List (List MetricsCall)) {y}
    (h : ReflTransGen recording.Step (aboutToRecord m threads) y) (hpending : y.pending = [])
    {inTurn : List MetricsCall} (hperm : inTurn.Perm threads.flatten) :
    MetricsInstr.totals y.shared = MetricsInstr.totals (inTurn.foldl CloudMetrics.call m) := by
  have hunread : recording.Seen (aboutToRecord m threads) := by
    intro t ht a rest b _ hb
    obtain ⟨calls, -, rfl⟩ := List.mem_map.1 ht
    cases hb
  have hdrained := (LockFree.drained_run hunread h).1
  have htodo : (aboutToRecord m threads).pending = threads.flatten.flatMap MetricsCall.instrs := by
    show (threads.map fun calls => (⟨calls.flatMap MetricsCall.instrs, none⟩ : LockFree.Thread _ _)).flatMap _ = _
    rw [List.flatMap_map, List.flatten_eq_flatMap, List.flatMap_assoc]
    rfl
  have hinstrs : (inTurn.flatMap MetricsCall.instrs).Perm (threads.flatten.flatMap MetricsCall.instrs) :=
    hperm.flatMap_right _
  rw [foldl_call_eq, totals_foldl]
  refine Eq.trans ?_ (LockFree.foldl_perm (K := recording) hinstrs _).symm
  rw [LockFree.drained, LockFree.drained, hpending, htodo] at hdrained
  exact hdrained

/-- **Calls made at once are counted as calls made in turn, in any order.**  The counters of every operation, the totals
and extremes of its latencies included, and the set of the regions are those of the calls one after another; no call is
counted twice or lost, whichever threads overtake a loop and however often an exchange fails for no reason.  If none
does for ever, the threads come to their end. -/
theorem records_add_up (m : CloudMetrics) (threads : List (List MetricsCall)) {y}
    (h : ReflTransGen recording.Step (aboutToRecord m threads) y) :
    (y.pending = [] → ∀ inTurn : List MetricsCall, inTurn.Perm threads.flatten →
      y.shared.metrics = (inTurn.foldl CloudMetrics.call m).metrics ∧
      ∀ region, region ∈ y.shared.regions ↔ region ∈ (inTurn.foldl CloudMetrics.call m).regions) ∧
    Terminates recording.Work (fun y => y.pending = []) y := by
  refine ⟨fun hpending inTurn hperm => ?_, LockFree.terminates y⟩
  have htotals := totals_recorded m threads h hpending hperm
  exact ⟨congrArg Prod.fst htotals, fun region => Set.ext_iff.1 (congrArg Prod.snd htotals) region⟩

/-- Two threads with a failure each, of 5 ms and of 3 ms. -/
theorem two_failures_add_up : ∃ y, ReflTransGen recording.Step
    (aboutToRecord {} [[.recordFailure .getObject 5], [.recordFailure .getObject 3]]) y ∧ y.pending = [] ∧
      (y.shared.metrics .getObject).failures = 2 ∧ (y.shared.metrics .getObject).totalLatencyMs = 8 ∧
      (y.shared.metrics .getObject).minLatencyMs = 3 ∧ (y.shared.metrics .getObject).maxLatencyMs = 5 := by
  obtain ⟨y, hy, hpending⟩ := (records_add_up {} [[.recordFailure .getObject 5], [.recordFailure .getObject 3]]
    .refl).2.exists_over
  have hrun : ReflTransGen recording.Step
      (aboutToRecord {} [[.recordFailure .getObject 5], [.recordFailure .getObject 3]]) y :=
    hy.lift id fun _ _ hw => .work hw
  have hinTurn := ((records_add_up {} [[.recordFailure .getObject 5], [.recordFailure .getObject 3]] hrun).1 hpending
    [.recordFailure .getObject 5, .recordFailure .getObject 3] (by simp)).1
  refine ⟨y, hrun, hpending, ?_⟩
  rw [hinTurn]
  decide

end Mito
