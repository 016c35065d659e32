import MitoSync.Metrics
import Mathlib.Data.UInt
import Mathlib.Algebra.BigOperators.Group.Finset.Basic
/-!
# SharedMetrics — many processes and one metrics file

Each process loads the file once, counts its own calls on top, and replaces the file by a save, which takes effect at the
rename.  Whatever the processes do, the file is a snapshot that one of them saved (`Snapshot`).  Nothing merges two
snapshots: processes that overlap lose updates (`updates_lost`), and those that do not lose none
(`metrics_accumulate`).
-/
namespace Mito

open Relation

/-! ## Sums of counters -/

instance : Add Counters :=
  ⟨fun a b => ⟨a.calls + b.calls, a.success + b.success, a.failures + b.failures, a.retries + b.retries,
    a.bytesUp + b.bytesUp, a.bytesDown + b.bytesDown, a.bytesServer + b.bytesServer⟩⟩

instance : Zero Counters := ⟨{}⟩

theorem Counters.add_def (a b : Counters) : a + b = ⟨a.calls + b.calls, a.success + b.success, a.failures + b.failures,
    a.retries + b.retries, a.bytesUp + b.bytesUp, a.bytesDown + b.bytesDown, a.bytesServer + b.bytesServer⟩ := rfl

theorem Counters.zero_def : (0 : Counters) = ⟨0, 0, 0, 0, 0, 0, 0⟩ := rfl

instance : AddCommMonoid Counters where
  add_assoc a b c := by simp only [Counters.add_def, add_assoc]
  zero_add a := by simp only [Counters.add_def, Counters.zero_def, zero_add]
  add_zero a := by simp only [Counters.add_def, Counters.zero_def, add_zero]
  add_comm a b := by simp only [Counters.add_def, add_comm]
  nsmul := nsmulRec

/-- What a call counts for an operation. -/
def MetricsCall.counts (op : S3OperationType) : MetricsCall → Counters
  | .recordStart o => if o = op then { calls := 1 } else 0
  | .recordSuccess o _ bytesUp bytesDown bytesServer =>
    if o = op then { success := 1, bytesUp, bytesDown, bytesServer } else 0
  | .recordFailure o _ => if o = op then { failures := 1 } else 0
  | .recordRetry o => if o = op then { retries := 1 } else 0
  | .addServerSideBytes o bytes => if o = op then { bytesServer := bytes } else 0
  | .addRegion _ => 0

def recorded (calls : List MetricsCall) (op : S3OperationType) : Counters :=
  (calls.map (MetricsCall.counts op)).sum

/-! ## The processes -/

inductive MetricsPhase
  | waiting
  /-- between its load and its save -/
  | running (m : CloudMetrics)
  | saved
  /-- its save failed -/
  | ended

/-- A process, with the calls it has counted. -/
structure MetricsProcess where
  phase : MetricsPhase := .waiting
  own : List MetricsCall := []

/-- `n` processes and the file they share. -/
structure SharedState (lib : JsonLibrary) (n : Nat) where
  file : Option lib.Text
  processes : Fin n → MetricsProcess := fun _ => {}

section Steps

variable {lib : JsonLibrary} {n : Nat}

def SharedState.set (s : SharedState lib n) (i : Fin n) (p : MetricsProcess) : SharedState lib n :=
  { s with processes := Function.update s.processes i p }

@[simp] theorem SharedState.set_file (s : SharedState lib n) (i : Fin n) (p : MetricsProcess) :
    (s.set i p).file = s.file := rfl

@[simp] theorem SharedState.set_self (s : SharedState lib n) (i : Fin n) (p : MetricsProcess) :
    (s.set i p).processes i = p := Function.update_self ..

theorem SharedState.set_of_ne (s : SharedState lib n) {i j : Fin n} (h : j ≠ i) (p : MetricsProcess) :
    (s.set i p).processes j = s.processes j := Function.update_of_ne h ..

/-- A step of process `i`; a save is told what it saves. -/
inductive MetricsStep (OfSave : SharedState lib n → Fin n → CloudMetrics → Prop) :
    SharedState lib n → SharedState lib n → Prop
  | load {s : SharedState lib n} (i : Fin n) (h : s.processes i = {}) :
      MetricsStep OfSave s (s.set i { phase := .running (({} : CloudMetrics).load lib s.file).1 })
  | record {s : SharedState lib n} (i : Fin n) {m : CloudMetrics} {own : List MetricsCall} (c : MetricsCall)
      (h : s.processes i = ⟨.running m, own⟩) :
      MetricsStep OfSave s (s.set i ⟨.running (m.call c), own ++ [c]⟩)
  | save {s : SharedState lib n} (i : Fin n) {m : CloudMetrics} {own : List MetricsCall} (savedAt : Str)
      {text : lib.Text} (h : s.processes i = ⟨.running m, own⟩) (hsave : m.save lib savedAt = some text)
      (hof : OfSave s i m) :
      MetricsStep OfSave s { s.set i ⟨.saved, own⟩ with file := some text }
  | fail {s : SharedState lib n} (i : Fin n) {m : CloudMetrics} {own : List MetricsCall}
      (h : s.processes i = ⟨.running m, own⟩) : MetricsStep OfSave s (s.set i ⟨.ended, own⟩)

/-- Any interleaving. -/
def Anyhow (_ : SharedState lib n) (_ : Fin n) (_ : CloudMetrics) : Prop := True

/-- No other process is between its load and its save. -/
def Alone (s : SharedState lib n) (i : Fin n) (_ : CloudMetrics) : Prop :=
  ∀ j ≠ i, ∀ m, (s.processes j).phase ≠ .running m

/-- Alone, and the operation has been called where anything is counted for it. -/
def AloneCalled (op : S3OperationType) (s : SharedState lib n) (i : Fin n) (m : CloudMetrics) : Prop :=
  Alone s i m ∧ ((m.metrics op).calls = 0 → (m.metrics op).toCounters = 0)

/-- What a load reads. -/
def fileCounters (lib : JsonLibrary) (file : Option lib.Text) (op : S3OperationType) : Counters :=
  ((({} : CloudMetrics).load lib file).1.metrics op).toCounters

/-- The file a run starts from, or one that a process saved: a snapshot it loaded with its own calls on top. -/
inductive Snapshot (lib : JsonLibrary) (initial : Option lib.Text) : Option lib.Text → Prop
  | initial : Snapshot lib initial initial
  | saved {file : Option lib.Text} (h : Snapshot lib initial file) (own : List MetricsCall) (savedAt : Str)
      {text : lib.Text}
      (hsave : (own.foldl CloudMetrics.call (({} : CloudMetrics).load lib file).1).save lib savedAt = some text) :
      Snapshot lib initial (some text)

end Steps

/-! ## What a call adds -/

theorem modify_counters (m : CloudMetrics) (o : S3OperationType) (f : OperationMetrics → OperationMetrics)
    {op : S3OperationType} (hop : op ≠ .count) : ((m.modify o f).metrics op).toCounters =
      if o = op then (f (m.metrics op)).toCounters else (m.metrics op).toCounters := by
  unfold CloudMetrics.modify
  by_cases hcount : o = .count
  · rw [if_pos hcount, if_neg (fun h => hop (h.symm.trans hcount))]
  · rw [if_neg hcount]
    by_cases ho : o = op
    · subst ho
      dsimp only
      rw [if_pos rfl, Function.update_self]
    · rw [if_neg ho]
      dsimp only
      rw [Function.update_of_ne (Ne.symm ho)]

theorem call_counters (m : CloudMetrics) (c : MetricsCall) {op : S3OperationType} (hop : op ≠ .count) :
    ((m.call c).metrics op).toCounters = (m.metrics op).toCounters + c.counts op := by
  have hadd : ∀ o (d : Counters) (f : OperationMetrics → OperationMetrics),
      (∀ x, (f x).toCounters = x.toCounters + d) →
      ((m.modify o f).metrics op).toCounters = (m.metrics op).toCounters + if o = op then d else 0 := by
    intro o d f hf
    rw [modify_counters m o f hop]
    split
    · exact hf _
    · exact (add_zero _).symm
  cases c with
  | recordStart o => exact hadd o _ _ fun x => by simp [Counters.add_def]
  | recordSuccess o latencyMs bytesUp bytesDown bytesServer =>
    exact hadd o _ _ fun x => by simp [Counters.add_def, CloudMetrics.addLatency]
  | recordFailure o latencyMs => exact hadd o _ _ fun x => by simp [Counters.add_def, CloudMetrics.addLatency]
  | recordRetry o => exact hadd o _ _ fun x => by simp [Counters.add_def]
  | addServerSideBytes o bytes =>
    by_cases hbytes : bytes = 0
    · subst hbytes
      have hzero : MetricsCall.counts op (.addServerSideBytes o 0) = 0 := by
        change (if o = op then ({ bytesServer := 0 } : Counters) else 0) = 0
        split <;> rfl
      rw [hzero, add_zero]
      rfl
    · have hmodify : m.call (.addServerSideBytes o bytes) =
          m.modify o fun x => { x with bytesServer := x.bytesServer + bytes } := if_neg hbytes
      rw [hmodify]
      exact hadd o _ _ fun x => by simp [Counters.add_def]
  | addRegion region =>
    have hsame : ((m.call (.addRegion region)).metrics op) = m.metrics op := by
      change (m.addRegion region).metrics op = m.metrics op
      unfold CloudMetrics.addRegion
      split <;> rfl
    rw [hsame]
    exact (add_zero _).symm

theorem recorded_concat (own : List MetricsCall) (c : MetricsCall) (op : S3OperationType) :
    recorded (own ++ [c]) op = recorded own op + c.counts op := by
  simp [recorded]

/-- What a load reads of a file that was just saved. -/
theorem fileCounters_saved {lib : JsonLibrary} {m : CloudMetrics} {savedAt : Str} {text : lib.Text}
    (h : m.save lib savedAt = some text) {op : S3OperationType} (hunknown : op ≠ .unknown) (hcount : op ≠ .count) :
    fileCounters lib (some text) op = if (m.metrics op).calls = 0 then 0 else (m.metrics op).toCounters := by
  rw [fileCounters, (load_saved m {} lib savedAt h).2.2 op]
  by_cases hcalls : (m.metrics op).calls = 0
  · rw [if_pos hcalls, if_neg (by simp [hcalls])]
    rfl
  · rw [if_neg hcalls, if_pos ⟨⟨hcount, hcalls⟩, hunknown⟩]

/-! ## Every run -/

section Runs

variable {lib : JsonLibrary} {n : Nat} {initial : Option lib.Text} {OfSave : SharedState lib n → Fin n → CloudMetrics → Prop}
  {s t : SharedState lib n}

/-- The file is a snapshot, and so is what each running process counts on. -/
structure Whole (initial : Option lib.Text) (s : SharedState lib n) : Prop where
  file : Snapshot lib initial s.file
  running : ∀ i m own, s.processes i = ⟨.running m, own⟩ → ∃ file, Snapshot lib initial file ∧
    m = own.foldl CloudMetrics.call (({} : CloudMetrics).load lib file).1

theorem Whole.set (h : Whole initial s) (i : Fin n) (p : MetricsProcess)
    (hp : ∀ m own, p = ⟨.running m, own⟩ → ∃ file, Snapshot lib initial file ∧
      m = own.foldl CloudMetrics.call (({} : CloudMetrics).load lib file).1) : Whole initial (s.set i p) := by
  refine ⟨h.file, fun j m own hj => ?_⟩
  by_cases hij : j = i
  · subst hij
    rw [SharedState.set_self] at hj
    exact hp m own hj
  · rw [SharedState.set_of_ne _ hij] at hj
    exact h.running j m own hj

theorem Whole.step (h : Whole initial s) (hst : MetricsStep OfSave s t) : Whole initial t := by
  cases hst with
  | load i hi =>
    refine h.set i _ fun m own hp => ?_
    obtain ⟨hm, rfl⟩ := MetricsProcess.mk.inj hp
    obtain rfl := MetricsPhase.running.inj hm
    exact ⟨s.file, h.file, rfl⟩
  | record i c hi =>
    rename_i m₀ own₀
    refine h.set i _ fun m own hp => ?_
    obtain ⟨hm, rfl⟩ := MetricsProcess.mk.inj hp
    obtain rfl := MetricsPhase.running.inj hm
    obtain ⟨file, hfile, rfl⟩ := h.running i m₀ own₀ hi
    exact ⟨file, hfile, by rw [List.foldl_append]; rfl⟩
  | save i savedAt hi hsave hof =>
    rename_i m own text
    obtain ⟨file, hfile, rfl⟩ := h.running i m own hi
    have hset := h.set i ⟨.saved, own⟩ fun m' own' hp => absurd (MetricsProcess.mk.inj hp).1 (by simp)
    exact ⟨.saved hfile own savedAt hsave, hset.running⟩
  | fail i hi => exact h.set i _ fun m' own' hp => absurd (MetricsProcess.mk.inj hp).1 (by simp)

theorem Whole.run (hrun : ReflTransGen (MetricsStep OfSave) ⟨initial, fun _ => {}⟩ s) : Whole initial s := by
  induction hrun with
  | refl => exact ⟨.initial, fun i m own hi => absurd (MetricsProcess.mk.inj hi).1 (by simp)⟩
  | tail _ hst ih => exact ih.step hst

/-! ## A run in which no two processes overlap -/

def MetricsProcess.savedCounters (op : S3OperationType) (p : MetricsProcess) : Counters :=
  match p.phase with
  | .saved => recorded p.own op
  | _ => 0

theorem MetricsProcess.savedCounters_of_ne {op : S3OperationType} {p : MetricsProcess} (h : p.phase ≠ .saved) :
    p.savedCounters op = 0 := by
  unfold MetricsProcess.savedCounters
  cases hp : p.phase with
  | saved => exact absurd hp h
  | _ => rfl

section Measured

variable {A : Type} [AddCommMonoid A] {π : Counters →+ A} {op : S3OperationType}

/-- The file has what it started with and what the saved processes counted, and a running process counts on the file. -/
structure Summed (π : Counters →+ A) (op : S3OperationType) (initial : Option lib.Text) (s : SharedState lib n) :
    Prop where
  total : π (fileCounters lib s.file op) = π (fileCounters lib initial op) +
    ∑ i, π ((s.processes i).savedCounters op)
  running : ∀ i m own, s.processes i = ⟨.running m, own⟩ →
    π (m.metrics op).toCounters = π (fileCounters lib s.file op) + π (recorded own op)

/-- A process that had not saved adds what it has saved now. -/
theorem sum_set (π : Counters →+ A) (s : SharedState lib n) (i : Fin n) (p : MetricsProcess)
    (h : (s.processes i).phase ≠ .saved) : ∑ j, π (((s.set i p).processes j).savedCounters op) =
      (∑ j, π ((s.processes j).savedCounters op)) + π (p.savedCounters op) := by
  have hothers : ∀ j ∈ Finset.univ.erase i, π (((s.set i p).processes j).savedCounters op) =
      π ((s.processes j).savedCounters op) := fun j hj => by rw [s.set_of_ne (Finset.ne_of_mem_erase hj)]
  rw [← Finset.add_sum_erase _ _ (Finset.mem_univ i), ← Finset.add_sum_erase _ _ (Finset.mem_univ i),
    Finset.sum_congr rfl hothers, s.set_self, MetricsProcess.savedCounters_of_ne h, map_zero, zero_add, add_comm]

/-- A process that neither had saved nor saves. -/
theorem Summed.set (h : Summed π op initial s) (i : Fin n) (p : MetricsProcess) (hi : (s.processes i).phase ≠ .saved)
    (hp : p.phase ≠ .saved) (hrunning : ∀ m own, p = ⟨.running m, own⟩ →
      π (m.metrics op).toCounters = π (fileCounters lib s.file op) + π (recorded own op)) :
    Summed π op initial (s.set i p) := by
  refine ⟨?_, fun j m own hj => ?_⟩
  · rw [sum_set π s i p hi, MetricsProcess.savedCounters_of_ne hp, map_zero, add_zero]
    exact h.total
  · by_cases hij : j = i
    · subst hij
      rw [SharedState.set_self] at hj
      exact hrunning m own hj
    · rw [SharedState.set_of_ne _ hij] at hj
      exact h.running j m own hj

theorem Summed.step (hcount : op ≠ .count) (hof : ∀ s i m savedAt text, OfSave s i m →
      m.save lib savedAt = some text → Alone s i m ∧
        π (fileCounters lib (some text) op) = π (m.metrics op).toCounters)
    (h : Summed π op initial s) (hst : MetricsStep OfSave s t) : Summed π op initial t := by
  cases hst with
  | load i hi =>
    refine h.set i _ (by simp [hi]) (by simp) fun m own hp => ?_
    obtain ⟨hm, rfl⟩ := MetricsProcess.mk.inj hp
    obtain rfl := MetricsPhase.running.inj hm
    exact (add_zero _).symm.trans (congrArg (_ + ·) (map_zero π).symm)
  | record i c hi =>
    rename_i m₀ own₀
    refine h.set i _ (by simp [hi]) (by simp) fun m own hp => ?_
    obtain ⟨hm, rfl⟩ := MetricsProcess.mk.inj hp
    obtain rfl := MetricsPhase.running.inj hm
    rw [call_counters m₀ c hcount, recorded_concat, map_add, map_add, h.running i m₀ own₀ hi, add_assoc]
  | save i savedAt hi hsave hs =>
    rename_i m own text
    obtain ⟨halone, hkept⟩ := hof s i m savedAt text hs hsave
    refine ⟨?_, fun j m' own' hj => ?_⟩
    · have hsum := @sum_set _ _ _ _ op π s i ⟨.saved, own⟩ (by simp [hi])
      calc π (fileCounters lib (some text) op)
          = π (fileCounters lib s.file op) + π (recorded own op) := hkept.trans (h.running i m own hi)
        _ = π (fileCounters lib initial op) + ((∑ j, π ((s.processes j).savedCounters op)) + π (recorded own op)) := by
          rw [h.total, add_assoc]
        _ = _ := congrArg _ hsum.symm
    · -- the others are not running, and the one that saved runs no more
      by_cases hij : j = i
      · subst hij
        rw [show _ = _ from SharedState.set_self s j ⟨.saved, own⟩] at hj
        exact absurd (MetricsProcess.mk.inj hj).1 (by simp)
      · have hsame : s.processes j = ⟨.running m', own'⟩ := (s.set_of_ne hij ⟨.saved, own⟩).symm.trans hj
        exact absurd (by rw [hsame]) (halone j hij m')
  | fail i hi =>
    exact h.set i _ (by simp [hi]) (by simp) fun m' own' hp => absurd (MetricsProcess.mk.inj hp).1 (by simp)

theorem Summed.run (hcount : op ≠ .count) (hof : ∀ s i m savedAt text, OfSave s i m →
      m.save lib savedAt = some text → Alone s i m ∧
        π (fileCounters lib (some text) op) = π (m.metrics op).toCounters)
    (hrun : ReflTransGen (MetricsStep OfSave) ⟨initial, fun _ => {}⟩ s) : Summed π op initial s := by
  induction hrun with
  | refl =>
    refine ⟨?_, fun i m own hi => absurd (MetricsProcess.mk.inj hi).1 (by simp)⟩
    have hnone : ∀ i : Fin n, π (((fun _ => {} : Fin n → MetricsProcess) i).savedCounters op) = 0 :=
      fun _ => map_zero π
    rw [Finset.sum_congr rfl fun i _ => hnone i, Finset.sum_const_zero, add_zero]
  | tail _ hst ih => exact ih.step hcount hof hst

/-- When all have saved, the file has everything they recorded. -/
theorem Summed.all_saved (h : Summed π op initial s) (hsaved : ∀ i, (s.processes i).phase = .saved) :
    π (fileCounters lib s.file op) = π (fileCounters lib initial op) + ∑ i, π (recorded (s.processes i).own op) := by
  rw [h.total]
  refine congrArg _ (Finset.sum_congr rfl fun i _ => ?_)
  rw [MetricsProcess.savedCounters, hsaved i]

end Measured

end Runs

/-! ## The law -/

def callsOf : Counters →+ UInt64 where
  toFun := Counters.calls
  map_zero' := rfl
  map_add' _ _ := rfl

/-- **The file is always a snapshot that one process saved, and non-overlapping processes lose no call**; nor any other
counter, where the operations a save counts anything for have been called. -/
theorem metrics_accumulate (lib : JsonLibrary) {n : Nat} (initial : Option lib.Text) :
    (∀ s : SharedState lib n, ReflTransGen (MetricsStep Anyhow) ⟨initial, fun _ => {}⟩ s →
      Snapshot lib initial s.file) ∧
    ∀ op, op ≠ .unknown → op ≠ .count →
      (∀ s : SharedState lib n, ReflTransGen (MetricsStep Alone) ⟨initial, fun _ => {}⟩ s →
        (∀ i, (s.processes i).phase = .saved) → (fileCounters lib s.file op).calls =
          (fileCounters lib initial op).calls + ∑ i, (recorded (s.processes i).own op).calls) ∧
      (∀ s : SharedState lib n, ReflTransGen (MetricsStep (AloneCalled op)) ⟨initial, fun _ => {}⟩ s →
        (∀ i, (s.processes i).phase = .saved) → fileCounters lib s.file op =
          fileCounters lib initial op + ∑ i, recorded (s.processes i).own op) := by
  refine ⟨fun s hrun => (Whole.run hrun).file, fun op hunknown hcount => ⟨fun s hrun hsaved => ?_, fun s hrun hsaved => ?_⟩⟩
  · have hkept : ∀ (s : SharedState lib n) i m savedAt text, Alone s i m → m.save lib savedAt = some text →
        Alone s i m ∧ callsOf (fileCounters lib (some text) op) = callsOf (m.metrics op).toCounters := by
      intro s i m savedAt text halone hsave
      refine ⟨halone, ?_⟩
      rw [fileCounters_saved hsave hunknown hcount]
      split
      · rename_i hcalls
        exact hcalls.symm
      · rfl
    exact (Summed.run hcount hkept hrun).all_saved hsaved
  · have hkept : ∀ (s : SharedState lib n) i m savedAt text, AloneCalled op s i m → m.save lib savedAt = some text →
        Alone s i m ∧ AddMonoidHom.id Counters (fileCounters lib (some text) op) =
          AddMonoidHom.id Counters (m.metrics op).toCounters := by
      intro s i m savedAt text halone hsave
      refine ⟨halone.1, ?_⟩
      rw [fileCounters_saved hsave hunknown hcount]
      split
      · rename_i hcalls
        rw [halone.2 hcalls]
      · rfl
    exact (Summed.run hcount hkept hrun).all_saved hsaved

/-! ### Two processes -/

def twoProcesses : SharedState plainJson 2 := { file := none }

/-- One process after the other. -/
theorem metrics_accumulate_two : ∃ s, ReflTransGen (MetricsStep Alone) twoProcesses s ∧
    (fileCounters plainJson s.file .getObject).calls = 2 := by
  have hstart : ReflTransGen (MetricsStep Alone) twoProcesses twoProcesses := .refl
  have hfirst := ((hstart.tail (.load 0 rfl)).tail
    (.record 0 (.recordStart .getObject) rfl)).tail (.save 0 [] rfl rfl (by
      simp [Alone, Fin.forall_fin_two, SharedState.set, twoProcesses]))
  have hsecond := ((hfirst.tail (.load 1 rfl)).tail (.record 1 (.recordStart .getObject) rfl)).tail
    (.save 1 [] rfl rfl (by simp [Alone, Fin.forall_fin_two, SharedState.set, twoProcesses]))
  refine ⟨_, hsecond, ?_⟩
  exact ((metrics_accumulate plainJson none).2 .getObject (by decide) (by decide)).1 _ hsecond
    (Fin.forall_fin_two.2 ⟨rfl, rfl⟩)

/-- Both load before either saves: the second save replaces the first. -/
theorem updates_lost : ¬ ∀ s, ReflTransGen (MetricsStep Anyhow) twoProcesses s →
    (∀ i, (s.processes i).phase = .saved) → fileCounters plainJson s.file .getObject =
      fileCounters plainJson none .getObject + ∑ i, recorded (s.processes i).own .getObject := by
  intro h
  have hstart : ReflTransGen (MetricsStep Anyhow) twoProcesses twoProcesses := .refl
  have hloads := (hstart.tail (.load 0 rfl)).tail (.load 1 rfl)
  have hrecords := (hloads.tail (.record 0 (.recordStart .getObject) rfl)).tail
    (.record 1 (.recordStart .getObject) rfl)
  have hsaves := (hrecords.tail (.save 0 [] rfl rfl trivial)).tail (.save 1 [] rfl rfl trivial)
  have htotal := h _ hsaves (Fin.forall_fin_two.2 ⟨rfl, rfl⟩)
  have hsave : ((({} : CloudMetrics).load plainJson none).1.call (.recordStart .getObject)).save plainJson [] =
    some _ := rfl
  have hfile := @fileCounters_saved _ _ _ _ hsave .getObject (by decide) (by decide)
  exact absurd (hfile.symm.trans htotal) (by decide)

end Mito
