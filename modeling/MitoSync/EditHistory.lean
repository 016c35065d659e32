import MitoSync.Planner
import MitoSync.Slot
/-!
# EditHistory — edits of the source between the steps of sync runs

A history of edits and runs under one clock of whole seconds.  A run lists each side of a path, plans, reads what it is
to transfer, and writes it some time later, stamped with the second of the write; other runs may do the same meanwhile.
The planner takes a copy of the source's size and a later time for the source.  A version of the source is awaited where
a plan may still compare the destination with it (`Awaits`), and as long as no write passes for an awaited version that
it is not (`Spares`), every skip is right (`edits_not_hidden`).  Any other write can be skipped over in its stead
(`hidden_of_not_spares`).
-/
namespace Mito

open Relation

/-- What a run has listed of either side of a path, where it has (`none` in it for an absent file), and what it has read
of it. -/
structure SyncRun where
  source : Str → Option (Option Stored) := fun _ => none
  dest : Str → Option (Option Stored) := fun _ => none
  read : Str → Option Bytes := fun _ => none

structure History where
  now : Int
  source : Str → Option Stored
  dest : Str → Option Stored := fun _ => none
  run : Nat → SyncRun := fun _ => {}

inductive Event
  | tick (now : Int)
  | edit (p : Str) (bytes : Bytes)
  | listSource (i : Nat) (p : Str)
  | listDest (i : Nat) (p : Str)
  | read (i : Nat) (p : Str)
  | write (i : Nat) (p : Str)

def Stored.info (v : Stored) : SyncEntryInfo := ⟨v.bytes.length, v.mtime⟩

/-- The entry an enumerator makes of a file or an object. -/
def Stored.listed (v : Stored) (p : Str) : DirectoryEntry := ⟨p, v.bytes.length, v.mtime⟩

/-- A run that has listed both sides of a path and is to transfer it. -/
def SyncRun.Transfers (r : Roles) (run : SyncRun) (p : Str) : Prop :=
  ∃ v d, run.source p = some (some v) ∧ run.dest p = some d ∧
    sourceAction r (v.listed p) (d.map Stored.info) ≠ .skip

namespace History

def setRun (x : History) (i : Nat) (run : SyncRun) : History := { x with run := Function.update x.run i run }

def setDest (x : History) (p : Str) (d : Stored) : History := { x with dest := Function.update x.dest p (some d) }

/-- What a step does.  A write leaves what the run has read, stamped with the current second. -/
def after (x : History) : Event → History
  | .tick now => { x with now := now }
  | .edit p bytes => { x with source := Function.update x.source p (some ⟨bytes, x.now⟩) }
  | .listSource i p => x.setRun i { x.run i with source := Function.update (x.run i).source p (some (x.source p)) }
  | .listDest i p => x.setRun i { x.run i with dest := Function.update (x.run i).dest p (some (x.dest p)) }
  | .read i p =>
    x.setRun i { x.run i with read := Function.update (x.run i).read p ((x.source p).map Stored.bytes) }
  | .write i p =>
    match (x.run i).read p with
    | some bytes => x.setDest p ⟨bytes, x.now⟩
    | none => x

/-- The steps that may come next: the clock does not go back, a file edited in place is there, and a run lists a side of
a path once and reads what it has planned to transfer. -/
def Allows (r : Roles) (x : History) : Event → Prop
  | .tick now => x.now ≤ now
  | .edit p _ => x.source p ≠ none
  | .listSource i p => (x.run i).source p = none
  | .listDest i p => (x.run i).dest p = none
  | .read i p => (x.run i).Transfers r p
  | .write i p => (x.run i).read p ≠ none

/-- A history of allowed steps, each of which meets `P`. -/
def Reaches (r : Roles) (P : History → Event → Prop) : History → History → Prop :=
  ReflTransGen fun x y => ∃ e, x.Allows r e ∧ P x e ∧ y = x.after e

end History

/-- The entries of a listing are of what the run has listed. -/
def Lists (known : Str → Option (Option Stored)) (es : List DirectoryEntry) : Prop :=
  ∀ e ∈ es, ∃ v, known e.relativePath = some (some v) ∧ e = v.listed e.relativePath

/-- **A skip is right**: whatever run plans it, the destination had the bytes that the source had, each when the run
listed it. -/
def History.SkipsRightly (r : Roles) (x : History) : Prop :=
  ∀ i deleteOrphans src dst f, Lists (x.run i).source src → Lists (x.run i).dest dst →
    f ∈ planEntries r deleteOrphans src dst → f.action = .skip →
    ∃ v d, (x.run i).source f.relativePath = some (some v) ∧ (x.run i).dest f.relativePath = some (some d) ∧
      d.bytes = v.bytes

/-! ## What keeps the skips right -/

/-- A copy that passes for a version of the source is one. -/
def Stored.Tells (d v : Stored) : Prop :=
  d.bytes.length = v.bytes.length → destinationIsCurrent v.mtime d.mtime = true → d.bytes = v.bytes

namespace History

/-- A version that a plan may still compare the destination with: the source's, or one that a run has listed which has
not listed the destination yet. -/
def Awaits (x : History) (p : Str) (v : Stored) : Prop :=
  x.source p = some v ∨ ∃ j, (x.run j).source p = some (some v) ∧ (x.run j).dest p = none

/-- A write does not pass for a version that it is not. -/
def Spares (x : History) : Event → Prop
  | .write i p => ∀ bytes v, (x.run i).read p = some bytes → x.Awaits p v → Stored.Tells ⟨bytes, x.now⟩ v
  | _ => True

/-- The version of the source that a run has listed or may list. -/
def sees (x : History) (i : Nat) (p : Str) : Option Stored := ((x.run i).source p).getD (x.source p)

/-- The copy that a run has listed or may list. -/
def holds (x : History) (i : Nat) (p : Str) : Option Stored := ((x.run i).dest p).getD (x.dest p)

/-- The invariant: no copy that a run may compare passes for a version that it is not. -/
structure Told (x : History) : Prop where
  stamped : ∀ p d, x.dest p = some d → d.mtime ≤ x.now
  held : ∀ i p d, x.holds i p = some d → d.mtime ≤ x.now
  current : ∀ p v d, x.source p = some v → x.dest p = some d → d.Tells v
  compared : ∀ i p v d, x.sees i p = some v → x.holds i p = some d → d.Tells v

variable {r : Roles} {x y : History}

theorem told_start (now : Int) (source : Str → Option Stored) : Told { now := now, source := source } := by
  constructor <;> simp [holds]

/-- A copy does not pass for a version that is no older. -/
theorem tells_now {d : Stored} {bytes : Bytes} {now : Int} (h : d.mtime ≤ now) : d.Tells ⟨bytes, now⟩ := by
  intro _ hc
  rw [destinationIsCurrent_iff] at hc
  exact absurd hc.2.2 (not_lt.2 h)

theorem after_write {i : Nat} {p : Str} {bytes : Bytes} (hb : (x.run i).read p = some bytes) :
    x.after (.write i p) = x.setDest p ⟨bytes, x.now⟩ := by
  simp only [History.after, hb]

theorem run_setRun (x : History) (i j : Nat) (run : SyncRun) :
    (x.setRun i run).run j = if j = i then run else x.run j := by
  unfold setRun
  by_cases hj : j = i <;> simp [hj]

/-- A run that keeps what it may list and what it may compare is no matter to the others. -/
theorem Told.setRun (h : x.Told) {i : Nat} {run : SyncRun}
    (hs : ∀ p, (run.source p).getD (x.source p) = x.sees i p) (hd : ∀ p, (run.dest p).getD (x.dest p) = x.holds i p) :
    (x.setRun i run).Told := by
  have hsees : ∀ j p, (x.setRun i run).sees j p = x.sees j p := by
    intro j p
    unfold sees
    rw [run_setRun]
    split
    · rename_i hj
      rw [hj]
      exact hs p
    · rfl
  have hholds : ∀ j p, (x.setRun i run).holds j p = x.holds j p := by
    intro j p
    unfold holds
    rw [run_setRun]
    split
    · rename_i hj
      rw [hj]
      exact hd p
    · rfl
  refine ⟨h.stamped, fun j p d hp => ?_, h.current, fun j p v d hv hp => ?_⟩
  · rw [hholds] at hp
    exact h.held j p d hp
  · rw [hsees] at hv
    rw [hholds] at hp
    exact h.compared j p v d hv hp

/-- What a run sees of a changed source is what it saw, or the change. -/
theorem sees_cases {y : History} {i : Nat} {q : Str} {v : Stored} (hrun : (y.run i).source q = (x.run i).source q)
    (h : y.sees i q = some v) : x.sees i q = some v ∨ (x.run i).source q = none ∧ y.source q = some v := by
  unfold sees at h ⊢
  rw [hrun] at h
  cases hl : (x.run i).source q with
  | none => rw [hl] at h; exact .inr ⟨rfl, h⟩
  | some listed => rw [hl] at h; exact .inl h

theorem holds_cases {y : History} {i : Nat} {q : Str} {d : Stored} (hrun : (y.run i).dest q = (x.run i).dest q)
    (h : y.holds i q = some d) : x.holds i q = some d ∨ (x.run i).dest q = none ∧ y.dest q = some d := by
  unfold holds at h ⊢
  rw [hrun] at h
  cases hl : (x.run i).dest q with
  | none => rw [hl] at h; exact .inr ⟨rfl, h⟩
  | some listed => rw [hl] at h; exact .inl h

theorem update_cases {f : Str → Option Stored} {p q : Str} {v u : Stored}
    (h : Function.update f p (some v) q = some u) : q = p ∧ u = v ∨ f q = some u := by
  by_cases hq : q = p
  · subst hq
    rw [Function.update_self] at h
    exact .inl ⟨rfl, (Option.some.inj h).symm⟩
  · rw [Function.update_of_ne hq] at h
    exact .inr h

/-- An edit is no older than any copy. -/
theorem Told.edit (h : x.Told) (p : Str) (bytes : Bytes) : (x.after (.edit p bytes)).Told := by
  refine ⟨h.stamped, h.held, fun q v d hv hd => ?_, fun i q v d hv hd => ?_⟩
  · rcases update_cases hv with ⟨-, rfl⟩ | hv
    · exact tells_now (h.stamped q d hd)
    · exact h.current q v d hv hd
  · rcases sees_cases (x := x) (y := x.after (.edit p bytes)) rfl hv with hv | ⟨hl, hv⟩
    · exact h.compared i q v d hv hd
    · rcases update_cases hv with ⟨-, rfl⟩ | hv
      · exact tells_now (h.held i q d hd)
      · exact h.compared i q v d (by rw [sees, hl]; exact hv) hd

/-- A write that passes for no awaited version that it is not. -/
theorem Told.write (h : x.Told) {p : Str} {bytes : Bytes} (hs : ∀ v, x.Awaits p v → Stored.Tells ⟨bytes, x.now⟩ v) :
    (x.setDest p ⟨bytes, x.now⟩).Told := by
  refine ⟨fun q d hd => ?_, fun j q d hd => ?_, fun q v d hv hd => ?_, fun j q v d hv hd => ?_⟩
  · rcases update_cases hd with ⟨-, rfl⟩ | hd
    · exact le_refl _
    · exact h.stamped q d hd
  · rcases holds_cases (x := x) (y := x.setDest p ⟨bytes, x.now⟩) rfl hd with hd | ⟨-, hd⟩
    · exact h.held j q d hd
    · rcases update_cases hd with ⟨-, rfl⟩ | hd
      · exact le_refl _
      · exact h.stamped q d hd
  · rcases update_cases hd with ⟨rfl, rfl⟩ | hd
    · exact hs v (.inl hv)
    · exact h.current q v d hv hd
  · have hv' : x.sees j q = some v := hv
    rcases holds_cases (x := x) (y := x.setDest p ⟨bytes, x.now⟩) rfl hd with hd | ⟨hl, hd⟩
    · exact h.compared j q v d hv' hd
    · rcases update_cases hd with ⟨rfl, rfl⟩ | hd
      · apply hs
        unfold sees at hv'
        cases hsrc : (x.run j).source q with
        | none => rw [hsrc] at hv'; exact .inl hv'
        | some listed => rw [hsrc] at hv'; exact .inr ⟨j, hsrc.trans (congrArg some hv'), hl⟩
      · exact h.compared j q v d hv' (by rw [holds, hl]; exact hd)

/-- **Every step that spares the awaited versions keeps the invariant.** -/
theorem Told.after (h : x.Told) {e : Event} (ha : x.Allows r e) (hs : x.Spares e) : (x.after e).Told := by
  cases e with
  | tick now =>
    exact ⟨fun p d hp => (h.stamped p d hp).trans ha, fun i p d hp => (h.held i p d hp).trans ha, h.current, h.compared⟩
  | edit p bytes => exact h.edit p bytes
  | listSource i p =>
    refine h.setRun (fun q => ?_) fun q => rfl
    show (Function.update (x.run i).source p (some (x.source p)) q).getD (x.source q) = x.sees i q
    by_cases hq : q = p
    · subst hq
      have hnone : (x.run i).source q = none := ha
      simp [sees, hnone]
    · rw [Function.update_of_ne hq, sees]
  | listDest i p =>
    refine h.setRun (fun q => rfl) fun q => ?_
    show (Function.update (x.run i).dest p (some (x.dest p)) q).getD (x.dest q) = x.holds i q
    by_cases hq : q = p
    · subst hq
      have hnone : (x.run i).dest q = none := ha
      simp [holds, hnone]
    · rw [Function.update_of_ne hq, holds]
  | read i p => exact h.setRun (fun q => rfl) fun q => rfl
  | write i p =>
    obtain ⟨bytes, hb⟩ := Option.ne_none_iff_exists'.1 ha
    rw [after_write hb]
    exact h.write fun v => hs bytes v hb

theorem Told.reaches (h : x.Told) (hr : Reaches r Spares x y) : y.Told := by
  induction hr with
  | refl => exact h
  | tail _ hs ih =>
    obtain ⟨e, ha, hspare, rfl⟩ := hs
    exact ih.after ha hspare

/-- Under the invariant every skip is right. -/
theorem Told.skipsRightly (h : x.Told) : x.SkipsRightly r := by
  intro i del src dst f hsrc hdst hf ha
  obtain ⟨e, he, rfl, info, hinfo, hsize, hcur⟩ := planEntries_skip hf ha
  rw [sourceLine_path]
  obtain ⟨v, hv, hev⟩ := hsrc e he
  obtain ⟨d, hd, hed⟩ := hdst _ (infoMap_eq_some hinfo)
  refine ⟨v, d, hv, hd, h.compared i e.relativePath v d (by rw [sees, hv]; rfl) (by rw [holds, hd]; rfl) ?_ ?_⟩
  · have hes : e.size = v.bytes.length := congrArg DirectoryEntry.size hev
    have hds : info.size = d.bytes.length := congrArg DirectoryEntry.size hed
    omega
  · have hem : e.mtime = v.mtime := congrArg DirectoryEntry.mtime hev
    have hdm : info.mtime = d.mtime := congrArg DirectoryEntry.mtime hed
    rw [← hem, ← hdm]
    exact hcur

theorem Reaches.step {P : History → Event → Prop} (h : Reaches r P x y) (e : Event) (ha : y.Allows r e) (hp : P y e) :
    Reaches r P x (y.after e) := h.tail ⟨e, ha, hp, rfl⟩

/-- **No edit is lost behind a skip**, in a history from an empty destination whose writes pass for no version of the
source that they are not. -/
theorem edits_not_hidden {now : Int} {source : Str → Option Stored}
    (h : Reaches r Spares { now := now, source := source } x) : x.SkipsRightly r :=
  ((told_start now source).reaches h).skipsRightly

/-- The file `a` from an empty destination on, through some steps. -/
def onePath (es : List Event) : History :=
  es.foldl History.after { now := 10, source := fun p => if p = ['a'] then some ⟨[1], 5⟩ else none }

def firstTransfer : List Event :=
  [.listSource 0 ['a'], .listDest 0 ['a'], .read 0 ['a'], .tick 12, .write 0 ['a'], .listSource 1 ['a'], .listDest 1 ['a']]

theorem firstTransfer_spares :
    (onePath [.listSource 0 ['a'], .listDest 0 ['a'], .read 0 ['a'], .tick 12]).Spares (.write 0 ['a']) := by
  intro bytes v hb hv
  obtain rfl : [1] = bytes := Option.some.inj hb
  have hv' : ⟨[1], 5⟩ = v := by
    rcases hv with hv | ⟨j, hj, hd⟩
    · exact Option.some.inj hv
    · cases j with
      | zero => exact absurd hd (by decide)
      | succ j => exact absurd hj (by simp [onePath, History.after, setRun])
  intro _ _
  rw [← hv']

/-- A transfer that nothing comes between, and a run after it. -/
theorem edits_not_hidden_one : (onePath firstTransfer).SkipsRightly uploadRoles ∧
    ((onePath firstTransfer).run 1).dest ['a'] = some (some ⟨[1], 12⟩) := by
  have h₀ : Reaches uploadRoles Spares { now := 10, source := fun p => if p = ['a'] then some ⟨[1], 5⟩ else none }
      (onePath []) := .refl
  have h₁ := h₀.step (.listSource 0 ['a']) rfl trivial
  have h₂ := h₁.step (.listDest 0 ['a']) rfl trivial
  have h₃ := h₂.step (.read 0 ['a']) ⟨⟨[1], 5⟩, none, rfl, rfl, (uploadRoles.fresh_transfers _).1⟩ trivial
  have h₄ := h₃.step (.tick 12) (by decide : (10 : Int) ≤ 12) trivial
  have h₅ := h₄.step (.write 0 ['a']) (Option.some_ne_none [1]) firstTransfer_spares
  have h₆ := (h₅.step (.listSource 1 ['a']) rfl trivial).step (.listDest 1 ['a']) rfl trivial
  exact ⟨edits_not_hidden h₆, rfl⟩

/-! ## What a write that does not spare a version hides -/

/-- A skip of a path whose sides pass for each other and are not the same. -/
theorem not_skipsRightly {j : Nat} {p : Str} {v d : Stored} (hv : (x.run j).source p = some (some v))
    (hd : (x.run j).dest p = some (some d)) (h : ¬ d.Tells v) : ¬ x.SkipsRightly r := by
  intro hright
  unfold Stored.Tells at h
  simp only [not_forall] at h
  obtain ⟨hlen, hcur, hne⟩ := h
  have hsrc : Lists (x.run j).source [v.listed p] := by
    intro e he
    rw [List.mem_singleton.1 he]
    exact ⟨v, hv, rfl⟩
  have hdst : Lists (x.run j).dest [d.listed p] := by
    intro e he
    rw [List.mem_singleton.1 he]
    exact ⟨d, hd, rfl⟩
  have hinfo : infoMap [d.listed p] p = some d.info := infoMap_of_mem (by simp) (List.mem_singleton.2 rfl)
  have hmem : sourceLine r [d.listed p] (v.listed p) ∈ planEntries r false [v.listed p] [d.listed p] :=
    mem_planEntries.2 (.inl ⟨_, List.mem_singleton.2 rfl, rfl⟩)
  have hskip : (sourceLine r [d.listed p] (v.listed p)).action = .skip := by
    rw [sourceLine_action, sourceAction_eq_skip]
    exact ⟨d.info, hinfo, congrArg Int.ofNat hlen.symm, hcur⟩
  obtain ⟨v', d', hv', hd', heq⟩ := hright j false _ _ _ hsrc hdst hmem hskip
  rw [sourceLine_path] at hv' hd'
  obtain rfl : v' = v := Option.some.inj (Option.some.inj (hv'.symm.trans hv))
  obtain rfl : d' = d := Option.some.inj (Option.some.inj (hd'.symm.trans hd))
  exact hne heq

theorem after_run (x : History) (e : Event) : ∃ i, ∀ j, j ≠ i → (x.after e).run j = x.run j := by
  cases e with
  | tick _ | edit _ _ => exact ⟨0, fun _ _ => rfl⟩
  | listSource i p | listDest i p | read i p =>
    refine ⟨i, fun j hj => ?_⟩
    rw [History.after, run_setRun, if_neg hj]
  | write i p =>
    refine ⟨0, fun j _ => ?_⟩
    unfold History.after
    dsimp only
    split <;> rfl

/-- Only so many runs have begun. -/
theorem reaches_idle {P : History → Event → Prop} (h : Reaches r P x y) (hx : ∃ n, ∀ j, n ≤ j → x.run j = {}) :
    ∃ n, ∀ j, n ≤ j → y.run j = {} := by
  induction h with
  | refl => exact hx
  | @tail y z _ hs ih =>
    obtain ⟨e, -, -, rfl⟩ := hs
    obtain ⟨n, hn⟩ := ih
    obtain ⟨i, hi⟩ := after_run y e
    refine ⟨max n (i + 1), fun j hj => ?_⟩
    rw [hi j (by omega)]
    exact hn j (by omega)

/-- Nothing but listing. -/
def Event.isListing : Event → Prop
  | .listSource _ _ | .listDest _ _ => True
  | _ => False

/-- **A write that passes for an awaited version that it is not can be skipped over**: a run that lists the path next,
or goes on listing it, plans a wrong skip. -/
theorem hidden_of_not_spares {now : Int} {source : Str → Option Stored} {P : History → Event → Prop}
    (h : Reaches r P { now := now, source := source } x) {e : Event} (hs : ¬ x.Spares e) :
    ∃ y, Reaches r (fun _ e => Event.isListing e) (x.after e) y ∧ ¬ y.SkipsRightly r := by
  obtain ⟨n, hidle⟩ := reaches_idle h ⟨0, fun _ _ => rfl⟩
  cases e with
  | write i p =>
    simp only [Spares, not_forall] at hs
    obtain ⟨bytes, v, hb, hv, hne⟩ := hs
    rw [after_write hb]
    rcases hv with hv | ⟨j, hj, hd⟩
    · -- a run that has not begun lists both sides
      have hsrc : ((x.setDest p ⟨bytes, x.now⟩).run n).source p = none := by
        show (x.run n).source p = none
        rw [hidle n le_rfl]
      have hdst : (((x.setDest p ⟨bytes, x.now⟩).after (.listSource n p)).run n).dest p = none := by
        rw [History.after, run_setRun, if_pos rfl]
        show (x.run n).dest p = none
        rw [hidle n le_rfl]
      have hstart : Reaches r (fun _ e => Event.isListing e) (x.setDest p ⟨bytes, x.now⟩) _ := .refl
      refine ⟨_, (hstart.step (.listSource n p) hsrc trivial).step (.listDest n p) hdst trivial, ?_⟩
      refine not_skipsRightly (j := n) (p := p) (v := v) (d := ⟨bytes, x.now⟩) ?_ ?_ hne
      · simp only [History.after, run_setRun, if_true, Function.update_self]
        exact congrArg some hv
      · simp [History.after, setRun, setDest]
    · have hstart : Reaches r (fun _ e => Event.isListing e) (x.setDest p ⟨bytes, x.now⟩) _ := .refl
      refine ⟨_, hstart.step (.listDest j p) hd trivial, ?_⟩
      refine not_skipsRightly (j := j) (p := p) (v := v) (d := ⟨bytes, x.now⟩) ?_ ?_ hne
      · simp only [History.after, run_setRun, if_true]
        exact hj
      · simp [History.after, setRun, setDest]
  | _ => exact absurd trivial hs

def lostEdit : List Event :=
  [.listSource 0 ['a'], .listDest 0 ['a'], .read 0 ['a'], .tick 11, .edit ['a'] [2], .tick 12, .write 0 ['a'],
    .listSource 1 ['a'], .listDest 1 ['a']]

/-- The edit of a second between the read and the write. -/
theorem edit_hidden :
    ¬ ∀ (r : Roles) (now : Int) (source : Str → Option Stored) (x : History),
      Reaches r (fun _ _ => True) { now := now, source := source } x → x.SkipsRightly r := by
  intro h
  have h₀ : Reaches uploadRoles (fun _ _ => True) (onePath []) (onePath []) := .refl
  have h₁ := h₀.step (.listSource 0 ['a']) rfl trivial
  have h₂ := h₁.step (.listDest 0 ['a']) rfl trivial
  have h₃ := h₂.step (.read 0 ['a']) ⟨⟨[1], 5⟩, none, rfl, rfl, (uploadRoles.fresh_transfers _).1⟩ trivial
  have h₄ := h₃.step (.tick 11) (by decide : (10 : Int) ≤ 11) trivial
  have h₅ := h₄.step (.edit ['a'] [2]) (Option.some_ne_none _) trivial
  have h₆ := h₅.step (.tick 12) (by decide : (11 : Int) ≤ 12) trivial
  have h₇ := h₆.step (.write 0 ['a']) (Option.some_ne_none [1]) trivial
  have h₈ := (h₇.step (.listSource 1 ['a']) rfl trivial).step (.listDest 1 ['a']) rfl trivial
  have hwrong : ¬ (onePath lostEdit).SkipsRightly uploadRoles :=
    not_skipsRightly (j := 1) (p := ['a']) (v := ⟨[2], 11⟩) (d := ⟨[1], 12⟩) rfl rfl
      (fun ht => absurd (ht rfl rfl) (by decide))
  exact hwrong (h _ _ _ _ h₈)

end History

end Mito
