import MitoSync.Lib.Prog
import Mathlib.Logic.Function.Basic
import Mathlib.Logic.Nontrivial.Defs
/-!
# Overlap — programs that write one cell and cannot tell what is in it

Tasks have states of their own and share a store, each of them a cell of it.  A program is `Oblivious` where no request
lets it tell what the others have left in its cell: a request leaves the cell or overwrites it, and answers the same, as
far as the program goes on, whatever is there.  Then a task among others runs as it does alone from any content of its
cell (`Alone`).  So what each task alone leaves of its cell, all of them together leave: what was there, or what one
of them writes (`together_whole`), and the latter once one of them has returned that it wrote (`together_done`).
-/
namespace Lib

open Relation Prog

/-- A part of a state. -/
structure Cell (σ ε : Type) where
  get : σ → ε
  set : ε → σ → σ
  get_set : ∀ e s, get (set e s) = e
  set_get : ∀ s, set (get s) s = s
  set_set : ∀ e e' s, set e (set e' s) = set e s

namespace Overlap

variable {σ ε C α β : Type} {R : C → Type}

section Programs

variable (exec : (c : C) → σ → R c → σ → Prop) (cell : Cell σ ε) (same : (c : C) → R c → R c → Prop)

/-- The request leaves the cell or overwrites it, and whatever is there it has an answer that is the `same`. -/
def Blind (c : C) : Prop := ∀ s r s', exec c s r s' →
  cell.get s' = cell.get s ∧ (∀ e, ∃ r', same c r r' ∧ exec c (cell.set e s) r' (cell.set e s')) ∨
    ∀ e, ∃ r', same c r r' ∧ exec c (cell.set e s) r' s'

/-- Every request is blind, and the program goes on alike after answers that are the same. -/
def Oblivious : Prog C R α → Prop
  | .ret _ => True
  | .halt => True
  | .call c k => Blind exec cell same c ∧ (∀ r r', same c r r' → k r = k r') ∧ ∀ r, Oblivious (k r)

variable {exec cell same}

theorem oblivious_bind {f : α → Prog C R β} : ∀ {p : Prog C R α}, Oblivious exec cell same p →
    (∀ a, Oblivious exec cell same (f a)) → Oblivious exec cell same (p >>= f)
  | .ret a, _, hf => hf a
  | .halt, _, _ => trivial
  | .call _ _, hp, hf => ⟨hp.1, fun r r' hr => congrArg (· >>= f) (hp.2.1 r r' hr),
      fun r => oblivious_bind (hp.2.2 r) hf⟩

theorem oblivious_composes (exec : (c : C) → σ → R c → σ → Prop) (cell : Cell σ ε) (same : (c : C) → R c → R c → Prop) :
    Composes (fun {α} (p : Prog C R α) => Oblivious exec cell same p) where
  ret _ := trivial
  halt := trivial
  bind := oblivious_bind

/-- A request whose answers are the same only where they are equal. -/
theorem oblivious_req {c : C} (hc : Blind exec cell same c) (hs : ∀ r r', same c r r' → r = r') :
    Oblivious exec cell same (req c : Prog C R (R c)) :=
  ⟨hc, fun _ _ hr => congrArg _ (hs _ _ hr), fun _ => trivial⟩

end Programs

section Tasks

variable {ι κ : Type}

/-- The tasks' programs, their own states, and the store. -/
structure State (ι κ σ ε C : Type) (R : C → Type) (α : Type) where
  programs : ι → Prog C R α
  own : ι → σ
  store : κ → ε

variable (exec : ι → (c : C) → σ → R c → σ → Prop) (cell : Cell σ ε) (key : ι → κ)

/-- One request of one task, on what the others have left in its cell. -/
inductive Step [DecidableEq ι] [DecidableEq κ] : State ι κ σ ε C R α → State ι κ σ ε C R α → Prop
  | task {x : State ι κ σ ε C R α} (t : ι) {p : Prog C R α} {s : σ}
      (h : Prog.Step (exec t) (x.programs t, cell.set (x.store (key t)) (x.own t)) (p, s)) :
      Step x ⟨Function.update x.programs t p, Function.update x.own t s, Function.update x.store (key t) (cell.get s)⟩

variable {exec cell key} {same : (c : C) → R c → R c → Prop} {x y : State ι κ σ ε C R α}

/-- A task as it would be alone, from any content of its cell: `written` is what it has last written there. -/
def Alone (exec : ι → (c : C) → σ → R c → σ → Prop) (cell : Cell σ ε) (x y : State ι κ σ ε C R α) (t : ι)
    (written : Option ε) : Prop :=
  ∀ e, ∃ u, Steps (exec t) (x.programs t, cell.set e (x.own t)) (y.programs t, u) ∧
    (∀ e', cell.set e' u = cell.set e' (y.own t)) ∧ cell.get u = written.getD e

/-- **A request of a task is one of the task alone**, which leaves its cell or writes there what it writes now. -/
theorem Alone.step {t : ι} {p : Prog C R α} {s : σ} {written : Option ε} (h : Alone exec cell x y t written)
    (hobl : Oblivious (exec t) cell same (y.programs t))
    (hs : Prog.Step (exec t) (y.programs t, cell.set (y.store (key t)) (y.own t)) (p, s)) :
    ∃ written', (written' = written ∧ cell.get s = y.store (key t) ∨ written' = some (cell.get s)) ∧
      ∀ e, ∃ u, Steps (exec t) (x.programs t, cell.set e (x.own t)) (p, u) ∧ (∀ e', cell.set e' u = cell.set e' s) ∧
        cell.get u = written'.getD e := by
  generalize hprogram : y.programs t = q at hs hobl
  cases hs with
  | @answer c k _ _ r he =>
    obtain ⟨hblind, halike, -⟩ := hobl
    -- where the task alone stands, its cell is the only difference
    have hback : ∀ u, (∀ e', cell.set e' u = cell.set e' (y.own t)) →
        cell.set (cell.get u) (cell.set (y.store (key t)) (y.own t)) = u := fun u hown => by
      rw [cell.set_set, ← hown, cell.set_get]
    rcases hblind _ _ _ he with ⟨hleft, hsame⟩ | hsame
    · refine ⟨written, .inl ⟨rfl, hleft.trans (cell.get_set _ _)⟩, fun e => ?_⟩
      obtain ⟨u, hsteps, hown, hget⟩ := h e
      obtain ⟨r', hr, he'⟩ := hsame (cell.get u)
      rw [hback u hown] at he'
      rw [hprogram] at hsteps
      exact ⟨cell.set (cell.get u) s, halike r r' hr ▸ hsteps.tail (.answer he'), fun e' => cell.set_set e' _ s,
        (cell.get_set _ _).trans hget⟩
    · refine ⟨some (cell.get s), .inr rfl, fun e => ?_⟩
      obtain ⟨u, hsteps, hown, -⟩ := h e
      obtain ⟨r', hr, he'⟩ := hsame (cell.get u)
      rw [hback u hown] at he'
      rw [hprogram] at hsteps
      exact ⟨s, halike r r' hr ▸ hsteps.tail (.answer he'), fun _ => rfl, rfl⟩

theorem oblivious_step {exec : (c : C) → σ → R c → σ → Prop} {p q : Prog C R α} {s s' : σ}
    (h : Prog.Step exec (p, s) (q, s')) (hp : Oblivious exec cell same p) : Oblivious exec cell same q := by
  cases h with
  | answer _ => exact hp.2.2 _

variable (exec cell key) in
/-- While the others wait a task moves as it does alone. -/
theorem task_run [DecidableEq ι] [DecidableEq κ] {t : ι} {q : Prog C R α × σ}
    (h : Steps (exec t) (x.programs t, cell.set (x.store (key t)) (x.own t)) q) :
    ∃ y, ReflTransGen (Step exec cell key) x y ∧ y.programs = Function.update x.programs t q.1 ∧
      y.store = Function.update x.store (key t) (cell.get q.2) ∧ cell.set (y.store (key t)) (y.own t) = q.2 ∧
      ∀ t', t' ≠ t → y.own t' = x.own t' := by
  induction h with
  | refl =>
    refine ⟨x, .refl, (Function.update_eq_self _ _).symm, ?_, rfl, fun _ _ => rfl⟩
    rw [cell.get_set, Function.update_eq_self]
  | @tail q r _ hs ih =>
    obtain ⟨y, hrun, hprograms, hstore, hown, hothers⟩ := ih
    have hs' : Prog.Step (exec t) (y.programs t, cell.set (y.store (key t)) (y.own t)) r := by
      rw [hown, hprograms, Function.update_self]
      exact hs
    refine ⟨_, hrun.tail (.task t hs'), ?_, ?_, ?_, fun t' ht => ?_⟩
    · rw [hprograms, Function.update_idem]
    · rw [hstore, Function.update_idem]
    · simp only [Function.update_self]
      exact cell.set_get _
    · simp only [Function.update_of_ne ht]
      exact hothers t' ht

/-! ## Together -/

variable {good : ι → ε → Prop}

/-- What each task leaves of its cell alone, whatever was there: that, or something `good`. -/
structure Specified (exec : ι → (c : C) → σ → R c → σ → Prop) (cell : Cell σ ε) (same : (c : C) → R c → R c → Prop)
    (good : ι → ε → Prop) (wrote : ι → α → Prop) (x : State ι κ σ ε C R α) : Prop where
  oblivious : ∀ t, Oblivious (exec t) cell same (x.programs t)
  leaves : ∀ t e q u, Steps (exec t) (x.programs t, cell.set e (x.own t)) (q, u) →
    cell.get u = e ∨ good t (cell.get u)
  /-- a task that has returned that it wrote -/
  returns : ∀ t e a u, Steps (exec t) (x.programs t, cell.set e (x.own t)) (.ret a, u) → wrote t a → good t (cell.get u)

/-- Where the tasks stand, with what each of them has last written. -/
structure Standing (exec : ι → (c : C) → σ → R c → σ → Prop) (cell : Cell σ ε) (same : (c : C) → R c → R c → Prop)
    (key : ι → κ) (good : ι → ε → Prop) (x y : State ι κ σ ε C R α) (written : ι → Option ε) : Prop where
  oblivious : ∀ t, Oblivious (exec t) cell same (y.programs t)
  alone : ∀ t, Alone exec cell x y t (written t)
  store : ∀ k, (y.store k = x.store k ∧ ∀ t, key t = k → written t = none) ∨ ∃ t, key t = k ∧ good t (y.store k)

/-- **Together the tasks stand as each of them does alone.** -/
theorem standing [DecidableEq ι] [DecidableEq κ] [Nontrivial ε] {wrote : ι → α → Prop}
    (hx : Specified exec cell same good wrote x) (h : ReflTransGen (Step exec cell key) x y) :
    ∃ written, Standing exec cell same key good x y written := by
  induction h with
  | refl =>
    exact ⟨fun _ => none, hx.oblivious, fun t e => ⟨_, .refl, fun e' => cell.set_set e' e _, cell.get_set e _⟩,
      fun k => .inl ⟨rfl, fun _ _ => rfl⟩⟩
  | @tail y _ hrun hstep ih =>
    obtain ⟨written, ih⟩ := ih
    cases hstep with
    | @task t p s hs =>
      obtain ⟨w, hw, halone⟩ := (ih.alone t).step (ih.oblivious t) hs
      refine ⟨Function.update written t w, ?_, ?_, ?_⟩
      · intro t'
        by_cases ht : t' = t
        · subst ht
          simp only [Function.update_self]
          exact oblivious_step hs (ih.oblivious t')
        · simp only [Function.update_of_ne ht]
          exact ih.oblivious t'
      · intro t'
        by_cases ht : t' = t
        · subst ht
          intro e
          simp only [Function.update_self]
          exact halone e
        · intro e
          simp only [Function.update_of_ne ht]
          exact ih.alone t' e
      · intro k
        rcases hw with ⟨rfl, hleft⟩ | rfl
        · rw [hleft, Function.update_eq_self, Function.update_eq_self]
          exact ih.store k
        by_cases hk : k = key t
        · -- from another content the task writes the same, so it is something good
          right
          obtain ⟨e, hne⟩ := exists_ne (cell.get s)
          obtain ⟨u, hsteps, -, hget⟩ := halone e
          rw [Option.getD_some] at hget
          have hstore : Function.update y.store (key t) (cell.get s) k = cell.get u := by
            rw [hk, Function.update_self, hget]
          refine ⟨t, hk.symm, ?_⟩
          show good t (Function.update y.store (key t) (cell.get s) k)
          rw [hstore]
          exact (hx.leaves t e p u hsteps).resolve_left fun heq => hne (heq.symm.trans hget)
        · simp only [Function.update_of_ne hk]
          refine (ih.store k).imp (fun hnone => ⟨hnone.1, fun t' ht' => ?_⟩) id
          rw [Function.update_of_ne (fun heq => hk (by rw [← heq, ht']))]
          exact hnone.2 t' ht'

variable [DecidableEq ι] [DecidableEq κ] [Nontrivial ε] {wrote : ι → α → Prop}

/-- **At every point a cell is what it was, or what one of the tasks leaves.** -/
theorem together_whole (hx : Specified exec cell same good wrote x) (h : ReflTransGen (Step exec cell key) x y)
    (k : κ) : y.store k = x.store k ∨ ∃ t, key t = k ∧ good t (y.store k) := by
  obtain ⟨written, hy⟩ := standing hx h
  exact (hy.store k).imp And.left id

/-- **Once one of the tasks has returned that it wrote, the cell is what one of them leaves.** -/
theorem together_done (hx : Specified exec cell same good wrote x) (h : ReflTransGen (Step exec cell key) x y) {t : ι}
    {a : α} (ht : y.programs t = .ret a) (ha : wrote t a) : ∃ t', key t' = key t ∧ good t' (y.store (key t)) := by
  obtain ⟨written, hy⟩ := standing hx h
  rcases hy.store (key t) with ⟨hstore, hnone⟩ | hgood
  · obtain ⟨u, hsteps, -, hget⟩ := hy.alone t (y.store (key t))
    rw [hnone t rfl, Option.getD_none] at hget
    rw [ht] at hsteps
    exact ⟨t, rfl, hget ▸ hx.returns t _ a u hsteps ha⟩
  · exact hgood

end Tasks

end Overlap

end Lib
