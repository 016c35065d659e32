import MitoSync.Lib.Prog
/-!
# Pool — programs interleaved over disjoint parts of a world

A pool runs one program a task, one request at a time in any order.  Each task reads and writes its own part of the
world (`View`), so a pool's run seen from one task is a run of that task alone (`steps_project`): what `Prog.wp` gives
of a program alone it gives in the pool, and what no `put` touches never changes (`steps_frame`).
-/
namespace Lib

open Prog

/-- The part of a world `W` that each task of `ι` works on, parts being disjoint. -/
structure View (ι W σ : Type) where
  view : ι → W → σ
  put : ι → σ → W → W
  view_put : ∀ i s w, view i (put i s w) = s
  view_put_ne : ∀ i j s w, i ≠ j → view j (put i s w) = view j w

namespace Pool

variable {ι W σ C α : Type} {R : C → Type} [DecidableEq ι]

/-- The programs still to run, and the world. -/
abbrev State (ι W C : Type) (R : C → Type) (α : Type) : Type := (ι → Prog C R α) × W

variable (V : View ι W σ) (exec : ι → (c : C) → σ → R c → σ → Prop)

/-- One request of one task answered. -/
inductive Step : State ι W C R α → State ι W C R α → Prop
  | task {P : ι → Prog C R α} {w : W} (i : ι) {p : Prog C R α} {s : σ}
      (h : Prog.Step (exec i) (P i, V.view i w) (p, s)) : Step (P, w) (Function.update P i p, V.put i s w)

abbrev Steps : State ι W C R α → State ι W C R α → Prop := Relation.ReflTransGen (Step V exec)

variable {V exec}

/-- **A pool's run, seen from a task, is a run of that task alone.** -/
theorem steps_project {x y : State ι W C R α} (h : Steps V exec x y) (i : ι) :
    Prog.Steps (exec i) (x.1 i, V.view i x.2) (y.1 i, V.view i y.2) := by
  induction h with
  | refl => exact .refl
  | tail _ hs ih =>
    cases hs with
    | task j hj =>
      by_cases hij : j = i
      · subst hij
        simp only [Function.update_self, V.view_put]
        exact ih.tail hj
      · simp only [Function.update_of_ne (Ne.symm hij), V.view_put_ne j i _ _ hij]
        exact ih

/-- A run of one task alone is a run of the pool in which the others wait. -/
theorem steps_lift {P : ι → Prog C R α} {w : W} {i : ι} {z : Prog C R α × σ}
    (h : Prog.Steps (exec i) (P i, V.view i w) z) :
    ∃ y, Steps V exec (P, w) y ∧ (y.1 i, V.view i y.2) = z ∧ ∀ j, j ≠ i → y.1 j = P j := by
  induction h with
  | refl => exact ⟨(P, w), .refl, rfl, fun _ _ => rfl⟩
  | @tail z z' _ hs ih =>
    obtain ⟨y, hy, rfl, hothers⟩ := ih
    obtain ⟨p, s⟩ := z'
    refine ⟨_, hy.tail (.task i hs), ?_, fun j hj => ?_⟩
    · simp only [Function.update_self, V.view_put]
    · simp only [Function.update_of_ne hj, hothers j hj]

/-- What no task's write changes, no run changes. -/
theorem steps_frame {β : Type} {f : W → β} (hf : ∀ i s w, f (V.put i s w) = f w) {x y : State ι W C R α}
    (h : Steps V exec x y) : f y.2 = f x.2 := by
  induction h with
  | refl => rfl
  | tail _ hs ih =>
    cases hs with
    | task j _ => rw [hf, ih]

variable {I H : ι → σ → Prop} {Q : ι → α → σ → Prop}

/-- **In a pool a task that has returned meets its own postcondition**, whatever the others did meanwhile. -/
theorem wp_returns {x y : State ι W C R α} {i : ι} {a : α}
    (hp : wp (exec i) (I i) (H i) (x.1 i) (Q i) (V.view i x.2)) (h : Steps V exec x y) (ha : y.1 i = .ret a) :
    Q i a (V.view i y.2) := by
  have hi := steps_project h i
  rw [ha] at hi
  exact Prog.wp_returns hp hi

/-- **At every point of a pool's run each task's part of the world satisfies its crash invariant.** -/
theorem wp_crash {x y : State ι W C R α} {i : ι} (hQ : ∀ a s, Q i a s → I i s) (hH : ∀ s, H i s → I i s)
    (hp : wp (exec i) (I i) (H i) (x.1 i) (Q i) (V.view i x.2)) (h : Steps V exec x y) : I i (V.view i y.2) :=
  Prog.wp_crash hQ hH hp (steps_project h i)

end Pool

end Lib
