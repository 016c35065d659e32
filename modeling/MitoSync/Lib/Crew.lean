import MitoSync.Lib.Prog
/-!
# Crew — a program that posts tasks to workers and waits for them

A poster asks the world, posts tasks and joins them; each posted task is a program of its own, and all of them change
one world in any order.  The poster is verified alone, against whatever its workers may have done since (`Rely`), and
the workers against the invariant they keep together (`Live`); `Rule.sound` puts the two together at every point of a
run.  Each worker is verified alone too: on a share of its own where they add to shared totals (`Shares`), or relying on
what every request of the others guarantees (`Relying`).
-/
namespace Lib

open Prog

/-- What a poster does: a request, a task posted, or the wait for every task posted so far. -/
inductive CrewCall (C T : Type) : Type
  | ask (c : C)
  | post (t : T)
  | join

abbrev CrewResp {C T : Type} (R : C → Type) : CrewCall C T → Type
  | .ask c => R c
  | .post _ => Unit
  | .join => Unit

abbrev Poster (C T : Type) (R : C → Type) (α : Type) : Type := Prog (CrewCall C T) (CrewResp R) α

namespace Poster

variable {C T : Type} {R : C → Type}

def ask (c : C) : Poster C T R (R c) := req (CrewCall.ask c)

def post (t : T) : Poster C T R Unit := req (CrewCall.post t)

def join : Poster C T R Unit := req CrewCall.join

end Poster

structure Crew (C T : Type) (R : C → Type) (α W : Type) where
  poster : Poster C T R α
  workers : List (T × Prog C R Unit)
  world : W

namespace Crew

variable {C T α W : Type} {R : C → Type}

/-- The tasks posted so far. -/
def posted (s : Crew C T R α W) : List T := s.workers.map Prod.fst

variable (exec : (c : C) → W → R c → W → Prop) (task : T → Prog C R Unit)

inductive Step : Crew C T R α W → Crew C T R α W → Prop
  | ask {c : C} {k : R c → Poster C T R α} {ws : List (T × Prog C R Unit)} {w w' : W} {r : R c}
      (h : exec c w r w') : Step ⟨.call (.ask c) k, ws, w⟩ ⟨k r, ws, w'⟩
  | post {t : T} {k : Unit → Poster C T R α} {ws : List (T × Prog C R Unit)} {w : W} :
      Step ⟨.call (.post t) k, ws, w⟩ ⟨k (), ws ++ [(t, task t)], w⟩
  | join {k : Unit → Poster C T R α} {ws : List (T × Prog C R Unit)} {w : W} (h : ∀ x ∈ ws, x.2 = .ret ()) :
      Step ⟨.call .join k, ws, w⟩ ⟨k (), ws, w⟩
  | work {m : Poster C T R α} {a b : List (T × Prog C R Unit)} {t : T} {p p' : Prog C R Unit} {w w' : W}
      (h : Prog.Step exec (p, w) (p', w')) : Step ⟨m, a ++ (t, p) :: b, w⟩ ⟨m, a ++ (t, p') :: b, w'⟩

abbrev Steps : Crew C T R α W → Crew C T R α W → Prop := Relation.ReflTransGen (Step exec task)

/-- A run of one worker is a run of the crew in which the others wait. -/
theorem steps_work {m : Poster C T R α} {a b : List (T × Prog C R Unit)} {t : T} {x y : Prog C R Unit × W}
    (h : Prog.Steps exec x y) : Steps exec task ⟨m, a ++ (t, x.1) :: b, x.2⟩ ⟨m, a ++ (t, y.1) :: b, y.2⟩ := by
  induction h with
  | refl => exact .refl
  | tail _ hs ih => exact ih.tail (.work hs)

/-! ## The poster alone -/

/-- What the poster knows: the tasks it posted, whether they are joined, and the world it last saw. -/
structure Seen (T W : Type) where
  posted : List T
  joined : Bool
  world : W

/-- A request of the poster's, the tasks it posted having changed the world within `Rely` unless they are joined. -/
inductive PosterExec (Rely : List T → W → W → Prop) (Done : List T → W → Prop) :
    (c : CrewCall C T) → Seen T W → CrewResp R c → Seen T W → Prop
  | ask {c : C} {x : Seen T W} {w w' : W} {r : R c} (hj : x.joined = true → w = x.world)
      (hr : Rely x.posted x.world w) (h : exec c w r w') : PosterExec Rely Done (.ask c) x r { x with world := w' }
  | post {t : T} {x : Seen T W} {w : W} (hr : Rely x.posted x.world w) :
      PosterExec Rely Done (.post t) x () ⟨x.posted ++ [t], false, w⟩
  | join {x : Seen T W} {w : W} (hr : Rely x.posted x.world w) (h : Done x.posted w) :
      PosterExec Rely Done .join x () ⟨x.posted, true, w⟩

section PosterWp

variable {exec} {Rely : List T → W → W → Prop} {Done : List T → W → Prop} {I H : Seen T W → Prop} {x : Seen T W}

theorem wp_ask {c : C} {Q : R c → Seen T W → Prop} (hI : I x)
    (h : ∀ r w w', (x.joined = true → w = x.world) → Rely x.posted x.world w → exec c w r w' →
      Q r { x with world := w' }) :
    wp (PosterExec exec Rely Done) I H (Poster.ask c) Q x := by
  refine ⟨hI, fun r x' he => ?_⟩
  cases he with
  | ask hj hr hexec => exact h r _ _ hj hr hexec

theorem wp_post {t : T} {Q : Unit → Seen T W → Prop} (hI : I x)
    (h : ∀ w, Rely x.posted x.world w → Q () ⟨x.posted ++ [t], false, w⟩) :
    wp (PosterExec exec Rely Done) I H (Poster.post t) Q x := by
  refine ⟨hI, fun r x' he => ?_⟩
  cases he with
  | post hr => exact h _ hr

theorem wp_join {Q : Unit → Seen T W → Prop} (hI : I x)
    (h : ∀ w, Rely x.posted x.world w → Done x.posted w → Q () ⟨x.posted, true, w⟩) :
    wp (PosterExec exec Rely Done) I H Poster.join Q x := by
  refine ⟨hI, fun r x' he => ?_⟩
  cases he with
  | join hr hd => exact h _ hr hd

end PosterWp

/-- The calls of a poster that asks only `mine`. -/
def Mine (mine : C → Prop) : CrewCall C T → Prop
  | .ask c => mine c
  | .post _ => True
  | .join => True

/-- What the workers keep together, `Live`, what the poster may rely on between two of its steps, and what has been
done once every worker has returned. -/
structure Rule (mine : C → Prop) (Live : List (T × Prog C R Unit) → W → Prop) (Rely : List T → W → W → Prop)
    (Done : List T → W → Prop) : Prop where
  refl : ∀ ts w, Rely ts w w
  trans : ∀ ts w₁ w₂ w₃, Rely ts w₁ w₂ → Rely ts w₂ w₃ → Rely ts w₁ w₃
  work : ∀ a t p b w p' w', Live (a ++ (t, p) :: b) w → Prog.Step exec (p, w) (p', w') →
    Live (a ++ (t, p') :: b) w' ∧ Rely (a.map Prod.fst ++ t :: b.map Prod.fst) w w'
  ask : ∀ c ws w r w', mine c → Live ws w → exec c w r w' → Live ws w'
  post : ∀ ws t w, Live ws w → Live (ws ++ [(t, task t)]) w
  join : ∀ ws w, Live ws w → (∀ x ∈ ws, x.2 = .ret ()) → Done (ws.map Prod.fst) w

variable {task}

/-- A crew at a point of its run: its workers are live, and the poster's precondition holds of what it has seen. -/
structure Sound (mine : C → Prop) (Live : List (T × Prog C R Unit) → W → Prop) (Rely : List T → W → W → Prop)
    (Done : List T → W → Prop) (I H : Seen T W → Prop) (Q : α → Seen T W → Prop) (s : Crew C T R α W)
    (x : Seen T W) : Prop where
  live : Live s.workers s.world
  asks : Asks (Mine mine) s.poster
  posted : x.posted = s.posted
  joined : x.joined = true → (∀ y ∈ s.workers, y.2 = .ret ()) ∧ x.world = s.world
  rely : Rely x.posted x.world s.world
  wp : wp (PosterExec exec Rely Done) I H s.poster Q x

section Sound

variable {exec} {mine : C → Prop} {Live : List (T × Prog C R Unit) → W → Prop} {Rely : List T → W → W → Prop}
  {Done : List T → W → Prop} {I H : Seen T W → Prop} {Q : α → Seen T W → Prop}

theorem Rule.sound_step (hR : Rule exec task mine Live Rely Done) {s s' : Crew C T R α W}
    {x : Seen T W} (h : Step exec task s s') (hs : Sound exec mine Live Rely Done I H Q s x) :
    ∃ x', Sound exec mine Live Rely Done I H Q s' x' := by
  obtain ⟨hlive, hasks, hposted, hjoined, hrely, hwp⟩ := hs
  cases h with
  | @ask c k ws w w' r h =>
    refine ⟨{ x with world := w' }, hR.ask c ws w r w' hasks.1 hlive h, hasks.2 r, hposted, ?_, hR.refl _ _, ?_⟩
    · exact fun hj => ⟨(hjoined hj).1, rfl⟩
    · exact hwp.2 r _ (.ask (fun hj => ((hjoined hj).2).symm) hrely h)
  | @post t k ws w =>
    refine ⟨⟨x.posted ++ [t], false, w⟩, hR.post ws t w hlive, hasks.2 (), ?_, Bool.noConfusion, hR.refl _ _, ?_⟩
    · rw [hposted]
      simp [Crew.posted]
    · exact hwp.2 () _ (.post hrely)
  | @join k ws w h =>
    refine ⟨⟨x.posted, true, w⟩, hlive, hasks.2 (), hposted, fun _ => ⟨h, rfl⟩, hR.refl _ _, ?_⟩
    refine hwp.2 () _ (.join hrely ?_)
    rw [hposted]
    exact hR.join ws w hlive h
  | @work m a b t p p' w w' h =>
    obtain ⟨hlive', hrely'⟩ := hR.work a t p b w p' w' hlive h
    have hts : x.posted = a.map Prod.fst ++ t :: b.map Prod.fst := by
      rw [hposted]
      simp [Crew.posted]
    refine ⟨x, hlive', hasks, ?_, fun hj => ?_, ?_, hwp⟩
    · rw [hts]
      simp [Crew.posted]
    · -- a joined worker makes no step
      have hret := (hjoined hj).1 (t, p) (by simp)
      obtain rfl : p = .ret () := hret
      cases h
    · exact hR.trans _ _ _ _ hrely (by rw [hts]; exact hrely')

/-- **The poster's precondition and the workers' invariant hold at every point of a run.** -/
theorem Rule.sound (hR : Rule exec task mine Live Rely Done) {m : Poster C T R α} {w : W} {s : Crew C T R α W}
    (h : Steps exec task ⟨m, [], w⟩ s) (hlive : Live [] w) (hasks : Asks (Mine mine) m)
    (hwp : Prog.wp (PosterExec exec Rely Done) I H m Q ⟨[], true, w⟩) :
    ∃ x, Sound exec mine Live Rely Done I H Q s x := by
  induction h with
  | refl =>
    exact ⟨⟨[], true, w⟩, hlive, hasks, rfl, fun _ => ⟨by simp, rfl⟩, hR.refl _ _, hwp⟩
  | tail _ hs ih =>
    obtain ⟨x, hx⟩ := ih
    exact hR.sound_step hs hx

/-- **At every point what the poster has seen satisfies its crash invariant.** -/
theorem Sound.crash {s : Crew C T R α W} {x : Seen T W} (h : Sound exec mine Live Rely Done I H Q s x)
    (hQ : ∀ a x, Q a x → I x) (hH : ∀ x, H x → I x) : I x := wp_crash hQ hH h.wp .refl

end Sound

/-! ## Workers that add to shared totals -/

/-- Each task works on a share of its own, and the world is the total of the shares. -/
structure Shares {A : Type} (exec : (c : C) → W → R c → W → Prop) (solo : (c : C) → A → R c → A → Prop)
    (allowed : T → C → Prop) (total : List (T × A) → W → Prop) : Prop where
  work : ∀ xs t a ys w c r w', total (xs ++ (t, a) :: ys) w → allowed t c → exec c w r w' →
    ∃ a', solo c a r a' ∧ total (xs ++ (t, a') :: ys) w'

/-- A worker with its share: what is left of its program establishes `Q` there. -/
structure Worker (T A C : Type) (R : C → Type) where
  task : T
  prog : Prog C R Unit
  share : A

section Shares

variable {exec} {A : Type} {solo : (c : C) → A → R c → A → Prop} {allowed : T → C → Prop} {total : List (T × A) → W → Prop}
  {I H Q : T → A → Prop}

/-- The workers have shares, each of which its own program looks after. -/
def Shared (solo : (c : C) → A → R c → A → Prop) (allowed : T → C → Prop) (total : List (T × A) → W → Prop)
    (I H Q : T → A → Prop) (ws : List (T × Prog C R Unit)) (w : W) : Prop :=
  ∃ l : List (Worker T A C R), l.map (fun x => (x.task, x.prog)) = ws ∧
    total (l.map (fun x => (x.task, x.share))) w ∧
    ∀ x ∈ l, Asks (allowed x.task) x.prog ∧
      wp solo (I x.task) (H x.task) x.prog (fun _ => Q x.task) x.share

theorem Shared.work (hS : Shares exec solo allowed total) {a b : List (T × Prog C R Unit)} {t : T}
    {p p' : Prog C R Unit} {w w' : W} (h : Shared solo allowed total I H Q (a ++ (t, p) :: b) w)
    (hs : Prog.Step exec (p, w) (p', w')) : Shared solo allowed total I H Q (a ++ (t, p') :: b) w' := by
  obtain ⟨l, hl, htotal, hall⟩ := h
  obtain ⟨la, lb, rfl, rfl, hb⟩ := List.map_eq_append_iff.1 hl
  obtain ⟨x, lc, rfl, hx, rfl⟩ := List.map_eq_cons_iff.1 hb
  obtain ⟨rfl, rfl⟩ := Prod.mk.inj hx
  obtain ⟨hasks, hwp⟩ := hall x (by simp)
  obtain ⟨t, p, s⟩ := x
  cases hs with
  | @answer c k s₀ s₁ r he =>
    simp only [List.map_append, List.map_cons] at htotal
    obtain ⟨s', hsolo, htotal'⟩ := hS.work _ t s _ w c r w' htotal hasks.1 he
    refine ⟨la ++ ⟨t, k r, s'⟩ :: lc, by simp, by simpa using htotal', ?_⟩
    intro y hy
    rcases List.mem_append.1 hy with hy | hy
    · exact hall y (by simp [hy])
    · rcases List.mem_cons.1 hy with rfl | hy
      · exact ⟨hasks.2 r, hwp.2 r s' hsolo⟩
      · exact hall y (by simp [hy])

theorem Shared.post {ws : List (T × Prog C R Unit)} {t : T} {w : W} {a : A} {task : T → Prog C R Unit}
    (h : Shared solo allowed total I H Q ws w)
    (ht : ∀ xs, xs.map Prod.fst = ws.map Prod.fst → total xs w → total (xs ++ [(t, a)]) w)
    (hasks : Asks (allowed t) (task t)) (hwp : wp solo (I t) (H t) (task t) (fun _ => Q t) a) :
    Shared solo allowed total I H Q (ws ++ [(t, task t)]) w := by
  obtain ⟨l, rfl, htotal, hall⟩ := h
  refine ⟨l ++ [⟨t, task t, a⟩], by simp, ?_, ?_⟩
  · rw [List.map_append]
    exact ht _ (by simp) htotal
  · intro y hy
    rcases List.mem_append.1 hy with hy | hy
    · exact hall y hy
    · obtain rfl := List.mem_singleton.1 hy
      exact ⟨hasks, hwp⟩

theorem Shared.carry {ws : List (T × Prog C R Unit)} {w w' : W} (h : Shared solo allowed total I H Q ws w)
    (ht : ∀ xs, total xs w → total xs w') : Shared solo allowed total I H Q ws w' := by
  obtain ⟨l, hl, htotal, hall⟩ := h
  exact ⟨l, hl, ht _ htotal, hall⟩

/-- **At every point each share satisfies its crash invariant.** -/
theorem Shared.crash {ws : List (T × Prog C R Unit)} {w : W} (h : Shared solo allowed total I H Q ws w)
    (hQ : ∀ t a, Q t a → I t a) (hH : ∀ t a, H t a → I t a) :
    ∃ xs, xs.map Prod.fst = ws.map Prod.fst ∧ total xs w ∧ ∀ x ∈ xs, I x.1 x.2 := by
  obtain ⟨l, rfl, htotal, hall⟩ := h
  refine ⟨_, by simp, htotal, ?_⟩
  intro x hx
  obtain ⟨y, hy, rfl⟩ := List.mem_map.1 hx
  exact wp_crash (fun _ a => hQ y.task a) (hH y.task) (hall y hy).2 .refl

/-- **Once every worker has returned each share satisfies its postcondition.** -/
theorem Shared.done {ws : List (T × Prog C R Unit)} {w : W} (h : Shared solo allowed total I H Q ws w)
    (hret : ∀ x ∈ ws, x.2 = .ret ()) :
    ∃ xs, xs.map Prod.fst = ws.map Prod.fst ∧ total xs w ∧ ∀ x ∈ xs, Q x.1 x.2 := by
  obtain ⟨l, rfl, htotal, hall⟩ := h
  refine ⟨_, by simp, htotal, ?_⟩
  intro x hx
  obtain ⟨y, hy, rfl⟩ := List.mem_map.1 hx
  have hp := hret _ (List.mem_map_of_mem hy)
  have hwp := (hall y hy).2
  rw [show y.prog = .ret () from hp] at hwp
  exact hwp

end Shares

/-! ## Workers that rely on what the others keep -/

/-- A request, the others having changed the world within `Rely` before it. -/
def Guarded (exec : (c : C) → W → R c → W → Prop) (Rely : W → W → Prop) (c : C) (w : W) (r : R c) (w' : W) : Prop :=
  ∃ w₁, Rely w w₁ ∧ exec c w₁ r w'

/-- What every request guarantees, any worker may rely on. -/
structure Guarantee (exec : (c : C) → W → R c → W → Prop) (Rely : W → W → Prop) : Prop where
  refl : ∀ w, Rely w w
  trans : ∀ w₁ w₂ w₃, Rely w₁ w₂ → Rely w₂ w₃ → Rely w₁ w₃
  exec : ∀ c w r w', exec c w r w' → Rely w w'

/-- Each worker establishes its `Q`, whatever the others do within `Rely`. -/
def Relying (exec : (c : C) → W → R c → W → Prop) (Rely : W → W → Prop) (Q : T → W → Prop)
    (ws : List (T × Prog C R Unit)) (w : W) : Prop :=
  ∀ x ∈ ws, ∃ w₀, Rely w₀ w ∧
    wp (Guarded exec Rely) (fun _ => True) (fun _ => True) x.2 (fun _ => Q x.1) w₀

section Relying

variable {exec} {Rely : W → W → Prop} {Q : T → W → Prop} {ws : List (T × Prog C R Unit)} {w w' : W}

theorem Guarantee.guarded (hG : Guarantee exec Rely) {c : C} {r : R c} (h : Guarded exec Rely c w r w') :
    Rely w w' := by
  obtain ⟨w₁, hrely, he⟩ := h
  exact hG.trans _ _ _ hrely (hG.exec c _ r _ he)

theorem Relying.carry (hG : Guarantee exec Rely) (h : Relying exec Rely Q ws w) (hw : Rely w w') :
    Relying exec Rely Q ws w' := by
  intro x hx
  obtain ⟨w₀, hrely, hwp⟩ := h x hx
  exact ⟨w₀, hG.trans _ _ _ hrely hw, hwp⟩

theorem Relying.work (hG : Guarantee exec Rely) {a b : List (T × Prog C R Unit)} {t : T} {p p' : Prog C R Unit}
    (h : Relying exec Rely Q (a ++ (t, p) :: b) w) (hs : Prog.Step exec (p, w) (p', w')) :
    Relying exec Rely Q (a ++ (t, p') :: b) w' := by
  cases hs with
  | @answer c k _ _ r he =>
    have hothers := h.carry hG (hG.exec c w r w' he)
    obtain ⟨w₀, hrely, hwp⟩ := h (t, .call c k) (by simp)
    intro x hx
    rcases List.mem_append.1 hx with hx | hx
    · exact hothers x (List.mem_append_left _ hx)
    · rcases List.mem_cons.1 hx with rfl | hx
      · exact ⟨w', hG.refl w', hwp.2 r w' ⟨w, hrely, he⟩⟩
      · exact hothers x (List.mem_append_right _ (List.mem_cons_of_mem _ hx))

theorem Relying.post (hG : Guarantee exec Rely) {t : T} {p : Prog C R Unit} (h : Relying exec Rely Q ws w)
    (hp : wp (Guarded exec Rely) (fun _ => True) (fun _ => True) p (fun _ => Q t) w) :
    Relying exec Rely Q (ws ++ [(t, p)]) w := by
  intro x hx
  rcases List.mem_append.1 hx with hx | hx
  · exact h x hx
  · obtain rfl := List.mem_singleton.1 hx
    exact ⟨w, hG.refl w, hp⟩

/-- **Once every worker has returned each has established its `Q`**, where the others leave it true. -/
theorem Relying.done (hQ : ∀ t w w', Rely w w' → Q t w → Q t w') (h : Relying exec Rely Q ws w)
    (hret : ∀ x ∈ ws, x.2 = .ret ()) : ∀ t ∈ ws.map Prod.fst, Q t w := by
  intro t ht
  obtain ⟨⟨t, p⟩, hx, rfl⟩ := List.mem_map.1 ht
  obtain ⟨w₀, hrely, hwp⟩ := h (t, p) hx
  obtain rfl : p = .ret () := hret (t, p) hx
  exact hQ t _ _ hrely hwp

end Relying

end Crew

end Lib
