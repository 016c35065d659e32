import MitoSync.Lib.Ending
/-!
# LockFree — threads whose instructions commute, some of them loops

Threads carry out instructions on a shared state.  Some take one step; the others read a part of the state and try to
exchange it, over and over, until the exchange goes through or what they have read leaves them nothing to do.  Seen
through `abs` the instructions commute, and a loop with nothing to do stays so.  Then the end does not depend on the
order (`drained_work`), and it comes: an exchange fails only because another went through (`terminates`).
-/
namespace Lib

open Relation

/-- Instructions on a state, and what becomes of them through `abs`. -/
structure LockFree (σ τ A β : Type) where
  eff : A → σ → σ
  /-- carried out in one step -/
  atomic : A → Bool
  /-- what the loop of an instruction reads -/
  view : A → σ → β
  /-- having read this, the loop has nothing to do -/
  idle : A → β → Prop
  abs : σ → τ
  absEff : A → τ → τ
  abs_eff : ∀ a s, abs (eff a s) = absEff a (abs s)
  comm : ∀ a b t, absEff a (absEff b t) = absEff b (absEff a t)
  idle_eff : ∀ a s, idle a (view a s) → absEff a (abs s) = abs s
  idle_stable : ∀ a b s, idle a (view a s) → idle a (view a (eff b s))

namespace LockFree

/-- The instructions a thread has left, and what the loop of the first has read last. -/
structure Thread (A β : Type) where
  todo : List A
  loaded : Option β := none

structure State (σ A β : Type) where
  shared : σ
  threads : List (Thread A β)

variable {σ τ A β : Type} (K : LockFree σ τ A β)

/-- A step of one thread. -/
inductive Work : State σ A β → State σ A β → Prop
  | atomic {s : σ} {x y : List (Thread A β)} {a : A} {rest : List A} (h : K.atomic a = true) :
      Work ⟨s, x ++ ⟨a :: rest, none⟩ :: y⟩ ⟨K.eff a s, x ++ ⟨rest, none⟩ :: y⟩
  | load {s : σ} {x y : List (Thread A β)} {a : A} {rest : List A} (h : K.atomic a = false) :
      Work ⟨s, x ++ ⟨a :: rest, none⟩ :: y⟩ ⟨s, x ++ ⟨a :: rest, some (K.view a s)⟩ :: y⟩
  | leave {s : σ} {x y : List (Thread A β)} {a : A} {rest : List A} {b : β} (h : K.idle a b) :
      Work ⟨s, x ++ ⟨a :: rest, some b⟩ :: y⟩ ⟨s, x ++ ⟨rest, none⟩ :: y⟩
  | exchange {s : σ} {x y : List (Thread A β)} {a : A} {rest : List A} (h : ¬ K.idle a (K.view a s)) :
      Work ⟨s, x ++ ⟨a :: rest, some (K.view a s)⟩ :: y⟩ ⟨K.eff a s, x ++ ⟨rest, none⟩ :: y⟩
  /-- the exchange finds another value, which it reads -/
  | fail {s : σ} {x y : List (Thread A β)} {a : A} {rest : List A} {b : β} (h : ¬ K.idle a b) (hb : b ≠ K.view a s) :
      Work ⟨s, x ++ ⟨a :: rest, some b⟩ :: y⟩ ⟨s, x ++ ⟨a :: rest, some (K.view a s)⟩ :: y⟩

/-- A step, or an exchange that fails for no reason. -/
inductive Step : State σ A β → State σ A β → Prop
  | work {x x' : State σ A β} (h : K.Work x x') : Step x x'
  | spurious {s : σ} {x y : List (Thread A β)} {a : A} {rest : List A} (h : ¬ K.idle a (K.view a s)) :
      Step ⟨s, x ++ ⟨a :: rest, some (K.view a s)⟩ :: y⟩ ⟨s, x ++ ⟨a :: rest, some (K.view a s)⟩ :: y⟩

/-- What the threads have left. -/
def State.pending (x : State σ A β) : List A := x.threads.flatMap Thread.todo

/-- The state once everything left is carried out. -/
def drained (x : State σ A β) : τ := x.pending.foldl (fun t a => K.absEff a t) (K.abs x.shared)

/-- What a loop has read, and has nothing to do about, leaves it nothing to do now. -/
def Seen (x : State σ A β) : Prop :=
  ∀ t ∈ x.threads, ∀ a rest b, t.todo = a :: rest → t.loaded = some b → K.idle a b → K.idle a (K.view a x.shared)

variable {K} {x x' : State σ A β}

theorem pending_split (s : σ) (x y : List (Thread A β)) (t : Thread A β) :
    (⟨s, x ++ t :: y⟩ : State σ A β).pending = x.flatMap Thread.todo ++ (t.todo ++ y.flatMap Thread.todo) := by
  rw [State.pending, List.flatMap_append, List.flatMap_cons]

/-- **Instructions may be carried out in any order.** -/
theorem foldl_perm {xs ys : List A} (h : xs.Perm ys) (t : τ) :
    xs.foldl (fun t a => K.absEff a t) t = ys.foldl (fun t a => K.absEff a t) t :=
  h.foldl_eq' (fun a _ b _ t => K.comm b a t) t

/-- The first instruction of a thread may be the first of all. -/
theorem drained_first (s : σ) (x y : List (Thread A β)) (a : A) (rest : List A) (l l' : Option β) (s' : σ)
    (h : K.abs s' = K.absEff a (K.abs s)) :
    K.drained ⟨s', x ++ ⟨rest, l'⟩ :: y⟩ = K.drained ⟨s, x ++ ⟨a :: rest, l⟩ :: y⟩ := by
  rw [drained, drained, pending_split, pending_split, h]
  refine Eq.trans ?_ (foldl_perm List.perm_middle.symm _)
  rfl

theorem Seen.replace {s : σ} {x y : List (Thread A β)} {t t' : Thread A β} (h : K.Seen ⟨s, x ++ t :: y⟩)
    (ht : ∀ a rest b, t'.todo = a :: rest → t'.loaded = some b → K.idle a b → K.idle a (K.view a s)) :
    K.Seen ⟨s, x ++ t' :: y⟩ := by
  intro u hu
  rcases List.mem_append.1 hu with hu | hu
  · exact h u (List.mem_append_left _ hu)
  · rcases List.mem_cons.1 hu with rfl | hu
    · exact ht
    · exact h u (List.mem_append_right _ (List.mem_cons_of_mem _ hu))

theorem Seen.eff {s : σ} {ts : List (Thread A β)} (h : K.Seen ⟨s, ts⟩) (a : A) : K.Seen ⟨K.eff a s, ts⟩ :=
  fun t ht a' rest b htodo hb hidle => K.idle_stable a' a s (h t ht a' rest b htodo hb hidle)

/-- A thread that has read nothing. -/
theorem unread {s : σ} {rest : List A} : ∀ a rest' (b : β), (⟨rest, none⟩ : Thread A β).todo = a :: rest' →
    (⟨rest, none⟩ : Thread A β).loaded = some b → K.idle a b → K.idle a (K.view a s) :=
  fun _ _ _ _ hb _ => by cases hb

/-- A thread that has read what is there. -/
theorem read {s : σ} {a : A} {rest : List A} : ∀ a' rest' (b : β),
    (⟨a :: rest, some (K.view a s)⟩ : Thread A β).todo = a' :: rest' →
    (⟨a :: rest, some (K.view a s)⟩ : Thread A β).loaded = some b → K.idle a' b → K.idle a' (K.view a' s) := by
  intro a' rest' b htodo hb hidle
  obtain ⟨rfl, -⟩ := List.cons.inj htodo
  obtain rfl := Option.some.inj hb
  exact hidle

/-- **A step leaves the end as it was.** -/
theorem drained_work (hs : K.Seen x) (h : K.Work x x') : K.drained x' = K.drained x ∧ K.Seen x' := by
  cases h with
  | @atomic s x y a rest ha =>
    exact ⟨drained_first s x y a rest none none _ (K.abs_eff a s), (hs.eff a).replace unread⟩
  | @load s x y a rest ha =>
    refine ⟨?_, hs.replace read⟩
    rw [drained, drained, pending_split, pending_split]
  | @leave s x y a rest b hidle =>
    have hnow := hs _ (List.mem_append_right x List.mem_cons_self) a rest b rfl rfl hidle
    exact ⟨drained_first s x y a rest (some b) none s (K.idle_eff a s hnow).symm, hs.replace unread⟩
  | @exchange s x y a rest hidle =>
    exact ⟨drained_first s x y a rest _ none _ (K.abs_eff a s), (hs.eff a).replace unread⟩
  | @fail s x y a rest b hidle hb =>
    refine ⟨?_, hs.replace read⟩
    rw [drained, drained, pending_split, pending_split]

theorem drained_run (hs : K.Seen x) (h : ReflTransGen K.Step x x') : K.drained x' = K.drained x ∧ K.Seen x' := by
  induction h with
  | refl => exact ⟨rfl, hs⟩
  | tail _ hstep ih =>
    cases hstep with
    | work hw =>
      obtain ⟨hdrained, hseen⟩ := drained_work ih.2 hw
      exact ⟨hdrained.trans ih.1, hseen⟩
    | spurious _ => exact ih

/-! ## The end -/

open Classical in
/-- What a thread's next loop has before it: to read, to read again, or to exchange. -/
noncomputable def rounds (K : LockFree σ τ A β) (s : σ) (t : Thread A β) : ℕ :=
  match t.todo, t.loaded with
  | _, none => 2
  | [], some _ => 0
  | a :: _, some b => if b = K.view a s then 0 else 1

/-- What is left: instructions, and rounds of the loops. -/
noncomputable def effort (K : LockFree σ τ A β) (x : State σ A β) : ℕ × ℕ :=
  (x.pending.length, (x.threads.map (K.rounds x.shared)).sum)

theorem effort_round {s : σ} {x y : List (Thread A β)} {t t' : Thread A β} (htodo : t'.todo = t.todo)
    (h : K.rounds s t' < K.rounds s t) :
    Prod.Lex (· < ·) (· < ·) (K.effort ⟨s, x ++ t' :: y⟩) (K.effort ⟨s, x ++ t :: y⟩) := by
  have hpending : (⟨s, x ++ t' :: y⟩ : State σ A β).pending = (⟨s, x ++ t :: y⟩ : State σ A β).pending := by
    rw [pending_split, pending_split, htodo]
  rw [effort, effort, hpending]
  refine .right _ ?_
  simp only [List.map_append, List.map_cons, List.sum_append, List.sum_cons]
  omega

theorem effort_done {s s' : σ} {x y : List (Thread A β)} {a : A} {rest : List A} {l l' : Option β} :
    Prod.Lex (· < ·) (· < ·) (K.effort ⟨s', x ++ ⟨rest, l'⟩ :: y⟩) (K.effort ⟨s, x ++ ⟨a :: rest, l⟩ :: y⟩) := by
  refine .left _ _ ?_
  rw [pending_split, pending_split]
  simp only [List.length_append, List.length_cons]
  omega

/-- **A step leaves less to do.**  An exchange fails where another has gone through since. -/
theorem effort_work (h : K.Work x x') : Prod.Lex (· < ·) (· < ·) (K.effort x') (K.effort x) := by
  cases h with
  | atomic _ => exact effort_done
  | load _ => exact effort_round rfl (by simp [rounds])
  | leave _ => exact effort_done
  | exchange _ => exact effort_done
  | fail _ hb => exact effort_round rfl (by simp [rounds, hb])

theorem goesOn (x : State σ A β) : x.pending = [] ∨ ∃ x', K.Work x x' := by
  obtain ⟨s, ts⟩ := x
  by_cases hdone : ∀ t ∈ ts, t.todo = []
  · exact .inl (List.flatMap_eq_nil_iff.2 hdone)
  · right
    obtain ⟨t, ht⟩ := not_forall.1 hdone
    obtain ⟨hmem, htodo⟩ := Classical.not_imp.1 ht
    obtain ⟨x, y, rfl⟩ := List.append_of_mem hmem
    obtain ⟨todo, loaded⟩ := t
    cases todo with
    | nil => exact absurd rfl htodo
    | cons a rest =>
      cases loaded with
      | none =>
        cases ha : K.atomic a with
        | true => exact ⟨_, .atomic ha⟩
        | false => exact ⟨_, .load ha⟩
      | some b =>
        by_cases hidle : K.idle a b
        · exact ⟨_, .leave hidle⟩
        · by_cases hb : b = K.view a s
          · subst hb
            exact ⟨_, .exchange hidle⟩
          · exact ⟨_, .fail hidle hb⟩

/-- **The threads end**, where no exchange fails for no reason, with nothing left. -/
theorem terminates (x : State σ A β) : Terminates K.Work (fun x => x.pending = []) x where
  ends := Subrelation.accessible (fun h => effort_work h)
    (InvImage.accessible K.effort ((Prod.lex Nat.lt_wfRel Nat.lt_wfRel).wf.apply (K.effort x)))
  goesOn y _ := goesOn y

end LockFree

end Lib
