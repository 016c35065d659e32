import Mathlib.Logic.Relation
import Mathlib.Tactic
/-!
# Prog — interaction programs and their preconditions

A program is a tree of requests to a world that answers as it likes within `exec`.  `wp` is its weakest precondition in
two parts: `Q` where it returns, and `I` at every point where it still runs, so one proof covers both what a finished
program did and what a killed one leaves behind.  `halt` is a point from which the program never returns (a spent loop
bound, a process that died): `H` is what is asked there, `False` where a program must be shown to finish.
-/
namespace Lib

inductive Prog (C : Type) (R : C → Type) (α : Type) : Type
  | ret (a : α)
  | call (c : C) (k : R c → Prog C R α)
  | halt

namespace Prog

variable {C : Type} {R : C → Type} {α β σ : Type}

def bind : Prog C R α → (α → Prog C R β) → Prog C R β
  | .ret a, f => f a
  | .call c k, f => .call c (fun r => bind (k r) f)
  | .halt, _ => .halt

instance : Monad (Prog C R) where
  pure := .ret
  bind := bind

/-- One request, returning its answer. -/
def req (c : C) : Prog C R (R c) := .call c .ret

@[simp] theorem pure_eq (a : α) : (pure a : Prog C R α) = .ret a := rfl

@[simp] theorem ret_bind (a : α) (f : α → Prog C R β) : (ret a : Prog C R α) >>= f = f a := rfl

@[simp] theorem call_bind (c : C) (k : R c → Prog C R α) (f : α → Prog C R β) :
    (call c k) >>= f = call c (fun r => k r >>= f) := rfl

@[simp] theorem halt_bind (f : α → Prog C R β) : (halt : Prog C R α) >>= f = halt := rfl

/-! ## Programs over other requests -/

section Interp

variable {C' : Type} {R' : C' → Type}

/-- A program each of whose requests is carried out by a program over other requests. -/
def interp (g : (c : C) → Prog C' R' (R c)) : Prog C R α → Prog C' R' α
  | .ret a => .ret a
  | .call c k => bind (g c) (fun r => interp g (k r))
  | .halt => .halt

theorem prog_bind_assoc {γ : Type} (f : α → Prog C R β) (g : β → Prog C R γ) :
    ∀ p : Prog C R α, p >>= f >>= g = p >>= fun a => f a >>= g
  | .ret _ => rfl
  | .halt => rfl
  | .call c k => congrArg (call c) (funext fun r => prog_bind_assoc f g (k r))

/-- A sequence is carried out part by part. -/
theorem interp_bind (g : (c : C) → Prog C' R' (R c)) (f : α → Prog C R β) :
    ∀ p : Prog C R α, interp g (p >>= f) = interp g p >>= fun a => interp g (f a)
  | .ret _ => rfl
  | .halt => rfl
  | .call c k => by
    have hk : (fun r => interp g (k r >>= f)) = fun r => interp g (k r) >>= fun a => interp g (f a) :=
      funext fun r => interp_bind g f (k r)
    show g c >>= (fun r => interp g (k r >>= f)) = _
    rw [hk]
    exact (prog_bind_assoc _ _ (g c)).symm

end Interp

/-- Every request a program makes, whatever it is answered, is one of `P`. -/
def Asks (P : C → Prop) : Prog C R α → Prop
  | .ret _ => True
  | .call c k => P c ∧ ∀ r, Asks P (k r)
  | .halt => True

@[simp] theorem asks_ret {P : C → Prop} {a : α} : Asks P (ret a : Prog C R α) ↔ True := Iff.rfl

@[simp] theorem asks_req {P : C → Prop} {c : C} : Asks P (req c : Prog C R (R c)) ↔ P c :=
  ⟨And.left, fun h => ⟨h, fun _ => trivial⟩⟩

/-- What a sequence asks, its parts ask. -/
theorem asks_bind {P : C → Prop} {f : α → Prog C R β} : ∀ {p : Prog C R α},
    Asks P p → (∀ a, Asks P (f a)) → Asks P (p >>= f)
  | .ret a, _, hf => hf a
  | .halt, _, _ => trivial
  | .call _ _, hp, hf => ⟨hp.1, fun r => asks_bind (hp.2 r) hf⟩

theorem asks_of_forall {P : C → Prop} (h : ∀ c, P c) : ∀ p : Prog C R α, Asks P p
  | .ret _ => trivial
  | .halt => trivial
  | .call c k => ⟨h c, fun r => asks_of_forall h (k r)⟩

/-- What holds of a program once it holds of its parts. -/
structure Composes (S : ∀ {α : Type}, Prog C R α → Prop) : Prop where
  ret : ∀ {α : Type} (a : α), S (ret a)
  halt : ∀ {α : Type}, S (halt : Prog C R α)
  bind : ∀ {α β : Type} {p : Prog C R α} {f : α → Prog C R β}, S p → (∀ a, S (f a)) → S (p >>= f)

/-- Asking only `P` is asking only what `P` implies. -/
theorem asks_mono {P P' : C → Prop} (h : ∀ c, P c → P' c) : ∀ {p : Prog C R α}, Asks P p → Asks P' p
  | .ret _, _ => trivial
  | .halt, _ => trivial
  | .call c _, hp => ⟨h c hp.1, fun r => asks_mono h (hp.2 r)⟩

theorem asks_composes (P : C → Prop) : Composes (fun {α} (p : Prog C R α) => Asks P p) where
  ret _ := trivial
  halt := trivial
  bind := asks_bind

/-- Every request is one of `P`, whatever it is answered, and what is returned satisfies `Q`. -/
def AsksThen (P : C → Prop) (Q : α → Prop) : Prog C R α → Prop
  | .ret a => Q a
  | .call c k => P c ∧ ∀ r, AsksThen P Q (k r)
  | .halt => True

/-- What a sequence asks, its parts ask, the second of what the first may return. -/
theorem AsksThen.bind {P : C → Prop} {Q : α → Prop} {f : α → Prog C R β} : ∀ {p : Prog C R α},
    AsksThen P Q p → (∀ a, Q a → Asks P (f a)) → Asks P (p >>= f)
  | .ret a, hp, hf => hf a hp
  | .halt, _, _ => trivial
  | .call _ _, hp, hf => ⟨hp.1, fun r => AsksThen.bind (hp.2 r) hf⟩

/-- A program carried out by programs that ask only `P'` asks only `P'`. -/
theorem asks_interp {C' : Type} {R' : C' → Type} {P : C → Prop} {P' : C' → Prop} {g : (c : C) → Prog C' R' (R c)}
    (hg : ∀ c, P c → Asks P' (g c)) : ∀ {p : Prog C R α}, Asks P p → Asks P' (interp g p)
  | .ret _, _ => trivial
  | .halt, _ => trivial
  | .call c _, hp => asks_bind (hg c hp.1) (fun r => asks_interp hg (hp.2 r))

/-! ## Preconditions -/

section Wp

variable (exec : (c : C) → σ → R c → σ → Prop) (I H : σ → Prop)

def wp : Prog C R α → (α → σ → Prop) → σ → Prop
  | .ret a, Q, s => Q a s
  | .call c k, Q, s => I s ∧ ∀ r s', exec c s r s' → wp (k r) Q s'
  | .halt, _, s => H s

variable {exec I H}

@[simp] theorem wp_ret {a : α} {Q : α → σ → Prop} {s : σ} :
    wp exec I H (ret a : Prog C R α) Q s ↔ Q a s := Iff.rfl

@[simp] theorem wp_halt {Q : α → σ → Prop} {s : σ} :
    wp exec I H (halt : Prog C R α) Q s ↔ H s := Iff.rfl

@[simp] theorem wp_req {c : C} {Q : R c → σ → Prop} {s : σ} :
    wp exec I H (req c : Prog C R (R c)) Q s ↔ I s ∧ ∀ r s', exec c s r s' → Q r s' := Iff.rfl

theorem wp_call {c : C} {k : R c → Prog C R α} {Q : α → σ → Prop} {s : σ} :
    wp exec I H (call c k) Q s ↔ I s ∧ ∀ r s', exec c s r s' → wp exec I H (k r) Q s' := Iff.rfl

/-- **A sequence establishes `Q` when its first part establishes that the rest does.** -/
@[simp] theorem wp_bind {f : α → Prog C R β} {Q : β → σ → Prop} : ∀ {p : Prog C R α} {s : σ},
    wp exec I H (p >>= f) Q s ↔ wp exec I H p (fun a s => wp exec I H (f a) Q s) s
  | .ret _, _ => Iff.rfl
  | .halt, _ => Iff.rfl
  | .call c k, s => by
    rw [call_bind, wp_call, wp_call]
    exact and_congr_right fun _ => forall_congr' fun r => forall_congr' fun s' => imp_congr_right fun _ => wp_bind

theorem wp_mono {Q Q' : α → σ → Prop} (hQ : ∀ a s, Q a s → Q' a s) : ∀ {p : Prog C R α} {s : σ},
    wp exec I H p Q s → wp exec I H p Q' s
  | .ret a, s, h => hQ a s h
  | .halt, _, h => h
  | .call _ _, _, h => ⟨h.1, fun r s' he => wp_mono hQ (h.2 r s' he)⟩

/-- Two postconditions of one program, of which one says that it returns. -/
theorem wp_and {I' : σ → Prop} {Q Q' : α → σ → Prop} : ∀ {p : Prog C R α} {s : σ},
    wp exec I H p Q s → wp exec I' (fun _ => True) p Q' s → wp exec I H p (fun a s => Q a s ∧ Q' a s) s
  | .ret _, _, h, h' => ⟨h, h'⟩
  | .halt, _, h, _ => h
  | .call _ _, _, h, h' => ⟨h.1, fun r s' he => wp_and (h.2 r s' he) (h'.2 r s' he)⟩

/-- Nothing asked, nothing to show. -/
theorem wp_true : ∀ {p : Prog C R α} {s : σ}, wp exec (fun _ => True) (fun _ => True) p (fun _ _ => True) s
  | .ret _, _ => trivial
  | .halt, _ => trivial
  | .call _ _, _ => ⟨trivial, fun _ _ _ => wp_true⟩

/-- **What every request keeps, a program keeps**: an invariant of `exec` may be assumed while proving `wp`. -/
theorem wp_inv {J : σ → Prop} (hJ : ∀ c s r s', J s → exec c s r s' → J s') {Q : α → σ → Prop} :
    ∀ {p : Prog C R α} {s : σ}, J s → wp exec I H p Q s → wp exec I H p (fun a s => Q a s ∧ J s) s
  | .ret _, _, hs, h => ⟨h, hs⟩
  | .halt, _, _, h => h
  | .call c _, s, hs, h => ⟨h.1, fun r s' he => wp_inv hJ (hJ c s r s' hs he) (h.2 r s' he)⟩

/-- **A program that asks only what keeps `J` keeps `J`.** -/
theorem wp_asks {P : C → Prop} {J : σ → Prop} (hJ : ∀ c s r s', P c → J s → exec c s r s' → J s')
    (hI : ∀ s, J s → I s) (hH : ∀ s, J s → H s) :
    ∀ {p : Prog C R α} {s : σ}, Asks P p → J s → wp exec I H p (fun _ s => J s) s
  | .ret _, _, _, hs => hs
  | .halt, s, _, hs => hH s hs
  | .call c _, s, hp, hs => ⟨hI s hs, fun r s' he => wp_asks hJ hI hH (hp.2 r) (hJ c s r s' hp.1 hs he)⟩

/-- **A precondition may assume what the program's own requests keep.** -/
theorem wp_keeps {P : C → Prop} {J : σ → Prop} (hJ : ∀ c s r s', P c → I s → J s → exec c s r s' → J s')
    {Q : α → σ → Prop} : ∀ {p : Prog C R α} {s : σ}, Asks P p → J s → wp exec I H p Q s →
    wp exec (fun s => I s ∧ J s) H p (fun a s => Q a s ∧ J s) s
  | .ret _, _, _, hs, h => ⟨h, hs⟩
  | .halt, _, _, _, h => h
  | .call c _, s, hp, hs, h => ⟨⟨h.1, hs⟩, fun r s' he =>
      wp_keeps hJ (hp.2 r) (hJ c s r s' hp.1 h.1 hs he) (h.2 r s' he)⟩

/-- **A precondition may assume what the program is seen to return**, whatever it is answered. -/
theorem wp_asksThen {P : C → Prop} {Q' : α → Prop} {Q : α → σ → Prop} : ∀ {p : Prog C R α} {s : σ},
    AsksThen P Q' p → wp exec I H p Q s → wp exec I H p (fun a s => Q a s ∧ Q' a) s
  | .ret _, _, hp, h => ⟨h, hp⟩
  | .halt, _, _, h => h
  | .call _ _, _, hp, h => ⟨h.1, fun r s' he => wp_asksThen (hp.2 r) (h.2 r s' he)⟩

theorem AsksThen.asks {P : C → Prop} {Q : α → Prop} : ∀ {p : Prog C R α}, AsksThen P Q p → Asks P p
  | .ret _, _ => trivial
  | .halt, _ => trivial
  | .call _ _, hp => ⟨hp.1, fun r => (hp.2 r).asks⟩

/-- **A precondition of a program is one of what carries it out**, where carrying out one request answers as `exec`. -/
theorem wp_interp {C' τ : Type} {R' : C' → Type} {exec' : (c : C') → τ → R' c → τ → Prop} {I' H' : τ → Prop}
    {g : (c : C) → Prog C' R' (R c)} (f : τ → σ)
    (hg : ∀ c t (P : R c → τ → Prop), I (f t) → (∀ r t', exec c (f t) r (f t') → P r t') → wp exec' I' H' (g c) P t)
    (hH : ∀ t, H (f t) → H' t) {Q : α → σ → Prop} : ∀ {p : Prog C R α} {t : τ},
    wp exec I H p Q (f t) → wp exec' I' H' (interp g p) (fun a t => Q a (f t)) t
  | .ret _, _, h => h
  | .halt, t, h => hH t h
  | .call c k, t, h => by
    have hk := hg c t (fun r t' => wp exec' I' H' (interp g (k r)) (fun a t => Q a (f t)) t') h.1
      (fun r t' he => wp_interp f hg hH (h.2 r (f t') he))
    exact wp_bind.2 hk

/-- **Fewer answers leave a precondition true**, and so does asking less at a crash or a halt. -/
theorem wp_weaken {exec' : (c : C) → σ → R c → σ → Prop} {I' H' : σ → Prop}
    (he : ∀ c s r s', exec' c s r s' → exec c s r s') (hI : ∀ s, I s → I' s) (hH : ∀ s, H s → H' s)
    {Q : α → σ → Prop} : ∀ {p : Prog C R α} {s : σ}, wp exec I H p Q s → wp exec' I' H' p Q s
  | .ret _, _, h => h
  | .halt, s, h => hH s h
  | .call c _, s, h => ⟨hI s h.1, fun r s' hx => wp_weaken he hI hH (h.2 r s' (he c s r s' hx))⟩

/-! ## Runs -/

variable (exec) in
/-- One request answered. -/
inductive Step : Prog C R α × σ → Prog C R α × σ → Prop
  | answer {c : C} {k : R c → Prog C R α} {s s' : σ} {r : R c} (h : exec c s r s') : Step (call c k, s) (k r, s')

variable (exec) in
abbrev Steps : Prog C R α × σ → Prog C R α × σ → Prop := Relation.ReflTransGen (Step exec)

/-- A run that begins with the answer `r`. -/
theorem steps_answer {c : C} {k : R c → Prog C R α} {s : σ} {y : Prog C R α × σ} (r : R c) (s' : σ)
    (h : exec c s r s') (hy : Steps exec (k r, s') y) : Steps exec (call c k, s) y := .head (.answer h) hy

/-- A run of the first part of a sequence is a run of the sequence. -/
theorem steps_bind {x y : Prog C R α × σ} (h : Steps exec x y) (f : α → Prog C R β) :
    Steps exec (x.1 >>= f, x.2) (y.1 >>= f, y.2) := by
  induction h with
  | refl => exact .refl
  | tail _ hs ih =>
    cases hs with
    | answer he => exact ih.tail (.answer he)

/-- A run that some of the answers allow is a run. -/
theorem steps_weaken {exec' : (c : C) → σ → R c → σ → Prop} (he : ∀ c s r s', exec' c s r s' → exec c s r s')
    {x y : Prog C R α × σ} (h : Steps exec' x y) : Steps exec x y := by
  induction h with
  | refl => exact .refl
  | tail _ hs ih =>
    cases hs with
    | answer hx => exact ih.tail (.answer (he _ _ _ _ hx))

theorem steps_req {c : C} {s s' : σ} {r : R c} (h : exec c s r s') :
    Steps exec ((req c : Prog C R (R c)), s) (.ret r, s') := .single (.answer h)

theorem wp_step {Q : α → σ → Prop} {x y : Prog C R α × σ} (h : Step exec x y) (hx : wp exec I H x.1 Q x.2) :
    wp exec I H y.1 Q y.2 := by
  cases h with
  | answer he => exact hx.2 _ _ he

/-- **The precondition holds of what is left at every point of a run.** -/
theorem wp_steps {Q : α → σ → Prop} {x y : Prog C R α × σ} (h : Steps exec x y) (hx : wp exec I H x.1 Q x.2) :
    wp exec I H y.1 Q y.2 := by
  induction h with
  | refl => exact hx
  | tail _ hs ih => exact wp_step hs ih

/-- What a program asks, it asks at every point of a run. -/
theorem asks_steps {P : C → Prop} {x y : Prog C R α × σ} (h : Steps exec x y) (hx : Asks P x.1) : Asks P y.1 := by
  induction h with
  | refl => exact hx
  | tail _ hs ih =>
    cases hs with
    | answer he => exact ih.2 _

variable (exec) in
/-- Every request of a run from `s` is one of `P`: what a program asks where the world answers as `exec` says. -/
def AsksFrom (P : C → Prop) : Prog C R α → σ → Prop
  | .ret _, _ => True
  | .call c k, s => P c ∧ ∀ r s', exec c s r s' → AsksFrom P (k r) s'
  | .halt, _ => True

theorem asksFrom_req_bind {P : C → Prop} {c : C} {f : R c → Prog C R α} {s : σ} :
    AsksFrom exec P (req c >>= f) s ↔ P c ∧ ∀ r s', exec c s r s' → AsksFrom exec P (f r) s' := Iff.rfl

theorem Asks.from {P : C → Prop} : ∀ {p : Prog C R α} {s : σ}, Asks P p → AsksFrom exec P p s
  | .ret _, _, _ => trivial
  | .halt, _, _ => trivial
  | .call _ _, _, hp => ⟨hp.1, fun r _ _ => (hp.2 r).from⟩

/-- **The second part of a sequence asks what it does of what the first is known to establish.** -/
theorem AsksFrom.bind {P : C → Prop} {Q : α → σ → Prop} {f : α → Prog C R β} : ∀ {p : Prog C R α} {s : σ},
    AsksFrom exec P p s → wp exec (fun _ => True) (fun _ => True) p Q s →
    (∀ a s', Q a s' → AsksFrom exec P (f a) s') → AsksFrom exec P (p >>= f) s
  | .ret a, s, _, hp, hf => hf a s hp
  | .halt, _, _, _, _ => trivial
  | .call _ _, _, ha, hp, hf => ⟨ha.1, fun r s' he => AsksFrom.bind (ha.2 r s' he) (hp.2 r s' he) hf⟩

/-- **Every request at any point of a run is one of `P`.** -/
theorem AsksFrom.asked {P : C → Prop} {p : Prog C R α} {s s' : σ} {c : C} {k : R c → Prog C R α}
    (hp : AsksFrom exec P p s) (h : Steps exec (p, s) (call c k, s')) : P c := by
  have hrun : ∀ {x y : Prog C R α × σ}, Steps exec x y → AsksFrom exec P x.1 x.2 → AsksFrom exec P y.1 y.2 := by
    intro x y hxy hx
    induction hxy with
    | refl => exact hx
    | tail _ hs ih =>
      cases hs with
      | answer he => exact ih.2 _ _ he
  exact (hrun h hp).1

theorem wp_returns {p : Prog C R α} {Q : α → σ → Prop} {s s' : σ} {a : α} (hp : wp exec I H p Q s)
    (h : Steps exec (p, s) (ret a, s')) : Q a s' := wp_steps h hp

/-- **The crash invariant holds at every point of a run**, when a returned and a halted program have it too. -/
theorem wp_crash {p q : Prog C R α} {Q : α → σ → Prop} {s s' : σ} (hQ : ∀ a s, Q a s → I s) (hH : ∀ s, H s → I s)
    (hp : wp exec I H p Q s) (h : Steps exec (p, s) (q, s')) : I s' := by
  have hq := wp_steps h hp
  cases q with
  | ret a => exact hQ a s' hq
  | call c k => exact hq.1
  | halt => exact hH s' hq

end Wp

end Prog

end Lib
