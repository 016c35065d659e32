import Mathlib.Logic.Basic
/-!
# Machine — what a machine answers to a run of commands

A machine takes a command in a state, answers it and comes to the next state.  Two of them that answer alike from related
states, and stay related, answer alike for good (`outputs_eq`).
-/
namespace Lib.Machine

variable {σ τ Command Answer : Type}

/-- The answers to a run of commands. -/
def outputs (step : σ → Command → Answer × σ) : List Command → σ → List Answer
  | [], _ => []
  | c :: cs, s => (step s c).1 :: outputs step cs (step s c).2

/-- The state a run of commands leads to. -/
def after (step : σ → Command → Answer × σ) : List Command → σ → σ
  | [], s => s
  | c :: cs, s => after step cs (step s c).2

variable {step : σ → Command → Answer × σ} {step' : τ → Command → Answer × τ} {R : σ → τ → Prop}

variable (R) in
theorem after_related (hstep : ∀ s t c, R s t → R (step s c).2 (step' t c).2) (cs : List Command) (s : σ) (t : τ)
    (h : R s t) : R (after step cs s) (after step' cs t) := by
  induction cs generalizing s t with
  | nil => exact h
  | cons c cs ih => exact ih _ _ (hstep s t c h)

variable (R) in
/-- **A simulation that answers alike.** -/
theorem outputs_eq (hstep : ∀ s t c, R s t → (step s c).1 = (step' t c).1 ∧ R (step s c).2 (step' t c).2)
    (cs : List Command) (s : σ) (t : τ) (h : R s t) : outputs step cs s = outputs step' cs t := by
  induction cs generalizing s t with
  | nil => rfl
  | cons c cs ih =>
    obtain ⟨hanswer, hnext⟩ := hstep s t c h
    rw [outputs, outputs, hanswer, ih _ _ hnext]

end Lib.Machine
