import Mathlib.Logic.Basic
/-!
# Retry — a loop of attempts, and two of them in step

A loop makes one attempt after another until one is final or none is left; `attempts` counts them.  `attempts_spec`
has what the last of them is good for.  `lockstep_iff` compares two loops: they come to related results after as
many attempts each, unless an attempt parts them, and then they do not.
-/
namespace Lib.Retry

/-- What an attempt comes to: another one, with the state it starts from, or the result. -/
inductive Verdict (σ ρ : Type) where
  | again (s : σ)
  | done (r : ρ)

/-- The result, where what is behind an attempt has one. -/
def Verdict.resume {σ ρ : Type} (next : σ → Option ρ) : Verdict σ ρ → Option ρ
  | .again s => next s
  | .done r => some r

section One

variable {σ ρ : Type} (verdict : (left attempt : Nat) → σ → Option (Verdict σ ρ)) (exhausted : σ → ρ)

/-- The loop from `attempt` on with `left` attempts to go: its result, and how many it made.  A verdict is told how many
are left behind its own attempt. -/
def attempts : (left attempt : Nat) → σ → Option (ρ × Nat)
  | 0, _, s => some (exhausted s, 0)
  | left + 1, attempt, s =>
    match verdict left attempt s with
    | none => none
    | some (.done r) => some (r, 1)
    | some (.again s) => (attempts left (attempt + 1) s).map fun made => (made.1, made.2 + 1)

variable {verdict exhausted}

theorem attempts_done {left attempt : Nat} {s : σ} {r : ρ} (h : verdict left attempt s = some (.done r)) :
    attempts verdict exhausted (left + 1) attempt s = some (r, 1) := by
  rw [attempts, h]

theorem attempts_again {left attempt : Nat} {s t : σ} (h : verdict left attempt s = some (.again t)) :
    attempts verdict exhausted (left + 1) attempt s =
      (attempts verdict exhausted left (attempt + 1) t).map fun made => (made.1, made.2 + 1) := by
  rw [attempts, h]

/-- The result alone, by the verdict on the first attempt. -/
theorem attempts_fst (left attempt : Nat) (s : σ) :
    (attempts verdict exhausted (left + 1) attempt s).map Prod.fst =
      (verdict left attempt s).bind (Verdict.resume fun t =>
        (attempts verdict exhausted left (attempt + 1) t).map Prod.fst) := by
  rw [attempts]
  split
  · rename_i h
    rw [h]
    rfl
  · rename_i h
    rw [h]
    rfl
  · rename_i t h
    rw [h, Option.map_map]
    rfl

theorem attempts_pos {left attempt : Nat} {s : σ} {made : ρ × Nat} (hleft : left ≠ 0)
    (h : attempts verdict exhausted left attempt s = some made) : 0 < made.2 := by
  cases left with
  | zero => exact absurd rfl hleft
  | succ left =>
    rw [attempts] at h
    split at h
    · exact absurd h (by simp)
    · rw [← Option.some.inj h]
      exact Nat.one_pos
    · obtain ⟨inner, -, rfl⟩ := Option.map_eq_some_iff.1 h
      exact Nat.succ_pos _

/-- **A loop whose attempts each go on or are done well comes to a good result.** -/
theorem attempts_spec (Q : ρ → Prop) (hover : ∀ s, Q (exhausted s))
    (hstep : ∀ left attempt s, (∃ t, verdict left attempt s = some (.again t)) ∨
      ∃ r, verdict left attempt s = some (.done r) ∧ Q r) (left attempt : Nat) (s : σ) :
    ∃ made, attempts verdict exhausted left attempt s = some made ∧ Q made.1 := by
  induction left generalizing attempt s with
  | zero => exact ⟨_, rfl, hover s⟩
  | succ left ih =>
    rcases hstep left attempt s with ⟨t, h⟩ | ⟨r, h, hr⟩
    · obtain ⟨made, hmade, hQ⟩ := ih (attempt + 1) t
      rw [attempts_again h, hmade]
      exact ⟨_, rfl, hQ⟩
    · exact ⟨_, attempts_done h, hr⟩

end One

section Two

variable {σ σ' ρ ρ' : Type} (verdict : (left attempt : Nat) → σ → Option (Verdict σ ρ)) (exhausted : σ → ρ)
  (verdict' : (left attempt : Nat) → σ' → Option (Verdict σ' ρ')) (exhausted' : σ' → ρ') (R : σ → σ' → Prop)
  (Q : ρ → ρ' → Prop)

/-- Two loops come to related results, after as many attempts each. -/
def InStep (left attempt : Nat) (s : σ) (s' : σ') : Prop :=
  ∃ made made', attempts verdict exhausted left attempt s = some made ∧
    attempts verdict' exhausted' left attempt s' = some made' ∧ Q made.1 made'.1 ∧ made.2 = made'.2

/-- Both verdicts ask for another attempt, or both are final. -/
inductive Agree (left attempt : Nat) (s : σ) (s' : σ') : Prop where
  | again (t : σ) (t' : σ') (h : verdict left attempt s = some (.again t)) (h' : verdict' left attempt s' = some (.again t'))
      (hR : R t t')
  | done (r : ρ) (r' : ρ') (h : verdict left attempt s = some (.done r)) (h' : verdict' left attempt s' = some (.done r'))
      (hQ : Q r r')

/-- The first verdict asks for another attempt where the second is final, or the two are final with results that are not
related. -/
inductive Parted (left attempt : Nat) (s : σ) (s' : σ') : Prop where
  | again (t : σ) (r' : ρ') (hleft : left ≠ 0) (h : verdict left attempt s = some (.again t))
      (h' : verdict' left attempt s' = some (.done r'))
  | done (r : ρ) (r' : ρ') (h : verdict left attempt s = some (.done r)) (h' : verdict' left attempt s' = some (.done r'))
      (hQ : ¬ Q r r')

variable {verdict exhausted verdict' exhausted' R Q}

theorem inStep_again {left attempt : Nat} {s t : σ} {s' t' : σ'} (h : verdict left attempt s = some (.again t))
    (h' : verdict' left attempt s' = some (.again t')) :
    InStep verdict exhausted verdict' exhausted' Q (left + 1) attempt s s' ↔
      InStep verdict exhausted verdict' exhausted' Q left (attempt + 1) t t' := by
  unfold InStep
  rw [attempts_again h, attempts_again h']
  constructor
  · rintro ⟨made, made', hmade, hmade', hQ, hcount⟩
    obtain ⟨inner, hinner, rfl⟩ := Option.map_eq_some_iff.1 hmade
    obtain ⟨inner', hinner', rfl⟩ := Option.map_eq_some_iff.1 hmade'
    exact ⟨inner, inner', hinner, hinner', hQ, Nat.succ.inj hcount⟩
  · rintro ⟨inner, inner', hinner, hinner', hQ, hcount⟩
    rw [hinner, hinner']
    exact ⟨_, _, rfl, rfl, hQ, congrArg Nat.succ hcount⟩

theorem Parted.not_inStep {left attempt : Nat} {s : σ} {s' : σ'} (hp : Parted verdict verdict' Q left attempt s s') :
    ¬ InStep verdict exhausted verdict' exhausted' Q (left + 1) attempt s s' := by
  rintro ⟨made, made', hmade, hmade', hQ, hcount⟩
  cases hp with
  | again t r' hleft h h' =>
    rw [attempts_again h] at hmade
    rw [attempts_done h', Option.some.injEq] at hmade'
    obtain ⟨inner, hinner, rfl⟩ := Option.map_eq_some_iff.1 hmade
    have hpos := attempts_pos hleft hinner
    rw [← hmade'] at hcount
    dsimp only at hcount
    omega
  | done r r' h h' hnot =>
    rw [attempts_done h, Option.some.injEq] at hmade
    rw [attempts_done h', Option.some.injEq] at hmade'
    rw [← hmade, ← hmade'] at hQ
    exact hnot hQ

/-- **Two loops stay in step exactly where no attempt they both reach parts them.**  `Again` says of an attempt that both
go on after it, `Parts` that they part, where so many are left behind it. -/
theorem lockstep_iff (Again : Nat → Prop) (Parts : (left attempt : Nat) → Prop)
    (hover : ∀ s s', R s s' → Q (exhausted s) (exhausted' s'))
    (hagree : ∀ left attempt s s', R s s' → ¬ Parts left attempt → Agree verdict verdict' R Q left attempt s s')
    (hagain : ∀ left attempt s t, verdict left attempt s = some (.again t) → Again attempt ∨ Parts left attempt)
    (hdone : ∀ left attempt s r, verdict left attempt s = some (.done r) → left ≠ 0 → ¬ Again attempt)
    (hparts : ∀ left attempt s s', R s s' → Parts left attempt → Parted verdict verdict' Q left attempt s s')
    (left attempt : Nat) (s : σ) (s' : σ') (hs : R s s') :
    InStep verdict exhausted verdict' exhausted' Q left attempt s s' ↔
      ¬ ∃ k rest, attempt ≤ k ∧ k + 1 + rest = attempt + left ∧ Parts rest k ∧ ∀ j, attempt ≤ j → j < k → Again j := by
  induction left generalizing attempt s s' with
  | zero =>
    refine iff_of_true ⟨_, _, rfl, rfl, hover s s' hs, rfl⟩ ?_
    rintro ⟨k, rest, hle, heq, -⟩
    omega
  | succ left ih =>
    by_cases hp : Parts left attempt
    · refine iff_of_false (hparts left attempt s s' hs hp).not_inStep
        (not_not.2 ⟨attempt, left, Nat.le_refl _, by omega, hp, fun j hj hlt => ?_⟩)
      omega
    -- neither side of the statement is about this attempt
    have hlater : ∀ k rest, attempt ≤ k → k + 1 + rest = attempt + (left + 1) → Parts rest k → attempt < k := by
      intro k rest hle heq hk
      rcases Nat.eq_or_lt_of_le hle with rfl | h
      · obtain rfl : rest = left := by omega
        exact absurd hk hp
      · exact h
    cases hagree left attempt s s' hs hp with
    | done r r' hv hv' hQ =>
      refine iff_of_true ⟨_, _, attempts_done hv, attempts_done hv', hQ, rfl⟩ ?_
      rintro ⟨k, rest, hle, heq, hk, hbefore⟩
      have hk' := hlater k rest hle heq hk
      exact hdone left attempt s r hv (by omega) (hbefore attempt (Nat.le_refl _) hk')
    | again t t' hv hv' hR =>
      rw [inStep_again hv hv', ih (attempt + 1) t t' hR, not_iff_not]
      constructor
      · rintro ⟨k, rest, hle, heq, hk, hbefore⟩
        refine ⟨k, rest, by omega, by omega, hk, fun j hj hjk => ?_⟩
        rcases Nat.eq_or_lt_of_le hj with rfl | hj
        · exact (hagain left attempt s t hv).resolve_right hp
        · exact hbefore j hj hjk
      · rintro ⟨k, rest, hle, heq, hk, hbefore⟩
        have hk' := hlater k rest hle heq hk
        exact ⟨k, rest, hk', by omega, hk, fun j hj hjk => hbefore j (by omega) hjk⟩

end Two

end Lib.Retry
