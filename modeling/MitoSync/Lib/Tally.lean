import Mathlib.Algebra.BigOperators.Group.Finset.Basic
import Mathlib.Algebra.BigOperators.Fin
import Mathlib.Algebra.Order.BigOperators.Group.Finset
/-!
# Tally — how many threads are in a phase

Threads are a function from `Fin n` to phases, and a step changes one of them.
-/
namespace Lib

variable {α : Type} {n : Nat} {p q : α → Bool} {f : Fin n → α} {i : Fin n}

def tally (p : α → Bool) (f : Fin n → α) : Nat := ∑ i, (p (f i)).toNat

/-- One summand changes. -/
theorem sum_update (w : α → Nat) (f : Fin n → α) (i : Fin n) (y : α) :
    ∑ j, w (Function.update f i y j) + w (f i) = ∑ j, w (f j) + w y := by
  have hothers : ∀ j ∈ Finset.univ.erase i, w (Function.update f i y j) = w (f j) := fun j hj => by
    rw [Function.update_of_ne (Finset.ne_of_mem_erase hj)]
  rw [← Finset.add_sum_erase _ _ (Finset.mem_univ i), ← Finset.add_sum_erase _ _ (Finset.mem_univ i),
    Finset.sum_congr rfl hothers, Function.update_self]
  omega

variable (p) in
/-- One thread moves. -/
theorem tally_update {x : α} (h : f i = x) (y : α) :
    tally p (Function.update f i y) + (p x).toNat = tally p f + (p y).toNat := by
  subst h
  exact sum_update (fun a => (p a).toNat) f i y

theorem tally_pos (h : p (f i) = true) : 0 < tally p f := by
  have hle : (p (f i)).toNat ≤ tally p f :=
    Finset.single_le_sum (f := fun j => (p (f j)).toNat) (fun j _ => Nat.zero_le _) (Finset.mem_univ i)
  rw [h] at hle
  exact hle

theorem exists_of_tally_pos (h : 0 < tally p f) : ∃ i, p (f i) = true := by
  by_contra hnone
  have hzero : tally p f = 0 := Finset.sum_eq_zero fun i _ => by
    rw [Bool.eq_false_iff.2 fun hi => hnone ⟨i, hi⟩]
    rfl
  omega

theorem tally_eq_zero (h : ∀ i, p (f i) = false) : tally p f = 0 := Finset.sum_eq_zero fun i _ => by
  rw [h i]
  rfl

/-- The tallies of disjoint sets of phases. -/
theorem tally_add (h : ∀ a, (p a && q a) = false) : tally p f + tally q f = tally (fun a => p a || q a) f := by
  unfold tally
  rw [← Finset.sum_add_distrib]
  refine Finset.sum_congr rfl fun i _ => ?_
  have hi := h (f i)
  cases hp : p (f i) <;> cases hq : q (f i) <;> simp_all

/-- Every thread moves. -/
theorem tally_map {g : α → α} (h : ∀ a, p (g a) = q a) : tally p (fun i => g (f i)) = tally q f :=
  Finset.sum_congr rfl fun i _ => by rw [h]

theorem tally_not : tally p f + tally (fun a => !p a) f = n := by
  unfold tally
  rw [← Finset.sum_add_distrib]
  have hone : ∀ i ∈ Finset.univ, (p (f i)).toNat + (!p (f i)).toNat = 1 := fun i _ => by cases p (f i) <;> rfl
  rw [Finset.sum_congr rfl hone, Finset.sum_const, Finset.card_univ, Fintype.card_fin, smul_eq_mul, mul_one]

theorem tally_lt (h : p (f i) = false) : tally p f < n := by
  have hpos : 0 < tally (fun a => !p a) f := tally_pos (i := i) (by rw [h]; rfl)
  have hnot := tally_not (p := p) (f := f)
  omega

theorem all_of_tally (h : tally p f = n) (i : Fin n) : p (f i) = true := by
  by_contra hi
  exact absurd h (Nat.ne_of_lt (tally_lt (Bool.eq_false_iff.2 hi)))

theorem tally_all (h : ∀ i, p (f i) = true) : tally p f = n := by
  have hzero : tally (fun a => !p a) f = 0 := tally_eq_zero fun i => by rw [h i]; rfl
  have hnot := tally_not (p := p) (f := f)
  omega

end Lib
