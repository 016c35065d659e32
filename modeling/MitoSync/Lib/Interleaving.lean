import Mathlib.Data.List.Basic
import Mathlib.Tactic
/-!
# Interleaving — steps on different parts of a state, in any order

Steps have kinds, and steps of different kinds commute, failures included.  Then a run depends on the order inside each
kind only: two lists with the same steps of each kind in the same order come to the same end
(`foldlM_eq_of_sameOrders`).
-/
namespace Lib

variable {α σ κ : Type} {kind : α → κ} {step : σ → α → Option σ}

/-- Steps of different kinds commute. -/
def Commutes (kind : α → κ) (step : σ → α → Option σ) : Prop :=
  ∀ s x y, kind x ≠ kind y → ((step s x).bind fun s => step s y) = (step s y).bind fun s => step s x

/-- A step is moved to the front past steps of other kinds. -/
theorem foldlM_past (hcomm : Commutes kind step) {x : α} {bs : List α} : ∀ (as : List α) (s : σ),
    (∀ a ∈ as, kind a ≠ kind x) → (as ++ x :: bs).foldlM step s = (x :: (as ++ bs)).foldlM step s
  | [], _, _ => rfl
  | a :: as, s, h => by
    have ih : ∀ s', (as ++ x :: bs).foldlM step s' = (x :: (as ++ bs)).foldlM step s' :=
      fun s' => foldlM_past hcomm as s' fun b hb => h b (List.mem_cons_of_mem _ hb)
    have hax := hcomm s a x (h a List.mem_cons_self)
    simp only [List.cons_append, List.foldlM_cons, ih, Option.bind_eq_bind]
    rw [← Option.bind_assoc, ← Option.bind_assoc, hax]

section Orders

variable [DecidableEq κ]

/-- The same steps of each kind, in the same order. -/
def SameOrders (kind : α → κ) (xs ys : List α) : Prop :=
  ∀ c, xs.filter (fun x => kind x = c) = ys.filter (fun x => kind x = c)

theorem SameOrders.nil {ys : List α} (h : SameOrders kind [] ys) : ys = [] := by
  by_contra hne
  obtain ⟨y, ys, rfl⟩ := List.exists_cons_of_ne_nil hne
  have hy := h (kind y)
  rw [List.filter_nil, List.filter_cons_of_pos (by simp)] at hy
  exact absurd hy (by simp)

/-- The first step of a kind stands behind steps of other kinds. -/
theorem SameOrders.cons {x : α} {xs ys : List α} (h : SameOrders kind (x :: xs) ys) :
    ∃ as bs, ys = as ++ x :: bs ∧ (∀ a ∈ as, kind a ≠ kind x) ∧ SameOrders kind xs (as ++ bs) := by
  have hx := h (kind x)
  rw [List.filter_cons_of_pos (by simp)] at hx
  obtain ⟨as, bs, rfl, has, -, hbs⟩ := List.filter_eq_cons_iff.1 hx.symm
  have hother : ∀ a ∈ as, kind a ≠ kind x := fun a ha => by simpa using has a ha
  refine ⟨as, bs, rfl, hother, fun c => ?_⟩
  have hc := h c
  rw [List.filter_append] at hc ⊢
  by_cases hkind : kind x = c
  · subst hkind
    have hnil : as.filter (fun y => kind y = kind x) = [] := List.filter_eq_nil_iff.2 has
    rw [hnil, List.nil_append, hbs]
  · rw [List.filter_cons_of_neg (by simpa using hkind), List.filter_cons_of_neg (by simpa using hkind)] at hc
    exact hc

/-- **A run depends on the order inside each kind only.** -/
theorem foldlM_eq_of_sameOrders (hcomm : Commutes kind step) : ∀ (xs ys : List α) (s : σ), SameOrders kind xs ys →
    xs.foldlM step s = ys.foldlM step s
  | [], ys, s, h => by rw [h.nil]
  | x :: xs, ys, s, h => by
    obtain ⟨as, bs, rfl, has, hrest⟩ := h.cons
    rw [foldlM_past hcomm as s has, List.foldlM_cons, List.foldlM_cons]
    exact congrArg _ (funext fun s' => foldlM_eq_of_sameOrders hcomm xs (as ++ bs) s' hrest)

end Orders

end Lib
