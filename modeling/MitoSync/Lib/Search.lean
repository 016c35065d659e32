import Mathlib.Data.List.Infix
import Mathlib.Tactic
/-!
# Search — what stands before the first occurrence of a text

`beforeFirst` is a search from the left.  It answers `b` where the pattern stands behind `b` and nowhere earlier
(`beforeFirst_eq_some_iff`), and nothing where the pattern stands nowhere.
-/
namespace Lib

variable {α : Type} {pat b s : List α}

/-- The pattern stands behind `b`, and no occurrence ends before that one does. -/
def FirstAt (pat b s : List α) : Prop := b ++ pat <+: s ∧ ¬ pat <:+: (b ++ pat).dropLast

theorem firstAt_nil (hpat : pat ≠ []) : FirstAt pat [] s ↔ pat <+: s := by
  refine and_iff_left_of_imp fun _ hin => ?_
  have hlen := hin.length_le
  have hpos := List.length_pos_of_ne_nil hpat
  rw [List.nil_append, List.length_dropLast] at hlen
  omega

/-- An occurrence at the front is the first one. -/
theorem FirstAt.front (h : FirstAt pat b s) (hpre : pat <+: s) : b = [] := by
  by_contra hne
  obtain ⟨b', c, rfl⟩ := (List.eq_nil_or_concat b).resolve_left hne
  refine h.2 (List.IsPrefix.isInfix ?_)
  refine List.prefix_of_prefix_length_le hpre ((List.dropLast_prefix _).trans h.1) ?_
  simp

theorem firstAt_cons {c : α} (hpat : pat ≠ []) (hpre : ¬ pat <+: c :: s) :
    FirstAt pat (c :: b) (c :: s) ↔ FirstAt pat b s := by
  have hne : b ++ pat ≠ [] := by simp [hpat]
  unfold FirstAt
  rw [List.cons_append, List.cons_prefix_cons, List.dropLast_cons_of_ne_nil hne, List.infix_cons_iff]
  constructor
  · rintro ⟨⟨-, hb⟩, hfirst⟩
    exact ⟨hb, fun hin => hfirst (.inr hin)⟩
  · rintro ⟨hb, hfirst⟩
    refine ⟨⟨rfl, hb⟩, ?_⟩
    rintro (hfront | hin)
    · exact hpre (hfront.trans (List.cons_prefix_cons.2 ⟨rfl, (List.dropLast_prefix _).trans hb⟩))
    · exact hfirst hin

/-! ## The search -/

variable [DecidableEq α]

/-- What stands before the first occurrence of a pattern. -/
def beforeFirst (pat : List α) : List α → Option (List α)
  | [] => if pat = [] then some [] else none
  | c :: s => if pat.isPrefixOf (c :: s) then some [] else (beforeFirst pat s).map (c :: ·)

theorem beforeFirst_eq_none_iff (hpat : pat ≠ []) : beforeFirst pat s = none ↔ ¬ pat <:+: s := by
  induction s with
  | nil => simp [beforeFirst, hpat]
  | cons c s ih =>
    rw [beforeFirst, List.infix_cons_iff, not_or, ← ih]
    by_cases hpre : pat <+: c :: s
    · simp [hpre]
    · rw [if_neg (mt List.isPrefixOf_iff_prefix.1 hpre), Option.map_eq_none_iff]
      exact (and_iff_right hpre).symm

/-- **The search stops at the first occurrence.** -/
theorem beforeFirst_eq_some_iff (hpat : pat ≠ []) : beforeFirst pat s = some b ↔ FirstAt pat b s := by
  induction s generalizing b with
  | nil =>
    refine iff_of_false (by simp [beforeFirst, hpat]) fun h => ?_
    exact hpat (List.append_eq_nil_iff.1 (List.prefix_nil.1 h.1)).2
  | cons c s ih =>
    rw [beforeFirst]
    by_cases hpre : pat <+: c :: s
    · rw [if_pos (List.isPrefixOf_iff_prefix.2 hpre)]
      constructor
      · intro h
        obtain rfl := Option.some.inj h
        exact (firstAt_nil hpat).2 hpre
      · intro h
        rw [h.front hpre]
    · rw [if_neg (mt List.isPrefixOf_iff_prefix.1 hpre), Option.map_eq_some_iff]
      constructor
      · rintro ⟨b', hb', rfl⟩
        exact (firstAt_cons hpat hpre).2 (ih.1 hb')
      · intro h
        cases b with
        | nil => exact absurd ((firstAt_nil hpat).1 h) hpre
        | cons d b =>
          obtain rfl : d = c := (List.cons_prefix_cons.1 h.1).1
          exact ⟨b, ih.2 ((firstAt_cons hpat hpre).1 h), rfl⟩

end Lib
