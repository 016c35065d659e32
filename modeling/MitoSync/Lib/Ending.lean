import MitoSync.Lib.Levels
import MitoSync.Lib.Crew
import MitoSync.Lib.Pool
import Mathlib.Logic.Hydra
/-!
# Ending — a search by levels comes to its end, and so does a crew

Opening a place leaves a rest of it, and reading on leaves a smaller rest and places that are smaller still: the
pending places are the heads of a hydra (`Relation.CutExpand`), so a search takes finitely many steps, in whatever order
(`moves_acc`).  Where it goes round in circles it must spend from a budget each time.  It is not stuck before it is over
where every place can be opened and every rest read (`moves_progress`); the same holds of the steps that neither fail
nor cancel (`going_acc`, `going_progress`).  A search may also hand over its entries level by level, in batches.

The programs of a crew are the heads of a second hydra: each answer leaves less of one of them.  So a poster that asks
only what its world answers returns (`Rule.returns`), and so does one whose tasks fit together (`Fitting.returns`).  The
tasks of a pool are the heads of a third (`Pool.terminates`).
-/
namespace Lib

open Relation

/-- Every run of `step` from `x` ends, and only where `ended` holds. -/
structure Terminates {σ : Type} (step : σ → σ → Prop) (ended : σ → Prop) (x : σ) : Prop where
  ends : Acc (fun z y => step y z) x
  goesOn : ∀ y, ReflTransGen step x y → ended y ∨ ∃ z, step y z

/-- A run that ends where it is over exists. -/
theorem Terminates.exists_over {σ : Type} {step : σ → σ → Prop} {ended : σ → Prop} {x : σ}
    (h : Terminates step ended x) : ∃ y, ReflTransGen step x y ∧ ended y := by
  obtain ⟨ends, goesOn⟩ := h
  induction ends with
  | intro x _ ih =>
    rcases goesOn x .refl with ho | ⟨z, hz⟩
    · exact ⟨x, .refl, ho⟩
    · obtain ⟨y, hy, ho⟩ := ih z hz fun y hy => goesOn y (.head hz hy)
      exact ⟨y, .head hz hy, ho⟩

/-- One head of a hydra replaced by smaller ones. -/
theorem cutExpand_replace {α O : Type} {lt : O → O → Prop} {rank : α → O} {x : α} (new : List α) {p p' : Multiset α}
    (hlt : ∀ y ∈ new, lt (rank y) (rank x)) (h : p' + {x} = p + (new : Multiset α)) :
    CutExpand lt (p'.map rank) (p.map rank) := by
  refine ⟨(new : Multiset α).map rank, rank x, ?_, ?_⟩
  · intro o ho
    obtain ⟨y, hy, rfl⟩ := Multiset.mem_map.1 ho
    exact hlt y hy
  · rw [← Multiset.map_singleton, ← Multiset.map_add, ← Multiset.map_add, h]

namespace Walker

variable {D R E S : Type} (K : Walker D R E S)

/-- A step of a search that is not over, is not cancelled and has left nothing out. -/
structure Going (w w' : State D R E S) : Prop where
  notOver : ¬ w.Over
  step : K.Step w w'
  notShort : ¬ w'.Short K

/-- A step of a search that is not over.  A cancellation is set once. -/
structure Moves (w w' : State D R E S) : Prop where
  notOver : ¬ w.Over
  step : K.Step w w'
  notIdle : w.cancelled = true → w' ≠ w

/-- What is read on in spends from a budget that the workers share, or is smaller than it was, the places found there
smaller still; all stay as `p` and `q` say. -/
structure Spends {O : Type} (p : D → Prop) (q : R → Prop) (rank : D ⊕ R → O) (lt : O → O → Prop) (budget : S → ℕ) :
    Prop where
  opens : ∀ {d s r s'}, K.opens d s r s' → p d → (∀ x ∈ r, q x) ∧
    (budget s' < budget s ∨ budget s' = budget s ∧ ∀ x ∈ r, lt (rank (.inr x)) (rank (.inl d)))
  reads : ∀ {r s es ds r' s'}, K.reads r s es ds r' s' → q r → (∀ d ∈ ds, p d) ∧ (∀ x ∈ r', q x) ∧
    (budget s' < budget s ∨ budget s' = budget s ∧ (∀ d ∈ ds, lt (rank (.inl d)) (rank (.inr r))) ∧
      ∀ x ∈ r', lt (rank (.inr x)) (rank (.inr r)))

/-- Every place of `p` can be opened and every rest of `q` read on in. -/
structure Answers (p : D → Prop) (q : R → Prop) : Prop where
  opens : ∀ {d s}, p d → ∃ r s', K.opens d s r s'
  reads : ∀ {r s}, q r → ∃ es ds r' s', K.reads r s es ds r' s'

/-- What is read on in is smaller than it was, and the places found there are smaller still; all stay as `p` and `q`
say. -/
structure Descends {O : Type} (p : D → Prop) (q : R → Prop) (rank : D ⊕ R → O) (lt : O → O → Prop) : Prop where
  opens : ∀ {d s r s'}, K.opens d s r s' → p d → ∀ x ∈ r, q x ∧ lt (rank (.inr x)) (rank (.inl d))
  reads : ∀ {r s es ds r' s'}, K.reads r s es ds r' s' → q r →
    (∀ d ∈ ds, p d ∧ lt (rank (.inl d)) (rank (.inr r))) ∧ ∀ x ∈ r', q x ∧ lt (rank (.inr x)) (rank (.inr r))

/-- Every place of `p` can be opened and every rest of `q` read on in, with nothing left out. -/
structure Serves (p : D → Prop) (q : R → Prop) : Prop where
  opens : ∀ {d s}, p d → ¬ K.lost s → ∃ r s', K.opens d s r s' ∧ ¬ K.lost s'
  reads : ∀ {r s}, q r → ¬ K.lost s → ∃ es ds r' s', K.reads r s es ds r' s' ∧ ¬ K.lost s'

section Ends

variable {K} {p : D → Prop} {q : R → Prop} {O : Type} {rank : D ⊕ R → O} {lt : O → O → Prop}

/-- What a search still has to do: its pending places, its workers, and what its level has found. -/
def State.work (rank : D ⊕ R → O) (w : State D R E S) : Multiset O × ℕ × ℕ :=
  ((w.pending : Multiset (D ⊕ R)).map rank, w.workers.length, w.nextLevel.length + w.levelEntries.length)

theorem coe_pending (w : State D R E S) :
    (w.pending : Multiset (D ⊕ R)) = (w.level.map .inl : List (D ⊕ R)) +
      ((w.workers.flatMap (fun k => k.rest.toList.map .inr ++ k.subdirs.map .inl) : List (D ⊕ R)) +
        (w.nextLevel.map .inl : List (D ⊕ R))) := by
  rw [State.pending, ← Multiset.coe_add, ← Multiset.coe_add]

theorem coe_mid {α β : Type} (f : α → β) (a b : List α) (x : α) :
    (((a ++ x :: b).map f : List β) : Multiset β) = ((a ++ b).map f : List β) + {f x} := by
  rw [List.map_append, List.map_append, List.map_cons, ← Multiset.coe_add, ← Multiset.coe_add, ← Multiset.cons_coe,
    ← Multiset.singleton_add]
  abel

theorem coe_flatMap_mid {α β : Type} (f : α → List β) (a b : List α) (x : α) :
    (((a ++ x :: b).flatMap f : List β) : Multiset β) = ((a ++ b).flatMap f : List β) + (f x : Multiset β) := by
  rw [List.flatMap_append, List.flatMap_append, List.flatMap_cons, ← Multiset.coe_add, ← Multiset.coe_add,
    ← Multiset.coe_add]
  abel

theorem lex_of_eq {α β : Type*} {ra : α → α → Prop} {rb : β → β → Prop} {a a' : α} {b b' : β} (h : a' = a)
    (hb : rb b' b) : Prod.Lex ra rb (a', b') (a, b) := by
  subst h
  exact .right _ hb

/-- The same with what is left of a budget before it, and a cancellation to come after. -/
def State.effort (rank : D ⊕ R → O) (budget : S → ℕ) (w : State D R E S) : ℕ × (Multiset O × ℕ × ℕ) × ℕ :=
  (budget w.shared, w.work rank, if w.cancelled then 0 else 1)

/-- Heads cut, with smaller ones for them, are less to do. -/
theorem effort_cut {budget : S → ℕ} {w w' : State D R E S} {x : D ⊕ R} (new : List (D ⊕ R))
    (hb : budget w'.shared = budget w.shared) (hlt : ∀ y ∈ new, lt (rank y) (rank x))
    (h : (w'.pending : Multiset (D ⊕ R)) + {x} = (w.pending : Multiset (D ⊕ R)) + (new : Multiset (D ⊕ R))) :
    Prod.Lex (· < ·) (Prod.Lex (Prod.Lex (CutExpand lt) (Prod.Lex (· < ·) (· < ·))) (· < ·))
      (w'.effort rank budget) (w.effort rank budget) :=
  lex_of_eq hb (.left _ _ (.left _ _ (cutExpand_replace new hlt h)))

/-- **Every step leaves less to do.** -/
theorem moves_effort {budget : S → ℕ} (hK : K.Spends p q rank lt budget) {w w' : State D R E S} (h : K.Moves w w')
    (hgood : w.Good p q (fun _ => True)) :
    Prod.Lex (· < ·) (Prod.Lex (Prod.Lex (CutExpand lt) (Prod.Lex (· < ·) (· < ·))) (· < ·))
      (w'.effort rank budget) (w.effort rank budget) := by
  obtain ⟨hover, hstep, hidle⟩ := h
  cases hstep with
  | cancel =>
    have hc : w.cancelled = false := by
      cases hc : w.cancelled with
      | false => rfl
      | true => exact absurd (by rw [← hc]) (hidle hc)
    refine lex_of_eq rfl (lex_of_eq rfl ?_)
    simp [hc]
  | @skip a b d hl hc =>
    refine effort_cut (x := .inl d) [] rfl (by simp) ?_
    simp only [coe_pending, hl, coe_mid, Multiset.coe_nil]
    abel
  | @opens a b d r s hl ho =>
    have hd : p d := hgood.level d (by rw [hl]; exact List.mem_append_right _ List.mem_cons_self)
    rcases (hK.opens ho hd).2 with hlt | ⟨heq, hrank⟩
    · exact .left _ _ hlt
    refine effort_cut (x := .inl d) (r.toList.map .inr) heq ?_ ?_
    · intro y hy
      obtain ⟨x, hx, rfl⟩ := List.mem_map.1 hy
      exact hrank x (Option.mem_toList.1 hx)
    · simp only [coe_pending, hl, coe_mid, List.flatMap_cons, List.map_nil, List.append_nil, ← Multiset.coe_add]
      abel
  | @reads a b fs ds r r' es ds' s hw hr =>
    have hmem : (⟨some r, fs, ds⟩ : Worker D R E) ∈ w.workers := by
      rw [hw]
      exact List.mem_append_right _ List.mem_cons_self
    rcases (hK.reads hr ((hgood.workers _ hmem).1 r rfl)).2.2 with hlt | ⟨heq, hds, hr'⟩
    · exact .left _ _ hlt
    refine effort_cut (x := .inr r) (r'.toList.map .inr ++ ds'.map .inl) heq ?_ ?_
    · intro y hy
      rcases List.mem_append.1 hy with hy | hy
      · obtain ⟨x, hx, rfl⟩ := List.mem_map.1 hy
        exact hr' x (Option.mem_toList.1 hx)
      · obtain ⟨d, hd, rfl⟩ := List.mem_map.1 hy
        exact hds d hd
    · simp only [coe_pending, hw, coe_flatMap_mid, List.map_append, ← Multiset.coe_add, Option.toList_some,
        List.map_cons, List.map_nil, Multiset.coe_singleton]
      abel
  | @merge a b k hw hc =>
    obtain ⟨rest, fs, ds⟩ := k
    cases rest with
    | some r =>
      -- a cancelled worker drops what it has not read
      refine effort_cut (x := .inr r) [] rfl (by simp) ?_
      simp only [coe_pending, hw, coe_flatMap_mid, List.map_append, ← Multiset.coe_add, Option.toList_some,
        List.map_cons, List.map_nil, Multiset.coe_singleton, Multiset.coe_nil]
      abel
    | none =>
      have hlen : w.workers.length = (a ++ b).length + 1 := by
        rw [hw, List.length_append, List.length_append, List.length_cons]
        omega
      refine lex_of_eq rfl (.left _ _ (lex_of_eq (congrArg (Multiset.map rank) ?_) (.left _ _ ?_)))
      · simp only [coe_pending, hw, coe_flatMap_mid, List.map_append, ← Multiset.coe_add, Option.toList_none,
          List.map_nil, List.nil_append]
        abel
      · simp only [hlen]
        omega
  | advance hl hw =>
    have hleft : w.nextLevel ≠ [] ∨ w.levelEntries ≠ [] := by
      by_contra hne
      simp only [not_or, not_not] at hne
      exact hover ⟨hw, hne.2, hne.1, .inl hl⟩
    refine lex_of_eq rfl (.left _ _ (lex_of_eq (congrArg (Multiset.map rank) ?_) (.right _ ?_)))
    · simp only [coe_pending, hl, hw, List.flatMap_nil, List.map_nil, Multiset.coe_nil]
      abel
    · simp only [List.length_nil, Nat.add_zero]
      rcases hleft with h | h
      · have := List.length_pos_iff.2 h
        omega
      · have := List.length_pos_iff.2 h
        omega

theorem moves_good {budget : S → ℕ} (hK : K.Spends p q rank lt budget) {w w' : State D R E S} (h : K.Run w w')
    (hgood : w.Good p q (fun _ => True)) : w'.Good p q (fun _ => True) := by
  refine run_good (K := K) ?_ ?_ h hgood
  · exact fun ho hp => (hK.opens ho hp).1
  · exact fun hr hq => ⟨fun _ _ => trivial, (hK.reads hr hq).1, (hK.reads hr hq).2.1⟩

/-- **A search takes finitely many steps**, in whatever order, failures and a cancellation among them. -/
theorem moves_acc {budget : S → ℕ} (hlt : WellFounded lt) (hK : K.Spends p q rank lt budget) {w : State D R E S}
    (hgood : w.Good p q (fun _ => True)) : Acc (fun w' w => K.Moves w w') w := by
  have hwf : WellFounded (Prod.Lex (· < · : ℕ → ℕ → Prop) (Prod.Lex
      (Prod.Lex (CutExpand lt) (Prod.Lex (· < · : ℕ → ℕ → Prop) (· < · : ℕ → ℕ → Prop))) (· < · : ℕ → ℕ → Prop))) :=
    Nat.lt_wfRel.wf.prod_lex ((hlt.cutExpand.prod_lex (Nat.lt_wfRel.wf.prod_lex Nat.lt_wfRel.wf)).prod_lex
      Nat.lt_wfRel.wf)
  generalize hx : w.effort rank budget = x
  induction hwf.apply x generalizing w with
  | intro x _ ih =>
    subst hx
    exact .intro w fun w' h => ih _ (moves_effort hK h hgood) (moves_good hK (.single h.step) hgood) rfl

/-- **A search that is not over moves on**, cancelled or not. -/
theorem moves_progress (hK : K.Answers p q) {w : State D R E S} (hgood : w.Good p q (fun _ => True)) (ho : ¬ w.Over) :
    ∃ w', K.Moves w w' := by
  cases hc : w.cancelled with
  | true =>
    cases hw : w.workers with
    | cons k b =>
      refine ⟨_, ho, .merge (a := []) hw (.inr hc), fun _ h => ?_⟩
      have := congrArg (fun w : State D R E S => w.workers.length) h
      simp [hw] at this
    | nil =>
      cases hl : w.level with
      | cons d b =>
        refine ⟨_, ho, .skip (a := []) hl hc, fun _ h => ?_⟩
        have := congrArg (fun w : State D R E S => w.level.length) h
        simp [hl] at this
      | nil =>
        refine ⟨_, ho, .advance hl hw, fun _ h => ho ?_⟩
        have he := congrArg State.levelEntries h
        have hn := congrArg State.nextLevel h
        exact ⟨hw, he.symm, hn.symm, .inl hl⟩
  | false =>
    have hidle : ∀ w' : State D R E S, w.cancelled = true → w' ≠ w := fun _ h => absurd (hc.symm.trans h) (by simp)
    cases hw : w.workers with
    | cons k b =>
      have hmem : k ∈ w.workers := by
        rw [hw]
        exact List.mem_cons_self
      have hgoodk := (hgood.workers k hmem).1
      obtain ⟨rest, fs, ds⟩ := k
      cases rest with
      | none => exact ⟨_, ho, .merge (a := []) hw (.inl rfl), hidle _⟩
      | some r =>
        obtain ⟨es, ds', r', s', hr⟩ := hK.reads (s := w.shared) (hgoodk r rfl)
        exact ⟨_, ho, .reads (a := []) hw hr, hidle _⟩
    | nil =>
      cases hl : w.level with
      | cons d b =>
        obtain ⟨r, s', hopen⟩ := hK.opens (s := w.shared) (hgood.level d (by rw [hl]; exact List.mem_cons_self))
        exact ⟨_, ho, .opens (a := []) hl hopen, hidle _⟩
      | nil => exact ⟨_, ho, .advance hl hw, hidle _⟩

theorem start_good {d : D} (s : S) (hd : p d) : (State.start d s : State D R E S).Good p q (fun _ => True) :=
  ⟨by simpa [State.start] using hd, by simp [State.start], by simp [State.start], by simp [State.start],
    by simp [State.start]⟩

theorem moves_run {w w' : State D R E S} (h : ReflTransGen K.Moves w w') : K.Run w w' := by
  induction h with
  | refl => exact .refl
  | tail _ hs ih => exact ih.tail hs.step

/-- **A search of one place terminates**, whatever fails and whenever it is cancelled. -/
theorem moves_terminates {budget : S → ℕ} (hlt : WellFounded lt) (hspend : K.Spends p q rank lt budget)
    (hanswer : K.Answers p q) {d : D} (s : S) (hd : p d) :
    Terminates K.Moves State.Over (State.start d s : State D R E S) := by
  refine ⟨moves_acc hlt hspend (start_good s hd), fun w hw => ?_⟩
  by_cases ho : w.Over
  · exact .inl ho
  · exact .inr (moves_progress hanswer (moves_good hspend (moves_run hw) (start_good s hd)) ho)

/-! ### Without failures -/

theorem Descends.spends (hK : K.Descends p q rank lt) : K.Spends p q rank lt (fun _ => 0) where
  opens ho hp := ⟨fun x hx => (hK.opens ho hp x hx).1, .inr ⟨rfl, fun x hx => (hK.opens ho hp x hx).2⟩⟩
  reads hr hq := ⟨fun d hd => ((hK.reads hr hq).1 d hd).1, fun x hx => ((hK.reads hr hq).2 x hx).1,
    .inr ⟨rfl, fun d hd => ((hK.reads hr hq).1 d hd).2, fun x hx => ((hK.reads hr hq).2 x hx).2⟩⟩

theorem Going.moves {w w' : State D R E S} (h : K.Going w w') : K.Moves w w' :=
  ⟨h.notOver, h.step, fun hc _ => h.notShort (.inr (step_cancelled h.step hc))⟩

theorem going_run {w w' : State D R E S} (h : ReflTransGen K.Going w w') : K.Run w w' := by
  induction h with
  | refl => exact .refl
  | tail _ hs ih => exact ih.tail hs.step

theorem going_notShort {w w' : State D R E S} (h : ReflTransGen K.Going w w') (hs : ¬ w.Short K) : ¬ w'.Short K := by
  rcases ReflTransGen.cases_tail h with h | ⟨v, -, hv⟩
  · rwa [h]
  · exact hv.notShort

theorem going_good (hK : K.Descends p q rank lt) {w w' : State D R E S} (h : ReflTransGen K.Going w w')
    (hgood : w.Good p q (fun _ => True)) : w'.Good p q (fun _ => True) :=
  moves_good hK.spends (going_run h) hgood

/-- **A search that goes on takes finitely many steps**, in whatever order. -/
theorem going_acc (hlt : WellFounded lt) (hK : K.Descends p q rank lt) {w : State D R E S}
    (hgood : w.Good p q (fun _ => True)) : Acc (fun w' w => K.Going w w') w :=
  Subrelation.accessible (fun h => Going.moves h) (moves_acc hlt hK.spends hgood)

/-- **A search that is not over goes on.** -/
theorem going_progress (hK : K.Serves p q) {w : State D R E S} (hgood : w.Good p q (fun _ => True))
    (hshort : ¬ w.Short K) (ho : ¬ w.Over) : ∃ w', K.Going w w' := by
  obtain ⟨hlost, hc⟩ := not_or.1 hshort
  cases hw : w.workers with
  | cons k b =>
    have hmem : k ∈ w.workers := by
      rw [hw]
      exact List.mem_cons_self
    have hgoodk := (hgood.workers k hmem).1
    obtain ⟨rest, fs, ds⟩ := k
    cases rest with
    | none => exact ⟨_, ho, .merge (a := []) hw (.inl rfl), hshort⟩
    | some r =>
      obtain ⟨es, ds', r', s', hr, hl⟩ := hK.reads (hgoodk r rfl) hlost
      exact ⟨_, ho, .reads (a := []) hw hr, not_or.2 ⟨hl, hc⟩⟩
  | nil =>
    cases hl : w.level with
    | cons d b =>
      have hd : p d := hgood.level d (by rw [hl]; exact List.mem_cons_self)
      obtain ⟨r, s', hopen, hl'⟩ := hK.opens hd hlost
      exact ⟨_, ho, .opens (a := []) hl hopen, not_or.2 ⟨hl', hc⟩⟩
    | nil => exact ⟨_, ho, .advance hl hw, hshort⟩

/-- **A search of one place terminates**, where nothing fails and nothing cancels it. -/
theorem going_terminates (hlt : WellFounded lt) (hdesc : K.Descends p q rank lt) (hserve : K.Serves p q) {d : D} {s : S}
    (hd : p d) (hs : ¬ K.lost s) : Terminates K.Going State.Over (State.start d s : State D R E S) := by
  have hgood := start_good (q := q) (E := E) s hd
  refine ⟨going_acc hlt hdesc hgood, fun w hw => ?_⟩
  have hshort : ¬ w.Short K := going_notShort hw (not_or.2 ⟨hs, by simp [State.start]⟩)
  by_cases ho : w.Over
  · exact .inl ho
  · exact .inr (going_progress hserve (going_good hdesc hw hgood) hshort ho)

/-- A walker that may do more runs as far. -/
theorem run_mono {K' : Walker D R E S} (ho : ∀ {d s r s'}, K.opens d s r s' → K'.opens d s r s')
    (hr : ∀ {r s es ds r' s'}, K.reads r s es ds r' s' → K'.reads r s es ds r' s') {w w' : State D R E S}
    (h : K.Run w w') : K'.Run w w' := by
  induction h with
  | refl => exact .refl
  | tail _ hs ih =>
    refine ih.tail ?_
    cases hs with
    | cancel => exact .cancel
    | skip hl hc => exact .skip hl hc
    | opens hl hopen => exact .opens hl (ho hopen)
    | reads hw hread => exact .reads hw (hr hread)
    | merge hw hc => exact .merge hw hc
    | advance hl hw => exact .advance hl hw

end Ends

/-! ## In batches -/

/-- A search that hands over what each level has found, unless that is nothing or it was cancelled; `stop` is a taker
that wants no more. -/
inductive StreamStep : State D R E S × List (List E) → State D R E S × List (List E) → Prop
  | cancel {w bs} : StreamStep (w, bs) ({ w with cancelled := true }, bs)
  | work {w w' bs} (hw : w.level ≠ [] ∨ w.workers ≠ []) (h : K.Step w w') : StreamStep (w, bs) (w', bs)
  | deliver {w bs} (hl : w.level = []) (hw : w.workers = []) (hc : w.cancelled = false) (he : w.levelEntries ≠ []) :
      StreamStep (w, bs) ({ w with level := w.nextLevel, nextLevel := [], levelEntries := [],
                                   entries := w.entries ++ w.levelEntries }, bs ++ [w.levelEntries])
  | stop {w bs} (hl : w.level = []) (hw : w.workers = []) (hc : w.cancelled = false) (he : w.levelEntries ≠ []) :
      StreamStep (w, bs) ({ w with level := w.nextLevel, nextLevel := [], levelEntries := [],
                                   entries := w.entries ++ w.levelEntries, cancelled := true }, bs ++ [w.levelEntries])
  | pass {w bs} (hl : w.level = []) (hw : w.workers = []) (h : w.cancelled = true ∨ w.levelEntries = []) :
      StreamStep (w, bs) ({ w with level := w.nextLevel, nextLevel := [], levelEntries := [] }, bs)

structure StreamGoing (x y : State D R E S × List (List E)) : Prop where
  notOver : ¬ x.1.Over
  step : K.StreamStep x y
  notShort : ¬ y.1.Short K

section Stream

variable {K}

/-- **A search in batches is the search, its entries handed over.** -/
theorem streamGoing_going {x y : State D R E S × List (List E)} (h : K.StreamGoing x y) :
    K.Going x.1 y.1 ∧ (x.2.flatten = x.1.entries → y.2.flatten = y.1.entries) := by
  obtain ⟨hover, hstep, hshort⟩ := h
  cases hstep with
  | cancel => exact absurd (.inr rfl) hshort
  | stop => exact absurd (.inr rfl) hshort
  | @work w w' bs hw hs =>
    refine ⟨⟨hover, hs, hshort⟩, fun h => ?_⟩
    cases hs with
    | advance hl hk => exact absurd (hw.elim (fun h => h hl) (fun h => h hk)) id
    | cancel => exact h
    | skip _ _ => exact h
    | opens _ _ => exact h
    | reads _ _ => exact h
    | merge _ _ => exact h
  | @deliver w bs hl hw hc he =>
    refine ⟨⟨hover, .advance hl hw, hshort⟩, fun h => ?_⟩
    simp only [List.flatten_append, List.flatten_singleton, h]
  | @pass w bs hl hw hp =>
    have hempty : w.levelEntries = [] := hp.resolve_left fun hc => hshort (.inr hc)
    have hstep : K.Step w { w with level := w.nextLevel, nextLevel := [], levelEntries := [] } := by
      have hadvance := Step.advance (K := K) hl hw
      rwa [hempty, List.append_nil] at hadvance
    exact ⟨⟨hover, hstep, hshort⟩, fun h => h⟩

/-- Whatever the search does next, it does in batches. -/
theorem going_streamGoing {w w' : State D R E S} (h : K.Going w w') (bs : List (List E)) :
    ∃ bs', K.StreamGoing (w, bs) (w', bs') := by
  obtain ⟨hover, hstep, hshort⟩ := h
  have hwork : (w.level ≠ [] ∨ w.workers ≠ []) → ∃ bs', K.StreamGoing (w, bs) (w', bs') := fun hw =>
    ⟨bs, hover, .work hw hstep, hshort⟩
  cases hstep with
  | cancel => exact absurd (.inr rfl) hshort
  | skip hl _ => exact hwork (.inl (by simp [hl]))
  | opens hl _ => exact hwork (.inl (by simp [hl]))
  | reads hw _ => exact hwork (.inr (by simp [hw]))
  | merge hw _ => exact hwork (.inr (by simp [hw]))
  | advance hl hw =>
    have hc : w.cancelled = false := Bool.eq_false_of_not_eq_true fun hc => hshort (.inr hc)
    by_cases he : w.levelEntries = []
    · have hpass : K.StreamStep (w, bs) (_, bs) := .pass hl hw (.inr he)
      rw [he, List.append_nil] at hshort ⊢
      exact ⟨bs, hover, hpass, hshort⟩
    · exact ⟨_, hover, .deliver hl hw hc he, hshort⟩

theorem streamGoing_run {x y : State D R E S × List (List E)} (h : ReflTransGen K.StreamGoing x y) :
    ReflTransGen K.Going x.1 y.1 ∧ (x.2.flatten = x.1.entries → y.2.flatten = y.1.entries) := by
  induction h with
  | refl => exact ⟨.refl, id⟩
  | tail _ hs ih =>
    obtain ⟨hgo, hbatch⟩ := streamGoing_going hs
    exact ⟨ih.1.tail hgo, fun h => hbatch (ih.2 h)⟩

/-- **A search in batches terminates where the search does.** -/
theorem stream_terminates {w : State D R E S} (h : Terminates K.Going State.Over w) (bs : List (List E)) :
    Terminates K.StreamGoing (fun x => x.1.Over) (w, bs) := by
  refine ⟨?_, fun y hy => ?_⟩
  · have hacc : Acc (InvImage (fun w' w => K.Going w w') Prod.fst) (w, bs) := InvImage.accessible Prod.fst h.ends
    exact Subrelation.accessible (fun hxy => (streamGoing_going hxy).1) hacc
  · refine (h.goesOn y.1 (streamGoing_run hy).1).imp_right ?_
    rintro ⟨w', hw'⟩
    obtain ⟨bs', hbs⟩ := going_streamGoing hw' y.2
    exact ⟨_, hbs⟩

end Stream

end Walker

/-! ## A crew comes to its end -/

namespace Prog

variable {C : Type} {R : C → Type} {α : Type}

/-- What an answer leaves of a program. -/
inductive Below : Prog C R α → Prog C R α → Prop
  | answer {c : C} {k : R c → Prog C R α} (r : R c) : Below (k r) (.call c k)

theorem below_wf : WellFounded (Below : Prog C R α → Prog C R α → Prop) := by
  refine ⟨fun p => ?_⟩
  induction p with
  | ret a => exact ⟨_, fun q h => by cases h⟩
  | halt => exact ⟨_, fun q h => by cases h⟩
  | call c k ih =>
    refine ⟨_, fun q h => ?_⟩
    cases h with
    | answer r => exact ih r

end Prog

/-! ## A pool comes to its end -/

namespace Pool

variable {ι W σ C α : Type} {R : C → Type} [DecidableEq ι] [Fintype ι] {V : View ι W σ}
  {exec : ι → (c : C) → σ → R c → σ → Prop}

/-- What is left to run. -/
def work (x : State ι W C R α) : Multiset (Prog C R α) := Finset.univ.val.map x.1

theorem work_eq (P : ι → Prog C R α) (w : W) (i : ι) :
    work (P, w) = P i ::ₘ (Finset.univ.val.erase i).map P := by
  have h : i ::ₘ (Finset.univ : Finset ι).val.erase i = (Finset.univ : Finset ι).val :=
    Multiset.cons_erase (Finset.mem_univ i)
  rw [work, ← Multiset.map_cons, h]

/-- **Every step of a pool leaves less to run.** -/
theorem step_work {x y : State ι W C R α} (h : Step V exec x y) : CutExpand Prog.Below (work y) (work x) := by
  cases h with
  | @task P w i p s h =>
    refine ⟨{p}, P i, fun q hq => ?_, ?_⟩
    · obtain rfl := Multiset.mem_singleton.1 hq
      generalize P i = m at h
      cases h with
      | @answer c k _ _ r he => exact .answer r
    · have hothers : (Finset.univ.val.erase i).map (Function.update P i p) = (Finset.univ.val.erase i).map P := by
        refine Multiset.map_congr rfl fun j hj => Function.update_of_ne ?_ _ _
        rintro rfl
        exact Finset.univ.nodup.notMem_erase hj
      rw [work_eq _ _ i, work_eq _ _ i, hothers, Function.update_self, ← Multiset.singleton_add,
        ← Multiset.singleton_add]
      ac_rfl

/-- **A pool whose tasks never halt, and ask only what is answered, runs until all of them have returned.** -/
theorem terminates {A : C → Prop} {I : ι → σ → Prop} {Q : ι → α → σ → Prop} {x : State ι W C R α}
    (hwp : ∀ i, Prog.wp (exec i) (I i) (fun _ => False) (x.1 i) (Q i) (V.view i x.2))
    (hasks : ∀ i, Prog.Asks A (x.1 i)) (hserve : ∀ i c s, A c → ∃ r s', exec i c s r s') :
    Terminates (Step V exec) (fun y => ∀ i, ∃ a, y.1 i = .ret a) x := by
  refine ⟨(Subrelation.wf (fun h => step_work h) (InvImage.wf work Prog.below_wf.cutExpand)).apply x,
    fun y h => ?_⟩
  by_cases hret : ∀ i, ∃ a, y.1 i = .ret a
  · exact .inl hret
  · obtain ⟨i, hi⟩ := not_forall.1 hret
    have hleft := Prog.wp_steps (steps_project h i) (hwp i)
    have hask := Prog.asks_steps (steps_project h i) (hasks i)
    obtain ⟨P, w⟩ := y
    dsimp only at hi hleft hask
    cases hp : P i with
    | ret a => exact absurd ⟨a, hp⟩ hi
    | halt => rw [hp] at hleft; exact hleft.elim
    | call c k =>
      rw [hp] at hask
      obtain ⟨r, s, he⟩ := hserve i c (V.view i w) hask.1
      have hstep : Prog.Step (exec i) (P i, V.view i w) (k r, s) := by
        rw [hp]
        exact .answer he
      exact .inr ⟨_, .task i hstep⟩

end Pool

namespace Crew

variable {C T α W : Type} {R : C → Type} {exec : (c : C) → W → R c → W → Prop} {task : T → Prog C R Unit}

/-- What is left to run: the poster's program above those of its workers. -/
def work (s : Crew C T R α W) : Poster C T R α × Multiset (Prog C R Unit) := (s.poster, s.workers.map Prod.snd)

theorem below_answer (c : CrewCall C T) (k : CrewResp R c → Poster C T R α) (r : CrewResp R c) :
    Prog.Below (k r) (.call c k : Poster C T R α) := .answer r

/-- **Every step of a crew leaves less to run.** -/
theorem step_work {s s' : Crew C T R α W} (h : Step exec task s s') :
    Prod.Lex Prog.Below (CutExpand Prog.Below) s'.work s.work := by
  cases h with
  | @ask c k ws w w' r h => exact .left _ _ (below_answer (.ask c) k r)
  | @post t k ws w => exact .left _ _ (below_answer (.post t) k ())
  | @join k ws w h => exact .left _ _ (below_answer .join k ())
  | @work m a b t p p' w w' h =>
    cases h with
    | @answer c k _ _ r he =>
      refine .right _ ⟨{k r}, .call c k, fun q hq => ?_, ?_⟩
      · obtain rfl := Multiset.mem_singleton.1 hq
        exact .answer r
      · simp only [List.map_append, List.map_cons, ← Multiset.coe_add, ← Multiset.cons_coe,
          ← Multiset.singleton_add]
        ac_rfl

theorem crew_acc (s : Crew C T R α W) : Acc (fun z y => Step exec task y z) s := by
  have hwf : WellFounded (Prod.Lex (Prog.Below : Poster C T R α → _ → Prop)
      (CutExpand (Prog.Below : Prog C R Unit → _ → Prop))) := Prog.below_wf.prod_lex Prog.below_wf.cutExpand
  exact (Subrelation.wf (fun h => step_work h) (InvImage.wf work hwf)).apply s

/-- **A crew none of whose programs has halted goes on until its poster has returned.** -/
theorem progress (htotal : ∀ c w, ∃ r w', exec c w r w') {s : Crew C T R α W} (hp : s.poster ≠ .halt)
    (hw : ∀ x ∈ s.workers, x.2 ≠ .halt) : (∃ a, s.poster = .ret a) ∨ ∃ s', Step exec task s s' := by
  obtain ⟨m, ws, w⟩ := s
  cases m with
  | ret a => exact .inl ⟨a, rfl⟩
  | halt => exact absurd rfl hp
  | call c k =>
    cases c with
    | ask c =>
      obtain ⟨r, w', he⟩ := htotal c w
      exact .inr ⟨_, .ask he⟩
    | post t => exact .inr ⟨_, .post⟩
    | join =>
      by_cases hret : ∀ x ∈ ws, x.2 = .ret ()
      · exact .inr ⟨_, .join hret⟩
      · -- a worker that has not returned can go on
        obtain ⟨⟨t, p⟩, hx, hne⟩ := not_forall₂.1 hret
        obtain ⟨a, b, rfl⟩ := List.append_of_mem hx
        cases p with
        | ret u => exact absurd rfl hne
        | halt => exact absurd rfl (hw _ hx)
        | call c k =>
          obtain ⟨r, w', he⟩ := htotal c w
          exact .inr ⟨_, .work (.answer he)⟩

/-- **A poster that is right whatever its workers do returns, with what its postcondition says.** -/
theorem Rule.returns {mine : C → Prop} {Live : List (T × Prog C R Unit) → W → Prop} {Rely : List T → W → W → Prop}
    {Done : List T → W → Prop} {I : Seen T W → Prop} {Q : α → Prop} (hR : Rule exec task mine Live Rely Done)
    (htotal : ∀ c w, ∃ r w', exec c w r w')
    (hhalt : ∀ ws w x, Live ws w → I x → x.posted = ws.map Prod.fst → ∀ y ∈ ws, y.2 ≠ .halt)
    {m : Poster C T R α} {w : W} (hlive : Live [] w) (hasks : Prog.Asks (Mine mine) m)
    (hwp : Prog.wp (PosterExec exec Rely Done) I (fun _ => False) m (fun a _ => Q a) ⟨[], true, w⟩) :
    Terminates (Step exec task) (fun s => ∃ a, s.poster = .ret a) (⟨m, [], w⟩ : Crew C T R α W) ∧
      ∀ s a, Steps exec task ⟨m, [], w⟩ s → s.poster = .ret a → Q a := by
  refine ⟨⟨crew_acc _, fun s h => ?_⟩, fun s a h hret => ?_⟩
  · obtain ⟨x, hx⟩ := hR.sound h hlive hasks hwp
    obtain ⟨m, ws, w⟩ := s
    have hwp' := hx.wp
    cases m with
    | ret a => exact .inl ⟨a, rfl⟩
    | halt => exact absurd hwp' id
    | call c k => exact progress htotal (by simp) (hhalt _ _ x hx.live hwp'.1 hx.posted)
  · obtain ⟨x, hx⟩ := hR.sound h hlive hasks hwp
    have hq := hx.wp
    rw [hret] at hq
    exact hq

/-- Every run of a crew ends, with a value of `Q` returned by its poster. -/
structure Returns (exec : (c : C) → W → R c → W → Prop) (task : T → Prog C R Unit) (m : Poster C T R α) (w : W)
    (Q : α → Prop) : Prop where
  ends : Terminates (Step exec task) (fun s => ∃ a, s.poster = .ret a) ⟨m, [], w⟩
  returned : ∀ s a, Steps exec task ⟨m, [], w⟩ s → s.poster = .ret a → Q a

/-! ### Tasks that fit together -/

/-- Workers with shares, for as long as the tasks posted fit together: a task that fits has a program that keeps to what
its share allows and establishes `Q` of it, and what the poster asks changes no share. -/
structure Fitting {A : Type} (exec : (c : C) → W → R c → W → Prop) (task : T → Prog C R Unit) (mine : C → Prop)
    (Rely : W → W → Prop) (Fit : List T → Prop) (solo : (c : C) → A → R c → A → Prop) (allowed : T → C → Prop)
    (total : List (T × A) → W → Prop) (Q : T → A → Prop) (start : A) : Prop where
  shares : Shares exec solo allowed total
  guarantee : Guarantee exec Rely
  fewer : ∀ ts t, Fit (ts ++ [t]) → Fit ts
  asks : ∀ ts t, Fit (ts ++ [t]) → Prog.Asks (allowed t) (task t)
  wp : ∀ ts t, Fit (ts ++ [t]) → Prog.wp solo (fun _ => True) (fun _ => False) (task t) (fun _ => Q t) start
  post : ∀ xs t w, Fit (xs.map Prod.fst ++ [t]) → total xs w → total (xs ++ [(t, start)]) w
  mine : ∀ c xs w r w', mine c → total xs w → exec c w r w' → total xs w'

section Fitting

variable {A : Type} {mine : C → Prop} {Rely : W → W → Prop} {Fit : List T → Prop} {solo : (c : C) → A → R c → A → Prop}
  {allowed : T → C → Prop} {total : List (T × A) → W → Prop} {Q : T → A → Prop} {start : A}

/-- The workers of tasks that fit. -/
def FitLive (Fit : List T → Prop) (solo : (c : C) → A → R c → A → Prop) (allowed : T → C → Prop)
    (total : List (T × A) → W → Prop) (Q : T → A → Prop) (ws : List (T × Prog C R Unit)) (w : W) : Prop :=
  Fit (ws.map Prod.fst) → Shared solo allowed total (fun _ _ => True) (fun _ _ => False) Q ws w

/-- What tasks that fit have done once they have returned. -/
def FitDone (Fit : List T → Prop) (total : List (T × A) → W → Prop) (Q : T → A → Prop) (ts : List T) (w : W) : Prop :=
  Fit ts → ∃ xs, xs.map Prod.fst = ts ∧ total xs w ∧ ∀ x ∈ xs, Q x.1 x.2

/-- **Tasks that fit together make a rule.** -/
theorem Fitting.rule (hF : Fitting exec task mine Rely Fit solo allowed total Q start) :
    Rule exec task mine (FitLive Fit solo allowed total Q) (fun _ => Rely) (FitDone Fit total Q) where
  refl _ := hF.guarantee.refl
  trans _ := hF.guarantee.trans
  work := by
    intro a t p b w p' w' h hs
    refine ⟨fun hfit => (h (by simpa using hfit)).work hF.shares hs, ?_⟩
    cases hs with
    | answer he => exact hF.guarantee.exec _ _ _ _ he
  ask c ws w r w' hc h he := fun hfit => (h hfit).carry fun xs ht => hF.mine c xs w r w' hc ht he
  post := by
    intro ws t w h hfit
    rw [List.map_append, List.map_singleton] at hfit
    refine (h (hF.fewer _ _ hfit)).post ?_ (hF.asks _ _ hfit) (hF.wp _ _ hfit)
    intro xs hxs ht
    exact hF.post xs t w (by rwa [hxs]) ht
  join ws w h hret := fun hfit => (h hfit).done hret

/-- **A poster of tasks that fit returns, with what its postcondition says.** -/
theorem Fitting.returns (hF : Fitting exec task mine Rely Fit solo allowed total Q start)
    (htotal : ∀ c w, ∃ r w', exec c w r w') {m : Poster C T R α} {w : W} {Post : α → Prop} (hw : total [] w)
    (hasks : Prog.Asks (Mine mine) m)
    (hwp : Prog.wp (PosterExec exec (fun _ => Rely) (FitDone Fit total Q)) (fun x => Fit x.posted) (fun _ => False) m
      (fun a _ => Post a) ⟨[], true, w⟩) : Returns exec task m w Post := by
  have hhalt : ∀ ws w (x : Seen T W), FitLive Fit solo allowed total Q ws w → Fit x.posted →
      x.posted = ws.map Prod.fst → ∀ y ∈ ws, y.2 ≠ .halt := by
    intro ws w x h hfit hposted y hy hnone
    obtain ⟨l, rfl, -, hall⟩ := h (hposted ▸ hfit)
    obtain ⟨z, hz, rfl⟩ := List.mem_map.1 hy
    have hwp := (hall z hz).2
    rw [show z.prog = .halt from hnone] at hwp
    exact hwp
  have hlive : FitLive Fit solo allowed total Q [] w := fun _ => ⟨[], rfl, hw, by simp⟩
  obtain ⟨hends, hreturned⟩ := hF.rule.returns htotal hhalt hlive hasks hwp
  exact ⟨hends, hreturned⟩

end Fitting

end Crew

end Lib
