import Mathlib.Logic.Relation
import Mathlib.Tactic
import Mathlib.Order.CompletePartialOrder
/-!
# Levels — a search by levels, several workers at once

A search holds places still to open.  Workers take the places of one level in any order, read on in them a piece at a
time, and hand back what they found and the places of the next level; a cancellation stops them anywhere.  Every place
and every rest of one stands for the finds below it.  Where a step accounts for each find below what it took exactly
once, the number of times a find is held (`weight`) is conserved, so a search that lost nothing returns every find once
(`run_finds`); a step that drops some says so.
-/
namespace Lib

/-! ## Weights -/

section Weight

variable {α β : Type} [DecidableEq β] (below : α → Set β)

open Classical in
/-- How often `f` is held: found, or below something pending. -/
noncomputable def weight (pending : List α) (found : List β) (f : β) : Nat :=
  found.count f + pending.countP (fun x => decide (f ∈ below x))

/-- The finds below `x`, each once. -/
noncomputable def weightOf (x : α) (f : β) : Nat := weight below [x] [] f

variable {below}

theorem weight_singleton (x : α) (f : β) : weight below [x] [] f = weightOf below x f := rfl

@[simp] theorem weight_nil (f : β) : weight below [] [] f = 0 := by simp [weight]

theorem weight_append (p q : List α) (a b : List β) (f : β) :
    weight below (p ++ q) (a ++ b) f = weight below p a f + weight below q b f := by
  simp only [weight, List.count_append, List.countP_append]; omega

theorem weight_cons (x : α) (p : List α) (a : List β) (f : β) :
    weight below (x :: p) a f = weightOf below x f + weight below p a f :=
  weight_append [x] p [] a f

theorem weight_pending_append (p q : List α) (f : β) :
    weight below (p ++ q) [] f = weight below p [] f + weight below q [] f :=
  weight_append p q [] [] f

theorem weight_found_append (a b : List β) (f : β) :
    weight below [] (a ++ b) f = weight below [] a f + weight below [] b f :=
  weight_append [] [] a b f

/-- What is pending and what is found count apart. -/
theorem weight_split (p : List α) (a : List β) (f : β) :
    weight below p a f = weight below p [] f + weight below [] a f := by
  simpa using weight_append p [] [] a f

theorem weight_perm {p q : List α} {a b : List β} (hp : p.Perm q) (ha : a.Perm b) (f : β) :
    weight below p a f = weight below q b f := by
  simp only [weight, ha.count_eq, hp.countP_eq]

theorem weightOf_of_mem {x : α} {f : β} (h : f ∈ below x) : weightOf below x f = 1 := by simp [weightOf, weight, h]

theorem weightOf_of_notMem {x : α} {f : β} (h : f ∉ below x) : weightOf below x f = 0 := by
  simp [weightOf, weight, h]

theorem weightOf_le_one (x : α) (f : β) : weightOf below x f ≤ 1 := by
  by_cases h : f ∈ below x
  · rw [weightOf_of_mem h]
  · rw [weightOf_of_notMem h]; omega

theorem weightOf_pos {x : α} {f : β} : 0 < weightOf below x f ↔ f ∈ below x := by
  by_cases h : f ∈ below x
  · rw [weightOf_of_mem h]; simp [h]
  · rw [weightOf_of_notMem h]; simp [h]

theorem weightOf_mono {x y : α} {f : β} (h : f ∈ below x → f ∈ below y) : weightOf below x f ≤ weightOf below y f := by
  by_cases hx : f ∈ below x
  · rw [weightOf_of_mem hx, weightOf_of_mem (h hx)]
  · rw [weightOf_of_notMem hx]; omega

theorem weightOf_congr {x y : α} {f : β} (h : f ∈ below x ↔ f ∈ below y) : weightOf below x f = weightOf below y f :=
  le_antisymm (weightOf_mono h.1) (weightOf_mono h.2)

theorem weight_found_pos {a : List β} {f : β} : 0 < weight below [] a f ↔ f ∈ a := by
  simp [weight, List.count_pos_iff]

theorem weight_pos {p : List α} {f : β} : 0 < weight below p [] f ↔ ∃ x ∈ p, f ∈ below x := by
  simp [weight, List.countP_pos_iff]

/-- A place is accounted for by what holds each of its finds, and nothing twice. -/
theorem weight_eq_of_splits {x : α} {p : List α} {a : List β} {f : β} (h1 : weight below p a f ≤ 1)
    (hx : f ∈ below x ↔ f ∈ a ∨ ∃ y ∈ p, f ∈ below y) : weight below p a f = weightOf below x f := by
  rw [weight_split] at h1 ⊢
  by_cases hf : f ∈ below x
  · rw [weightOf_of_mem hf]
    rcases hx.1 hf with ha | hp
    · have hpos : 0 < weight below [] a f := weight_found_pos.2 ha
      omega
    · have := weight_pos.2 hp; omega
  · rw [weightOf_of_notMem hf]
    have ha : ¬ 0 < weight below [] a f := fun h => hf (hx.2 (.inl (weight_found_pos.1 h)))
    have hp : ¬ 0 < weight below p [] f := fun h => hf (hx.2 (.inr (weight_pos.1 h)))
    omega

theorem weight_le_one_of_pairwise {p : List α} (h : p.Pairwise (fun x y => Disjoint (below x) (below y))) (f : β) :
    weight below p [] f ≤ 1 := by
  induction p with
  | nil => simp
  | cons x p ih =>
    rw [weight_cons]
    obtain ⟨hx, hp⟩ := List.pairwise_cons.1 h
    by_cases hf : f ∈ below x
    · have : weight below p [] f = 0 := by
        by_contra hne
        obtain ⟨y, hy, hfy⟩ := weight_pos.1 (Nat.pos_of_ne_zero hne)
        exact Set.disjoint_left.1 (hx y hy) hf hfy
      rw [weightOf_of_mem hf, this]
    · rw [weightOf_of_notMem hf]
      have := ih hp
      omega

end Weight

/-! ## The search -/

/-- How a search opens a place and reads on in one.  `lost` tells of a shared state that something was left out. -/
structure Walker (D R E S : Type) where
  opens : D → S → Option R → S → Prop
  reads : R → S → List E → List D → Option R → S → Prop
  lost : S → Prop

namespace Walker

variable {D R E S : Type}

/-- A place being read: its rest, `none` at its end, and what was found there. -/
structure Worker (D R E : Type) where
  rest : Option R
  files : List E := []
  subdirs : List D := []

structure State (D R E S : Type) where
  level : List D
  workers : List (Worker D R E) := []
  levelEntries : List E := []
  nextLevel : List D := []
  entries : List E := []
  shared : S
  cancelled : Bool := false

variable (K : Walker D R E S)

inductive Step : State D R E S → State D R E S → Prop
  | cancel {w} : Step w { w with cancelled := true }
  /-- a worker that comes to its place after the cancellation -/
  | skip {w a b} {d : D} (h : w.level = a ++ d :: b) (hc : w.cancelled = true) : Step w { w with level := a ++ b }
  | opens {w a b} {d : D} {r : Option R} {s : S} (h : w.level = a ++ d :: b) (ho : K.opens d w.shared r s) :
      Step w { w with level := a ++ b, workers := { rest := r } :: w.workers, shared := s }
  | reads {w a b fs ds} {r : R} {r' : Option R} {es : List E} {ds' : List D} {s : S}
      (h : w.workers = a ++ ⟨some r, fs, ds⟩ :: b) (hr : K.reads r w.shared es ds' r' s) :
      Step w { w with workers := a ++ ⟨r', fs ++ es, ds ++ ds'⟩ :: b, shared := s }
  /-- a worker hands back what it has, at the end of its place or where the cancellation stopped it -/
  | merge {w a b} {k : Worker D R E} (h : w.workers = a ++ k :: b) (hc : k.rest = none ∨ w.cancelled = true) :
      Step w { w with workers := a ++ b, levelEntries := w.levelEntries ++ k.files,
                      nextLevel := w.nextLevel ++ k.subdirs }
  | advance {w} (hl : w.level = []) (hw : w.workers = []) :
      Step w { w with level := w.nextLevel, nextLevel := [], levelEntries := [],
                      entries := w.entries ++ w.levelEntries }

abbrev Run : State D R E S → State D R E S → Prop := Relation.ReflTransGen K.Step

/-- **What every piece read keeps of the shared state, a search keeps.** -/
theorem run_shared {K : Walker D R E S} {p : S → Prop} (ho : ∀ {d s r s'}, K.opens d s r s' → p s → p s')
    (hr : ∀ {r s es ds r' s'}, K.reads r s es ds r' s' → p s → p s') {w w' : State D R E S} (h : K.Run w w')
    (hw : p w.shared) : p w'.shared := by
  induction h with
  | refl => exact hw
  | tail _ hs ih =>
    cases hs with
    | cancel | skip | merge | advance => exact ih
    | opens _ hopen => exact ho hopen ih
    | reads _ hread => exact hr hread ih

/-- The search has ended: nothing is left, or it was cancelled and its workers are done. -/
def State.Over (w : State D R E S) : Prop :=
  w.workers = [] ∧ w.levelEntries = [] ∧ w.nextLevel = [] ∧ (w.level = [] ∨ w.cancelled = true)

namespace State

def pending (w : State D R E S) : List (D ⊕ R) :=
  w.level.map .inl ++ (w.workers.flatMap (fun k => k.rest.toList.map .inr ++ k.subdirs.map .inl) ++
    w.nextLevel.map .inl)

def found (w : State D R E S) : List E := w.workers.flatMap Worker.files ++ (w.levelEntries ++ w.entries)

end State

/-! ## What a search returns -/

/-- **Every piece a walker reads accounts for what is below it**: for each find at most once, and exactly once where
nothing was left out. -/
structure Counts {P : Type} [DecidableEq P] (K : Walker D R E S) (below : D ⊕ R → Set P) (path : E → P) : Prop where
  opens_le : ∀ {d s r s'}, K.opens d s r s' →
    ∀ f, weight below (r.toList.map .inr) [] f ≤ weightOf below (.inl d) f
  opens_eq : ∀ {d s r s'}, K.opens d s r s' → ¬ K.lost s' →
    ∀ f, weight below (r.toList.map .inr) [] f = weightOf below (.inl d) f
  reads_le : ∀ {r s es ds r' s'}, K.reads r s es ds r' s' →
    ∀ f, weight below (r'.toList.map .inr ++ ds.map .inl) (es.map path) f ≤ weightOf below (.inr r) f
  reads_eq : ∀ {r s es ds r' s'}, K.reads r s es ds r' s' → ¬ K.lost s' →
    ∀ f, weight below (r'.toList.map .inr ++ ds.map .inl) (es.map path) f = weightOf below (.inr r) f
  opens_lost : ∀ {d s r s'}, K.opens d s r s' → K.lost s → K.lost s'
  reads_lost : ∀ {r s es ds r' s'}, K.reads r s es ds r' s' → K.lost s → K.lost s'

/-- The same for one find. -/
structure CountsAt {P : Type} [DecidableEq P] (K : Walker D R E S) (below : D ⊕ R → Set P) (path : E → P) (f : P) :
    Prop where
  opens_le : ∀ {d s r s'}, K.opens d s r s' → weight below (r.toList.map .inr) [] f ≤ weightOf below (.inl d) f
  opens_eq : ∀ {d s r s'}, K.opens d s r s' → ¬ K.lost s' →
    weight below (r.toList.map .inr) [] f = weightOf below (.inl d) f
  reads_le : ∀ {r s es ds r' s'}, K.reads r s es ds r' s' →
    weight below (r'.toList.map .inr ++ ds.map .inl) (es.map path) f ≤ weightOf below (.inr r) f
  reads_eq : ∀ {r s es ds r' s'}, K.reads r s es ds r' s' → ¬ K.lost s' →
    weight below (r'.toList.map .inr ++ ds.map .inl) (es.map path) f = weightOf below (.inr r) f
  opens_lost : ∀ {d s r s'}, K.opens d s r s' → K.lost s → K.lost s'
  reads_lost : ∀ {r s es ds r' s'}, K.reads r s es ds r' s' → K.lost s → K.lost s'

section Finds

variable {K} {P : Type} [DecidableEq P] {below : D ⊕ R → Set P} {path : E → P}

theorem Counts.at (hK : Counts K below path) (f : P) : CountsAt K below path f where
  opens_le h := hK.opens_le h f
  opens_eq h hl := hK.opens_eq h hl f
  reads_le h := hK.reads_le h f
  reads_eq h hl := hK.reads_eq h hl f
  opens_lost := hK.opens_lost
  reads_lost := hK.reads_lost

/-- How often a state holds a find. -/
noncomputable def State.holds (below : D ⊕ R → Set P) (path : E → P) (w : State D R E S) (f : P) : Nat :=
  weight below w.pending (w.found.map path) f

/-- A worker's share of `holds`. -/
noncomputable def Worker.holds (below : D ⊕ R → Set P) (path : E → P) (k : Worker D R E) (f : P) : Nat :=
  weight below (k.rest.toList.map .inr ++ k.subdirs.map .inl) (k.files.map path) f

noncomputable def workersHold (below : D ⊕ R → Set P) (path : E → P) (ks : List (Worker D R E)) (f : P) : Nat :=
  (ks.map (fun k => k.holds below path f)).sum

theorem weight_workers (ks : List (Worker D R E)) (f : P) :
    weight below (ks.flatMap (fun k => k.rest.toList.map .inr ++ k.subdirs.map .inl))
      ((ks.flatMap Worker.files).map path) f = workersHold below path ks f := by
  induction ks with
  | nil => simp [workersHold]
  | cons k ks ih =>
    rw [List.flatMap_cons, List.flatMap_cons, List.map_append, weight_append, ih]
    simp only [workersHold, List.map_cons, List.sum_cons, Worker.holds]

theorem State.holds_eq (w : State D R E S) (f : P) :
    w.holds below path f = weight below (w.level.map .inl) [] f + workersHold below path w.workers f +
      weight below (w.nextLevel.map .inl) [] f + weight below [] (w.levelEntries.map path) f +
      weight below [] (w.entries.map path) f := by
  have h1 : w.found.map path = [] ++ ((w.workers.flatMap Worker.files).map path ++
      (w.levelEntries.map path ++ w.entries.map path)) := by
    simp [State.found]
  rw [State.holds, State.pending, h1, weight_append, weight_append, weight_workers]
  rw [weight_split (w.nextLevel.map _), weight_found_append]
  omega

theorem workersHold_mid (a b : List (Worker D R E)) (k : Worker D R E) (f : P) :
    workersHold below path (a ++ k :: b) f = workersHold below path (a ++ b) f + k.holds below path f := by
  simp only [workersHold, List.map_append, List.map_cons, List.sum_append, List.sum_cons]; omega

theorem weight_mid (a b : List D) (d : D) (f : P) :
    weight below ((a ++ d :: b).map .inl) [] f =
      weight below ((a ++ b).map .inl) [] f + weightOf below (.inl d) f := by
  rw [weight_perm (q := .inl d :: (a ++ b).map .inl) (b := []) _ (.refl _), weight_cons]
  · omega
  · rw [List.map_append, List.map_append, List.map_cons]
    exact List.perm_middle

/-- Something was left out, or the search was cancelled. -/
def State.Short (K : Walker D R E S) (w : State D R E S) : Prop := K.lost w.shared ∨ w.cancelled = true

theorem step_short {f : P} (hK : CountsAt K below path f) {w w' : State D R E S} (h : K.Step w w') (hs : w.Short K) :
    w'.Short K := by
  cases h with
  | cancel => exact .inr rfl
  | skip _ _ => exact hs
  | opens _ ho => exact hs.imp (hK.opens_lost ho) id
  | reads _ hr => exact hs.imp (hK.reads_lost hr) id
  | merge _ _ => exact hs
  | advance _ _ => exact hs

theorem Worker.holds_eq (k : Worker D R E) (f : P) :
    k.holds below path f = weight below (k.rest.toList.map .inr) [] f + weight below (k.subdirs.map .inl) [] f +
      weight below [] (k.files.map path) f := by
  rw [Worker.holds, weight_split, weight_pending_append]

variable (below path) in
/-- What a place is opened as takes its share of `holds` over. -/
theorem holds_opens {w : State D R E S} {a b : List D} {d : D} (h : w.level = a ++ d :: b) (r : Option R) (s : S)
    (f : P) :
    ({ w with level := a ++ b, workers := { rest := r } :: w.workers, shared := s } : State D R E S).holds below path f +
        weightOf below (.inl d) f = w.holds below path f + weight below (r.toList.map .inr) [] f := by
  have hk : workersHold below path (⟨r, [], []⟩ :: w.workers) f =
      weight below (r.toList.map .inr) [] f + workersHold below path w.workers f := by
    simp only [workersHold, List.map_cons, List.sum_cons, Worker.holds_eq, List.map_nil, weight_nil, Nat.add_zero]
  rw [State.holds_eq, State.holds_eq, h, weight_mid]
  dsimp only
  rw [hk]
  omega

variable (below path) in
/-- What is read on takes the share of the place that was read. -/
theorem holds_reads {w : State D R E S} {a b : List (Worker D R E)} {fs : List E} {ds : List D} {r : R}
    (h : w.workers = a ++ ⟨some r, fs, ds⟩ :: b) (r' : Option R) (es : List E) (ds' : List D) (s : S) (f : P) :
    ({ w with workers := a ++ ⟨r', fs ++ es, ds ++ ds'⟩ :: b, shared := s } : State D R E S).holds below path f +
        weightOf below (.inr r) f =
      w.holds below path f + weight below (r'.toList.map .inr ++ ds'.map .inl) (es.map path) f := by
  have hsplit : weight below (r'.toList.map .inr ++ ds'.map .inl) (es.map path) f =
      weight below (r'.toList.map .inr) [] f + weight below (ds'.map .inl) [] f + weight below [] (es.map path) f := by
    rw [weight_split, weight_pending_append]
  rw [State.holds_eq, State.holds_eq, h, hsplit]
  dsimp only
  rw [workersHold_mid, workersHold_mid, Worker.holds_eq, Worker.holds_eq]
  simp only [List.map_append, weight_pending_append, weight_found_append, Option.toList_some, List.map_cons,
    List.map_nil, weight_singleton]
  omega

/-- **A step holds no find more often than before, and each as often where nothing was left out.** -/
theorem step_holds {f : P} (hK : CountsAt K below path f) {w w' : State D R E S} (h : K.Step w w') :
    w'.holds below path f ≤ w.holds below path f ∧
      (¬ w'.Short K → w'.holds below path f = w.holds below path f) := by
  cases h with
  | cancel => exact ⟨le_rfl, fun _ => rfl⟩
  | skip hl hc =>
    rw [State.holds_eq, State.holds_eq, hl, weight_mid]
    exact ⟨by dsimp only; omega, fun hs => absurd (.inr hc) hs⟩
  | @opens a b d r s hl ho =>
    have hle := hK.opens_le ho
    have hholds := holds_opens below path hl r s f
    refine ⟨by omega, fun hs => ?_⟩
    have heq := hK.opens_eq ho (fun hl => hs (.inl hl))
    omega
  | @reads a b fs ds r r' es ds' s hw hr =>
    have hle := hK.reads_le hr
    have hholds := holds_reads below path hw r' es ds' s f
    refine ⟨by omega, fun hs => ?_⟩
    have heq := hK.reads_eq hr (fun hl => hs (.inl hl))
    omega
  | @merge a b k hw hc =>
    rw [State.holds_eq, State.holds_eq, hw]
    dsimp only
    rw [workersHold_mid, Worker.holds_eq]
    simp only [List.map_append, weight_pending_append, weight_found_append]
    refine ⟨by omega, fun hs => ?_⟩
    have hr : k.rest = none := hc.resolve_right fun hcan => hs (.inr hcan)
    rw [hr]
    simp only [Option.toList_none, List.map_nil, weight_nil]
    omega
  | advance hl hw =>
    rw [State.holds_eq, State.holds_eq, hl, hw]
    simp only [List.map_nil, weight_nil, List.map_append, weight_found_append]
    exact ⟨by omega, fun _ => by omega⟩

theorem run_holds {f : P} (hK : CountsAt K below path f) {w w' : State D R E S} (h : K.Run w w') :
    w'.holds below path f ≤ w.holds below path f ∧
      (¬ w'.Short K → w'.holds below path f = w.holds below path f) := by
  induction h with
  | refl => exact ⟨le_rfl, fun _ => rfl⟩
  | tail _ hstep ih =>
    obtain ⟨hle, heq⟩ := step_holds hK hstep
    refine ⟨le_trans hle ih.1, fun hs => ?_⟩
    rw [heq hs, ih.2 (fun hw => hs (step_short hK hstep hw))]

/-- A search of the one place `d`, about to begin. -/
def State.start (d : D) (s : S) : State D R E S := { level := [d], shared := s }

theorem start_holds (d : D) (s : S) (f : P) :
    (State.start d s : State D R E S).holds below path f = weightOf below (.inl d) f := by
  simp [State.start, State.holds_eq, workersHold, weight_singleton]

theorem start_holds_le (d : D) (s : S) (f : P) :
    (State.start d s : State D R E S).holds below path f ≤ 1 := by
  rw [start_holds]
  exact weightOf_le_one _ f

/-- A search that is over holds what it returns, and the places it did not open. -/
theorem State.Over.holds_eq {w : State D R E S} (ho : w.Over) (f : P) :
    w.holds below path f = weight below (w.level.map .inl) [] f + (w.entries.map path).count f := by
  obtain ⟨hw, hle, hn, -⟩ := ho
  rw [State.holds_eq, hw, hle, hn]
  simp [workersHold, weight]

/-- What a search that is over and was not cancelled still holds, it returns. -/
theorem State.Over.mem_of_holds {w : State D R E S} (ho : w.Over) (hc : w.cancelled = false) {f : P}
    (hf : 0 < w.holds below path f) : f ∈ w.entries.map path := by
  have hlevel : w.level = [] := ho.2.2.2.resolve_right (by simp [hc])
  rw [ho.holds_eq, hlevel] at hf
  simp only [List.map_nil, weight_nil, Nat.zero_add] at hf
  exact List.count_pos_iff.1 hf

/-- **What a search that is over returns**: finds below its start, each once, and all of them where nothing was left
out. -/
theorem run_finds (hK : Counts K below path) {d : D} {s : S} {w : State D R E S} (h : K.Run (.start d s) w)
    (ho : w.Over) : (w.entries.map path).Nodup ∧ (∀ e ∈ w.entries, path e ∈ below (.inl d)) ∧
      (¬ w.Short K → ∀ f ∈ below (.inl d), f ∈ w.entries.map path) := by
  have hcount : ∀ f, (w.entries.map path).count f ≤ weightOf below (.inl d) f := by
    intro f
    have := (run_holds (hK.at f) h).1
    rw [start_holds, ho.holds_eq] at this
    omega
  refine ⟨List.nodup_iff_count.2 fun f => le_trans (hcount f) (weightOf_le_one _ f), fun e he => ?_,
    fun hs f hf => ?_⟩
  · exact weightOf_pos.1 (lt_of_lt_of_le (List.count_pos_iff.2 (List.mem_map_of_mem he)) (hcount _))
  · have heq := (run_holds (hK.at f) h).2 hs
    rw [start_holds, weightOf_of_mem hf] at heq
    exact ho.mem_of_holds (Bool.eq_false_of_not_eq_true fun hc => hs (.inr hc)) (heq ▸ Nat.one_pos)

/-! ### What a search leaves out -/

/-- A step that leaves a find out: what is read does not account for it. -/
inductive Drops (K : Walker D R E S) (below : D ⊕ R → Set P) (path : E → P) (f : P) : State D R E S → State D R E S → Prop
  | opens {w a b} {d : D} {r : Option R} {s : S} (h : w.level = a ++ d :: b) (ho : K.opens d w.shared r s)
      (hf : weight below (r.toList.map .inr) [] f ≠ weightOf below (.inl d) f) :
      Drops K below path f w { w with level := a ++ b, workers := { rest := r } :: w.workers, shared := s }
  | reads {w a b fs ds} {r : R} {r' : Option R} {es : List E} {ds' : List D} {s : S}
      (h : w.workers = a ++ ⟨some r, fs, ds⟩ :: b) (hr : K.reads r w.shared es ds' r' s)
      (hf : weight below (r'.toList.map .inr ++ ds'.map .inl) (es.map path) f ≠ weightOf below (.inr r) f) :
      Drops K below path f w { w with workers := a ++ ⟨r', fs ++ es, ds ++ ds'⟩ :: b, shared := s }

theorem step_cancelled {w w' : State D R E S} (h : K.Step w w') (hc : w.cancelled = true) : w'.cancelled = true := by
  cases h with
  | cancel => rfl
  | skip | opens | reads | merge | advance => exact hc

variable (below path) in
/-- **A search that is not cancelled holds every find as often as before**, or the step leaves it out. -/
theorem step_drops {f : P} {w w' : State D R E S} (h : K.Step w w') (hc : w'.cancelled = false) :
    w'.holds below path f = w.holds below path f ∨ Drops K below path f w w' := by
  -- the walker that reads only what accounts for `f` is never short
  let K' : Walker D R E S := {
    opens := fun d s r s' => K.opens d s r s' ∧ weight below (r.toList.map .inr) [] f = weightOf below (.inl d) f
    reads := fun r s es ds r' s' => K.reads r s es ds r' s' ∧
      weight below (r'.toList.map .inr ++ ds.map .inl) (es.map path) f = weightOf below (.inr r) f
    lost := fun _ => False }
  have hK : CountsAt K' below path f := ⟨fun h => h.2.le, fun h _ => h.2, fun h => h.2.le, fun h _ => h.2,
    fun _ h => h, fun _ h => h⟩
  have hshort : ¬ w'.Short K' := by
    rintro (hf | hcan)
    · exact hf
    · rw [hc] at hcan
      cases hcan
  have hkeeps : K'.Step w w' → w'.holds below path f = w.holds below path f := fun hs => (step_holds hK hs).2 hshort
  cases h with
  | cancel => exact .inl (hkeeps .cancel)
  | skip hl hcan => exact .inl (hkeeps (.skip hl hcan))
  | merge hw hr => exact .inl (hkeeps (.merge hw hr))
  | advance hl hw => exact .inl (hkeeps (.advance hl hw))
  | @opens a b d r s hl ho =>
    by_cases hf : weight below (r.toList.map .inr) [] f = weightOf below (.inl d) f
    · exact .inl (hkeeps (.opens hl ⟨ho, hf⟩))
    · exact .inr (.opens hl ho hf)
  | @reads a b fs ds r r' es ds' s hw hr =>
    by_cases hf : weight below (r'.toList.map .inr ++ ds'.map .inl) (es.map path) f = weightOf below (.inr r) f
    · exact .inl (hkeeps (.reads hw ⟨hr, hf⟩))
    · exact .inr (.reads hw hr hf)

theorem Drops.step {f : P} {w w' : State D R E S} (h : Drops K below path f w w') : K.Step w w' := by
  cases h with
  | opens hl ho _ => exact .opens hl ho
  | reads hw hr _ => exact .reads hw hr

theorem Drops.holds_lt {f : P} (hK : CountsAt K below path f) {w w' : State D R E S} (h : Drops K below path f w w') :
    w'.holds below path f < w.holds below path f := by
  cases h with
  | @opens a b d r s hl ho hf =>
    have hle := hK.opens_le ho
    have hholds := holds_opens below path hl r s f
    omega
  | @reads a b fs ds r r' es ds' s hw hr hf =>
    have hle := hK.reads_le hr
    have hholds := holds_reads below path hw r' es ds' s f
    omega

variable (path) in
/-- **A find is held until the search is cancelled or a step leaves it out.** -/
theorem run_drops {f : P} {d : D} {s : S} (hf : f ∈ below (.inl d)) {w : State D R E S} (h : K.Run (.start d s) w) :
    w.cancelled = true ∨ w.holds below path f = 1 ∨
      ∃ w₁ w₂, K.Run (.start d s) w₁ ∧ Drops K below path f w₁ w₂ ∧ K.Run w₂ w := by
  induction h with
  | refl =>
    refine .inr (.inl ?_)
    rw [start_holds, weightOf_of_mem hf]
  | @tail w w' hrun hs ih =>
    rcases ih with hc | hone | ⟨w₁, w₂, hrun₁, hd, hrun₂⟩
    · exact .inl (step_cancelled hs hc)
    · cases hc : w'.cancelled with
      | true => exact .inl rfl
      | false =>
        rcases step_drops below path (f := f) hs hc with heq | hd
        · exact .inr (.inl (heq.trans hone))
        · exact .inr (.inr ⟨w, w', hrun, hd, .refl⟩)
    · exact .inr (.inr ⟨w₁, w₂, hrun₁, hd, hrun₂.tail hs⟩)

/-- **What was left out is not returned.** -/
theorem dropped_notMem {f : P} (hK : Counts K below path) {d : D} {s : S} {w₁ w₂ w : State D R E S}
    (h₁ : K.Run (.start d s) w₁) (hd : Drops K below path f w₁ w₂) (h₂ : K.Run w₂ w) (ho : w.Over) :
    f ∉ w.entries.map path := by
  have hstart : (State.start d s : State D R E S).holds below path f ≤ 1 := start_holds_le d s f
  have hle₁ := (run_holds (hK.at f) h₁).1
  have hlt := hd.holds_lt (hK.at f)
  have hle₂ := (run_holds (hK.at f) h₂).1
  have hholds : w.holds below path f = _ := ho.holds_eq f
  have hzero : (w.entries.map path).count f = 0 := by omega
  exact List.count_eq_zero.1 hzero

end Finds

section Good

variable {K} {p : D → Prop} {q : R → Prop} {g : E → Prop}

/-- All a worker holds is good. -/
def Worker.Good (p : D → Prop) (q : R → Prop) (g : E → Prop) (k : Worker D R E) : Prop :=
  (∀ r ∈ k.rest, q r) ∧ (∀ d ∈ k.subdirs, p d) ∧ ∀ e ∈ k.files, g e

structure State.Good (p : D → Prop) (q : R → Prop) (g : E → Prop) (w : State D R E S) : Prop where
  level : ∀ d ∈ w.level, p d
  workers : ∀ k ∈ w.workers, k.Good p q g
  nextLevel : ∀ d ∈ w.nextLevel, p d
  levelEntries : ∀ e ∈ w.levelEntries, g e
  entries : ∀ e ∈ w.entries, g e

/-- **What every piece read keeps good, a search keeps good.** -/
theorem run_good (ho : ∀ {d s r s'}, K.opens d s r s' → p d → ∀ x ∈ r, q x)
    (hr : ∀ {r s es ds r' s'}, K.reads r s es ds r' s' → q r →
      (∀ e ∈ es, g e) ∧ (∀ d ∈ ds, p d) ∧ ∀ x ∈ r', q x)
    {w w' : State D R E S} (h : K.Run w w') (hw : w.Good p q g) : w'.Good p q g := by
  induction h with
  | refl => exact hw
  | tail _ hstep ih =>
    have hl := ih.level
    have hk := ih.workers
    cases hstep with
    | cancel => exact ⟨ih.level, ih.workers, ih.nextLevel, ih.levelEntries, ih.entries⟩
    | skip heq _ =>
      rw [heq, List.forall_mem_append, List.forall_mem_cons] at hl
      exact { ih with level := List.forall_mem_append.2 ⟨hl.1, hl.2.2⟩ }
    | opens heq hopen =>
      rw [heq, List.forall_mem_append, List.forall_mem_cons] at hl
      exact { ih with
        level := List.forall_mem_append.2 ⟨hl.1, hl.2.2⟩
        workers := List.forall_mem_cons.2 ⟨⟨ho hopen hl.2.1, by simp, by simp⟩, ih.workers⟩ }
    | reads heq hread =>
      rw [heq, List.forall_mem_append, List.forall_mem_cons] at hk
      obtain ⟨ha, ⟨hrest, hsub, hfiles⟩, hb⟩ := hk
      obtain ⟨he, hd, hx⟩ := hr hread (hrest _ rfl)
      exact { ih with
        workers := List.forall_mem_append.2 ⟨ha, List.forall_mem_cons.2
          ⟨⟨hx, List.forall_mem_append.2 ⟨hsub, hd⟩, List.forall_mem_append.2 ⟨hfiles, he⟩⟩, hb⟩⟩ }
    | merge heq _ =>
      rw [heq, List.forall_mem_append, List.forall_mem_cons] at hk
      obtain ⟨ha, ⟨-, hsub, hfiles⟩, hb⟩ := hk
      exact { ih with
        workers := List.forall_mem_append.2 ⟨ha, hb⟩
        nextLevel := List.forall_mem_append.2 ⟨ih.nextLevel, hsub⟩
        levelEntries := List.forall_mem_append.2 ⟨ih.levelEntries, hfiles⟩ }
    | advance _ _ =>
      exact { ih with
        level := ih.nextLevel
        nextLevel := by simp
        levelEntries := by simp
        entries := List.forall_mem_append.2 ⟨ih.entries, ih.levelEntries⟩ }

/-- A search of one good place returns good entries. -/
theorem run_good_start (ho : ∀ {d s r s'}, K.opens d s r s' → p d → ∀ x ∈ r, q x)
    (hr : ∀ {r s es ds r' s'}, K.reads r s es ds r' s' → q r →
      (∀ e ∈ es, g e) ∧ (∀ d ∈ ds, p d) ∧ ∀ x ∈ r', q x)
    {d : D} {s : S} {w : State D R E S} (h : K.Run (.start d s) w) (hd : p d) : ∀ e ∈ w.entries, g e := by
  have hstart : (State.start d s : State D R E S).Good p q g :=
    ⟨by simpa [State.start] using hd, by simp [State.start], by simp [State.start], by simp [State.start],
      by simp [State.start]⟩
  exact (run_good ho hr h hstart).entries

end Good

end Walker

end Lib
