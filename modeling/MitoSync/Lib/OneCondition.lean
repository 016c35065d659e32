import Mathlib.Logic.Relation
import Mathlib.Tactic.Ring
/-!
# OneCondition — a bounded buffer whose two kinds of waiters share one condition variable

Producers wait while the buffer is full and consumers while it is empty, on the same condition variable, and each
operation notifies one waiter of either kind.  Threads of a kind are alike, so a state counts them (`Buffer`).

A wake-up meant for one kind can be taken by the other, and the buffer can strand: items in it and everyone asleep.  That
takes both kinds asleep at once.  Between a sleeping consumer and a blocked producer the buffer has to fill or to drain
whole, while each operation but those still to notify wakes a sleeper, so both kinds are asleep only if the threads
outnumber the places, and each fill and each drain adds at most that excess (`Filling`, `Draining`).  `stranded_rounds`: how many
rounds a stranding takes, and how many items.
-/
namespace Lib.OneCondition

open Relation

/-- How many items and threads are where. -/
@[ext] structure Buffer where
  /-- items still to come -/
  todo : Nat
  /-- producers with an item, about to look at the buffer -/
  holding : Nat := 0
  /-- producers asleep with an item -/
  blocked : Nat := 0
  /-- producers that have put their item and not notified yet -/
  notifying : Nat := 0
  queued : Nat := 0
  /-- items taken so far -/
  popped : Nat := 0
  /-- consumers that will look at the buffer -/
  polling : Nat
  asleep : Nat := 0
  /-- consumers that have taken an item and not notified yet -/
  signalling : Nat := 0
  exited : Nat := 0

/-- One move of one thread at work, with room for `capacity` items and at most `P` producers at the buffer at a time. -/
inductive Move (capacity P : Nat) : Buffer → Buffer → Prop
  | arrive {s : Buffer} (htodo : 0 < s.todo) (hroom : s.holding + s.blocked + s.notifying < P) :
      Move capacity P s { s with todo := s.todo - 1, holding := s.holding + 1 }
  | push {s : Buffer} (h : 0 < s.holding) (hroom : s.queued < capacity) :
      Move capacity P s
        { s with holding := s.holding - 1, notifying := s.notifying + 1, queued := s.queued + 1 }
  | block {s : Buffer} (h : 0 < s.holding) (hfull : capacity ≤ s.queued) :
      Move capacity P s { s with holding := s.holding - 1, blocked := s.blocked + 1 }
  | notifyProducer {s : Buffer} (h : 0 < s.notifying) (hwake : 0 < s.blocked) :
      Move capacity P s
        { s with notifying := s.notifying - 1, blocked := s.blocked - 1, holding := s.holding + 1 }
  | notifyConsumer {s : Buffer} (h : 0 < s.notifying) (hwake : 0 < s.asleep) :
      Move capacity P s
        { s with notifying := s.notifying - 1, asleep := s.asleep - 1, polling := s.polling + 1 }
  | notifyNone {s : Buffer} (h : 0 < s.notifying) (hblocked : s.blocked = 0) (hasleep : s.asleep = 0) :
      Move capacity P s { s with notifying := s.notifying - 1 }
  | pop {s : Buffer} (h : 0 < s.polling) (hqueued : 0 < s.queued) :
      Move capacity P s
        { s with polling := s.polling - 1, signalling := s.signalling + 1, queued := s.queued - 1,
                 popped := s.popped + 1 }
  | sleep {s : Buffer} (h : 0 < s.polling) (hempty : s.queued = 0) :
      Move capacity P s { s with polling := s.polling - 1, asleep := s.asleep + 1 }
  | signalProducer {s : Buffer} (h : 0 < s.signalling) (hwake : 0 < s.blocked) :
      Move capacity P s
        { s with signalling := s.signalling - 1, polling := s.polling + 1, blocked := s.blocked - 1,
                 holding := s.holding + 1 }
  | signalConsumer {s : Buffer} (h : 0 < s.signalling) (hwake : 0 < s.asleep) :
      Move capacity P s
        { s with signalling := s.signalling - 1, asleep := s.asleep - 1, polling := s.polling + 2 }
  | signalNone {s : Buffer} (h : 0 < s.signalling) (hblocked : s.blocked = 0) (hasleep : s.asleep = 0) :
      Move capacity P s { s with signalling := s.signalling - 1, polling := s.polling + 1 }

/-- A move, or an item or a thread that leaves, or a wake-up that nobody sent. -/
inductive Step (capacity P : Nat) : Buffer → Buffer → Prop
  | move {s s' : Buffer} (h : Move capacity P s s') : Step capacity P s s'
  /-- an item that never comes -/
  | drop {s : Buffer} (htodo : 0 < s.todo) : Step capacity P s { s with todo := s.todo - 1 }
  /-- a producer that gives up its item -/
  | pass {s : Buffer} (h : 0 < s.holding) :
      Step capacity P s { s with holding := s.holding - 1, notifying := s.notifying + 1 }
  | exit {s : Buffer} (h : 0 < s.polling) (hempty : s.queued = 0) :
      Step capacity P s { s with polling := s.polling - 1, exited := s.exited + 1 }
  | wakeProducer {s : Buffer} (h : 0 < s.blocked) :
      Step capacity P s { s with blocked := s.blocked - 1, holding := s.holding + 1 }
  | wakeConsumer {s : Buffer} (h : 0 < s.asleep) :
      Step capacity P s { s with asleep := s.asleep - 1, polling := s.polling + 1 }
  | wakeConsumers {s : Buffer} : Step capacity P s { s with asleep := 0, polling := s.polling + s.asleep }

/-- Items in the buffer, every consumer asleep, and no producer that is not asleep at it. -/
structure Buffer.Stranded (W : Nat) (s : Buffer) : Prop where
  queued : 0 < s.queued
  asleep : s.asleep = W
  holding : s.holding = 0
  notifying : s.notifying = 0

/-! ## The invariant -/

section Invariant

variable {capacity P W δ n : Nat} {s s' : Buffer}

/-- After `t` drains: what fills the buffer wakes a sleeper for each item, but for the producers that have not notified. -/
structure Filling (capacity W δ t : Nat) (s : Buffer) : Prop where
  popped : t * capacity ≤ s.popped
  blocked : s.blocked ≤ 2 * t * δ
  wakes : 0 < s.asleep + s.blocked → s.queued + s.asleep + s.blocked ≤ W + s.notifying + 2 * t * δ

/-- From the full buffer on: what drains it wakes a sleeper for each item, but for the consumers that have not notified. -/
structure Draining (capacity P δ t : Nat) (s : Buffer) : Prop where
  pushed : (t + 1) * capacity ≤ s.queued + s.popped
  asleep : s.asleep ≤ (2 * t + 1) * δ
  wakes : 0 < s.asleep + s.blocked →
    capacity + s.blocked + s.asleep ≤ s.queued + s.signalling + P + (2 * t + 1) * δ

/-- The accounts of a run over `n` items by at most `P` producers and by `W` consumers. -/
structure Sound (capacity P W δ n : Nat) (s : Buffer) : Prop where
  producers : s.holding + s.blocked + s.notifying ≤ P
  consumers : s.polling + s.asleep + s.signalling + s.exited = W
  items : s.todo + s.holding + s.blocked + s.queued + s.popped ≤ n
  room : s.queued ≤ capacity
  /-- someone will come to a buffer with items, unless a producer sleeps at the full one -/
  watched : 0 < s.queued → 0 < s.holding + s.notifying + s.polling + s.signalling + s.exited ∨
    s.queued = capacity ∧ 0 < s.blocked
  round : ∃ t, Filling capacity W δ t s ∨ Draining capacity P δ t s

theorem Sound.initial (capacity P W δ n : Nat) : Sound capacity P W δ n { todo := n, polling := W } where
  producers := by simp
  consumers := by simp
  items := by simp
  room := by simp
  watched h := absurd h (by simp)
  round := ⟨0, .inl ⟨by simp, by simp, by simp⟩⟩

/-- A step that leaves every bound of a round as true as it was. -/
theorem round_of_le (h : ∃ t, Filling capacity W δ t s ∨ Draining capacity P δ t s) (hpopped : s.popped ≤ s'.popped)
    (hpushed : s.queued + s.popped ≤ s'.queued + s'.popped) (hblocked : s'.blocked ≤ s.blocked)
    (hasleep : s'.asleep ≤ s.asleep)
    (hfill : 0 < s'.asleep + s'.blocked →
      s'.queued + s'.asleep + s'.blocked + s.notifying ≤ s.queued + s.asleep + s.blocked + s'.notifying)
    (hdrain : 0 < s'.asleep + s'.blocked →
      s'.blocked + s'.asleep + s.queued + s.signalling ≤ s.blocked + s.asleep + s'.queued + s'.signalling) :
    ∃ t, Filling capacity W δ t s' ∨ Draining capacity P δ t s' := by
  obtain ⟨t, hfilling | hdraining⟩ := h
  · refine ⟨t, .inl ⟨hfilling.popped.trans hpopped, hblocked.trans hfilling.blocked, fun hpos => ?_⟩⟩
    have hwakes := hfilling.wakes (hpos.trans_le (Nat.add_le_add hasleep hblocked))
    have := hfill hpos
    omega
  · refine ⟨t, .inr ⟨hdraining.pushed.trans hpushed, hasleep.trans hdraining.asleep, fun hpos => ?_⟩⟩
    have hwakes := hdraining.wakes (hpos.trans_le (Nat.add_le_add hasleep hblocked))
    have := hdrain hpos
    omega


/-- A producer that falls asleep at the full buffer ends a filling. -/
theorem Sound.block (hδ : P + W ≤ capacity + 1 + δ) (h : Sound capacity P W δ n s) (hheld : 0 < s.holding)
    (hfull : capacity ≤ s.queued) :
    ∃ t, Draining capacity P δ t { s with holding := s.holding - 1, blocked := s.blocked + 1 } := by
  have hproducers := h.producers
  obtain ⟨t, hfilling | hdraining⟩ := h.round
  · have hpopped := hfilling.popped
    have hrounds : (t + 1) * capacity = t * capacity + capacity := Nat.succ_mul t capacity
    have hexcess : (2 * t + 1) * δ = 2 * t * δ + δ := by ring
    have hasleep : s.asleep ≤ (2 * t + 1) * δ := by
      by_cases hnone : s.asleep = 0
      · omega
      · have hwakes := hfilling.wakes (by omega)
        omega
    exact ⟨t, by dsimp only; omega, hasleep, fun _ => by dsimp only; omega⟩
  · have hasleep := hdraining.asleep
    exact ⟨t, hdraining.pushed, hasleep, fun _ => by dsimp only; omega⟩

/-- A consumer that falls asleep at the empty buffer ends a draining. -/
theorem Sound.sleep (hδ : P + W ≤ capacity + 1 + δ) (h : Sound capacity P W δ n s) (hpolling : 0 < s.polling)
    (hempty : s.queued = 0) :
    ∃ t, Filling capacity W δ t { s with polling := s.polling - 1, asleep := s.asleep + 1 } := by
  have hconsumers := h.consumers
  obtain ⟨t, hfilling | hdraining⟩ := h.round
  · have hblocked := hfilling.blocked
    exact ⟨t, hfilling.popped, hblocked, fun _ => by dsimp only; omega⟩
  · have hpushed := hdraining.pushed
    have hwakes := hdraining.wakes
    have hexcess : 2 * (t + 1) * δ = (2 * t + 1) * δ + δ := by ring
    have hboth : s.blocked + 2 * s.asleep ≤ 2 * (t + 1) * δ := by
      by_cases hnone : s.asleep + s.blocked = 0
      · omega
      · have := hwakes (by omega)
        omega
    exact ⟨t + 1, by dsimp only; omega, by dsimp only; omega, fun _ => by dsimp only; omega⟩

theorem Sound.move (hδ : P + W ≤ capacity + 1 + δ) (hW : 0 < W) (h : Sound capacity P W δ n s)
    (hmove : Move capacity P s s') : Sound capacity P W δ n s' := by
  have hproducers := h.producers
  have hconsumers := h.consumers
  have hitems := h.items
  have hroom := h.room
  have hwatched := h.watched
  cases hmove with
  | block hheld hfull =>
    obtain ⟨t, hdraining⟩ := h.block hδ hheld hfull
    exact ⟨by dsimp only; omega, hconsumers, by dsimp only; omega, hroom, fun _ => .inr ⟨by dsimp only; omega, by simp⟩,
      t, .inr hdraining⟩
  | sleep hpolling hempty =>
    obtain ⟨t, hfilling⟩ := h.sleep hδ hpolling hempty
    exact ⟨hproducers, by dsimp only; omega, hitems, hroom, fun hq => absurd hempty (Nat.ne_of_gt hq), t, .inl hfilling⟩
  | _ =>
    refine ⟨?_, ?_, ?_, ?_, ?_, round_of_le h.round ?_ ?_ ?_ ?_ ?_ ?_⟩ <;> dsimp only <;> omega

theorem Sound.step (hδ : P + W ≤ capacity + 1 + δ) (hW : 0 < W) (h : Sound capacity P W δ n s)
    (hst : Step capacity P s s') : Sound capacity P W δ n s' := by
  have hproducers := h.producers
  have hconsumers := h.consumers
  have hitems := h.items
  have hroom := h.room
  have hwatched := h.watched
  cases hst with
  | move hmove => exact h.move hδ hW hmove
  | _ =>
    refine ⟨?_, ?_, ?_, ?_, ?_, round_of_le h.round ?_ ?_ ?_ ?_ ?_ ?_⟩ <;> dsimp only <;> omega

theorem Sound.run (hδ : P + W ≤ capacity + 1 + δ) (hW : 0 < W)
    (hrun : ReflTransGen (Step capacity P) { todo := n, polling := W } s) : Sound capacity P W δ n s := by
  induction hrun with
  | refl => exact .initial capacity P W δ n
  | tail _ hst ih => exact ih.step hδ hW hst

/-- **What a stranding takes**: `t` rounds whose excess of threads puts every consumer to sleep at the full buffer, and
more items than `t` drains and the full buffer. -/
theorem Sound.stranded_rounds (hW : W ≤ capacity) (h : Sound capacity P W δ n s) (hstranded : s.Stranded W) :
    ∃ t, W ≤ (2 * t + 1) * δ ∧ (t + 1) * capacity < n := by
  have hconsumers := h.consumers
  have hitems := h.items
  have hasleep := hstranded.asleep
  -- nobody is left to come, so a producer sleeps at the full buffer
  obtain ⟨hfull, hblocked⟩ : s.queued = capacity ∧ 0 < s.blocked :=
    (h.watched hstranded.queued).resolve_left (by have := hstranded.holding; have := hstranded.notifying; omega)
  obtain ⟨t, hfilling | hdraining⟩ := h.round
  · have hpopped := hfilling.popped
    have hwakes := hfilling.wakes (by omega)
    have hrounds : (t + 1) * capacity = t * capacity + capacity := Nat.succ_mul t capacity
    have hexcess : (2 * t + 1) * δ = 2 * t * δ + δ := by ring
    have hnotifying := hstranded.notifying
    exact ⟨t, by omega, by omega⟩
  · have hpushed := hdraining.pushed
    exact ⟨t, hasleep ▸ hdraining.asleep, by omega⟩

end Invariant

end Lib.OneCondition
