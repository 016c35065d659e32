import MitoSync.Lib.OneCondition
/-!
# Stranding — a schedule that strands the buffer

The other half of `Sound.stranded_rounds`: with that many items the moves of the threads alone strand the buffer
(`exists_stranded`).  A round (`round`) fills the buffer while it wakes no more consumers than it must, puts every producer
to sleep, and drains the buffer while it wakes no more producers than it must; each round leaves twice the excess of
threads more producers asleep at the empty buffer.  Once they are enough, the next filling wakes no consumer (`last`).
-/
namespace Lib.OneCondition

open Relation

variable {capacity P W δ n : Nat}

/-- A schedule that repeats. -/
theorem repeated {F : Nat → Buffer} : ∀ k : Nat,
    (∀ i < k, ReflTransGen (Move capacity P) (F i) (F (i + 1))) → ReflTransGen (Move capacity P) (F 0) (F k)
  | 0, _ => .refl
  | k + 1, h => (repeated k fun i hi => h i (Nat.lt_succ_of_lt hi)).trans (h k (Nat.lt_succ_self k))

/-- A move to a state of the same counts. -/
theorem Move.to {s s' t : Buffer} (h : Move capacity P s s') (ht : s' = t) : ReflTransGen (Move capacity P) s t :=
  ht ▸ .single h

variable {m h b np q x pol as sig : Nat}

theorem arrives (a : Nat) (hm : a ≤ m) (hroom : h + a + b + np ≤ P) : ReflTransGen (Move capacity P)
    ⟨m, h, b, np, q, x, pol, as, sig, 0⟩ ⟨m - a, h + a, b, np, q, x, pol, as, sig, 0⟩ := by
  refine repeated (F := fun i => ⟨m - i, h + i, b, np, q, x, pol, as, sig, 0⟩) a fun i hi => ?_
  have htodo : 0 < m - i := by omega
  have hplace : h + i + b + np < P := by omega
  exact (Move.arrive htodo hplace).to (by ext <;> dsimp only <;> omega)

theorem pushes (c : Nat) (hc : c ≤ h) (hroom : q + c ≤ capacity) : ReflTransGen (Move capacity P)
    ⟨m, h, b, np, q, x, pol, as, sig, 0⟩ ⟨m, h - c, b, np + c, q + c, x, pol, as, sig, 0⟩ := by
  refine repeated (F := fun i => ⟨m, h - i, b, np + i, q + i, x, pol, as, sig, 0⟩) c fun i hi => ?_
  have hheld : 0 < h - i := by omega
  have hplace : q + i < capacity := by omega
  exact (Move.push hheld hplace).to (by ext <;> dsimp only <;> omega)

theorem pops (c : Nat) (hc : c ≤ pol) (hq : c ≤ q) : ReflTransGen (Move capacity P)
    ⟨m, h, b, np, q, x, pol, as, sig, 0⟩ ⟨m, h, b, np, q - c, x + c, pol - c, as, sig + c, 0⟩ := by
  refine repeated (F := fun i => ⟨m, h, b, np, q - i, x + i, pol - i, as, sig + i, 0⟩) c fun i hi => ?_
  have hpolling : 0 < pol - i := by omega
  have hqueued : 0 < q - i := by omega
  exact (Move.pop hpolling hqueued).to (by ext <;> dsimp only <;> omega)

theorem sleeps (c : Nat) (hc : c ≤ pol) : ReflTransGen (Move capacity P)
    ⟨m, h, b, np, 0, x, pol, as, sig, 0⟩ ⟨m, h, b, np, 0, x, pol - c, as + c, sig, 0⟩ := by
  refine repeated (F := fun i => ⟨m, h, b, np, 0, x, pol - i, as + i, sig, 0⟩) c fun i hi => ?_
  have hpolling : 0 < pol - i := by omega
  exact (Move.sleep hpolling rfl).to (by ext <;> dsimp only <;> omega)

/-- Each item wakes a producer. -/
theorem push_wakeProducers (r : Nat) (hr : r ≤ b) (hh : 0 < h ∨ r = 0) (hroom : q + r ≤ capacity) :
    ReflTransGen (Move capacity P) ⟨m, h, b, np, q, x, pol, as, sig, 0⟩
      ⟨m, h, b - r, np, q + r, x, pol, as, sig, 0⟩ := by
  refine repeated (F := fun i => ⟨m, h, b - i, np, q + i, x, pol, as, sig, 0⟩) r fun i hi => ?_
  have hheld : 0 < h := by omega
  have hplace : q + i < capacity := by omega
  have hwake : 0 < b - i := by omega
  exact .head (Move.push hheld hplace)
    ((Move.notifyProducer (Nat.succ_pos np) hwake).to (by ext <;> dsimp only <;> omega))

/-- Each item wakes a consumer, and its producer brings the next. -/
theorem push_wakeConsumers (c : Nat) (hh : 0 < h) (hm : c ≤ m) (hplace : h + b + np ≤ P) (hc : c ≤ as)
    (hroom : q + c ≤ capacity) : ReflTransGen (Move capacity P) ⟨m, h, b, np, q, x, pol, as, sig, 0⟩
      ⟨m - c, h, b, np, q + c, x, pol + c, as - c, sig, 0⟩ := by
  refine repeated (F := fun i => ⟨m - i, h, b, np, q + i, x, pol + i, as - i, sig, 0⟩) c fun i hi => ?_
  have hplace' : q + i < capacity := by omega
  have hwake : 0 < as - i := by omega
  have htodo : 0 < m - i := by omega
  refine .head (Move.push hh hplace') (.head (Move.notifyConsumer (Nat.succ_pos np) hwake) ?_)
  exact (Move.arrive htodo (by dsimp only; omega)).to (by ext <;> dsimp only <;> omega)

/-- At the full buffer a producer that wakes falls asleep again. -/
theorem absorbs (hfull : capacity ≤ q) (k : Nat) (hk : k ≤ np) : ReflTransGen (Move capacity P)
    ⟨m, 0, 1, np, q, x, pol, as, sig, 0⟩ ⟨m, 0, 1, np - k, q, x, pol, as, sig, 0⟩ := by
  refine repeated (F := fun i => ⟨m, 0, 1, np - i, q, x, pol, as, sig, 0⟩) k fun i hi => ?_
  have hnotifying : 0 < np - i := by omega
  refine .head (Move.notifyProducer hnotifying Nat.one_pos) ?_
  exact (Move.block Nat.one_pos hfull).to (by ext <;> dsimp only; omega)

/-- And so does the one that woke it, with its next item. -/
theorem absorbs_all (hfull : capacity ≤ q) (k : Nat) (hk : k ≤ np) (hm : k ≤ m) (hroom : b + np ≤ P) (hb : 0 < b) :
    ReflTransGen (Move capacity P) ⟨m, 0, b, np, q, x, pol, as, sig, 0⟩
      ⟨m - k, 0, b + k, np - k, q, x, pol, as, sig, 0⟩ := by
  refine repeated (F := fun i => ⟨m - i, 0, b + i, np - i, q, x, pol, as, sig, 0⟩) k fun i hi => ?_
  have hnotifying : 0 < np - i := by omega
  have hblocked : 0 < b + i := by omega
  have htodo : 0 < m - i := by omega
  refine .head (Move.notifyProducer hnotifying hblocked) (.head (Move.block Nat.one_pos hfull) ?_)
  refine .head (Move.arrive htodo (by dsimp only; omega)) ?_
  exact (Move.block Nat.one_pos hfull).to (by ext <;> dsimp only <;> omega)

/-- Each item taken wakes a consumer. -/
theorem pop_wakeConsumers (c : Nat) (hp : 0 < pol) (hc : c ≤ as) (hq : c ≤ q) : ReflTransGen (Move capacity P)
    ⟨m, h, b, np, q, x, pol, as, 0, 0⟩ ⟨m, h, b, np, q - c, x + c, pol + c, as - c, 0, 0⟩ := by
  refine repeated (F := fun i => ⟨m, h, b, np, q - i, x + i, pol + i, as - i, 0, 0⟩) c fun i hi => ?_
  have hpolling : 0 < pol + i := by omega
  have hqueued : 0 < q - i := by omega
  have hwake : 0 < as - i := by omega
  refine .head (Move.pop hpolling hqueued) ?_
  exact (Move.signalConsumer (Nat.succ_pos 0) hwake).to (by ext <;> dsimp only <;> omega)

/-- Each item taken wakes a producer. -/
theorem pop_wakeProducers (k : Nat) (hp : 0 < pol) (hk : k ≤ b) (hq : k ≤ q) : ReflTransGen (Move capacity P)
    ⟨m, h, b, np, q, x, pol, as, 0, 0⟩ ⟨m, h + k, b - k, np, q - k, x + k, pol, as, 0, 0⟩ := by
  refine repeated (F := fun i => ⟨m, h + i, b - i, np, q - i, x + i, pol, as, 0, 0⟩) k fun i hi => ?_
  have hqueued : 0 < q - i := by omega
  have hwake : 0 < b - i := by omega
  refine .head (Move.pop hp hqueued) ?_
  exact (Move.signalProducer (Nat.succ_pos 0) hwake).to (by ext <;> dsimp only <;> omega)

/-- At the empty buffer both consumers fall asleep, the one that wakes and the one that woke it. -/
theorem signals_absorbed (k : Nat) (hk : k ≤ sig) (has : 0 < as) : ReflTransGen (Move capacity P)
    ⟨m, h, b, np, 0, x, 0, as, sig, 0⟩ ⟨m, h, b, np, 0, x, 0, as + k, sig - k, 0⟩ := by
  refine repeated (F := fun i => ⟨m, h, b, np, 0, x, 0, as + i, sig - i, 0⟩) k fun i hi => ?_
  have hsignalling : 0 < sig - i := by omega
  have hwake : 0 < as + i := by omega
  refine .head (Move.signalConsumer hsignalling hwake) (.head (Move.sleep (Nat.succ_pos 1) rfl) ?_)
  exact (Move.sleep (Nat.succ_pos 0) rfl).to (by ext <;> dsimp only <;> omega)

/-- An item that goes through. -/
theorem serves (hP : 0 < P) (hcap : 0 < capacity) (hW : 0 < W) (e : Nat) (he : e ≤ n) :
    ReflTransGen (Move capacity P) ⟨n, 0, 0, 0, 0, 0, W, 0, 0, 0⟩ ⟨n - e, 0, 0, 0, 0, e, W, 0, 0, 0⟩ := by
  refine repeated (F := fun i => ⟨n - i, 0, 0, 0, 0, i, W, 0, 0, 0⟩) e fun i hi => ?_
  have htodo : 0 < n - i := by omega
  refine .head (Move.arrive htodo hP) (.head (Move.push Nat.one_pos hcap) ?_)
  refine .head (Move.notifyNone Nat.one_pos rfl rfl) (.head (Move.pop hW Nat.one_pos) ?_)
  exact (Move.signalNone (Nat.succ_pos 0) rfl rfl).to (by ext <;> dsimp only <;> omega)


/-- A schedule to a state of the same counts. -/
theorem reached {s t t' : Buffer} (h : ReflTransGen (Move capacity P) s t) (ht : t = t') :
    ReflTransGen (Move capacity P) s t' := ht ▸ h

/-- **A round**: `r` producers asleep at the empty buffer with every consumer become `r + 2 * δ`. -/
theorem round {r : Nat} (hδ : P + W = capacity + 1 + δ) (hpos : 0 < δ) (hW : 2 * W ≤ capacity + 1)
    (hh : 0 < h ∨ r = 0) (hplace : h + r ≤ P) (hr : r + P ≤ capacity)
    (hm : capacity + P ≤ m + h + r) :
    ∃ m' h', ReflTransGen (Move capacity P) ⟨m, h, r, 0, 0, x, 0, W, 0, 0⟩
        ⟨m', h', r + 2 * δ, 0, 0, x + capacity, 0, W, 0, 0⟩ ∧
      0 < h' ∧ h' + (r + 2 * δ) ≤ P ∧ m' + h' + (r + 2 * δ) + capacity = m + h + r := by
  -- the consumers the filling has to wake, and the producers the draining has to wake
  obtain ⟨c, hc⟩ : ∃ c, r + c + P = capacity + 1 := ⟨capacity + 1 - r - P, by omega⟩
  obtain ⟨k, hk⟩ : ∃ k, k + (W - c) + (W - 1) = capacity := ⟨capacity - (W - c) - (W - 1), by omega⟩
  have hfill : ReflTransGen (Move capacity P) ⟨m, h, r, 0, 0, x, 0, W, 0, 0⟩
      ⟨m - (P - h) - c, 1, 0, P - 1, capacity, x, c, W - c, 0, 0⟩ := by
    refine (push_wakeProducers r le_rfl hh (by omega)).trans ?_
    refine (arrives (P - h) (by omega) (by omega)).trans ?_
    refine (push_wakeConsumers c (by omega) (by omega) (by omega) (by omega) (by omega)).trans ?_
    exact reached (pushes (P - 1) (by omega) (by omega)) (by ext <;> dsimp only <;> omega)
  have hasleep : ReflTransGen (Move capacity P) ⟨m - (P - h) - c, 1, 0, P - 1, capacity, x, c, W - c, 0, 0⟩
      ⟨m - (P - h) - c - (P - 1), 0, P, 0, capacity, x, c, W - c, 0, 0⟩ := by
    refine .head (Move.block Nat.one_pos le_rfl) ?_
    exact reached (absorbs_all le_rfl (P - 1) le_rfl (by dsimp only; omega) (by dsimp only; omega) Nat.one_pos)
      (by ext <;> dsimp only <;> omega)
  have hdrain : ReflTransGen (Move capacity P) ⟨m - (P - h) - c - (P - 1), 0, P, 0, capacity, x, c, W - c, 0, 0⟩
      ⟨m - (P - h) - c - (P - 1), k, P - k, 0, 0, x + capacity, 1, 0, W - 1, 0⟩ := by
    refine (pop_wakeConsumers (W - c) (by omega) le_rfl (by omega)).trans ?_
    refine (pop_wakeProducers k (by omega) (by omega) (by omega)).trans ?_
    exact reached (pops (W - 1) (by omega) (by omega)) (by ext <;> dsimp only <;> omega)
  refine ⟨m - (P - h) - c - (P - 1), k, hfill.trans (hasleep.trans (hdrain.trans ?_)), by omega, by omega, by omega⟩
  refine (sleeps 1 le_rfl).trans ?_
  exact reached (signals_absorbed (W - 1) le_rfl Nat.one_pos) (by ext <;> dsimp only <;> omega)

/-- The last filling: it wakes no consumer, and one producer takes every wake-up. -/
theorem last {r : Nat} (hcap : 0 < capacity) (hh : 0 < h ∨ r = 0) (hr : r ≤ capacity)
    (hplace : capacity + 1 ≤ r + P) (hm : m + h + r = capacity + 1) :
    ∃ s, ReflTransGen (Move capacity P) ⟨m, h, r, 0, 0, x, 0, W, 0, 0⟩ s ∧ s.Stranded W ∧ s.todo = 0 := by
  refine ⟨⟨0, 0, 1, 0, capacity, x, 0, W, 0, 0⟩, ?_, ⟨hcap, rfl, rfl, rfl⟩, rfl⟩
  have hfill : ReflTransGen (Move capacity P) ⟨m, h, r, 0, 0, x, 0, W, 0, 0⟩
      ⟨0, 1, 0, capacity - r, capacity, x, 0, W, 0, 0⟩ := by
    refine (push_wakeProducers r le_rfl hh (by omega)).trans ?_
    refine (arrives m le_rfl (by omega)).trans ?_
    exact reached (pushes (capacity - r) (by omega) (by omega)) (by ext <;> dsimp only <;> omega)
  refine hfill.trans (.head (Move.block Nat.one_pos le_rfl) ?_)
  exact reached (absorbs le_rfl (capacity - r) le_rfl) (by ext <;> dsimp only; omega)

/-- **A schedule that strands the buffer**, with all items brought. -/
theorem exists_stranded {t : Nat} (hδ : P + W = capacity + 1 + δ) (hpos : 0 < δ) (hW : 0 < W)
    (htwice : 2 * W ≤ capacity + 1) (ht : W ≤ (2 * t + 1) * δ) (hn : (t + 1) * capacity < n) :
    ∃ s, ReflTransGen (Move capacity P) { todo := n, polling := W } s ∧ s.Stranded W ∧ s.todo = 0 := by
  classical
  -- the fewest rounds that do
  have hexists : ∃ t, W ≤ (2 * t + 1) * δ := ⟨t, ht⟩
  obtain ⟨t₀, hlast, hbefore, hle⟩ : ∃ t₀, W ≤ (2 * t₀ + 1) * δ ∧ (∀ s < t₀, (2 * s + 1) * δ < W) ∧ t₀ ≤ t :=
    ⟨Nat.find hexists, Nat.find_spec hexists, fun s hs => not_le.1 (Nat.find_min hexists hs), Nat.find_min' hexists ht⟩
  have hitems : (t₀ + 1) * capacity < n := (Nat.mul_le_mul_right capacity (Nat.succ_le_succ hle)).trans_lt hn
  obtain ⟨e, he⟩ : ∃ e, n = e + (t₀ + 1) * capacity + 1 := ⟨n - (t₀ + 1) * capacity - 1, by omega⟩
  have hstart : ReflTransGen (Move capacity P) { todo := n, polling := W }
      ⟨(t₀ + 1) * capacity + 1, 0, 0, 0, 0, e, 0, W, 0, 0⟩ := by
    refine (serves (by omega) (by omega) hW e (by omega)).trans ?_
    exact reached (sleeps W le_rfl) (by ext <;> dsimp only <;> omega)
  have hrounds : ∀ s ≤ t₀, ∃ m h, ReflTransGen (Move capacity P) { todo := n, polling := W }
      ⟨m, h, 2 * s * δ, 0, 0, e + s * capacity, 0, W, 0, 0⟩ ∧ (0 < h ∨ 2 * s * δ = 0) ∧ h + 2 * s * δ ≤ P ∧
      m + h + 2 * s * δ = (t₀ - s + 1) * capacity + 1 := by
    intro s hs
    induction s with
    | zero => exact ⟨(t₀ + 1) * capacity + 1, 0, reached hstart (by ext <;> simp), .inr (by simp), by simp, by simp⟩
    | succ s ih =>
      obtain ⟨m, h, hrun, hh, hplace, hsum⟩ := ih (by omega)
      have hshort := hbefore s (by omega)
      have hexcess : (2 * s + 1) * δ = 2 * s * δ + δ := by ring
      have hnext : 2 * (s + 1) * δ = 2 * s * δ + 2 * δ := by ring
      have hleft : (t₀ - s + 1) * capacity = (t₀ - (s + 1) + 1) * capacity + capacity := by
        rw [← Nat.succ_mul]
        congr 1
        omega
      have hone : capacity ≤ (t₀ - (s + 1) + 1) * capacity := Nat.le_mul_of_pos_left _ (by omega)
      obtain ⟨m', h', hround, hh', hplace', hsum'⟩ :=
        round (m := m) (x := e + s * capacity) hδ hpos htwice hh hplace (by omega) (by omega)
      refine ⟨m', h', hrun.trans (reached hround ?_), .inl hh', by omega, by omega⟩
      ext <;> dsimp only
      · exact hnext.symm
      · ring
  obtain ⟨m, h, hrun, hh, hplace, hsum⟩ := hrounds t₀ le_rfl
  rw [Nat.sub_self, zero_add, one_mul] at hsum
  have hexcess : (2 * t₀ + 1) * δ = 2 * t₀ * δ + δ := by ring
  have hroom : 2 * t₀ * δ ≤ capacity := by
    rcases Nat.eq_zero_or_pos t₀ with hzero | hsome
    · simp [hzero]
    · have hfirst := hbefore 0 hsome
      omega
  obtain ⟨s, hfinal, hstranded⟩ :=
    last (m := m) (h := h) (P := P) (x := e + t₀ * capacity) (by omega) hh hroom (by omega) hsum
  exact ⟨s, hrun.trans hfinal, hstranded⟩

end Lib.OneCondition
