import MitoSync.DiffUpload
import MitoSync.DownloadSpec
/-!
# PatchSpec — the differential download in place

While several workers write chunks of the object over the local file, the file is a blend (`Blend`): no shorter than it
was, no longer than the longer side, its unchanged chunks intact.  `PatchInv` adds what is known of the workers: every
chunk taken is written, or held by a worker, or the download has failed or been cancelled.  When the last worker ends
without either, every chunk is the object's (`patchLoop_spec`), and truncating makes the file the object
(`diffDownloadFile_spec`).
-/
namespace Mito

open Lib Prog

/-- The first `m` bytes of chunk `i` of the target stand in `b`. -/
def Filled (t b : Bytes) (i m : Nat) : Prop :=
  ∀ p, i * defaultChunkSize ≤ p → p < i * defaultChunkSize + m → AgreesAt t b p

theorem Filled.pwrite {t b w : Bytes} {off i m : Nat} (hw : w = slice t off w.length) (h : Filled t b i m) :
    Filled t (pwrite 0 b off w) i m :=
  fun p h₁ h₂ => agreesAt_pwrite hw (h p h₁ h₂)

theorem Filled.extend {t b w : Bytes} {i m : Nat} (hw : w = slice t (i * defaultChunkSize + m) w.length)
    (hlen : i * defaultChunkSize + m + w.length ≤ t.length) (h : Filled t b i m) :
    Filled t (Lib.pwrite 0 b (i * defaultChunkSize + m) w) i (m + w.length) := by
  intro p h₁ h₂
  by_cases hp : p < i * defaultChunkSize + m
  · exact agreesAt_pwrite hw (h p h₁ hp)
  · exact agreesAt_pwrite_inside hw hlen (by omega) (by omega)

/-- **Filled chunks make the target**: every position is in one. -/
theorem agreesAt_of_filled {t b : Bytes}
    (h : ∀ i, i < numChunks defaultChunkSize t.length → Filled t b i (chunkLen defaultChunkSize t.length i))
    {p : Nat} (hp : p < t.length) : AgreesAt t b p := by
  obtain ⟨hn, h₁, h₂⟩ := pos_in_chunk defaultChunkSize_pos hp
  exact h _ hn p h₁ h₂

/-! ## The invariant -/

/-- The old content, zeros after it: what a write beyond its end leaves before itself. -/
def padded (b : Bytes) (p : Nat) : UInt8 := b.getD p 0

/-- The file while it is patched, having been `o₀`, by one worker where `solo`. -/
structure Env.Blend (E : Env) (solo : Prop) (o₀ : Stored) (todo : List Nat) (o : Stored) : Prop where
  least : o₀.bytes.length ≤ o.bytes.length
  most : o.bytes.length ≤ max o₀.bytes.length E.source.length
  kept : ∀ i, i < numChunks defaultChunkSize E.source.length → i ∉ todo →
    Filled E.source o.bytes i (chunkLen defaultChunkSize E.source.length i)
  mixed : ∀ p, p < o.bytes.length → o.bytes[p]? = some (padded o₀.bytes p) ∨ AgreesAt E.source o.bytes p
  /-- the last chunk is written from its start, so where the file has grown into it, it holds the object's bytes -/
  tail : ∀ i, i + 1 = numChunks defaultChunkSize E.source.length → o₀.bytes.length < o.bytes.length →
    ∀ p, i * defaultChunkSize ≤ p → p < o.bytes.length → AgreesAt E.source o.bytes p
  /-- one worker writes from the front to the back, so where the file has grown all of it is the object's -/
  serial : solo → o₀.bytes.length < o.bytes.length → ∀ p, p < o.bytes.length → AgreesAt E.source o.bytes p
  time : o = o₀ ∨ E.stamp o.mtime ∨ o.mtime = 0

/-- The chunks before `i` are written. -/
def Env.Front (E : Env) (todo : List Nat) (o : Stored) (i : Nat) : Prop :=
  ∀ j ∈ todo, j < i → Filled E.source o.bytes j (chunkLen defaultChunkSize E.source.length j)

/-- What a worker's place says of the file. -/
def Env.WorkerOk (E : Env) (solo : Prop) (todo : List Nat) (wroteAny : Bool) (o : Stored) : Worker → Prop
  | .top => True
  | .attempt i left => i ∈ todo ∧ (solo → E.Front todo o i) ∧ (left = 0 → E.faulty)
  | .fetch i _ => i ∈ todo ∧ (solo → E.Front todo o i)
  | .write i _ rest => i ∈ todo ∧ (solo → E.Front todo o i) ∧ ∃ m,
      m + rest.length = chunkLen defaultChunkSize E.source.length i ∧
      rest = slice E.source (i * defaultChunkSize + m) rest.length ∧ Filled E.source o.bytes i m ∧
      (0 < m → wroteAny = true)
  | .giveUp i => i ∈ todo ∧ E.faulty

def Worker.chunk? : Worker → Option Nat
  | .top => none
  | .attempt i _ | .fetch i _ | .write i _ _ | .giveUp i => some i

/-- The invariant of the patch over the live workers `L`. -/
structure Env.PatchInv (E : Env) (solo : Prop) (o₀ : Stored) (todo : List Nat) (L : Worker → Prop) (p : Patch) (o : Stored)
    (s : Slot) : Prop where
  entry : s.entry = some o
  calm : E.Calm s
  blend : E.Blend solo o₀ todo o
  fresh : p.wroteAny = false → o = o₀
  stamped : p.wroteAny = true → E.stamp o.mtime
  failed : p.downloadFailed = true → E.faulty
  workers : ∀ w, L w → E.WorkerOk solo todo p.wroteAny o w
  claimed : ∀ j i, todo[j]? = some i → j < p.nextChunkIdx →
    (Filled E.source o.bytes i (chunkLen defaultChunkSize E.source.length i) ∧ p.wroteAny = true) ∨
      (∃ w, L w ∧ w.chunk? = some i) ∨ p.downloadFailed = true ∨ s.seen = true
  ended : (∃ w, L w) ∨ todo.length ≤ p.nextChunkIdx ∨ p.downloadFailed = true ∨ s.seen = true

variable {E : Env} {solo : Prop} {I H : Slot → Prop} {o₀ o : Stored} {todo : List Nat} {L O : Worker → Prop} {p : Patch}

/-- The live workers once the one that moved stands at `w`, or has ended. -/
def withWorker (O : Worker → Prop) (w : Option Worker) (v : Worker) : Prop := O v ∨ w = some v

theorem Env.PatchInv.congr {s : Slot} (h : E.PatchInv solo o₀ todo L p o s) (L' : Worker → Prop) (hL : ∀ w, L w ↔ L' w) :
    E.PatchInv solo o₀ todo L' p o s := by
  have : L = L' := funext fun w => propext (hL w)
  rwa [← this]

/-- The list of workers is not part of what the invariant says of the shared variables. -/
theorem Env.PatchInv.ofWorkers {s : Slot} (h : E.PatchInv solo o₀ todo L p o s) (ws : List Worker) :
    E.PatchInv solo o₀ todo L { p with workers := ws } o s :=
  ⟨h.entry, h.calm, h.blend, h.fresh, h.stamped, h.failed, h.workers, h.claimed, h.ended⟩

theorem Env.PatchInv.see {s : Slot} (h : E.PatchInv solo o₀ todo L p o s) {r : Bool} (hr : r = true → E.faulty)
    (hm : s.seen = true → r = true) : E.PatchInv solo o₀ todo L p o { s with seen := r } :=
  ⟨h.entry, hr, h.blend, h.fresh, h.stamped, h.failed, h.workers,
    fun j i hj hn => (h.claimed j i hj hn).imp_right (Or.imp_right (Or.imp_right hm)),
    h.ended.imp_right (Or.imp_right (Or.imp_right hm))⟩

/-- **A worker moves within its chunk**: the invariant asks only that its new place be right. -/
theorem Env.PatchInv.move {s : Slot} {w : Worker} (h : E.PatchInv solo o₀ todo (withWorker O (some w)) p o s)
    (w' : Worker) (hw : E.WorkerOk solo todo p.wroteAny o w') (hc : w'.chunk? = w.chunk?) :
    E.PatchInv solo o₀ todo (withWorker O (some w')) p o s := by
  refine ⟨h.entry, h.calm, h.blend, h.fresh, h.stamped, h.failed, ?_, fun j i hj hn => ?_, .inl ⟨w', .inr rfl⟩⟩
  · rintro v (hv | hv)
    · exact h.workers v (.inl hv)
    · cases hv
      exact hw
  · refine (h.claimed j i hj hn).imp_right (Or.imp_left ?_)
    rintro ⟨v, hv | hv, hi⟩
    · exact ⟨v, .inl hv, hi⟩
    · cases hv
      exact ⟨w', .inr rfl, hc.trans hi⟩

/-- **A worker leaves its chunk**, done with it or where the download has failed or been cancelled. -/
theorem Env.PatchInv.leave {s : Slot} {w : Worker} {f : Bool}
    (h : E.PatchInv solo o₀ todo (withWorker O (some w)) p o s) (w' : Option Worker) (hw : ∀ v, w' = some v → v = .top)
    (hf : f = true → E.faulty) (hfm : p.downloadFailed = true → f = true)
    (hleft : ∀ i, w.chunk? = some i →
      (Filled E.source o.bytes i (chunkLen defaultChunkSize E.source.length i) ∧ p.wroteAny = true) ∨
        f = true ∨ s.seen = true)
    (hend : w' = none → f = true ∨ s.seen = true) :
    E.PatchInv solo o₀ todo (withWorker O w') { p with downloadFailed := f } o s := by
  refine ⟨h.entry, h.calm, h.blend, h.fresh, h.stamped, hf, ?_, fun j i hj hn => ?_, ?_⟩
  · rintro v (hv | hv)
    · exact h.workers v (.inl hv)
    · rw [hw v hv]
      trivial
  · rcases h.claimed j i hj hn with hd | ⟨v, hv | hv, hi⟩ | hF | hs
    · exact .inl hd
    · exact .inr (.inl ⟨v, .inl hv, hi⟩)
    · cases hv
      exact (hleft i hi).imp_right .inr
    · exact .inr (.inr (.inl (hfm hF)))
    · exact .inr (.inr (.inr hs))
  · cases w' with
    | some v => exact .inl ⟨v, .inr rfl⟩
    | none => exact .inr (.inr (hend rfl))

/-- **A worker takes the next chunk**, or finds that there is none. -/
theorem Env.PatchInv.take {s : Slot} (h : E.PatchInv solo o₀ todo (withWorker O (some .top)) p o s)
    (hsorted : todo.Pairwise (· < ·)) (hsolo : solo → ∀ v, ¬ O v) (hfail : p.downloadFailed = false)
    (hseen : s.seen = false) :
    E.PatchInv solo o₀ todo (withWorker O (todo[p.nextChunkIdx]?.map (Worker.attempt · (maxRetries + 1))))
      { p with nextChunkIdx := p.nextChunkIdx + 1 } o s := by
  have hothers : ∀ j i, todo[j]? = some i → j < p.nextChunkIdx → ∀ w' : Option Worker,
      (Filled E.source o.bytes i (chunkLen defaultChunkSize E.source.length i) ∧ p.wroteAny = true) ∨
        (∃ w, withWorker O w' w ∧ w.chunk? = some i) ∨ p.downloadFailed = true ∨ s.seen = true := by
    intro j i hj hn w'
    refine (h.claimed j i hj hn).imp_right (Or.imp_left ?_)
    rintro ⟨v, hv | hv, hi⟩
    · exact ⟨v, .inl hv, hi⟩
    · cases hv
      simp [Worker.chunk?] at hi
  cases hnext : todo[p.nextChunkIdx]? with
  | none =>
    refine ⟨h.entry, h.calm, h.blend, h.fresh, h.stamped, h.failed, ?_, fun j i hj hn => ?_, .inr (.inl ?_)⟩
    · rintro v (hv | hv)
      · exact h.workers v (.inl hv)
      · cases hv
    · have hlt := (List.getElem?_eq_some_iff.1 hj).1
      have := List.getElem?_eq_none_iff.1 hnext
      exact hothers j i hj (by omega) _
    · have := List.getElem?_eq_none_iff.1 hnext
      show todo.length ≤ p.nextChunkIdx + 1
      omega
  | some i₀ =>
    refine ⟨h.entry, h.calm, h.blend, h.fresh, h.stamped, h.failed, ?_, fun j i hj hn => ?_, .inl ⟨_, .inr rfl⟩⟩
    · rintro v (hv | hv)
      · exact h.workers v (.inl hv)
      · cases hv
        refine ⟨List.mem_of_getElem? hnext, fun hs j hj hlt => ?_, by simp⟩
        -- alone, the worker has left every chunk before this one, and written it
        obtain ⟨k, hk⟩ := List.mem_iff_getElem?.1 hj
        obtain ⟨hkl, rfl⟩ := List.getElem?_eq_some_iff.1 hk
        obtain ⟨hnl, rfl⟩ := List.getElem?_eq_some_iff.1 hnext
        have hkn : k < p.nextChunkIdx := by
          by_contra hge
          have := List.pairwise_iff_getElem.1 hsorted
          rcases Nat.lt_or_eq_of_le (Nat.not_lt.1 hge) with hgt | heq
          · have := this _ _ hnl hkl hgt
            omega
          · subst heq
            exact Nat.lt_irrefl _ hlt
        rcases h.claimed k _ hk hkn with hd | ⟨v, hv | hv, hi⟩ | hF | hs'
        · exact hd.1
        · exact absurd hv (hsolo hs v)
        · cases hv
          simp [Worker.chunk?] at hi
        · rw [hfail] at hF
          cases hF
        · rw [hseen] at hs'
          cases hs'
    · by_cases hjn : j = p.nextChunkIdx
      · subst hjn
        rw [hnext] at hj
        cases hj
        exact .inr (.inl ⟨_, .inr rfl, rfl⟩)
      · have : j < p.nextChunkIdx + 1 := hn
        exact hothers j i hj (by omega) _

theorem Env.WorkerOk.mono {wroteAny : Bool} {o' : Stored} {w : Worker}
    (h : E.WorkerOk solo todo wroteAny o w) (hf : ∀ i m, Filled E.source o.bytes i m → Filled E.source o'.bytes i m) :
    E.WorkerOk solo todo true o' w := by
  cases w with
  | top => trivial
  | attempt i left => exact ⟨h.1, fun hs j hj hlt => hf _ _ (h.2.1 hs j hj hlt), h.2.2⟩
  | fetch i left => exact ⟨h.1, fun hs j hj hlt => hf _ _ (h.2 hs j hj hlt)⟩
  | giveUp i => exact h
  | write i left rest =>
    obtain ⟨hi, hfront, m, hm, hr, hfill, -⟩ := h
    exact ⟨hi, fun hs j hj hlt => hf _ _ (hfront hs j hj hlt), m, hm, hr, hf i m hfill, fun _ => rfl⟩

/-- **A chunk write of the object's own bytes keeps the invariant.** -/
theorem Env.PatchInv.write {s s' : Slot} {i left n : Nat} {rest : Bytes}
    (htodo : ∀ i ∈ todo, i < numChunks defaultChunkSize E.source.length)
    (h : E.PatchInv solo o₀ todo (withWorker O (some (.write i left rest))) p o s) (hn : n ≤ rest.length)
    (hs : E.writes s (Lib.pwrite 0 o.bytes
      (i * defaultChunkSize + (chunkLen defaultChunkSize E.source.length i - rest.length)) (rest.take n)) s') :
    ∃ o', E.PatchInv solo o₀ todo (withWorker O (some (.write i left (rest.drop n)))) { p with wroteAny := true } o' s' := by
  obtain ⟨hi, hfront, m, hm, hrest, hfill, -⟩ := h.workers _ (.inr rfl)
  obtain ⟨t, ht, rfl⟩ := hs
  have hil : i * defaultChunkSize < E.source.length := (lt_numChunks defaultChunkSize_pos).1 (htodo i hi)
  have hend := chunk_end hil
  have hoff : chunkLen defaultChunkSize E.source.length i - rest.length = m := by omega
  have hwlen : (rest.take n).length = n := by rw [List.length_take]; omega
  have hw : rest.take n = slice E.source (i * defaultChunkSize + m) (rest.take n).length := by
    rw [hwlen]
    conv => lhs; rw [hrest]
    unfold slice
    rw [List.take_take, Nat.min_eq_left hn]
  have hwl : i * defaultChunkSize + m + (rest.take n).length ≤ E.source.length := by omega
  rw [hoff]
  have hkeep : ∀ j q, Filled E.source o.bytes j q →
      Filled E.source (Lib.pwrite 0 o.bytes (i * defaultChunkSize + m) (rest.take n)) j q :=
    fun j q hj => hj.pwrite hw
  have hlen := length_pwrite 0 o.bytes (i * defaultChunkSize + m) (rest.take n)
  -- beyond the old end there is nothing but this write, or what had grown before
  have hgrown : ∀ q, q < (Lib.pwrite 0 o.bytes (i * defaultChunkSize + m) (rest.take n)).length →
      i * defaultChunkSize + m + (rest.take n).length ≤ q → q < o.bytes.length := by
    intro q hq hge
    omega
  refine ⟨⟨Lib.pwrite 0 o.bytes (i * defaultChunkSize + m) (rest.take n), t⟩, rfl, h.calm,
    ⟨?_, ?_, ?_, ?_, ?_, ?_, ?_⟩, by simp, fun _ => ht, h.failed, ?_, fun j i' hj hn => ?_, .inl ⟨_, .inr rfl⟩⟩
  · have := h.blend.least
    simp only [hlen]
    omega
  · have := h.blend.most
    simp only [hlen]
    omega
  · exact fun j hj hjt => hkeep j _ (h.blend.kept j hj hjt)
  · intro q hq
    by_cases hin : i * defaultChunkSize + m ≤ q ∧ q < i * defaultChunkSize + m + (rest.take n).length
    · exact .inr (agreesAt_pwrite_inside hw hwl hin.1 hin.2)
    · by_cases hqo : q < o.bytes.length
      · rcases h.blend.mixed q hqo with hold | hnew
        · apply Or.inl
          rw [getElem?_pwrite_outside hqo (by omega)]
          exact hold
        · exact .inr (agreesAt_pwrite hw hnew)
      · apply Or.inl
        have hgap : q < i * defaultChunkSize + m := by
          have := hgrown q hq
          omega
        rw [getElem?_pwrite_gap (by omega) hgap, padded, List.getD_eq_getElem?_getD,
          List.getElem?_eq_none (by have := h.blend.least; omega), Option.getD_none]
  · intro j hj hgrow q hq₁ hq₂
    simp only [hlen] at hgrow
    have hij : i < j + 1 := by rw [hj]; exact htodo i hi
    by_cases hin : i * defaultChunkSize + m ≤ q ∧ q < i * defaultChunkSize + m + (rest.take n).length
    · exact agreesAt_pwrite_inside hw hwl hin.1 hin.2
    · by_cases hqm : q < i * defaultChunkSize + m
      · have hje : j = i := by
          by_contra hne
          have hle : (i + 1) * defaultChunkSize ≤ j * defaultChunkSize := Nat.mul_le_mul_right _ (by omega)
          rw [Nat.succ_mul] at hle
          omega
        exact agreesAt_pwrite hw (hfill q (hje ▸ hq₁) hqm)
      · have hqo : q < o.bytes.length := hgrown q hq₂ (by omega)
        exact agreesAt_pwrite hw (h.blend.tail j hj (by omega) q hq₁ hqo)
  · intro hs hgrow q hq
    simp only [hlen] at hgrow
    by_cases hin : i * defaultChunkSize + m ≤ q ∧ q < i * defaultChunkSize + m + (rest.take n).length
    · exact agreesAt_pwrite_inside hw hwl hin.1 hin.2
    · by_cases hqi : q < i * defaultChunkSize
      · -- a chunk before this one: never to be written, or written already
        have hdiv : q / defaultChunkSize < i := (Nat.div_lt_iff_lt_mul defaultChunkSize_pos).2 hqi
        obtain ⟨hqn, hq₁, hq₂⟩ := pos_in_chunk defaultChunkSize_pos (n := E.source.length) (q := q) (by omega)
        refine agreesAt_pwrite hw ?_
        by_cases hmem : q / defaultChunkSize ∈ todo
        · exact hfront hs _ hmem hdiv q hq₁ hq₂
        · exact h.blend.kept _ hqn hmem q hq₁ hq₂
      · by_cases hqm : q < i * defaultChunkSize + m
        · exact agreesAt_pwrite hw (hfill q (by omega) hqm)
        · have hqo : q < o.bytes.length := hgrown q hq (by omega)
          exact agreesAt_pwrite hw (h.blend.serial hs (by omega) q hqo)
  · exact .inr (.inl ht)
  · rintro v (hv | hv)
    · exact (h.workers v (.inl hv)).mono hkeep
    · cases hv
      refine ⟨hi, fun hs j hj hlt => hkeep _ _ (hfront hs j hj hlt), m + n, ?_, ?_, ?_, fun _ => rfl⟩
      · rw [List.length_drop]
        omega
      · conv => lhs; rw [hrest]
        unfold slice
        rw [List.drop_take, List.drop_drop, List.length_drop, Nat.add_assoc]
      · have := hfill.extend hw hwl
        rwa [hwlen] at this
  · rcases h.claimed j i' hj hn with hd | ⟨v, hv | hv, hi'⟩ | hF | hs
    · exact .inl ⟨hkeep _ _ hd.1, rfl⟩
    · exact .inr (.inl ⟨v, .inl hv, hi'⟩)
    · cases hv
      exact .inr (.inl ⟨_, .inr rfl, hi'⟩)
    · exact .inr (.inr (.inl hF))
    · exact .inr (.inr (.inr hs))

/-! ## One step of a worker -/

/-- What a worker has still to do, in steps that cannot fail. -/
def Worker.load (s3Size : Nat) : Worker → Nat
  | .top => 1
  | .attempt i _ => chunkLen defaultChunkSize s3Size i + 5
  | .fetch i _ => chunkLen defaultChunkSize s3Size i + 4
  | .write _ _ rest => rest.length + 2
  | .giveUp _ => 2

def optLoad (s3Size : Nat) (w : Option Worker) : Nat := (w.map (Worker.load s3Size)).getD 0

/-- The chunks no worker has taken yet. -/
def unclaimedLoad (s3Size : Nat) (todo : List Nat) (next : Nat) : Nat :=
  ((todo.drop next).map (fun i => chunkLen defaultChunkSize s3Size i + 5)).sum

theorem unclaimedLoad_some {s3Size next i : Nat} (h : todo[next]? = some i) :
    unclaimedLoad s3Size todo next =
      chunkLen defaultChunkSize s3Size i + 5 + unclaimedLoad s3Size todo (next + 1) := by
  obtain ⟨hlt, rfl⟩ := List.getElem?_eq_some_iff.1 h
  unfold unclaimedLoad
  rw [List.drop_eq_getElem_cons hlt, List.map_cons, List.sum_cons]

theorem unclaimedLoad_none {s3Size next : Nat} (h : todo[next]? = none) :
    unclaimedLoad s3Size todo (next + 1) = 0 := by
  unfold unclaimedLoad
  rw [List.drop_eq_nil_of_le (by have := List.getElem?_eq_none_iff.1 h; omega)]
  rfl

/-- After a step the invariant holds over the worker's new place, and without faults there is less to do. -/
def Env.Stepped (E : Env) (solo : Prop) (o₀ : Stored) (todo : List Nat) (O : Worker → Prop) (w : Worker) (p : Patch)
    (r : Option Worker × Patch) (s : Slot) : Prop :=
  (∃ o, E.PatchInv solo o₀ todo (withWorker O r.1) r.2 o s) ∧
    (E.faulty ∨ optLoad E.source.length r.1 + unclaimedLoad E.source.length todo r.2.nextChunkIdx <
      w.load E.source.length + unclaimedLoad E.source.length todo p.nextChunkIdx)

theorem workerStep_spec (hI : ∀ o s, s.entry = some o → E.Blend solo o₀ todo o → I s)
    (htodo : ∀ i ∈ todo, i < numChunks defaultChunkSize E.source.length) (hsorted : todo.Pairwise (· < ·))
    (hsolo : solo → ∀ v, ¬ O v) (w : Worker) {s : Slot}
    (h : E.PatchInv solo o₀ todo (withWorker O (some w)) p o s) :
    wp (exec E) I H (workerStep todo E.source.length w p) (E.Stepped solo o₀ todo O w p) s := by
  have hIs : ∀ {o s L p}, E.PatchInv solo o₀ todo L p o s → I s := fun h => hI _ _ h.entry h.blend
  have hok := h.workers w (.inr rfl)
  match w with
  | .top =>
    rw [workerStep, wp_bind, wp_req]
    refine ⟨hIs h, fun r s' hr => ?_⟩
    have hseen := hr.1
    obtain ⟨rfl, hrF⟩ := cancelled_cases h.calm hr
    have h' := h.see hrF hseen
    cases r with
    | true =>
      exact ⟨⟨o, h'.leave none (by simp) h.failed id (by simp [Worker.chunk?]) (fun _ => .inr rfl)⟩, .inl (hrF rfl)⟩
    | false =>
      simp only [Bool.false_eq_true, if_false]
      by_cases hfail : p.downloadFailed = true
      · rw [if_pos hfail]
        exact ⟨⟨o, h'.leave none (by simp) h.failed id (by simp [Worker.chunk?]) (fun _ => .inl hfail)⟩,
          .inl (h.failed hfail)⟩
      · rw [if_neg hfail]
        have ht := h'.take hsorted hsolo (by simpa using hfail) rfl
        cases hnext : todo[p.nextChunkIdx]? with
        | none =>
          rw [hnext] at ht
          refine ⟨⟨o, ht⟩, .inr ?_⟩
          show 0 + unclaimedLoad _ _ (p.nextChunkIdx + 1) < _
          rw [unclaimedLoad_none hnext]
          simp only [Worker.load]
          omega
        | some i =>
          rw [hnext] at ht
          refine ⟨⟨o, ht⟩, .inr ?_⟩
          show chunkLen defaultChunkSize E.source.length i + 5 + unclaimedLoad _ _ (p.nextChunkIdx + 1) < _
          rw [unclaimedLoad_some hnext]
          simp only [Worker.load]
          omega
  | .attempt i 0 =>
    refine ⟨⟨o, h.move (.giveUp i) ⟨hok.1, hok.2.2 rfl⟩ rfl⟩, .inl (hok.2.2 rfl)⟩
  | .attempt i (left + 1) =>
    rw [workerStep, wp_bind, wp_req]
    refine ⟨hIs h, fun r s' hr => ?_⟩
    have hseen := hr.1
    obtain ⟨rfl, hrF⟩ := cancelled_cases h.calm hr
    have h' := h.see hrF hseen
    cases r with
    | true => exact ⟨⟨o, h'.move (.giveUp i) ⟨hok.1, hrF rfl⟩ rfl⟩, .inl (hrF rfl)⟩
    | false =>
      simp only [Bool.false_eq_true, if_false]
      by_cases hfail : p.downloadFailed = true
      · rw [if_pos hfail]
        exact ⟨⟨o, h'.move (.giveUp i) ⟨hok.1, h.failed hfail⟩ rfl⟩, .inl (h.failed hfail)⟩
      · rw [if_neg hfail]
        refine ⟨⟨o, h'.move (.fetch i left) ⟨hok.1, hok.2.1⟩ rfl⟩, .inr ?_⟩
        simp only [optLoad, Option.map_some, Option.getD_some, Worker.load]
        omega
  | .fetch i left =>
    have hil : i * defaultChunkSize < E.source.length := (lt_numChunks defaultChunkSize_pos).1 (htodo i hok.1)
    have hrange : (if i * defaultChunkSize + chunkLen defaultChunkSize E.source.length i ≤ E.source.length then
        some (slice E.source (i * defaultChunkSize) (chunkLen defaultChunkSize E.source.length i)) else none) =
        some (chunk defaultChunkSize E.source i) := by
      rw [if_pos (by rw [chunk_end hil]; omega)]
      rfl
    rw [workerStep, wp_bind, wp_req]
    refine ⟨hIs h, fun r s' hr => ?_⟩
    cases r with
    | threw =>
      obtain ⟨hf, rfl⟩ := hr
      exact ⟨⟨o, h.leave none (by simp) (fun _ => hf) (fun _ => rfl) (fun _ _ => .inr (.inl rfl)) (fun _ => .inl rfl)⟩,
        .inl hf⟩
    | failed =>
      obtain ⟨hf, rfl⟩ := hr
      rw [hrange] at hf
      have hf := hf.resolve_right (by simp)
      exact ⟨⟨o, h.move (.attempt i left) ⟨hok.1, hok.2, fun _ => hf⟩ rfl⟩, .inl hf⟩
    | ok data =>
      obtain ⟨hd, rfl⟩ := hr
      rw [hrange] at hd
      cases hd
      simp only [length_chunk hil, if_true]
      refine ⟨⟨o, h.move (.write i left (chunk defaultChunkSize E.source i))
        ⟨hok.1, hok.2, 0, ?_, ?_, ?_, by simp⟩ rfl⟩,
        .inr ?_⟩
      · rw [length_chunk hil, Nat.zero_add]
      · rw [length_chunk hil, Nat.add_zero]
        rfl
      · intro q h₁ h₂
        omega
      · simp only [optLoad, Option.map_some, Option.getD_some, Worker.load, length_chunk hil]
        omega
  | .write i left [] =>
    obtain ⟨hi, -, m, hm, -, hfill, hw⟩ := hok
    have hil : i * defaultChunkSize < E.source.length := (lt_numChunks defaultChunkSize_pos).1 (htodo i hi)
    have hpos := chunkLen_pos defaultChunkSize_pos hil
    simp only [List.length_nil, Nat.add_zero] at hm
    refine ⟨⟨o, h.leave (some .top) (by simp) h.failed id (fun j hj => ?_) (by simp)⟩, .inr ?_⟩
    · cases hj
      exact .inl ⟨by rwa [← hm], hw (by omega)⟩
    · simp only [optLoad, Option.map_some, Option.getD_some, Worker.load, List.length_nil]
      omega
  | .write i left (b :: rest) =>
    rw [workerStep]
    simp only [wp_bind, wp_req]
    refine ⟨hIs h, fun r s' hr => ?_⟩
    cases r with
    | eintr =>
      obtain ⟨hf, rfl⟩ := hr
      exact ⟨⟨o, h⟩, .inl hf⟩
    | failed =>
      obtain ⟨hf, rfl⟩ := hr
      have hf := hf.resolve_right (fun hn => hn (by rw [h.entry]; simp))
      exact ⟨⟨o, h.move (.attempt i left) ⟨hok.1, hok.2.1, fun _ => hf⟩ rfl⟩, .inl hf⟩
    | wrote n =>
      obtain ⟨-, hn, h0, hpos⟩ := hr
      by_cases hn0 : n = 0
      · simp only [hn0, if_true]
        obtain ⟨hf, rfl⟩ := h0 hn0
        have hf := hf.resolve_right (by simp)
        exact ⟨⟨o, h.move (.attempt i left) ⟨hok.1, hok.2.1, fun _ => hf⟩ rfl⟩, .inl hf⟩
      · simp only [hn0, if_false]
        obtain ⟨o', ho', hw⟩ := hpos (Nat.pos_of_ne_zero hn0)
        rw [h.entry] at ho'
        cases ho'
        refine ⟨h.write htodo hn hw, .inr ?_⟩
        simp only [optLoad, Option.map_some, Option.getD_some, Worker.load, List.length_drop]
        omega
  | .giveUp i =>
    rw [workerStep, wp_bind, wp_req]
    refine ⟨hIs h, fun r s' hr => ?_⟩
    have hseen := hr.1
    obtain ⟨rfl, hrF⟩ := cancelled_cases h.calm hr
    have h' := h.see hrF hseen
    cases r with
    | true =>
      exact ⟨⟨o, h'.leave (some .top) (by simp) h.failed id (fun _ _ => .inr (.inr rfl)) (by simp)⟩,
        .inl hok.2⟩
    | false =>
      exact ⟨⟨o, h'.leave (some .top) (by simp) (fun _ => hok.2) (fun _ => rfl) (fun _ _ => .inr (.inl rfl))
        (by simp)⟩, .inl hok.2⟩

/-! ## All of them -/

/-- Everything still to do. -/
def Patch.load (s3Size : Nat) (todo : List Nat) (p : Patch) : Nat :=
  (p.workers.map (Worker.load s3Size)).sum + unclaimedLoad s3Size todo p.nextChunkIdx

theorem sum_load {ws : List Worker} {j : Nat} (hlt : j < ws.length) (s3Size : Nat) :
    (ws.map (Worker.load s3Size)).sum = ws[j].load s3Size + ((ws.eraseIdx j).map (Worker.load s3Size)).sum := by
  rw [← ((List.getElem_cons_eraseIdx_perm hlt).map _).sum_nat, List.map_cons, List.sum_cons]

theorem sum_load_set {ws : List Worker} {j : Nat} (hlt : j < ws.length) (s3Size : Nat) (w : Worker) :
    ((ws.set j w).map (Worker.load s3Size)).sum = w.load s3Size + ((ws.eraseIdx j).map (Worker.load s3Size)).sum := by
  rw [((List.set_perm_cons_eraseIdx hlt w).map _).sum_nat, List.map_cons, List.sum_cons]

/-- **The workers, in any order**: when none is left, the invariant holds over no worker. -/
theorem patchLoop_spec (hI : ∀ o s, s.entry = some o → E.Blend solo o₀ todo o → I s)
    (htodo : ∀ i ∈ todo, i < numChunks defaultChunkSize E.source.length) (hsorted : todo.Pairwise (· < ·)) :
    ∀ (fuel : Nat) {p : Patch} {o : Stored} {s : Slot}, (solo → p.workers.length ≤ 1) →
      (E.faulty ∨ fuel ≤ p.load E.source.length todo → ∀ o s, s.entry = some o → E.Blend solo o₀ todo o → H s) →
      E.PatchInv solo o₀ todo (· ∈ p.workers) p o s →
      wp (exec E) I H (patchLoop todo E.source.length fuel p)
        (fun p' s' => ∃ o', E.PatchInv solo o₀ todo (fun _ => False) p' o' s') s
  | 0, p, o, s, _, hH, h => hH (.inr (Nat.zero_le _)) o s h.entry h.blend
  | fuel + 1, p, o, s, hsolo, hH, h => by
    rw [patchLoop]
    cases hw : p.workers with
    | nil =>
      refine ⟨o, h.congr _ (fun w => ?_)⟩
      rw [hw]
      simp
    | cons w ws =>
      simp only [wp_bind, wp_req]
      refine ⟨hI o s h.entry h.blend, fun j s' hj => ?_⟩
      obtain rfl := hj
      have hlt : j.val < (w :: ws).length := j.isLt
      have hperm := List.getElem_cons_eraseIdx_perm hlt
      have hget : (w :: ws).getD j.val w = (w :: ws)[j.val] := by
        rw [List.getD_eq_getElem?_getD, List.getElem?_eq_getElem hlt, Option.getD_some]
      rw [hget]
      have h' := h.congr (withWorker (· ∈ (w :: ws).eraseIdx j.val) (some (w :: ws)[j.val])) (fun v => by
        rw [hw, ← hperm.mem_iff, List.mem_cons]
        unfold withWorker
        rw [or_comm, Option.some.injEq, eq_comm])
      have hlen : solo → ws.length = 0 := fun hs => by
        have := hsolo hs
        rw [hw, List.length_cons] at this
        omega
      have hrest : ((w :: ws).eraseIdx j.val).length = ws.length := by
        rw [List.length_eraseIdx_of_lt hlt, List.length_cons, Nat.add_sub_cancel]
      have halone : solo → ∀ v, v ∉ (w :: ws).eraseIdx j.val := fun hs v hv => by
        have := List.length_pos_of_mem hv
        rw [hrest, hlen hs] at this
        exact Nat.lt_irrefl 0 this
      refine wp_mono (fun r s'' hr => ?_) (workerStep_spec hI htodo hsorted halone _ h')
      obtain ⟨⟨o', ho'⟩, hload⟩ := hr
      have hsum := sum_load hlt E.source.length
      obtain ⟨w', p'⟩ := r
      have hfuel : ∀ q : Patch, q.nextChunkIdx = p'.nextChunkIdx →
          (q.workers.map (Worker.load E.source.length)).sum = optLoad E.source.length w' +
            (((w :: ws).eraseIdx j.val).map (Worker.load E.source.length)).sum →
          E.faulty ∨ fuel ≤ q.load E.source.length todo → E.faulty ∨ fuel + 1 ≤ p.load E.source.length todo := by
        intro q hq hqs hle
        rcases hload with hf | hlt'
        · exact .inl hf
        · refine hle.imp_right (fun hle => ?_)
          unfold Patch.load at hle ⊢
          rw [hq, hqs] at hle
          rw [hw, hsum]
          simp only at hlt'
          omega
      cases w' with
      | none =>
        have hle := hfuel { p' with workers := (w :: ws).eraseIdx j.val } rfl (Nat.zero_add _).symm
        refine patchLoop_spec hI htodo hsorted fuel (fun hs => by rw [hrest, hlen hs]; omega) (fun h => hH (hle h))
          ((ho'.ofWorkers _).congr _ (fun v => ?_))
        unfold withWorker
        simp
      | some w' =>
        have hset := List.set_perm_cons_eraseIdx hlt w'
        have hle := hfuel { p' with workers := (w :: ws).set j.val w' } rfl (sum_load_set hlt _ w')
        refine patchLoop_spec hI htodo hsorted fuel
          (fun hs => by have := hlen hs; rw [List.length_set, List.length_cons]; omega) (fun h => hH (hle h))
          ((ho'.ofWorkers _).congr _ (fun v => ?_))
        show withWorker _ _ v ↔ v ∈ (w :: ws).set j.val w'
        rw [hset.mem_iff, List.mem_cons]
        unfold withWorker
        rw [or_comm, Option.some.injEq, eq_comm]

/-! ## After the workers -/

/-- The chunks that change. -/
def Env.changed (E : Env) (o₀ : Stored) : List Nat :=
  chunksToDownload (E.chunkCRC32s E.source) (E.chunkCRC32s o₀.bytes)

/-- The chunks a file shares with the object. -/
def Env.shared (E : Env) (o₀ : Stored) : Nat :=
  unchangedChunks (E.chunkCRC32s E.source) (E.chunkCRC32s o₀.bytes)

/-- Every state a differential download passes through: whole, or, where some chunk is shared, a blend. -/
def Env.Torn (E : Env) (solo : Prop) (old : Option Stored) (s : Slot) : Prop :=
  E.Whole old (some E.source) s ∨
    ∃ o₀ o, old = some o₀ ∧ s.entry = some o ∧ E.shared o₀ ≠ 0 ∧ E.Blend solo o₀ (E.changed o₀) o

/-- The outcome of a differential download that found `old`. -/
def Env.DiffDownloaded (E : Env) (solo : Prop) (old : Option Stored) (F : Prop) (r : Bool) (s : Slot) : Prop :=
  E.Calm s ∧
    if r then E.hits (some E.source) s.entry ∨ s.entry = old ∧ old.map Stored.bytes = some E.source
    else F ∧ E.Torn solo old s

/-- The outcome again, where the marks the answers `X` allow are known to be made when `M` holds: a download that fails
leaves what it found, or a file whose time is the epoch. -/
def Env.DiffReturned (E : Env) (solo : Prop) (old : Option Stored) (F M : Prop) (r : Bool) (s : Slot) : Prop :=
  E.DiffDownloaded solo old F r s ∧ (M → r = false → s.entry = old ∨ ∃ o, s.entry = some o ∧ o.mtime = 0)

variable {old : Option Stored} {F M : Prop} {X : (c : Call) → Slot → Resp c → Slot → Prop}

theorem Env.DiffReturned.of_true {s : Slot} (h : E.DiffDownloaded solo old F true s) :
    E.DiffReturned solo old F M true s :=
  ⟨h, fun _ hr => by cases hr⟩

theorem Env.DiffReturned.of_kept {r : Bool} {s : Slot} (h : E.DiffDownloaded solo old F r s) (he : s.entry = old) :
    E.DiffReturned solo old F M r s :=
  ⟨h, fun _ _ => .inl he⟩

theorem Env.Torn.whole {s : Slot} (h : E.Whole old (some E.source) s) : E.Torn solo old s := .inl h

theorem Env.Torn.blend {s : Slot} (hun : E.shared o₀ ≠ 0) (he : s.entry = some o)
    (h : E.Blend solo o₀ (E.changed o₀) o) : E.Torn solo (some o₀) s := .inr ⟨o₀, o, rfl, he, hun, h⟩

theorem markIncomplete_spec (hX : ∀ c s r s', X c s r s' → exec E c s r s') (hM : M → ∀ s s', ¬ X .clearMtime s false s')
    (hun : E.shared o₀ ≠ 0) (hI : ∀ s, E.Torn solo (some o₀) s → I s) {s : Slot}
    (h : E.PatchInv solo o₀ (E.changed o₀) L p o s) (hf : E.faulty) :
    wp X I H (markIncomplete p.wroteAny) (E.DiffReturned solo (some o₀) E.faulty M) s := by
  have htorn := Env.Torn.blend hun h.entry h.blend
  unfold markIncomplete
  by_cases hw : p.wroteAny = true
  · simp only [hw, if_true, wp_bind, wp_req]
    refine ⟨hI s htorn, fun r s' hx => ?_⟩
    have hr := hX _ _ _ _ hx
    cases r with
    | false =>
      obtain ⟨-, rfl⟩ := hr
      exact ⟨⟨h.calm, hf, htorn⟩, fun hm _ => absurd hx (hM hm _ _)⟩
    | true =>
      obtain ⟨-, rfl⟩ := hr
      have hentry : ({ s with entry := s.entry.map fun o => { o with mtime := 0 } } : Slot).entry =
          some { o with mtime := 0 } := by rw [h.entry]; rfl
      refine ⟨⟨h.calm, hf, .inr ⟨o₀, { o with mtime := 0 }, rfl, hentry, hun, ?_⟩⟩, fun _ _ => .inr ⟨_, hentry, rfl⟩⟩
      exact ⟨h.blend.least, h.blend.most, h.blend.kept, h.blend.mixed, h.blend.tail, h.blend.serial, .inr (.inr rfl)⟩
  · simp only [hw]
    have hfresh := h.fresh (Bool.eq_false_iff.2 hw)
    exact .of_kept ⟨h.calm, hf, htorn⟩ (hfresh ▸ h.entry)

/-- Where every worker ended well, the file begins with the object. -/
theorem Env.PatchInv.filled {s : Slot} (h : E.PatchInv solo o₀ todo (fun _ => False) p o s)
    (hF : p.downloadFailed = false) (hs : s.seen = false) :
    (∀ q, q < E.source.length → AgreesAt E.source o.bytes q) ∧ (todo ≠ [] → p.wroteAny = true) := by
  have hn : todo.length ≤ p.nextChunkIdx := by
    rcases h.ended with ⟨w, hw⟩ | hn | hf | hs'
    · exact hw.elim
    · exact hn
    · rw [hF] at hf
      cases hf
    · rw [hs] at hs'
      cases hs'
  have hdone : ∀ i ∈ todo, Filled E.source o.bytes i (chunkLen defaultChunkSize E.source.length i) ∧
      p.wroteAny = true := by
    intro i hi
    obtain ⟨j, hj⟩ := List.mem_iff_getElem?.1 hi
    have hlt := (List.getElem?_eq_some_iff.1 hj).1
    rcases h.claimed j i hj (by omega) with hd | ⟨w, hw, -⟩ | hf | hs'
    · exact hd
    · exact hw.elim
    · rw [hF] at hf
      cases hf
    · rw [hs] at hs'
      cases hs'
  refine ⟨fun q hq => agreesAt_of_filled (fun i hi => ?_) hq, fun hne => ?_⟩
  · by_cases hit : i ∈ todo
    · exact (hdone i hit).1
    · exact h.blend.kept i hi hit
  · obtain ⟨i, hi⟩ := List.exists_mem_of_ne_nil _ hne
    exact (hdone i hi).2

theorem finishPatch_spec (hX : ∀ c s r s', X c s r s' → exec E c s r s') (hM : M → ∀ s s', ¬ X .clearMtime s false s')
    (hun : E.shared o₀ ≠ 0) (hI : ∀ s, E.Torn solo (some o₀) s → I s) {s : Slot}
    (h : E.PatchInv solo o₀ (E.changed o₀) (fun _ => False) p o s)
    (hchange : E.changed o₀ ≠ [] ∨ o₀.bytes.length ≠ E.source.length) :
    wp X I H (finishPatch E.source.length o₀.bytes.length p) (E.DiffReturned solo (some o₀) E.faulty M) s := by
  rw [finishPatch, wp_bind, wp_req]
  refine ⟨hI s (.blend hun h.entry h.blend), fun r s' hx => ?_⟩
  have hr : (s.seen = true → r = true) ∧ (r = true → E.faulty ∨ s.seen = true) ∧ s' = { s with seen := r } :=
    hX _ _ _ _ hx
  have hseen := hr.1
  obtain ⟨rfl, hrF⟩ := cancelled_cases h.calm hr
  have h' := h.see hrF hseen
  cases r with
  | true => exact markIncomplete_spec hX hM hun hI h' (hrF rfl)
  | false =>
    simp only [Bool.false_eq_true, if_false]
    cases hF : p.downloadFailed with
    | true => exact markIncomplete_spec hX hM hun hI h' (h.failed hF)
    | false =>
      obtain ⟨hall, hwrote⟩ := h'.filled hF rfl
      have htake : o.bytes.take E.source.length = E.source := take_eq_of_agreesAt hall
      have hlong : E.source.length ≤ o.bytes.length := by
        rw [← htake, List.length_take]
        omega
      have hleast := h.blend.least
      have hmost := h.blend.most
      simp only [Bool.false_eq_true, if_false]
      by_cases hshrink : (E.source.length : Int) < o₀.bytes.length
      · simp only [hshrink, if_true, wp_bind, wp_req]
        refine ⟨hI _ (.blend hun h.entry h.blend), fun r s' hx => ?_⟩
        have hr := hX _ _ _ _ hx
        cases r with
        | false =>
          obtain ⟨hf, rfl⟩ := hr
          exact markIncomplete_spec hX hM hun hI h' (hf.resolve_right (fun hn => hn (by rw [h'.entry]; simp)))
        | true =>
          obtain ⟨-, o', ho', t, ht, rfl⟩ := hr
          rw [h'.entry] at ho'
          cases ho'
          simp only [if_true, wp_bind, wp_req]
          have hhit : E.hits (some E.source) (some ⟨o.bytes.take E.source.length, t⟩) := ⟨t, ht, by rw [htake]⟩
          refine ⟨hI _ (.whole (.inr hhit)), fun r s'' hx => ?_⟩
          have hr := hX _ _ _ _ hx
          have : s'' = { s with seen := false, entry := some ⟨o.bytes.take E.source.length, t⟩ } := by
            cases r <;> exact hr.2
          subst this
          exact .of_true ⟨hrF, .inl hhit⟩
      · simp only [hshrink, if_false, wp_bind, wp_req]
        refine ⟨hI _ (.blend hun h.entry h.blend), fun r s'' hx => ?_⟩
        have hr := hX _ _ _ _ hx
        have : s'' = { s with seen := false } := by
          cases r <;> exact hr.2
        subst this
        have hbytes : o.bytes = E.source := by
          rw [← htake, List.take_of_length_le (by omega)]
        have hw : p.wroteAny = true := by
          cases hw : p.wroteAny with
          | true => rfl
          | false =>
            obtain rfl := h.fresh hw
            rw [hbytes] at hchange
            have := hwrote (hchange.resolve_right (fun h => h rfl))
            rw [hw] at this
            cases this
        refine .of_true ⟨hrF, .inl ⟨o.mtime, h.stamped hw, ?_⟩⟩
        rw [h.entry, ← hbytes]

/-! ## The whole download -/

theorem mem_changed {i : Nat} : i ∈ E.changed o₀ ↔ i < numChunks defaultChunkSize E.source.length ∧
    unchangedChunk (E.chunkCRC32s E.source) (E.chunkCRC32s o₀.bytes) i = false := by
  unfold Env.changed chunksToDownload
  rw [List.mem_filter, List.mem_range, length_chunkCRC32s, Bool.not_eq_true']

theorem blend_start (hsep : E.Separates E.source o₀.bytes) : E.Blend solo o₀ (E.changed o₀) o₀ := by
  refine ⟨Nat.le_refl _, by omega, fun i hi hn => ?_, fun p hp => .inl ?_, fun i _ h => absurd h (Nat.lt_irrefl _),
    fun _ h => absurd h (Nat.lt_irrefl _), .inl rfl⟩
  case refine_2 =>
    rw [padded, List.getD_eq_getElem?_getD, List.getElem?_eq_getElem hp, Option.getD_some]
  have hu : unchangedChunk (E.chunkCRC32s E.source) (E.chunkCRC32s o₀.bytes) i = true := by
    cases h : unchangedChunk (E.chunkCRC32s E.source) (E.chunkCRC32s o₀.bytes) i with
    | true => rfl
    | false => exact absurd (mem_changed.2 ⟨hi, h⟩) hn
  intro p h₁ h₂
  exact agreesAt_of_chunk (unchangedChunk_eq hsep hu).symm ((lt_numChunks defaultChunkSize_pos).1 hi) h₁ h₂

/-- A loop bound no fault-free download of `n` bytes spends. -/
def fuelFor (n : Nat) : Nat := numChunks defaultChunkSize n * (defaultChunkSize + 6) + n + 1

theorem unclaimedLoad_le (s3Size : Nat) (todo : List Nat) :
    unclaimedLoad s3Size todo 0 ≤ todo.length * (defaultChunkSize + 5) := by
  unfold unclaimedLoad
  rw [List.drop_zero]
  induction todo with
  | nil => exact Nat.zero_le _
  | cons i todo ih =>
    rw [List.map_cons, List.sum_cons, List.length_cons, Nat.add_mul, Nat.one_mul]
    have := chunkLen_le defaultChunkSize s3Size i
    omega

/-- The workers begin with less to do than the bound. -/
theorem load_start_lt {n : Nat} (hlen : todo.length ≤ numChunks defaultChunkSize n) (maxParallelChunks : Nat) :
    Patch.load n todo { workers := List.replicate (min maxParallelChunks todo.length) .top } < fuelFor n := by
  have hu := unclaimedLoad_le n todo
  have hm : todo.length * (defaultChunkSize + 6) ≤ numChunks defaultChunkSize n * (defaultChunkSize + 6) :=
    Nat.mul_le_mul_right _ hlen
  have hsplit : todo.length * (defaultChunkSize + 6) = todo.length * (defaultChunkSize + 5) + todo.length :=
    Nat.mul_succ _ _
  unfold Patch.load fuelFor
  simp only [List.map_replicate, List.sum_replicate_nat, Worker.load, Nat.mul_one]
  omega

theorem length_changed_le : (E.changed o₀).length ≤ numChunks defaultChunkSize E.source.length := by
  unfold Env.changed chunksToDownload
  rw [length_chunkCRC32s]
  exact Nat.le_trans (List.length_filter_le _ _) (Nat.le_of_eq List.length_range)

theorem patchInPlace_spec (hX : ∀ c s r s', X c s r s' → exec E c s r s') (hM : M → ∀ s s', ¬ X .clearMtime s false s')
    (hun : E.shared o₀ ≠ 0) {fuel maxParallelChunks : Nat}
    (hI : ∀ s, E.Torn (maxParallelChunks ≤ 1) (some o₀) s → I s) (hpar : 0 < maxParallelChunks) (hsep : E.Separates E.source o₀.bytes)
    (hchange : E.changed o₀ ≠ [] ∨ o₀.bytes.length ≠ E.source.length)
    (hH : E.faulty ∨ fuel < fuelFor E.source.length → ∀ s, E.Torn (maxParallelChunks ≤ 1) (some o₀) s → H s) {s : Slot} (hc : E.Calm s)
    (he : s.entry = some o₀) :
    wp X I H (patchInPlace fuel maxParallelChunks E.source.length o₀.bytes.length
      (E.chunkCRC32s E.source) (E.chunkCRC32s o₀.bytes))
      (E.DiffReturned (maxParallelChunks ≤ 1) (some o₀) E.faulty M) s := by
  have hwhole : E.Torn (maxParallelChunks ≤ 1) (some o₀) s := .whole (.inl he)
  rw [patchInPlace, wp_bind, wp_req]
  refine ⟨hI s hwhole, fun r s' hx => ?_⟩
  have hr := hX _ _ _ _ hx
  cases r with
  | false =>
    obtain ⟨hf, rfl⟩ := hr
    exact .of_kept ⟨hc, hf.resolve_right (fun hn => hn (.inl (by rw [he]; simp))), hwhole⟩ he
  | true =>
    obtain ⟨-, hr⟩ := hr
    obtain rfl : s' = s := by
      rcases hr with ⟨-, rfl⟩ | ⟨hn, -⟩
      · rfl
      · rw [he] at hn
        cases hn
    simp only [if_true, wp_bind]
    rw [show chunksToDownload (E.chunkCRC32s E.source) (E.chunkCRC32s o₀.bytes) = E.changed o₀ from rfl]
    have hstart : E.PatchInv (maxParallelChunks ≤ 1) o₀ (E.changed o₀)
        (· ∈ List.replicate (min maxParallelChunks (E.changed o₀).length) Worker.top)
        { workers := List.replicate (min maxParallelChunks (E.changed o₀).length) .top } o₀ s' := by
      refine ⟨he, hc, blend_start hsep, fun _ => rfl, by simp, by simp, fun w hw => ?_, fun j i _ hn => ?_, ?_⟩
      · rw [List.eq_of_mem_replicate hw]
        trivial
      · exact absurd hn (Nat.not_lt_zero j)
      · cases hz : (E.changed o₀).length with
        | zero => exact .inr (.inl (Nat.le_refl 0))
        | succ n => exact .inl ⟨.top, List.mem_replicate.2 ⟨by omega, rfl⟩⟩
    have hchanged : (E.changed o₀).length ≤ numChunks defaultChunkSize E.source.length := length_changed_le
    have hload := load_start_lt hchanged maxParallelChunks
    refine wp_mono (fun p' s'' hp => ?_) (wp_weaken hX (fun _ h => h) (fun _ h => h)
      (patchLoop_spec (fun o s h hb => hI s (.blend hun h hb)) (fun i hi => (mem_changed.1 hi).1)
        (List.pairwise_lt_range.filter _) fuel (fun hs => by rw [List.length_replicate]; omega)
        (fun h o s hs hb => hH (h.imp_right (fun h => by omega)) s (.blend hun hs hb)) hstart))
    obtain ⟨o', ho'⟩ := hp
    exact finishPatch_spec hX hM hun hI ho' hchange

theorem Env.Untouched.spared {s : Slot} (hs : E.Untouched old F s) (hf : F) : E.DiffReturned solo old F M false s :=
  .of_kept ⟨hs.calm, hf, .whole (.inl hs.entry)⟩ hs.entry

/-- The local side as the decision sees it. -/
theorem localChunks_spec (hF : E.faulty → F) {s : Slot} (hI : I s) :
    wp (exec E) I H localChunks (fun r s' => s' = s ∧
      match r with
      | none => F
      | some (localSize, localCrcs) => (localCrcs = [] ∧ (E.faulty ∨ ∀ o, s.entry = some o → o.bytes = [])) ∨
          ∃ o, s.entry = some o ∧ localSize = o.bytes.length ∧ localCrcs = E.chunkCRC32s o.bytes) s := by
  rw [localChunks, wp_bind, wp_req]
  refine ⟨hI, fun r s' h => ?_⟩
  cases r with
  | failed => exact ⟨h.2, hF (h.1.resolve_right (by simp))⟩
  | threw => exact ⟨h.2, hF h.1⟩
  | ok b =>
    obtain ⟨hb, rfl⟩ := h
    cases b with
    | false =>
      refine ⟨rfl, .inl ⟨rfl, .inr fun o ho => ?_⟩⟩
      rw [ho] at hb
      cases hb
    | true =>
      simp only [wp_bind, wp_req]
      refine ⟨hI, fun r s'' h => ?_⟩
      cases r with
      | failed =>
        refine ⟨h.2, .inl ⟨rfl, h.1.imp_right fun hn o ho => ?_⟩⟩
        rw [Slot.content, ho] at hn
        cases hn
      | threw => exact ⟨h.2, .inl ⟨rfl, .inl h.1⟩⟩
      | ok n =>
        obtain ⟨hn, rfl⟩ := h
        obtain ⟨b, hb, rfl⟩ := Option.map_eq_some_iff.1 hn
        obtain ⟨o, ho, rfl⟩ := Option.map_eq_some_iff.1 hb
        by_cases h0 : o.bytes.length = 0
        · simp only [h0, if_true]
          refine ⟨rfl, .inl ⟨rfl, .inr fun o' ho' => ?_⟩⟩
          rw [ho] at ho'
          cases ho'
          exact List.length_eq_zero_iff.1 h0
        · simp only [h0, if_false, wp_bind, wp_req]
          refine ⟨hI, fun r s₃ h => ?_⟩
          rw [exec, hb, Option.bind_some, if_neg (fun h => h0 (by rw [h]; rfl))] at h
          cases r with
          | failed => exact ⟨h.2, .inl ⟨rfl, .inl (h.1.resolve_right (by simp))⟩⟩
          | threw => exact ⟨h.2, .inl ⟨rfl, .inl h.1⟩⟩
          | ok l =>
            obtain ⟨hl, rfl⟩ := h
            cases hl
            exact ⟨rfl, .inr ⟨o, ho, rfl, rfl⟩⟩

theorem fullDownload_spec (hI : ∀ s, E.Torn solo old s → I s) (hF : E.faulty → F) {fuel : Nat} {base relative : Str}
    (hv : targetAccepted base relative = true ∨ F) (hne : E.source ≠ [])
    (hH : E.faulty ∨ fuel < fuelFor E.source.length → ∀ s, E.Torn solo old s → H s) {s : Slot}
    (hs : E.Untouched old F s) :
    wp (exec E) I H
      (downloadSmallFile fuel base relative E.source.length >>= fun a =>
        match a with
        | .ok _ => return true
        | _ => return false) (E.DiffReturned solo old F M) s := by
  have hshort : E.faulty ∨ fuel < E.source.length → E.faulty ∨ fuel < fuelFor E.source.length :=
    fun h => h.imp_right (fun h => by unfold fuelFor; omega)
  rw [wp_bind]
  refine wp_mono (fun r s' h => ?_) (downloadSmallFile_spec (fun s h => hI s (.whole h)) hF hv hne
    (fun h s he => hH (hshort h) s (.whole (.inl he))) hs)
  cases r with
  | ok a => exact .of_true ⟨h.1, .inl h.2⟩
  | failed => exact .of_kept ⟨h.1, h.2.1, .whole (.inl h.2.2)⟩ h.2.2
  | threw => exact .of_kept ⟨h.1, h.2.1, .whole (.inl h.2.2)⟩ h.2.2

theorem diffDownloadDecide_spec (hX : ∀ c s r s', X c s r s' → exec E c s r s')
    (hM : M → ∀ s s', ¬ X .clearMtime s false s') {fuel maxParallelChunks : Nat}
    (hI : ∀ s, E.Torn (maxParallelChunks ≤ 1) old s → I s) (hF : E.faulty → F)
    {base relative : Str} (hv : targetAccepted base relative = true ∨ F) (hne : E.source ≠ [])
    (hpar : 0 < maxParallelChunks) (hsep : ∀ o, old = some o → E.Separates E.source o.bytes)
    (hH : E.faulty ∨ fuel < fuelFor E.source.length → ∀ s, E.Torn (maxParallelChunks ≤ 1) old s → H s) {s : Slot}
    (hs : E.Untouched old F s) {localSize : Int} {localCrcs : List UInt32}
    (hl : localCrcs = [] ∨
      ∃ o, s.entry = some o ∧ localSize = o.bytes.length ∧ localCrcs = E.chunkCRC32s o.bytes) :
    wp X I H
      (diffDownloadDecide fuel maxParallelChunks base relative E.source.length localSize (E.chunkCRC32s E.source)
        localCrcs) (E.DiffReturned (maxParallelChunks ≤ 1) old F M) s := by
  have hpos : 0 < (E.chunkCRC32s E.source).length := by
    rw [length_chunkCRC32s]
    exact numChunks_pos defaultChunkSize_pos (List.length_pos_iff.2 hne)
  have hnil : ∀ i, unchangedChunk (E.chunkCRC32s E.source) [] i = false := unchangedChunk_nil _
  have hfullDownload := wp_weaken hX (fun _ h => h) (fun _ h => h)
    (fullDownload_spec (M := M) hI hF hv hne hH hs)
  unfold diffDownloadDecide
  rcases hl with rfl | ⟨o, ho, rfl, rfl⟩
  · rw [if_neg (fun h => by
      have := unchangedChunks_eq_length h.1 hpos
      rw [hnil] at this
      cases this), if_pos (.inl rfl)]
    exact hfullDownload
  · obtain rfl : old = some o := hs.entry.symm.trans ho
    by_cases hall : unchangedChunks (E.chunkCRC32s E.source) (E.chunkCRC32s o.bytes) =
        (E.chunkCRC32s E.source).length ∧ (o.bytes.length : Int) = E.source.length
    · rw [if_pos hall]
      refine .of_true ⟨hs.calm, .inr ⟨ho, ?_⟩⟩
      rw [Option.map_some, eq_of_unchangedChunks (hsep o rfl) (by omega) hall.1]
    · rw [if_neg hall]
      by_cases hfull : E.chunkCRC32s o.bytes = [] ∨
          unchangedChunks (E.chunkCRC32s E.source) (E.chunkCRC32s o.bytes) = 0
      · rw [if_pos hfull]
        exact hfullDownload
      · rw [if_neg hfull]
        have hchange : E.changed o ≠ [] ∨ o.bytes.length ≠ E.source.length := by
          by_contra hno
          obtain ⟨hc, hlen⟩ := not_or.1 hno
          refine hall ⟨?_, by omega⟩
          unfold unchangedChunks
          rw [List.length_filter_eq_length_iff.2, List.length_range]
          intro i hi
          cases hu : unchangedChunk (E.chunkCRC32s E.source) (E.chunkCRC32s o.bytes) i with
          | true => rfl
          | false =>
            rw [List.mem_range, length_chunkCRC32s] at hi
            have := mem_changed.2 ⟨hi, hu⟩
            rw [Classical.not_not.1 hc] at this
            cases this
        refine wp_mono (fun r s' h => ?_)
          (patchInPlace_spec hX hM (fun h => hfull (.inr h)) hI hpar (hsep o rfl) hchange hH hs.calm ho)
        cases r with
        | true => exact .of_true h.1
        | false => exact ⟨⟨h.1.1, hF h.1.2.1, h.1.2.2⟩, h.2⟩

/-- **A differential download leaves the object's bytes**, or has failed and leaves the old file or a blend, which is
marked where marks are made. -/
theorem diffDownloadFile_marked (hX : ∀ c s r s', X c s r s' → exec E c s r s')
    (hM : M → ∀ s s', ¬ X .clearMtime s false s') {fuel maxParallelChunks : Nat}
    (hI : ∀ s, E.Torn (maxParallelChunks ≤ 1) old s → I s) (hF : E.faulty → F)
    {base relative : Str} (hv : targetAccepted base relative = true ∨ F) (hne : E.source ≠ [])
    (hpar : 0 < maxParallelChunks) (hsep : ∀ o, old = some o → E.Separates E.source o.bytes)
    (hH : E.faulty ∨ fuel < fuelFor E.source.length → ∀ s, E.Torn (maxParallelChunks ≤ 1) old s → H s) {s : Slot}
    (hs : E.Untouched old F s) :
    wp X I H (diffDownloadFile fuel maxParallelChunks base relative E.source.length)
      (E.DiffReturned (maxParallelChunks ≤ 1) old F M) s := by
  have hpos : 0 < E.source.length := List.length_pos_iff.2 hne
  have hIs : I s := hI s (.whole (.inl hs.entry))
  unfold diffDownloadFile
  rw [if_neg (by omega)]
  cases hacc : targetAccepted base relative with
  | false => exact hs.spared (hv.resolve_left (by simp [hacc]))
  | true =>
    simp only [Bool.not_true, Bool.false_eq_true, if_false, wp_bind, wp_req]
    refine ⟨hIs, fun r s' hx => ?_⟩
    have h := hX _ _ _ _ hx
    cases r with
    | false =>
      obtain ⟨hf, rfl⟩ := check_false hF h
      exact hs.spared hf
    | true =>
      obtain ⟨-, rfl⟩ := h
      simp only [Bool.not_true, Bool.false_eq_true, if_false]
      rw [if_neg (by omega), Int.toNat_natCast]
      simp only [wp_bind, wp_req]
      refine ⟨hIs, fun r s' hx => ?_⟩
      have h := hX _ _ _ _ hx
      cases r with
      | threw =>
        obtain ⟨hf, rfl⟩ := h
        exact hs.spared (hF hf)
      | failed =>
        obtain ⟨-, rfl⟩ := h
        exact wp_weaken hX (fun _ h => h) (fun _ h => h) (fullDownload_spec hI hF hv hne hH hs)
      | ok l =>
        obtain ⟨hl, rfl⟩ := h
        rw [if_pos ⟨hpos, Nat.le_refl _⟩, List.take_length] at hl
        cases hl
        simp only [wp_bind]
        refine wp_mono (fun r s'' hr => ?_)
          (wp_weaken hX (fun _ h => h) (fun _ h => h) (localChunks_spec hF hIs))
        obtain ⟨rfl, hr⟩ := hr
        cases r with
        | none => exact hs.spared hr
        | some q => exact diffDownloadDecide_spec hX hM hI hF hv hne hpar hsep hH hs (hr.imp_left And.left)

theorem diffDownloadFile_spec {fuel maxParallelChunks : Nat} (hI : ∀ s, E.Torn (maxParallelChunks ≤ 1) old s → I s)
    (hF : E.faulty → F)
    {base relative : Str} (hv : targetAccepted base relative = true ∨ F) (hne : E.source ≠ [])
    (hpar : 0 < maxParallelChunks) (hsep : ∀ o, old = some o → E.Separates E.source o.bytes)
    (hH : E.faulty ∨ fuel < fuelFor E.source.length → ∀ s, E.Torn (maxParallelChunks ≤ 1) old s → H s) {s : Slot}
    (hs : E.Untouched old F s) :
    wp (exec E) I H (diffDownloadFile fuel maxParallelChunks base relative E.source.length)
      (E.DiffDownloaded (maxParallelChunks ≤ 1) old F) s :=
  wp_mono (fun _ _ h => h.1)
    (diffDownloadFile_marked (M := False) (fun _ _ _ _ h => h) nofun hI hF hv hne hpar hsep hH hs)

end Mito
