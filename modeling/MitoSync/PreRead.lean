import MitoSync.WriteQueue
import MitoSync.Run
import MitoSync.Lib.Ending
/-!
# PreRead — the files that are read ahead of their tasks

The threads of the pre-read stage take the entries of a plan in turn, read the small ones and put the bytes into
`io_cache`; the submitter takes an entry's bytes out when it comes to it, or finds none and posts the task without.  A
thread waits while the cache is full, and is woken by what the submitter takes out and by the end of the run.

The cache's count of its bytes is right and within its limit, its entries exceed the queue's size by less than the
threads, and what a task is posted with is what `prefetch` may return for its line (`Sound`).  Wherever a run stands,
the submission ends with every thread joined: no wake-up is lost (`reads_ahead`).
-/
namespace Mito

open Lib Prog Relation

def preReadQueueSize : Nat := 512

def preReadMaxTotalBytes : Nat := 1024 * 1024 * 1024

/-! ## The cache -/

/-- `io_cache` and `io_cache_bytes`. -/
structure IoCache where
  entries : List (Str × Bytes) := []
  bytes : Nat := 0

namespace IoCache

def hasRoom (c : IoCache) : Bool := c.entries.length < preReadQueueSize && c.bytes < preReadMaxTotalBytes

/-- `io_cache[path] = std::move(data)`, if the bytes fit. -/
def store (c : IoCache) (path : Str) (data : Bytes) : IoCache :=
  if c.bytes + data.length ≤ preReadMaxTotalBytes then
    { entries := (path, data) :: c.entries.filter (·.1 ≠ path), bytes := c.bytes + data.length }
  else c

def find (c : IoCache) (path : Str) : Option Bytes := c.entries.lookup path

def erase (c : IoCache) (path : Str) (data : Bytes) : IoCache where
  entries := c.entries.filter (·.1 ≠ path)
  bytes := c.bytes - data.length

end IoCache

/-! ## The threads -/

/-- A thread of the stage. -/
inductive ReaderPhase (n : Nat)
  /-- about to look at the flags -/
  | top
  /-- about to take the next index -/
  | claiming
  /-- with a file, about to look for room -/
  | checking (i : Fin n)
  | waiting (i : Fin n)
  | reading (i : Fin n)
  /-- with a file's bytes, about to take the lock -/
  | storing (i : Fin n) (data : Bytes)
  | ended

/-- The submitter. -/
inductive SubmitPhase
  /-- at the head of its loop -/
  | looking
  /-- with bytes out of the cache, the lock released, about to notify -/
  | notifying (data : Bytes)
  | posting (data : Option Bytes)
  | draining
  /-- `io_cache_done` is set, and nobody notified yet -/
  | closing
  | joining
  | joined

/-- The loop of the submission is over. -/
@[simp] def SubmitPhase.isOver : SubmitPhase → Bool
  | .looking | .notifying _ | .posting _ => false
  | _ => true

/-- `notify_all()`, for one thread. -/
def ReaderPhase.woken {n : Nat} : ReaderPhase n → ReaderPhase n
  | .waiting i => .checking i
  | phase => phase

/-- `num_prefetch` threads, here `R`, that read ahead of the submission of `n` entries.  `posted` is its history: what
each task was given. -/
structure PreReadState (n R : Nat) where
  cache : IoCache := {}
  prefetchIndex : Nat := 0
  readers : Fin R → ReaderPhase n := fun _ => .top
  submit : SubmitPhase := .looking
  next : Nat := 0
  posted : List (Fin n × Option Bytes) := []
  cancelled : Bool := false
  /-- `io_cache_done` -/
  done : Bool := false

/-- What a read of a line's whole file may return: the bytes of the size that was planned. -/
def Setting.Reads (S : Setting) (f : SyncFileEntry) (data : Bytes) : Prop :=
  ∃ size, prefetchSize f = some size ∧ size ≤ (S.env f.relativePath).source.length ∧
    data = slice (S.env f.relativePath).source 0 size

namespace PreReadState

variable {n R : Nat}

def setReader (s : PreReadState n R) (r : Fin R) (phase : ReaderPhase n) : PreReadState n R :=
  { s with readers := Function.update s.readers r phase }

@[simp] theorem setReader_self (s : PreReadState n R) (r : Fin R) (phase : ReaderPhase n) :
    (s.setReader r phase).readers r = phase := Function.update_self ..

theorem setReader_of_ne (s : PreReadState n R) {r k : Fin R} (h : k ≠ r) (phase : ReaderPhase n) :
    (s.setReader r phase).readers k = s.readers k := Function.update_of_ne h ..

/-- `io_cache_cv.notify_one()`: any one waiter wakes, if there is one. -/
inductive NotifyOne : PreReadState n R → PreReadState n R → Prop
  | reader {s : PreReadState n R} (r : Fin R) {i : Fin n} (h : s.readers r = .waiting i) :
      NotifyOne s (s.setReader r (.checking i))
  | none {s : PreReadState n R} (h : ∀ r i, s.readers r ≠ .waiting i) : NotifyOne s s

/-- The run goes on, as the loop of a thread tests it. -/
def running (s : PreReadState n R) : Prop := s.cancelled = false ∧ s.done = false

variable (files : Fin n → SyncFileEntry) (S : Setting)

/-- A step of a thread at work, of the submitter or of the user.  What is done under the lock is one step. -/
inductive Work : PreReadState n R → PreReadState n R → Prop
  | enter {s : PreReadState n R} (r : Fin R) (h : s.readers r = .top) (hgo : s.running) :
      Work s (s.setReader r .claiming)
  | leave {s : PreReadState n R} (r : Fin R) (h : s.readers r = .top) (hstop : ¬ s.running) :
      Work s (s.setReader r .ended)
  | claim {s : PreReadState n R} (r : Fin R) (h : s.readers r = .claiming) (hi : s.prefetchIndex < n) :
      Work s { s.setReader r (if (prefetchSize (files ⟨_, hi⟩)).isSome then .checking ⟨_, hi⟩ else .top) with
        prefetchIndex := s.prefetchIndex + 1 }
  | exhaust {s : PreReadState n R} (r : Fin R) (h : s.readers r = .claiming) (hi : n ≤ s.prefetchIndex) :
      Work s { s.setReader r .ended with prefetchIndex := s.prefetchIndex + 1 }
  | proceed {s : PreReadState n R} (r : Fin R) {i : Fin n} (h : s.readers r = .checking i)
      (hroom : s.cache.hasRoom = true) (hgo : s.running) : Work s (s.setReader r (.reading i))
  | quit {s : PreReadState n R} (r : Fin R) {i : Fin n} (h : s.readers r = .checking i) (hstop : ¬ s.running) :
      Work s (s.setReader r .ended)
  | sleep {s : PreReadState n R} (r : Fin R) {i : Fin n} (h : s.readers r = .checking i)
      (hfull : s.cache.hasRoom = false) (hgo : s.running) : Work s (s.setReader r (.waiting i))
  | read {s : PreReadState n R} (r : Fin R) {i : Fin n} {data : Bytes} (h : s.readers r = .reading i)
      (hdata : S.Reads (files i) data) : Work s (s.setReader r (.storing i data))
  /-- a file that could not be read, or not to the size that was planned -/
  | unread {s : PreReadState n R} (r : Fin R) {i : Fin n} (h : s.readers r = .reading i) : Work s (s.setReader r .top)
  /-- an exception, which ends the thread -/
  | throw {s : PreReadState n R} (r : Fin R) {i : Fin n} (h : s.readers r = .reading i) : Work s (s.setReader r .ended)
  | store {s : PreReadState n R} (r : Fin R) {i : Fin n} {data : Bytes} (h : s.readers r = .storing i data) :
      Work s { s.setReader r .top with cache := s.cache.store (files i).relativePath data }
  | hit {s : PreReadState n R} {data : Bytes} (h : s.submit = .looking) (hn : s.next < n) (hc : s.cancelled = false)
      (hserved : (prefetchSize (files ⟨_, hn⟩)).isSome)
      (hfind : s.cache.find (files ⟨_, hn⟩).relativePath = some data) :
      Work s { s with cache := s.cache.erase (files ⟨_, hn⟩).relativePath data, submit := .notifying data }
  | miss {s : PreReadState n R} (h : s.submit = .looking) (hn : s.next < n) (hc : s.cancelled = false)
      (hmiss : prefetchSize (files ⟨_, hn⟩) = none ∨ s.cache.find (files ⟨_, hn⟩).relativePath = none) :
      Work s { s with submit := .posting none }
  | notify {s s' : PreReadState n R} {data : Bytes} (h : s.submit = .notifying data) (hone : NotifyOne s s') :
      Work s { s' with submit := .posting (some data) }
  /-- the window of the submission only holds the task back -/
  | post {s : PreReadState n R} {data : Option Bytes} (h : s.submit = .posting data) (hn : s.next < n)
      (hc : s.cancelled = false) :
      Work s { s with posted := (⟨s.next, hn⟩, data) :: s.posted, next := s.next + 1, submit := .looking }
  | stop {s : PreReadState n R} (h : s.submit = .looking ∧ n ≤ s.next ∨
      (s.submit = .looking ∨ ∃ data, s.submit = .posting data) ∧ s.cancelled = true) :
      Work s { s with submit := .draining }
  /-- `io_cache_done`, with no task in flight -/
  | close {s : PreReadState n R} (h : s.submit = .draining) : Work s { s with done := true, submit := .closing }
  | notifyAll {s : PreReadState n R} (h : s.submit = .closing) :
      Work s { s with readers := fun r => (s.readers r).woken, submit := .joining }
  | join {s : PreReadState n R} (h : s.submit = .joining) (hended : ∀ r, s.readers r = .ended) :
      Work s { s with submit := .joined }
  | cancel {s : PreReadState n R} (h : s.cancelled = false) : Work s { s with cancelled := true }

/-- A step of work that is not the user's. -/
def Unaided (s s' : PreReadState n R) : Prop := Work files S s s' ∧ s'.cancelled = s.cancelled

/-- A step, or a wake-up that nobody sent. -/
inductive Step : PreReadState n R → PreReadState n R → Prop
  | work {s s' : PreReadState n R} (h : Work files S s s') : Step s s'
  | spurious {s : PreReadState n R} (r : Fin R) {i : Fin n} (h : s.readers r = .waiting i) :
      Step s (s.setReader r (.checking i))

end PreReadState

/-! ## What holds of the cache -/

namespace IoCache

variable {c : IoCache} {path : Str} {data : Bytes}

/-- The count of bytes is right and within the limit, and a path is there once. -/
structure Sound (c : IoCache) : Prop where
  bytes : c.bytes = (c.entries.map (fun e => e.2.length)).sum
  limit : c.bytes ≤ preReadMaxTotalBytes
  keys : (c.entries.map Prod.fst).Nodup

theorem filter_of_new {l : List (Str × Bytes)} (h : path ∉ l.map Prod.fst) : l.filter (·.1 ≠ path) = l :=
  List.filter_eq_self.2 fun e he => by
    have hne : e.1 ≠ path := fun heq => h (List.mem_map.2 ⟨e, he, heq⟩)
    simpa using hne

theorem Sound.store (h : c.Sound) (hnew : path ∉ c.entries.map Prod.fst) : (c.store path data).Sound := by
  unfold IoCache.store
  rw [filter_of_new hnew]
  split
  · rename_i hfits
    refine ⟨?_, hfits, List.nodup_cons.2 ⟨hnew, h.keys⟩⟩
    rw [List.map_cons, List.sum_cons, ← h.bytes, Nat.add_comm]
  · exact h

theorem find_eq_some (h : c.find path = some data) : ∃ a b, c.entries = a ++ (path, data) :: b ∧
    path ∉ a.map Prod.fst := by
  unfold find at h
  obtain ⟨a, b, hab, hnot⟩ := List.lookup_eq_some_iff.1 h
  refine ⟨a, b, hab, fun hin => ?_⟩
  obtain ⟨e, he, rfl⟩ := List.mem_map.1 hin
  simpa using hnot e he

/-- **Taking a path's bytes out leaves the rest.** -/
theorem Sound.erase (h : c.Sound) (hfind : c.find path = some data) :
    (c.erase path data).Sound ∧ (c.erase path data).entries ⊆ c.entries ∧
      path ∉ (c.erase path data).entries.map Prod.fst ∧ (c.erase path data).entries.length < c.entries.length := by
  obtain ⟨a, b, hab, hna⟩ := find_eq_some hfind
  have hkeys := h.keys
  rw [hab, List.map_append, List.map_cons, List.nodup_append, List.nodup_cons] at hkeys
  obtain ⟨ha, ⟨hnb, hb⟩, hdisj⟩ := hkeys
  have herase : (c.erase path data).entries = a ++ b := by
    unfold IoCache.erase
    dsimp only
    rw [hab, List.filter_append, filter_of_new hna, List.filter_cons_of_neg (by simp), filter_of_new hnb]
  have hsum := h.bytes
  rw [hab, List.map_append, List.map_cons, List.sum_append, List.sum_cons] at hsum
  refine ⟨⟨?_, ?_, ?_⟩, ?_, ?_, ?_⟩
  · rw [herase, List.map_append, List.sum_append]
    show c.bytes - data.length = _
    dsimp only at hsum
    omega
  · exact (Nat.sub_le _ _).trans h.limit
  · rw [herase, List.map_append]
    exact List.nodup_append.2 ⟨ha, hb, fun x hx y hy => hdisj x hx y (List.mem_cons_of_mem _ hy)⟩
  · rw [herase, hab]
    exact List.append_subset.2 ⟨List.subset_append_left _ _,
      fun x hx => List.mem_append_right _ (List.mem_cons_of_mem _ hx)⟩
  · rw [herase, List.map_append, List.mem_append, not_or]
    exact ⟨hna, hnb⟩
  · rw [herase, hab]
    simp

end IoCache

/-! ## What holds of a run -/

namespace ReaderPhase

variable {n : Nat}

/-- The entry a thread has and has not stored. -/
def held : ReaderPhase n → Option (Fin n)
  | .checking i | .waiting i | .reading i | .storing i _ => some i
  | _ => none

/-- A thread that has found room. -/
@[simp] def isReading : ReaderPhase n → Bool
  | .reading _ | .storing _ _ => true
  | _ => false

theorem held_woken (phase : ReaderPhase n) : phase.woken.held = phase.held := by cases phase <;> rfl

end ReaderPhase

namespace PreReadState

variable {n R : Nat}

/-- The paths in the cache. -/
def keys (s : PreReadState n R) : List Str := s.cache.entries.map Prod.fst

/-- **The invariant.** -/
structure Sound (files : Fin n → SyncFileEntry) (S : Setting) (s : PreReadState n R) : Prop where
  cache : s.cache.Sound
  cached : ∀ e ∈ s.cache.entries, ∃ i : Fin n, i < s.prefetchIndex ∧ (files i).relativePath = e.1 ∧
    S.Reads (files i) e.2
  /-- nobody reads an entry a second time -/
  held : ∀ r i, (s.readers r).held = some i → i < s.prefetchIndex ∧ (files i).relativePath ∉ s.keys
  apart : ∀ r r' i, (s.readers r).held = some i → (s.readers r').held = some i → r = r'
  storing : ∀ r i data, s.readers r = .storing i data → S.Reads (files i) data
  room : s.cache.entries.length + tally ReaderPhase.isReading s.readers + 1 ≤ preReadQueueSize + R
  notifying : ∀ data, s.submit = .notifying data → ∃ hn : s.next < n, S.Reads (files ⟨_, hn⟩) data
  posting : ∀ d, s.submit = .posting d → ∃ hn : s.next < n, ∀ data, d = some data → S.Reads (files ⟨_, hn⟩) data
  posted : ∀ p ∈ s.posted, ∀ data, p.2 = some data → S.Reads (files p.1) data
  order : s.posted.map (fun p => p.1.val) = (List.range s.next).reverse
  finished : s.submit.isOver = true → n ≤ s.next ∨ s.cancelled = true
  done : s.submit = .closing ∨ s.submit = .joining ∨ s.submit = .joined → s.done = true
  awake : s.submit = .joining ∨ s.submit = .joined → ∀ r i, s.readers r ≠ .waiting i

variable {files : Fin n → SyncFileEntry} {S : Setting} {s s' : PreReadState n R} {r : Fin R}

theorem Sound.start (files : Fin n → SyncFileEntry) (S : Setting) : Sound files S ({} : PreReadState n R) := by
  refine ⟨⟨rfl, Nat.zero_le _, List.nodup_nil⟩, ?_, ?_, ?_, ?_, ?_, ?_, ?_, ?_, rfl, ?_, ?_, ?_⟩
  case refine_5 =>
    have hnone : tally ReaderPhase.isReading (fun _ : Fin R => (ReaderPhase.top : ReaderPhase n)) = 0 :=
      tally_eq_zero fun _ => rfl
    show 0 + tally ReaderPhase.isReading (fun _ : Fin R => ReaderPhase.top) + 1 ≤ preReadQueueSize + R
    rw [hnone]
    exact Nat.le_add_right_of_le (by decide)
  all_goals simp [ReaderPhase.held]

/-- A thread moves to a phase that holds what it held, or nothing, and has found room only if it had. -/
theorem Sound.setReader (h : Sound files S s) {phase : ReaderPhase n}
    (hheld : ∀ i, phase.held = some i → (s.readers r).held = some i)
    (hstoring : ∀ i data, phase = .storing i data → S.Reads (files i) data)
    (hroom : phase.isReading = true → (s.readers r).isReading = true ∨ s.cache.hasRoom = true)
    (hawake : s.submit = .joining ∨ s.submit = .joined → ∀ i, phase ≠ .waiting i) :
    Sound files S (s.setReader r phase) := by
  have hback : ∀ k i, ((s.setReader r phase).readers k).held = some i → (s.readers k).held = some i := by
    intro k i hk
    by_cases hkr : k = r
    · subst hkr
      rw [setReader_self] at hk
      exact hheld i hk
    · rwa [setReader_of_ne s hkr] at hk
  refine ⟨h.cache, h.cached, fun k i hk => h.held k i (hback k i hk),
    fun k k' i hk hk' => h.apart k k' i (hback k i hk) (hback k' i hk'), fun k i data hk => ?_, ?_, h.notifying,
    h.posting, h.posted, h.order, h.finished, h.done, fun hj k i => ?_⟩
  · by_cases hkr : k = r
    · subst hkr
      rw [setReader_self] at hk
      exact hstoring i data hk
    · rw [setReader_of_ne s hkr] at hk
      exact h.storing k i data hk
  · have hmove := tally_update ReaderPhase.isReading (f := s.readers) (i := r) rfl phase
    have hbound := h.room
    show s.cache.entries.length + tally ReaderPhase.isReading (Function.update s.readers r phase) + 1 ≤ _
    cases hphase : phase.isReading with
    | false =>
      rw [hphase, Bool.toNat_false] at hmove
      omega
    | true =>
      rw [hphase, Bool.toNat_true] at hmove
      rcases hroom hphase with hr | hr
      · rw [hr, Bool.toNat_true] at hmove
        omega
      · -- fewer entries than the queue's size, and at most all of the threads
        unfold IoCache.hasRoom at hr
        rw [Bool.and_eq_true, decide_eq_true_eq] at hr
        have hall := tally_not (p := ReaderPhase.isReading) (f := Function.update s.readers r phase)
        omega
  · by_cases hkr : k = r
    · subst hkr
      rw [setReader_self]
      exact hawake hj i
    · rw [setReader_of_ne s hkr]
      exact h.awake hj k i

/-- A thread that is not to sleep, and holds nothing new. -/
theorem Sound.drop (h : Sound files S s) {phase : ReaderPhase n} (hheld : phase.held = none) :
    Sound files S (s.setReader r phase) := by
  refine h.setReader (fun i hi => absurd (hheld.symm.trans hi) (by simp)) (fun i data hp => ?_) (fun hp => ?_)
    (fun _ i hp => ?_)
  · rw [hp] at hheld
    exact absurd hheld (by simp [ReaderPhase.held])
  · cases phase <;> simp_all [ReaderPhase.held]
  · rw [hp] at hheld
    exact absurd hheld (by simp [ReaderPhase.held])

theorem Sound.wake (h : Sound files S s) {i : Fin n} (hr : s.readers r = .waiting i) :
    Sound files S (s.setReader r (.checking i)) :=
  h.setReader (fun j hj => by rw [hr]; exact hj) (fun _ _ hp => by cases hp) (fun hp => by cases hp)
    (fun _ _ hp => by cases hp)

theorem Sound.notifyOne (h : Sound files S s) (hone : NotifyOne s s') : Sound files S s' := by
  cases hone with
  | reader r hr => exact h.wake hr
  | none => exact h

theorem NotifyOne.submit_eq (hone : NotifyOne s s') : s'.submit = s.submit ∧ s'.next = s.next := by
  cases hone <;> exact ⟨rfl, rfl⟩

theorem NotifyOne.cancelled_eq (hone : NotifyOne s s') : s'.cancelled = s.cancelled := by
  cases hone <;> rfl

theorem exists_notifyOne (s : PreReadState n R) : ∃ s', NotifyOne s s' := by
  by_cases hsome : ∃ r i, s.readers r = .waiting i
  · obtain ⟨r, i, hr⟩ := hsome
    exact ⟨_, .reader r hr⟩
  · exact ⟨s, .none fun r i hr => hsome ⟨r, i, hr⟩⟩

/-- The next index goes to one thread. -/
theorem Sound.claim (h : Sound files S s) (hinj : Function.Injective fun i => (files i).relativePath)
    (hr : s.readers r = .claiming) (hi : s.prefetchIndex < n) (phase : ReaderPhase n)
    (hphase : phase = .checking ⟨_, hi⟩ ∨ phase = .top) :
    Sound files S { s.setReader r phase with prefetchIndex := s.prefetchIndex + 1 } := by
  have hmoved : ∀ k i, ((s.setReader r phase).readers k).held = some i →
      k = r ∧ i = ⟨_, hi⟩ ∨ k ≠ r ∧ (s.readers k).held = some i := by
    intro k i hk
    by_cases hkr : k = r
    · subst hkr
      rw [setReader_self] at hk
      rcases hphase with rfl | rfl
      · exact .inl ⟨rfl, (Option.some.inj hk).symm⟩
      · exact absurd hk (by simp [ReaderPhase.held])
    · rw [setReader_of_ne s hkr] at hk
      exact .inr ⟨hkr, hk⟩
  have hdrop : Sound files S (s.setReader r .top) := h.drop rfl
  refine ⟨h.cache, fun e he => ?_, fun k i hk => ?_, fun k k' i hk hk' => ?_, fun k i data hk => ?_, ?_, h.notifying,
    h.posting, h.posted, h.order, h.finished, h.done, fun hj k i hk => ?_⟩
  · obtain ⟨i, hlt, hpath, hreads⟩ := h.cached e he
    exact ⟨i, Nat.lt_succ_of_lt hlt, hpath, hreads⟩
  · rcases hmoved k i hk with ⟨-, rfl⟩ | ⟨-, hold⟩
    · -- what is in the cache was taken before
      refine ⟨Nat.lt_succ_self _, fun hin => ?_⟩
      obtain ⟨e, he, hpath⟩ := List.mem_map.1 hin
      obtain ⟨j, hlt, hj, -⟩ := h.cached e he
      rw [hinj (hj.trans hpath)] at hlt
      exact absurd hlt (Nat.lt_irrefl _)
    · exact ⟨Nat.lt_succ_of_lt (h.held k i hold).1, (h.held k i hold).2⟩
  · rcases hmoved k i hk with ⟨rfl, rfl⟩ | ⟨-, hold⟩
    · rcases hmoved k' _ hk' with ⟨rfl, -⟩ | ⟨-, hold'⟩
      · rfl
      · exact absurd (h.held k' _ hold').1 (Nat.lt_irrefl _)
    · rcases hmoved k' i hk' with ⟨rfl, rfl⟩ | ⟨-, hold'⟩
      · exact absurd (h.held k _ hold).1 (Nat.lt_irrefl _)
      · exact h.apart k k' i hold hold'
  · by_cases hkr : k = r
    · subst hkr
      rw [show ({ s.setReader k phase with prefetchIndex := s.prefetchIndex + 1 } : PreReadState n R).readers k = phase
        from setReader_self s k phase] at hk
      rcases hphase with rfl | rfl <;> cases hk
    · exact h.storing k i data ((setReader_of_ne s hkr phase).symm.trans hk)
  · have hnot : phase.isReading = false := by rcases hphase with rfl | rfl <;> rfl
    have hmove := tally_update ReaderPhase.isReading (f := s.readers) (i := r) rfl phase
    rw [hnot, Bool.toNat_false] at hmove
    have hbound := h.room
    show s.cache.entries.length + tally ReaderPhase.isReading (Function.update s.readers r phase) + 1 ≤ _
    omega
  · by_cases hkr : k = r
    · subst hkr
      rw [show ({ s.setReader k phase with prefetchIndex := s.prefetchIndex + 1 } : PreReadState n R).readers k = phase
        from setReader_self s k phase] at hk
      rcases hphase with rfl | rfl <;> cases hk
    · exact h.awake hj k i ((setReader_of_ne s hkr phase).symm.trans hk)

/-- What a thread read goes into the cache, or is dropped. -/
theorem Sound.store (h : Sound files S s) (hinj : Function.Injective fun i => (files i).relativePath) {i : Fin n}
    {data : Bytes} (hr : s.readers r = .storing i data) :
    Sound files S { s.setReader r .top with cache := s.cache.store (files i).relativePath data } := by
  have hheld : (s.readers r).held = some i := by rw [hr]; rfl
  obtain ⟨hlt, hnew⟩ := h.held r i hheld
  have hdrop : Sound files S (s.setReader r .top) := h.drop rfl
  by_cases hfits : s.cache.bytes + data.length ≤ preReadMaxTotalBytes
  · have hentries : (s.cache.store (files i).relativePath data).entries =
        ((files i).relativePath, data) :: s.cache.entries := by
      rw [IoCache.store, if_pos hfits, IoCache.filter_of_new hnew]
    refine ⟨h.cache.store hnew, fun e he => ?_, fun k j hk => ⟨(hdrop.held k j hk).1, fun hin => ?_⟩, hdrop.apart,
      hdrop.storing, ?_, hdrop.notifying, hdrop.posting, hdrop.posted, hdrop.order, hdrop.finished, hdrop.done,
      hdrop.awake⟩
    · rw [show ({ s.setReader r .top with cache := s.cache.store (files i).relativePath data } :
        PreReadState n R).cache.entries = _ from hentries, List.mem_cons] at he
      rcases he with rfl | he
      · exact ⟨i, hlt, rfl, h.storing r i data hr⟩
      · exact h.cached e he
    · rw [keys, show ({ s.setReader r .top with cache := s.cache.store (files i).relativePath data } :
        PreReadState n R).cache.entries = _ from hentries, List.map_cons, List.mem_cons] at hin
      rcases hin with hsame | hin
      · -- no other thread holds the entry
        have hkr : k ≠ r := by
          rintro rfl
          exact absurd hk (by simp [ReaderPhase.held])
        have hk' : (s.readers k).held = some j := by rwa [← setReader_of_ne s hkr .top]
        exact hkr (h.apart k r j hk' (by rw [hheld, hinj hsame]))
      · exact (hdrop.held k j hk).2 hin
    · have hmove := tally_update ReaderPhase.isReading hr ReaderPhase.top
      have hbound := h.room
      show (s.cache.store (files i).relativePath data).entries.length +
        tally ReaderPhase.isReading (Function.update s.readers r .top) + 1 ≤ _
      rw [hentries, List.length_cons]
      simp only [ReaderPhase.isReading, Bool.toNat_true, Bool.toNat_false] at hmove
      omega
  · rw [IoCache.store, if_neg hfits]
    exact hdrop

/-- The submitter takes out what was read for the entry it has come to. -/
theorem Sound.hit (h : Sound files S s) (hinj : Function.Injective fun i => (files i).relativePath) {data : Bytes}
    (hn : s.next < n) (hfind : s.cache.find (files ⟨_, hn⟩).relativePath = some data) :
    Sound files S { s with cache := s.cache.erase (files ⟨_, hn⟩).relativePath data, submit := .notifying data } := by
  obtain ⟨hsound, hsub, -, hlen⟩ := h.cache.erase hfind
  obtain ⟨a, b, hab, -⟩ := IoCache.find_eq_some hfind
  obtain ⟨i, -, hpath, hstored⟩ := h.cached ((files ⟨_, hn⟩).relativePath, data) (by rw [hab]; simp)
  have hreads : S.Reads (files ⟨_, hn⟩) data := by rwa [hinj hpath] at hstored
  refine ⟨hsound, fun e he => h.cached e (hsub he), fun k j hk => ⟨(h.held k j hk).1, fun hin => (h.held k j hk).2 ?_⟩,
    h.apart, h.storing, ?_, fun d hd => ⟨hn, ?_⟩, fun d hd => (by cases hd), h.posted, h.order, fun hd => (by cases hd),
    ?_, ?_⟩
  · exact List.map_subset _ hsub hin
  · have hbound := h.room
    show (s.cache.erase (files ⟨_, hn⟩).relativePath data).entries.length + tally ReaderPhase.isReading s.readers + 1 ≤
      preReadQueueSize + R
    omega
  · have heq : data = d := SubmitPhase.notifying.inj hd
    exact heq ▸ hreads
  · rintro (hd | hd | hd) <;> cases hd
  · rintro (hd | hd) <;> cases hd

theorem Sound.post (h : Sound files S s) {d : Option Bytes} (hd : s.submit = .posting d) (hn : s.next < n) :
    Sound files S { s with posted := (⟨s.next, hn⟩, d) :: s.posted, next := s.next + 1, submit := .looking } := by
  refine ⟨h.cache, h.cached, h.held, h.apart, h.storing, h.room, fun _ hd => (by cases hd), fun _ hd => (by cases hd),
    fun p hp data hdata => ?_, ?_, fun hd => (by cases hd), ?_, ?_⟩
  · rcases List.mem_cons.1 hp with rfl | hp
    · obtain ⟨_, hreads⟩ := h.posting d hd
      exact hreads data hdata
    · exact h.posted p hp data hdata
  · rw [List.map_cons, h.order, List.range_succ, List.reverse_append]
    rfl
  · rintro (hd | hd | hd) <;> cases hd
  · rintro (hd | hd) <;> cases hd

/-- The submitter moves on with its hands empty. -/
theorem Sound.submit (h : Sound files S s) {phase : SubmitPhase} (hn : ∀ data, phase ≠ .notifying data)
    (hp : ∀ d, phase = .posting d → ∃ hn : s.next < n, ∀ data, d = some data → S.Reads (files ⟨_, hn⟩) data)
    (hover : phase.isOver = true → n ≤ s.next ∨ s.cancelled = true)
    (hdone : phase = .closing ∨ phase = .joining ∨ phase = .joined → s.done = true)
    (hawake : phase = .joining ∨ phase = .joined → ∀ r i, s.readers r ≠ .waiting i) :
    Sound files S { s with submit := phase } :=
  ⟨h.cache, h.cached, h.held, h.apart, h.storing, h.room, fun data hd => absurd hd (hn data), hp, h.posted, h.order,
    hover, hdone, hawake⟩

/-- **Every step keeps the invariant.** -/
theorem Sound.work (h : Sound files S s) (hinj : Function.Injective fun i => (files i).relativePath)
    (hw : Work files S s s') : Sound files S s' := by
  cases hw with
  | enter r hr hgo => exact h.drop rfl
  | leave r hr hstop => exact h.drop rfl
  | claim r hr hi =>
    refine h.claim hinj hr hi _ ?_
    split
    · exact .inl rfl
    · exact .inr rfl
  | exhaust r hr hi =>
    have hdrop : Sound files S (s.setReader r .ended) := h.drop rfl
    refine ⟨hdrop.cache, fun e he => ?_, fun k i hk => ?_, hdrop.apart, hdrop.storing, hdrop.room, hdrop.notifying,
      hdrop.posting, hdrop.posted, hdrop.order, hdrop.finished, hdrop.done, hdrop.awake⟩
    · obtain ⟨i, hlt, hrest⟩ := hdrop.cached e he
      exact ⟨i, Nat.lt_succ_of_lt hlt, hrest⟩
    · exact ⟨Nat.lt_succ_of_lt (hdrop.held k i hk).1, (hdrop.held k i hk).2⟩
  | proceed r hr hroom hgo =>
    exact h.setReader (fun j hj => by rw [hr]; exact hj) (fun _ _ hp => by cases hp) (fun _ => .inr hroom)
      (fun _ _ hp => by cases hp)
  | quit r hr hstop => exact h.drop rfl
  | sleep r hr hfull hgo =>
    refine h.setReader (fun j hj => by rw [hr]; exact hj) (fun _ _ hp => by cases hp) (fun hp => by cases hp)
      (fun hj => ?_)
    have hdone := h.done (hj.elim (fun hj => .inr (.inl hj)) (fun hj => .inr (.inr hj)))
    exact absurd (hgo.2.symm.trans hdone) (by simp)
  | read r hr hdata =>
    refine h.setReader (fun j hj => by rw [hr]; exact hj) (fun i data hp => ?_) (fun _ => .inl (by rw [hr]; rfl))
      (fun _ _ hp => by cases hp)
    cases hp
    exact hdata
  | unread r hr => exact h.drop rfl
  | throw r hr => exact h.drop rfl
  | store r hr => exact h.store hinj hr
  | hit hl hn hc hserved hfind => exact h.hit hinj hn hfind
  | miss hl hn hc hmiss =>
    refine h.submit (fun _ hp => by cases hp) (fun d hp => ⟨hn, fun data hd => ?_⟩) (fun hp => by cases hp) ?_ ?_
    · have hnone : none = d := SubmitPhase.posting.inj hp
      rw [hd] at hnone
      cases hnone
    · rintro (hp | hp | hp) <;> cases hp
    · rintro (hp | hp) <;> cases hp
  | notify hl hone =>
    obtain ⟨hn, hreads⟩ := h.notifying _ hl
    obtain ⟨-, hnext⟩ := hone.submit_eq
    refine (h.notifyOne hone).submit (fun _ hp => by cases hp) (fun d hp => ?_) (fun hp => by cases hp) ?_ ?_
    · obtain rfl := SubmitPhase.posting.inj hp
      refine ⟨hnext ▸ hn, fun data hd => ?_⟩
      obtain rfl := Option.some.inj hd
      simpa only [hnext] using hreads
    · rintro (hp | hp | hp) <;> cases hp
    · rintro (hp | hp) <;> cases hp
  | post hl hn hc => exact h.post hl hn
  | stop hl =>
    refine h.submit (fun _ hp => by cases hp) (fun _ hp => by cases hp) (fun _ => ?_) ?_ ?_
    · rcases hl with ⟨-, hend⟩ | ⟨-, hc⟩
      · exact .inl hend
      · exact .inr hc
    · rintro (hp | hp | hp) <;> cases hp
    · rintro (hp | hp) <;> cases hp
  | close hl =>
    refine ⟨h.cache, h.cached, h.held, h.apart, h.storing, h.room, fun _ hp => (by cases hp),
      fun _ hp => (by cases hp), h.posted, h.order, fun _ => h.finished (by rw [hl]; rfl), fun _ => rfl, ?_⟩
    rintro (hp | hp) <;> cases hp
  | notifyAll hl =>
    have htally : tally ReaderPhase.isReading (fun r => (s.readers r).woken) = tally ReaderPhase.isReading s.readers :=
      tally_map fun phase => by cases phase <;> rfl
    refine ⟨h.cache, h.cached, fun k i hk => h.held k i (by rwa [← ReaderPhase.held_woken]), fun k k' i hk hk' =>
      h.apart k k' i (by rwa [← ReaderPhase.held_woken]) (by rwa [← ReaderPhase.held_woken]), fun k i data hk => ?_, ?_,
      fun _ hp => (by cases hp), fun _ hp => (by cases hp), h.posted, h.order,
      fun _ => h.finished (by rw [hl]; rfl), fun _ => h.done (.inl hl), fun _ k i hk => ?_⟩
    · refine h.storing k i data ?_
      dsimp only at hk
      cases hphase : s.readers k <;> rw [hphase] at hk <;> cases hk
      rfl
    · show s.cache.entries.length + tally ReaderPhase.isReading (fun r => (s.readers r).woken) + 1 ≤ _
      rw [htally]
      exact h.room
    · dsimp only at hk
      cases hphase : s.readers k <;> rw [hphase] at hk <;> cases hk
  | join hl hended =>
    exact h.submit (fun _ hp => by cases hp) (fun _ hp => by cases hp) (fun _ => h.finished (by rw [hl]; rfl))
      (fun _ => h.done (.inr (.inl hl))) (fun _ => h.awake (.inl hl))
  | cancel hc =>
    exact ⟨h.cache, h.cached, h.held, h.apart, h.storing, h.room, h.notifying, h.posting, h.posted, h.order,
      fun _ => .inr rfl, h.done, h.awake⟩

theorem Sound.run (hinj : Function.Injective fun i => (files i).relativePath)
    (hrun : ReflTransGen (Step files S) {} s) : Sound files S s := by
  induction hrun with
  | refl => exact .start files S
  | tail _ hst ih =>
    cases hst with
    | work hw => exact ih.work hinj hw
    | spurious r hr => exact ih.wake hr

end PreReadState

/-! ## The end of a run -/

/-- What a thread still has to do with the entry it is at. -/
@[simp] def ReaderPhase.left {n : Nat} : ReaderPhase n → Nat
  | .ended => 0
  | .claiming => 1
  | .top => 2
  | .storing _ _ => 3
  | .reading _ => 4
  | .waiting _ => 5
  | .checking _ => 6

/-- What the submitter still has to do, its wake-ups included, with `ahead` entries to post. -/
@[simp] def SubmitPhase.left (R ahead : Nat) : SubmitPhase → Nat
  | .looking => 6 * ahead + R + 7
  | .notifying _ => 6 * ahead + R + 6
  | .posting _ => 6 * ahead + R + 4
  | .draining => R + 3
  | .closing => R + 2
  | .joining => 1
  | .joined => 0

namespace PreReadState

variable {n R : Nat} {files : Fin n → SyncFileEntry} {S : Setting} {s s' : PreReadState n R} {r : Fin R}

def effort (s : PreReadState n R) : Nat :=
  ∑ r, (s.readers r).left + 8 * (n - s.prefetchIndex) + s.submit.left R (n - s.next) + (!s.cancelled).toNat

/-- One thread moves. -/
theorem sum_left (s : PreReadState n R) (r : Fin R) (phase : ReaderPhase n) :
    ∑ k, ((s.setReader r phase).readers k).left + (s.readers r).left = ∑ k, (s.readers k).left + phase.left :=
  sum_update ReaderPhase.left s.readers r phase

/-- A thread that has less left, with the rest as it was. -/
theorem effort_setReader {phase : ReaderPhase n} (h : phase.left < (s.readers r).left) :
    (s.setReader r phase).effort < s.effort := by
  have hmove := s.sum_left r phase
  unfold effort
  simp only [show (s.setReader r phase).prefetchIndex = s.prefetchIndex from rfl,
    show (s.setReader r phase).submit = s.submit from rfl, show (s.setReader r phase).next = s.next from rfl,
    show (s.setReader r phase).cancelled = s.cancelled from rfl]
  omega

theorem sum_woken (s : PreReadState n R) : ∑ r, ((s.readers r).woken).left ≤ ∑ r, (s.readers r).left + R := by
  have hone : ∀ r ∈ Finset.univ, ((s.readers r).woken).left ≤ (s.readers r).left + 1 := fun r _ => by
    cases s.readers r <;> simp [ReaderPhase.woken]
  refine (Finset.sum_le_sum hone).trans (le_of_eq ?_)
  rw [Finset.sum_add_distrib, Finset.sum_const, Finset.card_univ, Fintype.card_fin, smul_eq_mul, mul_one]

/-- A wake-up gives at most one thread one step more. -/
theorem NotifyOne.effort_le (hone : NotifyOne s s') : s'.effort ≤ s.effort + 1 := by
  cases hone with
  | @reader r i hr =>
    have hmove := s.sum_left r (.checking i)
    rw [hr] at hmove
    change _ + 5 = _ + 6 at hmove
    show ∑ k, ((s.setReader r (.checking i)).readers k).left + 8 * (n - s.prefetchIndex) +
      s.submit.left R (n - s.next) + (!s.cancelled).toNat ≤ s.effort + 1
    unfold effort
    omega
  | none => exact Nat.le_succ _

/-- **Every step of work leaves less of it.** -/
theorem work_effort (hw : Work files S s s') : s'.effort < s.effort := by
  cases hw with
  | enter r hr hgo => exact effort_setReader (by simp [hr])
  | leave r hr hstop => exact effort_setReader (by simp [hr])
  | claim r hr hi =>
    have hmove := s.sum_left r (if (prefetchSize (files ⟨_, hi⟩)).isSome then .checking ⟨_, hi⟩ else .top)
    have hphase : (if (prefetchSize (files ⟨_, hi⟩)).isSome then .checking ⟨_, hi⟩ else .top :
        ReaderPhase n).left ≤ 6 := by
      split <;> simp
    rw [hr] at hmove
    change _ + 1 = _ at hmove
    unfold effort
    dsimp only [setReader] at hmove ⊢
    omega
  | exhaust r hr hi =>
    have hmove := s.sum_left r .ended
    rw [hr] at hmove
    change _ + 1 = _ + 0 at hmove
    unfold effort
    dsimp only [setReader] at hmove ⊢
    omega
  | proceed r hr hroom hgo => exact effort_setReader (by simp [hr])
  | quit r hr hstop => exact effort_setReader (by simp [hr])
  | sleep r hr hfull hgo => exact effort_setReader (by simp [hr])
  | read r hr hdata => exact effort_setReader (by simp [hr])
  | unread r hr => exact effort_setReader (by simp [hr])
  | throw r hr => exact effort_setReader (by simp [hr])
  | store r hr =>
    have hless : (s.setReader r .top).effort < s.effort := effort_setReader (by simp [hr])
    exact hless
  | hit hl hn hc hserved hfind =>
    simp only [effort, hl, SubmitPhase.left]
    omega
  | miss hl hn hc hmiss =>
    simp only [effort, hl, SubmitPhase.left]
    omega
  | notify hl hone =>
    have hle := hone.effort_le
    obtain ⟨hsubmit, -⟩ := hone.submit_eq
    unfold effort at hle ⊢
    rw [hsubmit, hl] at hle
    rw [hl]
    simp only [SubmitPhase.left] at hle ⊢
    omega
  | post hl hn hc =>
    simp only [effort, hl, SubmitPhase.left]
    omega
  | stop hl =>
    have hlooking : (SubmitPhase.draining).left R (n - s.next) < s.submit.left R (n - s.next) := by
      rcases hl with ⟨hl, -⟩ | ⟨hl | ⟨d, hl⟩, -⟩ <;> simp only [hl, SubmitPhase.left] <;> omega
    unfold effort
    dsimp only
    omega
  | close hl =>
    simp only [effort, hl, SubmitPhase.left]
    omega
  | notifyAll hl =>
    have hwoken := s.sum_woken
    simp only [effort, hl, SubmitPhase.left]
    omega
  | join hl hended =>
    simp only [effort, hl, SubmitPhase.left]
    omega
  | cancel hc =>
    simp only [effort, hc, Bool.not_true, Bool.not_false, Bool.toNat_true, Bool.toNat_false]
    omega

/-- **A run is not stuck before everything is joined**, and needs no cancellation to go on. -/
theorem Sound.goesOn (h : Sound files S s) : s.submit = .joined ∨ ∃ s', Unaided files S s s' := by
  cases hl : s.submit with
  | looking =>
    right
    by_cases hn : s.next < n
    · cases hc : s.cancelled with
      | true => exact ⟨_, .stop (.inr ⟨.inl hl, hc⟩), rfl⟩
      | false =>
        cases hsize : prefetchSize (files ⟨_, hn⟩) with
        | none => exact ⟨_, .miss hl hn hc (.inl hsize), rfl⟩
        | some size =>
          cases hfind : s.cache.find (files ⟨_, hn⟩).relativePath with
          | none => exact ⟨_, .miss hl hn hc (.inr hfind), rfl⟩
          | some data => exact ⟨_, .hit hl hn hc (by rw [hsize]; rfl) hfind, rfl⟩
    · exact ⟨_, .stop (.inl ⟨hl, Nat.le_of_not_lt hn⟩), rfl⟩
  | notifying data =>
    obtain ⟨s', hone⟩ := exists_notifyOne s
    exact .inr ⟨_, .notify hl hone, hone.cancelled_eq⟩
  | posting d =>
    obtain ⟨hn, -⟩ := h.posting d hl
    cases hc : s.cancelled with
    | true => exact .inr ⟨_, .stop (.inr ⟨.inr ⟨d, hl⟩, hc⟩), rfl⟩
    | false => exact .inr ⟨_, .post hl hn hc, rfl⟩
  | draining => exact .inr ⟨_, .close hl, rfl⟩
  | closing => exact .inr ⟨_, .notifyAll hl, rfl⟩
  | joining =>
    right
    by_cases hended : ∀ r, s.readers r = .ended
    · exact ⟨_, .join hl hended, rfl⟩
    · -- every other thread can move: `io_cache_done` is set, and none is asleep
      obtain ⟨r, hr⟩ := not_forall.1 hended
      have hstop : ¬ s.running := fun hgo => absurd (hgo.2.symm.trans (h.done (.inr (.inl hl)))) (by simp)
      cases hphase : s.readers r with
      | top => exact ⟨_, .leave r hphase hstop, rfl⟩
      | claiming =>
        by_cases hi : s.prefetchIndex < n
        · exact ⟨_, .claim r hphase hi, rfl⟩
        · exact ⟨_, .exhaust r hphase (Nat.le_of_not_lt hi), rfl⟩
      | checking i => exact ⟨_, .quit r hphase hstop, rfl⟩
      | waiting i => exact absurd hphase (h.awake (.inl hl) r i)
      | reading i => exact ⟨_, .unread r hphase, rfl⟩
      | storing i data => exact ⟨_, .store r hphase, rfl⟩
      | ended => exact absurd hphase hr
  | joined => exact .inl rfl

end PreReadState

/-! ## What the tasks are given -/

/-- What is read ahead, `prefetch` returns. -/
theorem Setting.Reads.steps {S : Setting} {f : SyncFileEntry} {data : Bytes} (h : S.Reads f data) (slot : Slot) :
    Steps (exec (S.env f.relativePath)) (prefetch f, slot) (.ret (some data), slot) := by
  obtain ⟨size, hsize, hle, rfl⟩ := h
  unfold prefetch
  rw [hsize]
  refine steps_answer (.ok (slice (S.env f.relativePath).source 0 size)) slot ⟨?_, rfl⟩ ?_
  · rw [Nat.zero_add, if_pos hle]
  · exact steps_answer true slot rfl .refl

/-- So it does what is not. -/
theorem prefetch_none_steps (S : Setting) (f : SyncFileEntry) (slot : Slot) :
    Steps (exec (S.env f.relativePath)) (prefetch f, slot) (.ret none, slot) := by
  unfold prefetch
  cases prefetchSize f with
  | none => exact .refl
  | some size =>
    by_cases hle : 0 + size ≤ (S.env f.relativePath).source.length
    · refine steps_answer (.ok (slice (S.env f.relativePath).source 0 size)) slot ⟨?_, rfl⟩ ?_
      · rw [if_pos hle]
      · exact steps_answer false slot rfl .refl
    · refine steps_answer .failed slot ⟨.inr ?_, rfl⟩ .refl
      rw [if_neg hle]

section

variable {n R : Nat} {files : Fin n → SyncFileEntry} {S : Setting} {s : PreReadState n R}

/-- **Reading ahead changes nothing but the time.**  Wherever a run of `R` threads and a submitter stands, whoever is
woken, the cache's count of its bytes is right and within the limit, its entries are at most as many as the queue's
size and the other threads; the tasks posted are those of the plan in its order, each once and each with something that
`prefetch` may return for its line; and from there the submission ends, every thread joined and, unless it was
cancelled, every entry posted, if nobody wakes without being woken for ever; nor does it wait for a cancellation. -/
theorem reads_ahead (hinj : Function.Injective fun i => (files i).relativePath)
    (hrun : ReflTransGen (PreReadState.Step files S) {} s) :
    (s.cache.bytes = (s.cache.entries.map (fun e => e.2.length)).sum ∧ s.cache.bytes ≤ preReadMaxTotalBytes ∧
      s.cache.entries.length < preReadQueueSize + R) ∧
    (s.posted.map (fun p => p.1.val) = (List.range s.next).reverse ∧
      ∀ p ∈ s.posted, ∀ slot, Steps (exec (S.env (files p.1).relativePath)) (prefetch (files p.1), slot)
        (.ret p.2, slot)) ∧
    Terminates (PreReadState.Work files S) (fun s => s.submit = .joined ∧ (n ≤ s.next ∨ s.cancelled = true)) s ∧
    Terminates (PreReadState.Unaided files S) (fun s => s.submit = .joined ∧ (n ≤ s.next ∨ s.cancelled = true)) s := by
  have hsound := PreReadState.Sound.run hinj hrun
  have hends : Acc (fun z y => PreReadState.Work files S y z) s :=
    Subrelation.accessible (fun hw => PreReadState.work_effort hw) ((measure PreReadState.effort).wf.apply s)
  have hgoes : ∀ y, ReflTransGen (PreReadState.Work files S) s y →
      (y.submit = .joined ∧ (n ≤ y.next ∨ y.cancelled = true)) ∨ ∃ z, PreReadState.Unaided files S y z := by
    intro y hy
    have hreach : ReflTransGen (PreReadState.Step files S) {} y :=
      hrun.trans (hy.lift id fun _ _ hw => .work hw)
    have hy := PreReadState.Sound.run hinj hreach
    exact hy.goesOn.imp_left fun hj => ⟨hj, hy.finished (by rw [hj]; rfl)⟩
  refine ⟨⟨hsound.cache.bytes, hsound.cache.limit, ?_⟩, ⟨hsound.order, fun p hp slot => ?_⟩,
    ⟨hends, fun y hy => (hgoes y hy).imp_right fun hgo => hgo.imp fun _ h => h.1⟩,
    ⟨Subrelation.accessible And.left hends, fun y hy => hgoes y (hy.lift id fun _ _ h => h.1)⟩⟩
  · have hroom := hsound.room
    omega
  · cases hdata : p.2 with
    | none => exact prefetch_none_steps S _ slot
    | some data => exact (hsound.posted p hp data hdata).steps slot

end

/-- Two threads and two entries: the first is read before the submitter asks for it, the second too late. -/
theorem reads_ahead_two : ∃ (files : Fin 2 → SyncFileEntry) (S : Setting) (s : PreReadState 2 2),
    s.posted = [(1, none), (0, some [7])] ∧ s.cache.entries = [(['b'], [7])] ∧
    Terminates (PreReadState.Work files S) (fun s => s.submit = .joined ∧ (2 ≤ s.next ∨ s.cancelled = true)) s ∧
    Terminates (PreReadState.Unaided files S) (fun s => s.submit = .joined ∧ (2 ≤ s.next ∨ s.cancelled = true)) s := by
  let files : Fin 2 → SyncFileEntry := fun i =>
    { relativePath := if i = 0 then ['a'] else ['b'], action := .upload, localSize := 1 }
  let S : Setting := ⟨fun _ => some ⟨[7], 0, false⟩, fun _ => 0, fun _ => True, .sound⟩
  have hinj : Function.Injective fun i => (files i).relativePath := by decide
  have hreads : ∀ i, S.Reads (files i) [7] := fun i => ⟨1, rfl, Nat.le_refl _, rfl⟩
  have hstart : ReflTransGen (PreReadState.Step files S) ({} : PreReadState 2 2) {} := .refl
  have hfirst := (hstart.tail (.work (.enter 0 rfl ⟨rfl, rfl⟩))).tail (.work (.claim 0 rfl Nat.two_pos))
  have hsecond := (hfirst.tail (.work (.enter 1 rfl ⟨rfl, rfl⟩))).tail (.work (.claim 1 rfl Nat.one_lt_two))
  have hread := (hsecond.tail (.work (.proceed 0 rfl rfl ⟨rfl, rfl⟩))).tail (.work (.read 0 rfl (hreads 0)))
  have htaken := (hread.tail (.work (.store 0 rfl))).tail (.work (.hit rfl Nat.two_pos rfl rfl rfl))
  have hposted := (htaken.tail (.work (.notify rfl (.none fun r i hr => by
    fin_cases r <;> cases hr)))).tail (.work (.post rfl Nat.two_pos rfl))
  have hmissed := (hposted.tail (.work (.miss rfl Nat.one_lt_two rfl (.inr rfl)))).tail
    (.work (.post rfl Nat.one_lt_two rfl))
  have hlate := (hmissed.tail (.work (.proceed 1 rfl rfl ⟨rfl, rfl⟩))).tail (.work (.read 1 rfl (hreads 1)))
  have hstored := hlate.tail (.work (.store 1 rfl))
  exact ⟨files, S, _, rfl, rfl, (reads_ahead hinj hstored).2.2⟩

end Mito
