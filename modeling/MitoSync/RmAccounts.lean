import MitoSync.Rm
/-!
# RmAccounts — the counters of `rm`

Every key of a listing is counted once at most, as deleted or as failed, and counted deleted only where S3 said so: a
delete of it was acknowledged, or a presence check answered `NotFound` after all its deletes had failed
(`rm_accounts`).  A task is verified alone, on counters of its own; the run's counters are the totals over the tasks,
which no two of them share a key of.
-/
namespace Mito

open Lib Prog

/-! ## What S3 said of a key -/

/-- The key a delete or a presence check was about. -/
def RmEvent.key? : RmEvent → Option Str
  | .presence key _ | .deleted key _ => some key
  | _ => none

/-- What was answered about a key, in order. -/
def history (log : List RmEvent) (key : Str) : List RmEvent := log.filter (fun e => decide (e.key? = some key))

theorem history_append (a b : List RmEvent) (key : Str) : history (a ++ b) key = history a key ++ history b key :=
  List.filter_append ..

/-- The deletes that failed, `n` of them. -/
def refusals (n : Nat) (key : Str) : List RmEvent := List.replicate n (.deleted key false)

theorem refusals_succ (n : Nat) (key : Str) : refusals n key ++ [.deleted key false] = refusals (n + 1) key :=
  (List.replicate_succ').symm

/-- **What confirms a key deleted**: a delete acknowledged after some that were not, or `NotFound` after every delete
had failed. -/
def Confirmed (tries : Nat) (log : List RmEvent) (key : Str) : Prop :=
  (∃ n, history log key = refusals n key ++ [.deleted key true]) ∨
    history log key = refusals tries key ++ [.presence key .notFound]

/-- No delete of the key was acknowledged, and no check missed it. -/
def Doubted (log : List RmEvent) (key : Str) : Prop :=
  .deleted key true ∉ history log key ∧ .presence key .notFound ∉ history log key

theorem Confirmed.of_history {tries : Nat} {log log' : List RmEvent} {key : Str} (h : Confirmed tries log key)
    (hh : history log' key = history log key) : Confirmed tries log' key := by
  unfold Confirmed
  rw [hh]
  exact h

theorem Doubted.of_history {log log' : List RmEvent} {key : Str} (h : Doubted log key)
    (hh : history log' key = history log key) : Doubted log' key := by
  unfold Doubted
  rw [hh]
  exact h

/-- **A doubted key is not confirmed.** -/
theorem Doubted.not_confirmed {tries : Nat} {log : List RmEvent} {key : Str} (h : Doubted log key) :
    ¬ Confirmed tries log key := by
  rintro (⟨n, hc⟩ | hc)
  · exact h.1 (by rw [hc]; exact List.mem_append_right _ List.mem_cons_self)
  · exact h.2 (by rw [hc]; exact List.mem_append_right _ List.mem_cons_self)

theorem doubted_of_refusals {log : List RmEvent} {key : Str} {n : Nat} {rest : List RmEvent}
    (h : history log key = refusals n key ++ rest) (hd : .deleted key true ∉ rest)
    (hp : .presence key .notFound ∉ rest) : Doubted log key := by
  have hn : ∀ e ∈ refusals n key, e = .deleted key false := fun e he => List.eq_of_mem_replicate he
  unfold Doubted
  rw [h]
  constructor
  · intro hm
    rcases List.mem_append.1 hm with hm | hm
    · exact absurd (hn _ hm) (by simp)
    · exact hd hm
  · intro hm
    rcases List.mem_append.1 hm with hm | hm
    · exact absurd (hn _ hm) (by simp)
    · exact hp hm

theorem doubted_of_tried {log : List RmEvent} {key : Str} {n : Nat} (h : history log key = refusals n key) :
    Doubted log key :=
  doubted_of_refusals (h.trans (List.append_nil _).symm) List.not_mem_nil List.not_mem_nil

/-- The answers of one batch, seen from a key. -/
theorem history_deleted {keys : List Str} (hn : keys.Nodup) (f : Str → Bool) (key : Str) :
    history (keys.map (fun k => RmEvent.deleted k (f k))) key = if key ∈ keys then [.deleted key (f key)] else [] := by
  induction keys with
  | nil => rfl
  | cons k keys ih =>
    obtain ⟨hk, hn⟩ := List.nodup_cons.1 hn
    have ih := ih hn
    unfold history at ih ⊢
    rw [List.map_cons, List.filter_cons, ih]
    by_cases hkk : k = key
    · subst hkk
      simp [RmEvent.key?, hk]
    · have hkk' : ¬ key = k := fun h => hkk h.symm
      simp [RmEvent.key?, hkk, hkk']

/-! ## A task's own counters -/

/-- What has been counted of `keys`: `D` as deleted, `F` as failed, and `L` not yet. -/
structure Booked (tries : Nat) (keys D F L : List Str) (w : RmWorld) : Prop where
  parts : (D ++ F ++ L).Perm keys
  deleted : w.deletedCount = D.length
  failed : w.failedCount = F.length
  failedKeys : w.allFailed.Subperm F
  confirmed : ∀ k ∈ D, Confirmed tries w.log k

/-- Every key is counted once at most, and as deleted only where it is confirmed. -/
def Accounted (tries : Nat) (keys : List Str) (w : RmWorld) : Prop := ∃ D F L, Booked tries keys D F L w

/-- All that was tried is counted. -/
structure Settled (tries : Nat) (keys D F : List Str) (w : RmWorld) : Prop where
  booked : Booked tries keys D F [] w
  failedKeys : w.allFailed.Perm F
  doubted : ∀ k ∈ F, Doubted w.log k

/-- A task under way: `D` counted as deleted, `L` to be dealt with, nothing given up. -/
structure Working (tries : Nat) (keys D L : List Str) (w : RmWorld) : Prop where
  parts : (D ++ L).Perm keys
  deleted : w.deletedCount = D.length
  failed : w.failedCount = 0
  failedKeys : w.allFailed = []
  confirmed : ∀ k ∈ D, Confirmed tries w.log k

section Worker

variable {tries : Nat} {keys D L : List Str} {w : RmWorld} {H : RmWorld → Prop}

theorem Working.accounted (h : Working tries keys D L w) : Accounted tries keys w :=
  ⟨D, [], L, by simpa using h.parts, h.deleted, h.failed, by rw [h.failedKeys], h.confirmed⟩

theorem Working.cancel (h : Working tries keys D L w) (r : Bool) : Working tries keys D L { w with cancelled := r } :=
  ⟨h.parts, h.deleted, h.failed, h.failedKeys, h.confirmed⟩

theorem Working.notMem (h : Working tries keys D L w) (hn : keys.Nodup) {k : Str} (hk : k ∈ D) : k ∉ L := fun hl =>
  (List.nodup_append'.1 (h.parts.nodup_iff.2 hn)).2.2 hk hl

theorem Working.nodup (h : Working tries keys D L w) (hn : keys.Nodup) : L.Nodup :=
  (List.nodup_append'.1 (h.parts.nodup_iff.2 hn)).2.1

/-- Answers about keys still to be dealt with change nothing that is counted. -/
theorem Working.logged (h : Working tries keys D L w) (hn : keys.Nodup) {events : List RmEvent}
    (he : ∀ k ∉ L, history events k = []) : Working tries keys D L (w.logged events) where
  parts := h.parts
  deleted := h.deleted
  failed := h.failed
  failedKeys := h.failedKeys
  confirmed k hk := (h.confirmed k hk).of_history (by
    rw [RmWorld.logged, history_append, he k (h.notMem hn hk), List.append_nil])

/-- **Confirmed keys are counted as deleted.** -/
theorem Working.count (h : Working tries keys D L w) {C L' : List Str} (hC : ∀ k ∈ C, Confirmed tries w.log k)
    (hL : (C ++ L').Perm L) :
    Working tries keys (D ++ C) L' { w with deletedCount := w.deletedCount + C.length } where
  parts := by
    rw [List.append_assoc]
    exact (hL.append_left D).trans h.parts
  deleted := by rw [h.deleted, List.length_append]
  failed := h.failed
  failedKeys := h.failedKeys
  confirmed k hk := (List.mem_append.1 hk).elim (h.confirmed k) (hC k)

theorem Working.bytes (h : Working tries keys D L w) (bytes : Bytes64) :
    Working tries keys D L { w with bytesFreed := bytes } :=
  ⟨h.parts, h.deleted, h.failed, h.failedKeys, h.confirmed⟩

theorem Working.settled (h : Working tries keys D [] w) : Settled tries keys D [] w where
  booked := ⟨by simpa using h.parts, h.deleted, h.failed, by rw [h.failedKeys], h.confirmed⟩
  failedKeys := by rw [h.failedKeys]
  doubted k hk := absurd hk List.not_mem_nil

/-- What a worker's program keeps and leaves. -/
abbrev WorkerSpec (tries : Nat) (keys : List Str) (H : RmWorld → Prop) {α : Type} (p : RmWorker α)
    (Q : α → RmWorld → Prop) (w : RmWorld) : Prop := wp rmExec (Accounted tries keys) H p Q w

/-- **Keys given up are counted as failed, and then listed.** -/
theorem bookFailed_spec (h : Working tries keys D L w) (hd : ∀ k ∈ L, Doubted w.log k) :
    WorkerSpec tries keys H (bookFailed L) (fun _ w => ∃ D F, Settled tries keys D F w) w := by
  have hparts : (D ++ L ++ []).Perm keys := by simpa using h.parts
  have hfailed : w.failedCount + L.length = L.length := by rw [h.failed, Nat.zero_add]
  have hempty : w.allFailed.Subperm L := by
    rw [h.failedKeys]
    exact List.nil_subperm
  unfold bookFailed
  refine ⟨h.accounted, ?_⟩
  rintro _ _ rfl
  refine ⟨⟨D, L, [], hparts, h.deleted, hfailed, hempty, h.confirmed⟩, ?_⟩
  rintro _ _ rfl
  have hall : w.allFailed ++ L = L := by rw [h.failedKeys, List.nil_append]
  exact ⟨D, L, ⟨hparts, h.deleted, hfailed, by rw [hall], h.confirmed⟩, by rw [hall], hd⟩

/-! ## A batch -/

/-- **The attempts leave the keys each of them failed to delete.** -/
theorem deleteAttempts_spec (items : List (Str × Int)) (hn : keys.Nodup) : ∀ (n m : Nat) (toDelete : List Str)
    (hadTotalFailure : Bool) (D : List Str) (w : RmWorld), m + n = tries → Working tries keys D toDelete w →
    (∀ k ∈ toDelete, history w.log k = refusals m k) →
    WorkerSpec tries keys H (deleteAttempts items n toDelete hadTotalFailure)
      (fun r w => ∃ D, Working tries keys D r.1 w ∧ ∀ k ∈ r.1, history w.log k = refusals tries k) w
  | 0, m, toDelete, hadTotalFailure, D, w, hm, h, ht => by
    obtain rfl : m = tries := by omega
    exact ⟨D, h, ht⟩
  | n + 1, m, toDelete, hadTotalFailure, D, w, hm, h, ht => by
    unfold deleteAttempts
    split
    · rename_i hempty
      obtain rfl := List.isEmpty_iff.1 hempty
      exact ⟨D, h, fun k hk => absurd hk List.not_mem_nil⟩
    · refine ⟨h.accounted, ?_⟩
      rintro r _ rfl
      have hLn := h.nodup hn
      have hhist : ∀ k, history (attemptEvents toDelete r.failed) k =
          if k ∈ toDelete then [.deleted k (decide (k ∉ r.failed))] else [] := fun k =>
        history_deleted hLn (fun k => decide (k ∉ r.failed)) k
      have h1 : Working tries keys D toDelete (w.logged (attemptEvents toDelete r.failed)) :=
        h.logged hn (fun k hk => by rw [hhist, if_neg hk])
      have hafter : ∀ k ∈ toDelete, history (w.logged (attemptEvents toDelete r.failed)).log k =
          refusals m k ++ [.deleted k (decide (k ∉ r.failed))] := by
        intro k hk
        rw [RmWorld.logged, history_append, ht k hk, hhist, if_pos hk]
      refine ⟨h1.accounted, ?_⟩
      rintro _ _ rfl
      -- what the attempt deleted, and what it reported
      let C := toDelete.filter (fun k => decide (k ∉ r.failed))
      have hreported : (toDelete.filter (fun k => !decide (k ∉ r.failed))).Perm r.failed := by
        refine (List.perm_ext_iff_of_nodup (hLn.filter _) r.nodup).2 fun k => ?_
        rw [List.mem_filter]
        simp only [decide_not, Bool.not_not, decide_eq_true_eq]
        exact ⟨And.right, fun hk => ⟨r.subset k hk, hk⟩⟩
      have hsplit : (C ++ r.failed).Perm toDelete :=
        (hreported.symm.append_left C).trans (List.filter_append_perm _ _)
      have hlen : toDelete.length - r.failed.length = C.length := by
        have := hsplit.length_eq
        rw [List.length_append] at this
        omega
      have hconfirmed : ∀ k ∈ C, Confirmed tries (w.logged (attemptEvents toDelete r.failed)).log k := by
        intro k hk
        obtain ⟨hmem, hnot⟩ := List.mem_filter.1 hk
        exact .inl ⟨m, by rw [hafter k hmem, hnot]⟩
      have h2 := h1.count hconfirmed hsplit
      rw [← hlen] at h2
      refine ⟨h2.accounted, ?_⟩
      rintro _ _ rfl
      refine deleteAttempts_spec items hn n (m + 1) r.failed _ _ _ (by omega) (h2.bytes _) ?_
      intro k hk
      have := hafter k (r.subset k hk)
      rw [decide_eq_false (not_not.2 hk), refusals_succ] at this
      exact this

/-- The keys a verification has been through: `C` confirmed, `S` left, `R` still to come. -/
structure Verifying (tries : Nat) (L C S R : List Str) (w : RmWorld) : Prop where
  parts : (C ++ S ++ R).Perm L
  found : ∀ k ∈ C, Confirmed tries w.log k
  doubted : ∀ k ∈ S, Doubted w.log k
  tried : ∀ k ∈ R, history w.log k = refusals tries k

namespace Verifying

variable {C S R : List Str} {k : Str}

theorem cancel (h : Verifying tries L C S R w) (r : Bool) : Verifying tries L C S R { w with cancelled := r } :=
  ⟨h.parts, h.found, h.doubted, h.tried⟩

theorem leave (h : Verifying tries L C S (k :: R) w) : Verifying tries L C (S ++ [k]) R w where
  parts := by
    refine .trans ?_ h.parts
    simp only [List.append_assoc, List.singleton_append]
    exact .refl _
  found := h.found
  doubted j hj := by
    rcases List.mem_append.1 hj with hj | hj
    · exact h.doubted j hj
    · obtain rfl := List.mem_singleton.1 hj
      exact doubted_of_tried (h.tried j List.mem_cons_self)
  tried j hj := h.tried j (List.mem_cons_of_mem _ hj)

/-- The answer of a check changes what is known of its key alone. -/
theorem checked (h : Verifying tries L C S (k :: R) w) (hn : L.Nodup) (r : S3ObjectPresence) :
    (∀ j, j ≠ k → history (w.logged [.presence k r]).log j = history w.log j) ∧
      history (w.logged [.presence k r]).log k = refusals tries k ++ [.presence k r] ∧
      k ∉ C ∧ k ∉ S ∧ k ∉ R := by
  have hparts := h.parts.nodup_iff.2 hn
  obtain ⟨-, hkR, hdisj⟩ := List.nodup_append'.1 hparts
  have hnot : k ∉ C ++ S := fun hm => hdisj hm List.mem_cons_self
  refine ⟨fun j hj => ?_, ?_, fun hm => hnot (List.mem_append_left _ hm), fun hm => hnot (List.mem_append_right _ hm),
    (List.nodup_cons.1 hkR).1⟩
  · rw [RmWorld.logged, history_append]
    have hkj : ¬ k = j := fun hkj => hj hkj.symm
    simp [history, RmEvent.key?, hkj]
  · rw [RmWorld.logged, history_append, h.tried k List.mem_cons_self]
    simp [history, RmEvent.key?]

theorem confirm (h : Verifying tries L C S (k :: R) w) (hn : L.Nodup) :
    Verifying tries L (C ++ [k]) S R (w.logged [.presence k .notFound]) := by
  obtain ⟨hother, hself, hC, hS, hR⟩ := h.checked hn .notFound
  constructor
  · refine .trans ?_ h.parts
    simp only [List.append_assoc, List.singleton_append]
    exact (List.perm_middle.symm).append_left C
  · intro j hj
    rcases List.mem_append.1 hj with hj | hj
    · exact (h.found j hj).of_history (hother j fun hjk => hC (hjk ▸ hj))
    · obtain rfl := List.mem_singleton.1 hj
      exact .inr hself
  · exact fun j hj => (h.doubted j hj).of_history (hother j fun hjk => hS (hjk ▸ hj))
  · exact fun j hj => (hother j fun hjk => hR (hjk ▸ hj)).trans (h.tried j (List.mem_cons_of_mem _ hj))

theorem doubt (h : Verifying tries L C S (k :: R) w) (hn : L.Nodup) {r : S3ObjectPresence} (hr : r ≠ .notFound) :
    Verifying tries L C (S ++ [k]) R (w.logged [.presence k r]) := by
  obtain ⟨hother, hself, hC, hS, hR⟩ := h.checked hn r
  constructor
  · refine .trans ?_ h.parts
    simp only [List.append_assoc, List.singleton_append]
    exact .refl _
  · exact fun j hj => (h.found j hj).of_history (hother j fun hjk => hC (hjk ▸ hj))
  · intro j hj
    rcases List.mem_append.1 hj with hj | hj
    · exact (h.doubted j hj).of_history (hother j fun hjk => hS (hjk ▸ hj))
    · obtain rfl := List.mem_singleton.1 hj
      exact doubted_of_refusals hself (by simp) (by simpa using hr.symm)
  · exact fun j hj => (hother j fun hjk => hR (hjk ▸ hj)).trans (h.tried j (List.mem_cons_of_mem _ hj))

end Verifying

theorem verifyKeys_spec (items : List (Str × Int)) (hn : keys.Nodup) : ∀ (R : List Str) (v : Verification)
    (C : List Str) (w : RmWorld), Working tries keys D L w → Verifying tries L C v.stillUnverified R w →
    v.confirmedDeleted = C.length →
    WorkerSpec tries keys H (verifyKeys items R v) (fun v w => ∃ C, Working tries keys D L w ∧
      Verifying tries L C v.stillUnverified [] w ∧ v.confirmedDeleted = C.length) w
  | [], v, C, w, h, hv, hc => ⟨C, h, hv, hc⟩
  | k :: R, v, C, w, h, hv, hc => by
    have hk : k ∈ L := hv.parts.subset (by simp)
    have hlogged : ∀ r, Working tries keys D L (w.logged [.presence k r]) := by
      intro r
      refine h.logged hn fun j hj => ?_
      have hkj : ¬ k = j := by rintro rfl; exact hj hk
      simp [history, RmEvent.key?, hkj]
    unfold verifyKeys
    split
    · exact verifyKeys_spec items hn R _ C w h hv.leave hc
    · refine ⟨h.accounted, ?_⟩
      rintro r _ ⟨-, rfl⟩
      cases r with
      | true => exact verifyKeys_spec items hn R _ C _ (h.cancel true) (hv.cancel true).leave hc
      | false =>
        refine ⟨(h.cancel false).accounted, ?_⟩
        rintro r _ rfl
        have h' : Working tries keys D L ({ w with cancelled := false }.logged [.presence k r]) :=
          (hlogged r).cancel false
        cases r with
        | notFound =>
          exact verifyKeys_spec items hn R _ (C ++ [k]) _ h' ((hv.cancel false).confirm (h.nodup hn))
            (by rw [List.length_append, ← hc]; rfl)
        | «exists» => exact verifyKeys_spec items hn R _ C _ h' ((hv.cancel false).doubt (h.nodup hn) (by simp)) hc
        | unknown => exact verifyKeys_spec items hn R _ C _ h' ((hv.cancel false).doubt (h.nodup hn) (by simp)) hc

/-- **What a batch leaves behind is doubted**, verified or not. -/
theorem verifyBatch_spec (items : List (Str × Int)) (hn : keys.Nodup) (hadTotalFailure : Bool)
    (h : Working tries keys D L w) (ht : ∀ k ∈ L, history w.log k = refusals tries k) :
    WorkerSpec tries keys H (verifyBatch items L hadTotalFailure)
      (fun L w => ∃ D, Working tries keys D L w ∧ ∀ k ∈ L, Doubted w.log k) w := by
  unfold verifyBatch
  split
  · exact ⟨D, h, fun k hk => doubted_of_tried (ht k hk)⟩
  · have hv : Verifying tries L [] [] L w := ⟨.refl _, by simp, by simp, ht⟩
    refine wp_bind.2 (wp_mono ?_ (verifyKeys_spec items hn L {} [] w h hv rfl))
    rintro v w' ⟨C, h', hv', hc⟩
    have hsplit : (C ++ v.stillUnverified).Perm L := by simpa using hv'.parts
    have hcount := h'.count hv'.found hsplit
    unfold creditVerified
    split
    · refine ⟨h'.accounted, ?_⟩
      rintro _ _ rfl
      rw [hc]
      refine ⟨hcount.accounted, ?_⟩
      rintro _ _ rfl
      exact ⟨_, hcount.bytes _, hv'.doubted⟩
    · rename_i hz
      obtain rfl : C = [] := List.length_eq_zero_iff.1 (by omega)
      exact ⟨_, hcount, hv'.doubted⟩

theorem processBatch_spec (config : RmConfig) (items : List (Str × Int)) (hn : (items.map Prod.fst).Nodup)
    (h : Working config.tries (items.map Prod.fst) [] (items.map Prod.fst) w)
    (ht : ∀ k ∈ items.map Prod.fst, history w.log k = []) :
    WorkerSpec config.tries (items.map Prod.fst) H (processBatch config items)
      (fun _ w => ∃ D F, Settled config.tries (items.map Prod.fst) D F w) w := by
  unfold processBatch
  refine ⟨h.accounted, ?_⟩
  rintro r _ ⟨-, rfl⟩
  cases r with
  | true =>
    have hdoubted : ∀ k ∈ items.map Prod.fst, Doubted w.log k := fun k hk => doubted_of_tried (n := 0) (ht k hk)
    exact bookFailed_spec (h.cancel true) hdoubted
  | false =>
    have hattempts := deleteAttempts_spec (H := H) items hn config.tries 0 _ false [] _ (Nat.zero_add _) (h.cancel false) ht
    refine (wp_bind (p := deleteAttempts items config.tries (items.map Prod.fst) false)).2 (wp_mono ?_ hattempts)
    rintro ⟨toDelete, hadTotalFailure⟩ w₁ ⟨D₁, h₁, ht₁⟩
    refine wp_bind.2 (wp_mono ?_ (verifyBatch_spec items hn hadTotalFailure h₁ ht₁))
    rintro L w₂ ⟨D₂, h₂, hd₂⟩
    split
    · rename_i hempty
      obtain rfl := List.isEmpty_iff.1 hempty
      exact ⟨D₂, [], h₂.settled⟩
    · exact bookFailed_spec h₂ hd₂

/-! ## One key -/

/-- **The attempts at a key end acknowledged, cancelled or all refused.** -/
theorem tryDelete_spec (key : Str) : ∀ (n m : Nat) (w : RmWorld), m + n = tries → Working tries [key] [] [key] w →
    history w.log key = refusals m key →
    WorkerSpec tries [key] H (tryDelete key n) (fun r w => Working tries [key] [] [key] w ∧ match r with
      | none => ∃ m, history w.log key = refusals m key
      | some true => Confirmed tries w.log key
      | some false => history w.log key = refusals tries key) w
  | 0, m, w, hm, h, ht => by
    obtain rfl : m = tries := by omega
    exact ⟨h, ht⟩
  | n + 1, m, w, hm, h, ht => by
    unfold tryDelete
    refine ⟨h.accounted, ?_⟩
    rintro r _ ⟨-, rfl⟩
    cases r with
    | true => exact ⟨h.cancel true, m, ht⟩
    | false =>
      refine ⟨(h.cancel false).accounted, ?_⟩
      rintro r _ rfl
      have hlogged : Working tries [key] [] [key] ({ w with cancelled := false }.logged [.deleted key r]) := by
        refine (h.cancel false).logged (List.nodup_singleton key) fun j hj => ?_
        have hkj : ¬ key = j := fun hkj => hj (by simp [hkj])
        simp [history, RmEvent.key?, hkj]
      have hhist : history ({ w with cancelled := false }.logged [.deleted key r]).log key =
          refusals m key ++ [.deleted key r] := by
        rw [RmWorld.logged, history_append, ht]
        simp [history, RmEvent.key?]
      cases r with
      | true => exact ⟨hlogged, .inl ⟨m, hhist⟩⟩
      | false =>
        rw [refusals_succ] at hhist
        exact tryDelete_spec key n (m + 1) _ (by omega) hlogged hhist

theorem countDeleted_spec (key : Str) (size : Int) (h : Working tries [key] [] [key] w)
    (hc : Confirmed tries w.log key) :
    WorkerSpec tries [key] H (countDeleted size) (fun _ w => ∃ D F, Settled tries [key] D F w) w := by
  have hC : ∀ k ∈ [key], Confirmed tries w.log k := fun k hk => List.mem_singleton.1 hk ▸ hc
  have hcount : Working tries [key] [key] [] { w with deletedCount := w.deletedCount + 1 } :=
    h.count hC (.refl _)
  unfold countDeleted
  refine ⟨h.accounted, ?_⟩
  rintro _ _ rfl
  refine ⟨hcount.accounted, ?_⟩
  rintro _ _ rfl
  exact ⟨_, _, (hcount.bytes _).settled⟩

theorem deleteOne_spec (config : RmConfig) (key : Str) (size : Int) (h : Working config.tries [key] [] [key] w)
    (ht : history w.log key = []) :
    WorkerSpec config.tries [key] H (deleteOne config key size)
      (fun _ w => ∃ D F, Settled config.tries [key] D F w) w := by
  have hfail : ∀ {w : RmWorld}, Working config.tries [key] [] [key] w → Doubted w.log key →
      WorkerSpec config.tries [key] H (bookFailed [key]) (fun _ w => ∃ D F, Settled config.tries [key] D F w) w :=
    fun h hd => bookFailed_spec h fun k hk => List.mem_singleton.1 hk ▸ hd
  unfold deleteOne
  refine ⟨h.accounted, ?_⟩
  rintro r _ ⟨-, rfl⟩
  cases r with
  | true => exact hfail (h.cancel true) (doubted_of_tried (n := 0) ht)
  | false =>
    have htries := tryDelete_spec (H := H) key config.tries 0 _ (Nat.zero_add _) (h.cancel false) ht
    refine (wp_bind (p := tryDelete key config.tries)).2 (wp_mono ?_ htries)
    rintro (_ | _ | _) w₁ ⟨h₁, ha⟩
    · obtain ⟨m, hm⟩ := ha
      exact hfail h₁ (doubted_of_tried hm)
    · refine ⟨h₁.accounted, ?_⟩
      rintro r _ rfl
      have hlogged : Working config.tries [key] [] [key] (w₁.logged [.presence key r]) := by
        refine h₁.logged (List.nodup_singleton key) fun j hj => ?_
        have hkj : ¬ key = j := fun hkj => hj (by simp [hkj])
        simp [history, RmEvent.key?, hkj]
      have hhist : history (w₁.logged [.presence key r]).log key = refusals config.tries key ++ [.presence key r] := by
        rw [RmWorld.logged, history_append, ha]
        simp [history, RmEvent.key?]
      cases r with
      | notFound => exact countDeleted_spec key size hlogged (.inr hhist)
      | «exists» => exact hfail hlogged (doubted_of_refusals hhist (by simp) (by simp))
      | unknown => exact hfail hlogged (doubted_of_refusals hhist (by simp) (by simp))
    · exact countDeleted_spec key size h₁ ha

end Worker

/-! ## The tasks together -/

/-- What a task may ask: nothing about keys that are not its own. -/
def RmTask.Allowed (task : RmTask) : RmCall → Prop
  | .checkObjectPresence key | .deleteObject key => key ∈ task.keys
  | .deleteObjects keys => ∀ k ∈ keys, k ∈ task.keys
  | .getObjectSize _ | .listObjects _ | .enumerate _ | .counts => False
  | .cancelled | .addDeleted _ | .addBytes _ | .addFailed _ | .insertFailed _ => True

section Asks

variable {task : RmTask}

theorem bookFailed_asks (keys : List Str) : Asks task.Allowed (bookFailed keys) :=
  ⟨trivial, fun _ => ⟨trivial, fun _ => trivial⟩⟩

theorem deleteAttempts_asks (items : List (Str × Int)) : ∀ (n : Nat) (toDelete : List Str) (hadTotalFailure : Bool),
    (∀ k ∈ toDelete, k ∈ task.keys) →
    AsksThen task.Allowed (fun r => ∀ k ∈ r.1, k ∈ task.keys) (deleteAttempts items n toDelete hadTotalFailure)
  | 0, toDelete, hadTotalFailure, h => h
  | n + 1, toDelete, hadTotalFailure, h => by
    unfold deleteAttempts
    split
    · exact h
    · refine ⟨h, fun r => ⟨trivial, fun _ => ⟨trivial, fun _ => ?_⟩⟩⟩
      exact deleteAttempts_asks items n r.failed _ fun k hk => h k (r.subset k hk)

theorem verifyKeys_asks (items : List (Str × Int)) : ∀ (R : List Str) (v : Verification),
    (∀ k ∈ R, k ∈ task.keys) → Asks task.Allowed (verifyKeys items R v)
  | [], v, h => trivial
  | k :: R, v, h => by
    have hR : ∀ j ∈ R, j ∈ task.keys := fun j hj => h j (List.mem_cons_of_mem _ hj)
    unfold verifyKeys
    split
    · exact verifyKeys_asks items R _ hR
    · refine ⟨trivial, fun r => ?_⟩
      cases r with
      | true => exact verifyKeys_asks items R _ hR
      | false =>
        refine ⟨h k List.mem_cons_self, fun r => ?_⟩
        cases r with
        | notFound => exact verifyKeys_asks items R _ hR
        | «exists» => exact verifyKeys_asks items R _ hR
        | unknown => exact verifyKeys_asks items R _ hR

theorem verifyBatch_asks (items : List (Str × Int)) (toDelete : List Str) (hadTotalFailure : Bool)
    (h : ∀ k ∈ toDelete, k ∈ task.keys) : Asks task.Allowed (verifyBatch items toDelete hadTotalFailure) := by
  unfold verifyBatch
  split
  · trivial
  · refine asks_bind (verifyKeys_asks items toDelete {} h) fun v => ?_
    unfold creditVerified
    split
    · exact ⟨trivial, fun _ => ⟨trivial, fun _ => trivial⟩⟩
    · trivial

theorem processBatch_asks (config : RmConfig) (items : List (Str × Int)) :
    Asks (RmTask.Allowed (.batch items)) (processBatch config items) := by
  refine ⟨trivial, fun r => ?_⟩
  cases r with
  | true => exact bookFailed_asks _
  | false =>
    have hattempts : AsksThen (RmTask.Allowed (.batch items)) (fun r => ∀ k ∈ r.1, k ∈ (RmTask.batch items).keys)
        (deleteAttempts items config.tries (items.map Prod.fst) false) :=
      deleteAttempts_asks items config.tries (items.map Prod.fst) false fun k hk => hk
    refine AsksThen.bind (p := deleteAttempts items config.tries (items.map Prod.fst) false) hattempts fun r hr => ?_
    refine asks_bind (verifyBatch_asks items r.1 r.2 hr) fun L => ?_
    split
    · trivial
    · exact bookFailed_asks L

theorem tryDelete_asks (key : Str) (h : key ∈ task.keys) : ∀ n, Asks task.Allowed (tryDelete key n)
  | 0 => trivial
  | n + 1 => by
    refine ⟨trivial, fun r => ?_⟩
    cases r with
    | true => trivial
    | false =>
      refine ⟨h, fun r => ?_⟩
      cases r with
      | true => trivial
      | false => exact tryDelete_asks key h n

theorem deleteOne_asks (config : RmConfig) (key : Str) (size : Int) :
    Asks (RmTask.Allowed (.single key size)) (deleteOne config key size) := by
  have hkey : key ∈ (RmTask.single key size).keys := List.mem_singleton_self key
  have hcount : Asks (RmTask.Allowed (.single key size)) (countDeleted size) :=
    ⟨trivial, fun _ => ⟨trivial, fun _ => trivial⟩⟩
  refine ⟨trivial, fun r => ?_⟩
  cases r with
  | true => exact bookFailed_asks [key]
  | false =>
    refine asks_bind (p := tryDelete key config.tries) (tryDelete_asks key hkey config.tries) fun r => ?_
    match r with
    | none => exact bookFailed_asks [key]
    | some true => exact hcount
    | some false =>
      refine ⟨hkey, fun r => ?_⟩
      cases r with
      | notFound => exact hcount
      | «exists» => exact bookFailed_asks [key]
      | unknown => exact bookFailed_asks [key]

theorem runTask_asks (config : RmConfig) : ∀ task : RmTask, Asks task.Allowed (runTask config task)
  | .batch items => processBatch_asks config items
  | .single key size => deleteOne_asks config key size

end Asks

/-- The keys of the tasks posted. -/
def keysOf (tasks : List RmTask) : List Str := tasks.flatMap RmTask.keys

/-- **The run's counters are the totals of the tasks'**, and its log of a key is that of the task it belongs to. -/
structure RmTotal (all : List Str) (xs : List (RmTask × RmWorld)) (w : RmWorld) : Prop where
  apart : (keysOf (xs.map Prod.fst)).Nodup
  deleted : w.deletedCount = (xs.map (fun x => x.2.deletedCount)).sum
  failed : w.failedCount = (xs.map (fun x => x.2.failedCount)).sum
  failedKeys : w.allFailed.Perm (xs.flatMap (fun x => x.2.allFailed))
  log : ∀ x ∈ xs, ∀ k ∈ x.1.keys, history w.log k = history x.2.log k
  fresh : ∀ k ∈ all, k ∉ keysOf (xs.map Prod.fst) → history w.log k = []
  cancelled : ∀ x ∈ xs, x.2.cancelled = true → w.cancelled = true

section Total

variable {all : List Str} {xs ys : List (RmTask × RmWorld)} {task : RmTask} {a w : RmWorld}

theorem RmTotal.notMem (h : RmTotal all (xs ++ (task, a) :: ys) w) {x : RmTask × RmWorld} (hx : x ∈ xs ∨ x ∈ ys)
    {k : Str} (hk : k ∈ x.1.keys) : k ∉ task.keys := by
  intro hkt
  have hap := h.apart
  simp only [keysOf, List.map_append, List.map_cons, List.flatMap_append, List.flatMap_cons] at hap
  obtain ⟨-, hap2, hdisj⟩ := List.nodup_append'.1 hap
  obtain ⟨-, -, hdisj2⟩ := List.nodup_append'.1 hap2
  rcases hx with hx | hx
  · have hmem : k ∈ (xs.map Prod.fst).flatMap RmTask.keys :=
      List.mem_flatMap.2 ⟨x.1, List.mem_map_of_mem hx, hk⟩
    exact hdisj hmem (List.mem_append_left _ hkt)
  · have hmem : k ∈ (ys.map Prod.fst).flatMap RmTask.keys :=
      List.mem_flatMap.2 ⟨x.1, List.mem_map_of_mem hx, hk⟩
    exact hdisj2 hkt hmem

/-- The same is added to a task's counters and to the run's. -/
structure Adds (keys : List Str) (a a' w w' : RmWorld) (events : List RmEvent) (given : List Str) : Prop where
  deleted : a'.deletedCount + w.deletedCount = a.deletedCount + w'.deletedCount
  failed : a'.failedCount + w.failedCount = a.failedCount + w'.failedCount
  failedKeys : a'.allFailed = a.allFailed ++ given ∧ w'.allFailed = w.allFailed ++ given
  log : a'.log = a.log ++ events ∧ w'.log = w.log ++ events
  own : ∀ e ∈ events, ∀ k, e.key? = some k → k ∈ keys
  cancelled : (a'.cancelled = true → w'.cancelled = true) ∧ (w.cancelled = true → w'.cancelled = true)

theorem Adds.history {keys : List Str} {a' w' : RmWorld} {events : List RmEvent} {given : List Str}
    (h : Adds keys a a' w w' events given) {k : Str} (hk : k ∉ keys) : history w'.log k = history w.log k := by
  have hnil : Mito.history events k = [] := by
    refine List.filter_eq_nil_iff.2 fun e hm hd => ?_
    exact hk (h.own e hm k (of_decide_eq_true hd))
  rw [h.log.2, history_append, hnil, List.append_nil]

/-- **What is added to a share is added to the total.** -/
theorem RmTotal.adds (h : RmTotal all (xs ++ (task, a) :: ys) w) {a' w' : RmWorld} {events : List RmEvent}
    {given : List Str} (hadds : Adds task.keys a a' w w' events given) :
    RmTotal all (xs ++ (task, a') :: ys) w' where
  apart := by simpa using h.apart
  deleted := by
    have hd := h.deleted
    have := hadds.deleted
    simp only [List.map_append, List.map_cons, List.sum_append, List.sum_cons] at hd ⊢
    omega
  failed := by
    have hf := h.failed
    have := hadds.failed
    simp only [List.map_append, List.map_cons, List.sum_append, List.sum_cons] at hf ⊢
    omega
  failedKeys := by
    have hf := h.failedKeys
    simp only [List.flatMap_append, List.flatMap_cons] at hf ⊢
    rw [hadds.failedKeys.1, hadds.failedKeys.2]
    refine (hf.append_right given).trans ?_
    simp only [List.append_assoc]
    exact (List.perm_append_comm.append_left a.allFailed).append_left _
  log := by
    intro x hx k hk
    have hside : x ∈ xs ∨ x ∈ ys → Mito.history w'.log k = Mito.history x.2.log k := by
      intro hx
      rw [hadds.history (h.notMem hx hk)]
      exact h.log x (by rcases hx with hx | hx <;> simp [hx]) k hk
    rcases List.mem_append.1 hx with hx | hx
    · exact hside (.inl hx)
    · rcases List.mem_cons.1 hx with rfl | hx
      · have hown := h.log (task, a) (by simp) k hk
        rw [hadds.log.1, hadds.log.2, history_append, history_append, hown]
      · exact hside (.inr hx)
  fresh := by
    intro k hk hno
    have hno' : k ∉ keysOf ((xs ++ (task, a) :: ys).map Prod.fst) := by simpa using hno
    have hkt : k ∉ task.keys := fun hkt => hno' (List.mem_flatMap.2 ⟨task, by simp, hkt⟩)
    rw [hadds.history hkt, h.fresh k hk hno']
  cancelled := by
    intro x hx hc
    rcases List.mem_append.1 hx with hx | hx
    · exact hadds.cancelled.2 (h.cancelled x (by simp [hx]) hc)
    · rcases List.mem_cons.1 hx with rfl | hx
      · exact hadds.cancelled.1 hc
      · exact hadds.cancelled.2 (h.cancelled x (by simp [hx]) hc)

/-- **A step of a task is a step on its own counters**, and the totals follow. -/
theorem rmShares (all : List Str) : Crew.Shares rmExec rmExec RmTask.Allowed (RmTotal all) where
  work := by
    intro xs task a ys w c r w' h hc he
    have hmine : a.cancelled = true → w.cancelled = true := h.cancelled (task, a) (by simp)
    have hlogged : ∀ events, (∀ e ∈ events, ∀ k, e.key? = some k → k ∈ task.keys) →
        Adds task.keys a (a.logged events) w (w.logged events) events [] := fun events hev =>
      ⟨rfl, rfl, ⟨(List.append_nil _).symm, (List.append_nil _).symm⟩, ⟨rfl, rfl⟩, hev, hmine, id⟩
    have hkeys : a.allFailed = a.allFailed ++ [] ∧ w.allFailed = w.allFailed ++ [] :=
      ⟨(List.append_nil _).symm, (List.append_nil _).symm⟩
    have hlog : a.log = a.log ++ [] ∧ w.log = w.log ++ [] := ⟨(List.append_nil _).symm, (List.append_nil _).symm⟩
    have hown : ∀ e ∈ ([] : List RmEvent), ∀ k, e.key? = some k → k ∈ task.keys := by simp
    cases c with
    | cancelled =>
      obtain ⟨hcancel, rfl⟩ := he
      have hadds : Adds task.keys a { a with cancelled := r } w { w with cancelled := r } [] [] :=
        ⟨rfl, rfl, hkeys, hlog, hown, id, hcancel⟩
      exact ⟨_, ⟨fun ha => hcancel (hmine ha), rfl⟩, h.adds hadds⟩
    | checkObjectPresence key =>
      obtain rfl := he
      refine ⟨_, rfl, h.adds (hlogged _ fun e hm k hk => ?_)⟩
      obtain rfl := List.mem_singleton.1 hm
      exact Option.some.inj hk ▸ hc
    | deleteObject key =>
      obtain rfl := he
      refine ⟨_, rfl, h.adds (hlogged _ fun e hm k hk => ?_)⟩
      obtain rfl := List.mem_singleton.1 hm
      exact Option.some.inj hk ▸ hc
    | deleteObjects keys =>
      obtain rfl := he
      refine ⟨_, rfl, h.adds (hlogged _ fun e hm k hk => ?_)⟩
      obtain ⟨j, hj, rfl⟩ := List.mem_map.1 hm
      exact Option.some.inj hk ▸ hc j hj
    | addDeleted n =>
      obtain rfl := he
      have hd : a.deletedCount + n + w.deletedCount = a.deletedCount + (w.deletedCount + n) := by omega
      have hadds : Adds task.keys a { a with deletedCount := a.deletedCount + n } w
          { w with deletedCount := w.deletedCount + n } [] [] := ⟨hd, rfl, hkeys, hlog, hown, hmine, id⟩
      exact ⟨_, rfl, h.adds hadds⟩
    | addBytes sizes =>
      obtain rfl := he
      have hadds : Adds task.keys a { a with bytesFreed := addSizes a.bytesFreed sizes } w
          { w with bytesFreed := addSizes w.bytesFreed sizes } [] [] := ⟨rfl, rfl, hkeys, hlog, hown, hmine, id⟩
      exact ⟨_, rfl, h.adds hadds⟩
    | addFailed n =>
      obtain rfl := he
      have hf : a.failedCount + n + w.failedCount = a.failedCount + (w.failedCount + n) := by omega
      have hadds : Adds task.keys a { a with failedCount := a.failedCount + n } w
          { w with failedCount := w.failedCount + n } [] [] := ⟨rfl, hf, hkeys, hlog, hown, hmine, id⟩
      exact ⟨_, rfl, h.adds hadds⟩
    | insertFailed keys =>
      obtain rfl := he
      have hadds : Adds task.keys a { a with allFailed := a.allFailed ++ keys } w
          { w with allFailed := w.allFailed ++ keys } [] keys := ⟨rfl, rfl, ⟨rfl, rfl⟩, hlog, hown, hmine, id⟩
      exact ⟨_, rfl, h.adds hadds⟩
    | getObjectSize _ => exact absurd hc id
    | listObjects _ => exact absurd hc id
    | enumerate _ => exact absurd hc id
    | counts => exact absurd hc id

theorem length_flatMap_eq {β : Type} (l : List β) (f : β → List Str) (n : β → Nat) (h : ∀ x ∈ l, n x = (f x).length) :
    (l.map n).sum = (l.flatMap f).length := by
  rw [List.length_flatMap, List.map_congr_left h]

theorem flatMap_subperm {β : Type} {l : List β} {f g : β → List Str} (h : ∀ x ∈ l, (f x).Subperm (g x)) :
    (l.flatMap f).Subperm (l.flatMap g) := by
  induction l with
  | nil => exact List.Subperm.refl []
  | cons x l ih =>
    rw [List.flatMap_cons, List.flatMap_cons]
    exact (h x List.mem_cons_self).append (ih fun y hy => h y (List.mem_cons_of_mem _ hy))

/-- What the tasks' books say, added up. -/
theorem RmTotal.booked {tries : Nat} (h : RmTotal all xs w) {D F L : RmTask × RmWorld → List Str}
    (hb : ∀ x ∈ xs, Booked tries x.1.keys (D x) (F x) (L x) x.2) :
    Booked tries (keysOf (xs.map Prod.fst)) (xs.flatMap D) (xs.flatMap F) (xs.flatMap L) w where
  parts := by
    have hkeys : keysOf (xs.map Prod.fst) = xs.flatMap (fun x => x.1.keys) := by
      rw [keysOf, List.flatMap_map]
    rw [hkeys]
    refine ((List.flatMap_append_perm xs D F).append_right _).trans ?_
    refine (List.flatMap_append_perm xs (fun x => D x ++ F x) L).trans ?_
    exact List.Perm.flatMap_left xs fun x hx => (hb x hx).parts
  deleted := h.deleted.trans (length_flatMap_eq xs D _ fun x hx => (hb x hx).deleted)
  failed := h.failed.trans (length_flatMap_eq xs F _ fun x hx => (hb x hx).failed)
  failedKeys := h.failedKeys.subperm.trans (flatMap_subperm fun x hx => (hb x hx).failedKeys)
  confirmed := by
    intro k hk
    obtain ⟨x, hx, hkx⟩ := List.mem_flatMap.1 hk
    have hmem : k ∈ x.1.keys :=
      (hb x hx).parts.subset (List.mem_append_left _ (List.mem_append_left _ hkx))
    exact ((hb x hx).confirmed k hkx).of_history (h.log x hx k hmem)

theorem RmTotal.accounted {tries : Nat} (h : RmTotal all xs w) (hb : ∀ x ∈ xs, Accounted tries x.1.keys x.2) :
    Accounted tries (keysOf (xs.map Prod.fst)) w := by
  choose! D F L hDFL using hb
  exact ⟨_, _, _, h.booked hDFL⟩

theorem RmTotal.settled {tries : Nat} (h : RmTotal all xs w)
    (hb : ∀ x ∈ xs, ∃ D F, Settled tries x.1.keys D F x.2) :
    ∃ D F, Settled tries (keysOf (xs.map Prod.fst)) D F w := by
  choose! D F hDF using hb
  have hnil : xs.flatMap (fun _ => ([] : List Str)) = [] := by simp
  have hbooked := h.booked fun x hx => (hDF x hx).booked
  rw [hnil] at hbooked
  refine ⟨_, _, hbooked, ?_, ?_⟩
  · exact h.failedKeys.trans (List.Perm.flatMap_left xs fun x hx => (hDF x hx).failedKeys)
  · intro k hk
    obtain ⟨x, hx, hkx⟩ := List.mem_flatMap.1 hk
    have hmem : k ∈ x.1.keys :=
      (hDF x hx).booked.parts.subset (List.mem_append_left _ (List.mem_append_right _ hkx))
    exact ((hDF x hx).doubted k hkx).of_history (h.log x hx k hmem)

/-- A task as it is posted, nothing counted and nothing asked. -/
theorem RmTotal.post (h : RmTotal all xs w) (hap : (keysOf (xs.map Prod.fst) ++ task.keys).Nodup)
    (hall : ∀ k ∈ task.keys, k ∈ all) : RmTotal all (xs ++ [(task, ({} : RmWorld))]) w where
  apart := by
    simpa [keysOf] using hap
  deleted := by simpa using h.deleted
  failed := by simpa using h.failed
  failedKeys := by simpa using h.failedKeys
  log := by
    intro x hx k hk
    rcases List.mem_append.1 hx with hx | hx
    · exact h.log x hx k hk
    · obtain rfl := List.mem_singleton.1 hx
      exact h.fresh k (hall k hk) fun hm => (List.nodup_append'.1 hap).2.2 hm hk
  fresh := by
    intro k hk hno
    refine h.fresh k hk fun hm => hno ?_
    have : keysOf ((xs ++ [(task, ({} : RmWorld))]).map Prod.fst) = keysOf (xs.map Prod.fst) ++ task.keys := by
      simp [keysOf]
    rw [this]
    exact List.mem_append_left _ hm
  cancelled := by
    intro x hx hc
    rcases List.mem_append.1 hx with hx | hx
    · exact h.cancelled x hx hc
    · obtain rfl := List.mem_singleton.1 hx
      exact absurd hc Bool.false_ne_true

end Total

/-! ## The workers of a run -/

/-- Tasks that share no key, and have none that was not listed. -/
def Fit (all : List Str) (tasks : List RmTask) : Prop := (keysOf tasks).Nodup ∧ ∀ k ∈ keysOf tasks, k ∈ all

theorem keysOf_append (a b : List RmTask) : keysOf (a ++ b) = keysOf a ++ keysOf b := List.flatMap_append

theorem Fit.of_prefix {all : List Str} {tasks : List RmTask} (hn : all.Nodup) (h : keysOf tasks <+: all) :
    Fit all tasks := ⟨hn.sublist h.sublist, fun _ hk => h.subset hk⟩

/-- What tasks under way may have done: a cancellation is not taken back, and answers are about their keys. -/
structure RmRely (tasks : List RmTask) (w w' : RmWorld) : Prop where
  cancelled : w.cancelled = true → w'.cancelled = true
  log : ∃ events, w'.log = w.log ++ events ∧ ∀ e ∈ events, ∃ k ∈ keysOf tasks, e.key? = some k

/-- The workers of a run: each asks only about its own keys, and has counters of its own. -/
structure RmLive (tries : Nat) (all : List Str) (ws : List (RmTask × RmWorker Unit)) (w : RmWorld) : Prop where
  asks : ∀ x ∈ ws, Asks x.1.Allowed x.2
  shared : Fit all (ws.map Prod.fst) → Crew.Shared rmExec RmTask.Allowed (RmTotal all)
    (fun task => Accounted tries task.keys) (fun _ _ => False)
    (fun task a => ∃ D F, Settled tries task.keys D F a) ws w

def RmDone (tries : Nat) (all : List Str) (tasks : List RmTask) (w : RmWorld) : Prop :=
  Fit all tasks → ∃ D F, Settled tries (keysOf tasks) D F w

/-- What the poster asks while tasks are under way. -/
def PosterMine : RmCall → Prop
  | .cancelled | .counts => True
  | _ => False

theorem rmExec_cancelled {c : RmCall} {w w' : RmWorld} {r : RmResp c} (h : rmExec c w r w') :
    w.cancelled = true → w'.cancelled = true := by
  cases c with
  | cancelled =>
    obtain ⟨hc, rfl⟩ := h
    exact hc
  | counts =>
    obtain ⟨-, rfl⟩ := h
    exact id
  | getObjectSize | checkObjectPresence | listObjects | enumerate | deleteObject | deleteObjects | addDeleted
  | addBytes | addFailed | insertFailed =>
    obtain rfl := h
    exact id

theorem RmRely.refl (tasks : List RmTask) (w : RmWorld) : RmRely tasks w w :=
  ⟨id, [], (List.append_nil _).symm, by simp⟩

theorem RmRely.trans {tasks : List RmTask} {w₁ w₂ w₃ : RmWorld} (h : RmRely tasks w₁ w₂) (h' : RmRely tasks w₂ w₃) :
    RmRely tasks w₁ w₃ := by
  obtain ⟨hc, a, ha, hka⟩ := h
  obtain ⟨hc', b, hb, hkb⟩ := h'
  refine ⟨hc' ∘ hc, a ++ b, by rw [hb, ha, List.append_assoc], fun e he => ?_⟩
  rcases List.mem_append.1 he with he | he
  · exact hka e he
  · exact hkb e he

/-- **What a task asks is about its keys.** -/
theorem rmExec_rely {task : RmTask} {tasks : List RmTask} (ht : task ∈ tasks) {c : RmCall} (hc : task.Allowed c)
    {w w' : RmWorld} {r : RmResp c} (h : rmExec c w r w') : RmRely tasks w w' := by
  have hmem : ∀ k ∈ task.keys, k ∈ keysOf tasks := fun k hk => List.mem_flatMap.2 ⟨task, ht, hk⟩
  refine ⟨rmExec_cancelled h, ?_⟩
  have hsilent : w'.log = w.log → ∃ events, w'.log = w.log ++ events ∧
      ∀ e ∈ events, ∃ k ∈ keysOf tasks, e.key? = some k := fun hl => ⟨[], by rw [hl, List.append_nil], by simp⟩
  cases c with
  | cancelled =>
    obtain ⟨-, rfl⟩ := h
    exact hsilent rfl
  | checkObjectPresence key =>
    obtain rfl := h
    exact ⟨[_], rfl, fun e he => ⟨key, hmem key hc, by rw [List.mem_singleton.1 he]; rfl⟩⟩
  | deleteObject key =>
    obtain rfl := h
    exact ⟨[_], rfl, fun e he => ⟨key, hmem key hc, by rw [List.mem_singleton.1 he]; rfl⟩⟩
  | deleteObjects keys =>
    obtain rfl := h
    refine ⟨_, rfl, fun e he => ?_⟩
    obtain ⟨k, hk, rfl⟩ := List.mem_map.1 he
    exact ⟨k, hmem k (hc k hk), rfl⟩
  | addDeleted | addBytes | addFailed | insertFailed =>
    obtain rfl := h
    exact hsilent rfl
  | getObjectSize | listObjects | enumerate | counts => exact absurd hc id

/-- **Whatever the poster asks, the tasks ask only about their keys.** -/
theorem rmAsksRule (config : RmConfig) : Crew.Rule rmExec (runTask config) (fun _ => True)
    (fun ws _ => ∀ x ∈ ws, Asks x.1.Allowed x.2) RmRely (fun _ _ => True) where
  refl := RmRely.refl
  trans _ _ _ _ := RmRely.trans
  work := by
    intro a task p b w p' w' h hs
    cases hs with
    | @answer c k _ _ r he =>
      have hp : Asks task.Allowed (.call c k) := h (task, .call c k) (by simp)
      refine ⟨fun x hx => ?_, rmExec_rely (by simp) hp.1 he⟩
      rcases List.mem_append.1 hx with hx | hx
      · exact h x (by simp [hx])
      · rcases List.mem_cons.1 hx with rfl | hx
        · exact hp.2 r
        · exact h x (by simp [hx])
  ask _ _ _ _ _ _ h _ := h
  post := by
    intro ws task w h x hx
    rcases List.mem_append.1 hx with hx | hx
    · exact h x hx
    · obtain rfl := List.mem_singleton.1 hx
      exact runTask_asks config task
  join _ _ _ _ := trivial

theorem runTask_spec {H : RmWorld → Prop} (config : RmConfig) : ∀ task : RmTask, task.keys.Nodup →
    WorkerSpec config.tries task.keys H (runTask config task)
      (fun _ w => ∃ D F, Settled config.tries task.keys D F w) {}
  | .batch items, hn => processBatch_spec config items hn
      ⟨.refl _, rfl, rfl, rfl, by simp⟩ fun _ _ => rfl
  | .single key size, _ => deleteOne_spec config key size ⟨.refl _, rfl, rfl, rfl, by simp⟩ rfl

/-- **The workers keep their books in any order of their steps.** -/
theorem rmRule (config : RmConfig) (all : List Str) :
    Crew.Rule rmExec (runTask config) PosterMine (RmLive config.tries all) RmRely (RmDone config.tries all) where
  refl := RmRely.refl
  trans _ _ _ _ := RmRely.trans
  work := by
    intro a task p b w p' w' h hs
    obtain ⟨hasks, hrely⟩ := (rmAsksRule config).work a task p b w p' w' h.asks hs
    exact ⟨⟨hasks, fun hfit => (h.shared (by simpa using hfit)).work (rmShares all) hs⟩, hrely⟩
  ask := by
    intro c ws w r w' hc h he
    refine ⟨h.asks, fun hfit => ?_⟩
    cases c with
    | cancelled =>
      obtain ⟨hcancel, rfl⟩ := he
      exact (h.shared hfit).carry fun xs ht => ⟨ht.apart, ht.deleted, ht.failed, ht.failedKeys, ht.log, ht.fresh,
        fun x hx hxc => hcancel (ht.cancelled x hx hxc)⟩
    | counts =>
      obtain ⟨-, rfl⟩ := he
      exact h.shared hfit
    | getObjectSize | checkObjectPresence | listObjects | enumerate | deleteObject | deleteObjects | addDeleted
    | addBytes | addFailed | insertFailed => exact absurd hc id
  post := by
    intro ws task w h
    refine ⟨(rmAsksRule config).post ws task w h.asks, fun hfit => ?_⟩
    have hkeys : keysOf ((ws ++ [(task, runTask config task)]).map Prod.fst) =
        keysOf (ws.map Prod.fst) ++ task.keys := by
      simp [keysOf]
    obtain ⟨hn, hall⟩ := hfit
    rw [hkeys] at hn hall
    obtain ⟨hn1, hn2, -⟩ := List.nodup_append'.1 hn
    refine (h.shared ⟨hn1, fun k hk => hall k (List.mem_append_left _ hk)⟩).post ?_ (runTask_asks config task)
      (runTask_spec config task hn2)
    intro xs hxs ht
    exact ht.post (by rw [hxs]; exact hn) fun k hk => hall k (List.mem_append_right _ hk)
  join := by
    intro ws w h hret hfit
    obtain ⟨xs, hxs, ht, hQ⟩ := (h.shared hfit).done hret
    rw [← hxs]
    exact ht.settled hQ

/-! ## The poster -/

/-- The keys a listing names. -/
def listedKeys (effectivePrefix : Str) (entries : List DirectoryEntry) : List Str :=
  entries.map (fun e => effectivePrefix ++ e.relativePath)

section Poster

variable {all : List Str} {tries : Nat} {Done : List RmTask → RmWorld → Prop} {H : Crew.Seen RmTask RmWorld → Prop}

/-- What the poster's program keeps and leaves: it posts listed keys, in their order. -/
abbrev PosterSpec (Done : List RmTask → RmWorld → Prop) (all : List Str) (H : Crew.Seen RmTask RmWorld → Prop) {α : Type} (p : RmPoster α)
    (Q : α → Crew.Seen RmTask RmWorld → Prop) (x : Crew.Seen RmTask RmWorld) : Prop :=
  wp (Crew.PosterExec rmExec RmRely Done) (fun x => keysOf x.posted <+: all) H p Q x

/-- What a read of the flag tells the poster. -/
theorem posterCancelled_spec {x : Crew.Seen RmTask RmWorld} {Q : Bool → Crew.Seen RmTask RmWorld → Prop}
    (hx : keysOf x.posted <+: all)
    (h : ∀ r w, (x.joined = true → ∃ c, w = { x.world with cancelled := c }) →
      (x.world.cancelled = true → r = true) → w.cancelled = r → Q r { x with world := w }) :
    PosterSpec Done all H (posterAsk .cancelled) Q x := by
  refine ⟨hx, ?_⟩
  rintro r _ (_ | _ | _)
  rename_i w w' hj hr he
  obtain ⟨hc, rfl⟩ := he
  exact h r _ (fun hjoined => ⟨r, by rw [hj hjoined]⟩) (fun hcx => hc (hr.cancelled hcx)) rfl

theorem keysOf_isPrefix {a b : List RmTask} (h : a <+: b) : keysOf a <+: keysOf b := by
  obtain ⟨c, rfl⟩ := h
  rw [keysOf_append]
  exact List.prefix_append _ _

/-- **The tasks are posted in order, all of them unless the run is cancelled.** -/
theorem postAll_spec : ∀ (tasks : List RmTask) (x : Crew.Seen RmTask RmWorld),
    keysOf (x.posted ++ tasks) <+: all →
    PosterSpec Done all H (postAll tasks) (fun _ x' => ∃ P, x'.posted = x.posted ++ P ∧ P <+: tasks ∧
      (x.world.cancelled = true → x'.world.cancelled = true) ∧ (x'.world.cancelled = false → P = tasks)) x
  | [], x, _ => ⟨[], (List.append_nil _).symm, List.nil_prefix, id, fun _ => rfl⟩
  | task :: tasks, x, hx => by
    have hkeys : keysOf x.posted <+: all := (keysOf_isPrefix (List.prefix_append _ _)).trans hx
    unfold postAll
    refine wp_bind.2 (posterCancelled_spec hkeys fun r w _ hr hw => ?_)
    cases r with
    | true =>
      refine ⟨[], (List.append_nil _).symm, List.nil_prefix, fun _ => hw, fun h => ?_⟩
      exact absurd (hw.symm.trans h) (by simp)
    | false =>
      refine (wp_bind (p := posterAsk .cancelled)).2 (posterCancelled_spec hkeys fun r' w' _ hr' hw' => ?_)
      cases r' with
      | true =>
        refine ⟨[], (List.append_nil _).symm, List.nil_prefix, fun _ => hw', fun h => ?_⟩
        exact absurd (hw'.symm.trans h) (by simp)
      | false =>
        refine ⟨hkeys, ?_⟩
        rintro _ _ (_ | _ | _)
        rename_i w₂ hrely
        have hx' : keysOf ((x.posted ++ [task]) ++ tasks) <+: all := by simpa using hx
        refine wp_mono ?_ (postAll_spec tasks ⟨x.posted ++ [task], false, w₂⟩ hx')
        rintro _ x' ⟨P, hP, hpre, hmono, hall⟩
        refine ⟨task :: P, by rw [hP]; simp, (List.prefix_cons_inj task).2 hpre, fun hc => ?_, fun hc => ?_⟩
        · exact absurd (hr hc) Bool.false_ne_true
        · rw [hall hc]

/-- The keys of batches, in their order. -/
def batchKeys (batches : List (List (Str × Int))) : List Str := keysOf (batches.map .batch)

theorem batchKeys_concat (batches : List (List (Str × Int))) (batch : List (Str × Int)) :
    batchKeys (batches ++ [batch]) = batchKeys batches ++ batch.map Prod.fst := by
  unfold batchKeys
  rw [List.map_append, keysOf_append]
  simp [keysOf, RmTask.keys]

/-- The last batch, where it holds anything. -/
theorem batchKeys_last (batches : List (List (Str × Int))) (batch : List (Str × Int)) :
    batchKeys (if batch.isEmpty then batches else batches ++ [batch]) = batchKeys batches ++ batch.map Prod.fst := by
  split
  · rename_i h
    obtain rfl := List.isEmpty_iff.1 h
    exact (List.append_nil _).symm
  · exact batchKeys_concat batches batch

/-- **The batches are the listing cut up**, as far as it was read before a cancellation. -/
theorem buildBatches_spec (effectivePrefix : Str) : ∀ (entries : List DirectoryEntry) (batch : List (Str × Int))
    (batches : List (List (Str × Int))) (x : Crew.Seen RmTask RmWorld), keysOf x.posted <+: all →
    PosterSpec Done all H (buildBatches effectivePrefix entries batch batches) (fun r x' => x'.posted = x.posted ∧
      batchKeys r <+: batchKeys batches ++ batch.map Prod.fst ++ listedKeys effectivePrefix entries ∧
      (x.world.cancelled = true → x'.world.cancelled = true) ∧ (x'.world.cancelled = false →
        batchKeys r = batchKeys batches ++ batch.map Prod.fst ++ listedKeys effectivePrefix entries)) x
  | [], batch, batches, x, _ => by
    have hlast := batchKeys_last batches batch
    refine ⟨rfl, ?_, id, fun _ => ?_⟩
    · rw [hlast]
      exact List.prefix_append _ _
    · rw [hlast]
      exact (List.append_nil _).symm
  | entry :: entries, batch, batches, x, hx => by
    unfold buildBatches
    refine wp_bind.2 (posterCancelled_spec hx fun r w _ hr hw => ?_)
    cases r with
    | true =>
      refine ⟨rfl, ?_, fun _ => hw, fun h => absurd (hw.symm.trans h) (by simp)⟩
      rw [batchKeys_last]
      exact List.prefix_append _ _
    | false =>
      have hkeys : listedKeys effectivePrefix (entry :: entries) =
          [effectivePrefix ++ entry.relativePath] ++ listedKeys effectivePrefix entries := rfl
      show PosterSpec Done all H (if (batch ++ [(effectivePrefix ++ entry.relativePath, entry.size)]).length ≥ batchSize
        then buildBatches effectivePrefix entries []
          (batches ++ [batch ++ [(effectivePrefix ++ entry.relativePath, entry.size)]])
        else buildBatches effectivePrefix entries (batch ++ [(effectivePrefix ++ entry.relativePath, entry.size)])
          batches) _ _
      split
      · refine wp_mono ?_ (buildBatches_spec effectivePrefix entries [] _ ⟨x.posted, x.joined, w⟩ hx)
        rintro r' x' ⟨hp, hpre, -, hall⟩
        rw [batchKeys_concat] at hpre hall
        refine ⟨hp, ?_, fun hc => absurd (hr hc) Bool.false_ne_true, fun hc => ?_⟩
        · simpa [hkeys] using hpre
        · simpa [hkeys] using hall hc
      · refine wp_mono ?_ (buildBatches_spec effectivePrefix entries _ batches ⟨x.posted, x.joined, w⟩ hx)
        rintro r' x' ⟨hp, hpre, -, hall⟩
        refine ⟨hp, ?_, fun hc => absurd (hr hc) Bool.false_ne_true, fun hc => ?_⟩
        · simpa [hkeys] using hpre
        · simpa [hkeys] using hall hc

/-- **Batches or single keys, the tasks posted have the listed keys**, the first ones where the run is cancelled. -/
theorem postTasks_spec (config : RmConfig) (effectivePrefix : Str) (entries : List DirectoryEntry)
    (x : Crew.Seen RmTask RmWorld) (hx : x.posted = []) (hall : listedKeys effectivePrefix entries = all) :
    PosterSpec Done all H (postTasks config effectivePrefix entries) (fun _ x' => keysOf x'.posted <+: all ∧
      (x'.world.cancelled = false → keysOf x'.posted = all)) x := by
  have hnil : keysOf x.posted <+: all := by
    rw [hx]
    exact List.nil_prefix
  unfold postTasks
  split
  · refine wp_bind.2 (wp_mono ?_ (buildBatches_spec effectivePrefix entries [] [] x hnil))
    rintro batches x₁ ⟨hp₁, hpre₁, -, hall₁⟩
    have hlisted : batchKeys [] ++ ([] : List (Str × Int)).map Prod.fst ++ listedKeys effectivePrefix entries = all :=
      hall
    rw [hlisted] at hpre₁ hall₁
    rw [hx] at hp₁
    refine wp_mono ?_ (postAll_spec _ x₁ (by rw [hp₁]; exact hpre₁))
    rintro _ x₂ ⟨P, hP, hpre₂, hmono, hall₂⟩
    rw [hp₁, List.nil_append] at hP
    rw [hP]
    refine ⟨(keysOf_isPrefix hpre₂).trans hpre₁, fun hc => ?_⟩
    have hc₁ : x₁.world.cancelled = false := by
      cases h : x₁.world.cancelled with
      | false => rfl
      | true => exact absurd (hmono h) (by simp [hc])
    rw [hall₂ hc]
    exact hall₁ hc₁
  · have hsingle : keysOf (entries.map fun e => RmTask.single (effectivePrefix ++ e.relativePath) e.size) = all := by
      rw [← hall, keysOf, listedKeys, List.flatMap_map, List.map_eq_flatMap]
      rfl
    refine wp_mono ?_ (postAll_spec _ x (by simp [hx, hsingle]))
    rintro _ x₂ ⟨P, hP, hpre₂, -, hall₂⟩
    rw [hx, List.nil_append] at hP
    rw [hP]
    refine ⟨hsingle ▸ keysOf_isPrefix hpre₂, fun hc => ?_⟩
    rw [hall₂ hc, hsingle]

/-- The counters as they stand. -/
def RmWorld.counts (w : RmWorld) : RmCounts := ⟨w.deletedCount, w.failedCount, w.bytesFreed, w.allFailed⟩

/-- What the run returns of its counters. -/
def finalResult (config : RmConfig) (effectivePrefix : Str) (total : Nat) (w : RmWorld) : RmResult :=
  if w.cancelled then judgeCancelled config effectivePrefix total w.counts.result else w.counts.result

theorem RmDone.cancel (tasks : List RmTask) (w : RmWorld) (r : Bool) (h : RmDone tries all tasks w) :
    RmDone tries all tasks { w with cancelled := r } := by
  intro hfit
  obtain ⟨D, F, hs⟩ := h hfit
  exact ⟨D, F, ⟨hs.booked.parts, hs.booked.deleted, hs.booked.failed, hs.booked.failedKeys, hs.booked.confirmed⟩,
    hs.failedKeys, hs.doubted⟩

/-- **The result is made of the counters once every task posted has ended.** -/
theorem deleteListed_spec (config : RmConfig) (effectivePrefix : Str) (entries : List DirectoryEntry)
    (x : Crew.Seen RmTask RmWorld) (hx : x.posted = []) (hall : listedKeys effectivePrefix entries = all)
    (hD : ∀ tasks w r, Done tasks w → Done tasks { w with cancelled := r }) :
    PosterSpec Done all H (deleteListed config effectivePrefix entries) (fun result x =>
      x.joined = true ∧ Done x.posted x.world ∧ keysOf x.posted <+: all ∧
      (x.world.cancelled = false → keysOf x.posted = all) ∧
      result = finalResult config effectivePrefix entries.length x.world) x := by
  unfold deleteListed
  refine wp_bind.2 (wp_mono ?_ (postTasks_spec config effectivePrefix entries x hx hall))
  rintro _ x₁ ⟨hpre, hfull⟩
  refine ⟨hpre, ?_⟩
  rintro _ _ (_ | _ | _)
  rename_i w₁ hrely hdone
  refine ⟨hpre, ?_⟩
  rintro counts _ (_ | _ | _)
  rename_i w₂ w₃ hj hrely₂ he
  obtain rfl := hj rfl
  obtain ⟨rfl, rfl⟩ := he
  refine (wp_bind (p := posterAsk .cancelled)).2 (posterCancelled_spec hpre fun r w₄ hw₄ hr hc => ?_)
  obtain ⟨c, rfl⟩ := hw₄ rfl
  obtain rfl : c = r := hc
  have hposted : c = false → keysOf x₁.posted = all := by
    rintro rfl
    refine hfull ?_
    cases h : x₁.world.cancelled with
    | false => rfl
    | true => exact absurd (hr (hrely.cancelled h)) Bool.false_ne_true
  cases c with
  | true => exact ⟨rfl, hD _ _ true hdone, hpre, hposted, rfl⟩
  | false => exact ⟨rfl, hD _ _ false hdone, hpre, hposted, rfl⟩

end Poster

/-! ## The result -/

/-- A world in which nothing is counted and no listed key was asked about. -/
structure RmWorld.Fresh (all : List Str) (w : RmWorld) : Prop where
  deleted : w.deletedCount = 0
  failed : w.failedCount = 0
  failedKeys : w.allFailed = []
  log : ∀ k ∈ all, history w.log k = []

theorem finalResult_counts (config : RmConfig) (effectivePrefix : Str) (total : Nat) (w : RmWorld) :
    (finalResult config effectivePrefix total w).objectsDeleted = w.deletedCount ∧
      (finalResult config effectivePrefix total w).objectsFailed = w.failedCount ∧
      (finalResult config effectivePrefix total w).failedKeys = w.allFailed := by
  unfold finalResult judgeCancelled
  split
  · simp only
    split <;> exact ⟨rfl, rfl, rfl⟩
  · exact ⟨rfl, rfl, rfl⟩

/-- **A success leaves no failure, and where the run was cancelled nothing undeleted.** -/
theorem finalResult_success {config : RmConfig} {effectivePrefix : Str} {total : Nat} {w : RmWorld}
    (h : (finalResult config effectivePrefix total w).success = true) :
    w.failedCount = 0 ∧ (w.cancelled = true → total ≤ w.deletedCount) := by
  unfold finalResult judgeCancelled at h
  split at h
  · rename_i hc
    simp only at h
    split at h
    · exact absurd h Bool.false_ne_true
    · rename_i hremaining
      have hr : ¬ (total : Int) - w.deletedCount > 0 := hremaining
      exact ⟨eq_of_beq h, fun _ => by omega⟩
  · rename_i hc
    exact ⟨eq_of_beq h, fun hc' => absurd hc' hc⟩

section Accounts

variable {config : RmConfig} {effectivePrefix : Str} {entries : List DirectoryEntry} {w₀ : RmWorld}

theorem rmTotal_fresh {all : List Str} {w : RmWorld} (h : w.Fresh all) : RmTotal all [] w where
  apart := List.nodup_nil
  deleted := h.deleted
  failed := h.failed
  failedKeys := by
    rw [h.failedKeys]
    exact .refl _
  log x hx := absurd hx List.not_mem_nil
  fresh k hk _ := h.log k hk
  cancelled x hx := absurd hx List.not_mem_nil

theorem postAll_asks : ∀ tasks, Asks (Crew.Mine PosterMine) (postAll tasks)
  | [] => trivial
  | task :: tasks => by
    refine ⟨trivial, fun r => ?_⟩
    cases r with
    | true => trivial
    | false =>
      refine ⟨trivial, fun r => ?_⟩
      cases r with
      | true => trivial
      | false => exact ⟨trivial, fun _ => postAll_asks tasks⟩

theorem buildBatches_asks (effectivePrefix : Str) : ∀ entries batch batches,
    Asks (Crew.Mine PosterMine) (buildBatches effectivePrefix entries batch batches)
  | [], _, _ => trivial
  | entry :: entries, batch, batches => by
    refine ⟨trivial, fun r => ?_⟩
    cases r with
    | true => trivial
    | false =>
      show Asks _ (if _ then _ else _)
      split
      · exact buildBatches_asks effectivePrefix entries _ _
      · exact buildBatches_asks effectivePrefix entries _ _

theorem deleteListed_asks (config : RmConfig) (effectivePrefix : Str) (entries : List DirectoryEntry) :
    Asks (Crew.Mine PosterMine) (deleteListed config effectivePrefix entries) := by
  have htasks : Asks (Crew.Mine PosterMine) (postTasks config effectivePrefix entries) := by
    unfold postTasks
    split
    · exact asks_bind (buildBatches_asks effectivePrefix entries [] []) fun _ => postAll_asks _
    · exact postAll_asks _
  refine asks_bind htasks fun _ => ⟨trivial, fun _ => ⟨trivial, fun counts => ⟨trivial, fun r => ?_⟩⟩⟩
  cases r with
  | true => trivial
  | false => trivial

/-- **`rm`'s accounting is exact.**  At every point of every run each listed key is counted once at most, and as deleted
only where it is confirmed.  A result counts as failed exactly the keys it lists, none of them confirmed; without a
cancellation every listed key is counted; and a success means that every listed key is confirmed deleted. -/
theorem rm_accounts (hn : (listedKeys effectivePrefix entries).Nodup)
    (h₀ : w₀.Fresh (listedKeys effectivePrefix entries)) {s : Crew RmCall RmTask RmResp RmResult RmWorld}
    (h : RmSteps config ⟨deleteListed config effectivePrefix entries, [], w₀⟩ s) :
    Accounted config.tries (listedKeys effectivePrefix entries) s.world ∧
      ∀ result, s.poster = .ret result → ∃ D F, (D ++ F).Subperm (listedKeys effectivePrefix entries) ∧
        result.objectsDeleted = D.length ∧ result.objectsFailed = F.length ∧ result.failedKeys.Perm F ∧
        (∀ k ∈ D, Confirmed config.tries s.world.log k) ∧ (∀ k ∈ F, Doubted s.world.log k) ∧
        (s.world.cancelled = false → (D ++ F).Perm (listedKeys effectivePrefix entries)) ∧
        (result.success = true → D.Perm (listedKeys effectivePrefix entries)) := by
  have hlive : RmLive config.tries (listedKeys effectivePrefix entries) [] w₀ :=
    ⟨by simp, fun _ => ⟨[], rfl, rmTotal_fresh h₀, by simp⟩⟩
  have hdone : ∀ tasks w r, RmDone config.tries (listedKeys effectivePrefix entries) tasks w →
      RmDone config.tries (listedKeys effectivePrefix entries) tasks { w with cancelled := r } := RmDone.cancel
  have hspec := deleteListed_spec (H := fun _ => False) config effectivePrefix entries ⟨[], true, w₀⟩ rfl rfl hdone
  obtain ⟨x, hs⟩ := (rmRule config _).sound h hlive (deleteListed_asks config effectivePrefix entries) hspec
  have hposted : keysOf s.posted <+: listedKeys effectivePrefix entries := by
    rw [← hs.posted]
    exact hs.crash (fun _ _ hq => hq.2.2.1) (fun _ hf => hf.elim)
  have hfit := Fit.of_prefix hn hposted
  constructor
  · obtain ⟨xs, hxs, ht, hI⟩ := (hs.live.shared hfit).crash
      (fun task a hq => by
        obtain ⟨D, F, hsettled⟩ := hq
        exact ⟨D, F, [], hsettled.booked⟩) (fun _ _ hf => hf.elim)
    obtain ⟨D, F, L, hb⟩ := ht.accounted hI
    obtain ⟨rest, hrest⟩ := hposted
    refine ⟨D, F, L ++ rest, ?_, hb.deleted, hb.failed, hb.failedKeys, hb.confirmed⟩
    rw [← hrest, ← List.append_assoc]
    have hparts := hb.parts
    rw [hxs] at hparts
    exact hparts.append_right rest
  · intro result hret
    have hwp := hs.wp
    rw [hret] at hwp
    obtain ⟨hj, hdone, -, hfull, rfl⟩ := hwp
    obtain ⟨-, hworld⟩ := hs.joined hj
    rw [hworld] at hdone hfull ⊢
    rw [hs.posted] at hdone hfull
    obtain ⟨D, F, hsettled⟩ := hdone hfit
    have hparts : (D ++ F).Perm (keysOf s.posted) := by simpa using hsettled.booked.parts
    obtain ⟨hdel, hfail, hkeys⟩ := finalResult_counts config effectivePrefix entries.length s.world
    refine ⟨D, F, hparts.subperm.trans hposted.sublist.subperm, hdel.trans hsettled.booked.deleted,
      hfail.trans hsettled.booked.failed, by rw [hkeys]; exact hsettled.failedKeys, hsettled.booked.confirmed,
      hsettled.doubted, fun hc => hfull hc ▸ hparts, fun hsuccess => ?_⟩
    obtain ⟨hzero, htotal⟩ := finalResult_success hsuccess
    obtain rfl : F = [] := List.length_eq_zero_iff.1 (hsettled.booked.failed.symm.trans hzero)
    rw [List.append_nil] at hparts
    cases hc : s.world.cancelled with
    | false => exact hfull hc ▸ hparts
    | true =>
      have hlen : (listedKeys effectivePrefix entries).length ≤ D.length := by
        rw [listedKeys, List.length_map, ← hsettled.booked.deleted]
        exact htotal hc
      exact (hparts.subperm.trans hposted.sublist.subperm).perm_of_length_le hlen

/-! ### A batch of three keys -/

def batchConfig : RmConfig := { force := true, batch := true, maxRetries := 1 }

def threeEntries : List DirectoryEntry := [⟨['a'], 1, 5⟩, ⟨['b'], 2, 5⟩, ⟨['c'], 3, 5⟩]

def threeItems : List (Str × Int) := [(['a'], 1), (['b'], 2), (['c'], 3)]

/-- The first attempt deletes `a`, the second nothing, and the checks miss `b` and find `c`. -/
theorem processBatch_three : ∃ w, Prog.Steps rmExec (processBatch batchConfig threeItems, ({} : RmWorld)) (.ret (), w) ∧
    w.counts.result.success = false ∧ w.deletedCount = 2 ∧ w.failedCount = 1 ∧ w.allFailed = [['c']] ∧
    w.cancelled = false := by
  have hcancelled : ∀ w : RmWorld, w.cancelled = false → rmExec .cancelled w false w := fun w h =>
    ⟨fun hc => absurd (h.symm.trans hc) (by simp), by rw [← h]⟩
  let bc : FailedKeys [['a'], ['b'], ['c']] := ⟨[['b'], ['c']], by decide, by decide⟩
  let both : FailedKeys [['b'], ['c']] := ⟨[['b'], ['c']], by decide, by decide⟩
  refine ⟨?w, ?run, ?success, ?deleted, ?failed, ?keys, ?cancelled⟩
  case run =>
    refine steps_answer false _ (hcancelled _ rfl) ?_
    refine steps_answer bc _ rfl ?_
    refine steps_answer () _ rfl (steps_answer () _ rfl ?_)
    refine steps_answer both _ rfl ?_
    refine steps_answer () _ rfl (steps_answer () _ rfl ?_)
    refine steps_answer false _ (hcancelled _ rfl) (steps_answer .notFound _ rfl ?_)
    refine steps_answer false _ (hcancelled _ rfl) (steps_answer .exists _ rfl ?_)
    refine steps_answer () _ rfl (steps_answer () _ rfl ?_)
    refine steps_answer () _ rfl (steps_answer () _ rfl ?_)
    exact .refl
  case success => rfl
  case deleted => rfl
  case failed => rfl
  case keys => rfl
  case cancelled => rfl

theorem rm_accounts_batch : ∃ (s : Crew RmCall RmTask RmResp RmResult RmWorld) (result : RmResult) (D F : List Str),
    RmSteps batchConfig ⟨deleteListed batchConfig [] threeEntries, [], {}⟩ s ∧ s.poster = .ret result ∧
      result.success = false ∧ result.objectsDeleted = 2 ∧ result.failedKeys = [['c']] ∧
      (D ++ F).Perm [['a'], ['b'], ['c']] ∧ D.length = 2 ∧ F = [['c']] ∧
      (∀ k ∈ D, Confirmed 2 s.world.log k) ∧ ∀ k ∈ F, Doubted s.world.log k := by
  obtain ⟨w, hwork, hsuccess, hdeleted, hfailed, hkeys, hnot⟩ := processBatch_three
  have hcancelled : rmExec .cancelled w false w := ⟨fun hc => absurd (hnot.symm.trans hc) (by simp), by rw [← hnot]⟩
  have hgo : rmExec .cancelled {} false {} := ⟨nofun, rfl⟩
  have hrun : RmSteps batchConfig ⟨deleteListed batchConfig [] threeEntries, [], {}⟩
      ⟨.ret w.counts.result, [(.batch threeItems, .ret ())], w⟩ := by
    refine .head (.ask hgo) (.head (.ask hgo) (.head (.ask hgo) ?_))
    refine .head (.ask hgo) (.head (.ask hgo) ?_)
    refine .head .post ?_
    refine .trans (Crew.steps_work _ _ (a := []) (b := []) hwork) ?_
    refine .head (.join (by simp)) ?_
    refine .head (.ask (r := w.counts) ⟨rfl, rfl⟩) ?_
    refine .head (.ask hcancelled) ?_
    exact .refl
  obtain ⟨-, haccounts⟩ := rm_accounts (by decide) ⟨rfl, rfl, rfl, fun _ _ => rfl⟩ hrun
  obtain ⟨D, F, -, hdel, -, hF, hconfirmed, hdoubted, hall, -⟩ := haccounts _ rfl
  have hF' : F = [['c']] := by
    have hperm : [['c']].Perm F := hkeys ▸ hF
    exact List.perm_singleton.1 hperm.symm
  exact ⟨_, _, D, F, hrun, rfl, hsuccess, hdeleted, hkeys, hall hnot, hdel.symm.trans hdeleted, hF', hconfirmed, hdoubted⟩

end Accounts

end Mito
