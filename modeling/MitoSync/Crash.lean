import MitoSync.Mirror
/-!
# Crash — what a killed run leaves for the next

Every writer but one goes through a temporary file or a request that is carried out whole, so a kill leaves the old
content or the new.  The differential download patches the live file, and stamps it as it goes: a blend of both that
has the object's size looks current to the next run.  `Telling` is when no such blend arises, and then a kill hides
nothing (`killed_not_skipped`).
-/
namespace Mito

open Lib Prog

/-! ## Blends that cannot pass for the object -/

/-- No blend of `o₀` and the object has the object's size, unless it is the one or the other: the two share no chunk,
so the file is replaced whole; or the file shrinks last of all; or they are of one size and differ in one byte at most;
or the file grows, and its last chunk is written last, being the only one to change or the workers being one. -/
def Env.Telling (E : Env) (config : SyncConfig) (o₀ : Stored) : Prop :=
  E.shared o₀ = 0 ∨ E.source.length < o₀.bytes.length ∨
  (o₀.bytes.length = E.source.length ∧
    ∀ p q : Nat, o₀.bytes[p]? ≠ E.source[p]? → o₀.bytes[q]? ≠ E.source[q]? → p = q) ∨
  (o₀.bytes.length < E.source.length ∧ (config.maxThreads ≤ 1 ∨
    ∀ i, i + 1 = numChunks defaultChunkSize E.source.length →
      ∀ p, p < i * defaultChunkSize → E.source[p]? = some (padded o₀.bytes p)))

theorem parallelChunks_le_one {config : SyncConfig} (h : config.maxThreads ≤ 1) : parallelChunks config ≤ 1 := by
  unfold parallelChunks
  omega

theorem padded_of_lt {b : Bytes} {p : Nat} (h : p < b.length) : some (padded b p) = b[p]? := by
  rw [padded, List.getD_eq_getElem?_getD, List.getElem?_eq_getElem h, Option.getD_some]

variable {E : Env} {config : SyncConfig} {o₀ o : Stored} {todo : List Nat}

/-- **A blend of the object's size is the old content or the object.** -/
theorem blend_telling (ht : E.Telling config o₀) (hs : E.shared o₀ ≠ 0)
    (hb : E.Blend (parallelChunks config ≤ 1) o₀ todo o) (hlen : o.bytes.length = E.source.length) :
    o.bytes = o₀.bytes ∨ o.bytes = E.source := by
  have hleast := hb.least
  have hsource : (∀ p, p < o.bytes.length → AgreesAt E.source o.bytes p) → o.bytes = E.source := by
    intro h
    apply List.ext_getElem?
    intro p
    by_cases hp : p < o.bytes.length
    · exact (h p hp).2
    · rw [List.getElem?_eq_none (by omega), List.getElem?_eq_none (by omega)]
  rcases ht with h | h | ⟨heq, hone⟩ | ⟨hlt, h⟩
  · exact absurd h hs
  · omega
  · refine eq_or_eq_of_mixed (fun p => ?_) hone
    by_cases hp : p < o.bytes.length
    · rcases hb.mixed p hp with h | h
      · exact .inl (h.trans (padded_of_lt (by omega)))
      · exact .inr h.2
    · exact .inl (by rw [List.getElem?_eq_none (by omega), List.getElem?_eq_none (by omega)])
  · refine .inr (hsource fun p hp => ?_)
    rcases h with hsolo | hlast
    · exact hb.serial (parallelChunks_le_one hsolo) (by omega) p hp
    · have hpos : 0 < numChunks defaultChunkSize E.source.length :=
        numChunks_pos defaultChunkSize_pos (by omega)
      obtain ⟨i, hi⟩ : ∃ i, i + 1 = numChunks defaultChunkSize E.source.length := ⟨_, Nat.sub_add_cancel hpos⟩
      by_cases hpi : p < i * defaultChunkSize
      · rcases hb.mixed p hp with h | h
        · exact ⟨by omega, by rw [h, hlast i hi p hpi]⟩
        · exact h
      · exact hb.tail i hi (by omega) p (by omega) hp

/-! ## Every point of a run -/

variable {f : SyncFileEntry} {old : Option Stored} {F : Prop}

theorem Env.Did.during {s : Slot} (h : E.Did f old s) : E.During config f old s := by
  rcases h with h | ⟨-, h, -⟩
  · by_cases ha : f.action = .downloadDiff
    · rw [goal_of_ne (by rw [ha]; simp)] at h
      exact Env.Torn.during ha (.whole (.inr h))
    · exact Env.Whole.during ha (.inr h)
  · exact during_of_eq h

theorem Env.Counted.during {outcome : Outcome} {s : Slot} (h : E.Counted config f old F outcome s) :
    E.During config f old s := by
  cases outcome with
  | done => exact Env.Did.during h
  | failed => exact h.2
  | dropped => exact h.2

section Killed

variable {sides sides' : Sides} {scan scan' : Scan} {S : Setting} {w w' : World} {files files' : List SyncFileEntry}
  {limits : Limits}

theorem executes_during (hs : Scanned sides config scan) (hd : Describes sides config S w) (hsep : S.Separates config w)
    (hfresh : Fresh w) (hp : planRun config scan = .ok files)
    {hn : ((actionable files).map SyncFileEntry.relativePath).Nodup}
    {y : (Fin (actionable files).length → Exec Outcome) × World}
    (hy : Executes S limits config (actionable files) hn w y) (i : Fin (actionable files).length) :
    (S.env ((actionable files).get i).relativePath).During config ((actionable files).get i)
      (w.store (destKey config ((actionable files).get i).relativePath)) (slotOf config (actionable files) i y.2) :=
  Pool.wp_crash
    (I := fun i s => (S.env (actionable files)[i].relativePath).During config (actionable files)[i]
      (w.store (destKey config (actionable files)[i].relativePath)) s)
    (H := fun i s => (S.env (actionable files)[i].relativePath).During config (actionable files)[i]
      (w.store (destKey config (actionable files)[i].relativePath)) s)
    (Q := fun i o s => (S.env (actionable files)[i].relativePath).Counted config (actionable files)[i]
      (w.store (destKey config (actionable files)[i].relativePath)) True o s)
    (fun _ _ h => Env.Counted.during h) (fun _ h => h)
    (line_wp hs hd hsep hfresh hp limits i (fun _ h => h) (fun _ _ h => h) (admits_true _ _) (.inr trivial)) hy

/-- **Wherever a run is killed, a path is as it was or as its line's executor leaves it on the way.** -/
theorem runs_during (hs : Scanned sides config scan) (hd : Describes sides config S w) (hsep : S.Separates config w)
    (hfresh : Fresh w) {r : Option Bool} (hr : Runs S limits config scan w r w') (p : Str) :
    w'.store (destKey config p) = w.store (destKey config p) ∨
      ∃ files f s, planRun config scan = .ok files ∧ f ∈ files ∧ f.relativePath = p ∧
        s.entry = w'.store (destKey config p) ∧ (S.env p).During config f (w.store (destKey config p)) s := by
  have hexec : ∀ {files hn y}, planRun config scan = .ok files →
      Executes S limits config (actionable files) hn w y →
      y.2.store (destKey config p) = w.store (destKey config p) ∨
        ∃ files f s, planRun config scan = .ok files ∧ f ∈ files ∧ f.relativePath = p ∧
          s.entry = y.2.store (destKey config p) ∧ (S.env p).During config f (w.store (destKey config p)) s := by
    intro files hn y hp hy
    by_cases hline : ∃ f ∈ actionable files, f.relativePath = p
    · obtain ⟨f, hf, rfl⟩ := hline
      obtain ⟨n, hlt, rfl⟩ := List.getElem_of_mem hf
      refine .inr ⟨files, _, slotOf config (actionable files) ⟨n, hlt⟩ y.2, hp, List.mem_of_mem_filter hf, rfl, rfl, ?_⟩
      exact executes_during hs hd hsep hfresh hp hy ⟨n, hlt⟩
    · refine .inl (executes_frame hy fun f hf hkey => hline ⟨f, hf, makeS3Key_inj hkey⟩)
  cases hr with
  | refused _ => exact .inl rfl
  | dry _ _ _ => exact .inl rfl
  | running hp _ _ hy => exact hexec hp hy
  | returned hp _ _ hy _ _ => exact hexec hp hy

/-- A path of the source whose destination holds neither what it held nor the source's bytes. -/
def HalfTransferred (S : Setting) (config : SyncConfig) (w w' : World) (p : Str) : Prop :=
  ∃ file, S.source p = some file ∧
    (w'.store (destKey config p)).map Stored.bytes ≠ (w.store (destKey config p)).map Stored.bytes ∧
    (w'.store (destKey config p)).map Stored.bytes ≠ some file.bytes

/-- **A kill hides no half-transferred file**, where no differential download of the plan can make a blend that passes
for its object: whatever point the run is killed at, the next does not skip such a path. -/
theorem killed_not_skipped (hs : Scanned sides config scan) (hd : Describes sides config S w)
    (hsep : S.Separates config w) (hfresh : Fresh w)
    (htell : ∀ files, planRun config scan = .ok files → ∀ f ∈ files, f.action = .downloadDiff →
      ∀ o, w.store (destKey config f.relativePath) = some o → (S.env f.relativePath).Telling config o)
    {r : Option Bool} (hr : Runs S limits config scan w r w') (hs' : Scanned sides' config scan')
    (hd' : Describes sides' config S w') (hp' : planRun config scan' = .ok files') {p : Str}
    (hhalf : HalfTransferred S config w w' p) {g : SyncFileEntry} (hg : g ∈ files') (hgp : g.relativePath = p) :
    g.action ≠ .skip := by
  intro hskip
  subst hgp
  obtain ⟨file, hsrc, hold, hnew⟩ := hhalf
  obtain ⟨file', o, hfile', ho, hlen, -, -⟩ := planned_skip hs' hd' hp' hg hskip
  obtain rfl : file = file' := by rw [hsrc] at hfile'; exact Option.some.inj hfile'
  rcases runs_during hs hd hsep hfresh hr g.relativePath with h | ⟨files, f, s, hp, hf, hfp, hse, hdur⟩
  · exact hold (congrArg _ h)
  · have henv : (S.env g.relativePath).source = file.bytes := by simp [Setting.env, hsrc]
    have hwhole : ∀ goal, goal = some file.bytes ∨ goal = none →
        ¬ (S.env g.relativePath).Whole (w.store (destKey config g.relativePath)) goal s := by
      rintro goal hgoal (h | h)
      · exact hold (by rw [← hse, h])
      · rcases hgoal with rfl | rfl
        · obtain ⟨t, -, he⟩ := h
          exact hnew (by rw [← hse, he]; rfl)
        · rw [← hse, show s.entry = none from h] at ho
          exact absurd ho (by simp)
    unfold Env.During at hdur
    split at hdur
    · rename_i ha
      rcases hdur with h | ⟨o₀, o', hold', ho', hshared, hblend⟩
      · exact hwhole _ (.inl (by rw [henv])) h
      · rw [← hse, ho', Option.some.injEq] at ho
        subst ho
        rcases blend_telling (hfp ▸ htell files hp f hf ha o₀ (by rw [hfp, hold'])) hshared hblend (by rw [henv, hlen])
          with h | h
        · exact hold (by rw [← hse, ho', hold', Option.map_some, Option.map_some, h])
        · exact hnew (by rw [← hse, ho', Option.map_some, h, henv])
    · refine hwhole (f.goal (S.env g.relativePath).source) ?_ hdur
      by_cases ha : f.action = .delete
      · exact .inr (goal_of_delete ha _)
      · exact .inl (by rw [goal_of_ne ha, henv])

end Killed

/-! ## A blend of the object's size -/

def patchLine (localSize localMtime : Int) : SyncFileEntry :=
  { relativePath := ['a'], action := .downloadDiff, localSize := localSize, s3Size := 8388610, localMtime := localMtime }

/-- The first chunk is shared, the second is fetched, and the first of its two bytes is all that is written. -/
theorem patch_steps {old : Bytes} {m : Nat} (hm : old.length = m + 1) (hS : E.source.length = 8388610)
    (hcrc : E.chunkCRC32s E.source = [0, 2]) (hcrc' : E.chunkCRC32s old = [0, 4]) (ht : E.stamp 9)
    (hdata : slice E.source 8388608 2 = [1, 2]) (localSize localMtime : Int) :
    ∃ q off, off = 8388608 ∧ Steps (exec E)
      (processEntry ⟨9, 0⟩ { direction := .download } (patchLine localSize localMtime), { entry := some ⟨old, 1⟩ })
      (q, { entry := some ⟨Lib.pwrite 0 old off [1], 9⟩ }) := by
  have hne : old ≠ [] := by rintro rfl; simp at hm
  have hcrcs : (if 0 < 8388610 ∧ 8388610 ≤ E.source.length then some (E.chunkCRC32s (E.source.take 8388610)) else none) =
      some [0, 2] := by
    rw [if_pos ⟨by omega, by omega⟩, ← hS, List.take_length, hcrc]
  have hoff : 1 * defaultChunkSize = 8388608 := by decide
  have hlen : chunkLen defaultChunkSize (patchLine localSize localMtime).s3Size.toNat 1 = 2 := by
    rw [show (patchLine localSize localMtime).s3Size.toNat = 8388610 from rfl]
    decide
  have hrange : (if 1 * defaultChunkSize + chunkLen defaultChunkSize (patchLine localSize localMtime).s3Size.toNat 1 ≤
      E.source.length then some (slice E.source (1 * defaultChunkSize)
        (chunkLen defaultChunkSize (patchLine localSize localMtime).s3Size.toNat 1)) else none) = some [1, 2] := by
    rw [hoff, hlen, if_pos (by omega), hdata]
  refine ⟨?q, ?off, ?hat, ?run⟩
  case run =>
    refine steps_answer false { entry := some ⟨old, 1⟩ } ⟨by simp, by simp, rfl⟩ ?_
    refine steps_answer false { entry := some ⟨old, 1⟩ } ⟨by simp, by simp, rfl⟩ ?_
    refine steps_answer true { entry := some ⟨old, 1⟩ } ⟨trivial, rfl⟩ ?_
    refine steps_answer (.ok [0, 2]) { entry := some ⟨old, 1⟩ } ⟨hcrcs, rfl⟩ ?_
    refine steps_answer (.ok true) { entry := some ⟨old, 1⟩ } ⟨rfl, rfl⟩ ?_
    refine steps_answer (.ok (m + 1)) { entry := some ⟨old, 1⟩ } ⟨by simp [Slot.content, hm], rfl⟩ ?_
    refine steps_answer (.ok [0, 4]) { entry := some ⟨old, 1⟩ } ⟨by simp [Slot.content, hne, hcrc'], rfl⟩ ?_
    refine steps_answer true { entry := some ⟨old, 1⟩ } ⟨by simp, .inl ⟨by simp, rfl⟩⟩ ?_
    -- the one worker takes chunk 1, fetches it and writes
    refine steps_answer (0 : Fin 1) { entry := some ⟨old, 1⟩ } rfl ?_
    refine steps_answer false { entry := some ⟨old, 1⟩ } ⟨by simp, by simp, rfl⟩ ?_
    refine steps_answer (0 : Fin 1) { entry := some ⟨old, 1⟩ } rfl ?_
    refine steps_answer false { entry := some ⟨old, 1⟩ } ⟨by simp, by simp, rfl⟩ ?_
    refine steps_answer (0 : Fin 1) { entry := some ⟨old, 1⟩ } rfl ?_
    refine steps_answer (.ok [1, 2]) { entry := some ⟨old, 1⟩ } ⟨hrange, rfl⟩ ?_
    rw [hlen]
    refine steps_answer (0 : Fin 1) { entry := some ⟨old, 1⟩ } rfl ?_
    refine steps_answer (.wrote 1) _ ⟨by simp, by decide, by simp, fun _ => ⟨_, rfl, 9, ht, rfl⟩⟩ ?_
    exact .refl
  case hat =>
    rw [hoff, hlen]
    rfl

/-- An object of 8 MiB and two bytes. -/
def patchSetting : Setting where
  source k := if k = ['a'] then some ⟨zeros ++ [1, 2], 5, false⟩ else none
  crc := lastByte
  stamp t := t = 9
  mode := .sound

def fileWorld (b : Bytes) (mtime : Int) : World where
  store k := if k = ['a'] then some ⟨b, mtime⟩ else none
  locals _ := {}

def patchSides (b : Bytes) (mtime : Int) : Sides where
  sourceTree := oneFileTree 0 0
  destTree := oneFileTree b.length mtime
  sourceBucket := oneObjectBucket 'a' ⟨8388610, 5⟩
  destBucket := emptyBucket

def patchScan (b : Bytes) (mtime : Int) : Scan where
  source := { entries := [⟨['a'], 8388610, 5⟩] }
  dest := { entries := [⟨['a'], b.length, mtime⟩] }

theorem patch_scanned (b : Bytes) (mtime : Int) :
    Scanned (patchSides b mtime) { direction := .download } (patchScan b mtime) :=
  ⟨⟨false, oneObjectBucket_lists (by simp) ⟨8388610, 5⟩, by simp⟩, ⟨false, oneFileTree_lists _ _, by simp⟩, by simp [patchScan]⟩

theorem patch_describes {b : Bytes} {mtime : Int} {w : World} (hw : w.store = (fileWorld b mtime).store) :
    Describes (patchSides b mtime) { direction := .download } patchSetting w := by
  constructor
  · intro p i _
    by_cases hp : p = ['a']
    · simp [sourceHas, patchSides, oneObjectBucket, makeS3Key, withSlash, patchSetting, hp, length_zeros,
        defaultChunkSize, eq_comm]
    · simp [sourceHas, patchSides, oneObjectBucket, makeS3Key, withSlash, patchSetting, hp]
  · intro p i _
    refine (oneFileTree_has p i).trans ?_
    by_cases hp : p = ['a'] <;> simp [hw, fileWorld, destKey, destRoot, makeS3Key, withSlash, hp]

theorem planRun_patch {b : Bytes} {mtime : Int} (h : b.length ≠ 8388610 ∨ mtime ≤ 5) :
    planRun { direction := .download } (patchScan b mtime) = .ok [patchLine b.length mtime] := by
  have hrun : planRun { direction := .download } (patchScan b mtime) =
      .ok [sourceLine downloadRoles [⟨['a'], b.length, mtime⟩] ⟨['a'], 8388610, 5⟩] := rfl
  have hinfo : infoMap [⟨['a'], b.length, mtime⟩] ['a'] = some ⟨b.length, mtime⟩ := rfl
  have haction : sourceAction downloadRoles ⟨['a'], 8388610, 5⟩ (some ⟨b.length, mtime⟩) = .downloadDiff := by
    unfold sourceAction
    dsimp only
    by_cases hl : (8388610 : Int) = b.length
    · rw [if_neg (by simpa using hl), if_neg]
      · rfl
      · rw [destinationIsCurrent_iff]
        omega
    · rw [if_pos hl]
      rfl
  rw [hrun, sourceLine, hinfo, haction]
  rfl

/-- A size that matches, with a stamp later than the object's. -/
theorem planRun_patched {b : Bytes} (h : b.length = 8388610) :
    planRun { direction := .download } (patchScan b 9) = .ok [{ patchLine 8388610 9 with action := .skip }] := by
  unfold patchScan
  rw [h]
  rfl

theorem patch_crcs {b : Bytes} (hb : b ≠ []) (hk : b.length ≤ defaultChunkSize) (p : Str) :
    (patchSetting.env p).chunkCRC32s (zeros ++ b) = [0, lastByte b] := lastByte_crcs rfl hb hk

theorem patch_separates {tail : Bytes} (ht : tail = [3, 4] ∨ tail = [3, 0, 4]) :
    patchSetting.Separates { direction := .download } (fileWorld (zeros ++ tail) 1) := by
  intro p file o hfile ho
  simp only [patchSetting, Option.ite_none_right_eq_some, Option.some.injEq] at hfile
  obtain ⟨rfl, rfl⟩ := hfile
  obtain rfl : ⟨zeros ++ tail, 1⟩ = o := Option.some.inj ho
  have htail : tail ≠ [] ∧ tail.length ≤ defaultChunkSize ∧ lastByte tail = 4 := by
    rcases ht with rfl | rfl <;> exact ⟨by simp, by decide, by decide⟩
  refine lastByte_separates rfl (by simp) (by decide) htail.1 htail.2.1 fun h => ?_
  rw [htail.2.2] at h
  exact absurd h (by decide)

/-- The patch, killed after one byte of two. -/
theorem patch_killed {tail : Bytes} (ht : tail = [3, 4] ∨ tail = [3, 0, 4]) :
    ∃ w', Runs patchSetting ⟨9, 0⟩ { direction := .download } (patchScan (zeros ++ tail) 1)
        (fileWorld (zeros ++ tail) 1) none w' ∧ w'.store = (fileWorld (zeros ++ 1 :: tail.tail) 9).store := by
  have htail : tail = 3 :: tail.tail ∧ tail.length ≤ defaultChunkSize ∧ lastByte tail = 4 := by
    rcases ht with rfl | rfl <;> exact ⟨rfl, by decide, by decide⟩
  have hne : tail ≠ [] := by rw [htail.1]; simp
  have hk : defaultChunkSize = 8388608 := rfl
  have hlen : (zeros ++ tail).length = ((zeros ++ tail).length - 1) + 1 := by
    have := List.length_pos_iff.2 hne
    rw [List.length_append]
    omega
  have hsource : (patchSetting.env ['a']).source = zeros ++ [1, 2] := rfl
  have hdata : slice (zeros ++ [1, 2]) 8388608 2 = [1, 2] := by
    unfold slice
    rw [← hk, ← length_zeros, List.drop_left]
    rfl
  obtain ⟨q, off, hoff, hrun⟩ := patch_steps (E := patchSetting.env ['a']) hlen
    (by rw [hsource, List.length_append, length_zeros]; rfl)
    (by rw [hsource]; exact patch_crcs (by simp) (by decide) _)
    (by rw [patch_crcs hne htail.2.1, htail.2.2]) rfl (by rw [hsource, hdata])
    (zeros ++ tail).length 1
  have hp := planRun_patch (b := zeros ++ tail) (.inr (by decide : (1 : Int) ≤ 5))
  obtain ⟨w', hr, hw'⟩ := runs_solo_killed (S := patchSetting) (w := fileWorld (zeros ++ tail) 1) hp rfl rfl hrun
  refine ⟨w', hr, hw'.trans ?_⟩
  have hbytes : Lib.pwrite 0 (zeros ++ tail) off [1] = zeros ++ 1 :: tail.tail := by
    rw [hoff, ← hk, ← length_zeros]
    conv => lhs; rw [htail.1]
    exact pwrite_one 0 zeros 3 1 tail.tail
  funext k
  rw [hbytes]
  by_cases hkey : k = ['a']
  · subst hkey
    simp [fileWorld, destKey, destRoot, makeS3Key, withSlash, patchLine]
  · simp [fileWorld, destKey, destRoot, makeS3Key, withSlash, patchLine, hkey]

theorem patch_half {tail : Bytes} (ht : tail = [3, 4] ∨ tail = [3, 0, 4]) {w' : World}
    (hw' : w'.store = (fileWorld (zeros ++ 1 :: tail.tail) 9).store) :
    HalfTransferred patchSetting { direction := .download } (fileWorld (zeros ++ tail) 1) w' ['a'] := by
  refine ⟨_, rfl, ?_, ?_⟩
  · rw [hw']
    rcases ht with rfl | rfl <;> simp [fileWorld, destKey, destRoot, makeS3Key, withSlash]
  · rw [hw']
    rcases ht with rfl | rfl <;> simp [fileWorld, destKey, destRoot, makeS3Key, withSlash]

/-- Over a longer file the blend is longer than the object, and the next run patches it again. -/
theorem killed_not_skipped_longer :
    ∃ w', Runs patchSetting ⟨9, 0⟩ { direction := .download } (patchScan (zeros ++ [3, 0, 4]) 1)
        (fileWorld (zeros ++ [3, 0, 4]) 1) none w' ∧
      HalfTransferred patchSetting { direction := .download } (fileWorld (zeros ++ [3, 0, 4]) 1) w' ['a'] ∧
      (patchLine (zeros ++ [1, 0, 4]).length 9).action ≠ .skip := by
  have ht : ([3, 0, 4] : Bytes) = [3, 4] ∨ ([3, 0, 4] : Bytes) = [3, 0, 4] := .inr rfl
  have hk : defaultChunkSize = 8388608 := rfl
  have hlen : (zeros ++ [1, 0, 4]).length = 8388611 := by rw [List.length_append, length_zeros]; rfl
  obtain ⟨w', hr, hw'⟩ := patch_killed ht
  have hhalf := patch_half ht hw'
  refine ⟨w', hr, hhalf, ?_⟩
  refine killed_not_skipped (patch_scanned _ _) (patch_describes rfl) (patch_separates ht) (fun _ => ⟨rfl, rfl, rfl⟩)
    (fun files _ f _ _ o ho => .inr (.inl ?_)) hr (patch_scanned _ _) (patch_describes hw')
    (planRun_patch (.inl (by rw [List.tail_cons, hlen]; decide))) hhalf (List.mem_singleton.2 rfl) rfl
  -- whatever line it is, its source is no longer than the object, and the one file of the world is longer
  have hsource : (patchSetting.env f.relativePath).source.length ≤ 8388610 := by
    by_cases hf : f.relativePath = ['a']
    · simp [Setting.env, patchSetting, hf, length_zeros, defaultChunkSize]
    · simp [Setting.env, patchSetting, hf]
  obtain ⟨-, rfl⟩ : _ ∧ ⟨zeros ++ [3, 0, 4], 1⟩ = o := by
    simpa only [fileWorld, Option.ite_none_right_eq_some, Option.some.injEq] using ho
  show _ < (zeros ++ [3, 0, 4]).length
  rw [List.length_append, length_zeros, hk]
  exact Nat.lt_of_le_of_lt hsource (by decide)

/-- Over a file of the object's size the blend is of that size too, and newer: the next run skips it. -/
theorem killed_hidden :
    ¬ ∀ (sides : Sides) (config : SyncConfig) (scan : Scan) (S : Setting) (w : World), Scanned sides config scan →
      Describes sides config S w → S.Separates config w → Fresh w →
      (∀ t p file, S.stamp t → S.source p = some file → file.mtime < t) →
      ∀ (limits : Limits) (r : Option Bool) (w' : World), Runs S limits config scan w r w' →
      ∀ (sides' : Sides) (scan' : Scan) (files' : List SyncFileEntry), Scanned sides' config scan' →
        Describes sides' config S w' → planRun config scan' = .ok files' →
        ∀ p, HalfTransferred S config w w' p → ∀ g ∈ files', g.relativePath = p → g.action ≠ .skip := by
  intro h
  have ht : ([3, 4] : Bytes) = [3, 4] ∨ ([3, 4] : Bytes) = [3, 0, 4] := .inl rfl
  have hlen : (zeros ++ [1, 4]).length = 8388610 := by rw [List.length_append, length_zeros]; rfl
  obtain ⟨w', hr, hw'⟩ := patch_killed ht
  have hclock : ∀ t p file, patchSetting.stamp t → patchSetting.source p = some file → file.mtime < t := by
    intro t p file ht hfile
    obtain rfl : t = 9 := ht
    simp only [patchSetting, Option.ite_none_right_eq_some, Option.some.injEq] at hfile
    rw [← hfile.2]
    decide
  exact h _ _ _ _ _ (patch_scanned _ _) (patch_describes rfl) (patch_separates ht) (fun _ => ⟨rfl, rfl, rfl⟩) hclock _ _ _
    hr _ _ _ (patch_scanned _ _) (patch_describes hw') (planRun_patched hlen) ['a'] (patch_half ht hw') _
    (List.mem_singleton.2 rfl) rfl rfl

end Mito
