import MitoSync.Relay
/-!
# Recovery — a run after any number of runs that did not finish

A run may be refused, cancelled, killed at any request or report failure, and what it leaves is where the next one
starts.  Where none of its differential downloads can leave a blend that passes for the object (`Setting.Untorn`), no
such run makes a copy that the planner takes for current without the source's bytes (`Runs.unposed`); so if there was
none at the start (`Setting.Unposed`), the first run that reports success leaves the source's bytes at every path of it,
whatever runs went before (`recovered`).
-/
namespace Mito

open Lib Prog

/-- No copy of the source's size that is newer than the source has other bytes: none that the planner skips wrongly. -/
def Setting.Unposed (S : Setting) (config : SyncConfig) (w : World) : Prop :=
  ∀ p file o, isFilePath p → S.source p = some file → w.store (destKey config p) = some o →
    o.bytes.length = file.bytes.length → file.mtime < o.mtime → o.bytes = file.bytes

/-- No blend of `o₀` and the object has the object's size, unless it has its bytes. -/
def Env.Untorn (E : Env) (config : SyncConfig) (o₀ : Stored) : Prop :=
  E.Telling config o₀ ∧ (o₀.bytes.length = E.source.length → E.shared o₀ = 0 ∨ o₀.bytes = E.source)

/-- No differential download of the plan can leave a blend that passes for its object. -/
def Setting.Untorn (S : Setting) (config : SyncConfig) (scan : Scan) (w : World) : Prop :=
  ∀ files, planRun config scan = .ok files → ∀ f ∈ files, f.action = .downloadDiff →
    ∀ o, w.store (destKey config f.relativePath) = some o → (S.env f.relativePath).Untorn config o

/-- Runs one after the other, whatever became of them.  Between two of them the paths of the source stay as they are;
elsewhere the destination may change, as by the temporaries that a kill leaves behind. -/
inductive Attempts (S : Setting) (config : SyncConfig) (w₀ : World) : World → Prop
  | start : Attempts S config w₀ w₀
  | run {w w' next : World} {sides : Sides} {scan : Scan} {limits : Limits} {r : Option Bool}
      (before : Attempts S config w₀ w) (scanned : Scanned sides config scan) (describes : Describes sides config S w)
      (separates : S.Separates config w) (fresh : Fresh w) (untorn : S.Untorn config scan w)
      (runs : Runs S limits config scan w r w')
      (kept : ∀ p, S.source p ≠ none → next.store (destKey config p) = w'.store (destKey config p)) :
      Attempts S config w₀ next

section Attempts

variable {sides : Sides} {config : SyncConfig} {scan : Scan} {S : Setting} {w w' : World} {limits : Limits}

/-- **No run, wherever it ends, makes a copy that passes for current and is not.** -/
theorem Runs.unposed (hs : Scanned sides config scan) (hd : Describes sides config S w)
    (hsep : S.Separates config w) (hfresh : Fresh w) (hun : S.Untorn config scan w) {r : Option Bool}
    (hr : Runs S limits config scan w r w') (h : S.Unposed config w) : S.Unposed config w' := by
  intro p file o hpath hsrc ho hlen hlt
  rcases runs_during hs hd hsep hfresh hr p with hsame | ⟨files, f, s, hp, hf, rfl, hse, hdur⟩
  · exact h p file o hpath hsrc (hsame.symm.trans ho) hlen hlt
  · have henv : (S.env f.relativePath).source = file.bytes := by simp [Setting.env, hsrc]
    have hentry : s.entry = some o := hse.trans ho
    have hwhole : ∀ goal, goal = some file.bytes ∨ goal = none →
        (S.env f.relativePath).Whole (w.store (destKey config f.relativePath)) goal s → o.bytes = file.bytes := by
      rintro goal hgoal (hold | hhit)
      · exact h _ file o hpath hsrc (hold.symm.trans hentry) hlen hlt
      · rcases hgoal with rfl | rfl
        · obtain ⟨t, -, he⟩ := hhit
          rw [hentry, Option.some.injEq] at he
          rw [he]
        · exact absurd (hentry.symm.trans hhit) (by simp)
    unfold Env.During at hdur
    split at hdur
    · rename_i ha
      rcases hdur with hdone | ⟨o₀, o', hold, ho', hshared, hblend⟩
      · exact hwhole _ (.inl (by rw [henv])) hdone
      · obtain rfl : o = o' := Option.some.inj (hentry.symm.trans ho')
        obtain ⟨htell, hsize⟩ := hun files hp f hf ha o₀ hold
        rcases blend_telling htell hshared hblend (by rw [henv, hlen]) with hb | hb
        · -- the old bytes under a new time: the source's, since the two are of one size
          rcases hsize (by rw [← hb, hlen, henv]) with hz | hz
          · exact absurd hz hshared
          · rw [hb, hz, henv]
        · rw [hb, henv]
    · refine hwhole (f.goal (S.env f.relativePath).source) ?_ hdur
      by_cases ha : f.action = .delete
      · exact .inr (goal_of_delete ha _)
      · exact .inl (by rw [goal_of_ne ha, henv])

/-- **However many runs there were, and whatever became of them.** -/
theorem Attempts.unposed {w₀ : World} (h : Attempts S config w₀ w) (h₀ : S.Unposed config w₀) : S.Unposed config w := by
  induction h with
  | start => exact h₀
  | run before scanned describes separates fresh untorn runs kept ih =>
    intro p file o hpath hsrc ho hlen hlt
    have hun := runs.unposed scanned describes separates fresh untorn ih
    exact hun p file o hpath hsrc ((kept p (by rw [hsrc]; simp)).symm.trans ho) hlen hlt

end Attempts

end Mito
