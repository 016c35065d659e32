import MitoSync.RmTargets
/-!
# RmGone — what a run of `rm` that gives up no key leaves

A key is gone where a delete of it was acknowledged or a presence check answered `NotFound`.  A task that books no
failure leaves none of its keys, in any order of the tasks and however often its keys are named (`runTask_gone`); so a
run that was not cancelled and counts no failure leaves none of what it planned to delete (`runRm_ends`).
-/
namespace Mito

open Lib Prog

/-- S3 said that the key is not there any more. -/
def Gone (log : List RmEvent) (key : Str) : Prop := .deleted key true ∈ log ∨ .presence key .notFound ∈ log

/-- What every request guarantees: answers stay in the log, and no failure is taken back. -/
structure RmGrows (w w' : RmWorld) : Prop where
  log : ∃ events, w'.log = w.log ++ events
  failed : w.failedCount ≤ w'.failedCount

/-- Of `keys`, those left to deal with. -/
def Leaves (keys L : List Str) (w : RmWorld) : Prop := ∀ k ∈ keys, k ∈ L ∨ Gone w.log k

/-- Nothing was given up, and the keys are gone. -/
def NoneLeft (keys : List Str) (w : RmWorld) : Prop := w.failedCount = 0 → ∀ k ∈ keys, Gone w.log k

section Gone

variable {w w' : RmWorld} {keys L : List Str}

theorem Gone.append {log : List RmEvent} {k : Str} (h : Gone log k) (events : List RmEvent) : Gone (log ++ events) k :=
  h.imp (List.mem_append_left _) (List.mem_append_left _)

theorem Gone.grows {k : Str} (h : Gone w.log k) (hw : RmGrows w w') : Gone w'.log k := by
  obtain ⟨events, hlog⟩ := hw.log
  rw [hlog]
  exact h.append events

theorem Leaves.grows (h : Leaves keys L w) (hw : RmGrows w w') : Leaves keys L w' :=
  fun k hk => (h k hk).imp_right fun hg => hg.grows hw

theorem NoneLeft.grows (h : NoneLeft keys w) (hw : RmGrows w w') : NoneLeft keys w' := by
  intro hf k hk
  have hz : w.failedCount = 0 := by
    have := hw.failed
    omega
  exact (h hz k hk).grows hw

/-- What is left once some keys are seen to be gone. -/
theorem Leaves.narrow {L' : List Str} (h : Leaves keys L w) (hL : ∀ k ∈ L, k ∈ L' ∨ Gone w.log k) :
    Leaves keys L' w := by
  intro k hk
  rcases h k hk with hk | hg
  · exact hL k hk
  · exact .inr hg

theorem Leaves.noneLeft (h : Leaves keys [] w) : NoneLeft keys w :=
  fun _ k hk => (h k hk).resolve_left List.not_mem_nil

end Gone

theorem rmExec_grows {c : RmCall} {w w' : RmWorld} {r : RmResp c} (h : rmExec c w r w') : RmGrows w w' := by
  have hsame : w'.log = w.log → ∃ events, w'.log = w.log ++ events := fun hl => ⟨[], by rw [hl, List.append_nil]⟩
  cases c with
  | cancelled =>
    obtain ⟨-, rfl⟩ := h
    exact ⟨hsame rfl, le_refl _⟩
  | counts =>
    obtain ⟨-, rfl⟩ := h
    exact ⟨hsame rfl, le_refl _⟩
  | getObjectSize | checkObjectPresence | listObjects | enumerate | deleteObject | deleteObjects =>
    obtain rfl := h
    exact ⟨⟨_, rfl⟩, le_refl _⟩
  | addDeleted | addBytes | insertFailed =>
    obtain rfl := h
    exact ⟨hsame rfl, le_refl _⟩
  | addFailed n =>
    obtain rfl := h
    exact ⟨hsame rfl, Nat.le_add_right _ _⟩

theorem rmGuarantee : Crew.Guarantee rmExec RmGrows where
  refl w := ⟨⟨[], (List.append_nil _).symm⟩, le_refl _⟩
  trans w₁ w₂ w₃ h h' := by
    obtain ⟨a, ha⟩ := h.log
    obtain ⟨b, hb⟩ := h'.log
    exact ⟨⟨a ++ b, by rw [hb, ha, List.append_assoc]⟩, h.failed.trans h'.failed⟩
  exec _ _ _ _ := rmExec_grows

/-! ## A task among the others -/

/-- What a task's program leaves, whatever the others do. -/
abbrev TaskSpec {α : Type} (p : RmWorker α) (Q : α → RmWorld → Prop) (w : RmWorld) : Prop :=
  wp (Crew.Guarded rmExec RmGrows) (fun _ => True) (fun _ => True) p Q w

section Task

variable {w : RmWorld} {keys L : List Str}

/-- A request leaves what it adds to the log, and what was left before it. -/
theorem taskAsk_spec {c : RmCall} {Q : RmResp c → RmWorld → Prop} (h : Leaves keys L w)
    (hq : ∀ r w₁ w', RmGrows w w₁ → rmExec c w₁ r w' → Leaves keys L w' → Q r w') : TaskSpec (rmAsk c) Q w := by
  refine ⟨trivial, fun r w' he => ?_⟩
  have hgrows := rmGuarantee.guarded he
  obtain ⟨w₁, hw₁, he⟩ := he
  exact hq r w₁ w' hw₁ he (h.grows hgrows)

/-- **Keys that are given up are counted.** -/
theorem bookFailed_gone (h : Leaves keys L w) (hL : L ≠ []) : TaskSpec (bookFailed L) (fun _ => NoneLeft keys) w := by
  unfold bookFailed
  refine wp_bind.2 (taskAsk_spec h ?_)
  rintro _ w₁ _ - rfl -
  refine ⟨trivial, fun _ w₂ he => fun hz => ?_⟩
  have hf := (rmGuarantee.guarded he).failed
  have hlen := List.length_pos_iff.2 hL
  simp only at hf
  omega

/-- **What an attempt does not report failed it has deleted.** -/
theorem deleteAttempts_gone (items : List (Str × Int)) : ∀ (n : Nat) (toDelete : List Str) (hadTotalFailure : Bool)
    (w : RmWorld), Leaves keys toDelete w →
    TaskSpec (deleteAttempts items n toDelete hadTotalFailure) (fun r => Leaves keys r.1) w
  | 0, _, _, _, h => h
  | n + 1, toDelete, hadTotalFailure, w, h => by
    unfold deleteAttempts
    split
    · exact h
    · refine wp_bind.2 (taskAsk_spec h ?_)
      rintro r w₁ _ - rfl h₁
      have hnarrow : Leaves keys r.failed (w₁.logged (attemptEvents toDelete r.failed)) := by
        refine h₁.narrow fun k hk => ?_
        by_cases hf : k ∈ r.failed
        · exact .inl hf
        · refine .inr (.inl (List.mem_append_right _ ?_))
          exact List.mem_map.2 ⟨k, hk, by rw [decide_eq_true hf]⟩
      refine (wp_bind (p := rmAsk (.addDeleted (toDelete.length - r.failed.length)))).2 (taskAsk_spec hnarrow ?_)
      rintro _ _ _ - rfl h₂
      refine (wp_bind (p := rmAsk (.addBytes (deletedSizes items toDelete r.failed)))).2 (taskAsk_spec h₂ ?_)
      rintro _ _ _ - rfl h₃
      exact deleteAttempts_gone items n r.failed _ _ h₃

/-- **What the verification takes off its list was answered not to be there.** -/
theorem verifyKeys_gone (items : List (Str × Int)) : ∀ (R : List Str) (v : Verification) (w : RmWorld),
    Leaves keys (v.stillUnverified ++ R) w →
    TaskSpec (verifyKeys items R v) (fun v' => Leaves keys v'.stillUnverified) w
  | [], v, w, h => by rwa [List.append_nil] at h
  | k :: R, v, w, h => by
    have hleave : ∀ {w}, Leaves keys (v.stillUnverified ++ k :: R) w →
        Leaves keys ((v.stillUnverified ++ [k]) ++ R) w := by
      intro w h
      rwa [List.append_assoc]
    unfold verifyKeys
    split
    · exact verifyKeys_gone items R (v.leave k) w (hleave h)
    · refine wp_bind.2 (taskAsk_spec h ?_)
      rintro r w₁ _ - ⟨-, rfl⟩ h₁
      cases r with
      | true => exact verifyKeys_gone items R (v.leave k) _ (hleave h₁)
      | false =>
        refine (wp_bind (p := rmAsk (.checkObjectPresence k))).2 (taskAsk_spec h₁ ?_)
        rintro r w₂ _ - rfl h₂
        cases r with
        | notFound =>
          refine verifyKeys_gone items R (v.confirm items k) _ (h₂.narrow fun j hj => ?_)
          rcases List.mem_append.1 hj with hj | hj
          · exact .inl (List.mem_append_left _ hj)
          · rcases List.mem_cons.1 hj with rfl | hj
            · exact .inr (.inr (List.mem_append_right _ (List.mem_singleton_self _)))
            · exact .inl (List.mem_append_right _ hj)
        | «exists» => exact verifyKeys_gone items R (v.leave k) _ (hleave h₂)
        | unknown => exact verifyKeys_gone items R (v.doubt k) _ (hleave h₂)

theorem verifyBatch_gone (items : List (Str × Int)) (toDelete : List Str) (hadTotalFailure : Bool)
    (h : Leaves keys toDelete w) : TaskSpec (verifyBatch items toDelete hadTotalFailure) (Leaves keys) w := by
  unfold verifyBatch
  split
  · exact h
  · refine wp_bind.2 (wp_mono ?_ (verifyKeys_gone items toDelete {} w h))
    intro v w₁ h₁
    unfold creditVerified
    split
    · refine wp_bind.2 (wp_bind.2 (taskAsk_spec h₁ ?_))
      rintro _ _ w₂ - - h₂
      refine taskAsk_spec h₂ ?_
      rintro _ _ w₃ - - h₃
      exact h₃
    · exact h₁

theorem processBatch_gone (config : RmConfig) (items : List (Str × Int)) (w : RmWorld) :
    TaskSpec (processBatch config items) (fun _ => NoneLeft (items.map Prod.fst)) w := by
  have h : Leaves (items.map Prod.fst) (items.map Prod.fst) w := fun k hk => .inl hk
  unfold processBatch
  refine wp_bind.2 (taskAsk_spec h ?_)
  rintro r w₁ _ - ⟨-, rfl⟩ h₁
  cases r with
  | true =>
    by_cases hnil : items.map Prod.fst = []
    · refine wp_mono (fun _ w' _ => ?_) (wp_true)
      rw [hnil]
      exact fun _ k hk => absurd hk List.not_mem_nil
    · exact bookFailed_gone h₁ hnil
  | false =>
    refine (wp_bind (p := deleteAttempts items config.tries (items.map Prod.fst) false)).2
      (wp_mono ?_ (deleteAttempts_gone items config.tries _ false _ h₁))
    rintro ⟨toDelete, hadTotalFailure⟩ w₂ h₂
    refine wp_bind.2 (wp_mono ?_ (verifyBatch_gone items toDelete hadTotalFailure h₂))
    intro L w₃ h₃
    cases L with
    | nil => exact h₃.noneLeft
    | cons k L => exact bookFailed_gone h₃ (List.cons_ne_nil k L)

/-- **An attempt that succeeds was acknowledged.** -/
theorem tryDelete_gone (key : Str) : ∀ (n : Nat) (w : RmWorld),
    TaskSpec (tryDelete key n) (fun r w' => r = some true → Gone w'.log key) w
  | 0, w => fun h => absurd h (by simp)
  | n + 1, w => by
    have h : Leaves [] [] w := fun k hk => absurd hk List.not_mem_nil
    unfold tryDelete
    refine wp_bind.2 (taskAsk_spec h ?_)
    rintro r w₁ w₂ - - h₁
    cases r with
    | true => exact fun h => absurd h (by simp)
    | false =>
      refine (wp_bind (p := rmAsk (.deleteObject key))).2 (taskAsk_spec h₁ ?_)
      rintro r w₁ _ - rfl -
      cases r with
      | true => exact fun _ => .inl (List.mem_append_right _ (List.mem_singleton_self _))
      | false => exact tryDelete_gone key n _

theorem countDeleted_gone (size : Int) (h : Leaves keys [] w) : TaskSpec (countDeleted size) (fun _ => NoneLeft keys) w := by
  unfold countDeleted
  refine wp_bind.2 (taskAsk_spec h ?_)
  rintro _ _ w₁ - - h₁
  refine taskAsk_spec h₁ ?_
  rintro _ _ w₂ - - h₂
  exact h₂.noneLeft

theorem deleteOne_gone (config : RmConfig) (key : Str) (size : Int) (w : RmWorld) :
    TaskSpec (deleteOne config key size) (fun _ => NoneLeft [key]) w := by
  have h : ∀ w, Leaves [key] [key] w := fun _ k hk => .inl hk
  have hfail : ∀ w, TaskSpec (bookFailed [key]) (fun _ => NoneLeft [key]) w := fun w =>
    bookFailed_gone (h w) (List.cons_ne_nil key [])
  have hgone : ∀ w, Gone w.log key → TaskSpec (countDeleted size) (fun _ => NoneLeft [key]) w := by
    intro w hg
    refine countDeleted_gone size fun k hk => .inr ?_
    rw [List.mem_singleton.1 hk]
    exact hg
  unfold deleteOne
  refine wp_bind.2 (taskAsk_spec (h w) ?_)
  rintro r _ w₁ - - -
  cases r with
  | true => exact hfail w₁
  | false =>
    refine (wp_bind (p := tryDelete key config.tries)).2 (wp_mono ?_ (tryDelete_gone key config.tries w₁))
    intro r w₂ hr
    cases r with
    | none => exact hfail w₂
    | some acknowledged =>
      cases acknowledged with
      | true => exact hgone w₂ (hr rfl)
      | false =>
        refine (wp_bind (p := rmAsk (.checkObjectPresence key))).2 (taskAsk_spec (h w₂) ?_)
        rintro r _ _ - rfl -
        cases r with
        | notFound => exact hgone _ (.inr (List.mem_append_right _ (List.mem_singleton_self _)))
        | «exists» => exact hfail _
        | unknown => exact hfail _

/-- **A task that books no failure leaves none of its keys.** -/
theorem runTask_gone (config : RmConfig) (w : RmWorld) : ∀ task : RmTask,
    TaskSpec (runTask config task) (fun _ => NoneLeft task.keys) w
  | .batch items => processBatch_gone config items w
  | .single key size => deleteOne_gone config key size w

end Task

/-- **Tasks that return leave none of their keys, unless one of them booked a failure.** -/
theorem rmGoneRule (config : RmConfig) : Crew.Rule rmExec (runTask config) (fun _ => True)
    (fun ws w => (∀ x ∈ ws, Asks x.1.Allowed x.2) ∧ Crew.Relying rmExec RmGrows (fun task => NoneLeft task.keys) ws w)
    RmRely (fun tasks => NoneLeft (keysOf tasks)) where
  refl := RmRely.refl
  trans _ _ _ _ := RmRely.trans
  work := by
    intro a task p b w p' w' h hs
    obtain ⟨hasks, hrely⟩ := (rmAsksRule config).work a task p b w p' w' h.1 hs
    exact ⟨⟨hasks, h.2.work rmGuarantee hs⟩, hrely⟩
  ask _ _ _ _ _ _ h he := ⟨h.1, h.2.carry rmGuarantee (rmExec_grows he)⟩
  post ws task w h := ⟨(rmAsksRule config).post ws task w h.1, h.2.post rmGuarantee (runTask_gone config w task)⟩
  join := by
    intro ws w h hret hz k hk
    obtain ⟨task, ht, hkt⟩ := List.mem_flatMap.1 hk
    exact h.2.done (fun _ _ _ hrely hq => hq.grows hrely) hret task ht hz k hkt

/-! ## The run -/

/-- What the run is to delete: the object that was named, or the keys of a complete listing of the prefix named. -/
inductive Plans (config : RmConfig) (log : List RmEvent) : List Str → Prop
  | object (hn : explicitPrefix config.prefix_ = false) (h : ReportedPresent log config.prefix_) :
      Plans config log [config.prefix_]
  | listing {p : Str} {listing : Listing} (hn : NamedPrefix config log p) (hl : .enumerated p listing ∈ log)
      (hc : listing.complete = true) : Plans config log (listedKeys p listing.entries)

/-- The run has found out what to delete and, unless it was a preview, S3 said that all of it is gone. -/
def RmCompleted (config : RmConfig) (log : List RmEvent) : Prop :=
  ∃ keys, Plans config log keys ∧ (config.force = true → ∀ k ∈ keys, Gone log k)

theorem Plans.append {config : RmConfig} {log : List RmEvent} {keys : List Str} (h : Plans config log keys)
    (events : List RmEvent) : Plans config (log ++ events) keys := by
  cases h with
  | object hn h => exact .object hn (h.append events)
  | listing hn hl hc => exact .listing (hn.append events) (List.mem_append_left _ hl) hc

/-- Nothing was posted and no delete was issued. -/
structure Quiet (x : Crew.Seen RmTask RmWorld) : Prop where
  posted : x.posted = []
  none : ∀ k, ¬ Deletes x.world.log k

/-- **What a result says**, as long as no cancellation was seen. -/
structure RmEnds (config : RmConfig) (result : RmResult) (x : Crew.Seen RmTask RmWorld) : Prop where
  refused : x.world.cancelled = false → result.errorMessage ≠ [] → Quiet x
  completed : x.world.cancelled = false → result.errorMessage = [] → result.objectsFailed = 0 →
    RmCompleted config x.world.log

/-- What the poster's program keeps, that it deletes nothing before it posts, and what it leaves. -/
abbrev EndSpec {α : Type} (p : RmPoster α) (Q : α → Crew.Seen RmTask RmWorld → Prop) (x : Crew.Seen RmTask RmWorld) :
    Prop :=
  wp (Crew.PosterExec rmExec RmRely (fun tasks => NoneLeft (keysOf tasks)))
    (fun x => x.posted = [] → ∀ k, ¬ Deletes x.world.log k) (fun _ => True) p Q x

/-- The calls that delete nothing and post nothing. -/
def Peaceful : CrewCall RmCall RmTask → Prop
  | .ask (.deleteObject _) | .ask (.deleteObjects _) | .post _ | .join => False
  | .ask _ => True

section Run

variable {config : RmConfig} {x : Crew.Seen RmTask RmWorld}

/-- **A peaceful request leaves everything quiet**, and adds to the log. -/
theorem Quiet.ask {Done : List RmTask → RmWorld → Prop} {c : CrewCall RmCall RmTask} {r : CrewResp RmResp c}
    {x' : Crew.Seen RmTask RmWorld} (hx : Quiet x) (hc : Peaceful c) (he : Crew.PosterExec rmExec RmRely Done c x r x') :
    Quiet x' ∧ ∃ events, x'.world.log = x.world.log ++ events := by
  cases he with
  | post | join => exact absurd hc id
  | @ask c _ w w' r hj hrely he =>
    obtain ⟨hposted, hnone⟩ := hx
    rw [hposted] at hrely
    have hlog := hrely.log_eq
    have hquiet : ∀ events, w'.log = w.log ++ events → (∀ k, ¬ Deletes events k) →
        Quiet { x with world := w' } ∧ ∃ events, w'.log = x.world.log ++ events := by
      intro events hw' hev
      refine ⟨⟨hposted, fun k hk => ?_⟩, events, by rw [hw', hlog]⟩
      have hk : Deletes w'.log k := hk
      rw [hw', hlog] at hk
      exact (deletes_append.1 hk).elim (hnone k) (hev k)
    have hone : ∀ event, (∀ k b, event ≠ .deleted k b) → ∀ k, ¬ Deletes [event] k := by
      rintro event hne k ⟨b, hb⟩
      exact hne k b (List.mem_singleton.1 hb).symm
    cases c with
    | cancelled =>
      obtain ⟨-, rfl⟩ := he
      exact hquiet [] (List.append_nil _).symm (by simp [Deletes])
    | counts =>
      obtain ⟨-, rfl⟩ := he
      exact hquiet [] (List.append_nil _).symm (by simp [Deletes])
    | getObjectSize | checkObjectPresence | listObjects | enumerate =>
      obtain rfl := he
      exact hquiet [_] rfl (hone _ (by simp))
    | addDeleted | addBytes | addFailed | insertFailed =>
      obtain rfl := he
      exact hquiet [] (List.append_nil _).symm (by simp [Deletes])
    | deleteObject | deleteObjects => exact absurd hc id

/-- The poster's own requests while everything is quiet. -/
theorem quietAsk_spec {c : RmCall} {Q : RmResp c → Crew.Seen RmTask RmWorld → Prop} (hx : Quiet x)
    (h : ∀ r w w', w.log = x.world.log → rmExec c w r w' → Q r { x with world := w' }) : EndSpec (posterAsk c) Q x := by
  refine ⟨fun _ => hx.none, ?_⟩
  rintro r _ (_ | _ | _)
  rename_i w w' hj hrely he
  rw [hx.posted] at hrely
  exact h r w w' hrely.log_eq he

/-- **An error of `resolveTarget` says something.** -/
theorem resolveTarget_asks (config : RmConfig) :
    AsksThen Peaceful (fun target => ∀ m, target = .error m → m ≠ []) (resolveTarget config) := by
  have hok : ∀ t : RmTarget, ∀ m, (Except.ok t : Except Str RmTarget) = .error m → m ≠ [] := fun _ _ h => (by cases h)
  have herr : ∀ (a : Char) (b : Str) (m : Str), (Except.error (a :: b) : Except Str RmTarget) = .error m → m ≠ [] := by
    rintro a b m h rfl
    exact absurd (Except.error.inj h) (List.cons_ne_nil a b)
  unfold resolveTarget
  split
  · exact hok _
  · refine ⟨trivial, fun size => ?_⟩
    show AsksThen _ _ (if _ then _ else _)
    split
    · exact hok _
    · refine ⟨trivial, fun presence => ?_⟩
      cases presence with
      | unknown => exact herr _ _
      | «exists» => exact hok _
      | notFound =>
        refine ⟨trivial, fun page => ?_⟩
        show AsksThen _ _ (if _ then _ else _)
        split
        · exact herr _ _
        · show AsksThen _ _ (if _ then _ else _)
          split
          · exact hok _
          · exact herr _ _

theorem resolveTarget_quiet (hx : Quiet x) (hlog : x.world.log = []) :
    EndSpec (resolveTarget config) (fun target x => Quiet x ∧ Resolution config x.world.log target ∧
      ∀ m, target = .error m → m ≠ []) x := by
  have hspec : TargetSpec config (fun _ => True) (resolveTarget config) _ x := resolveTarget_spec hx.posted hlog
  have hasks := resolveTarget_asks config
  have hexec : ∀ c s r s', Crew.PosterExec rmExec RmRely (fun tasks => NoneLeft (keysOf tasks)) c s r s' →
      Crew.PosterExec rmExec RmRely (fun _ _ => True) c s r s' := by
    intro c s r s' he
    cases he with
    | ask hj hr he => exact .ask hj hr he
    | post hr => exact .post hr
    | join hr _ => exact .join hr trivial
  have hdone := wp_weaken hexec (fun _ h => h) (fun _ h => h) hspec
  have hquiet : ∀ c s r s', Peaceful c → Targeted config s → Quiet s →
      Crew.PosterExec rmExec RmRely (fun tasks => NoneLeft (keysOf tasks)) c s r s' → Quiet s' :=
    fun _ _ _ _ hc _ hq he => (hq.ask hc he).1
  have hkeeps := wp_keeps hquiet hasks.asks hx (wp_asksThen hasks hdone)
  refine wp_weaken (fun _ _ _ _ he => he) (fun _ hI _ => hI.2.none) (fun _ h => h) (wp_mono ?_ hkeeps)
  rintro target x' ⟨⟨⟨-, -, hr⟩, hm⟩, hq⟩
  exact ⟨hq, hr, hm⟩

theorem siblingWarnings_asks (config : RmConfig) : Asks Peaceful (siblingWarnings config) := by
  unfold siblingWarnings
  split
  · trivial
  · refine ⟨trivial, fun peek => ?_⟩
    show Asks _ (if _ then _ else _)
    split
    · trivial
    · show Asks _ (if _ then _ else _)
      split <;> trivial

theorem removeFile_ends {size : Int} (hx : Quiet x) (hr : Resolution config x.world.log (.ok (.file size))) :
    EndSpec (removeFile config size) (RmEnds config) x := by
  obtain ⟨hnamed, hpresent, -⟩ := hr
  have hsibling : EndSpec (siblingWarnings config)
      (fun _ x' => Quiet x' ∧ ReportedPresent x'.world.log config.prefix_) x := by
    refine wp_asks (fun c s r s' hc hs he => ?_) (fun s hs _ => hs.1.none) (fun _ _ => trivial)
      (siblingWarnings_asks config) ⟨hx, hpresent⟩
    obtain ⟨hq, events, hlog⟩ := hs.1.ask hc he
    exact ⟨hq, by rw [hlog]; exact hs.2.append events⟩
  unfold removeFile
  refine wp_bind.2 (wp_mono ?_ hsibling)
  rintro warnings x₁ ⟨hx₁, hpresent₁⟩
  cases hforce : config.force with
  | false =>
    refine ⟨fun _ h => absurd rfl h, fun _ _ _ => ⟨_, .object hnamed hpresent₁, fun h => ?_⟩⟩
    rw [hforce] at h
    cases h
  | true =>
    refine (wp_bind (p := posterAsk (.deleteObject config.prefix_))).2 (quietAsk_spec hx₁ ?_)
    rintro r w _ hw rfl
    have hlog : (w.logged [.deleted config.prefix_ r]).log = x₁.world.log ++ [.deleted config.prefix_ r] := by
      rw [RmWorld.logged, hw]
    cases r with
    | false => exact ⟨fun _ h => absurd rfl h, fun _ _ h => (by cases h)⟩
    | true =>
      refine ⟨fun _ h => absurd rfl h, fun _ _ _ => ⟨_, .object hnamed ?_, fun _ k hk => ?_⟩⟩
      · rw [hlog]
        exact hpresent₁.append _
      · rw [List.mem_singleton.1 hk, hlog]
        exact .inl (List.mem_append_right _ (List.mem_singleton_self _))

/-- **The deletion of a listing is complete where it counts no failure**, unless it was cancelled. -/
theorem deleteListed_ends {p : Str} {listing : Listing} (hx : Quiet x) (hn : NamedPrefix config x.world.log p)
    (hl : .enumerated p listing ∈ x.world.log) (hc : listing.complete = true) :
    EndSpec (deleteListed config p listing.entries) (RmEnds config) x := by
  have hspec : PosterSpec (fun tasks => NoneLeft (keysOf tasks)) _ (fun _ => True) _ _ x :=
    deleteListed_spec config p listing.entries x hx.posted rfl (fun _ _ _ h => h)
  have hkeeps : ∀ c (s : Crew.Seen RmTask RmWorld) r s', Crew.Mine PosterMine c →
      keysOf s.posted <+: listedKeys p listing.entries →
      ((s.posted = [] → ∀ k, ¬ Deletes s.world.log k) ∧ ∃ events, s.world.log = x.world.log ++ events) →
      Crew.PosterExec rmExec RmRely (fun tasks => NoneLeft (keysOf tasks)) c s r s' →
      (s'.posted = [] → ∀ k, ¬ Deletes s'.world.log k) ∧ ∃ events, s'.world.log = x.world.log ++ events := by
    intro c s r s' hmine _ hs he
    have hrely : ∀ w, RmRely s.posted s.world w →
        (s.posted = [] → ∀ k, ¬ Deletes w.log k) ∧ ∃ events, w.log = x.world.log ++ events := by
      intro w hrely
      refine ⟨fun hnil => ?_, ?_⟩
      · rw [hnil] at hrely
        rw [hrely.log_eq]
        exact hs.1 hnil
      · obtain ⟨a, ha⟩ := hs.2
        obtain ⟨b, hb, -⟩ := hrely.log
        exact ⟨a ++ b, by rw [hb, ha, List.append_assoc]⟩
    cases he with
    | @ask c _ w w' r hj hr he =>
      cases c with
      | cancelled =>
        obtain ⟨-, rfl⟩ := he
        exact hrely w hr
      | counts =>
        obtain ⟨-, rfl⟩ := he
        exact hrely _ hr
      | getObjectSize | checkObjectPresence | listObjects | enumerate | deleteObject | deleteObjects | addDeleted
      | addBytes | addFailed | insertFailed => exact absurd hmine id
    | post hr => exact ⟨fun h => absurd h (by simp), (hrely _ hr).2⟩
    | join hr _ => exact hrely _ hr
  have hboth := wp_keeps hkeeps (deleteListed_asks config p listing.entries)
    ⟨fun _ => hx.none, [], (List.append_nil _).symm⟩ hspec
  refine wp_weaken (fun _ _ _ _ he => he) (fun _ hI => hI.2.1) (fun _ h => h) (wp_mono ?_ hboth)
  rintro result x' ⟨⟨-, hgone, -, hfull, rfl⟩, -, events, hlog⟩
  have hfinal : x'.world.cancelled = false →
      finalResult config p listing.entries.length x'.world = x'.world.counts.result := by
    intro hcancel
    unfold finalResult
    rw [hcancel]
    rfl
  refine ⟨fun hcancel h => ?_, fun hcancel _ hzero => ?_⟩
  · rw [hfinal hcancel] at h
    exact absurd rfl h
  · rw [hfinal hcancel] at hzero
    have hnamed : NamedPrefix config x'.world.log p := by
      rw [hlog]
      exact hn.append events
    have hlisted : .enumerated p listing ∈ x'.world.log := by
      rw [hlog]
      exact List.mem_append_left _ hl
    refine ⟨_, .listing hnamed hlisted hc, fun _ k hk => ?_⟩
    rw [← hfull hcancel] at hk
    exact hgone hzero k hk

theorem removeDirectory_ends {p : Str} (hx : Quiet x) (hr : Resolution config x.world.log (.ok (.directory p))) :
    EndSpec (removeDirectory config p) (RmEnds config) x := by
  obtain ⟨hnamed, -⟩ := hr
  unfold removeDirectory
  refine wp_bind.2 (quietAsk_spec hx ?_)
  rintro listing w _ hw rfl
  have hlog : (w.logged [.enumerated p listing]).log = x.world.log ++ [.enumerated p listing] := by
    rw [RmWorld.logged, hw]
  have hx₁ : Quiet { x with world := w.logged [.enumerated p listing] } := by
    refine ⟨hx.posted, fun k hk => ?_⟩
    have hk : Deletes (w.logged [.enumerated p listing]).log k := hk
    rw [hlog] at hk
    rcases deletes_append.1 hk with hk | ⟨b, hb⟩
    · exact hx.none k hk
    · exact absurd hb (by simp)
  refine (wp_bind (p := posterAsk .cancelled)).2 (quietAsk_spec hx₁ ?_)
  rintro r w₁ _ hw₁ ⟨-, rfl⟩
  have hx₂ : Quiet { x with world := { w₁ with cancelled := r } } := by
    refine ⟨hx.posted, ?_⟩
    show ∀ k, ¬ Deletes w₁.log k
    rw [hw₁]
    exact hx₁.none
  have hnamed₂ : NamedPrefix config w₁.log p := by
    rw [hw₁, hlog]
    exact hnamed.append _
  have hlisted : .enumerated p listing ∈ w₁.log := by
    rw [hw₁, hlog]
    exact List.mem_append_right _ (List.mem_singleton_self _)
  have herror : ∀ result : RmResult, result.errorMessage ≠ [] →
      RmEnds config result { x with world := { w₁ with cancelled := r } } := fun result hm =>
    ⟨fun _ _ => hx₂, fun _ h => absurd h hm⟩
  cases r with
  | true => exact herror _ (List.cons_ne_nil _ _)
  | false =>
  cases hcomplete : listing.complete with
  | false => exact herror _ (List.cons_ne_nil _ _)
  | true =>
  have hplan : Plans config w₁.log (listedKeys p listing.entries) := .listing hnamed₂ hlisted hcomplete
  cases hempty : listing.entries.isEmpty with
  | true =>
    cases p with
    | cons a p => exact herror _ (List.cons_ne_nil _ _)
    | nil =>
      refine ⟨fun _ h => absurd rfl h, fun _ _ _ => ⟨_, hplan, fun _ k hk => ?_⟩⟩
      rw [List.isEmpty_iff.1 hempty] at hk
      exact absurd hk List.not_mem_nil
  | false =>
  cases hforce : config.force with
  | false =>
    refine ⟨fun _ h => absurd rfl h, fun _ _ _ => ⟨_, hplan, fun h => ?_⟩⟩
    rw [hforce] at h
    cases h
  | true => exact deleteListed_ends hx₂ hnamed₂ hlisted hcomplete

/-- **What the result of `rm` says.** -/
theorem runRm_ends (hx : Quiet x) (hlog : x.world.log = []) : EndSpec (runRm config) (RmEnds config) x := by
  unfold runRm
  refine wp_bind.2 (wp_mono ?_ (resolveTarget_quiet hx hlog))
  rintro (m | size | p) x₁ ⟨hx₁, hr, hm⟩
  · exact ⟨fun _ _ => hx₁, fun _ h => absurd h (hm m rfl)⟩
  · exact removeFile_ends hx₁ hr
  · cases hrecursive : config.recursive with
    | false =>
      refine ⟨fun _ _ => hx₁, fun _ h => absurd h ?_⟩
      exact List.append_ne_nil_of_right_ne_nil _ (List.cons_ne_nil _ _)
    | true => exact removeDirectory_ends hx₁ hr

theorem ends_of_steps {s : Crew RmCall RmTask RmResp RmResult RmWorld}
    (h : RmSteps config ⟨runRm config, [], {}⟩ s) :
    ∃ x, Crew.Sound rmExec (fun _ => True) (fun ws w => (∀ x ∈ ws, Asks x.1.Allowed x.2) ∧
        Crew.Relying rmExec RmGrows (fun task => NoneLeft task.keys) ws w) RmRely (fun tasks => NoneLeft (keysOf tasks))
      (fun x => x.posted = [] → ∀ k, ¬ Deletes x.world.log k) (fun _ => True) (RmEnds config) s x := by
  have hasks : Asks (Crew.Mine (fun _ => True)) (runRm config) := asks_of_forall (fun c => by cases c <;> trivial) _
  exact (rmGoneRule config).sound h ⟨by simp, by simp [Crew.Relying]⟩ hasks
    (runRm_ends ⟨rfl, by simp [Deletes]⟩ rfl)

/-- **A run that waits for an answer and has posted nothing has deleted nothing.** -/
theorem waiting_untouched {s : Crew RmCall RmTask RmResp RmResult RmWorld}
    (h : RmSteps config ⟨runRm config, [], {}⟩ s) (hw : s.workers = []) {c : CrewCall RmCall RmTask}
    {k : CrewResp RmResp c → RmPoster RmResult} (hc : s.poster = .call c k) : ∀ k, ¬ Deletes s.world.log k := by
  obtain ⟨x, hs⟩ := ends_of_steps h
  have hposted : x.posted = [] := by rw [hs.posted, Crew.posted, hw, List.map_nil]
  have hrely := hs.rely
  rw [hposted] at hrely
  have hwp := hs.wp
  rw [hc] at hwp
  rw [hrely.log_eq]
  exact hwp.1 hposted

/-- **A result with an error deleted nothing, and one without failures left nothing**, unless the run was cancelled. -/
theorem returned_ends {s : Crew RmCall RmTask RmResp RmResult RmWorld} {result : RmResult}
    (h : RmSteps config ⟨runRm config, [], {}⟩ s) (hr : s.poster = .ret result) (hc : s.world.cancelled = false) :
    (result.errorMessage ≠ [] → ∀ k, ¬ Deletes s.world.log k) ∧
      (result.errorMessage = [] → result.objectsFailed = 0 → RmCompleted config s.world.log) := by
  obtain ⟨x, hs⟩ := ends_of_steps h
  have hrely := hs.rely
  have hends := hs.wp
  rw [hr] at hends
  have hcx : x.world.cancelled = false := by
    cases hx : x.world.cancelled with
    | false => rfl
    | true => exact absurd (hrely.cancelled hx) (by simp [hc])
  constructor
  · intro hm
    obtain ⟨hposted, hnone⟩ := hends.refused hcx hm
    rw [hposted] at hrely
    rw [hrely.log_eq]
    exact hnone
  · intro hm hz
    obtain ⟨keys, hplan, hgone⟩ := hends.completed hcx hm hz
    obtain ⟨events, hlog, -⟩ := hrely.log
    rw [hlog]
    exact ⟨keys, hplan.append events, fun hf k hk => (hgone hf k hk).append events⟩

end Run

end Mito
