import MitoSync.RmAccounts
/-!
# RmTargets — what `rm` deletes

The keys `rm` deletes are the one the user named, reported present, or keys of a complete listing of the prefix the user
named (`rm_targets`); without `--force`, or where it is not clear what was named, it deletes none.
-/
namespace Mito

open Lib Prog

/-- A delete of the key was issued. -/
def Deletes (log : List RmEvent) (key : Str) : Prop := ∃ acknowledged, .deleted key acknowledged ∈ log

/-- A size came back, or the presence check said so. -/
def ReportedPresent (log : List RmEvent) (key : Str) : Prop :=
  (∃ size ≥ 0, .size key size ∈ log) ∨ .presence key .exists ∈ log

/-- **Nothing said what the name is**: the presence check did not know, or the key is not there and neither is a
prefix, as far as could be listed. -/
def Unresolved (config : RmConfig) (log : List RmEvent) : Prop :=
  explicitPrefix config.prefix_ = false ∧ (.presence config.prefix_ .unknown ∈ log ∨
    .presence config.prefix_ .notFound ∈ log ∧
      ∃ r, .listObjects (config.prefix_ ++ ['/']) r ∈ log ∧ ¬ (r.success = true ∧ r.shows = true))

/-- The prefix that stands for the name: itself, or with a separator once the key is known not to be there. -/
def NamedPrefix (config : RmConfig) (log : List RmEvent) (p : Str) : Prop :=
  explicitPrefix config.prefix_ = true ∧ p = config.prefix_ ∨
    explicitPrefix config.prefix_ = false ∧ p = config.prefix_ ++ ['/'] ∧ .presence config.prefix_ .notFound ∈ log

/-- The object the user named is deleted, nothing else. -/
structure DeletesObject (config : RmConfig) (log : List RmEvent) : Prop where
  force : config.force = true
  named : explicitPrefix config.prefix_ = false
  present : ReportedPresent log config.prefix_
  only : ∀ k, Deletes log k → k = config.prefix_
  resolved : ∀ r, .presence config.prefix_ r ∈ log → r = .exists

/-- Keys of a complete listing are deleted, nothing else. -/
structure DeletesListed (config : RmConfig) (p : Str) (listing : Listing) (log : List RmEvent) : Prop where
  force : config.force = true
  recursive : config.recursive = true
  named : NamedPrefix config log p
  listed : .enumerated p listing ∈ log
  complete : listing.complete = true
  only : ∀ k, Deletes log k → k ∈ listedKeys p listing.entries
  resolved : explicitPrefix config.prefix_ = false → (∀ r, .presence config.prefix_ r ∈ log → r = .notFound) ∧
    ∀ r, .listObjects (config.prefix_ ++ ['/']) r ∈ log → r.success = true ∧ r.shows = true

/-- What a run of `rm` may have deleted. -/
def NamedOnly (config : RmConfig) (log : List RmEvent) : Prop :=
  (∀ k, ¬ Deletes log k) ∨ DeletesObject config log ∨ ∃ p listing, DeletesListed config p listing log

section Log

variable {config : RmConfig} {p : Str} {listing : Listing} {log : List RmEvent}

theorem deletes_append {a b : List RmEvent} {k : Str} : Deletes (a ++ b) k ↔ Deletes a k ∨ Deletes b k := by
  simp only [Deletes, List.mem_append, exists_or]

theorem ReportedPresent.append {k : Str} (h : ReportedPresent log k) (events : List RmEvent) :
    ReportedPresent (log ++ events) k := by
  refine h.imp ?_ (List.mem_append_left _)
  rintro ⟨n, hn, hm⟩
  exact ⟨n, hn, List.mem_append_left _ hm⟩

/-- **The keys of a listing are under its prefix**, however they were listed. -/
theorem listedKeys_isPrefix {entries : List DirectoryEntry} {k : Str} (h : k ∈ listedKeys p entries) : p <+: k := by
  obtain ⟨e, -, rfl⟩ := List.mem_map.1 h
  exact List.prefix_append _ _

/-- A name that stands for a longer prefix is no key under it. -/
theorem NamedPrefix.not_key (h : NamedPrefix config log p) (hn : explicitPrefix config.prefix_ = false) :
    ¬ p <+: config.prefix_ := by
  intro hp
  rcases h with ⟨he, -⟩ | ⟨-, rfl, -⟩
  · exact absurd (hn.symm.trans he) (by simp)
  · have := hp.length_le
    rw [List.length_append, List.length_singleton] at this
    omega

theorem NamedPrefix.append (h : NamedPrefix config log p) (events : List RmEvent) :
    NamedPrefix config (log ++ events) p :=
  h.imp_right fun ⟨hn, hp, hm⟩ => ⟨hn, hp, List.mem_append_left _ hm⟩

/-- **What tasks do under a listing stays among its keys.** -/
theorem DeletesListed.append (h : DeletesListed config p listing log) {events : List RmEvent}
    (he : ∀ e ∈ events, ∃ k ∈ listedKeys p listing.entries, e.key? = some k) :
    DeletesListed config p listing (log ++ events) where
  force := h.force
  recursive := h.recursive
  named := h.named.append events
  listed := List.mem_append_left _ h.listed
  complete := h.complete
  only := by
    intro k hk
    rcases deletes_append.1 hk with hk | ⟨b, hb⟩
    · exact h.only k hk
    · obtain ⟨j, hj, hkey⟩ := he _ hb
      exact Option.some.inj hkey ▸ hj
  resolved := by
    intro hn
    obtain ⟨hpresence, hlist⟩ := h.resolved hn
    constructor
    · intro r hr
      rcases List.mem_append.1 hr with hr | hr
      · exact hpresence r hr
      · -- the tasks check keys under the prefix, which the name is not
        obtain ⟨j, hj, hkey⟩ := he _ hr
        obtain rfl : config.prefix_ = j := Option.some.inj hkey
        exact absurd (listedKeys_isPrefix hj) (h.named.not_key hn)
    · intro r hr
      rcases List.mem_append.1 hr with hr | hr
      · exact hlist r hr
      · obtain ⟨j, -, hkey⟩ := he _ hr
        exact absurd hkey (by simp [RmEvent.key?])

theorem DeletesObject.not_unresolved (h : DeletesObject config log) : ¬ Unresolved config log := by
  rintro ⟨-, hu | ⟨hf, -⟩⟩
  · exact absurd (h.resolved _ hu) (by simp)
  · exact absurd (h.resolved _ hf) (by simp)

theorem DeletesListed.not_unresolved (h : DeletesListed config p listing log) : ¬ Unresolved config log := by
  rintro ⟨hn, hu | ⟨-, r, hr, hshows⟩⟩
  · exact absurd ((h.resolved hn).1 _ hu) (by simp)
  · exact hshows ((h.resolved hn).2 r hr)

end Log

/-! ## Up to the deletion -/

section Steps

variable {config : RmConfig} {H : Crew.Seen RmTask RmWorld → Prop}

/-- What is true of the poster's view throughout: what it has posted is licensed by what was answered. -/
def Targeted (config : RmConfig) (x : Crew.Seen RmTask RmWorld) : Prop :=
  x.posted = [] ∧ NamedOnly config x.world.log ∨ ∃ p listing, keysOf x.posted <+: listedKeys p listing.entries ∧
    DeletesListed config p listing x.world.log

/-- What the poster's program keeps and leaves, as far as the log shows. -/
abbrev TargetSpec (config : RmConfig) (H : Crew.Seen RmTask RmWorld → Prop) {α : Type} (p : RmPoster α)
    (Q : α → Crew.Seen RmTask RmWorld → Prop) (x : Crew.Seen RmTask RmWorld) : Prop :=
  wp (Crew.PosterExec rmExec RmRely (fun _ _ => True)) (Targeted config) H p Q x

/-- With nothing posted no task has answers. -/
theorem RmRely.log_eq {w w' : RmWorld} (h : RmRely [] w w') : w'.log = w.log := by
  obtain ⟨events, hlog, hevents⟩ := h.log
  have hnil : events = [] := by
    refine List.eq_nil_iff_forall_not_mem.2 fun e he => ?_
    obtain ⟨k, hk, -⟩ := hevents e he
    exact absurd hk (by simp [keysOf])
  rw [hlog, hnil, List.append_nil]

/-- Before anything is posted the log is the poster's own. -/
theorem posterAsk_spec {c : RmCall} {x : Crew.Seen RmTask RmWorld} {Q : RmResp c → Crew.Seen RmTask RmWorld → Prop}
    (hx : x.posted = []) (hn : NamedOnly config x.world.log)
    (h : ∀ r w w', w.log = x.world.log → rmExec c w r w' → Q r { x with world := w' }) :
    TargetSpec config H (posterAsk c) Q x := by
  refine ⟨.inl ⟨hx, hn⟩, ?_⟩
  rintro r _ (_ | _ | _)
  rename_i w w' hj hrely he
  rw [hx] at hrely
  exact h r w w' hrely.log_eq he

/-- What `resolveTarget` has found out, having deleted nothing. -/
def Resolution (config : RmConfig) (log : List RmEvent) : Except Str RmTarget → Prop
  | .error _ => True
  | .ok (.file _) => explicitPrefix config.prefix_ = false ∧ ReportedPresent log config.prefix_ ∧
      ∀ r, .presence config.prefix_ r ∈ log → r = .exists
  | .ok (.directory p) => NamedPrefix config log p ∧ (explicitPrefix config.prefix_ = false →
      (∀ r, .presence config.prefix_ r ∈ log → r = .notFound) ∧
      ∀ r, .listObjects (config.prefix_ ++ ['/']) r ∈ log → r.success = true ∧ r.shows = true)

/-- **A failed answer is an error, and absence is believed only where it was answered.** -/
theorem resolveTarget_spec {x : Crew.Seen RmTask RmWorld} (hx : x.posted = []) (hlog : x.world.log = []) :
    TargetSpec config H (resolveTarget config) (fun target x => x.posted = [] ∧
      (∀ k, ¬ Deletes x.world.log k) ∧ Resolution config x.world.log target) x := by
  have hnone : ∀ k, ¬ Deletes x.world.log k := by simp [hlog, Deletes]
  unfold resolveTarget
  split
  · rename_i hexplicit
    exact ⟨hx, hnone, .inl ⟨hexplicit, rfl⟩, fun hn => absurd (hn.symm.trans hexplicit) (by simp)⟩
  · rename_i hexplicit
    have hnamed : explicitPrefix config.prefix_ = false := Bool.eq_false_of_not_eq_true hexplicit
    refine wp_bind.2 (posterAsk_spec hx (.inl hnone) ?_)
    rintro size w _ hw rfl
    have hlog₁ : (w.logged [.size config.prefix_ size]).log = [.size config.prefix_ size] := by
      rw [RmWorld.logged, hw, hlog, List.nil_append]
    have hnone₁ : ∀ k, ¬ Deletes (w.logged [.size config.prefix_ size]).log k := by simp [hlog₁, Deletes]
    split
    · rename_i hsize
      refine ⟨hx, hnone₁, hnamed, .inl ⟨size, hsize, by simp [hlog₁]⟩, ?_⟩
      simp [hlog₁]
    · refine (wp_bind (p := posterAsk (.checkObjectPresence config.prefix_))).2 (posterAsk_spec hx (.inl hnone₁) ?_)
      rintro presence w₁ _ hw₁ rfl
      have hlog₂ : (w₁.logged [.presence config.prefix_ presence]).log =
          [.size config.prefix_ size, .presence config.prefix_ presence] := by
        rw [RmWorld.logged, hw₁, hlog₁]
        rfl
      have hnone₂ : ∀ k, ¬ Deletes (w₁.logged [.presence config.prefix_ presence]).log k := by simp [hlog₂, Deletes]
      cases presence with
      | unknown => exact ⟨hx, hnone₂, trivial⟩
      | «exists» => exact ⟨hx, hnone₂, hnamed, .inr (by simp [hlog₂]), by simp [hlog₂]⟩
      | notFound =>
        refine (wp_bind (p := posterAsk (.listObjects (config.prefix_ ++ ['/'])))).2
          (posterAsk_spec hx (.inl hnone₂) ?_)
        rintro page w₂ _ hw₂ rfl
        have hlog₃ : (w₂.logged [.listObjects (config.prefix_ ++ ['/']) page]).log =
            [.size config.prefix_ size, .presence config.prefix_ .notFound,
              .listObjects (config.prefix_ ++ ['/']) page] := by
          rw [RmWorld.logged, hw₂, hlog₂]
          rfl
        have hnone₃ : ∀ k, ¬ Deletes (w₂.logged [.listObjects (config.prefix_ ++ ['/']) page]).log k := by
          simp [hlog₃, Deletes]
        cases hsuccess : page.success with
        | false =>
          exact ⟨hx, hnone₃, trivial⟩
        | true =>
          cases hshows : page.shows with
          | false =>
            exact ⟨hx, hnone₃, trivial⟩
          | true =>
            refine ⟨hx, hnone₃, .inr ⟨hnamed, rfl, by simp [hlog₃]⟩, fun _ => ⟨by simp [hlog₃], ?_⟩⟩
            simp [hlog₃, hsuccess, hshows]

/-- **An object is deleted only where `--force` says so.** -/
theorem removeFile_spec {x : Crew.Seen RmTask RmWorld} (size : Int) (hx : x.posted = [])
    (hnone : ∀ k, ¬ Deletes x.world.log k) (hr : Resolution config x.world.log (.ok (.file size))) :
    TargetSpec config H (removeFile config size) (fun _ => Targeted config) x := by
  obtain ⟨hnamed, hpresent, hresolved⟩ := hr
  have hsibling : TargetSpec config H (siblingWarnings config) (fun _ x' => x'.posted = [] ∧
      (∀ k, ¬ Deletes x'.world.log k) ∧ ReportedPresent x'.world.log config.prefix_ ∧
      ∀ r, .presence config.prefix_ r ∈ x'.world.log → r = .exists) x := by
    unfold siblingWarnings
    split
    · exact ⟨hx, hnone, hpresent, hresolved⟩
    · refine wp_bind.2 (posterAsk_spec hx (.inl hnone) ?_)
      rintro peek w _ hw rfl
      have hlog : (w.logged [.listObjects (config.prefix_ ++ ['/']) peek]).log =
          x.world.log ++ [.listObjects (config.prefix_ ++ ['/']) peek] := by
        rw [RmWorld.logged, hw]
      have hafter : ∀ p : RmPoster (List Str), (∃ ws, p = .ret ws) → TargetSpec config H p (fun _ x' =>
          x'.posted = [] ∧ (∀ k, ¬ Deletes x'.world.log k) ∧ ReportedPresent x'.world.log config.prefix_ ∧
          ∀ r, .presence config.prefix_ r ∈ x'.world.log → r = .exists)
          { x with world := w.logged [.listObjects (config.prefix_ ++ ['/']) peek] } := by
        rintro _ ⟨ws, rfl⟩
        refine ⟨hx, fun k hk => ?_, ?_, fun r hr => ?_⟩
        · rw [hlog] at hk
          rcases deletes_append.1 hk with hk | ⟨b, hb⟩
          · exact hnone k hk
          · exact absurd hb (by simp)
        · rw [hlog]
          exact hpresent.append _
        · rw [hlog] at hr
          rcases List.mem_append.1 hr with hr | hr
          · exact hresolved r hr
          · exact absurd hr (by simp)
      apply hafter
      cases peek.success <;> cases peek.shows <;> exact ⟨_, rfl⟩
  unfold removeFile
  refine wp_bind.2 (wp_mono ?_ hsibling)
  rintro warnings x₁ ⟨hx₁, hnone₁, hpresent₁, hresolved₁⟩
  cases hforce : config.force with
  | false =>
    exact .inl ⟨hx₁, .inl hnone₁⟩
  | true =>
    refine (wp_bind (p := posterAsk (.deleteObject config.prefix_))).2 (posterAsk_spec hx₁ (.inl hnone₁) ?_)
    rintro r w _ hw rfl
    have hlog : (w.logged [.deleted config.prefix_ r]).log = x₁.world.log ++ [.deleted config.prefix_ r] := by
      rw [RmWorld.logged, hw]
    have hdeletes : DeletesObject config (w.logged [.deleted config.prefix_ r]).log := by
      rw [hlog]
      refine ⟨hforce, hnamed, ?_, fun k hk => ?_, fun r hr => ?_⟩
      · exact hpresent₁.append _
      · rcases deletes_append.1 hk with hk | ⟨b, hb⟩
        · exact absurd hk (hnone₁ k)
        · have := List.mem_singleton.1 hb
          exact (RmEvent.deleted.inj this).1
      · rcases List.mem_append.1 hr with hr | hr
        · exact hresolved₁ r hr
        · exact absurd hr (by simp)
    cases r with
    | true => exact .inl ⟨hx₁, .inr (.inl hdeletes)⟩
    | false => exact .inl ⟨hx₁, .inr (.inl hdeletes)⟩

/-- The deletion of a listing, nothing being asked of the tasks. -/
theorem deleteListed_done (config : RmConfig) (p : Str) (entries : List DirectoryEntry)
    (x : Crew.Seen RmTask RmWorld) (hx : x.posted = []) :
    PosterSpec (fun _ _ => True) (listedKeys p entries) H (deleteListed config p entries)
      (fun _ x => keysOf x.posted <+: listedKeys p entries) x :=
  wp_mono (fun _ _ hq => hq.2.2.1) (deleteListed_spec config p entries x hx rfl fun _ _ _ => id)

/-- **The deletion of a listing stays among its keys.** -/
theorem deleteListed_targets {x : Crew.Seen RmTask RmWorld} {p : Str} {listing : Listing} (hx : x.posted = [])
    (h : DeletesListed config p listing x.world.log) :
    TargetSpec config H (deleteListed config p listing.entries) (fun _ => Targeted config) x := by
  have hspec := deleteListed_done (H := H) config p listing.entries x hx
  have hkeeps : ∀ c (s : Crew.Seen RmTask RmWorld) r s', Crew.Mine PosterMine c →
      keysOf s.posted <+: listedKeys p listing.entries → DeletesListed config p listing s.world.log →
      Crew.PosterExec rmExec RmRely (fun _ _ => True) c s r s' → DeletesListed config p listing s'.world.log := by
    intro c s r s' hc hposted hlisted he
    have hrely : ∀ w, RmRely s.posted s.world w → DeletesListed config p listing w.log := by
      intro w hrely
      obtain ⟨events, hlog, hevents⟩ := hrely.log
      rw [hlog]
      refine hlisted.append fun e he => ?_
      obtain ⟨k, hk, hkey⟩ := hevents e he
      exact ⟨k, hposted.subset hk, hkey⟩
    cases he with
    | @ask c _ w w' r hj hr he =>
      cases c with
      | cancelled =>
        obtain ⟨-, rfl⟩ := he
        exact hrely w hr
      | counts =>
        obtain ⟨-, rfl⟩ := he
        exact hrely _ hr
      | getObjectSize | checkObjectPresence | listObjects | enumerate | deleteObject | deleteObjects | addDeleted
      | addBytes | addFailed | insertFailed => exact absurd hc id
    | post hr => exact hrely _ hr
    | join hr _ => exact hrely _ hr
  have hboth := wp_keeps hkeeps (deleteListed_asks config p listing.entries) h hspec
  refine wp_weaken (fun _ _ _ _ he => he) (fun x hI => .inr ⟨p, listing, hI⟩) (fun _ hH => hH) (wp_mono ?_ hboth)
  rintro _ x' ⟨hposted, hlisted⟩
  exact .inr ⟨p, listing, hposted, hlisted⟩

/-- **A prefix is deleted only where `-r` and `--force` say so and it was listed to the end.** -/
theorem removeDirectory_spec {x : Crew.Seen RmTask RmWorld} {p : Str} (hx : x.posted = [])
    (hrecursive : config.recursive = true) (hnone : ∀ k, ¬ Deletes x.world.log k)
    (hr : Resolution config x.world.log (.ok (.directory p))) :
    TargetSpec config H (removeDirectory config p) (fun _ => Targeted config) x := by
  obtain ⟨hnamed, hresolved⟩ := hr
  unfold removeDirectory
  refine wp_bind.2 (posterAsk_spec hx (.inl hnone) ?_)
  rintro listing w _ hw rfl
  have hlog : (w.logged [.enumerated p listing]).log = x.world.log ++ [.enumerated p listing] := by
    rw [RmWorld.logged, hw]
  have hnone₁ : ∀ k, ¬ Deletes (w.logged [.enumerated p listing]).log k := by
    intro k hk
    rw [hlog] at hk
    rcases deletes_append.1 hk with hk | ⟨b, hb⟩
    · exact hnone k hk
    · exact absurd hb (by simp)
  refine (wp_bind (p := posterAsk .cancelled)).2 (posterAsk_spec hx (.inl hnone₁) ?_)
  rintro r w₁ _ hw₁ ⟨-, rfl⟩
  have hnone₂ : ∀ k, ¬ Deletes w₁.log k := by
    rw [hw₁]
    exact hnone₁
  have hstop : Targeted config { x with world := { w₁ with cancelled := r } } := .inl ⟨hx, .inl hnone₂⟩
  cases r with
  | true => exact hstop
  | false =>
  cases hcomplete : listing.complete with
  | false => exact hstop
  | true =>
  cases hempty : listing.entries.isEmpty with
  | true => cases p.isEmpty <;> exact hstop
  | false =>
  cases hforce : config.force with
  | false => exact hstop
  | true =>
    refine deleteListed_targets hx ?_
    show DeletesListed config p listing w₁.log
    rw [hw₁, hlog]
    refine ⟨hforce, hrecursive, hnamed.append _, by simp, hcomplete, ?_, fun hn => ?_⟩
    · intro k hk
      rw [← hlog] at hk
      exact absurd hk (hnone₁ k)
    · obtain ⟨hpresence, hlist⟩ := hresolved hn
      exact ⟨fun r hr => hpresence r (by simpa using hr), fun r hr => hlist r (by simpa using hr)⟩

theorem runRm_spec {x : Crew.Seen RmTask RmWorld} (hx : x.posted = []) (hlog : x.world.log = []) :
    TargetSpec config H (runRm config) (fun _ => Targeted config) x := by
  unfold runRm
  refine wp_bind.2 (wp_mono ?_ (resolveTarget_spec hx hlog))
  rintro (m | size | p) x₁ ⟨hx₁, hnone, hr⟩
  · exact .inl ⟨hx₁, .inl hnone⟩
  · exact removeFile_spec size hx₁ hnone hr
  · cases hrecursive : config.recursive with
    | false =>
      exact .inl ⟨hx₁, .inl hnone⟩
    | true =>
      exact removeDirectory_spec hx₁ hrecursive hnone hr

end Steps

/-! ## What is deleted -/

section Targets

variable {config : RmConfig}

theorem withSlash_named {log : List RmEvent} {p : Str} (h : NamedPrefix config log p) : withSlash p = p := by
  unfold withSlash
  rw [if_neg]
  rintro ⟨hne, hlast⟩
  rcases h with ⟨he, rfl⟩ | ⟨-, rfl, -⟩
  · unfold explicitPrefix at he
    rcases Bool.or_eq_true_iff.1 he with he | he
    · exact hne (List.isEmpty_iff.1 he)
    · exact hlast (eq_of_beq he)
  · exact hlast (List.getLast?_concat ..)

/-- **The keys of a bucket's listing are keys of the bucket.** -/
theorem listedKeys_bucket {log : List RmEvent} {p : Str} {listing : Listing} {B : Bucket} {cancelled : Bool}
    (h : NamedPrefix config log p) (hl : S3ListsWith true B p listing cancelled) {k : Str}
    (hk : k ∈ listedKeys p listing.entries) : B k ≠ none := by
  obtain ⟨e, he, rfl⟩ := List.mem_map.1 hk
  have hkey := s3ListsWith_info hl e he
  rw [makeS3Key, withSlash_named h] at hkey
  rw [hkey]
  exact Option.some_ne_none _

theorem targeted_of_steps {s : Crew RmCall RmTask RmResp RmResult RmWorld}
    (h : RmSteps config ⟨runRm config, [], {}⟩ s) : NamedOnly config s.world.log := by
  have hasks : Asks (Crew.Mine (fun _ => True)) (runRm config) := asks_of_forall (fun c => by cases c <;> trivial) _
  obtain ⟨x, hs⟩ := (rmAsksRule config).sound h (by simp) hasks (runRm_spec (H := fun _ => False) rfl rfl)
  have hrely := hs.rely
  rcases hs.crash (fun _ _ => id) (fun _ hf => hf.elim) with ⟨hx, hn⟩ | ⟨p, listing, hposted, hlisted⟩
  · rw [hx] at hrely
    rw [hrely.log_eq]
    exact hn
  · obtain ⟨events, hlog, hevents⟩ := hrely.log
    rw [hlog]
    refine .inr (.inr ⟨p, listing, hlisted.append fun e he => ?_⟩)
    obtain ⟨k, hk, hkey⟩ := hevents e he
    exact ⟨k, hposted.subset hk, hkey⟩

/-- **`rm` deletes only what was named.**  At every point of every run, whatever S3 answered, the deletes issued are of
the one object named, and then it was reported present; or of keys listed under the prefix named, or under the name
with a separator where the name was answered not to be there, and then `-r` was given and the listing was complete.
None is issued without `--force`, nor where the name could not be resolved. -/
theorem rm_targets {s : Crew RmCall RmTask RmResp RmResult RmWorld} (h : RmSteps config ⟨runRm config, [], {}⟩ s) :
    ((∀ k, Deletes s.world.log k → k = config.prefix_ ∧ ReportedPresent s.world.log config.prefix_) ∨
      ∃ p listing, NamedPrefix config s.world.log p ∧ .enumerated p listing ∈ s.world.log ∧ listing.complete = true ∧
        config.recursive = true ∧ ∀ k, Deletes s.world.log k → k ∈ listedKeys p listing.entries ∧ p <+: k ∧
          ∀ (B : Bucket) cancelled, S3ListsWith true B p listing cancelled → B k ≠ none) ∧
      ∀ k, Deletes s.world.log k → config.force = true ∧ ¬ Unresolved config s.world.log := by
  rcases targeted_of_steps h with hn | hn | ⟨p, listing, hn⟩
  · exact ⟨.inl fun k hk => absurd hk (hn k), fun k hk => absurd hk (hn k)⟩
  · exact ⟨.inl fun k hk => ⟨hn.only k hk, hn.present⟩, fun _ _ => ⟨hn.force, hn.not_unresolved⟩⟩
  · refine ⟨.inr ⟨p, listing, hn.named, hn.listed, hn.complete, hn.recursive, fun k hk => ?_⟩, fun _ _ =>
      ⟨hn.force, hn.not_unresolved⟩⟩
    have hkey := hn.only k hk
    exact ⟨hkey, listedKeys_isPrefix hkey, fun B _ hl => listedKeys_bucket hn.named hl hkey⟩

/-- A run that deletes the object it was given. -/
theorem rm_targets_object : ∃ s : Crew RmCall RmTask RmResp RmResult RmWorld,
    RmSteps { prefix_ := ['a'], force := true } ⟨runRm { prefix_ := ['a'], force := true }, [], {}⟩ s ∧
      Deletes s.world.log ['a'] ∧ ∀ k, Deletes s.world.log k → ¬ Unresolved { prefix_ := ['a'], force := true } s.world.log := by
  let config : RmConfig := { prefix_ := ['a'], force := true }
  let sized : RmWorld := { log := [.size ['a'] 1] }
  let gone : RmWorld := { log := [.size ['a'] 1, .deleted ['a'] true] }
  have hsized : rmExec (.getObjectSize ['a']) {} (1 : Int) sized := rfl
  have hgone : rmExec (.deleteObject ['a']) sized true gone := rfl
  have hrun : RmSteps config ⟨runRm config, [], {}⟩
      ⟨.ret { success := true, objectsDeleted := 1, bytesFreed := BitVec.ofInt 64 1 }, [], gone⟩ := by
    refine .head (.ask hsized) ?_
    refine .head (.ask hgone) ?_
    exact .refl
  refine ⟨_, hrun, ⟨true, by simp [gone]⟩, fun k hk => ((rm_targets hrun).2 k hk).2⟩

end Targets

end Mito
