import MitoSync.DeleteAliases
import MitoSync.Gate
import MitoSync.Listings
/-!
# OwnSource — whether a sync destroys what it reads

The lines of a plan as steps on the buckets and the disk, in any order and between any steps of one another: an
object's key is given another object or none, and on the disk a checked path's directories, temporary and target are
made and a deleted path's entry is taken away.  While every line is `Clear` of the source when it acts, the entries of
the source listing are what they were (`source_kept`).  Two local roots are checked for this; two prefixes of one
bucket are not (`nested_prefix_deleted`).
-/
namespace Mito

open Lib Files

/-- What stands in the buckets and on the disk. -/
structure Stands where
  objects : Str → Str → Option Stored
  files : Files
  content : Loc → Stored

/-- The same while a plan's lines work, with the paths they have accepted and the temporaries they have made. -/
structure Syncing extends Stands where
  accepted : List Str := []
  temps : List Loc := []

/-- The path of a line's local destination. -/
def localTarget (config : SyncConfig) (f : SyncFileEntry) : Str := pathAppend (destRoot config) f.relativePath

/-- **What a line's executor does**, one step at a time: it may stop after any, and a check holds for all that
follows. -/
inductive Acts (config : SyncConfig) (f : SyncFileEntry) : Syncing → Syncing → Prop
  /-- a put, a copy or a completed upload, or a delete -/
  | object {s : Syncing} (hd : config.direction = .upload ∨ config.direction = .s3ToS3) (v : Option Stored) :
      Acts config f s { s with objects := fun b k =>
        if b = config.destination.bucket ∧ k = destKey config f.relativePath then v else s.objects b k }
  | check {s : Syncing} (hd : config.direction = .download ∨ config.direction = .localToLocal)
      (hacc : accepts s.files (destRoot config) f.relativePath = true) :
      Acts config f s { s with accepted := f.relativePath :: s.accepted }
  | directories {s : Syncing} (hacc : f.relativePath ∈ s.accepted) (refused : Loc → Bool) :
      Acts config f s { s with files := createDirectories refused s.files (parentPath (localTarget config f)) }
  /-- the temporary of an `AtomicFileWriter`, under a name that was free -/
  | temporary {s : Syncing} {d : Loc} {x : Name} (hacc : f.relativePath ∈ s.accepted)
      (hd : openedIn s.files (localTarget config f) = some d) (hfree : s.files.node (d ++ [x]) = none)
      (hmade : (s.files.place d x .file).node (d ++ [x]) = some .file) (v : Stored) :
      Acts config f s { s with files := s.files.place d x .file
                               content := Function.update s.content (d ++ [x]) v
                               temps := (d ++ [x]) :: s.temps }
  /-- a temporary removed, or renamed away -/
  | discard {s : Syncing} {t : Loc} (ht : t ∈ s.temps) (leaf : s.files.Leaf t) :
      Acts config f s { s with files := s.files.remove t leaf }
  /-- a rename to the target, or a write in place -/
  | commit {s : Syncing} {l : Loc} (hacc : f.relativePath ∈ s.accepted) {d : Loc}
      (hd : openedIn s.files (localTarget config f) = some d) (hl : l = d ++ [filename (localTarget config f)])
      (hfile : (s.files.place d (filename (localTarget config f)) .file).node l = some .file) (v : Stored) :
      Acts config f s { s with files := s.files.place d (filename (localTarget config f)) .file
                               content := Function.update s.content l v }
  | remove {s : Syncing} {l : Loc} (hacc : f.relativePath ∈ s.accepted) (ha : f.action = .delete) {d : Loc}
      (hd : openedIn s.files (localTarget config f) = some d) (hl : l = d ++ [filename (localTarget config f)])
      (leaf : s.files.Leaf l) : Acts config f s { s with files := s.files.remove l leaf }

/-- A run of a plan's lines, to any point of it, each step taken where `ok` holds. -/
inductive LinesRun (config : SyncConfig) (lines : List SyncFileEntry) (ok : SyncFileEntry → Syncing → Prop)
    (s₀ : Stands) : Syncing → Prop
  | start : LinesRun config lines ok s₀ { s₀ with }
  | step {s s' : Syncing} {f : SyncFileEntry} (h : LinesRun config lines ok s₀ s) (hf : f ∈ lines) (hok : ok f s)
      (ha : Acts config f s s') : LinesRun config lines ok s₀ s'

def sourceKey (config : SyncConfig) (p : Str) : Str := makeS3Key config.source.path p

/-- The file a source path leads to. -/
def SourceFileAt (config : SyncConfig) (s₀ : Stands) (p : Str) (k : Loc) : Prop :=
  counterpart s₀.files config.localPath p = some k ∧ s₀.files.node k = some .file

/-- **The entries of a source listing are what they were.** -/
def SourceKept (config : SyncConfig) (paths : List Str) (s₀ s : Stands) : Prop :=
  match config.direction with
  | .upload | .localToLocal =>
    ∀ p ∈ paths, ∀ k, SourceFileAt config s₀ p k → s.files.node k = some .file ∧ s.content k = s₀.content k
  | .download | .s3ToS3 =>
    ∀ p ∈ paths, s.objects config.source.bucket (sourceKey config p) =
      s₀.objects config.source.bucket (sourceKey config p)

/-- **A line that acts clear of the source**: between buckets its key is no listed object's; between directories it
works where the destination leads, and no file of the source is there. -/
def Clear (config : SyncConfig) (paths : List Str) (s₀ : Stands) (f : SyncFileEntry) (s : Syncing) : Prop :=
  match config.direction with
  | .upload | .download => True
  | .s3ToS3 => config.source.bucket = config.destination.bucket →
      ∀ p ∈ paths, destKey config f.relativePath ≠ sourceKey config p
  | .localToLocal => ∀ d, openedIn s.files (localTarget config f) = some d →
      ∃ b, canonical s.files config.destLocalPath = some b ∧ b <+: d ∧
        ∀ p ∈ paths, ∀ k, SourceFileAt config s₀ p k → ¬ b <+: k

/-! ## What one step keeps -/

section Step

variable {config : SyncConfig} {paths : List Str} {lines : List SyncFileEntry} {s₀ : Stands} {s s' : Syncing}
  {f : SyncFileEntry}

theorem node_place_file {fs : Files} {d k : Loc} {x : Name} (h : fs.node k = some .file) :
    (fs.place d x .file).node k = some .file := by
  have hgrows : Grows fs (fs.place d x .file) := place_file_grows d x
  obtain he | ⟨hn, -⟩ := hgrows.node k
  · rw [he, h]
  · rw [h] at hn
    cases hn

theorem node_createDirectories {fs : Files} {refused : Loc → Bool} {p : Str} {k : Loc}
    (h : fs.node k = some .file) : (createDirectories refused fs p).node k = some .file := by
  obtain he | ⟨hn, -⟩ := (createDirectoriesFrom_grows refused (startAt fs.cwd p) (names p) fs []).grows.node k
  · exact he.trans h
  · rw [h] at hn
    cases hn

/-- **What a line does to a file on the disk**, unless the file is its target or a temporary: nothing. -/
theorem Acts.file (h : Acts config f s s') {k : Loc} (hk : s.files.node k = some .file) (htemp : k ∉ s.temps)
    (hne : ∀ d, openedIn s.files (localTarget config f) = some d → k ≠ d ++ [filename (localTarget config f)]) :
    s'.files.node k = some .file ∧ s'.content k = s.content k ∧ k ∉ s'.temps := by
  cases h with
  | object _ _ => exact ⟨hk, rfl, htemp⟩
  | check _ _ => exact ⟨hk, rfl, htemp⟩
  | directories _ _ => exact ⟨node_createDirectories hk, rfl, htemp⟩
  | @temporary d x _ _ hfree _ v =>
    have hkx : k ≠ d ++ [x] := by
      rintro rfl
      rw [hk] at hfree
      cases hfree
    exact ⟨node_place_file hk, Function.update_of_ne hkx _ _, by simpa using ⟨hkx, htemp⟩⟩
  | discard ht leaf =>
    have hkt : k ≠ _ := fun he => htemp (he ▸ ht)
    exact ⟨(remove_node leaf hkt).trans hk, rfl, htemp⟩
  | @commit l _ d hd hl _ v =>
    exact ⟨node_place_file hk, Function.update_of_ne (hl ▸ hne d hd) _ _, htemp⟩
  | @remove l _ _ d hd hl leaf => exact ⟨(remove_node leaf (hl ▸ hne d hd)).trans hk, rfl, htemp⟩

/-- **What a line does to an object** that is not its own: nothing. -/
theorem Acts.object_kept (h : Acts config f s s') {b k : Str}
    (hk : config.direction = .upload ∨ config.direction = .s3ToS3 →
      ¬ (b = config.destination.bucket ∧ k = destKey config f.relativePath)) :
    s'.objects b k = s.objects b k := by
  cases h with
  | object hd v => exact if_neg (hk hd)
  | check | directories | temporary | discard | commit | remove => rfl

/-- Only a run between local roots, or down from a bucket, works on the disk. -/
theorem Acts.untouched (h : Acts config f s s') (hd : config.direction = .upload ∨ config.direction = .s3ToS3)
    (ha : s.accepted = []) (ht : s.temps = []) :
    s'.files = s.files ∧ s'.content = s.content ∧ s'.accepted = [] ∧ s'.temps = [] := by
  cases h with
  | object _ _ => exact ⟨rfl, rfl, ha, ht⟩
  | check hd' _ => rcases hd with hd | hd <;> rcases hd' with hd' | hd' <;> rw [hd] at hd' <;> cases hd'
  | directories hacc _ | temporary hacc _ _ _ _ | commit hacc _ _ _ _ | remove hacc _ _ _ _ =>
    rw [ha] at hacc
    cases hacc
  | discard ht' _ =>
    rw [ht] at ht'
    cases ht'

end Step

/-! ## What a run keeps -/

section Run

variable {config : SyncConfig} {paths : List Str} {lines : List SyncFileEntry} {s₀ : Stands} {s : Syncing}

theorem LinesRun.mono {ok ok' : SyncFileEntry → Syncing → Prop} (hok : ∀ f ∈ lines, ∀ s, ok f s → ok' f s)
    (h : LinesRun config lines ok s₀ s) : LinesRun config lines ok' s₀ s := by
  induction h with
  | start => exact .start
  | step _ hf h ha ih => exact .step ih hf (hok _ hf _ h) ha

/-- Between buckets the keys of the lines alone change. -/
theorem objects_kept (h : LinesRun config lines (Clear config paths s₀) s₀ s)
    (hd : config.direction = .download ∨ config.direction = .s3ToS3) :
    ∀ p ∈ paths, s.objects config.source.bucket (sourceKey config p) =
      s₀.objects config.source.bucket (sourceKey config p) := by
  induction h with
  | start => exact fun _ _ => rfl
  | @step s s' f _ hf hok ha ih =>
    intro p hp
    refine (ha.object_kept fun hd' => ?_).trans (ih p hp)
    rintro ⟨hb, hk⟩
    have h3 : config.direction = .s3ToS3 := by
      rcases hd with hd | hd
      · rcases hd' with hd' | hd' <;> rw [hd] at hd' <;> cases hd'
      · exact hd
    unfold Clear at hok
    rw [h3] at hok
    exact hok hb p hp hk.symm

/-- A run to a bucket leaves the disk alone. -/
theorem disk_untouched {ok : SyncFileEntry → Syncing → Prop} (h : LinesRun config lines ok s₀ s)
    (hd : config.direction = .upload ∨ config.direction = .s3ToS3) :
    s.files = s₀.files ∧ s.content = s₀.content ∧ s.accepted = [] ∧ s.temps = [] := by
  induction h with
  | start => exact ⟨rfl, rfl, rfl, rfl⟩
  | step _ _ _ ha ih =>
    obtain ⟨hf, hc, h1, h2⟩ := ha.untouched hd ih.2.2.1 ih.2.2.2
    exact ⟨hf.trans ih.1, hc.trans ih.2.1, h1, h2⟩

/-- **Between directories, what the destination does not lead to is left alone.** -/
theorem files_kept (h : LinesRun config lines (Clear config paths s₀) s₀ s) (hd : config.direction = .localToLocal)
    {p : Str} (hp : p ∈ paths) {k : Loc} (hk : SourceFileAt config s₀ p k) :
    s.files.node k = some .file ∧ s.content k = s₀.content k ∧ k ∉ s.temps := by
  induction h with
  | start => exact ⟨hk.2, rfl, List.not_mem_nil⟩
  | @step s s' f _ hf hok ha ih =>
    obtain ⟨h1, h2, h3⟩ := ih
    have hne : ∀ d, openedIn s.files (localTarget config f) = some d → k ≠ d ++ [filename (localTarget config f)] := by
      intro d hopen he
      unfold Clear at hok
      rw [hd] at hok
      obtain ⟨b, -, hbd, hclear⟩ := hok d hopen
      exact hclear p hp k hk (he ▸ hbd.trans (List.prefix_append d _))
    obtain ⟨h1', h2', h3'⟩ := ha.file h1 h3 hne
    exact ⟨h1', h2'.trans h2, h3'⟩

theorem sourceKept_of_clear (h : LinesRun config lines (Clear config paths s₀) s₀ s) :
    SourceKept config paths s₀ s.toStands := by
  unfold SourceKept
  cases hd : config.direction with
  | upload =>
    obtain ⟨hf, hc, -⟩ := disk_untouched h (.inl hd)
    intro p _ k hk
    exact ⟨hf ▸ hk.2, by rw [hc]⟩
  | download => exact objects_kept h (.inl hd)
  | s3ToS3 => exact objects_kept h (.inr hd)
  | localToLocal =>
    intro p hp k hk
    obtain ⟨h1, h2, -⟩ := files_kept h hd hp hk
    exact ⟨h1, h2⟩

/-- A line whose key is a listed object's destroys the object. -/
theorem source_lost (hd : config.direction = .s3ToS3) {f : SyncFileEntry} (hf : f ∈ lines)
    (hb : config.source.bucket = config.destination.bucket) {p : Str} (hp : p ∈ paths)
    (hk : destKey config f.relativePath = sourceKey config p) :
    ∃ s, LinesRun config lines (fun _ _ => True) s₀ s ∧ ¬ SourceKept config paths s₀ s.toStands := by
  have hv : ∃ v, v ≠ s₀.objects config.source.bucket (sourceKey config p) := by
    cases ho : s₀.objects config.source.bucket (sourceKey config p) with
    | none => exact ⟨some ⟨[], 0⟩, by simp⟩
    | some o => exact ⟨none, by simp⟩
  obtain ⟨v, hv⟩ := hv
  have hact : Acts config f { s₀ with } _ := .object (.inr hd) v
  refine ⟨_, .step .start hf trivial hact, fun hkept => hv ?_⟩
  unfold SourceKept at hkept
  rw [hd] at hkept
  rw [← hkept p hp]
  exact (if_pos ⟨hb, hk.symm⟩).symm

/-- **A sync never destroys its own source where its lines act clear of it**: in any order of their steps every entry
of the source listing is left as it was.  Where a bucket is written or read that is all there is to it: a line that is
not clear can destroy an entry at once. -/
theorem source_kept (config : SyncConfig) (paths : List Str) (lines : List SyncFileEntry) (s₀ : Stands) :
    (∀ s, LinesRun config lines (Clear config paths s₀) s₀ s → SourceKept config paths s₀ s.toStands) ∧
      (config.direction ≠ .localToLocal →
        ((∀ s, LinesRun config lines (fun _ _ => True) s₀ s → SourceKept config paths s₀ s.toStands) ↔
          ∀ f ∈ lines, Clear config paths s₀ f { s₀ with })) := by
  refine ⟨fun s h => sourceKept_of_clear h, fun hlocal => ⟨fun h f hf => ?_, fun h s hs => ?_⟩⟩
  · unfold Clear
    cases hd : config.direction with
    | upload | download => trivial
    | localToLocal => exact absurd hd hlocal
    | s3ToS3 =>
      intro hb p hp hk
      obtain ⟨s, hs, hlost⟩ := source_lost hd hf hb hp hk
      exact hlost (h s hs)
  · refine sourceKept_of_clear (hs.mono fun f hf s' _ => ?_)
    have hclear := h f hf
    unfold Clear at hclear ⊢
    cases hd : config.direction with
    | upload | download => trivial
    | localToLocal => exact absurd hd hlocal
    | s3ToS3 =>
      rw [hd] at hclear
      exact hclear

/-- A copy between two buckets. -/
def copyConfig : SyncConfig where
  direction := .s3ToS3
  source := { bucket := ['k'] }
  destination := { bucket := ['l'] }

/-- An object in the one, and nothing in the others. -/
def oneObject : Stands where
  objects b _ := if b = ['k'] then some ⟨[7], 5⟩ else none
  files := bare
  content _ := ⟨[], 0⟩

/-- The object arrives, and the source has it still. -/
theorem source_kept_copy :
    ∃ s, LinesRun copyConfig [{ relativePath := ['x'], action := .copy }] (Clear copyConfig [['x']] oneObject)
        oneObject s ∧
      s.objects ['l'] ['x'] = some ⟨[7], 9⟩ ∧ SourceKept copyConfig [['x']] oneObject s.toStands := by
  have hact : Acts copyConfig { relativePath := ['x'], action := .copy } { oneObject with } _ :=
    .object (.inr rfl) (some ⟨[7], 9⟩)
  have hclear : Clear copyConfig [['x']] oneObject { relativePath := ['x'], action := .copy } { oneObject with } :=
    fun hb => absurd hb (by decide)
  have hmem : ({ relativePath := ['x'], action := .copy } : SyncFileEntry) ∈
      [({ relativePath := ['x'], action := .copy } : SyncFileEntry)] := List.mem_singleton_self _
  have hrun := LinesRun.start.step hmem hclear hact
  exact ⟨_, hrun, by decide, (source_kept copyConfig [['x']] _ oneObject).1 _ hrun⟩

end Run

/-! ## The executors' own runs -/

section Executors

open Prog

variable {S : Setting} {limits : Limits} {config : SyncConfig} {files : List SyncFileEntry}
  {hn : (files.map SyncFileEntry.relativePath).Nodup} {w : World} {y : (Fin files.length → Exec Outcome) × World}

/-- The lines one after another, each leaving its key's object as another world has it. -/
theorem linesRun_objects (hd : config.direction = .upload ∨ config.direction = .s3ToS3) (s₀ : Stands)
    (store : Str → Option Stored) : ∀ done : List SyncFileEntry, (∀ f ∈ done, f ∈ files) →
      ∃ s, LinesRun config files (fun _ _ => True) s₀ s ∧ ∀ b k,
        ((b = config.destination.bucket ∧ ∃ f ∈ done, destKey config f.relativePath = k) → s.objects b k = store k) ∧
          (¬ (b = config.destination.bucket ∧ ∃ f ∈ done, destKey config f.relativePath = k) →
            s.objects b k = s₀.objects b k)
  | [], _ => ⟨_, .start, fun b k => ⟨by simp, fun _ => rfl⟩⟩
  | f :: done, hsub => by
    obtain ⟨s, hs, hobj⟩ := linesRun_objects hd s₀ store done fun g hg => hsub g (List.mem_cons_of_mem _ hg)
    have hact : Acts config f s _ := .object hd (store (destKey config f.relativePath))
    refine ⟨_, hs.step (hsub f List.mem_cons_self) trivial hact, fun b k => ?_⟩
    dsimp only
    by_cases hk : b = config.destination.bucket ∧ k = destKey config f.relativePath
    · rw [if_pos hk]
      refine ⟨fun _ => by rw [hk.2], fun hno => absurd ⟨hk.1, f, List.mem_cons_self, hk.2.symm⟩ hno⟩
    · rw [if_neg hk]
      constructor
      · rintro ⟨hb, g, hg, hgk⟩
        obtain rfl | hg := List.mem_cons.1 hg
        · exact absurd ⟨hb, hgk.symm⟩ hk
        · exact (hobj b k).1 ⟨hb, g, hg, hgk⟩
      · intro hno
        refine (hobj b k).2 ?_
        rintro ⟨hb, g, hg, hgk⟩
        exact hno ⟨hb, g, List.mem_cons_of_mem _ hg, hgk⟩

/-- **A bucket after the executors' own run is one that the lines' steps make.** -/
theorem linesRun_of_executes (h : Executes S limits config files hn w y)
    (hd : config.direction = .upload ∨ config.direction = .s3ToS3) (s₀ : Stands)
    (hs₀ : s₀.objects config.destination.bucket = w.store) :
    ∃ s, LinesRun config files (fun _ _ => True) s₀ s ∧ s.objects config.destination.bucket = y.2.store ∧
      ∀ b, b ≠ config.destination.bucket → s.objects b = s₀.objects b := by
  obtain ⟨s, hs, hobj⟩ := linesRun_objects hd s₀ y.2.store files fun _ hf => hf
  refine ⟨s, hs, ?_, fun b hb => ?_⟩
  · funext k
    by_cases hk : ∃ f ∈ files, destKey config f.relativePath = k
    · exact (hobj _ k).1 ⟨rfl, hk⟩
    · rw [(hobj _ k).2 fun h => hk h.2, hs₀]
      exact (executes_frame h fun f hf hfk => hk ⟨f, hf, hfk⟩).symm
  · funext k
    exact (hobj b k).2 fun h => hb h.1

/-- **So the executors keep the source**, where every line of a copy within a bucket is clear of it. -/
theorem executes_source_kept (h : Executes S limits config files hn w y) (hd : config.direction = .s3ToS3)
    {paths : List Str} (hb : config.source.bucket = config.destination.bucket)
    (hclear : ∀ f ∈ files, ∀ p ∈ paths, destKey config f.relativePath ≠ sourceKey config p) :
    ∀ p ∈ paths, y.2.store (sourceKey config p) = w.store (sourceKey config p) := by
  obtain ⟨s, hs, hstore, -⟩ := linesRun_of_executes h (.inr hd) ⟨fun _ => w.store, bare, fun _ => ⟨[], 0⟩⟩ rfl
  have hrun : LinesRun config files (Clear config paths ⟨fun _ => w.store, bare, fun _ => ⟨[], 0⟩⟩)
      ⟨fun _ => w.store, bare, fun _ => ⟨[], 0⟩⟩ s := by
    refine hs.mono fun f hf s' _ => ?_
    unfold Clear
    rw [hd]
    exact fun _ => hclear f hf
  intro p hp
  rw [← hstore, ← hb]
  exact objects_kept hrun (.inr hd) p hp

end Executors

/-! ## When lines are clear -/

section Roots

variable {config : SyncConfig} {paths : List Str} {s₀ : Stands} {s : Syncing} {f : SyncFileEntry}

/-- **Prefixes apart**: no key under one is under the other. -/
theorem clear_of_prefixes (hd : config.direction = .s3ToS3)
    (h : ¬ withSlash config.source.path <+: withSlash config.destination.path)
    (h' : ¬ withSlash config.destination.path <+: withSlash config.source.path) : Clear config paths s₀ f s := by
  unfold Clear
  rw [hd]
  intro _ p _ hk
  have hkey : withSlash config.destination.path ++ f.relativePath = withSlash config.source.path ++ p := by
    have hroot : destRoot config = config.destination.path := by
      unfold destRoot
      rw [hd]
    rw [destKey, hroot] at hk
    exact hk
  rcases List.prefix_or_prefix_of_prefix (List.prefix_append _ f.relativePath)
    (hkey ▸ List.prefix_append (withSlash config.source.path) p) with hpre | hpre
  · exact h' hpre
  · exact h hpre

/-- The check of two local roots, as `weakly_canonical` gives them. -/
def overlapMessage (sourceCanonical destCanonical : Str) : Option String :=
  if withSlash sourceCanonical = withSlash destCanonical then some "Source and destination paths are the same"
  else if (withSlash sourceCanonical).isPrefixOf (withSlash destCanonical) then
    some "Destination is inside source directory"
  else if (withSlash destCanonical).isPrefixOf (withSlash sourceCanonical) then
    some "Source is inside destination directory"
  else none

theorem withSlash_render {l : Loc} (h : ∀ x ∈ l, isName x = true) :
    withSlash (render l) = l.flatMap (fun x => '/' :: x) ++ ['/'] := by
  induction l using List.reverseRecOn with
  | nil => rfl
  | append_singleton l x _ =>
    have hx := h x (List.mem_append_right _ (List.mem_singleton_self x))
    unfold isName at hx
    simp only [Bool.and_eq_true, decide_eq_true_eq, Bool.not_eq_true', List.contains_eq_mem,
      decide_eq_false_iff_not] at hx
    obtain ⟨⟨⟨hne, -⟩, -⟩, hslash⟩ := hx
    have hr : render (l ++ [x]) = (l ++ [x]).flatMap (fun x => '/' :: x) := if_neg (by simp)
    have hlast : (render (l ++ [x])).getLast? ≠ some '/' := by
      intro hl
      rw [hr, List.flatMap_append, List.flatMap_singleton, List.getLast?_append_cons,
        List.getLast?_cons_of_ne_nil hne] at hl
      exact hslash (List.mem_of_getLast? hl)
    unfold withSlash
    rw [if_pos ⟨by rw [hr]; simp, hlast⟩, hr]

/-- **Roots that pass the check do not hold one another.** -/
theorem apart_of_overlapMessage {a b : Loc} (ha : ∀ x ∈ a, isName x = true) (hb : ∀ x ∈ b, isName x = true)
    (h : overlapMessage (render a) (render b) = none) : ¬ a <+: b ∧ ¬ b <+: a := by
  have hpre : ∀ {k l : Loc}, (∀ x ∈ k, isName x = true) → (∀ x ∈ l, isName x = true) → k <+: l →
      (withSlash (render k)).isPrefixOf (withSlash (render l)) = true := by
    intro k l hk hl hkl
    obtain ⟨t, rfl⟩ := hkl
    rw [withSlash_render hk, withSlash_render hl, List.isPrefixOf_iff_prefix, List.flatMap_append, List.append_assoc]
    refine (List.prefix_append_right_inj _).mpr ?_
    cases t with
    | nil => exact List.prefix_rfl
    | cons x t => exact ⟨_, rfl⟩
  unfold overlapMessage at h
  split at h
  · cases h
  · split at h
    · cases h
    · rename_i h1
      split at h
      · cases h
      · rename_i h2
        exact ⟨fun hab => h1 (hpre ha hb hab), fun hba => h2 (hpre hb ha hba)⟩

/-- **Roots apart, and a source without links**: a line that was just checked is clear of the source. -/
theorem clear_of_roots (hd : config.direction = .localToLocal) (hne : config.destLocalPath ≠ []) {a : Loc}
    (ha : canonical s₀.files config.localPath = some a) (hlinks : ∀ k t, a <+: k → s₀.files.node k ≠ some (.link t))
    (hplain : ∀ p ∈ paths, Plain p) {b : Loc} (hb : canonical s.files config.destLocalPath = some b)
    (hroots : overlapMessage (render a) (render b) = none)
    (hacc : accepts s.files config.destLocalPath f.relativePath = true) : Clear config paths s₀ f s := by
  have hnames : ∀ {fs : Files} {p : Str} {l : Loc}, canonical fs p = some l → ∀ x ∈ l, isName x = true := by
    intro fs p l hl
    obtain ⟨-, k, hk⟩ := leadsTo_some.mp hl
    exact isName_of_node (node_of_walk (node_startAt fs p) hk)
  obtain ⟨hab, hba⟩ := apart_of_overlapMessage (hnames ha) (hnames hb) hroots
  have htarget : localTarget config f = pathAppend config.destLocalPath f.relativePath := by
    unfold localTarget destRoot
    rw [hd]
  unfold Clear
  rw [hd]
  intro d hopen
  unfold openedIn at hopen
  rw [htarget, if_neg (target_dir (valid_of_accepts hacc) hne).2.1] at hopen
  obtain ⟨b', hb', hbd⟩ := contained_of_accepts hne hacc d hopen
  obtain rfl : b' = b := Option.some.inj (hb'.symm.trans hb)
  refine ⟨b', hb, hbd, ?_⟩
  rintro p hp k ⟨hk, -⟩ hbk
  unfold counterpart at hk
  split at hk
  · cases hk
  · have hak : a <+: k := by
      rw [canonical_plain ha hlinks (hplain p hp) hk]
      exact List.prefix_append _ _
    rcases List.prefix_or_prefix_of_prefix hak hbk with h | h
    · exact hab h
    · exact hba h

end Roots

/-! ## Prefixes that nest -/

/-- A bucket of one object, `a/x`. -/
def nestedBucket : Bucket := fun k => if k = ['a', '/', 'x'] then some ⟨1, 5⟩ else none

theorem nestedBucket_finite : nestedBucket.Finite := by
  refine (Set.finite_singleton (['a', '/', 'x'] : Str)).subset ?_
  intro k hk
  by_contra hne
  exact hk (if_neg hne)

theorem nestedBucket_lists {prefix_ path : Str} (h : makeS3Key prefix_ path = ['a', '/', 'x'])
    (hpath : isFilePath path) : S3Lists nestedBucket prefix_ { entries := [⟨path, 1, 5⟩] } false := by
  obtain ⟨es, hes, hlists⟩ := exists_s3Lists nestedBucket_finite prefix_
  have hone : nestedBucket.Lists false prefix_ [⟨path, 1, 5⟩] := by
    refine ⟨by simp, fun e => ?_⟩
    rw [List.mem_singleton]
    constructor
    · rintro rfl
      exact ⟨.inr hpath, if_pos h⟩
    · rintro ⟨-, hb⟩
      unfold nestedBucket at hb
      split at hb
      · rename_i hk
        have hp : e.relativePath = path := makeS3Key_inj (hk.trans h.symm)
        obtain ⟨hs, hm⟩ := SyncEntryInfo.mk.inj (Option.some.inj hb)
        cases e
        simp only at hp hs hm
        rw [hp, ← hs, ← hm]
      · cases hb
  obtain rfl := List.perm_singleton.1 (hlists.perm hone)
  exact hes

/-- A sync of the prefix `a` to the whole of its bucket. -/
def nestedConfig : SyncConfig where
  direction := .s3ToS3
  source := { bucket := ['k'], path := ['a'] }
  destination := { bucket := ['k'] }
  deleteOrphans := true

def nestedScan : Scan where
  source := { entries := [⟨['x'], 1, 5⟩] }
  dest := { entries := [⟨['a', '/', 'x'], 1, 5⟩] }

/-- A bucket as its listings see it. -/
def Stands.bucket (s₀ : Stands) (b : Str) : Bucket := fun k => (s₀.objects b k).map fun o => ⟨o.bytes.length, o.mtime⟩

/-- **A prefix is deleted by its own sync**: copied to the bucket it is in, with the orphans deleted, it is all orphans
itself. -/
theorem nested_prefix_deleted : ¬ ∀ (config : SyncConfig) (sides : Sides) (scan : Scan) (files : List SyncFileEntry)
    (s₀ : Stands), sides.sourceBucket = s₀.bucket config.source.bucket →
      sides.destBucket = s₀.bucket config.destination.bucket → Scanned sides config scan →
      planRun config scan = .ok files →
        ∀ s, LinesRun config (actionable files) (fun _ _ => True) s₀ s →
          SourceKept config scan.source.paths s₀ s.toStands := by
  intro h
  have hscan : Scanned ⟨oneFileTree 0 0, oneFileTree 0 0, nestedBucket, nestedBucket⟩ nestedConfig nestedScan :=
    ⟨⟨false, nestedBucket_lists rfl ⟨by simp, by simp⟩, by simp⟩,
      ⟨false, nestedBucket_lists rfl ⟨by simp, by simp⟩, by simp⟩, by simp [nestedScan]⟩
  have hplan : planRun nestedConfig nestedScan = .ok
      [sourceLine s3ToS3Roles [⟨['a', '/', 'x'], 1, 5⟩] ⟨['x'], 1, 5⟩,
        orphanLine s3ToS3Roles ⟨['a', '/', 'x'], 1, 5⟩] := rfl
  have hline : orphanLine s3ToS3Roles ⟨['a', '/', 'x'], 1, 5⟩ ∈ actionable
      [sourceLine s3ToS3Roles [⟨['a', '/', 'x'], 1, 5⟩] ⟨['x'], 1, 5⟩,
        orphanLine s3ToS3Roles ⟨['a', '/', 'x'], 1, 5⟩] := by
    refine List.mem_filter.2 ⟨by simp, rfl⟩
  let s₀ : Stands := ⟨fun _ k => if k = ['a', '/', 'x'] then some ⟨[7], 5⟩ else none, bare, fun _ => ⟨[], 0⟩⟩
  have hbucket : nestedBucket = s₀.bucket ['k'] := by
    funext k
    show nestedBucket k = (if k = ['a', '/', 'x'] then some (⟨[7], 5⟩ : Stored) else none).map _
    unfold nestedBucket
    split <;> rfl
  have hact : Acts nestedConfig (orphanLine s3ToS3Roles ⟨['a', '/', 'x'], 1, 5⟩) { s₀ with } _ :=
    .object (.inr rfl) none
  have hkept := h nestedConfig _ nestedScan _ s₀ hbucket hbucket hscan hplan _ (.step .start hline trivial hact)
  have hlost := hkept ['x'] (by simp [nestedScan, Listing.paths])
  exact absurd hlost (by decide)

end Mito
