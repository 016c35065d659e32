import MitoSync.DryRun
import MitoSync.LocalListing
/-!
# TempSweep — `sweep_orphaned_sync_temps` against what the local listings see

Two walks go through one local tree.  The sweep's `recursive_directory_iterator` enters no directory through a link,
and an increment that fails makes it the end iterator, which ends the loop before its error is looked at; the listing
follows links.  Between the sweeps, what the first one left is listed.  The listings hold no temporary file wherever
each root was gone through once and no temporary file is reached through links alone (`sweeps_cover_listings`).
-/
namespace Mito

open Lib

/-! ## The local file system -/

/-- The directories of a machine, and where the paths of the roots lead.  A directory that may not be opened is none. -/
structure LocalFs where
  dir : Nat → Option Dir
  leads : Str → Option Nat
  /-- `weakly_canonical`, or the absolute path where that fails -/
  canonical : Str → Str
  canonical_leads : ∀ {p q : Str}, canonical p = canonical q → leads p = leads q

/-- The tree that is listed from a root. -/
def LocalFs.tree (fs : LocalFs) (root : Str) : Tree where
  root := (fs.leads root).elim .unresolved .dir
  dir := fs.dir

/-- The entries a walk can come to, following links or not. -/
inductive EntryBelow (dir : Nat → Option Dir) (follow : Bool) : Nat → Nat → DirEnt → Prop
  | here {n : Nat} {D : Dir} {e : DirEnt} (hd : dir n = some D) (he : e ∈ D.entries) : EntryBelow dir follow n n e
  | inside {n m k : Nat} {D : Dir} {d e : DirEnt} (hd : dir n = some D) (he : d ∈ D.entries)
      (hl : d.isLink = true → follow = true) (hi : d.item = .dir m) (h : EntryBelow dir follow m k e) :
      EntryBelow dir follow n k e

theorem EntryBelow.mem {dir : Nat → Option Dir} {follow : Bool} {n k : Nat} {e : DirEnt}
    (h : EntryBelow dir follow n k e) : ∃ D, dir k = some D ∧ e ∈ D.entries := by
  induction h with
  | here hd he => exact ⟨_, hd, he⟩
  | inside _ _ _ _ _ ih => exact ih

/-! ## The sweep's walk -/

/-- An entry the iterator comes to: the directory that holds it, and its path. -/
structure Visit where
  node : Nat
  path : Str
  entry : DirEnt

/-- How `recursive_directory_iterator` goes through the rest of a directory, and whether no error kept anything from
it.  `skip_permission_denied` passes by a directory that may not be opened. -/
inductive Walks (dir : Nat → Option Dir) : Nat → Str → List DirEnt → List Visit → Bool → Prop
  | done {n : Nat} {base : Str} : Walks dir n base [] [] true
  /-- `readdir` fails, and the rest of the directory is lost -/
  | stopped {n : Nat} {base : Str} {es : List DirEnt} : Walks dir n base es [] false
  | passed {n : Nat} {base : Str} {e : DirEnt} {es : List DirEnt} {vs : List Visit} {whole : Bool}
      (hp : e.isLink = true ∨ ∀ m, e.item = .dir m → dir m = none) (h : Walks dir n base es vs whole) :
      Walks dir n base (e :: es) (⟨n, base ++ e.name, e⟩ :: vs) whole
  /-- a directory that is not seen to be one, because its type cannot be read -/
  | untyped {n : Nat} {base : Str} {e : DirEnt} {es : List DirEnt} {vs : List Visit} {whole : Bool}
      (h : Walks dir n base es vs whole) :
      Walks dir n base (e :: es) (⟨n, base ++ e.name, e⟩ :: vs) false
  | entered {n m : Nat} {base : Str} {e : DirEnt} {es es' : List DirEnt} {D : Dir} {vs vs' : List Visit}
      {whole whole' : Bool} (hl : e.isLink = false) (hi : e.item = .dir m) (hd : dir m = some D)
      (hp : es'.Perm D.entries) (hin : Walks dir m (base ++ e.name ++ ['/']) es' vs whole)
      (h : Walks dir n base es vs' whole') :
      Walks dir n base (e :: es) (⟨n, base ++ e.name, e⟩ :: (vs ++ vs')) (whole && whole')
  /-- the error makes it the end iterator, in the directory or on opening it -/
  | ended {n m : Nat} {base : Str} {e : DirEnt} {es es' : List DirEnt} {D : Dir} {vs : List Visit}
      (hl : e.isLink = false) (hi : e.item = .dir m) (hd : dir m = some D) (hp : es'.Perm D.entries)
      (hin : Walks dir m (base ++ e.name ++ ['/']) es' vs false) :
      Walks dir n base (e :: es) (⟨n, base ++ e.name, e⟩ :: vs) false

/-- What is visited is in the tree. -/
theorem walks_mem {dir : Nat → Option Dir} {n : Nat} {base : Str} {es : List DirEnt} {vs : List Visit} {whole : Bool}
    (h : Walks dir n base es vs whole) {D : Dir} (hn : dir n = some D) (hs : ∀ e ∈ es, e ∈ D.entries) :
    ∀ v ∈ vs, ∃ D', dir v.node = some D' ∧ v.entry ∈ D'.entries := by
  induction h generalizing D with
  | done | stopped => simp
  | passed _ _ ih | untyped _ ih =>
    rw [List.forall_mem_cons] at hs ⊢
    exact ⟨⟨D, hn, hs.1⟩, ih hn hs.2⟩
  | @entered n m base e es es' D' vs vs' whole whole' _ _ hd hp _ _ ihin ih =>
    rw [List.forall_mem_cons] at hs ⊢
    refine ⟨⟨D, hn, hs.1⟩, fun v hv => ?_⟩
    rcases List.mem_append.1 hv with hv | hv
    · exact ihin hd (fun e he => hp.mem_iff.1 he) v hv
    · exact ih hn hs.2 v hv
  | @ended n m base e es es' D' vs _ _ hd hp _ ihin =>
    rw [List.forall_mem_cons] at hs ⊢
    exact ⟨⟨D, hn, hs.1⟩, ihin hd (fun e he => hp.mem_iff.1 he)⟩

/-- **A walk without an error comes to all it can reach without following links.** -/
theorem walks_whole {dir : Nat → Option Dir} {n : Nat} {base : Str} {es : List DirEnt} {vs : List Visit}
    {whole : Bool} (h : Walks dir n base es vs whole) (hw : whole = true) :
    (∀ e ∈ es, ∃ v ∈ vs, v.node = n ∧ v.entry = e) ∧
    ∀ d ∈ es, d.isLink = false → ∀ m, d.item = .dir m → ∀ k e, EntryBelow dir false m k e →
      ∃ v ∈ vs, v.node = k ∧ v.entry = e := by
  induction h with
  | done => simp
  | stopped | untyped | ended => cases hw
  | @passed n base e es vs whole hp _ ih =>
    obtain ⟨hes, hbelow⟩ := ih hw
    rw [List.forall_mem_cons, List.forall_mem_cons]
    refine ⟨⟨⟨_, List.mem_cons_self, rfl, rfl⟩, fun e' he' => ?_⟩, fun hl m hi k e' hb => ?_,
      fun d hd hl m hi k e' hb => ?_⟩
    · obtain ⟨v, hv, h⟩ := hes e' he'
      exact ⟨v, List.mem_cons_of_mem _ hv, h⟩
    · rcases hp with hp | hp
      · rw [hl] at hp
        cases hp
      · -- nothing is below a directory that may not be opened
        have hnone := hp m hi
        cases hb with
        | here hd _ | inside hd _ _ _ _ => rw [hnone] at hd; cases hd
    · obtain ⟨v, hv, h⟩ := hbelow d hd hl m hi k e' hb
      exact ⟨v, List.mem_cons_of_mem _ hv, h⟩
  | @entered n m base e es es' D vs vs' whole whole' hl hi hd hp _ _ ihin ih =>
    rw [Bool.and_eq_true] at hw
    obtain ⟨hes, hbelow⟩ := ih hw.2
    obtain ⟨hes', hbelow'⟩ := ihin hw.1
    rw [List.forall_mem_cons, List.forall_mem_cons]
    refine ⟨⟨⟨_, List.mem_cons_self, rfl, rfl⟩, fun e' he' => ?_⟩, fun _ m' hi' k e' hb => ?_,
      fun d hd' hl' m' hi' k e' hb => ?_⟩
    · obtain ⟨v, hv, h⟩ := hes e' he'
      exact ⟨v, List.mem_cons_of_mem _ (List.mem_append_right _ hv), h⟩
    · obtain rfl : m = m' := by simpa [hi] using hi'
      have hinside : ∃ v ∈ vs, v.node = k ∧ v.entry = e' := by
        cases hb with
        | here hd' he' =>
          obtain rfl : D = _ := by simpa [hd] using hd'
          exact hes' e' (hp.mem_iff.2 he')
        | inside hd' he' hl' hi' hb =>
          obtain rfl : D = _ := by simpa [hd] using hd'
          exact hbelow' _ (hp.mem_iff.2 he') (by simpa using hl') _ hi' k e' hb
      obtain ⟨v, hv, h⟩ := hinside
      exact ⟨v, List.mem_cons_of_mem _ (List.mem_append_left _ hv), h⟩
    · obtain ⟨v, hv, h⟩ := hbelow d hd' hl' m' hi' k e' hb
      exact ⟨v, List.mem_cons_of_mem _ (List.mem_append_right _ hv), h⟩

/-! ## One root -/

/-- What the system answers about an entry with the name of a temporary file. -/
structure TempAns where
  owner : OwnerAns := .gone
  unlinkError : Option String := none

def Item.isFile : Item → Bool
  | .file _ _ => true
  | _ => false

def Visit.found (answer : Visit → TempAns) (v : Visit) : FoundEntry where
  place := names v.path
  path := String.ofList v.path
  name := v.entry.name
  regular := !v.entry.isLink && v.entry.item.isFile
  owner := (answer v).owner
  unlinkError := (answer v).unlinkError

def Visit.isTemp (v : Visit) : Bool := isSyncTempName v.entry.name

/-- The visits whose entries the sweep unlinks: those of temporary files, as many as it gets to. -/
def unlinked (refuse : Bool) (answer : Visit → TempAns) (vs : List Visit) : List Visit :=
  (vs.filter Visit.isTemp).take (sweepLocalSyncTemps refuse (vs.map (Visit.found answer))).1.length

def Dir.without (D : Dir) (gone : DirEnt → Bool) : Dir where
  entries := D.entries.filter (fun e => !gone e)
  nodup := D.nodup.sublist (List.filter_sublist.map _)
  named e he := D.named e (List.mem_of_mem_filter he)

/-- What is left when the entries of these visits are unlinked. -/
def LocalFs.without (fs : LocalFs) (gone : List Visit) : LocalFs :=
  { fs with
    dir := fun n => (fs.dir n).map fun D =>
      D.without fun e => gone.any fun v => v.node == n && v.entry.name == e.name }

/-- The path of a root as the iterator extends it. -/
def basePath (root : Str) : Str := if root.getLast? = some '/' then root else root ++ ['/']

/-- `sweep_orphaned_sync_temps`: what is left, its error, and whether no swallowed error kept anything from it. -/
inductive SweepsRoot (refuse : Bool) (fs : LocalFs) (root : Str) : LocalFs → Option String → Bool → Prop
  /-- `fs::exists` or `fs::is_directory` fails, and is taken for a no -/
  | uninspected : SweepsRoot refuse fs root fs none false
  | notDirectory (h : fs.leads root = none) : SweepsRoot refuse fs root fs none true
  | unscanned (message : String) : SweepsRoot refuse fs root fs
      (some ("Cannot scan local sync root " ++ String.ofList root ++ ": " ++ message)) true
  | denied {n : Nat} (hr : fs.leads root = some n) (hd : fs.dir n = none) : SweepsRoot refuse fs root fs none true
  /-- the loop, to its end or to an entry it refuses -/
  | swept {n : Nat} {D : Dir} {es : List DirEnt} {vs : List Visit} {whole : Bool} (hr : fs.leads root = some n)
      (hd : fs.dir n = some D) (hp : es.Perm D.entries) (hw : Walks fs.dir n (basePath root) es vs whole)
      (answer : Visit → TempAns) : SweepsRoot refuse fs root (fs.without (unlinked refuse answer vs))
        (sweepLocalSyncTemps refuse (vs.map (Visit.found answer))).2 whole
  /-- the loop, to a temporary file whose status it cannot read -/
  | unread {n : Nat} {D : Dir} {es : List DirEnt} {vs ws : List Visit} {v : Visit} {whole : Bool}
      (hr : fs.leads root = some n) (hd : fs.dir n = some D) (hp : es.Perm D.entries)
      (hw : Walks fs.dir n (basePath root) es (vs ++ v :: ws) whole) (answer : Visit → TempAns)
      (hs : (sweepLocalSyncTemps refuse (vs.map (Visit.found answer))).2 = none)
      (hv : (parseSyncTempPid v.entry.name).isSome = true) (message : String) :
      SweepsRoot refuse fs root (fs.without (unlinked refuse answer vs))
        (some ("Cannot inspect temporary sync file " ++ String.ofList v.path ++ ": " ++ message)) whole

theorem sweepLocalSyncTemps_cons (refuse : Bool) (e : FoundEntry) (es : List FoundEntry) :
    (isSyncTempName e.name = false ∧ sweepLocalSyncTemps refuse (e :: es) = sweepLocalSyncTemps refuse es) ∨
    (isSyncTempName e.name = true ∧ ∃ message, sweepLocalSyncTemps refuse (e :: es) = ([], some message)) ∨
    (isSyncTempName e.name = true ∧ refuse = false ∧ e.regular = true ∧ sweepLocalSyncTemps refuse (e :: es) =
      (e.place :: (sweepLocalSyncTemps refuse es).1, (sweepLocalSyncTemps refuse es).2)) := by
  rw [sweepLocalSyncTemps.eq_2]
  split
  · rename_i h
    exact .inl ⟨by simpa using h, rfl⟩
  · rename_i h
    have hname : isSyncTempName e.name = true := by simpa using h
    split
    · exact .inr (.inl ⟨hname, _, rfl⟩)
    · split
      · exact .inr (.inl ⟨hname, _, rfl⟩)
      · rename_i hreg
        split
        · exact .inr (.inl ⟨hname, _, rfl⟩)
        · exact .inr (.inl ⟨hname, _, rfl⟩)
        · split
          · exact .inr (.inl ⟨hname, _, rfl⟩)
          · rename_i hrefuse
            split
            · exact .inr (.inl ⟨hname, _, rfl⟩)
            · exact .inr (.inr ⟨hname, by simpa using hrefuse, by simpa using hreg, rfl⟩)

/-- **What a sweep unlinks** are regular files with the names of temporary ones, in the places it says; and a sweep
that succeeds unlinks every one it comes to, or comes to none where it refuses them. -/
theorem unlinked_spec (refuse : Bool) (answer : Visit → TempAns) (vs : List Visit) :
    (sweepLocalSyncTemps refuse (vs.map (Visit.found answer))).1 =
        (unlinked refuse answer vs).map (fun v => names v.path) ∧
    (∀ v ∈ unlinked refuse answer vs, v ∈ vs ∧ v.entry.item.isFile = true) ∧
    ((sweepLocalSyncTemps refuse (vs.map (Visit.found answer))).2 = none →
      ∀ v ∈ vs, v.isTemp = true → v ∈ unlinked refuse answer vs) := by
  induction vs with
  | nil => simp [unlinked, sweepLocalSyncTemps]
  | cons v vs ih =>
    obtain ⟨hplace, hfile, hall⟩ := ih
    rw [List.map_cons]
    rcases sweepLocalSyncTemps_cons refuse (v.found answer) (vs.map (Visit.found answer)) with ⟨hn, hs⟩ |
        ⟨hn, message, hs⟩ | ⟨hn, -, hr, hs⟩
    · have hv : v.isTemp = false := hn
      have hu : unlinked refuse answer (v :: vs) = unlinked refuse answer vs := by
        simp only [unlinked, List.map_cons, hs, List.filter_cons, hv, Bool.false_eq_true, if_false]
      rw [hu, hs]
      refine ⟨hplace, fun u hu => ⟨List.mem_cons_of_mem _ (hfile u hu).1, (hfile u hu).2⟩, fun he u hu ht => ?_⟩
      rcases List.mem_cons.1 hu with rfl | hu
      · rw [hv] at ht
        cases ht
      · exact hall he u hu ht
    · have hu : unlinked refuse answer (v :: vs) = [] := by simp only [unlinked, List.map_cons, hs, List.length_nil,
        List.take_zero]
      rw [hu, hs]
      simp
    · have hv : v.isTemp = true := hn
      have hu : unlinked refuse answer (v :: vs) = v :: unlinked refuse answer vs := by
        simp only [unlinked, List.map_cons, hs, List.filter_cons, hv, if_true, List.length_cons, List.take_succ_cons]
      have hvfile : v.entry.item.isFile = true := by
        have h : (!v.entry.isLink && v.entry.item.isFile) = true := hr
        rw [Bool.and_eq_true] at h
        exact h.2
      rw [hu, hs]
      refine ⟨?_, ?_, fun he u hu ht => ?_⟩
      · rw [List.map_cons, hplace]
        rfl
      · rw [List.forall_mem_cons]
        refine ⟨⟨List.mem_cons_self, hvfile⟩, fun u hu => ?_⟩
        exact ⟨List.mem_cons_of_mem _ (hfile u hu).1, (hfile u hu).2⟩
      · rcases List.mem_cons.1 hu with rfl | hu
        · exact List.mem_cons_self
        · exact List.mem_cons_of_mem _ (hall he u hu ht)

/-! ## What a sweep leaves -/

/-- Only files have gone. -/
structure Shrinks (fs fs' : LocalFs) : Prop where
  leads : fs'.leads = fs.leads
  canonical : fs'.canonical = fs.canonical
  gone : ∀ {k : Nat} {D' : Dir}, fs'.dir k = some D' → ∃ D, fs.dir k = some D ∧ ∀ e ∈ D'.entries, e ∈ D.entries
  kept : ∀ {k : Nat} {D : Dir}, fs.dir k = some D →
    ∃ D', fs'.dir k = some D' ∧ ∀ e ∈ D.entries, e.item.isFile = false → e ∈ D'.entries

theorem Shrinks.refl (fs : LocalFs) : Shrinks fs fs :=
  ⟨rfl, rfl, fun h => ⟨_, h, fun _ he => he⟩, fun h => ⟨_, h, fun _ he _ => he⟩⟩

theorem Shrinks.trans {fs fs' fs'' : LocalFs} (h : Shrinks fs fs') (h' : Shrinks fs' fs'') : Shrinks fs fs'' where
  leads := h'.leads.trans h.leads
  canonical := h'.canonical.trans h.canonical
  gone hk := by
    obtain ⟨D', hD', hsub'⟩ := h'.gone hk
    obtain ⟨D, hD, hsub⟩ := h.gone hD'
    exact ⟨D, hD, fun e he => hsub e (hsub' e he)⟩
  kept hk := by
    obtain ⟨D', hD', hsub⟩ := h.kept hk
    obtain ⟨D'', hD'', hsub'⟩ := h'.kept hD'
    exact ⟨D'', hD'', fun e he hf => hsub' e (hsub e he hf) hf⟩

/-- A walk finds nothing new. -/
theorem Shrinks.below {fs fs' : LocalFs} (h : Shrinks fs fs') {follow : Bool} {n k : Nat} {e : DirEnt}
    (hb : EntryBelow fs'.dir follow n k e) : EntryBelow fs.dir follow n k e := by
  induction hb with
  | here hd he =>
    obtain ⟨D, hD, hsub⟩ := h.gone hd
    exact .here hD (hsub _ he)
  | inside hd he hl hi _ ih =>
    obtain ⟨D, hD, hsub⟩ := h.gone hd
    exact .inside hD (hsub _ he) hl hi ih

/-- It still reaches what is there. -/
theorem Shrinks.still_below {fs fs' : LocalFs} (h : Shrinks fs fs') {follow : Bool} {n k : Nat} {e : DirEnt}
    (hb : EntryBelow fs.dir follow n k e) {D' : Dir} (hk : fs'.dir k = some D') (he : e ∈ D'.entries) :
    EntryBelow fs'.dir follow n k e := by
  induction hb with
  | here _ _ => exact .here hk he
  | inside hd hm hl hi _ ih =>
    obtain ⟨D, hD, hsub⟩ := h.kept hd
    exact .inside hD (hsub _ hm (by rw [hi]; rfl)) hl hi (ih hk he)

theorem mem_without {fs : LocalFs} {gone : List Visit} {k : Nat} {D' : Dir} (h : (fs.without gone).dir k = some D') :
    ∃ D, fs.dir k = some D ∧
      ∀ e, e ∈ D'.entries ↔ e ∈ D.entries ∧ ∀ v ∈ gone, v.node = k → v.entry.name ≠ e.name := by
  obtain ⟨D, hD, rfl⟩ := Option.map_eq_some_iff.1 h
  refine ⟨D, hD, fun e => ?_⟩
  simp [Dir.without]

theorem shrinks_without {fs : LocalFs} {gone : List Visit}
    (h : ∀ v ∈ gone, v.entry.item.isFile = true ∧ ∃ D, fs.dir v.node = some D ∧ v.entry ∈ D.entries) :
    Shrinks fs (fs.without gone) where
  leads := rfl
  canonical := rfl
  gone hk := by
    obtain ⟨D, hD, hmem⟩ := mem_without hk
    exact ⟨D, hD, fun e he => ((hmem e).1 he).1⟩
  kept {k D} hk := by
    obtain ⟨D', hk'⟩ : ∃ D', (fs.without gone).dir k = some D' := by simp [LocalFs.without, hk]
    obtain ⟨D₁, hD₁, hmem⟩ := mem_without hk'
    obtain rfl : D = D₁ := by simpa [hk] using hD₁
    refine ⟨D', hk', fun e he hf => (hmem e).2 ⟨he, fun v hv hnode hname => ?_⟩⟩
    -- names in a directory are distinct, so the file that has gone would be the entry
    obtain ⟨hfile, D₂, hD₂, hv₂⟩ := h v hv
    subst hnode
    obtain rfl : D = D₂ := by simpa [hk] using hD₂
    have hsame : v.entry = e := List.inj_on_of_nodup_map D.nodup hv₂ he hname
    rw [hsame, hf] at hfile
    cases hfile

/-- Nothing that a walk from the root can reach without following links has the name of a temporary file. -/
def Swept (fs : LocalFs) (root : Str) : Prop :=
  ∀ n, fs.leads root = some n → ∀ k e, EntryBelow fs.dir false n k e → isSyncTempName e.name = false

theorem Swept.mono {fs fs' : LocalFs} {root : Str} (hs : Swept fs root) (h : Shrinks fs fs') : Swept fs' root :=
  fun n hn k e hb => hs n (h.leads ▸ hn) k e (h.below hb)

theorem unlinked_shrinks {fs : LocalFs} {n : Nat} {D : Dir} {base : Str} {es : List DirEnt} {vs ws : List Visit}
    {whole refuse : Bool} (hd : fs.dir n = some D) (hp : es.Perm D.entries)
    (hw : Walks fs.dir n base es (vs ++ ws) whole) (answer : Visit → TempAns) :
    Shrinks fs (fs.without (unlinked refuse answer vs)) := by
  apply shrinks_without
  intro v hv
  obtain ⟨hmem, hfile⟩ := (unlinked_spec refuse answer vs).2.1 v hv
  exact ⟨hfile, walks_mem hw hd (fun e he => hp.mem_iff.1 he) v (List.mem_append_left _ hmem)⟩

/-- **A sweep of a root takes nothing but files, and one that succeeds without a swallowed error leaves no temporary
file where it walks.** -/
theorem sweepsRoot_spec {refuse : Bool} {fs fs' : LocalFs} {root : Str} {error : Option String} {whole : Bool}
    (h : SweepsRoot refuse fs root fs' error whole) :
    Shrinks fs fs' ∧ (error = none → whole = true → Swept fs' root) := by
  cases h with
  | uninspected => exact ⟨.refl _, fun _ hw => by cases hw⟩
  | notDirectory h => exact ⟨.refl _, fun _ _ n hn => by rw [h] at hn; cases hn⟩
  | unscanned message => exact ⟨.refl _, fun he => by cases he⟩
  | denied hr hd =>
    refine ⟨.refl _, fun _ _ n hn k e hb => ?_⟩
    obtain rfl : _ = n := by simpa [hr] using hn
    cases hb with
    | here hd' _ | inside hd' _ _ _ _ => rw [hd] at hd'; cases hd'
  | unread hr hd hp hw answer hs hv message => exact ⟨unlinked_shrinks hd hp hw answer, fun he => by cases he⟩
  | @swept n D es vs whole hr hd hp hw answer =>
    have hshrinks : Shrinks fs (fs.without (unlinked refuse answer vs)) :=
      @unlinked_shrinks _ _ _ _ _ _ [] _ _ hd hp (by rwa [List.append_nil]) answer
    refine ⟨hshrinks, fun herr hwhole m hm k e hb => ?_⟩
    obtain rfl : n = m := by simpa [LocalFs.without, hr] using hm
    by_contra hne
    have htemp : isSyncTempName e.name = true := by simpa using hne
    have hvisit : ∃ v ∈ vs, v.node = k ∧ v.entry = e := by
      obtain ⟨hes, hbelow⟩ := walks_whole hw hwhole
      cases hshrinks.below hb with
      | here hd' he' =>
        obtain rfl : D = _ := by simpa [hd] using hd'
        exact hes e (hp.mem_iff.2 he')
      | inside hd' he' hl hi hb' =>
        obtain rfl : D = _ := by simpa [hd] using hd'
        exact hbelow _ (hp.mem_iff.2 he') (by simpa using hl) _ hi k e hb'
    obtain ⟨v, hv, rfl, rfl⟩ := hvisit
    have hgone := (unlinked_spec refuse answer vs).2.2 herr v hv htemp
    obtain ⟨D', hD', he'⟩ := hb.mem
    obtain ⟨D'', -, hmem⟩ := mem_without hD'
    exact ((hmem _).1 he').2 v hgone rfl rfl

theorem without_nil (fs : LocalFs) : fs.without [] = fs := by simp [LocalFs.without, Dir.without]

theorem sweep_nothing {refuse : Bool} {answer : Visit → TempAns} {vs : List Visit} (h : ∀ v ∈ vs, v.isTemp = false) :
    sweepLocalSyncTemps refuse (vs.map (Visit.found answer)) = ([], none) := by
  induction vs with
  | nil => rfl
  | cons v vs ih =>
    rw [List.forall_mem_cons] at h
    have hname : isSyncTempName (v.found answer).name = false := h.1
    rw [List.map_cons, sweepLocalSyncTemps.eq_2, hname]
    exact ih h.2

/-- A sweep that comes to no temporary file leaves everything as it is. -/
theorem sweepsRoot_nothing {refuse : Bool} {fs : LocalFs} {root : Str} {n : Nat} {D : Dir} {es : List DirEnt}
    {vs : List Visit} {whole : Bool} (hr : fs.leads root = some n) (hd : fs.dir n = some D) (hp : es.Perm D.entries)
    (hw : Walks fs.dir n (basePath root) es vs whole) (hv : ∀ v ∈ vs, v.isTemp = false) :
    SweepsRoot refuse fs root fs none whole := by
  have h := @SweepsRoot.swept refuse _ _ _ _ _ _ _ hr hd hp hw (fun _ => {})
  rwa [unlinked, sweep_nothing hv, List.length_nil, List.take_zero, without_nil] at h

/-! ## The sweeps of a run -/

def sweepRoots (config : SyncConfig) : List Str :=
  match config.direction with
  | .upload => [config.localPath]
  | .download => [config.localPath]
  | .localToLocal => [config.localPath, config.destLocalPath]
  | .s3ToS3 => []

/-- `sweep_local_sync_temps` over the roots left, with those `seen`: what is left, its error, and the roots that were
gone through without a swallowed error. -/
inductive Sweeps (refuse : Bool) : LocalFs → List Str → List Str → LocalFs → Option String → List Str → Prop
  | done {fs : LocalFs} {seen : List Str} : Sweeps refuse fs [] seen fs none []
  | again {fs fs' : LocalFs} {root : Str} {roots seen whole : List Str} {error : Option String}
      (hc : fs.canonical root ∈ seen) (h : Sweeps refuse fs roots seen fs' error whole) :
      Sweeps refuse fs (root :: roots) seen fs' error whole
  | failed {fs fs' : LocalFs} {root : Str} {roots seen : List Str} {error : String} {all : Bool}
      (hc : fs.canonical root ∉ seen) (hr : SweepsRoot refuse fs root fs' (some error) all) :
      Sweeps refuse fs (root :: roots) seen fs' (some error) []
  | swept {fs fs₁ fs' : LocalFs} {root : Str} {roots seen whole : List Str} {error : Option String} {all : Bool}
      (hc : fs.canonical root ∉ seen) (hr : SweepsRoot refuse fs root fs₁ none all)
      (h : Sweeps refuse fs₁ roots (fs.canonical root :: seen) fs' error whole) :
      Sweeps refuse fs (root :: roots) seen fs' error (if all then fs.canonical root :: whole else whole)

/-- **A sweep takes nothing but files, and one that succeeds leaves no temporary file below the roots it went
through.** -/
theorem sweeps_spec {refuse : Bool} {fs fs' : LocalFs} {roots seen whole : List Str} {error : Option String}
    (h : Sweeps refuse fs roots seen fs' error whole) :
    Shrinks fs fs' ∧ (error = none → ∀ root, fs.canonical root ∈ whole → Swept fs' root) := by
  induction h with
  | done => exact ⟨.refl _, fun _ _ hm => by cases hm⟩
  | again _ _ ih => exact ih
  | failed _ hr => exact ⟨(sweepsRoot_spec hr).1, fun he => by cases he⟩
  | @swept fs fs₁ fs' root roots seen whole error all hc hr _ ih =>
    obtain ⟨hshrinks, hclean⟩ := sweepsRoot_spec hr
    obtain ⟨hshrinks', hclean'⟩ := ih
    refine ⟨hshrinks.trans hshrinks', fun he root' hm => ?_⟩
    have hrest : fs.canonical root' ∈ whole → Swept fs' root' := fun hm =>
      hclean' he root' (by rwa [hshrinks.canonical])
    cases all with
    | false => exact hrest hm
    | true =>
      rcases List.mem_cons.1 hm with heq | hm
      · have hroot : Swept fs₁ root' := by
          intro n hn
          apply hclean rfl rfl n
          rw [hshrinks.leads] at hn ⊢
          rw [← fs.canonical_leads heq]
          exact hn
        exact hroot.mono hshrinks'
      · exact hrest hm

/-- A sweep that refuses temporary files leaves everything as it is. -/
theorem sweeps_refuse {refuse : Bool} {fs fs' : LocalFs} {roots seen whole : List Str} {error : Option String}
    (h : Sweeps refuse fs roots seen fs' error whole) (hr : refuse = true) : fs' = fs := by
  subst hr
  have hroot : ∀ {fs fs' : LocalFs} {root : Str} {error : Option String} {all : Bool},
      SweepsRoot true fs root fs' error all → fs' = fs := by
    intro fs fs' root error all h
    cases h with
    | uninspected | notDirectory | unscanned | denied => rfl
    | swept | unread => rw [unlinked, sweep_refuse, List.length_nil, List.take_zero, without_nil]
  induction h with
  | done => rfl
  | again _ _ ih => exact ih
  | failed _ hr => exact hroot hr
  | swept _ hr _ ih => rw [ih, hroot hr]

/-- The local listings of a run, with their roots. -/
def localListings (config : SyncConfig) (scan : Scan) : List (Str × Listing) :=
  match config.direction with
  | .upload => [(config.localPath, scan.source)]
  | .download => if scan.destExists then [(config.localPath, scan.dest)] else []
  | .localToLocal =>
    (config.localPath, scan.source) :: if scan.destExists then [(config.destLocalPath, scan.dest)] else []
  | .s3ToS3 => []

theorem root_of_localListing {config : SyncConfig} {scan : Scan} {l : Str × Listing}
    (h : l ∈ localListings config scan) : l.1 ∈ sweepRoots config := by
  unfold localListings at h
  unfold sweepRoots
  split at h
  · simp_all
  · split at h <;> simp_all
  · split at h
    · rcases List.mem_cons.1 h with rfl | h <;> simp_all
    · simp_all
  · simp at h

/-- **What a run sees of a local tree that nothing else touches**: a sweep, the listings of what it left, and the sweep
that refuses.  `whole` and `whole'` are the roots each went through without a swallowed error. -/
def Scans (config : SyncConfig) (fs : LocalFs) (scan : Scan) (whole whole' : List Str) : Prop :=
  ∃ left left', Sweeps config.dryRun fs (sweepRoots config) [] left scan.sweep whole ∧
    (∀ l ∈ localListings config scan, ∃ cancelled, LocalLists (left.tree l.1) l.2 cancelled) ∧
    Sweeps true left (sweepRoots config) [] left' scan.sweepAgain whole'

/-- No local listing of the run holds a temporary file. -/
def ListsNoTemp (config : SyncConfig) (scan : Scan) : Prop :=
  ∀ l ∈ localListings config scan, ∀ e ∈ l.2.entries, isSyncTempName (filename e.relativePath) = false

/-- Each root was gone through to its end by one of the sweeps. -/
def GoneThrough (config : SyncConfig) (fs : LocalFs) (whole whole' : List Str) : Prop :=
  ∀ root ∈ sweepRoots config, fs.canonical root ∈ whole ∨ fs.canonical root ∈ whole'

/-- A file with the name of a temporary one that a listing can come to lies where a sweep walks: links to directories
lead to no others. -/
def TempsWalked (config : SyncConfig) (fs : LocalFs) : Prop :=
  ∀ root ∈ sweepRoots config, ∀ n, fs.leads root = some n → ∀ k e, EntryBelow fs.dir true n k e →
    e.item.isFile = true → isSyncTempName e.name = true →
    ∃ root' ∈ sweepRoots config, ∃ n', fs.leads root' = some n' ∧ EntryBelow fs.dir false n' k e

theorem filename_of_name {name : Str} (h : '/' ∉ name) : filename name = name := by
  rw [filename, List.rtakeWhile_eq_self_iff]
  intro c hc
  simpa using fun hslash : c = '/' => h (hslash ▸ hc)

theorem filename_below (name path : Str) : filename (name ++ '/' :: path) = filename path := by
  unfold filename List.rtakeWhile
  rw [List.reverse_append, List.reverse_cons, List.append_assoc, List.takeWhile_append]
  split
  · rename_i hall
    rw [(List.takeWhile_prefix _).eq_of_length hall]
    simp
  · rfl

/-- A file of a tree is an entry a walk that follows links comes to, and its path ends in that entry's name. -/
theorem file_entry {T : Tree} {n : Nat} {path : Str} {i : SyncEntryInfo} (h : T.File n path i) :
    ∃ k e, EntryBelow T.dir true n k e ∧ e.item.isFile = true ∧ filename path = e.name := by
  induction h with
  | @here n D name l size mtime hd he =>
    exact ⟨n, _, .here hd he, rfl, filename_of_name (D.named _ he).2⟩
  | @inside n m D name path l i hd he _ ih =>
    obtain ⟨k, e, hb, hf, hname⟩ := ih
    exact ⟨k, e, .inside hd he (fun _ => rfl) rfl hb, hf, by rw [filename_below, hname]⟩

/-- **The sweeps cover what the listings see**: where both succeed, each root was gone through once without a swallowed
error, and links to directories lead to no temporary files but those a sweep walks to, no local listing of the run
holds one. -/
theorem sweeps_cover_listings {config : SyncConfig} {fs : LocalFs} {scan : Scan} {whole whole' : List Str}
    (h : Scans config fs scan whole whole') (hs : scan.sweep = none) (hs' : scan.sweepAgain = none)
    (hw : GoneThrough config fs whole whole') (ht : TempsWalked config fs) : ListsNoTemp config scan := by
  obtain ⟨left, left', hfirst, hlists, hagain⟩ := h
  obtain ⟨hshrinks, hclean⟩ := sweeps_spec hfirst
  obtain ⟨hshrinks', hclean'⟩ := sweeps_spec hagain
  obtain rfl := sweeps_refuse hagain rfl
  have hswept : ∀ root ∈ sweepRoots config, Swept left' root := by
    intro root hroot
    rcases hw root hroot with hm | hm
    · exact hclean hs root hm
    · exact hclean' hs' root (by rwa [hshrinks.canonical])
  intro l hl e he
  obtain ⟨cancelled, hlist⟩ := hlists l hl
  have hpath : e.relativePath ∈ (left'.tree l.1).paths :=
    (localLists_paths hlist).2.1 _ (List.mem_map_of_mem he)
  obtain ⟨i, n, hroot, hfile⟩ := hpath
  have hleads : left'.leads l.1 = some n := by
    cases hl' : left'.leads l.1 with
    | none => rw [LocalFs.tree, hl'] at hroot; cases hroot
    | some m => rw [LocalFs.tree, hl'] at hroot; cases hroot; rfl
  obtain ⟨k, d, hbelow, hd, hname⟩ := file_entry hfile
  rw [hname]
  by_contra hne
  have htemp : isSyncTempName d.name = true := by simpa using hne
  -- the entry is where a sweep walks, in the tree before the run and so in what the first sweep left
  obtain ⟨root', hroot', n', hn', hwalk⟩ := ht l.1 (root_of_localListing hl) n (hshrinks.leads ▸ hleads) k d
    (hshrinks.below hbelow) hd htemp
  obtain ⟨D, hD, hdD⟩ := hbelow.mem
  have hclear := hswept root' hroot' n' (hshrinks.leads ▸ hn') k d (hshrinks.still_below hwalk hD hdD)
  rw [hclear] at htemp
  cases htemp

/-- Where no link leads to a directory, the sweeps walk wherever the listings do. -/
theorem tempsWalked_of_no_links {config : SyncConfig} {fs : LocalFs}
    (h : ∀ n D, fs.dir n = some D → ∀ e ∈ D.entries, e.isLink = false) : TempsWalked config fs := by
  intro root hroot n hn k e hb _ _
  refine ⟨root, hroot, n, hn, ?_⟩
  clear * - h hb
  induction hb with
  | here hd he => exact .here hd he
  | inside hd he _ hi _ ih => exact .inside hd he (fun hl => by rw [h _ _ hd _ he] at hl; cases hl) hi ih

/-! ## Listings of small trees -/

/-- The file in a directory that a link of the root leads to. -/
theorem lists_linked {T : Tree} {n m : Nat} {link name : Str} {l : Bool} {size mtime : Int} {D D' : Dir}
    (hr : T.root = .dir n) (hd : T.dir n = some D) (h : D.entries = [⟨link, true, .dir m⟩]) (hd' : T.dir m = some D')
    (h' : D'.entries = [⟨name, l, .file size mtime⟩]) :
    LocalLists T { entries := [⟨link ++ ['/'] ++ name, size, mtime⟩] } false := by
  have hscan : scanEntry [] ⟨link, true, .dir m⟩ ⟨true, .directory, none, some m⟩ ⟨[], true, false⟩ =
      ([], [(link ++ ['/'], m)], ⟨[m], true, false⟩) := by
    simp [scanEntry, subdirOf]
  have ha : (⟨true, .directory, none, some m⟩ : EntryAns).Of ((⟨link, true, .dir m⟩ : DirEnt).seen noLimit []) :=
    ⟨fun _ => rfl, m, rfl, .inr rfl⟩
  have hlevel : (localWalker T noLimit).Run { level := [([], n)], shared := ⟨[], true, false⟩ }
      { level := [(link ++ ['/'], m)], shared := ⟨[m], true, false⟩ } := run_entry hd h ha hscan
  exact .walked hr (.inl rfl) (hlevel.trans (run_file hd' h')) ⟨rfl, rfl, rfl, .inl rfl⟩

/-! ## Three uploads -/

def uploadOf (root : Str) : SyncConfig := { localPath := root }

def oneEntry (e : DirEnt) (h : e.name ≠ [] ∧ '/' ∉ e.name) : Dir where
  entries := [e]
  nodup := List.nodup_singleton _
  named := by simpa using h

def leftTemp : DirEnt := ⟨".f-1-0.mito-tmp".toList, false, .file 3 0⟩

/-- A file system with two directories, all paths leading to the first. -/
def twoDirs (D D' : Dir) : LocalFs where
  dir n := if n = 0 then some D else if n = 1 then some D' else none
  leads _ := some 0
  canonical := id
  canonical_leads _ := rfl

theorem twoDirs_dir {D D' E : Dir} {n : Nat} (h : (twoDirs D D').dir n = some E) : E = D ∨ E = D' := by
  simp only [twoDirs] at h
  split at h
  · exact .inl (Option.some.inj h).symm
  · split at h
    · exact .inr (Option.some.inj h).symm
    · cases h

/-- The root holds a file and a temporary one. -/
def bothFiles : Dir where
  entries := [leftTemp, ⟨['b'], false, .file 5 7⟩]
  nodup := by decide +kernel
  named := by decide +kernel

/-- The root holds a link to a directory outside, and that one a temporary file. -/
def linkedTemp : LocalFs :=
  twoDirs (oneEntry ⟨"out".toList, true, .dir 1⟩ (by decide)) (oneEntry leftTemp (by decide))

/-- A temporary file behind a link, and one that both sweeps miss because `readdir` fails on them. -/
theorem temp_listed :
    (∃ scan, Scans (uploadOf "/a".toList) linkedTemp scan ["/a".toList] ["/a".toList] ∧ scan.sweep = none ∧
      scan.sweepAgain = none ∧ GoneThrough (uploadOf "/a".toList) linkedTemp ["/a".toList] ["/a".toList] ∧
      ¬ ListsNoTemp (uploadOf "/a".toList) scan) ∧
    ∃ fs scan, Scans (uploadOf "/a".toList) fs scan [] [] ∧ scan.sweep = none ∧ scan.sweepAgain = none ∧
      TempsWalked (uploadOf "/a".toList) fs ∧ ¬ ListsNoTemp (uploadOf "/a".toList) scan := by
  constructor
  · have hwalk : Walks linkedTemp.dir 0 (basePath "/a".toList) [⟨"out".toList, true, .dir 1⟩]
        [⟨0, basePath "/a".toList ++ "out".toList, ⟨"out".toList, true, .dir 1⟩⟩] true :=
      .passed (.inl rfl) .done
    have hsweep : ∀ refuse, SweepsRoot refuse linkedTemp "/a".toList linkedTemp none true := fun refuse =>
      sweepsRoot_nothing rfl rfl (.refl _) hwalk (by decide +kernel)
    refine ⟨{ source := { entries := [⟨"out/.f-1-0.mito-tmp".toList, 3, 0⟩] }, dest := { entries := [] } },
      ⟨linkedTemp, linkedTemp, .swept List.not_mem_nil (hsweep _) .done, ?_,
        .swept List.not_mem_nil (hsweep _) .done⟩, rfl, rfl, ?_, ?_⟩
    · intro l hl
      obtain rfl := List.mem_singleton.1 hl
      exact ⟨false, lists_linked (T := linkedTemp.tree "/a".toList) rfl rfl rfl rfl rfl⟩
    · simp [GoneThrough, sweepRoots, uploadOf, linkedTemp, twoDirs]
    · intro h
      have := h _ (List.mem_singleton.2 rfl) _ (List.mem_singleton.2 rfl)
      revert this
      decide +kernel
  · have hsweep : ∀ refuse, SweepsRoot refuse (twoDirs (oneEntry leftTemp (by decide)) (oneEntry leftTemp (by decide)))
        "/a".toList _ none false := fun refuse => sweepsRoot_nothing rfl rfl (.refl _) .stopped (by simp)
    refine ⟨_, { source := { entries := [⟨leftTemp.name, 3, 0⟩] }, dest := { entries := [] } },
      ⟨_, _, .swept List.not_mem_nil (hsweep _) .done, ?_, .swept List.not_mem_nil (hsweep _) .done⟩, rfl, rfl, ?_, ?_⟩
    · intro l hl
      obtain rfl := List.mem_singleton.1 hl
      exact ⟨false, lists_file (T := LocalFs.tree _ "/a".toList) rfl rfl rfl⟩
    · apply tempsWalked_of_no_links
      intro n D hD
      rcases twoDirs_dir hD with rfl | rfl <;> decide
    · intro h
      have := h _ (List.mem_singleton.2 rfl) _ (List.mem_singleton.2 rfl)
      revert this
      decide +kernel

/-- An orphan of a process that is gone is unlinked. -/
theorem sweep_orphan {f : FoundEntry} {fs : List FoundEntry} (hn : isSyncTempName f.name = true)
    (hp : parseSyncTempPid f.name ≠ none) (hr : f.regular = true) (ho : f.owner = .gone) (hu : f.unlinkError = none) :
    sweepLocalSyncTemps false (f :: fs) =
      (f.place :: (sweepLocalSyncTemps false fs).1, (sweepLocalSyncTemps false fs).2) := by
  obtain ⟨pid, hpid⟩ := Option.ne_none_iff_exists'.1 hp
  rw [sweepLocalSyncTemps.eq_2, if_neg (by simp [hn]), hpid]
  dsimp only
  rw [if_neg (by simp [hr]), ho]
  dsimp only [processExists]
  rw [if_neg (by simp), hu]

theorem unlinks_orphan {v : Visit} {vs : List Visit} (hn : v.isTemp = true)
    (hp : parseSyncTempPid v.entry.name ≠ none) (hr : v.entry.isLink = false ∧ v.entry.item.isFile = true)
    (hvs : ∀ w ∈ vs, w.isTemp = false) :
    (sweepLocalSyncTemps false ((v :: vs).map (Visit.found fun _ => {}))).2 = none ∧
      unlinked false (fun _ => {}) (v :: vs) = [v] := by
  have hreg : (v.found fun _ => {}).regular = true := by
    change (!v.entry.isLink && v.entry.item.isFile) = true
    rw [hr.1, hr.2]
    rfl
  have hs : sweepLocalSyncTemps false ((v :: vs).map (Visit.found fun _ => {})) = ([names v.path], none) := by
    rw [List.map_cons, @sweep_orphan (v.found fun _ => {}) _ hn hp hreg rfl rfl, sweep_nothing hvs]
    rfl
  refine ⟨by rw [hs], ?_⟩
  rw [unlinked, hs, List.filter_cons, if_pos hn]
  rfl

def cleanScan : Scan where
  source := { entries := [⟨['b'], 5, 7⟩] }
  dest := { entries := [] }

theorem sweeps_cover_listings_both : ListsNoTemp (uploadOf "/a".toList) cleanScan := by
  let fs := twoDirs bothFiles bothFiles
  let b : DirEnt := ⟨['b'], false, .file 5 7⟩
  let path := basePath "/a".toList
  have hfirst : SweepsRoot false fs "/a".toList (fs.without [⟨0, path ++ leftTemp.name, leftTemp⟩]) none true := by
    have hwalk : Walks fs.dir 0 path bothFiles.entries
        [⟨0, path ++ leftTemp.name, leftTemp⟩, ⟨0, path ++ b.name, b⟩] true :=
      .passed (.inr fun _ h => by cases h) (.passed (.inr fun _ h => by cases h) .done)
    have h := @SweepsRoot.swept false fs "/a".toList 0 bothFiles _ _ _ rfl rfl (.refl _) hwalk (fun _ => {})
    obtain ⟨herror, hgone⟩ := @unlinks_orphan ⟨0, path ++ leftTemp.name, leftTemp⟩ [⟨0, path ++ b.name, b⟩]
      (by decide +kernel) (by decide +kernel) ⟨rfl, rfl⟩ (by simp [Visit.isTemp]; decide +kernel)
    rwa [herror, hgone] at h
  obtain ⟨D, hD, hentries⟩ : ∃ D, (fs.without [⟨0, path ++ leftTemp.name, leftTemp⟩]).dir 0 = some D ∧
      D.entries = [b] := ⟨_, rfl, by decide +kernel⟩
  have hagain : SweepsRoot true (fs.without [⟨0, path ++ leftTemp.name, leftTemp⟩]) "/a".toList _ none true :=
    sweepsRoot_nothing rfl hD (by rw [hentries]) (.passed (.inr fun _ h => by cases h) .done)
      (by simp [Visit.isTemp]; decide +kernel)
  refine @sweeps_cover_listings _ fs _ ["/a".toList] ["/a".toList]
    ⟨_, _, .swept List.not_mem_nil hfirst .done, ?_, .swept List.not_mem_nil hagain .done⟩ rfl rfl
    (by simp [GoneThrough, sweepRoots, uploadOf, fs, twoDirs]) (tempsWalked_of_no_links ?_)
  · intro l hl
    obtain rfl := List.mem_singleton.1 hl
    exact ⟨false, lists_file (T := LocalFs.tree _ "/a".toList) rfl hD hentries⟩
  · intro n D hD
    rcases twoDirs_dir hD with rfl | rfl <;> decide

end Mito
