import MitoSync.Containment
import MitoSync.LocalListing
import MitoSync.Planner
/-!
# DeleteAliases — what the deletes of a plan take from a local destination

An orphan is a path the source listing lacks, and paths are compared as strings; a delete takes away what the path's
directory holds under its last name, links on the way followed.  So where an orphan and a source path are two names of
one file, the delete takes the source path's file (`spares_iff`).  Paths without a link on their way are never so
(`spares_of_plain`); an orphan behind a link to a directory is (`linked_copy_deleted`).
-/
namespace Mito

open Lib Files

/-- The directory entry a path names: its directory followed, its last name not. -/
def entryAt (fs : Files) (base r : Str) : Option Loc :=
  (openedIn fs (pathAppend base r)).map (· ++ [filename (pathAppend base r)])

/-- The entry `delete_local_file` hands to `fs::remove`, where the path passes its checks. -/
def removedAt (fs : Files) (base r : Str) : Option Loc := if accepts fs base r = true then entryAt fs base r else none

/-- The paths a plan deletes. -/
def deletedPaths (files : List SyncFileEntry) : List Str :=
  (files.filter (·.action = .delete)).map SyncFileEntry.relativePath

/-- What the deletes of planned paths come to, from a tree: any of them, in any order, and each check as long before
its removal as may be.  `fs::remove` takes a link itself, and a directory only where it is empty. -/
inductive OrphanDeletes (base : Str) (planned : List Str) (fs : Files) : Writing → Prop
  | start : OrphanDeletes base planned fs ⟨fs, []⟩
  | check {s : Writing} {q : Str} (h : OrphanDeletes base planned fs s) (hq : q ∈ planned)
      (hacc : accepts s.files base q = true) : OrphanDeletes base planned fs ⟨s.files, q :: s.accepted⟩
  | remove {s : Writing} {q : Str} {l : Loc} (h : OrphanDeletes base planned fs s) (hq : q ∈ s.accepted)
      (hl : entryAt s.files base q = some l) (leaf : s.files.Leaf l) :
      OrphanDeletes base planned fs ⟨s.files.remove l leaf, s.accepted⟩

/-- Where a path's counterpart leads, its links followed.  What ends in a separator names no file. -/
def counterpart (fs : Files) (base p : Str) : Option Loc :=
  if p.getLast? = some '/' then none else canonical fs (pathAppend base p)

/-- **The files of the paths are all left**, at the places they had. -/
def SparesSources (fs : Files) (base : Str) (planned paths : List Str) : Prop :=
  ∀ s, OrphanDeletes base planned fs s → ∀ p ∈ paths, ∀ l, counterpart fs base p = some l → fs.node l = some .file →
    s.files.node l = some .file

/-- An orphan's entry is the file a source path leads to. -/
def SameFile (fs : Files) (base q p : Str) : Prop :=
  ∃ l, removedAt fs base q = some l ∧ counterpart fs base p = some l ∧ fs.node l = some .file

theorem mem_deletedPaths {r : Roles} {deleteOrphans : Bool} {src dst : List DirectoryEntry} {q : Str} :
    q ∈ deletedPaths (planEntries r deleteOrphans src dst) ↔
      deleteOrphans = true ∧ q ∈ (orphans src dst).map DirectoryEntry.relativePath := by
  unfold deletedPaths
  rw [List.mem_map]
  constructor
  · rintro ⟨f, hf, rfl⟩
    obtain ⟨hf, ha⟩ := List.mem_filter.mp hf
    have ha : f.action = .delete := by simpa using ha
    rcases mem_planEntries.mp hf with ⟨e, -, rfl⟩ | ⟨hd, e, he, rfl⟩
    · exact absurd ha (sourceAction_ne_delete _ _ _)
    · rw [orphanLine_path]
      exact ⟨hd, List.mem_map_of_mem he⟩
  · rintro ⟨hd, hq⟩
    obtain ⟨e, he, rfl⟩ := List.mem_map.mp hq
    exact ⟨orphanLine r e, List.mem_filter.mpr ⟨mem_planEntries.mpr (.inr ⟨hd, e, he, rfl⟩), rfl⟩, orphanLine_path r e⟩

/-! ## A tree that shrinks -/

variable {fs fs' : Files} {base q p : Str}

theorem canonical_shrinks (h : Shrinks fs fs') {p : Str} {l : Loc} (hl : canonical fs' p = some l) :
    canonical fs p = some l := by
  obtain ⟨hp, k, hk⟩ := leadsTo_some.mp hl
  have hw := walk_shrinks h (node_startAt fs' p) hk
  rw [h.cwd] at hw
  exact leadsTo_some.mpr ⟨hp, k, hw⟩

/-- Where a directory is opened in what is left, it was opened before. -/
theorem entryAt_shrinks (h : Shrinks fs fs') {l : Loc} (hl : entryAt fs' base q = some l) :
    entryAt fs base q = some l := by
  unfold entryAt openedIn at hl ⊢
  split at hl
  · rename_i hp
    rw [if_pos hp, ← h.cwd]
    exact hl
  · rename_i hp
    obtain ⟨d, hd, hl⟩ := Option.map_eq_some_iff.mp hl
    rw [if_neg hp, canonical_shrinks h hd]
    exact congrArg some hl

/-- **The check of a path whose directory is there**: the directory's place against the base's. -/
theorem accepts_of_dir {b d : Loc} (hb : canonical fs base = some b)
    (hd : canonical fs (parentPath (pathAppend base q)) = some d) :
    accepts fs base q = (targetAccepted base q && isInside (render b) (render d)) := by
  unfold accepts validateTargetResolvesWithinBase
  rw [hb]
  dsimp only
  unfold canonicalAncestor
  rw [hd]

/-- **What passed the checks once, its directory there, passed them before.** -/
theorem accepts_shrinks (h : Shrinks fs fs') (hacc : accepts fs' base q = true) {l : Loc}
    (hl : entryAt fs' base q = some l) : accepts fs base q = true := by
  by_cases hbase : base = []
  · subst hbase
    exact hacc
  · have hv := valid_of_accepts hacc
    have hl' := hl
    unfold entryAt openedIn at hl'
    rw [if_neg (target_dir hv hbase).2.1] at hl'
    obtain ⟨d, hd, -⟩ := Option.map_eq_some_iff.mp hl'
    obtain ⟨b, hb⟩ := base_leads hv hbase hd
    rw [accepts_of_dir (canonical_shrinks h hb) (canonical_shrinks h hd), ← accepts_of_dir hb hd]
    exact hacc

/-! ## The deletes of a run -/

/-- What holds of a run's deletes: nothing is new, what was accepted had passed the checks, and only what a planned
path's delete takes is gone. -/
structure Taken (base : Str) (planned : List Str) (fs : Files) (s : Writing) : Prop where
  shrinks : Shrinks fs s.files
  accepted : ∀ q ∈ s.accepted, q ∈ planned ∧ ∃ fs', Shrinks fs fs' ∧ Shrinks fs' s.files ∧ accepts fs' base q = true
  gone : ∀ l, s.files.node l = fs.node l ∨ ∃ q ∈ planned, removedAt fs base q = some l

theorem taken_of_orphanDeletes {planned : List Str} {s : Writing} (h : OrphanDeletes base planned fs s) :
    Taken base planned fs s := by
  induction h with
  | start => exact ⟨.refl fs, fun q hq => absurd hq List.not_mem_nil, fun _ => .inl rfl⟩
  | @check s q h hq hacc ih =>
    refine ⟨ih.shrinks, fun q' hq' => ?_, ih.gone⟩
    obtain rfl | hq' := List.mem_cons.mp hq'
    · exact ⟨hq, s.files, ih.shrinks, .refl _, hacc⟩
    · exact ih.accepted q' hq'
  | @remove s q l h hq hl leaf ih =>
    have hgone := remove_shrinks leaf
    refine ⟨ih.shrinks.trans hgone, fun q' hq' => ?_, fun k => ?_⟩
    · obtain ⟨hp, fs', h1, h2, hacc⟩ := ih.accepted q' hq'
      exact ⟨hp, fs', h1, h2.trans hgone, hacc⟩
    · by_cases hk : k = l
      · obtain ⟨hp, fs', h1, h2, hacc⟩ := ih.accepted q hq
        have hacc' := accepts_shrinks h1 hacc (entryAt_shrinks h2 hl)
        refine .inr ⟨q, hp, ?_⟩
        unfold removedAt
        rw [if_pos hacc', entryAt_shrinks ih.shrinks hl, hk]
      · rw [remove_node leaf hk]
        exact ih.gone k

theorem leaf_of_file {l : Loc} (h : fs.node l = some .file) : fs.Leaf l := by
  refine ⟨?_, ?_, fun x => node_below_none (by rw [h]; rfl) (List.prefix_append l [x]) (by simp)⟩
  · rintro rfl
    have := fs.root
    rw [h] at this
    cases this
  · rintro rfl
    have := fs.home
    rw [h] at this
    cases this

/-- **An orphan that is a source path's file takes it.** -/
theorem SameFile.taken {planned : List Str} (h : SameFile fs base q p) (hq : q ∈ planned) :
    ∃ s l, OrphanDeletes base planned fs s ∧ counterpart fs base p = some l ∧ fs.node l = some .file ∧
      s.files.node l = none := by
  obtain ⟨l, hr, hp, hf⟩ := h
  unfold removedAt at hr
  split at hr
  · rename_i hacc
    have hleaf : fs.Leaf l := leaf_of_file hf
    have hchecked : OrphanDeletes base planned fs ⟨fs, [q]⟩ := .check .start hq hacc
    exact ⟨_, l, .remove hchecked List.mem_cons_self hr hleaf, hp, hf, remove_self hleaf⟩
  · cases hr

/-- **OrphanDeletes spare the paths whose files no deleted path's own entry is**, and only those. -/
theorem spares_iff_apart {planned paths : List Str} :
    SparesSources fs base planned paths ↔ ∀ q ∈ planned, ∀ p ∈ paths, ¬ SameFile fs base q p := by
  constructor
  · intro h q hq p hp hsame
    obtain ⟨s, l, hs, hl, hf, hn⟩ := hsame.taken hq
    have hleft := h s hs p hp l hl hf
    rw [hn] at hleft
    cases hleft
  · intro h s hs p hp l hl hf
    obtain he | ⟨q, hq, hr⟩ := (taken_of_orphanDeletes hs).gone l
    · rw [he]
      exact hf
    · exact absurd ⟨l, hr, hl, hf⟩ (h q hq p hp)

/-- **When deletes spare the source's counterparts**: any of a plan's deletes, in any order, leave the files that the
source's paths lead to exactly where no orphan's own entry is one of them. -/
theorem spares_iff (r : Roles) (fs : Files) (base : Str) (deleteOrphans : Bool) (src dst : List DirectoryEntry) :
    SparesSources fs base (deletedPaths (planEntries r deleteOrphans src dst)) (src.map DirectoryEntry.relativePath) ↔
      (deleteOrphans = true → ∀ q ∈ (orphans src dst).map DirectoryEntry.relativePath,
        ∀ p ∈ src.map DirectoryEntry.relativePath, ¬ SameFile fs base q p) := by
  rw [spares_iff_apart]
  constructor
  · intro h hdel q hq
    exact h q (mem_deletedPaths.mpr ⟨hdel, hq⟩)
  · intro h q hq
    obtain ⟨hdel, hq⟩ := mem_deletedPaths.mp hq
    exact h hdel q hq

/-! ## Paths without links -/

/-- A path with no empty component, and none that is `.` or `..`. -/
def Plain (p : Str) : Prop := ∀ c ∈ p.splitOn '/', c ≠ [] ∧ c ≠ dot ∧ c ≠ dotDot

theorem Plain.names (h : Plain p) : names p = p.splitOn '/' := by
  unfold Lib.names
  rw [List.filter_eq_self]
  intro c hc
  simpa using (h c hc).1

theorem Plain.ext (hp : Plain p) (hq : Plain q) (h : Lib.names p = Lib.names q) : p = q := by
  rw [hp.names, hq.names] at h
  have hjoin : ∀ r : Str, ['/'].intercalate (r.splitOn '/') = r := fun r => List.intercalate_splitOn '/'
  rw [← hjoin p, ← hjoin q, h]

theorem Plain.head (h : Plain p) : p.head? ≠ some '/' := by
  intro hh
  cases p with
  | nil => cases hh
  | cons c p =>
    obtain rfl := Option.some.inj hh
    exact (h [] (by simp [List.splitOn_cons_eq_if_modifyHead])).1 rfl

/-- A path under a base: the base's names, then its own. -/
theorem names_pathAppend (hp : p.head? ≠ some '/') (hb : base ≠ []) :
    names (pathAppend base p) = names base ++ names p ∧ ∀ l, startAt l (pathAppend base p) = startAt l base := by
  obtain ⟨d, hd, hnames⟩ := withSlash_eq hb
  have ht : pathAppend base p = d ++ '/' :: p := by
    rw [pathAppend_eq hp, hd, List.append_assoc]
    rfl
  have hbase : base <+: pathAppend base p := by
    rw [pathAppend_eq hp]
    unfold withSlash
    split
    · rw [List.append_assoc]
      exact List.prefix_append _ _
    · exact List.prefix_append _ _
  refine ⟨by rw [ht, names_append, hnames], fun l => ?_⟩
  unfold startAt
  rw [head?_prefix_eq hbase hb]

theorem filename_eq {d f : Str} (hf : '/' ∉ f) : filename (d ++ '/' :: f) = f := by
  unfold filename
  induction f using List.reverseRecOn with
  | nil => exact List.rtakeWhile_concat_neg _ _ _ (by simp)
  | append_singleton f c ih =>
    rw [List.mem_append, not_or] at hf
    have hc : c ≠ '/' := fun h => hf.2 (by simp [h])
    rw [← List.cons_append, ← List.append_assoc, List.rtakeWhile_concat_pos _ _ _ (by simpa using hc), ih hf.1]

/-- **What a plain path leads to below a base without links.** -/
theorem canonical_plain {b l : Loc} (hb : canonical fs base = some b)
    (hlinks : ∀ k t, b <+: k → fs.node k ≠ some (.link t)) (hp : Plain p)
    (hl : canonical fs (pathAppend base p) = some l) : l = b ++ names p := by
  obtain ⟨hbase, kb, hkb⟩ := leadsTo_some.mp hb
  obtain ⟨-, k, hk⟩ := leadsTo_some.mp hl
  obtain ⟨hn, hs⟩ := names_pathAppend hp.head hbase
  rw [hn, hs, walk_append, hkb] at hk
  have hk : fs.walk false kb b (names p) = .found l k := hk
  refine walk_plain hlinks (fun c hc => ?_) hk
  rw [hp.names] at hc
  exact (hp c hc).2

/-- The entry of a path below a base without links is where the path leads. -/
theorem entryAt_plain {b l : Loc} (hb : canonical fs base = some b)
    (hlinks : ∀ k t, b <+: k → fs.node k ≠ some (.link t)) (hv : validateRelativePath q = true)
    (hl : entryAt fs base q = some l) (hf : fs.node l = some .file) : l = b ++ names q := by
  obtain ⟨hbase, kb, hkb⟩ := leadsTo_some.mp hb
  obtain ⟨⟨ds, hnames, hds⟩, hne, hstart⟩ := target_dir hv hbase
  unfold entryAt openedIn at hl
  rw [if_neg hne] at hl
  obtain ⟨d, hd, rfl⟩ := Option.map_eq_some_iff.mp hl
  obtain ⟨-, k, hk⟩ := leadsTo_some.mp hd
  rw [hnames, hstart, walk_append, hkb] at hk
  have hk : fs.walk false kb b ds = .found d k := hk
  have hmem : '/' ∈ pathAppend base q := by
    by_contra hno
    exact hne (parentPath_of_not_mem hno)
  obtain ⟨d', f, ht, hslash⟩ := rdropWhile_head hmem
  have hname : filename (pathAppend base q) = f := by rw [ht, filename_eq hslash]
  rw [hname] at hf ⊢
  have hfne : f ≠ [] := by
    rintro rfl
    have := (fs.within d [] (by rw [hf]; exact nofun)).2
    cases this
  have hq : names base ++ names q = names base ++ (ds ++ [f]) := by
    rw [← (names_pathAppend (validateRelativePath_head hv) hbase).1, ← List.append_assoc, ← hnames, ht,
      names_parentPath hslash, names_append, names_of_not_mem hslash hfne]
  rw [walk_plain hlinks hds hk, List.append_cancel_left hq, List.append_assoc]

/-- **Where no links are, deletes spare every counterpart**: below the base stands none, and both listings name their
files plainly. -/
theorem spares_of_plain (r : Roles) {b : Loc} (deleteOrphans : Bool) {src dst : List DirectoryEntry}
    (hb : canonical fs base = some b) (hlinks : ∀ k t, b <+: k → fs.node k ≠ some (.link t))
    (hsrc : ∀ p ∈ src.map DirectoryEntry.relativePath, Plain p)
    (hdst : ∀ q ∈ dst.map DirectoryEntry.relativePath, Plain q) :
    SparesSources fs base (deletedPaths (planEntries r deleteOrphans src dst))
      (src.map DirectoryEntry.relativePath) := by
  refine spares_iff_apart.mpr fun q hq p hp => ?_
  rintro ⟨l, hr, hl, hf⟩
  obtain ⟨-, hq⟩ := mem_deletedPaths.mp hq
  obtain ⟨e, he, rfl⟩ := List.mem_map.mp hq
  obtain ⟨hd, hno⟩ := mem_orphans.mp he
  unfold removedAt at hr
  split at hr
  · rename_i hacc
    unfold counterpart at hl
    split at hl
    · cases hl
    · have hsame : names e.relativePath = names p :=
        List.append_cancel_left ((entryAt_plain hb hlinks (valid_of_accepts hacc) hr hf).symm.trans
          (canonical_plain hb hlinks (hsrc p hp) hl))
      exact hno ((hdst _ (List.mem_map_of_mem hd)).ext (hsrc p hp) hsame ▸ hp)
  · cases hr

/-! ## An orphan behind a link -/

/-- What stands where a name leads, in a tree of files. -/
def ItemAt (fs : Files) (place : Nat → Loc) (l : Loc) (x : Name) : Item → Prop
  | .file _ _ => ∃ k links, fs.walk false maxSymlinks l [x] = .found k links ∧ fs.node k = some .file
  | .dir n => ∃ links, fs.walk false maxSymlinks l [x] = .found (place n) links ∧ isDir (fs.node (place n)) = true
  | .special => False
  | .unresolved => ∀ k links, fs.walk false maxSymlinks l [x] ≠ .found k links

/-- The tree an enumerator reads under a base, each of its directories at one place. -/
structure Depicts (fs : Files) (base : Str) (T : Tree) (place : Nat → Loc) : Prop where
  root : ∃ n, T.root = .dir n ∧ canonical fs base = some (place n)
  names : ∀ n D, T.dir n = some D → ∀ x, fs.node (place n ++ [x]) ≠ none ↔ x ∈ D.entries.map DirEnt.name
  links : ∀ n D, T.dir n = some D → ∀ e ∈ D.entries,
    (e.isLink = true ↔ ∃ t, fs.node (place n ++ [e.name]) = some (.link t))
  items : ∀ n D, T.dir n = some D → ∀ e ∈ D.entries, ItemAt fs place (place n) e.name e.item

/-- A destination `/b` with a file `r/x` and a link `l` to `r`. -/
def linkedCopy : Files :=
  (((bare.place [] ['b'] (.dir true)).place [['b']] ['r'] (.dir true)).place [['b'], ['r']] ['x'] .file).place
    [['b']] ['l'] (.link ['r'])

/-- What the enumerator reads there. -/
def linkedCopyTree : Tree where
  root := .dir 0
  dir n :=
    if n = 0 then some ⟨[⟨['r'], false, .dir 1⟩, ⟨['l'], true, .dir 1⟩], by decide, by decide⟩
    else if n = 1 then some ⟨[⟨['x'], false, .file 1 5⟩], by decide, by decide⟩
    else none

def linkedCopyPlace (n : Nat) : Loc := if n = 0 then [['b']] else [['b'], ['r']]

theorem linkedCopy_dir {n : Nat} {D : Dir} (h : linkedCopyTree.dir n = some D) :
    n = 0 ∧ D.entries = [⟨['r'], false, .dir 1⟩, ⟨['l'], true, .dir 1⟩] ∨
      n = 1 ∧ D.entries = [⟨['x'], false, .file 1 5⟩] := by
  unfold linkedCopyTree at h
  dsimp only at h
  split at h
  · rename_i hn
    obtain rfl := Option.some.inj h
    exact .inl ⟨hn, rfl⟩
  · split at h
    · rename_i hn
      obtain rfl := Option.some.inj h
      exact .inr ⟨hn, rfl⟩
    · cases h

/-- Everything that stands in the destination. -/
theorem linkedCopy_node (l : Loc) : linkedCopy.node l =
    if l = [['b'], ['l']] then some (.link ['r']) else if l = [['b'], ['r'], ['x']] then some .file
    else if l = [['b'], ['r']] then some (.dir true) else if l = [['b']] then some (.dir true)
    else if l = [] then some (.dir true) else none := by
  unfold linkedCopy
  rw [place_at _ (by decide +kernel), place_at _ (by decide +kernel), place_at _ (by decide +kernel),
    place_at _ (by decide +kernel)]
  rfl

theorem linkedCopy_depicted : Depicts linkedCopy ['/', 'b'] linkedCopyTree linkedCopyPlace := by
  constructor
  · exact ⟨0, rfl, by decide +kernel⟩
  · intro n D hD x
    rw [linkedCopy_node]
    rcases linkedCopy_dir hD with ⟨rfl, hes⟩ | ⟨rfl, hes⟩
    · rw [hes]
      by_cases hl : x = ['l'] <;> by_cases hr : x = ['r'] <;> simp [linkedCopyPlace, hl, hr]
    · rw [hes]
      by_cases hx : x = ['x'] <;> simp [linkedCopyPlace, hx]
  · intro n D hD e he
    rw [linkedCopy_node]
    rcases linkedCopy_dir hD with ⟨rfl, hes⟩ | ⟨rfl, hes⟩
    · rw [hes] at he
      simp only [List.mem_cons, List.not_mem_nil, or_false] at he
      rcases he with rfl | rfl <;> simp [linkedCopyPlace]
    · rw [hes] at he
      obtain rfl := List.mem_singleton.mp he
      simp [linkedCopyPlace]
  · intro n D hD e he
    rcases linkedCopy_dir hD with ⟨rfl, hes⟩ | ⟨rfl, hes⟩
    · rw [hes] at he
      simp only [List.mem_cons, List.not_mem_nil, or_false] at he
      rcases he with rfl | rfl
      · exact ⟨40, by decide +kernel, by decide +kernel⟩
      · exact ⟨39, by decide +kernel, by decide +kernel⟩
    · rw [hes] at he
      obtain rfl := List.mem_singleton.mp he
      exact ⟨[['b'], ['r'], ['x']], 40, by decide +kernel, by decide +kernel⟩

theorem linkedCopy_lists : LocalLists linkedCopyTree
    { entries := [⟨['r', '/', 'x'], 1, 5⟩, ⟨['l', '/', 'x'], 1, 5⟩] } false := by
  refine .walked (w := ⟨[], [], [], [], [⟨['r', '/', 'x'], 1, 5⟩, ⟨['l', '/', 'x'], 1, 5⟩],
    { visitedSymlinkTargets := [1, 0] }, false⟩) rfl (.inr rfl) ?_ ⟨rfl, rfl, rfl, .inl rfl⟩
  -- the root: the directory, and the link that is the first to lead there
  refine .head (.opens (a := []) (b := []) rfl (.opened rfl (.refl _))) ?_
  refine .head (.reads (a := []) (b := []) rfl (.entry (e := ⟨['r'], false, .dir 1⟩) rfl
    (a := ⟨false, .directory, none, none⟩) ⟨by simp, 1, rfl, .inl rfl⟩ rfl)) ?_
  refine .head (.reads (a := []) (b := []) rfl (.entry (e := ⟨['l'], true, .dir 1⟩) rfl
    (a := ⟨true, .directory, none, some 1⟩) ⟨fun _ => rfl, 1, rfl, .inr rfl⟩ rfl)) ?_
  refine .head (.reads (a := []) (b := []) rfl (.done rfl)) ?_
  refine .head (.merge (a := []) (b := []) rfl (.inl rfl)) ?_
  refine .head (.advance rfl rfl) ?_
  -- the directory by either name
  refine .head (.opens (a := []) (b := [(['l', '/'], 1)]) rfl (.opened rfl (.refl _))) ?_
  refine .head (.reads (a := []) (b := []) rfl (.entry (e := ⟨['x'], false, .file 1 5⟩) rfl
    (a := ⟨false, .regular, some (1, 5), none⟩) ⟨by simp, 1, 5, rfl, .inr rfl⟩ rfl)) ?_
  refine .head (.reads (a := []) (b := []) rfl (.done rfl)) ?_
  refine .head (.merge (a := []) (b := []) rfl (.inl rfl)) ?_
  refine .head (.opens (a := []) (b := []) rfl (.opened rfl (.refl _))) ?_
  refine .head (.reads (a := []) (b := []) rfl (.entry (e := ⟨['x'], false, .file 1 5⟩) rfl
    (a := ⟨false, .regular, some (1, 5), none⟩) ⟨by simp, 1, 5, rfl, .inr rfl⟩ rfl)) ?_
  refine .head (.reads (a := []) (b := []) rfl (.done rfl)) ?_
  refine .head (.merge (a := []) (b := []) rfl (.inl rfl)) ?_
  exact .single (.advance rfl rfl)

/-- **A file is deleted under its other name**: the source holds `r/x`, the destination lists `r/x` and `l/x`, and the
orphan `l/x` is the file. -/
theorem linked_copy_deleted : ¬ ∀ (r : Roles) (fs : Files) (base : Str) (T : Tree) (place : Nat → Loc)
    (deleteOrphans : Bool) (src dst : List DirectoryEntry), Depicts fs base T place →
      LocalLists T { entries := dst } false →
        SparesSources fs base (deletedPaths (planEntries r deleteOrphans src dst))
          (src.map DirectoryEntry.relativePath) := by
  intro h
  have hspares := h downloadRoles linkedCopy ['/', 'b'] linkedCopyTree linkedCopyPlace true [⟨['r', '/', 'x'], 1, 9⟩] _
    linkedCopy_depicted linkedCopy_lists
  have hsame : SameFile linkedCopy ['/', 'b'] ['l', '/', 'x'] ['r', '/', 'x'] :=
    ⟨[['b'], ['r'], ['x']], by decide +kernel, by decide +kernel, by decide +kernel⟩
  exact spares_iff_apart.mp hspares ['l', '/', 'x'] (by decide +kernel) ['r', '/', 'x'] (by decide +kernel) hsame

end Mito
