import MitoSync.Basic
import MitoSync.Lib.Levels
/-!
# LocalListing — `parallel_enumerate_local_directory`

A local tree is a graph of directories: a name leads to a file, to a directory, perhaps one that other names lead to as
well, or to nothing a sync copies.  The system gives up on some paths whatever is there (`tooFar`), and the enumerator
takes that answer for "nothing there".  It is a search by levels (`Lib.Walker`) whose workers share the visited targets
of symbolic links and the two flags.  Where neither flag is set and nothing was cancelled, it returns every file whose
path the system follows to the end (`localListsWithin_paths`): every file of the tree, where it follows them all
(`localLists_paths`).
-/
namespace Mito

open Lib

/-! ## Trees -/

/-- What a name leads to, symbolic links followed. -/
inductive Item
  | file (size mtime : Int)
  /-- a directory, named by its one canonical path -/
  | dir (node : Nat)
  /-- a socket, a fifo or a device -/
  | special
  /-- a dangling link, a loop, or a path that cannot exist -/
  | unresolved
  deriving DecidableEq

structure DirEnt where
  name : Str
  isLink : Bool := false
  item : Item
  deriving DecidableEq

/-- A directory's names: distinct, not empty and without a separator. -/
structure Dir where
  entries : List DirEnt
  nodup : (entries.map DirEnt.name).Nodup
  named : ∀ e ∈ entries, e.name ≠ [] ∧ '/' ∉ e.name

/-- The names left after the first. -/
def Dir.tail (D : Dir) : Dir where
  entries := D.entries.tail
  nodup := D.nodup.sublist ((List.tail_sublist _).map _)
  named e he := D.named e (List.mem_of_mem_tail he)

structure Tree where
  root : Item
  dir : Nat → Option Dir

/-- A system that gives up on no path. -/
abbrev noLimit : Str → Bool := fun _ => false

/-- An entry as the system tells of it.  `tooFar` are the paths it gives up on with "too many links" or "name too long":
more symbolic links on the way than it follows, or more characters than it takes. -/
def DirEnt.seen (tooFar : Str → Bool) (base : Str) (e : DirEnt) : DirEnt :=
  { e with item := bif tooFar (base ++ e.name) then .unresolved else e.item }

theorem DirEnt.item_of_seen {tooFar : Str → Bool} {base : Str} {e : DirEnt} {i : Item}
    (h : (e.seen tooFar base).item = i) (hi : i ≠ .unresolved) : e.item = i := by
  unfold DirEnt.seen at h
  cases hfar : tooFar (base ++ e.name) with
  | false => simpa only [hfar, cond_false] using h
  | true => exact absurd (by simpa only [hfar, cond_true] using h.symm) hi

namespace Tree

/-- A directory as the system opens it, `base` its path. -/
def dirAt (T : Tree) (tooFar : Str → Bool) (base : Str) (n : Nat) : Option Dir :=
  bif tooFar base then none else T.dir n

theorem dir_of_dirAt {T : Tree} {tooFar : Str → Bool} {base : Str} {n : Nat} {D : Dir}
    (h : T.dirAt tooFar base n = some D) : T.dir n = some D := by
  unfold dirAt at h
  cases hfar : tooFar base with
  | false => simpa only [hfar, cond_false] using h
  | true => simp [hfar] at h

/-- The regular files below a directory, by their paths from it. -/
inductive File (T : Tree) : Nat → Str → SyncEntryInfo → Prop
  | here {n : Nat} {D : Dir} {name : Str} {l : Bool} {size mtime : Int} (hd : T.dir n = some D)
      (he : ⟨name, l, .file size mtime⟩ ∈ D.entries) : T.File n name ⟨size, mtime⟩
  | inside {n m : Nat} {D : Dir} {name path : Str} {l : Bool} {i : SyncEntryInfo} (hd : T.dir n = some D)
      (he : ⟨name, l, .dir m⟩ ∈ D.entries) (hf : T.File m path i) : T.File n (name ++ '/' :: path) i

/-- The files of the tree. -/
def Has (T : Tree) (path : Str) (i : SyncEntryInfo) : Prop := ∃ n, T.root = .dir n ∧ T.File n path i

def paths (T : Tree) : Set Str := { path | ∃ i, T.Has path i }

/-- The files of a directory that holds one file. -/
theorem has_single {T : Tree} {n : Nat} {D : Dir} {name : Str} {l : Bool} {size mtime : Int} (hr : T.root = .dir n)
    (hd : T.dir n = some D) (h : D.entries = [⟨name, l, .file size mtime⟩]) (p : Str) (i : SyncEntryInfo) :
    T.Has p i ↔ p = name ∧ i = ⟨size, mtime⟩ := by
  constructor
  · rintro ⟨m, hm, hf⟩
    obtain rfl : n = m := Item.dir.inj (hr.symm.trans hm)
    cases hf with
    | here hd' he =>
      obtain rfl := Option.some.inj (hd.symm.trans hd')
      rw [h, List.mem_singleton] at he
      simp only [DirEnt.mk.injEq, Item.file.injEq] at he
      exact ⟨he.1, by rw [he.2.2.1, he.2.2.2]⟩
    | inside hd' he _ =>
      obtain rfl := Option.some.inj (hd.symm.trans hd')
      rw [h, List.mem_singleton] at he
      simp at he
  · rintro ⟨rfl, rfl⟩
    exact ⟨n, hr, .here hd (by rw [h]; exact List.mem_singleton.2 rfl)⟩

/-- The regular files below a directory whose paths the system follows to the end. -/
inductive Found (T : Tree) (tooFar : Str → Bool) : Str → Nat → Str → SyncEntryInfo → Prop
  | here {base : Str} {n : Nat} {D : Dir} {e : DirEnt} {size mtime : Int} (hd : T.dirAt tooFar base n = some D)
      (he : e ∈ D.entries) (hi : (e.seen tooFar base).item = .file size mtime) :
      T.Found tooFar base n e.name ⟨size, mtime⟩
  | inside {base : Str} {n m : Nat} {D : Dir} {e : DirEnt} {path : Str} {i : SyncEntryInfo}
      (hd : T.dirAt tooFar base n = some D) (he : e ∈ D.entries) (hi : (e.seen tooFar base).item = .dir m)
      (hf : T.Found tooFar (base ++ e.name ++ ['/']) m path i) : T.Found tooFar base n (e.name ++ '/' :: path) i

/-- The files of the tree that the system leads to. -/
def pathsWithin (T : Tree) (tooFar : Str → Bool) : Set Str :=
  { path | ∃ n i, T.root = .dir n ∧ T.Found tooFar [] n path i }

theorem Found.file {T : Tree} {tooFar : Str → Bool} {base : Str} {n : Nat} {path : Str} {i : SyncEntryInfo}
    (h : T.Found tooFar base n path i) : T.File n path i := by
  induction h with
  | @here base n D e size mtime hd he hi =>
    have hitem := e.item_of_seen hi (by simp)
    obtain ⟨name, l, item⟩ := e
    obtain rfl := hitem
    exact .here (dir_of_dirAt hd) he
  | @inside base n m D e path i hd he hi _ ih =>
    have hitem := e.item_of_seen hi (by simp)
    obtain ⟨name, l, item⟩ := e
    obtain rfl := hitem
    exact .inside (dir_of_dirAt hd) he ih

/-- A system without limits leads to every file. -/
theorem File.found {T : Tree} {n : Nat} {path : Str} {i : SyncEntryInfo} (h : T.File n path i) (base : Str) :
    T.Found noLimit base n path i := by
  induction h generalizing base with
  | @here n D name l size mtime hd he => exact .here (e := ⟨name, l, .file size mtime⟩) hd he rfl
  | @inside n m D name path l i hd he _ ih => exact .inside (e := ⟨name, l, .dir m⟩) hd he rfl (ih _)

theorem pathsWithin_subset (T : Tree) (tooFar : Str → Bool) : T.pathsWithin tooFar ⊆ T.paths := by
  rintro path ⟨n, i, hr, hf⟩
  exact ⟨i, n, hr, hf.file⟩

theorem pathsWithin_noLimit (T : Tree) : T.pathsWithin noLimit = T.paths := by
  refine (T.pathsWithin_subset noLimit).antisymm ?_
  rintro path ⟨i, n, hr, hf⟩
  exact ⟨n, i, hr, hf.found []⟩

/-- The files the system leads to through a name of a directory. -/
def FileOf (T : Tree) (tooFar : Str → Bool) (base : Str) (e : DirEnt) (path : Str) : Prop :=
  match (e.seen tooFar base).item with
  | .file _ _ => path = e.name
  | .dir m => ∃ q i, T.Found tooFar (base ++ e.name ++ ['/']) m q i ∧ path = e.name ++ '/' :: q
  | _ => False

theorem exists_found_iff {T : Tree} {tooFar : Str → Bool} {base : Str} {n : Nat} {D : Dir}
    (hd : T.dirAt tooFar base n = some D) {path : Str} :
    (∃ i, T.Found tooFar base n path i) ↔ ∃ e ∈ D.entries, T.FileOf tooFar base e path := by
  constructor
  · rintro ⟨i, h⟩
    cases h with
    | @here _ _ D' e size mtime hd' he hi =>
      rw [hd, Option.some.injEq] at hd'
      subst hd'
      exact ⟨e, he, by simp [FileOf, hi]⟩
    | @inside _ _ m D' e q i hd' he hi hf =>
      rw [hd, Option.some.injEq] at hd'
      subst hd'
      refine ⟨e, he, ?_⟩
      simp only [FileOf, hi]
      exact ⟨q, i, hf, rfl⟩
  · rintro ⟨e, he, hf⟩
    unfold FileOf at hf
    split at hf
    · rename_i hi
      obtain rfl := hf
      exact ⟨_, .here hd he hi⟩
    · rename_i hi
      obtain ⟨q, i, hq, rfl⟩ := hf
      exact ⟨i, .inside hd he hi hq⟩
    · exact hf.elim

end Tree

/-- A name is read off the front of any path below it. -/
theorem name_of_path {a b p q : Str} (ha : '/' ∉ a) (hb : '/' ∉ b)
    (h : a ++ '/' :: p = b ++ '/' :: q ∨ a ++ '/' :: p = b ∨ a = b) : a = b := by
  rcases h with h | h | h
  · induction a generalizing b with
    | nil =>
      cases b with
      | nil => rfl
      | cons x b =>
        simp only [List.nil_append, List.cons_append, List.cons.injEq] at h
        exact absurd h.1 (fun hx => hb (by simp [← hx]))
    | cons x a ih =>
      cases b with
      | nil =>
        simp only [List.nil_append, List.cons_append, List.cons.injEq] at h
        exact absurd h.1 (fun hx => ha (by simp [hx]))
      | cons y b =>
        simp only [List.cons_append, List.cons.injEq] at h
        rw [List.mem_cons, not_or] at ha hb
        rw [h.1, ih ha.2 hb.2 h.2]
  · exact absurd (by simp) (h ▸ hb)
  · exact h

namespace Tree

/-- **Two names of a directory stand for different files.** -/
theorem fileOf_name {T : Tree} {tooFar : Str → Bool} {base : Str} {e e' : DirEnt} {path : Str} (he : '/' ∉ e.name)
    (he' : '/' ∉ e'.name) (h : T.FileOf tooFar base e path) (h' : T.FileOf tooFar base e' path) : e.name = e'.name := by
  unfold FileOf at h h'
  split at h
  · obtain rfl := h
    split at h'
    · exact h'
    · obtain ⟨q, -, -, hq⟩ := h'
      exact absurd (hq ▸ by simp) he
    · exact h'.elim
  · obtain ⟨q, -, -, rfl⟩ := h
    split at h'
    · exact absurd (h'.symm ▸ by simp) he'
    · obtain ⟨q', -, -, hq⟩ := h'
      exact name_of_path he he' (.inl hq)
    · exact h'.elim
  · exact h.elim

end Tree

/-! ## The enumerator -/

/-- What the workers share. -/
structure LocalScan where
  visitedSymlinkTargets : List Nat
  complete : Bool := true
  aliasOmitted : Bool := false
  deriving DecidableEq

/-- `entry.status`, following a link.  `absent` are the errors the walk takes for "nothing there": not found, not a
directory, too many links, name too long. -/
inductive StatusAns
  | regular | directory | special | absent | error
  deriving DecidableEq

/-- What the system answers about an entry: an error of `is_symlink` reads as false. -/
structure EntryAns where
  isSymlink : Bool
  status : StatusAns
  /-- `stat_size_and_mtime` -/
  sizeAndMtime : Option (Int × Int)
  canonical : Option Nat

/-- An answer that is true of the entry, as the system tells of it. -/
def EntryAns.Of (a : EntryAns) (e : DirEnt) : Prop :=
  (a.isSymlink = true → e.isLink = true) ∧
  match a.status with
  | .regular => ∃ size mtime, e.item = .file size mtime ∧ (a.sizeAndMtime = none ∨ a.sizeAndMtime = some (size, mtime))
  | .directory => ∃ node, e.item = .dir node ∧ (a.canonical = none ∨ a.canonical = some node)
  | .special => e.item = .special
  | .absent => e.item = .unresolved
  | .error => True

/-- The directory an entry leads to, with its path. -/
def subdirOf (base : Str) (e : DirEnt) : List (Str × Nat) :=
  match e.item with
  | .dir node => [(base ++ e.name ++ ['/'], node)]
  | _ => []

/-- One entry of a directory: the file found, the directory to read later, and the shared state. -/
def scanEntry (base : Str) (e : DirEnt) (a : EntryAns) (s : LocalScan) :
    List DirectoryEntry × List (Str × Nat) × LocalScan :=
  match a.status with
  | .absent => ([], [], s)
  | .error => ([], [], { s with complete := false })
  | .regular =>
    let (size, mtime) := a.sizeAndMtime.getD (0, 0)
    ([⟨base ++ e.name, size, mtime⟩], [], s)
  | .directory =>
    if a.isSymlink then
      match a.canonical with
      -- a link that cannot be resolved: its subtree is skipped
      | none => ([], [], { s with complete := false })
      | some target =>
        if target ∈ s.visitedSymlinkTargets then ([], [], { s with aliasOmitted := true })
        else ([], subdirOf base e, { s with visitedSymlinkTargets := target :: s.visitedSymlinkTargets })
    else ([], subdirOf base e, s)
  | .special => ([], [], s)

/-- The constructor of the `directory_iterator`. -/
inductive OpensDir (T : Tree) (tooFar : Str → Bool) : Str × Nat → LocalScan → Option (Str × Dir) → LocalScan → Prop
  | opened {base : Str} {n : Nat} {D D' : Dir} {s : LocalScan} (hd : T.dirAt tooFar base n = some D)
      (hp : D'.entries.Perm D.entries) : OpensDir T tooFar (base, n) s (some (base, D')) s
  /-- the errors taken for "nothing there" -/
  | absent {base : Str} {n : Nat} {s : LocalScan} (hd : T.dirAt tooFar base n = none) :
      OpensDir T tooFar (base, n) s none s
  | unreadable {d : Str × Nat} {s : LocalScan} : OpensDir T tooFar d s none { s with complete := false }

/-- The loop over a directory's entries. -/
inductive ReadsDir (tooFar : Str → Bool) : Str × Dir → LocalScan → List DirectoryEntry → List (Str × Nat) →
    Option (Str × Dir) → LocalScan → Prop
  | done {base : Str} {D : Dir} {s : LocalScan} (h : D.entries = []) : ReadsDir tooFar (base, D) s [] [] none s
  | entry {base : Str} {D : Dir} {s : LocalScan} {e : DirEnt} (h : D.entries.head? = some e) {a : EntryAns}
      (ha : a.Of (e.seen tooFar base)) {fs : List DirectoryEntry} {ds : List (Str × Nat)} {s' : LocalScan}
      (hr : scanEntry base e a s = (fs, ds, s')) : ReadsDir tooFar (base, D) s fs ds (some (base, D.tail)) s'
  /-- the iterator throws, and the directory is handed back as far as it was read -/
  | threw {r : Str × Dir} {s : LocalScan} : ReadsDir tooFar r s [] [] none { s with complete := false }

def localWalker (T : Tree) (tooFar : Str → Bool) : Walker (Str × Nat) (Str × Dir) DirectoryEntry LocalScan where
  opens := OpensDir T tooFar
  reads := ReadsDir tooFar
  lost s := s.complete = false ∨ s.aliasOmitted = true

/-- **A listing `parallel_enumerate_local_directory` may return** where the system gives up on these paths, and whether
`cancelled` was set by then. -/
inductive LocalListsWithin (T : Tree) (tooFar : Str → Bool) : Listing → Bool → Prop
  | notDirectory {cancelled : Bool} : LocalListsWithin T tooFar { entries := [], complete := false } cancelled
  | walked {n : Nat} (hr : T.root = .dir n) {targets : List Nat} (ht : targets = [] ∨ targets = [n])
      {w : Walker.State (Str × Nat) (Str × Dir) DirectoryEntry LocalScan}
      (h : (localWalker T tooFar).Run (.start ([], n) { visitedSymlinkTargets := targets }) w) (ho : w.Over) :
      LocalListsWithin T tooFar ⟨w.entries, w.shared.complete, w.shared.aliasOmitted⟩ w.cancelled

/-- A listing of a tree all of whose paths the system follows. -/
abbrev LocalLists (T : Tree) : Listing → Bool → Prop := LocalListsWithin T noLimit

/-- A directory of one entry, alone on its level, is read in five steps. -/
theorem run_entry {T : Tree} {tooFar : Str → Bool} {base : Str} {n : Nat} {D : Dir} {e : DirEnt} {a : EntryAns}
    {s s' : LocalScan} {fs : List DirectoryEntry} {ds : List (Str × Nat)} (hd : T.dirAt tooFar base n = some D)
    (h : D.entries = [e]) (ha : a.Of (e.seen tooFar base)) (hr : scanEntry base e a s = (fs, ds, s')) :
    (localWalker T tooFar).Run { level := [(base, n)], shared := s } { level := ds, entries := fs, shared := s' } := by
  have hstart : (localWalker T tooFar).Run { level := [(base, n)], shared := s }
    { level := [(base, n)], shared := s } := .refl
  have hend : D.tail.entries = [] := by
    change D.entries.tail = []
    rw [h, List.tail_cons]
  have hopen := hstart.tail (.opens (a := []) (b := []) rfl (.opened hd (.refl _)))
  have hread := hopen.tail (.reads (a := []) (b := []) rfl (.entry (by rw [h]; rfl) ha hr))
  have hdone := hread.tail (.reads (a := []) (b := []) rfl (.done hend))
  have hmerge := hdone.tail (.merge (a := []) (b := []) rfl (.inl rfl))
  have hnext := hmerge.tail (.advance rfl rfl)
  simpa only [List.nil_append, List.append_nil] using hnext

/-- A directory with one file in it is read in five steps. -/
theorem run_file {T : Tree} {n : Nat} {base name : Str} {l : Bool} {size mtime : Int} {D : Dir} {s : LocalScan}
    (hd : T.dir n = some D) (h : D.entries = [⟨name, l, .file size mtime⟩]) :
    (localWalker T noLimit).Run { level := [(base, n)], shared := s }
      { level := [], entries := [⟨base ++ name, size, mtime⟩], shared := s } :=
  run_entry (e := ⟨name, l, .file size mtime⟩) (a := ⟨false, .regular, some (size, mtime), none⟩) hd h
    ⟨by simp, size, mtime, rfl, .inr rfl⟩ rfl

theorem lists_file {T : Tree} {n : Nat} {name : Str} {l : Bool} {size mtime : Int} {D : Dir}
    (hr : T.root = .dir n) (hd : T.dir n = some D) (h : D.entries = [⟨name, l, .file size mtime⟩]) :
    LocalLists T { entries := [⟨name, size, mtime⟩] } false :=
  .walked hr (.inl rfl) (@run_file T n [] _ _ _ _ _ _ hd h) ⟨rfl, rfl, rfl, .inl rfl⟩

/-! ## What it returns -/

/-- The paths the system leads to below a directory, or below what is left of one, from the root of the listing. -/
def localBelow (T : Tree) (tooFar : Str → Bool) : (Str × Nat) ⊕ (Str × Dir) → Set Str
  | .inl (base, n) => { path | ∃ q i, path = base ++ q ∧ T.Found tooFar base n q i }
  | .inr (base, D) => { path | ∃ q, path = base ++ q ∧ ∃ e ∈ D.entries, T.FileOf tooFar base e q }

/-- What the entry at hand stands for. -/
def entryBelow (T : Tree) (tooFar : Str → Bool) (base : Str) (e : DirEnt) : Set Str :=
  { path | ∃ q, path = base ++ q ∧ T.FileOf tooFar base e q }

section

variable {T : Tree} {tooFar : Str → Bool}

theorem mem_below_dir {base : Str} {n : Nat} {D : Dir} (hd : T.dirAt tooFar base n = some D)
    {path : Str} : path ∈ localBelow T tooFar (.inl (base, n)) ↔ path ∈ localBelow T tooFar (.inr (base, D)) := by
  simp only [localBelow, Set.mem_ofPred_eq]
  constructor
  · rintro ⟨q, i, rfl, hf⟩
    exact ⟨q, rfl, (Tree.exists_found_iff hd).1 ⟨i, hf⟩⟩
  · rintro ⟨q, rfl, hf⟩
    obtain ⟨i, hi⟩ := (Tree.exists_found_iff hd).2 hf
    exact ⟨q, i, rfl, hi⟩

theorem below_perm {base : Str} {D D' : Dir} (hp : D'.entries.Perm D.entries) :
    localBelow T tooFar (.inr (base, D')) = localBelow T tooFar (.inr (base, D)) := by
  ext path
  simp only [localBelow, Set.mem_ofPred_eq, hp.mem_iff]

theorem below_head {base : Str} {D : Dir} {e : DirEnt} (h : D.entries.head? = some e) {path : Str} :
    path ∈ localBelow T tooFar (.inr (base, D)) ↔
      path ∈ entryBelow T tooFar base e ∨ path ∈ localBelow T tooFar (.inr (base, D.tail)) := by
  obtain ⟨rest, hrest⟩ := List.head?_eq_some_iff.1 h
  simp only [localBelow, entryBelow, Dir.tail, hrest, Set.mem_ofPred_eq, List.tail_cons, List.mem_cons]
  constructor
  · rintro ⟨q, rfl, e', rfl | he', hf⟩
    · exact .inl ⟨q, rfl, hf⟩
    · exact .inr ⟨q, rfl, e', he', hf⟩
  · rintro (⟨q, rfl, hf⟩ | ⟨q, rfl, e', he', hf⟩)
    · exact ⟨q, rfl, e, .inl rfl, hf⟩
    · exact ⟨q, rfl, e', .inr he', hf⟩

theorem below_head_disjoint {base : Str} {D : Dir} {e : DirEnt} (h : D.entries.head? = some e)
    {path : Str} (hp : path ∈ entryBelow T tooFar base e) : path ∉ localBelow T tooFar (.inr (base, D.tail)) := by
  obtain ⟨rest, hrest⟩ := List.head?_eq_some_iff.1 h
  obtain ⟨q, rfl, hf⟩ := hp
  rintro ⟨q', hq, e', he', hf'⟩
  obtain rfl : q = q' := List.append_cancel_left hq
  have hn := D.nodup
  rw [hrest, List.map_cons, List.nodup_cons] at hn
  have he'' : e' ∈ rest := by simpa [Dir.tail, hrest] using he'
  have hne := Tree.fileOf_name (D.named e (by simp [hrest])).2 (D.named e' (by simp [hrest, he''])).2 hf hf'
  exact hn.1 (hne ▸ List.mem_map_of_mem he'')

theorem mem_below_subdir {base : Str} {e : DirEnt} {node : Nat} (hi : (e.seen tooFar base).item = .dir node)
    {path : Str} :
    path ∈ localBelow T tooFar (.inl (base ++ e.name ++ ['/'], node)) ↔ path ∈ entryBelow T tooFar base e := by
  simp only [localBelow, entryBelow, Tree.FileOf, hi, Set.mem_ofPred_eq]
  constructor
  · rintro ⟨q, i, rfl, hf⟩
    exact ⟨e.name ++ '/' :: q, by simp, q, i, hf, rfl⟩
  · rintro ⟨q, rfl, q', i, hf, rfl⟩
    exact ⟨q', i, by simp, hf⟩

/-- An entry is left out where it cannot be read, or as a link to a directory that was entered under another name. -/
inductive LeftOut (e : DirEnt) (s : LocalScan) : LocalScan → Prop
  | unread : LeftOut e s { s with complete := false }
  | aliased {node : Nat} (hl : e.isLink = true) (hi : e.item = .dir node) (hv : node ∈ s.visitedSymlinkTargets) :
      LeftOut e s { s with aliasOmitted := true }

/-- What is left out is flagged. -/
theorem LeftOut.lost {e : DirEnt} {s s' : LocalScan} (h : LeftOut e s s') : (localWalker T tooFar).lost s' := by
  cases h with
  | unread => exact .inl rfl
  | aliased _ _ _ => exact .inr rfl

/-- **What one entry yields**: the file, the directory, or nothing, where it is left out or leads to none. -/
theorem scanEntry_cases {base : Str} {e : DirEnt} {a : EntryAns} {s s' : LocalScan}
    {fs : List DirectoryEntry} {ds : List (Str × Nat)} (ha : a.Of (e.seen tooFar base))
    (hr : scanEntry base e a s = (fs, ds, s')) :
    (fs = [] ∧ ds = [] ∧ (LeftOut e s s' ∨ ∀ p, ¬ T.FileOf tooFar base e p)) ∨
    (∃ size mtime i, (e.seen tooFar base).item = .file size mtime ∧ (i = ⟨0, 0⟩ ∨ i = (⟨size, mtime⟩ : SyncEntryInfo)) ∧
      fs = [⟨base ++ e.name, i.size, i.mtime⟩] ∧ ds = []) ∨
    (∃ node, (e.seen tooFar base).item = .dir node ∧ fs = [] ∧ ds = [(base ++ e.name ++ ['/'], node)]) := by
  unfold scanEntry at hr
  unfold EntryAns.Of at ha
  obtain ⟨hlink, ha⟩ := ha
  cases hs : a.status with
  | absent =>
    simp only [hs, Prod.mk.injEq] at hr ha
    exact .inl ⟨hr.1.symm, hr.2.1.symm, .inr (by simp [Tree.FileOf, ha])⟩
  | special =>
    simp only [hs, Prod.mk.injEq] at hr ha
    exact .inl ⟨hr.1.symm, hr.2.1.symm, .inr (by simp [Tree.FileOf, ha])⟩
  | error =>
    simp only [hs, Prod.mk.injEq] at hr
    exact .inl ⟨hr.1.symm, hr.2.1.symm, .inl (hr.2.2 ▸ .unread)⟩
  | regular =>
    simp only [hs, Prod.mk.injEq] at hr ha
    obtain ⟨size, mtime, hi, hst⟩ := ha
    refine .inr (.inl ⟨size, mtime, ⟨(a.sizeAndMtime.getD (0, 0)).1, (a.sizeAndMtime.getD (0, 0)).2⟩, hi, ?_,
      hr.1.symm, hr.2.1.symm⟩)
    rcases hst with hst | hst
    · rw [hst]; exact .inl rfl
    · rw [hst]; exact .inr rfl
  | directory =>
    simp only [hs] at hr ha
    obtain ⟨node, hi, hc⟩ := ha
    have hitem := e.item_of_seen hi (by simp)
    have hsub : subdirOf base e = [(base ++ e.name ++ ['/'], node)] := by simp [subdirOf, hitem]
    rw [hsub] at hr
    split at hr
    · rename_i hl
      split at hr
      · simp only [Prod.mk.injEq] at hr
        exact .inl ⟨hr.1.symm, hr.2.1.symm, .inl (hr.2.2 ▸ .unread)⟩
      · rename_i target htarget
        obtain rfl : target = node := by
          rw [htarget] at hc
          simpa using hc
        split at hr
        · rename_i hv
          simp only [Prod.mk.injEq] at hr
          exact .inl ⟨hr.1.symm, hr.2.1.symm, .inl (hr.2.2 ▸ .aliased (hlink hl) hitem hv)⟩
        · simp only [Prod.mk.injEq] at hr
          exact .inr (.inr ⟨target, hi, hr.1.symm, hr.2.1.symm⟩)
    · simp only [Prod.mk.injEq] at hr
      exact .inr (.inr ⟨node, hi, hr.1.symm, hr.2.1.symm⟩)

theorem scanEntry_lost {base : Str} {e : DirEnt} {a : EntryAns} {s s' : LocalScan}
    {fs : List DirectoryEntry} {ds : List (Str × Nat)} (hr : scanEntry base e a s = (fs, ds, s'))
    (hl : (localWalker T tooFar).lost s) : (localWalker T tooFar).lost s' := by
  obtain rfl : (scanEntry base e a s).2.2 = s' := by rw [hr]
  unfold scanEntry
  split
  · exact hl
  · exact .inl rfl
  · exact hl
  · split
    · split
      · exact .inl rfl
      · split
        · exact .inr rfl
        · exact hl
    · exact hl
  · exact hl

/-- The rest of a directory and what its first entry yields account for the directory. -/
theorem weight_head {base : Str} {D : Dir} {e : DirEnt} (h : D.entries.head? = some e)
    {p : List ((Str × Nat) ⊕ (Str × Dir))} {a : List Str} {f : Str} (h1 : weight (localBelow T tooFar) p a f ≤ 1)
    (hf : (f ∈ a ∨ ∃ y ∈ p, f ∈ localBelow T tooFar y) ↔ f ∈ entryBelow T tooFar base e) :
    weight (localBelow T tooFar) (.inr (base, D.tail) :: p) a f =
      weightOf (localBelow T tooFar) (.inr (base, D)) f := by
  apply weight_eq_of_splits
  · rw [weight_cons]
    by_cases ht : f ∈ localBelow T tooFar (.inr (base, D.tail))
    · have hne : f ∉ entryBelow T tooFar base e := fun he => below_head_disjoint h he ht
      have h0 : ¬ 0 < weight (localBelow T tooFar) p a f := by
        intro hpos
        rw [weight_split] at hpos
        apply hne
        apply hf.1
        rcases Nat.eq_zero_or_pos (weight (localBelow T tooFar) p [] f) with hz | hp
        · have ha : 0 < weight (localBelow T tooFar) [] a f := by omega
          exact .inl (weight_found_pos.1 ha)
        · exact .inr (weight_pos.1 hp)
      rw [weightOf_of_mem ht]
      omega
    · rw [weightOf_of_notMem ht]
      omega
  · rw [below_head h, ← hf]
    simp only [List.mem_cons, exists_eq_or_imp]
    rw [or_assoc]
    exact or_congr_right or_comm

/-- **An entry and the rest of its directory account for the directory**, unless the entry was left out. -/
theorem scanEntry_weight (T : Tree) {base : Str} {D : Dir} {e : DirEnt} (h : D.entries.head? = some e) {a : EntryAns}
    (ha : a.Of (e.seen tooFar base)) {s s' : LocalScan} {fs : List DirectoryEntry} {ds : List (Str × Nat)}
    (hr : scanEntry base e a s = (fs, ds, s')) (f : Str) :
    weight (localBelow T tooFar) (.inr (base, D.tail) :: ds.map .inl) (fs.map DirectoryEntry.relativePath) f =
        weightOf (localBelow T tooFar) (.inr (base, D)) f ∨
      (fs = [] ∧ ds = [] ∧ LeftOut e s s' ∧ f ∈ entryBelow T tooFar base e) ∧
        weight (localBelow T tooFar) (.inr (base, D.tail) :: ds.map .inl) (fs.map DirectoryEntry.relativePath) f ≤
          weightOf (localBelow T tooFar) (.inr (base, D)) f := by
  rcases scanEntry_cases (T := T) ha hr with ⟨rfl, rfl, hn⟩ | ⟨size, mtime, i, hi, -, rfl, rfl⟩ | ⟨node, hi, rfl, rfl⟩
  · by_cases hf : f ∈ entryBelow T tooFar base e
    · rcases hn with hl | hn
      · refine .inr ⟨⟨rfl, rfl, hl, hf⟩, ?_⟩
        simp only [List.map_nil, weight_singleton]
        apply weightOf_mono
        rw [below_head h]
        exact .inr
      · obtain ⟨q, -, hq⟩ := hf
        exact absurd hq (hn q)
    · apply Or.inl
      apply weight_head h (by simp)
      simp [hf]
  · apply Or.inl
    apply weight_head h (by simp [weight, List.count_singleton]; split <;> omega)
    simp [entryBelow, Tree.FileOf, hi]
  · apply Or.inl
    apply weight_head h (weightOf_le_one _ f)
    rw [← mem_below_subdir hi]
    simp

/-- An opened directory is all that is below it, unless it could not be read. -/
theorem opensDir_weight {d : Str × Nat} {s s' : LocalScan} {r : Option (Str × Dir)}
    (h : OpensDir T tooFar d s r s') (f : Str) :
    weight (localBelow T tooFar) (r.toList.map .inr) [] f ≤ weightOf (localBelow T tooFar) (.inl d) f ∧
      (s'.complete = true →
        weight (localBelow T tooFar) (r.toList.map .inr) [] f = weightOf (localBelow T tooFar) (.inl d) f) := by
  cases h with
  | @opened base n D D' s hd hp =>
    have heq : weightOf (localBelow T tooFar) (.inr (base, D')) f =
        weightOf (localBelow T tooFar) (.inl (base, n)) f := by
      apply weightOf_congr
      rw [mem_below_dir hd, below_perm hp]
    simp only [Option.toList_some, List.map_cons, List.map_nil, weight_singleton]
    exact ⟨heq.le, fun _ => heq⟩
  | @absent base n s hd =>
    have hnone : f ∉ localBelow T tooFar (.inl (base, n)) := by
      rintro ⟨q, i, -, hf⟩
      cases hf with
      | here hd' _ => rw [hd] at hd'; exact absurd hd' (by simp)
      | inside hd' _ _ => rw [hd] at hd'; exact absurd hd' (by simp)
    rw [weightOf_of_notMem hnone]
    simp
  | unreadable =>
    refine ⟨?_, fun hc => absurd hc Bool.false_ne_true⟩
    simp only [Option.toList_none, List.map_nil, weight_nil]
    exact Nat.zero_le _

/-- **What is read on in a directory accounts for it**, unless it could not be read or its entry was left out. -/
theorem readsDir_weight (T : Tree) {r : Str × Dir} {s s' : LocalScan} {es : List DirectoryEntry}
    {ds : List (Str × Nat)} {r' : Option (Str × Dir)} (h : ReadsDir tooFar r s es ds r' s') (f : Str) :
    weight (localBelow T tooFar) (r'.toList.map .inr ++ ds.map .inl) (es.map DirectoryEntry.relativePath) f =
        weightOf (localBelow T tooFar) (.inr r) f ∨
      (s'.complete = false ∨ ∃ e, r.2.entries.head? = some e ∧ es = [] ∧ ds = [] ∧ r' = some (r.1, r.2.tail) ∧
          LeftOut e s s' ∧ f ∈ entryBelow T tooFar r.1 e) ∧
        weight (localBelow T tooFar) (r'.toList.map .inr ++ ds.map .inl) (es.map DirectoryEntry.relativePath) f ≤
          weightOf (localBelow T tooFar) (.inr r) f := by
  cases h with
  | @done base D s hd =>
    have hnone : f ∉ localBelow T tooFar (.inr (base, D)) := by
      rintro ⟨q, -, e, he, -⟩
      rw [hd] at he
      exact absurd he (by simp)
    rw [weightOf_of_notMem hnone]
    simp
  | threw => exact .inr ⟨.inl rfl, by simp⟩
  | @entry base D s e hh a ha fs ds s' hr =>
    rcases scanEntry_weight T hh ha hr f with heq | ⟨⟨hfs, hds, hleft, hf⟩, hle⟩
    · exact .inl heq
    · exact .inr ⟨.inr ⟨e, hh, hfs, hds, rfl, hleft, hf⟩, hle⟩

theorem localWalker_counts (T : Tree) (tooFar : Str → Bool) :
    Walker.Counts (localWalker T tooFar) (localBelow T tooFar) DirectoryEntry.relativePath where
  opens_le := by
    intro d s r s' h f
    exact (opensDir_weight h f).1
  opens_eq := by
    intro d s r s' h hl f
    exact (opensDir_weight h f).2 (Bool.eq_true_of_not_eq_false fun hc => hl (.inl hc))
  reads_le := by
    intro r s es ds r' s' h f
    rcases readsDir_weight T h f with heq | ⟨-, hle⟩
    · exact heq.le
    · exact hle
  reads_eq := by
    intro r s es ds r' s' h hl f
    rcases readsDir_weight T h f with heq | ⟨hc | ⟨e, -, -, -, -, hleft, -⟩, -⟩
    · exact heq
    · exact absurd (.inl hc) hl
    · exact absurd hleft.lost hl
  opens_lost := by
    intro d s r s' h hl
    cases h with
    | opened _ _ => exact hl
    | absent _ => exact hl
    | unreadable => exact .inl rfl
  reads_lost := by
    intro r s es ds r' s' h hl
    cases h with
    | done _ => exact hl
    | threw => exact .inl rfl
    | entry _ _ hr => exact scanEntry_lost hr hl

/-- The files the system leads to are those below the root. -/
theorem mem_pathsWithin_iff {n : Nat} (hr : T.root = .dir n) (tooFar : Str → Bool) (p : Str) :
    p ∈ T.pathsWithin tooFar ↔ p ∈ localBelow T tooFar (.inl ([], n)) := by
  simp only [Tree.pathsWithin, localBelow, hr, Set.mem_ofPred_eq, List.nil_append, Item.dir.injEq]
  constructor
  · rintro ⟨m, i, rfl, hf⟩; exact ⟨p, i, rfl, hf⟩
  · rintro ⟨q, i, rfl, hf⟩; exact ⟨n, i, rfl, hf⟩

end

/-- A listing that says it is whole. -/
def Listing.Whole (l : Listing) : Prop := l.complete = true ∧ l.aliasOmitted = false

/-- **What the local enumerator returns**: files the system leads to, each once, and each of them where neither flag is
set and nothing was cancelled. -/
theorem localListsWithin_paths {T : Tree} {tooFar : Str → Bool} {l : Listing} {cancelled : Bool}
    (h : LocalListsWithin T tooFar l cancelled) :
    l.paths.Nodup ∧ (∀ p ∈ l.paths, p ∈ T.pathsWithin tooFar) ∧
      (l.Whole → cancelled = false → ∀ p ∈ T.pathsWithin tooFar, p ∈ l.paths) := by
  cases h with
  | notDirectory => simp [Listing.paths, Listing.Whole]
  | @walked n hr targets ht w hw ho =>
    have hroot := mem_pathsWithin_iff hr tooFar
    obtain ⟨hnodup, hin, hall⟩ := Walker.run_finds (localWalker_counts T tooFar) hw ho
    refine ⟨hnodup, fun p hp => ?_, fun hwhole hc p hp => ?_⟩
    · obtain ⟨e, he, rfl⟩ := List.mem_map.1 hp
      exact (hroot _).2 (hin e he)
    · apply hall _ p ((hroot p).1 hp)
      rintro ((hs | hs) | hs)
      · exact absurd hwhole.1 (by simp [hs])
      · exact absurd hwhole.2 (by simp [hs])
      · exact absurd hs (by simp [hc])

/-- Where the system follows every path, these are the files of the tree. -/
theorem localLists_paths {T : Tree} {l : Listing} {cancelled : Bool} (h : LocalLists T l cancelled) :
    l.paths.Nodup ∧ (∀ p ∈ l.paths, p ∈ T.paths) ∧
      (l.Whole → cancelled = false → ∀ p ∈ T.paths, p ∈ l.paths) := by
  rw [← T.pathsWithin_noLimit]
  exact localListsWithin_paths h

/-- **A file is listed with its own size and time**, or with neither where they could not be read. -/
theorem localLists_info {T : Tree} {tooFar : Str → Bool} {l : Listing} {cancelled : Bool}
    (h : LocalListsWithin T tooFar l cancelled) :
    ∀ e ∈ l.entries, ∃ i, T.Has e.relativePath i ∧
      (⟨e.size, e.mtime⟩ = i ∨ ⟨e.size, e.mtime⟩ = (⟨0, 0⟩ : SyncEntryInfo)) := by
  cases h with
  | notDirectory => simp
  | @walked n hr targets ht w hw ho =>
    refine Walker.run_good_start (K := localWalker T tooFar)
      (p := fun d => ∀ q i, T.File d.2 q i → T.Has (d.1 ++ q) i)
      (q := fun r => ∃ m D', T.dir m = some D' ∧ (∀ e ∈ r.2.entries, e ∈ D'.entries) ∧
        ∀ q i, T.File m q i → T.Has (r.1 ++ q) i)
      (g := fun e => ∃ i, T.Has e.relativePath i ∧
        (⟨e.size, e.mtime⟩ = i ∨ ⟨e.size, e.mtime⟩ = (⟨0, 0⟩ : SyncEntryInfo))) ?_ ?_ hw ?_
    · rintro d s r s' (⟨hd, hp⟩ | _ | _) hgood x hx
      · obtain rfl := Option.some.inj hx
        exact ⟨_, _, Tree.dir_of_dirAt hd, fun e he => hp.mem_iff.1 he, hgood⟩
      · exact absurd hx (by simp)
      · exact absurd hx (by simp)
    · rintro r s es ds r' s' hread ⟨m, D', hd, hsub, hgood⟩
      cases hread with
      | done _ => simp
      | threw => simp
      | @entry base D s e hh a ha fs ds s' hscan =>
        have he : e ∈ D'.entries := hsub e (List.mem_of_mem_head? hh)
        have htail : ∀ e' ∈ D.tail.entries, e' ∈ D'.entries := fun e' he' => hsub e' (List.mem_of_mem_tail he')
        rcases scanEntry_cases (T := T) ha hscan with ⟨rfl, rfl, -⟩ | ⟨size, mtime, i, hseen, hi, rfl, rfl⟩ |
            ⟨node, hseen, rfl, rfl⟩
        · refine ⟨by simp, by simp, ?_⟩
          rintro x ⟨rfl⟩
          exact ⟨m, D', hd, htail, hgood⟩
        · have hitem := e.item_of_seen hseen (by simp)
          obtain ⟨name, l, item⟩ := e
          obtain rfl := hitem
          refine ⟨?_, by simp, ?_⟩
          · simp only [List.mem_singleton, forall_eq]
            exact ⟨⟨size, mtime⟩, hgood _ _ (.here hd he), hi.symm⟩
          · rintro x ⟨rfl⟩
            exact ⟨m, D', hd, htail, hgood⟩
        · have hitem := e.item_of_seen hseen (by simp)
          obtain ⟨name, l, item⟩ := e
          obtain rfl := hitem
          refine ⟨by simp, ?_, ?_⟩
          · simp only [List.mem_singleton, forall_eq]
            intro q i hf
            have := hgood _ _ (.inside hd he hf)
            simpa using this
          · rintro x ⟨rfl⟩
            exact ⟨m, D', hd, htail, hgood⟩
    · intro q i hf
      exact ⟨n, hr, hf⟩

end Mito
