import MitoSync.LocalListing
import MitoSync.Lib.Ending
/-!
# LocalWalk — the local walk terminates, and when it is exact

Only the targets of symbolic links are remembered, so a walk may come to an ordinary directory many times, once for
each way that leads there.  Between two links it goes down the tree of a file system's own directories, which ends; and
each link it follows takes one of finitely many targets off those not yet visited, whichever worker gets it.  So every
walk ends (`localWalk_terminates`), however the links go round.  What it returns is exact where the system follows every
path to a file (`localWalk_exact`), and short of a file behind more links than that (`chain_not_exact`).
-/
namespace Mito

open Lib

/-- A directory that another holds under a name of its own, not through a link. -/
def Tree.Holds (T : Tree) (m n : Nat) : Prop := ∃ D e, T.dir n = some D ∧ e ∈ D.entries ∧ e.isLink = false ∧ e.item = .dir m

/-- A finite file system: finitely many directories, and those they hold hold them in no circle.  The links are
arbitrary. -/
structure Tree.FileSystem (T : Tree) : Prop where
  finite : { n | T.dir n ≠ none }.Finite
  nested : WellFounded T.Holds

/-- The loop over a directory's entries, where `is_symlink` tells a link from a directory. -/
inductive TellsLinks (tooFar : Str → Bool) : Str × Dir → LocalScan → List DirectoryEntry → List (Str × Nat) →
    Option (Str × Dir) → LocalScan → Prop
  | done {base : Str} {D : Dir} {s : LocalScan} (h : D.entries = []) : TellsLinks tooFar (base, D) s [] [] none s
  | entry {base : Str} {D : Dir} {s : LocalScan} {e : DirEnt} (h : D.entries.head? = some e) {a : EntryAns}
      (ha : a.Of (e.seen tooFar base)) (hl : a.isSymlink = e.isLink) {fs : List DirectoryEntry} {ds : List (Str × Nat)}
      {s' : LocalScan} (hr : scanEntry base e a s = (fs, ds, s')) :
      TellsLinks tooFar (base, D) s fs ds (some (base, D.tail)) s'
  | threw {r : Str × Dir} {s : LocalScan} : TellsLinks tooFar r s [] [] none { s with complete := false }

theorem TellsLinks.readsDir {tooFar : Str → Bool} {r : Str × Dir} {s s' : LocalScan} {fs : List DirectoryEntry}
    {ds : List (Str × Nat)} {r' : Option (Str × Dir)} (h : TellsLinks tooFar r s fs ds r' s') :
    ReadsDir tooFar r s fs ds r' s' := by
  cases h with
  | done h => exact .done h
  | entry h ha _ hr => exact .entry h ha hr
  | threw => exact .threw

/-- `parallel_enumerate_local_directory`, its directories and entries failing as they may. -/
def linkWalker (T : Tree) (tooFar : Str → Bool) : Walker (Str × Nat) (Str × Dir) DirectoryEntry LocalScan where
  opens := OpensDir T tooFar
  reads := TellsLinks tooFar
  lost s := s.complete = false ∨ s.aliasOmitted = true

/-! ## What is left of a walk -/

/-- One step down the file system's own directories. -/
inductive Within (T : Tree) : (Str × Nat) ⊕ (Str × Dir) → (Str × Nat) ⊕ (Str × Dir) → Prop
  | opened {base : Str} {n : Nat} {D D' : Dir} (hd : T.dir n = some D) (hp : D'.entries.Perm D.entries) :
      Within T (.inr (base, D')) (.inl (base, n))
  | rest {base : Str} {D : Dir} (h : D.entries ≠ []) : Within T (.inr (base, D.tail)) (.inr (base, D))
  | subdir {base path : Str} {D : Dir} {e : DirEnt} {m : Nat} (he : e ∈ D.entries) (hl : e.isLink = false)
      (hi : e.item = .dir m) : Within T (.inl (path, m)) (.inr (base, D))

/-- What is left of a directory ends where the directories it holds do. -/
theorem within_rest {T : Tree} (base : Str) : ∀ (n : Nat) (D : Dir), D.entries.length = n →
    (∀ e ∈ D.entries, e.isLink = false → ∀ m, e.item = .dir m → ∀ path, Acc (Within T) (.inl (path, m))) →
    Acc (Within T) (.inr (base, D))
  | 0, D, hn, hsub => by
    refine .intro _ fun y hy => ?_
    cases hy with
    | rest h => exact absurd (List.length_eq_zero_iff.1 hn) h
    | subdir he hl hi => exact hsub _ he hl _ hi _
  | n + 1, D, hn, hsub => by
    refine .intro _ fun y hy => ?_
    cases hy with
    | rest h =>
      refine within_rest base n D.tail ?_ fun e he => hsub e (List.mem_of_mem_tail he)
      show D.entries.tail.length = n
      rw [List.length_tail, hn, Nat.add_sub_cancel]
    | subdir he hl hi => exact hsub _ he hl _ hi _

theorem within_dir {T : Tree} (h : WellFounded T.Holds) (n : Nat) : ∀ path, Acc (Within T) (.inl (path, n)) := by
  induction h.apply n with
  | intro n _ ih =>
    intro path
    refine .intro _ fun y hy => ?_
    cases hy with
    | @opened _ _ D D' hd hp =>
      exact within_rest path _ D' rfl fun e he hl m hi => ih m ⟨D, e, hd, hp.mem_iff.1 he, hl, hi⟩

/-- **Down its own directories a file system ends.** -/
theorem within_wf {T : Tree} (h : WellFounded T.Holds) : WellFounded (Within T) := by
  refine ⟨fun x => ?_⟩
  cases x with
  | inl d => exact within_dir h d.2 d.1
  | inr r => exact within_rest r.1 _ r.2 rfl fun e _ _ m _ => within_dir h m

/-- The directories names lead to. -/
def Tree.targets (T : Tree) : Set Nat := { m | ∃ n D e, T.dir n = some D ∧ e ∈ D.entries ∧ e.item = .dir m }

theorem targets_finite {T : Tree} (h : T.FileSystem) : T.targets.Finite := by
  have hone : ∀ D : Dir, { m | ∃ e ∈ D.entries, e.item = .dir m }.Finite := by
    intro D
    have hitems : (D.entries.toFinset.image DirEnt.item : Set Item).Finite := Finset.finite_toSet _
    refine (hitems.preimage (fun a _ b _ hab => Item.dir.inj hab)).subset ?_
    rintro m ⟨e, he, hi⟩
    exact Finset.mem_coe.2 (Finset.mem_image.2 ⟨e, List.mem_toFinset.2 he, hi⟩)
  have hdir : ∀ n, { m | ∃ D e, T.dir n = some D ∧ e ∈ D.entries ∧ e.item = .dir m }.Finite := by
    intro n
    cases hd : T.dir n with
    | none => simp
    | some D =>
      refine (hone D).subset ?_
      rintro m ⟨D', e, hD, he, hi⟩
      obtain rfl := Option.some.inj hD
      exact ⟨e, he, hi⟩
  refine (h.finite.biUnion fun n _ => hdir n).subset ?_
  rintro m ⟨n, D, e, hd, he, hi⟩
  exact Set.mem_biUnion (by simp [hd]) ⟨D, e, hd, he, hi⟩

/-- The targets a link may still be followed to. -/
def unvisited (nodes : Finset Nat) (s : LocalScan) : Nat := (nodes.filter (· ∉ s.visitedSymlinkTargets)).card

theorem unvisited_insert {nodes : Finset Nat} {s : LocalScan} {target : Nat} (hn : target ∈ nodes)
    (hv : target ∉ s.visitedSymlinkTargets) :
    unvisited nodes { s with visitedSymlinkTargets := target :: s.visitedSymlinkTargets } < unvisited nodes s := by
  refine Finset.card_lt_card ((Finset.ssubset_iff_of_subset ?_).2 ⟨target, ?_, ?_⟩)
  · intro m hm
    rw [Finset.mem_filter, List.mem_cons, not_or] at hm
    exact Finset.mem_filter.2 ⟨hm.1, hm.2.2⟩
  · exact Finset.mem_filter.2 ⟨hn, hv⟩
  · simp

/-- A rest of a directory of the tree. -/
def RestOf (T : Tree) (r : Str × Dir) : Prop := ∃ n D, T.dir n = some D ∧ ∀ e ∈ r.2.entries, e ∈ D.entries

/-- **An entry spends a target, or leads down.** -/
theorem scanEntry_spends {T : Tree} {tooFar : Str → Bool} {nodes : Finset Nat} {base : Str} {D : Dir} {e : DirEnt}
    {a : EntryAns} (he : e ∈ D.entries) (hnodes : ∀ m, e.item = .dir m → m ∈ nodes) (ha : a.Of (e.seen tooFar base))
    (hl : a.isSymlink = e.isLink) {s s' : LocalScan} {fs : List DirectoryEntry} {ds : List (Str × Nat)} (hr : scanEntry base e a s = (fs, ds, s')) :
    unvisited nodes s' < unvisited nodes s ∨
      unvisited nodes s' = unvisited nodes s ∧ ∀ d ∈ ds, Within T (.inl d) (.inr (base, D)) := by
  unfold scanEntry at hr
  obtain ⟨-, ha⟩ := ha
  cases hs : a.status with
  | absent | special | error | regular =>
    simp only [hs, Prod.mk.injEq] at hr
    obtain ⟨-, rfl, rfl⟩ := hr
    exact .inr ⟨rfl, by simp⟩
  | directory =>
    simp only [hs] at hr ha
    obtain ⟨node, hseen, hc⟩ := ha
    have hi := e.item_of_seen hseen (by simp)
    split at hr
    · split at hr
      · simp only [Prod.mk.injEq] at hr
        obtain ⟨-, rfl, rfl⟩ := hr
        exact .inr ⟨rfl, by simp⟩
      · rename_i target htarget
        obtain rfl : target = node := by
          rw [htarget] at hc
          simpa using hc
        split at hr
        · simp only [Prod.mk.injEq] at hr
          obtain ⟨-, rfl, rfl⟩ := hr
          exact .inr ⟨rfl, by simp⟩
        · rename_i hv
          simp only [Prod.mk.injEq] at hr
          obtain ⟨-, -, rfl⟩ := hr
          exact .inl (unvisited_insert (hnodes _ hi) hv)
    · rename_i hlink
      simp only [Prod.mk.injEq] at hr
      obtain ⟨-, rfl, rfl⟩ := hr
      refine .inr ⟨rfl, fun d hd => ?_⟩
      rw [subdirOf, hi, List.mem_singleton] at hd
      rw [hd]
      exact .subdir he (by rw [← hl]; simpa using hlink) hi

theorem linkWalker_spends {T : Tree} {tooFar : Str → Bool} {nodes : Finset Nat} (hnodes : ∀ m ∈ T.targets, m ∈ nodes) :
    (linkWalker T tooFar).Spends (fun _ => True) (RestOf T) id (Within T) (unvisited nodes) where
  opens := by
    intro d s r s' h _
    cases h with
    | @opened base n D D' _ hd hp =>
      refine ⟨fun x hx => ?_, .inr ⟨rfl, fun x hx => ?_⟩⟩
      · obtain rfl := Option.some.inj (Option.mem_def.1 hx)
        exact ⟨n, D, Tree.dir_of_dirAt hd, fun e he => hp.mem_iff.1 he⟩
      · obtain rfl := Option.some.inj (Option.mem_def.1 hx)
        exact .opened (Tree.dir_of_dirAt hd) hp
    | absent _ => exact ⟨by simp, .inr ⟨rfl, by simp⟩⟩
    | unreadable => exact ⟨by simp, .inr ⟨rfl, by simp⟩⟩
  reads := by
    rintro ⟨base, D⟩ s es ds r' s' h ⟨n, D₀, hd, hsub⟩
    cases h with
    | done _ => exact ⟨by simp, by simp, .inr ⟨rfl, by simp, by simp⟩⟩
    | threw => exact ⟨by simp, by simp, .inr ⟨rfl, by simp, by simp⟩⟩
    | @entry base D s e hh a ha hl fs ds s' hscan =>
      have he : e ∈ D.entries := List.mem_of_mem_head? hh
      have hne : D.entries ≠ [] := List.ne_nil_of_mem he
      refine ⟨fun _ _ => trivial, fun x hx => ?_, ?_⟩
      · obtain rfl := Option.some.inj (Option.mem_def.1 hx)
        exact ⟨n, D₀, hd, fun e' he' => hsub e' (List.mem_of_mem_tail he')⟩
      · have hitem : ∀ m, e.item = .dir m → m ∈ nodes := fun m hi => hnodes m ⟨n, D₀, e, hd, hsub e he, hi⟩
        rcases scanEntry_spends (T := T) he hitem ha hl hscan with hlt | ⟨heq, hds⟩
        · exact .inl hlt
        · refine .inr ⟨heq, hds, fun x hx => ?_⟩
          obtain rfl := Option.some.inj (Option.mem_def.1 hx)
          exact .rest hne

/-- A true answer about an entry. -/
def DirEnt.answer (e : DirEnt) : EntryAns :=
  match e.item with
  | .file size mtime => ⟨e.isLink, .regular, some (size, mtime), none⟩
  | .dir node => ⟨e.isLink, .directory, none, some node⟩
  | .special => ⟨e.isLink, .special, none, none⟩
  | .unresolved => ⟨e.isLink, .absent, none, none⟩

theorem answer_of (e : DirEnt) : e.answer.Of e ∧ e.answer.isSymlink = e.isLink := by
  obtain ⟨name, l, item⟩ := e
  cases item <;> simp [DirEnt.answer, EntryAns.Of]

theorem linkWalker_answers (T : Tree) (tooFar : Str → Bool) :
    (linkWalker T tooFar).Answers (fun _ => True) (RestOf T) where
  opens := by
    rintro ⟨base, n⟩ s _
    cases hd : T.dirAt tooFar base n with
    | none => exact ⟨_, _, .absent hd⟩
    | some D => exact ⟨_, _, .opened hd (List.Perm.refl _)⟩
  reads := by
    rintro ⟨base, D⟩ s _
    cases h : D.entries with
    | nil => exact ⟨_, _, _, _, .done h⟩
    | cons e es =>
      have hanswer := answer_of (e.seen tooFar base)
      exact ⟨_, _, _, _, .entry (by rw [h]; rfl) hanswer.1 hanswer.2 rfl⟩

/-- **The walk terminates**: it can always go on until it is over, and not for ever, whatever fails and whenever it is
cancelled. -/
theorem localWalk_terminates {T : Tree} (hT : T.FileSystem) (tooFar : Str → Bool) (d : Str × Nat) (s : LocalScan) :
    Terminates (linkWalker T tooFar).Moves Walker.State.Over (.start d s) := by
  obtain ⟨nodes, hnodes⟩ := (targets_finite hT).exists_finset_coe
  exact Walker.moves_terminates (within_wf hT.nested)
    (linkWalker_spends fun m hm => Finset.mem_coe.1 (hnodes ▸ hm)) (linkWalker_answers T tooFar) s trivial

theorem linkWalker_run {T : Tree} {tooFar : Str → Bool}
    {w w' : Walker.State (Str × Nat) (Str × Dir) DirectoryEntry LocalScan}
    (h : Relation.ReflTransGen (linkWalker T tooFar).Moves w w') : (localWalker T tooFar).Run w w' := by
  have hrun : (linkWalker T tooFar).Run w w' := Walker.moves_run h
  refine Walker.run_mono (fun ho => ?_) (fun hr => ?_) hrun
  · exact ho
  · exact TellsLinks.readsDir hr

/-- **The local walk terminates, and is exact where the system follows every path to a file.**  Over a finite file
system with links of any kind, from its root and in any order of its workers, it comes to its end, whatever it has to
skip and whatever paths the system gives up on, and returns a listing there.  A listing has no path twice.  Where the
walk was not cancelled and neither flag is set, it is every file that can be reached, and only those, if and only if the
system gives up on no path on the way to one. -/
theorem localWalk_exact {T : Tree} (hT : T.FileSystem) (tooFar : Str → Bool) :
    (∀ n targets, T.root = .dir n → targets = [] ∨ targets = [n] →
      Terminates (linkWalker T tooFar).Moves Walker.State.Over (.start ([], n) { visitedSymlinkTargets := targets }) ∧
      ∀ w, Relation.ReflTransGen (linkWalker T tooFar).Moves (.start ([], n) { visitedSymlinkTargets := targets }) w →
        w.Over →
        LocalListsWithin T tooFar ⟨w.entries, w.shared.complete, w.shared.aliasOmitted⟩ w.cancelled) ∧
    ∀ l cancelled, LocalListsWithin T tooFar l cancelled → l.paths.Nodup ∧
      (l.Whole → cancelled = false →
        ((∀ p, p ∈ l.paths ↔ ∃ i, T.Has p i) ↔ ∀ p i, T.Has p i → p ∈ T.pathsWithin tooFar)) := by
  refine ⟨fun n targets hr ht => ⟨localWalk_terminates hT tooFar _ _, fun w hw ho =>
    .walked hr ht (linkWalker_run hw) ho⟩, fun l cancelled h => ?_⟩
  obtain ⟨hnodup, hin, hall⟩ := localListsWithin_paths h
  refine ⟨hnodup, fun hwhole hc => ⟨fun hexact p i hp => ?_, fun hfollowed p => ⟨fun hp => ?_, ?_⟩⟩⟩
  · exact hin p ((hexact p).2 ⟨i, hp⟩)
  · exact T.pathsWithin_subset tooFar (hin p hp)
  · rintro ⟨i, hp⟩
    exact hall hwhole hc p (hfollowed p i hp)

/-- A directory of one file and a link to itself. -/
def loopTree : Tree where
  root := .dir 0
  dir n := if n = 0 then some ⟨[⟨['a'], false, .file 1 5⟩, ⟨['l'], true, .dir 0⟩], by simp, by simp⟩ else none

theorem loopTree_fileSystem : loopTree.FileSystem := by
  have hdir : ∀ {n D}, loopTree.dir n = some D → n = 0 ∧
      D.entries = [⟨['a'], false, .file 1 5⟩, ⟨['l'], true, .dir 0⟩] := by
    intro n D h
    simp only [loopTree, Option.ite_none_right_eq_some, Option.some.injEq] at h
    exact ⟨h.1, by rw [← h.2]⟩
  refine ⟨(Set.finite_singleton 0).subset fun n hn => ?_, ⟨fun n => .intro _ ?_⟩⟩
  · obtain ⟨D, hD⟩ := Option.ne_none_iff_exists'.1 hn
    exact (hdir hD).1
  · rintro m ⟨D, e, hD, he, hl, hi⟩
    rw [(hdir hD).2] at he
    simp only [List.mem_cons, List.not_mem_nil, or_false] at he
    rcases he with rfl | rfl
    · exact absurd hi (by simp)
    · exact absurd hl (by simp)

/-- Its walk ends, with a listing, and a whole one is exact. -/
theorem localWalk_exact_loop :
    (∃ w : Walker.State (Str × Nat) (Str × Dir) DirectoryEntry LocalScan, w.Over ∧
      LocalLists loopTree ⟨w.entries, w.shared.complete, w.shared.aliasOmitted⟩ w.cancelled) ∧
    ∀ l, LocalLists loopTree l false → l.Whole → ∀ p, p ∈ l.paths ↔ ∃ i, loopTree.Has p i := by
  obtain ⟨hwalks, hlistings⟩ := localWalk_exact loopTree_fileSystem noLimit
  obtain ⟨hterm, hlists⟩ := hwalks 0 [0] rfl (.inr rfl)
  obtain ⟨w, hw, ho⟩ := hterm.exists_over
  refine ⟨⟨w, ho, hlists w hw ho⟩, fun l hl hwhole => ?_⟩
  refine ((hlistings l false hl).2 hwhole rfl).2 fun p i hp => ?_
  rw [loopTree.pathsWithin_noLimit]
  exact ⟨i, hp⟩

/-! ## A chain of links -/

/-- A chain of directories, each with a link to the next, and a file in the last, one link further than `limit`. -/
def chainTree (limit : Nat) : Tree where
  root := .dir 0
  dir n :=
    if n ≤ limit then some ⟨[⟨['l'], true, .dir (n + 1)⟩], by simp, by simp⟩
    else if n = limit + 1 then some ⟨[⟨['f'], false, .file 1 5⟩], by simp, by simp⟩
    else none

/-- A system that gives up on a path of more than `limit` of its links. -/
def chainLimit (limit : Nat) (path : Str) : Bool := decide (limit < path.count 'l')

/-- The way to a directory of the chain. -/
def chainPath : Nat → Str
  | 0 => []
  | k + 1 => chainPath k ++ ['l'] ++ ['/']

/-- The targets visited by then. -/
def chainVisited : Nat → List Nat
  | 0 => [0]
  | k + 1 => (k + 1) :: chainVisited k

theorem chainPath_links : ∀ k, (chainPath k).count 'l' = k
  | 0 => rfl
  | k + 1 => by simp [chainPath, chainPath_links k]

theorem le_of_chainVisited {m : Nat} : ∀ {k}, m ∈ chainVisited k → m ≤ k
  | 0, h => by simpa [chainVisited] using h
  | k + 1, h => by
    rcases List.mem_cons.1 h with rfl | h
    · exact Nat.le_refl _
    · exact (le_of_chainVisited h).trans (Nat.le_succ k)

theorem chainTree_fileSystem (limit : Nat) : (chainTree limit).FileSystem := by
  refine ⟨(Set.finite_Iic (limit + 1)).subset fun n hn => ?_, ⟨fun n => .intro _ ?_⟩⟩
  · by_contra hlt
    have hfar : ¬ n ≤ limit + 1 := hlt
    exact hn (by simp [chainTree, show ¬ n ≤ limit by omega, show n ≠ limit + 1 by omega])
  · rintro m ⟨D, e, hD, he, hl, hi⟩
    simp only [chainTree] at hD
    split at hD
    · obtain rfl := Option.some.inj hD
      obtain rfl := List.mem_singleton.1 he
      exact absurd hl (by simp)
    · split at hD
      · obtain rfl := Option.some.inj hD
        obtain rfl := List.mem_singleton.1 he
        exact absurd hi (by simp)
      · exact absurd hD (by simp)

/-- Down to the limit, each link is followed. -/
theorem chain_run (limit : Nat) : ∀ k, k ≤ limit →
    (localWalker (chainTree limit) (chainLimit limit)).Run (.start ([], 0) { visitedSymlinkTargets := [0] })
      { level := [(chainPath k, k)], shared := { visitedSymlinkTargets := chainVisited k } }
  | 0, _ => .refl
  | k + 1, hk => by
    let e : DirEnt := ⟨['l'], true, .dir (k + 1)⟩
    let a : EntryAns := ⟨true, .directory, none, some (k + 1)⟩
    have hd : (chainTree limit).dirAt (chainLimit limit) (chainPath k) k = some ⟨[e], by simp [e], by simp [e]⟩ := by
      simp [Tree.dirAt, chainLimit, chainPath_links, chainTree, e, show ¬ limit < k by omega, show k ≤ limit by omega]
    have hseen : (e.seen (chainLimit limit) (chainPath k)).item = .dir (k + 1) := by
      simp [DirEnt.seen, chainLimit, chainPath_links, e, show ¬ limit < k + 1 by omega]
    have hnew : k + 1 ∉ chainVisited k := fun hv => absurd (le_of_chainVisited hv) (by omega)
    have hscan : scanEntry (chainPath k) e a { visitedSymlinkTargets := chainVisited k } =
        ([], [(chainPath (k + 1), k + 1)], { visitedSymlinkTargets := chainVisited (k + 1) }) := by
      simp [scanEntry, a, hnew, subdirOf, e, chainPath, chainVisited]
    have ha : a.Of (e.seen (chainLimit limit) (chainPath k)) := ⟨fun _ => rfl, k + 1, hseen, .inr rfl⟩
    exact (chain_run limit k (by omega)).trans (run_entry hd rfl ha hscan)

/-- The link behind the limit is passed over quietly, and the listing is empty and whole. -/
theorem chain_lists (limit : Nat) : LocalListsWithin (chainTree limit) (chainLimit limit) { entries := [] } false := by
  let e : DirEnt := ⟨['l'], true, .dir (limit + 1)⟩
  have hd : (chainTree limit).dirAt (chainLimit limit) (chainPath limit) limit =
      some ⟨[e], by simp [e], by simp [e]⟩ := by
    simp [Tree.dirAt, chainLimit, chainPath_links, chainTree, e]
  have hseen : (e.seen (chainLimit limit) (chainPath limit)).item = .unresolved := by
    simp [DirEnt.seen, chainLimit, chainPath_links, e]
  have hlast := run_entry (a := ⟨true, .absent, none, none⟩) (s := { visitedSymlinkTargets := chainVisited limit }) hd
    rfl ⟨fun _ => rfl, hseen⟩ rfl
  exact .walked rfl (.inr rfl) ((chain_run limit limit (Nat.le_refl _)).trans hlast) ⟨rfl, rfl, rfl, .inl rfl⟩

theorem chain_file (limit : Nat) : ∀ j n, n + j = limit + 1 → ∃ path i, (chainTree limit).File n path i
  | 0, n, h => by
    refine ⟨['f'], ⟨1, 5⟩, .here (l := false) (D := ⟨[⟨['f'], false, .file 1 5⟩], by simp, by simp⟩) ?_
      List.mem_cons_self⟩
    simp [chainTree, show n = limit + 1 by omega]
  | j + 1, n, h => by
    obtain ⟨path, i, hf⟩ := chain_file limit j (n + 1) (by omega)
    have hd : (chainTree limit).dir n = some ⟨[⟨['l'], true, .dir (n + 1)⟩], by simp, by simp⟩ := by
      simp [chainTree, show n ≤ limit by omega]
    exact ⟨_, i, .inside hd List.mem_cons_self hf⟩

/-- **A file behind 41 links is left out of a listing that is whole**, where the system follows 40. -/
theorem chain_not_exact : ¬ ∀ (T : Tree) (tooFar : Str → Bool), T.FileSystem → ∀ l cancelled,
    LocalListsWithin T tooFar l cancelled → l.Whole → cancelled = false → ∀ p, p ∈ l.paths ↔ ∃ i, T.Has p i := by
  intro hexact
  obtain ⟨path, i, hf⟩ := chain_file 40 41 0 rfl
  have hlisted := (hexact _ _ (chainTree_fileSystem 40) _ _ (chain_lists 40) ⟨rfl, rfl⟩ rfl path).2 ⟨i, 0, rfl, hf⟩
  exact absurd hlisted List.not_mem_nil

end Mito
