import Mathlib.Data.List.DropRight
/-!
# Files — directory trees with symbolic links

A tree maps locations, lists of names from the root, to what stands there; its fields say that what stands somewhere
stands in a directory, under a name.  `walk` follows a path from a location the way a kernel does, one name at a time,
a link's target in the link's place and no more than so many links.  With `may` it also reads on through what is not
there, each missing name taken for an empty directory: `walk_grows` is why, since a tree that has only gained files
and directories leads nowhere that the old one, read so, does not.
-/
namespace Lib

/-- A name in a directory, or a step of a path. -/
abbrev Name := List Char

/-- The names from the root to a place. -/
abbrev Loc := List Name

def dot : Name := ['.']

def dotDot : Name := ['.', '.']

/-- What a directory may hold an entry under. -/
def isName (x : Name) : Bool := x ≠ [] && x ≠ dot && x ≠ dotDot && !x.contains '/'

/-- The steps of a path.  Separators that follow one another are one. -/
def names (p : List Char) : List Name := (p.splitOn '/').filter (· ≠ [])

inductive Node
  | dir (searchable : Bool)
  | file
  | link (target : List Char)
deriving DecidableEq

def isDir : Option Node → Bool
  | some (.dir _) => true
  | _ => false

structure Files where
  node : Loc → Option Node
  cwd : Loc
  root : isDir (node []) = true
  home : isDir (node cwd) = true
  within : ∀ l x, node (l ++ [x]) ≠ none → isDir (node l) = true ∧ isName x = true

/-- What following a path comes to: a place, with the links that may still be followed, or the error it stops with. -/
inductive Outcome
  | found (l : Loc) (links : Nat)
  | missing
  | notDir
  | denied
  | loop
deriving DecidableEq

def Outcome.andThen (o : Outcome) (f : Loc → Nat → Outcome) : Outcome :=
  match o with
  | .found l links => f l links
  | o => o

def Outcome.loc? : Outcome → Option Loc
  | .found l _ => some l
  | _ => none

inductive Lookup
  | enter (l : Loc)
  | follow (target : List Char)
  | stop (o : Outcome)

/-- Where a path starts that is read at `l`. -/
def startAt (l : Loc) (p : List Char) : Loc := if p.head? = some '/' then [] else l

namespace Files

variable (fs : Files) (may : Bool)

/-- One step in a directory. -/
def lookIn (l : Loc) (c : Name) : Lookup :=
  if c = dot then .enter l
  else if c = dotDot then .enter l.dropLast
  else match fs.node (l ++ [c]) with
    | some (.link t) => .follow t
    | some _ => .enter (l ++ [c])
    | none => if may then .enter (l ++ [c]) else .stop .missing

/-- One step from a place.  A place where nothing stands was read on to, as an empty directory. -/
def look (l : Loc) (c : Name) : Lookup :=
  match fs.node l with
  | some (.dir true) => fs.lookIn may l c
  | some (.dir false) => .stop .denied
  | some .file => .stop .notDir
  | some (.link _) => .stop .notDir
  | none => fs.lookIn may l c

def walkWith (links : Nat) (next : Loc → List Name → Outcome) : Loc → List Name → Outcome
  | l, [] => .found l links
  | l, c :: cs =>
    match fs.look may l c with
    | .enter l' => walkWith links next l' cs
    | .follow t => next (startAt l t) (names t ++ cs)
    | .stop o => o

/-- Following names from a place, through at most so many links. -/
def walk : Nat → Loc → List Name → Outcome
  | 0 => fs.walkWith may 0 (fun _ _ => .loop)
  | links + 1 => fs.walkWith may (links + 1) (walk links)

/-- A new entry in a directory, unless there is none to hold it or something stands there. -/
def place (l : Loc) (x : Name) (nd : Node) : Files :=
  if h : fs.node l = some (.dir true) ∧ isName x = true ∧ fs.node (l ++ [x]) = none then
    { fs with
      node := fun k => if k = l ++ [x] then some nd else fs.node k
      root := by
        rw [if_neg (by simp)]
        exact fs.root
      home := by
        have hne : fs.cwd ≠ l ++ [x] := by
          intro hc
          have := fs.home
          rw [hc, h.2.2] at this
          simp [isDir] at this
        rw [if_neg hne]
        exact fs.home
      within := by
        intro k y hk
        have hkeep : isDir (fs.node k) = true → isDir (if k = l ++ [x] then some nd else fs.node k) = true := by
          intro hd
          rw [if_neg (by rintro rfl; rw [h.2.2] at hd; simp [isDir] at hd)]
          exact hd
        by_cases he : k ++ [y] = l ++ [x]
        · obtain ⟨rfl, hy⟩ := List.append_inj' he rfl
          obtain rfl : y = x := by simpa using hy
          exact ⟨hkeep (by rw [h.1]; rfl), h.2.1⟩
        · rw [if_neg he] at hk
          obtain ⟨hd, hy⟩ := fs.within k y hk
          exact ⟨hkeep hd, hy⟩ }
  else fs

/-- What can be taken away: nothing stands below it, and it is no place paths start at. -/
structure Leaf (fs : Files) (l : Loc) : Prop where
  root : l ≠ []
  home : l ≠ fs.cwd
  below : ∀ x, fs.node (l ++ [x]) = none

/-- An entry gone: a link itself, never what it leads to. -/
def remove (fs : Files) (l : Loc) (h : fs.Leaf l) : Files where
  node k := if k = l then none else fs.node k
  cwd := fs.cwd
  root := by
    rw [if_neg (Ne.symm h.root)]
    exact fs.root
  home := by
    rw [if_neg (Ne.symm h.home)]
    exact fs.home
  within := by
    intro k x hk
    split at hk
    · exact absurd rfl hk
    · rw [if_neg (by rintro rfl; exact hk (h.below x))]
      exact fs.within k x hk

/-- Nothing new: what stands in the new tree stood in the old one. -/
structure Shrinks (fs fs' : Files) : Prop where
  cwd : fs'.cwd = fs.cwd
  node : ∀ l, fs'.node l = fs.node l ∨ fs'.node l = none

/-- Nothing but new files and directories.  A link is never one of them. -/
structure Grows (fs fs' : Files) : Prop where
  cwd : fs'.cwd = fs.cwd
  node : ∀ l, fs'.node l = fs.node l ∨ fs.node l = none ∧ (fs'.node l = some (.dir true) ∨ fs'.node l = some .file)

/-- Nothing but new directories. -/
def GrowsDirs (fs fs' : Files) : Prop :=
  fs'.cwd = fs.cwd ∧ ∀ l, fs'.node l = fs.node l ∨ fs.node l = none ∧ fs'.node l = some (.dir true)

variable {fs may}

theorem GrowsDirs.grows {fs fs' : Files} (h : GrowsDirs fs fs') : Grows fs fs' :=
  ⟨h.1, fun l => (h.2 l).imp_right (And.imp_right .inl)⟩

theorem GrowsDirs.refl (fs : Files) : GrowsDirs fs fs := ⟨rfl, fun _ => .inl rfl⟩

theorem GrowsDirs.trans {fs fs' fs'' : Files} (h : GrowsDirs fs fs') (h' : GrowsDirs fs' fs'') : GrowsDirs fs fs'' := by
  refine ⟨h'.1.trans h.1, fun l => ?_⟩
  obtain h2 | ⟨h2, h3⟩ := h'.2 l
  · rw [h2]
    exact h.2 l
  · obtain h1 | ⟨h1, -⟩ := h.2 l
    · exact .inr ⟨h1 ▸ h2, h3⟩
    · exact .inr ⟨h1, h3⟩

theorem Grows.refl (fs : Files) : Grows fs fs := ⟨rfl, fun _ => .inl rfl⟩

theorem Grows.trans {fs fs' fs'' : Files} (h : Grows fs fs') (h' : Grows fs' fs'') : Grows fs fs'' := by
  refine ⟨h'.cwd.trans h.cwd, fun l => ?_⟩
  obtain h2 | ⟨h2, h3⟩ := h'.node l
  · rw [h2]
    exact h.node l
  · obtain h1 | ⟨h1, -⟩ := h.node l
    · exact .inr ⟨h1 ▸ h2, h3⟩
    · exact .inr ⟨h1, h3⟩

theorem Shrinks.refl (fs : Files) : Shrinks fs fs := ⟨rfl, fun _ => .inl rfl⟩

theorem Shrinks.trans {fs fs' fs'' : Files} (h : Shrinks fs fs') (h' : Shrinks fs' fs'') : Shrinks fs fs'' := by
  refine ⟨h'.cwd.trans h.cwd, fun l => ?_⟩
  obtain h2 | h2 := h'.node l
  · rw [h2]
    exact h.node l
  · exact .inr h2

theorem remove_shrinks {l : Loc} (h : fs.Leaf l) : Shrinks fs (fs.remove l h) := by
  refine ⟨rfl, fun k => ?_⟩
  show (if k = l then none else fs.node k) = fs.node k ∨ (if k = l then none else fs.node k) = none
  split
  · exact .inr rfl
  · exact .inl rfl

/-- **Only the entry itself is gone.** -/
theorem remove_node {l k : Loc} (h : fs.Leaf l) (hk : k ≠ l) : (fs.remove l h).node k = fs.node k := if_neg hk

theorem remove_self {l : Loc} (h : fs.Leaf l) : (fs.remove l h).node l = none := if_pos rfl

/-- What a new entry changes. -/
theorem place_node (l : Loc) (x : Name) (nd : Node) : (fs.place l x nd).cwd = fs.cwd ∧ ∀ k,
    (fs.place l x nd).node k = fs.node k ∨ fs.node k = none ∧ (fs.place l x nd).node k = some nd := by
  unfold place
  by_cases hp : fs.node l = some (.dir true) ∧ isName x = true ∧ fs.node (l ++ [x]) = none
  · rw [dif_pos hp]
    refine ⟨rfl, fun k => ?_⟩
    dsimp only
    by_cases hk : k = l ++ [x]
    · rw [if_pos hk, hk]
      exact .inr ⟨hp.2.2, rfl⟩
    · rw [if_neg hk]
      exact .inl rfl
  · rw [dif_neg hp]
    exact ⟨rfl, fun _ => .inl rfl⟩

theorem place_at {l : Loc} {x : Name} (nd : Node)
    (h : fs.node l = some (.dir true) ∧ isName x = true ∧ fs.node (l ++ [x]) = none) (k : Loc) :
    (fs.place l x nd).node k = if k = l ++ [x] then some nd else fs.node k := by
  unfold place
  rw [dif_pos h]

theorem place_dir_grows (l : Loc) (x : Name) : GrowsDirs fs (fs.place l x (.dir true)) := place_node l x _

theorem place_file_grows (l : Loc) (x : Name) : Grows fs (fs.place l x .file) := by
  have hplaced : (fs.place l x .file).cwd = fs.cwd ∧ ∀ k, (fs.place l x .file).node k = fs.node k ∨
      fs.node k = none ∧ (fs.place l x .file).node k = some .file := place_node l x .file
  obtain ⟨hcwd, hnode⟩ := hplaced
  exact ⟨hcwd, fun k => (hnode k).imp_right (And.imp_right .inr)⟩

/-! ## Steps -/

/-- Where a step may be taken: in a directory, or where nothing stands. -/
def Passes (fs : Files) (l : Loc) : Prop := fs.node l = some (.dir true) ∨ fs.node l = none

/-- Where a step leads that follows no link. -/
def Enters (fs : Files) (may : Bool) (l : Loc) (c : Name) (l' : Loc) : Prop :=
  c = dot ∧ l' = l ∨ c = dotDot ∧ l' = l.dropLast ∨
    c ≠ dot ∧ c ≠ dotDot ∧ l' = l ++ [c] ∧ (∀ t, fs.node (l ++ [c]) ≠ some (.link t)) ∧
      (fs.node (l ++ [c]) = none → may = true)

theorem look_passes {l : Loc} (h : fs.Passes l) (c : Name) : fs.look may l c = fs.lookIn may l c := by
  unfold look
  obtain h | h := h <;> rw [h]

theorem look_not_passes {l : Loc} (h : ¬ fs.Passes l) (may : Bool) (c : Name) :
    fs.look may l c = .stop .denied ∨ fs.look may l c = .stop .notDir := by
  unfold look
  unfold Passes at h
  cases hn : fs.node l with
  | none => exact absurd (.inr hn) h
  | some nd =>
    cases nd with
    | dir searchable =>
      cases searchable with
      | true => exact absurd (.inl hn) h
      | false => exact .inl rfl
    | file => exact .inr rfl
    | link t => exact .inr rfl

theorem lookIn_enter {l l' : Loc} {c : Name} : fs.lookIn may l c = .enter l' ↔ fs.Enters may l c l' := by
  unfold lookIn Enters
  by_cases h1 : c = dot
  · subst h1
    simp [dot, dotDot, eq_comm]
  by_cases h2 : c = dotDot
  · subst h2
    simp [dot, dotDot, eq_comm]
  rw [if_neg h1, if_neg h2]
  cases hn : fs.node (l ++ [c]) with
  | none => cases may <;> simp [h1, h2, eq_comm]
  | some nd => cases nd <;> simp [h1, h2, eq_comm]

theorem lookIn_follow {l : Loc} {c : Name} {t : List Char} :
    fs.lookIn may l c = .follow t ↔ c ≠ dot ∧ c ≠ dotDot ∧ fs.node (l ++ [c]) = some (.link t) := by
  unfold lookIn
  by_cases h1 : c = dot
  · simp [h1]
  by_cases h2 : c = dotDot
  · simp [h2, dot, dotDot]
  rw [if_neg h1, if_neg h2]
  cases hn : fs.node (l ++ [c]) with
  | none => cases may <;> simp
  | some nd => cases nd <;> simp [h1, h2]

theorem look_enter {l l' : Loc} {c : Name} : fs.look may l c = .enter l' ↔ fs.Passes l ∧ fs.Enters may l c l' := by
  by_cases h : fs.Passes l
  · rw [look_passes h, lookIn_enter]
    exact (and_iff_right h).symm
  · refine ⟨fun he => ?_, fun he => absurd he.1 h⟩
    obtain hs | hs := look_not_passes h may c <;> rw [hs] at he <;> cases he

theorem look_follow {l : Loc} {c : Name} {t : List Char} :
    fs.look may l c = .follow t ↔
      fs.Passes l ∧ c ≠ dot ∧ c ≠ dotDot ∧ fs.node (l ++ [c]) = some (.link t) := by
  by_cases h : fs.Passes l
  · rw [look_passes h, lookIn_follow]
    exact (and_iff_right h).symm
  · refine ⟨fun he => ?_, fun he => absurd he.1 h⟩
    obtain hs | hs := look_not_passes h may c <;> rw [hs] at he <;> cases he

theorem look_stop_ne {l l' : Loc} {links : Nat} {c : Name} {o : Outcome} (h : fs.look may l c = .stop o) :
    o ≠ .found l' links := by
  rintro rfl
  by_cases hp : fs.Passes l
  · rw [look_passes hp] at h
    unfold lookIn at h
    repeat' split at h
    all_goals cases h
  · obtain hs | hs := look_not_passes hp may c <;> rw [hs] at h <;> cases h

/-! ## Following a path -/

@[simp] theorem walk_nil (links : Nat) (l : Loc) : fs.walk may links l [] = .found l links := by
  cases links <;> rfl

theorem walk_enter {links : Nat} {l l' : Loc} {c : Name} {cs : List Name} (h : fs.look may l c = .enter l') :
    fs.walk may links l (c :: cs) = fs.walk may links l' cs := by
  cases links <;> simp only [walk, walkWith, h]

theorem walk_stop {links : Nat} {l : Loc} {o : Outcome} {c : Name} {cs : List Name} (h : fs.look may l c = .stop o) :
    fs.walk may links l (c :: cs) = o := by
  cases links <;> simp only [walk, walkWith, h]

theorem walk_loop {l : Loc} {t : List Char} {c : Name} {cs : List Name} (h : fs.look may l c = .follow t) :
    fs.walk may 0 l (c :: cs) = .loop := by
  simp only [walk, walkWith, h]

theorem walk_follow {links : Nat} {l : Loc} {t : List Char} {c : Name} {cs : List Name}
    (h : fs.look may l c = .follow t) :
    fs.walk may (links + 1) l (c :: cs) = fs.walk may links (startAt l t) (names t ++ cs) := by
  simp only [walk, walkWith, h]

/-- **A path is followed one part after the other.** -/
theorem walk_append (links : Nat) (l : Loc) (a b : List Name) :
    fs.walk may links l (a ++ b) = (fs.walk may links l a).andThen (fun l' links' => fs.walk may links' l' b) := by
  induction links generalizing l a with
  | zero =>
    induction a generalizing l with
    | nil => rw [List.nil_append, walk_nil]; rfl
    | cons c cs ih =>
      rw [List.cons_append]
      cases hl : fs.look may l c with
      | enter l' => rw [walk_enter hl, walk_enter hl, ih]
      | follow t => rw [walk_loop hl, walk_loop hl]; rfl
      | stop o =>
        rw [walk_stop hl, walk_stop hl]
        cases o with
        | found l' links' => exact absurd rfl (look_stop_ne hl)
        | missing | notDir | denied | loop => rfl
  | succ links ihl =>
    induction a generalizing l with
    | nil => rw [List.nil_append, walk_nil]; rfl
    | cons c cs ih =>
      rw [List.cons_append]
      cases hl : fs.look may l c with
      | enter l' => rw [walk_enter hl, walk_enter hl, ih]
      | follow t => rw [walk_follow hl, walk_follow hl, ← List.append_assoc, ihl]
      | stop o =>
        rw [walk_stop hl, walk_stop hl]
        cases o with
        | found l' links' => exact absurd rfl (look_stop_ne hl)
        | missing | notDir | denied | loop => rfl

theorem walk_part {links links' : Nat} {l r : Loc} {a b : List Name}
    (h : fs.walk may links l (a ++ b) = .found r links') : ∃ q k, fs.walk may links l a = .found q k := by
  rw [walk_append] at h
  cases hw : fs.walk may links l a with
  | found q k => exact ⟨q, k, rfl⟩
  | missing | notDir | denied | loop => rw [hw] at h; cases h

/-- The paths that lead to a place, by what is met on the way. -/
inductive Follows (fs : Files) (may : Bool) : Nat → Loc → List Name → Loc → Nat → Prop
  | here {links : Nat} {l : Loc} : Follows fs may links l [] l links
  | enter {links links' : Nat} {l l' r : Loc} {c : Name} {cs : List Name} (h : fs.look may l c = .enter l')
      (rest : Follows fs may links l' cs r links') : Follows fs may links l (c :: cs) r links'
  | follow {links links' : Nat} {l r : Loc} {t : List Char} {c : Name} {cs : List Name}
      (h : fs.look may l c = .follow t) (rest : Follows fs may links (startAt l t) (names t ++ cs) r links') :
      Follows fs may (links + 1) l (c :: cs) r links'

theorem Follows.walk {links links' : Nat} {l r : Loc} {cs : List Name} (h : Follows fs may links l cs r links') :
    fs.walk may links l cs = .found r links' := by
  induction h with
  | here => exact walk_nil _ _
  | enter h _ ih => rw [walk_enter h, ih]
  | follow h _ ih => rw [walk_follow h, ih]

theorem follows_of_walk {links links' : Nat} {l r : Loc} {cs : List Name}
    (h : fs.walk may links l cs = .found r links') : Follows fs may links l cs r links' := by
  induction links generalizing l cs with
  | zero =>
    induction cs generalizing l with
    | nil =>
      rw [walk_nil] at h
      cases h
      exact .here
    | cons c cs ih =>
      cases hl : fs.look may l c with
      | enter l' => exact .enter hl (ih (walk_enter hl ▸ h))
      | follow t => rw [walk_loop hl] at h; cases h
      | stop o => exact absurd (walk_stop hl ▸ h) (look_stop_ne hl)
  | succ links ihl =>
    induction cs generalizing l with
    | nil =>
      rw [walk_nil] at h
      cases h
      exact .here
    | cons c cs ih =>
      cases hl : fs.look may l c with
      | enter l' => exact .enter hl (ih (walk_enter hl ▸ h))
      | follow t => exact .follow hl (ihl (walk_follow hl ▸ h))
      | stop o => exact absurd (walk_stop hl ▸ h) (look_stop_ne hl)

/-- **What holds of a step holds of a path**: where every step one tree takes the other takes too, so does every path. -/
theorem walk_map {fs' : Files} {may' : Bool} {links links' : Nat} {l r : Loc} {cs : List Name}
    (he : ∀ l c l', fs'.look may' l c = .enter l' → fs.look may l c = .enter l')
    (hf : ∀ l c t, fs'.look may' l c = .follow t → fs.look may l c = .follow t)
    (h : fs'.walk may' links l cs = .found r links') : fs.walk may links l cs = .found r links' := by
  refine Follows.walk ?_
  induction follows_of_walk h with
  | here => exact .here
  | enter h' rest ih => exact .enter (he _ _ _ h') (ih rest.walk)
  | follow h' rest ih => exact .follow (hf _ _ _ h') (ih rest.walk)

/-- **A tree that has only grown leads nowhere that the old one, read on through what was missing, did not.** -/
theorem walk_grows {fs' : Files} {may' : Bool} (h : Grows fs fs') {links links' : Nat} {l r : Loc} {cs : List Name}
    (hw : fs'.walk may' links l cs = .found r links') : fs.walk true links l cs = .found r links' := by
  have hpass : ∀ {l}, fs'.Passes l → fs.Passes l := by
    intro l hp
    obtain he | ⟨hn, -⟩ := h.node l
    · unfold Passes at hp ⊢
      rwa [← he]
    · exact .inr hn
  refine walk_map (fun l c l' hl => ?_) (fun l c t hl => ?_) hw
  · rw [look_enter] at hl ⊢
    refine ⟨hpass hl.1, ?_⟩
    obtain hd | hd | ⟨h1, h2, h3, h4, -⟩ := hl.2
    · exact .inl hd
    · exact .inr (.inl hd)
    · refine .inr (.inr ⟨h1, h2, h3, fun t ht => ?_, fun _ => rfl⟩)
      obtain he | ⟨hn, -⟩ := h.node (l ++ [c])
      · exact h4 t (he ▸ ht)
      · rw [hn] at ht
        cases ht
  · rw [look_follow] at hl ⊢
    obtain ⟨hp, h1, h2, ht⟩ := hl
    refine ⟨hpass hp, h1, h2, ?_⟩
    obtain he | ⟨-, hn | hn⟩ := h.node (l ++ [c])
    · exact he ▸ ht
    · rw [hn] at ht; cases ht
    · rw [hn] at ht; cases ht

theorem node_dropLast {l : Loc} (h : fs.node l ≠ none) : fs.node l.dropLast ≠ none := by
  cases l using List.reverseRecOn with
  | nil => exact h
  | append_singleton l x =>
    rw [List.dropLast_concat]
    intro hn
    have := (fs.within l x h).1
    rw [hn] at this
    cases this

theorem isName_of_node {l : Loc} (h : fs.node l ≠ none) : ∀ x ∈ l, isName x = true := by
  induction l using List.reverseRecOn with
  | nil => exact fun x hx => absurd hx (List.not_mem_nil)
  | append_singleton l y ih =>
    have hl : fs.node l ≠ none := by simpa using node_dropLast h
    intro x hx
    obtain hx | hx := List.mem_append.mp hx
    · exact ih hl x hx
    · obtain rfl := List.mem_singleton.mp hx
      exact (fs.within l x h).2

theorem node_root (fs : Files) : fs.node [] ≠ none := by
  intro hn
  have := fs.root
  rw [hn] at this
  cases this

/-- Where a link's target is read from is there. -/
theorem node_start {l : Loc} (hl : fs.node l ≠ none) (t : List Char) : fs.node (startAt l t) ≠ none := by
  unfold startAt
  split
  · exact node_root fs
  · exact hl

/-- **What a path leads to is there.** -/
theorem node_of_walk {links links' : Nat} {l r : Loc} {cs : List Name} (hl : fs.node l ≠ none)
    (h : fs.walk false links l cs = .found r links') : fs.node r ≠ none := by
  induction follows_of_walk h with
  | here => exact hl
  | enter he rest ih =>
    refine ih ?_ rest.walk
    obtain ⟨-, ⟨-, rfl⟩ | ⟨-, rfl⟩ | ⟨-, -, rfl, -, hn⟩⟩ := look_enter.mp he
    · exact hl
    · exact node_dropLast hl
    · exact fun hc => Bool.false_ne_true (hn hc)
  | follow he rest ih => exact ih (node_start hl _) rest.walk

theorem node_append_none {l : Loc} (h : fs.node l = none) (x : Name) : fs.node (l ++ [x]) = none := by
  by_contra hn
  have := (fs.within l x hn).1
  rw [h] at this
  cases this

/-- **Below a place where nothing stands there is no link**: names read on from it lead where they say. -/
theorem walk_absent {links : Nat} : ∀ {cs : List Name} {l : Loc}, fs.node l = none → dotDot ∉ cs →
    fs.walk true links l cs = .found (l ++ cs.filter (· ≠ dot)) links
  | [], l, _, _ => by rw [walk_nil, List.filter_nil, List.append_nil]
  | c :: cs, l, hl, hc => by
    rw [List.mem_cons, not_or] at hc
    by_cases h1 : c = dot
    · have he : fs.look true l c = .enter l := look_enter.mpr ⟨.inr hl, .inl ⟨h1, rfl⟩⟩
      rw [walk_enter he, walk_absent hl hc.2, List.filter_cons_of_neg (by simpa using h1)]
    · have hn := node_append_none hl c
      have he : fs.look true l c = .enter (l ++ [c]) :=
        look_enter.mpr
        ⟨.inr hl, .inr (.inr ⟨h1, Ne.symm hc.1, rfl, fun t => by rw [hn]; exact nofun, fun _ => rfl⟩)⟩
      rw [walk_enter he, walk_absent hn hc.2, List.filter_cons_of_pos (by simpa using h1), List.append_assoc]
      rfl


/-- **What a path leads to, it still leads to in a tree that has grown.** -/
theorem walk_stays {fs' : Files} (h : Grows fs fs') {links links' : Nat} {l r : Loc} {cs : List Name}
    (hl : fs.node l ≠ none) (hw : fs.walk false links l cs = .found r links') :
    fs'.walk false links l cs = .found r links' := by
  have hkeep : ∀ {k}, fs.node k ≠ none → fs'.node k = fs.node k := fun hk => (h.node _).resolve_right fun hn => hk hn.1
  have hpass : ∀ {k}, fs.node k ≠ none → fs.Passes k → fs'.Passes k := by
    intro k hk hp
    unfold Passes
    rw [hkeep hk]
    exact hp
  refine Follows.walk ?_
  induction follows_of_walk hw with
  | here => exact .here
  | @enter _ _ l l' _ c _ he rest ih =>
    obtain ⟨hp, hen⟩ := look_enter.mp he
    have hen' : fs'.Enters false l c l' ∧ fs.node l' ≠ none := by
      obtain ⟨h1, rfl⟩ | ⟨h1, rfl⟩ | ⟨h1, h2, rfl, h3, h4⟩ := hen
      · exact ⟨.inl ⟨h1, rfl⟩, hl⟩
      · exact ⟨.inr (.inl ⟨h1, rfl⟩), node_dropLast hl⟩
      · have hn : fs.node (l ++ [c]) ≠ none := fun hc => Bool.false_ne_true (h4 hc)
        exact ⟨.inr (.inr ⟨h1, h2, rfl, by rw [hkeep hn]; exact h3, by rw [hkeep hn]; exact h4⟩), hn⟩
    exact .enter (look_enter.mpr ⟨hpass hl hp, hen'.1⟩) (ih hen'.2 rest.walk)
  | @follow _ _ l _ t c _ he rest ih =>
    obtain ⟨hp, h1, h2, ht⟩ := look_follow.mp he
    have hn : fs.node (l ++ [c]) ≠ none := by
      rw [ht]
      exact nofun
    exact .follow (look_follow.mpr ⟨hpass hl hp, h1, h2, by rw [hkeep hn, ht]⟩) (ih (node_start hl t) rest.walk)

/-- **What a path leads to in a tree that has shrunk, it led to before.** -/
theorem walk_shrinks {fs' : Files} (h : Shrinks fs fs') {links links' : Nat} {l r : Loc} {cs : List Name}
    (hl : fs'.node l ≠ none) (hw : fs'.walk false links l cs = .found r links') :
    fs.walk false links l cs = .found r links' := by
  have hkeep : ∀ {k}, fs'.node k ≠ none → fs'.node k = fs.node k := fun hk => (h.node _).resolve_right hk
  have hpass : ∀ {k}, fs'.node k ≠ none → fs'.Passes k → fs.Passes k := by
    intro k hk hp
    unfold Passes
    rw [← hkeep hk]
    exact hp
  refine Follows.walk ?_
  induction follows_of_walk hw with
  | here => exact .here
  | @enter _ _ l l' _ c _ he rest ih =>
    obtain ⟨hp, hen⟩ := look_enter.mp he
    have hen' : fs.Enters false l c l' ∧ fs'.node l' ≠ none := by
      obtain ⟨h1, rfl⟩ | ⟨h1, rfl⟩ | ⟨h1, h2, rfl, h3, h4⟩ := hen
      · exact ⟨.inl ⟨h1, rfl⟩, hl⟩
      · exact ⟨.inr (.inl ⟨h1, rfl⟩), node_dropLast hl⟩
      · have hn : fs'.node (l ++ [c]) ≠ none := fun hc => Bool.false_ne_true (h4 hc)
        refine ⟨.inr (.inr ⟨h1, h2, rfl, ?_, ?_⟩), hn⟩
        · rw [← hkeep hn]
          exact h3
        · rw [← hkeep hn]
          exact h4
    exact .enter (look_enter.mpr ⟨hpass hl hp, hen'.1⟩) (ih hen'.2 rest.walk)
  | @follow _ _ l _ t c _ he rest ih =>
    obtain ⟨hp, h1, h2, ht⟩ := look_follow.mp he
    have hn : fs'.node (l ++ [c]) ≠ none := by
      rw [ht]
      exact nofun
    exact .follow (look_follow.mpr ⟨hpass hl hp, h1, h2, by rw [← hkeep hn, ht]⟩) (ih (node_start hl t) rest.walk)

/-- **Where no link stands, names lead where they say.** -/
theorem walk_plain {links links' : Nat} : ∀ {cs : List Name} {l r : Loc},
    (∀ k t, l <+: k → fs.node k ≠ some (.link t)) → (∀ c ∈ cs, c ≠ dot ∧ c ≠ dotDot) →
      fs.walk may links l cs = .found r links' → r = l ++ cs
  | [], l, r, _, _, h => by
    rw [walk_nil] at h
    cases h
    exact (List.append_nil l).symm
  | c :: cs, l, r, hlinks, hcs, h => by
    obtain ⟨h1, h2⟩ := hcs c List.mem_cons_self
    cases hl : fs.look may l c with
    | stop o => exact absurd (walk_stop hl ▸ h) (look_stop_ne hl)
    | follow t => exact absurd (look_follow.mp hl).2.2.2 (hlinks _ t (List.prefix_append _ _))
    | enter l' =>
      obtain ⟨-, he | he | ⟨-, -, rfl, -⟩⟩ := look_enter.mp hl
      · exact absurd he.1 h1
      · exact absurd he.1 h2
      · rw [walk_enter hl] at h
        have hr := walk_plain (fun k t hk => hlinks k t ((List.prefix_append _ _).trans hk))
          (fun c hc => hcs c (List.mem_cons_of_mem _ hc)) h
        rw [hr, List.append_assoc]
        rfl

theorem node_below_none {l k : Loc} (h : isDir (fs.node l) = false) (hk : l <+: k) (hne : k ≠ l) : fs.node k = none := by
  obtain ⟨t, rfl⟩ := hk
  induction t using List.reverseRecOn with
  | nil => exact absurd (List.append_nil l) hne
  | append_singleton t x ih =>
    rw [← List.append_assoc]
    by_contra hn
    have hd := (fs.within _ x hn).1
    by_cases ht : t = []
    · rw [ht, List.append_nil, h] at hd
      cases hd
    · rw [ih (by simpa using ht)] at hd
      cases hd

/-! ## Paths as strings -/

@[simp] theorem names_nil : names [] = [] := rfl

/-- **A separator divides a path's names.** -/
theorem names_append (a b : List Char) : names (a ++ '/' :: b) = names a ++ names b := by
  unfold names
  rw [List.splitOn_append_cons_self, List.filter_append]

theorem names_of_not_mem {p : List Char} (h : '/' ∉ p) (hp : p ≠ []) : names p = [p] := by
  unfold names
  rw [List.splitOn_eq_singleton h]
  simp [hp]

/-- A location's path. -/
def render (l : Loc) : List Char := if l = [] then ['/'] else l.flatMap (fun x => '/' :: x)

theorem names_flatMap {l : Loc} (h : ∀ x ∈ l, isName x = true) : names (l.flatMap (fun x => '/' :: x)) = l := by
  induction l using List.reverseRecOn with
  | nil => rfl
  | append_singleton l x ih =>
    have hx := h x (List.mem_append_right _ (List.mem_singleton_self x))
    unfold isName at hx
    rw [List.flatMap_append, List.flatMap_singleton, names_append, ih fun y hy => h y (List.mem_append_left _ hy),
      names_of_not_mem (by simp_all) (by simp_all)]

/-- **A location can be read off its path.** -/
theorem names_render {l : Loc} (h : ∀ x ∈ l, isName x = true) : names (render l) = l := by
  unfold render
  split
  · rename_i hl
    rw [hl]
    rfl
  · exact names_flatMap h

theorem names_rdropWhile (p : List Char) : names (p.rdropWhile (· = '/')) = names p := by
  induction p using List.reverseRecOn with
  | nil => rfl
  | append_singleton p c ih =>
    by_cases hc : c = '/'
    · rw [List.rdropWhile_concat_pos _ _ _ (by simpa using hc), ih, hc, names_append, names_nil, List.append_nil]
    · rw [List.rdropWhile_concat_neg _ _ _ (by simpa using hc)]

/-- The tree with nothing in it. -/
def bare : Files where
  node l := if l = [] then some (.dir true) else none
  cwd := []
  root := rfl
  home := rfl
  within l x h := by simp at h

end Files
end Lib
