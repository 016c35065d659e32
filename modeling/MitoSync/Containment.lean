import MitoSync.Guards
import MitoSync.Lib.Files
/-!
# Containment — where the paths a sync writes under lead

`validate_target_resolves_within_base` over a tree with links, and the sync's directory creations and file writes as
steps from one tree to the next, in any order and between any checks.  The check resolves the deepest part of a
target's directory chain that can be resolved; a symlink that cannot be resolved yet passes for a name that is not
there.  Where it does no harm (`Misread`), what was accepted stays inside the base whatever the sync creates
(`contained_of_reaches`).
-/
namespace Mito

open Lib Files

/-- `path::parent_path`. -/
def parentPath (p : Str) : Str :=
  let up := (p.rdropWhile (· ≠ '/')).rdropWhile (· = '/')
  if up = [] ∧ p.head? = some '/' then ['/'] else up

/-- The links the kernel and `realpath` follow for one path. -/
def maxSymlinks : Nat := 40

/-- Where a path leads, from the working directory.  A separator that closes it is not looked at. -/
def leadsTo (fs : Files) (may : Bool) (p : Str) : Option Loc :=
  if p = [] then none else (fs.walk may maxSymlinks (startAt fs.cwd p) (names p)).loc?

/-- `fs::canonical`, `none` being its error. -/
def canonical (fs : Files) (p : Str) : Option Loc := leadsTo fs false p

/-- `fs::exists`, false as well where the status cannot be read. -/
def pathExists (fs : Files) (p : Str) : Bool := (canonical fs p).isSome

/-- The walk up to the deepest ancestor that resolves. -/
def canonicalAncestor (fs : Files) : Nat → Str → Option Loc
  | 0, _ => none
  | fuel + 1, probe =>
    match canonical fs probe with
    | some l => some l
    | none =>
      let up := parentPath probe
      if up = [] ∨ up = probe then none else canonicalAncestor fs fuel up

/-- The comparison of the two resolved paths, character by character. -/
def isInside (base parent : Str) : Bool :=
  parent = base ||
  (base = ['/'] && 1 < parent.length && parent.head? = some '/') ||
  (base.length < parent.length && base.isPrefixOf parent && parent[base.length]? = some '/')

def validateTargetResolvesWithinBase (fs : Files) (base target : Str) : Bool :=
  match canonical fs base with
  | none => !pathExists fs base
  | some canonicalBase =>
    let probe := parentPath target
    match canonicalAncestor fs (probe.length + 1) probe with
    | none => false
    | some canonicalParent => isInside (render canonicalBase) (render canonicalParent)

/-- The three checks of one path. -/
def accepts (fs : Files) (base relative : Str) : Bool :=
  targetAccepted base relative && validateTargetResolvesWithinBase fs base (pathAppend base relative)

/-- `mkdir` of a name in the directory a path leads to, unless it is refused. -/
def createDirectory (fs : Files) (refused : Loc → Bool) (start : Loc) (dir : List Name) (x : Name) : Option Files :=
  match (fs.walk false maxSymlinks start dir).loc? with
  | none => none
  | some l =>
    if fs.node l = some (.dir true) ∧ isName x = true ∧ fs.node (l ++ [x]) = none ∧ refused (l ++ [x]) = false then
      some (fs.place l x (.dir true))
    else none

/-- `fs::create_directories`: a directory for each element that does not exist, up to the first error. -/
def createDirectoriesFrom (refused : Loc → Bool) (start : Loc) (fs : Files) (done : List Name) : List Name → Files
  | [] => fs
  | x :: xs =>
    match fs.walk false maxSymlinks start (done ++ [x]) with
    | .found _ _ => createDirectoriesFrom refused start fs (done ++ [x]) xs
    | .denied => fs
    | .loop => fs
    | _ =>
      match createDirectory fs refused start done x with
      | some fs' => createDirectoriesFrom refused start fs' (done ++ [x]) xs
      | none => fs

def createDirectories (refused : Loc → Bool) (fs : Files) (p : Str) : Files :=
  createDirectoriesFrom refused (startAt fs.cwd p) fs [] (names p)

/-- What an `AtomicFileWriter` leaves in its target's directory: the target, its temporary file, or neither. -/
inductive Written
  | nothing
  | temporary (name : Name)
  | target

/-- `path::filename`. -/
def filename (p : Str) : Str := p.rtakeWhile (· ≠ '/')

/-- The directory a file is opened in. -/
def openedIn (fs : Files) (target : Str) : Option Loc :=
  if parentPath target = [] then some fs.cwd else canonical fs (parentPath target)

/-- A whole write of a target.  Content aside, it adds a file or changes nothing: it replaces only regular files. -/
def atomicWrite (fs : Files) (target : Str) (w : Written) : Files :=
  match openedIn fs target, w with
  | some l, .temporary name => fs.place l name .file
  | some l, .target => fs.place l (filename target) .file
  | _, _ => fs

/-- The tree, and the relative paths that were accepted so far. -/
structure Writing where
  files : Files
  accepted : List Str

/-- What a sync under `base` comes to, in any order of its steps: a path is checked, and directories are created and
files written for paths that were accepted at some time.  `ok` constrains the checks. -/
inductive Reaches (base : Str) (ok : Files → Str → Prop) : Writing → Prop
  | start (fs : Files) : Reaches base ok ⟨fs, []⟩
  | check {s : Writing} {r : Str} (h : Reaches base ok s) (hacc : accepts s.files base r = true) (hok : ok s.files r) :
      Reaches base ok ⟨s.files, r :: s.accepted⟩
  | create {s : Writing} {r : Str} (h : Reaches base ok s) (hr : r ∈ s.accepted) (refused : Loc → Bool) :
      Reaches base ok ⟨createDirectories refused s.files (parentPath (pathAppend base r)), s.accepted⟩
  | write {s : Writing} {r : Str} (h : Reaches base ok s) (hr : r ∈ s.accepted) (w : Written) :
      Reaches base ok ⟨atomicWrite s.files (pathAppend base r) w, s.accepted⟩

/-! ## What containment is -/

/-- A relative path's components, at either separator; one that closes the path adds none. -/
def plainComponents (relative : Str) : List Str :=
  let cs := relative.splitOnP (fun c => c = '/' || c = '\\')
  if cs.getLast? = some [] then cs.dropLast else cs

/-- Wherever the target's directory leads, the base leads to it or above. -/
def Below (fs : Files) (may : Bool) (base relative : Str) : Prop :=
  ∀ l, leadsTo fs may (parentPath (pathAppend base relative)) = some l → ∃ b, leadsTo fs may base = some b ∧ b <+: l

abbrev Contained (fs : Files) (base relative : Str) : Prop := Below fs false base relative

/-- A path whose resolution ends at a symlink, its target being what cannot be resolved. -/
def StopsAtLink (fs : Files) (p : Str) : Prop :=
  ∃ pre c post l links target, names p = pre ++ c :: post ∧
    fs.walk false maxSymlinks (startAt fs.cwd p) pre = .found l links ∧ fs.node (l ++ [c]) = some (.link target) ∧
    ∀ r k, fs.walk false maxSymlinks (startAt fs.cwd p) (pre ++ [c]) ≠ .found r k

/-- A path that is not there for want of one name, nothing behind which leads up again. -/
def PlainlyMissing (fs : Files) (p : Str) : Prop :=
  ∃ pre c post l links, names p = pre ++ c :: post ∧
    fs.walk false maxSymlinks (startAt fs.cwd p) pre = .found l links ∧ fs.node (l ++ [c]) = none ∧
    c ≠ dot ∧ dotDot ∉ c :: post

/-- **What the check reads wrongly**: a directory chain that stops at a symlink, or a base that is not there for more
than a name, where the chain, once the directories missing on the way are there, leads out of the base. -/
def Misread (fs : Files) (base relative : Str) : Prop :=
  (StopsAtLink fs (parentPath (pathAppend base relative)) ∨ canonical fs base = none ∧ ¬ PlainlyMissing fs base) ∧
    ¬ Below fs true base relative

/-! ## Strings -/

theorem rdropWhile_head {p : Str} (h : '/' ∈ p) : ∃ d f, p = d ++ '/' :: f ∧ '/' ∉ f := by
  obtain ⟨f, d, hr, hf⟩ := List.eq_append_cons_of_mem (List.mem_reverse.mpr h)
  refine ⟨d.reverse, f.reverse, ?_, by simpa using hf⟩
  rw [← List.reverse_reverse p, hr]
  simp

theorem rdropWhile_name {d f : Str} (hf : '/' ∉ f) : (d ++ '/' :: f).rdropWhile (· ≠ '/') = d ++ ['/'] := by
  induction f using List.reverseRecOn with
  | nil => exact List.rdropWhile_concat_neg _ _ _ (by simp)
  | append_singleton f c ih =>
    rw [List.mem_append, not_or] at hf
    have hc : c ≠ '/' := fun h => hf.2 (by simp [h])
    rw [← List.cons_append, ← List.append_assoc, List.rdropWhile_concat_pos _ _ _ (by simpa using hc), ih hf.1]

theorem parentPath_le (p : Str) : parentPath p <+: p := by
  unfold parentPath
  dsimp only
  split
  · rename_i h
    cases p with
    | nil => simp at h
    | cons c p =>
      obtain rfl : c = '/' := by simpa using h.2
      exact ⟨p, rfl⟩
  · exact (List.rdropWhile_prefix _ _).trans (List.rdropWhile_prefix _ _)

/-- **A path's parent drops its last name**, or nothing where the path ends with a separator. -/
theorem names_parentPath {d f : Str} (hf : '/' ∉ f) : names (parentPath (d ++ '/' :: f)) = names d := by
  unfold parentPath
  rw [rdropWhile_name hf]
  dsimp only
  have hd : names ((d ++ ['/']).rdropWhile (· = '/')) = names d := by
    rw [names_rdropWhile, names_append, names_nil, List.append_nil]
  split
  · rename_i h
    rw [← hd, h.1]
    rfl
  · exact hd

theorem parentPath_ne_nil {d f : Str} (hf : '/' ∉ f) : parentPath (d ++ '/' :: f) ≠ [] := by
  unfold parentPath
  rw [rdropWhile_name hf]
  dsimp only
  split
  · exact List.cons_ne_nil _ _
  · rename_i h
    intro hn
    refine h ⟨hn, ?_⟩
    rw [List.rdropWhile_eq_nil_iff] at hn
    cases d with
    | nil => rfl
    | cons c d => simpa using hn c (by simp)

theorem parentPath_of_not_mem {p : Str} (h : '/' ∉ p) : parentPath p = [] := by
  have hd : p.rdropWhile (· ≠ '/') = [] := by
    rw [List.rdropWhile_eq_nil_iff]
    intro c hc
    have hne : c ≠ '/' := fun he => h (he ▸ hc)
    simpa using hne
  unfold parentPath
  rw [hd]
  dsimp only
  rw [if_neg]
  · rfl
  · rintro ⟨-, hh⟩
    exact h (List.mem_of_mem_head? hh)

theorem splitOn_normalized (p : Str) :
    (separatorsNormalized p).splitOn '/' = p.splitOnP (fun c => c = '/' || c = '\\') := by
  induction p with
  | nil => rfl
  | cons c p ih =>
    rw [show separatorsNormalized (c :: p) = (if c = '\\' then '/' else c) :: separatorsNormalized p from rfl,
      List.splitOn_cons_eq_if_modifyHead, List.splitOnP_cons_eq_if_modifyHead, ih]
    by_cases h1 : c = '/'
    · simp [h1]
    · by_cases h2 : c = '\\'
      · simp [h2]
      · simp [h1, h2]

theorem plainComponents_eq (p : Str) : components (separatorsNormalized p) = plainComponents p := by
  unfold components plainComponents
  rw [splitOn_normalized]

/-- A component of a path that holds no backslash is one of the components that are checked. -/
theorem mem_splitOn_normalized {p c : Str} (hc : c ∈ p.splitOn '/') (hb : '\\' ∉ c) :
    c ∈ (separatorsNormalized p).splitOn '/' := by
  have hself : separatorsNormalized c = c := by
    unfold separatorsNormalized
    rw [List.map_congr_left (g := id), List.map_id]
    intro x hx
    have hne : x ≠ '\\' := fun he => hb (he ▸ hx)
    exact if_neg hne
  by_cases h : '/' ∈ p
  · obtain ⟨x, q, rfl, hx⟩ := List.eq_append_cons_of_mem h
    have hq : separatorsNormalized (x ++ '/' :: q) = separatorsNormalized x ++ '/' :: separatorsNormalized q := by
      simp [separatorsNormalized]
    rw [List.splitOn_append_cons_self, List.splitOn_eq_singleton hx] at hc
    rw [hq, List.splitOn_append_cons_self, List.mem_append]
    obtain hc | hc := List.mem_append.mp hc
    · obtain rfl := List.mem_singleton.mp hc
      rw [hself, List.splitOn_eq_singleton hx]
      exact .inl hc
    · exact .inr (mem_splitOn_normalized hc hb)
  · rw [List.splitOn_eq_singleton h, List.mem_singleton] at hc
    rw [← hc, hself, hc, List.splitOn_eq_singleton h]
    exact List.mem_singleton_self _
termination_by p.length
decreasing_by
  subst_vars
  simp
  omega

/-- **What the component check says**: no component is empty, `.` or `..`. -/
theorem componentOk_of_valid {r : Str} (h : validateRelativePath r = true) :
    ∀ c ∈ plainComponents r, c ≠ [] ∧ c ≠ ['.'] ∧ c ≠ ['.', '.'] := by
  unfold validateRelativePath at h
  rw [plainComponents_eq] at h
  split at h
  · rename_i hr
    subst hr
    exact fun c hc => absurd hc (by decide +revert)
  · split at h
    · cases h
    · intro c hc
      have hok := List.all_eq_true.mp h c hc
      unfold componentOk at hok
      simp only [Bool.and_eq_true, decide_eq_true_eq] at hok
      exact ⟨hok.1.1, hok.2, hok.1.2⟩

/-- No name on a valid relative path leads anywhere but down. -/
theorem names_of_valid {r : Str} (h : validateRelativePath r = true) : ∀ c ∈ names r, c ≠ dot ∧ c ≠ dotDot := by
  have hkey : ∀ c ∈ names r, '\\' ∉ c → c ≠ dot ∧ c ≠ dotDot := by
    intro c hc hb
    obtain ⟨hc, hne⟩ := List.mem_filter.mp hc
    have hne : c ≠ [] := by simpa using hne
    have hmem := mem_splitOn_normalized hc hb
    have hcomp : c ∈ plainComponents r := by
      rw [← plainComponents_eq]
      unfold components
      dsimp only
      split
      · rename_i hlast
        obtain ⟨l, hl⟩ := List.getLast?_eq_some_iff.mp hlast
        rw [hl, List.mem_append] at hmem
        rw [hl, List.dropLast_concat]
        exact hmem.resolve_right fun he => hne (by simpa using he)
      · exact hmem
    obtain ⟨-, h1, h2⟩ := componentOk_of_valid h c hcomp
    exact ⟨h1, h2⟩
  intro c hc
  by_cases hb : '\\' ∈ c
  · exact ⟨fun he => by subst he; simp [dot] at hb, fun he => by subst he; simp [dotDot] at hb⟩
  · exact hkey c hc hb

theorem head?_prefix_eq {p t : Str} (h : p <+: t) (hp : p ≠ []) : p.head? = t.head? := by
  obtain ⟨r, rfl⟩ := h
  cases p with
  | nil => exact absurd rfl hp
  | cons c p => rfl

theorem withSlash_eq {base : Str} (h : base ≠ []) : ∃ d, withSlash base = d ++ ['/'] ∧ names d = names base := by
  unfold withSlash
  by_cases hl : base.getLast? = some '/'
  · obtain ⟨d, rfl⟩ := List.getLast?_eq_some_iff.mp hl
    refine ⟨d, by simp, ?_⟩
    rw [names_append, names_nil, List.append_nil]
  · exact ⟨base, if_pos ⟨h, hl⟩, rfl⟩

/-- **A target's directory is the base, then names that lead down.** -/
theorem target_dir {base r : Str} (hv : validateRelativePath r = true) (hb : base ≠ []) :
    (∃ ds, names (parentPath (pathAppend base r)) = names base ++ ds ∧ ∀ d ∈ ds, d ≠ dot ∧ d ≠ dotDot) ∧
      parentPath (pathAppend base r) ≠ [] ∧ ∀ l, startAt l (parentPath (pathAppend base r)) = startAt l base := by
  have ht : pathAppend base r = withSlash base ++ r := pathAppend_eq (validateRelativePath_head hv)
  obtain ⟨d, hd, hnames⟩ := withSlash_eq hb
  have hmain : (∃ ds, names (parentPath (pathAppend base r)) = names base ++ ds ∧ ∀ d ∈ ds, d ≠ dot ∧ d ≠ dotDot) ∧
      parentPath (pathAppend base r) ≠ [] := by
    rw [ht, hd]
    by_cases hr : '/' ∈ r
    · obtain ⟨d', f, rfl, hf⟩ := rdropWhile_head hr
      have hassoc : d ++ ['/'] ++ (d' ++ '/' :: f) = (d ++ '/' :: d') ++ '/' :: f := by simp
      rw [hassoc]
      refine ⟨⟨names d', ?_, fun c hc => ?_⟩, parentPath_ne_nil hf⟩
      · rw [names_parentPath hf, names_append, hnames]
      · exact names_of_valid hv c (by rw [names_append]; exact List.mem_append_left _ hc)
    · have hassoc : d ++ ['/'] ++ r = d ++ '/' :: r := by simp
      rw [hassoc]
      refine ⟨⟨[], ?_, fun c hc => absurd hc List.not_mem_nil⟩, parentPath_ne_nil hr⟩
      rw [names_parentPath hr, hnames, List.append_nil]
  refine ⟨hmain.1, hmain.2, fun l => ?_⟩
  have hbase : base <+: pathAppend base r := by
    rw [ht]
    unfold withSlash
    split
    · rw [List.append_assoc]
      exact List.prefix_append _ _
    · exact List.prefix_append _ _
  unfold startAt
  rw [head?_prefix_eq (parentPath_le _) hmain.2, head?_prefix_eq hbase hb]

/-! ## Where paths lead -/

variable {fs fs' : Files} {may : Bool} {base r : Str}

theorem loc?_eq_some {o : Lib.Outcome} {l : Loc} : o.loc? = some l ↔ ∃ k, o = .found l k := by
  cases o with
  | found q k => exact ⟨fun h => ⟨k, by cases h; rfl⟩, fun ⟨_, h⟩ => by cases h; rfl⟩
  | missing | notDir | denied | loop => exact ⟨nofun, fun ⟨_, h⟩ => nomatch h⟩

theorem leadsTo_some {p : Str} {l : Loc} :
    leadsTo fs may p = some l ↔ p ≠ [] ∧ ∃ k, fs.walk may maxSymlinks (startAt fs.cwd p) (names p) = .found l k := by
  unfold leadsTo
  by_cases hp : p = []
  · rw [if_pos hp]
    exact ⟨nofun, fun h => absurd hp h.1⟩
  · rw [if_neg hp, loc?_eq_some]
    exact (and_iff_right hp).symm

/-- **What a path leads to in a tree that has grown, it led to before, the missing directories put in.** -/
theorem leadsTo_grows (h : Grows fs fs') {p : Str} {l : Loc} (hl : leadsTo fs' may p = some l) :
    leadsTo fs true p = some l := by
  rw [leadsTo_some] at hl ⊢
  obtain ⟨hp, k, hk⟩ := hl
  rw [h.cwd] at hk
  exact ⟨hp, k, walk_grows h hk⟩

/-- Where a target's directory leads anywhere, the base does. -/
theorem base_leads (hv : validateRelativePath r = true) (hb : base ≠ []) {l : Loc}
    (h : leadsTo fs may (parentPath (pathAppend base r)) = some l) : ∃ b, leadsTo fs may base = some b := by
  obtain ⟨⟨ds, hn, -⟩, -, hs⟩ := target_dir hv hb
  obtain ⟨-, k, hk⟩ := leadsTo_some.mp h
  rw [hn, hs] at hk
  obtain ⟨b, kb, hkb⟩ := walk_part hk
  exact ⟨b, leadsTo_some.mpr ⟨hb, kb, hkb⟩⟩

/-- **A path that leads nowhere but below, read so, leads nowhere else in any tree grown from this one.** -/
theorem Below.of_grows (h : Grows fs fs') (hv : validateRelativePath r = true) (hbelow : Below fs true base r) :
    Below fs' may base r := by
  intro l hl
  obtain ⟨b, hbase, hpre⟩ := hbelow l (leadsTo_grows h hl)
  obtain ⟨b', hb'⟩ := base_leads hv (leadsTo_some.mp hbase).1 hl
  obtain rfl : b' = b := Option.some.inj ((leadsTo_grows h hb').symm.trans hbase)
  exact ⟨b', hb', hpre⟩

/-! ## The check -/

theorem startAt_parentPath {p : Str} (h : parentPath p ≠ []) (l : Loc) : startAt l (parentPath p) = startAt l p := by
  unfold startAt
  rw [head?_prefix_eq (parentPath_le p) h]

/-- A path's names are its parent's, and at most one more. -/
theorem names_of_parentPath {p : Str} (h : parentPath p ≠ []) :
    names p = names (parentPath p) ∨ ∃ c, names p = names (parentPath p) ++ [c] := by
  by_cases hp : '/' ∈ p
  · obtain ⟨d, f, rfl, hf⟩ := rdropWhile_head hp
    rw [names_parentPath hf, names_append]
    by_cases hn : f = []
    · rw [hn, names_nil, List.append_nil]
      exact .inl rfl
    · rw [names_of_not_mem hf hn]
      exact .inr ⟨f, rfl⟩
  · exact absurd (parentPath_of_not_mem hp) h

/-- **What the walk up finds**: the deepest part of the path that resolves; the next name, if any, does not. -/
theorem canonicalAncestor_spec : ∀ {fuel : Nat} {p : Str} {q : Loc}, canonicalAncestor fs fuel p = some q → p ≠ [] →
    ∃ pre post k, names p = pre ++ post ∧ fs.walk false maxSymlinks (startAt fs.cwd p) pre = .found q k ∧
      ∀ c ∈ post.head?, ∀ l k, fs.walk false maxSymlinks (startAt fs.cwd p) (pre ++ [c]) ≠ .found l k
  | 0, _, _, h, _ => nomatch h
  | fuel + 1, p, q, h, hp => by
    unfold canonicalAncestor at h
    cases hc : canonical fs p with
    | some l =>
      rw [hc] at h
      obtain rfl := Option.some.inj h
      obtain ⟨-, k, hk⟩ := leadsTo_some.mp hc
      exact ⟨names p, [], k, (List.append_nil _).symm, hk, fun c hc => nomatch hc⟩
    | none =>
      rw [hc] at h
      dsimp only at h
      have hfail : ∀ l k, fs.walk false maxSymlinks (startAt fs.cwd p) (names p) ≠ .found l k := by
        intro l k hk
        have := leadsTo_some.mpr ⟨hp, k, hk⟩
        unfold canonical at hc
        rw [hc] at this
        cases this
      split at h
      · cases h
      · rename_i hup
        rw [not_or] at hup
        obtain ⟨pre, post, k, hn, hw, hnext⟩ := canonicalAncestor_spec h hup.1
        rw [startAt_parentPath hup.1] at hw hnext
        obtain hs | ⟨c, hs⟩ := names_of_parentPath hup.1
        · exact ⟨pre, post, k, hs.trans hn, hw, hnext⟩
        · refine ⟨pre, post ++ [c], k, by rw [hs, hn, List.append_assoc], hw, ?_⟩
          cases post with
          | cons x post => exact hnext
          | nil =>
            rw [List.append_nil] at hn
            intro c' hc'
            obtain rfl : c = c' := by simpa using hc'
            rw [← hn, ← hs]
            exact hfail

theorem parentPath_length {p : Str} (h : parentPath p ≠ p) : (parentPath p).length < p.length := by
  obtain ⟨t, ht⟩ := parentPath_le p
  have hlen := congrArg List.length ht
  cases t with
  | nil => exact absurd (by simpa using ht) h
  | cons c t =>
    simp at hlen
    omega

/-- **The walk up ends by itself.** -/
theorem canonicalAncestor_fuel : ∀ {n m : Nat} {p : Str}, p.length < n → p.length < m →
    canonicalAncestor fs n p = canonicalAncestor fs m p
  | n + 1, m + 1, p, hn, hm => by
    unfold canonicalAncestor
    cases canonical fs p with
    | some l => rfl
    | none =>
      dsimp only
      by_cases hup : parentPath p = [] ∨ parentPath p = p
      · rw [if_pos hup, if_pos hup]
      · rw [if_neg hup, if_neg hup]
        have := parentPath_length (not_or.mp hup).2
        exact canonicalAncestor_fuel (by omega) (by omega)

/-- **The comparison of strings compares places.** -/
theorem isInside_below {b l : Loc} (hb : ∀ x ∈ b, isName x = true) (hl : ∀ x ∈ l, isName x = true)
    (h : isInside (render b) (render l) = true) : b <+: l := by
  unfold isInside at h
  simp only [Bool.or_eq_true, Bool.and_eq_true, decide_eq_true_eq] at h
  obtain (h | h) | h := h
  · rw [← names_render hb, ← names_render hl, h]
  · rw [← names_render hb, h.1.1]
    exact List.nil_prefix
  · obtain ⟨⟨hlen, hpre⟩, hat⟩ := h
    obtain ⟨t, ht⟩ := List.isPrefixOf_iff_prefix.mp hpre
    rw [← ht, List.getElem?_append_right (Nat.le_refl _), Nat.sub_self] at hat
    obtain ⟨t, rfl⟩ : ∃ t', t = '/' :: t' := by
      cases t with
      | nil => cases hat
      | cons c t => exact ⟨t, by rw [Option.some.inj hat]⟩
    exact ⟨names t, by rw [← names_render hl, ← ht, names_append, names_render hb]⟩

theorem node_startAt (fs : Files) (p : Str) : fs.node (startAt fs.cwd p) ≠ none := by
  refine node_start (fun hn => ?_) p
  have := fs.home
  rw [hn] at this
  cases this

/-- Below a base that is there, the deepest part that resolves is the base or behind it. -/
theorem base_behind {start b : Loc} {kb : Nat} {bs ds pre post : List Name} (hn : bs ++ ds = pre ++ post)
    (hb : fs.walk may maxSymlinks start bs = .found b kb)
    (hnext : ∀ c ∈ post.head?, ∀ l k, fs.walk may maxSymlinks start (pre ++ [c]) ≠ .found l k) :
    ∃ es, ds = es ++ post := by
  obtain ⟨es, he⟩ | ⟨es, he⟩ :=
    List.prefix_or_prefix_of_prefix (List.prefix_append bs ds) (hn ▸ List.prefix_append pre post)
  · rw [← he, List.append_assoc] at hn
    exact ⟨es, List.append_cancel_left hn⟩
  · cases es with
    | nil =>
      rw [List.append_nil] at he
      subst he
      exact ⟨[], List.append_cancel_left hn⟩
    | cons c es =>
      rw [← he, List.append_assoc] at hn
      have hpost := List.append_cancel_left hn
      rw [← he, List.append_cons] at hb
      obtain ⟨l, k', hw⟩ := walk_part hb
      exact absurd hw (hnext c (by rw [← hpost]; rfl) l k')

/-- **What the check says where a chain stops at a name that is not there**: read on, it stays where it stopped. -/
theorem below_of_stops {start b q r : Loc} {k m : Nat} {pre post : List Name} (hbq : b <+: q)
    (hpre : fs.walk false maxSymlinks start pre = .found q k) (hpost : ∀ c ∈ post, c ≠ dot ∧ c ≠ dotDot)
    (hnext : ∀ c ∈ post.head?, ∀ l k, fs.walk false maxSymlinks start (pre ++ [c]) ≠ .found l k)
    (hlink : ∀ c ∈ post.head?, ∀ t, fs.node (q ++ [c]) ≠ some (.link t))
    (hr : fs.walk true maxSymlinks start (pre ++ post) = .found r m) : b <+: r := by
  rw [walk_append, walk_grows (.refl fs) hpre] at hr
  cases post with
  | nil =>
    have he : fs.walk true k q [] = .found r m := hr
    rw [walk_nil] at he
    cases he
    exact hbq
  | cons c post =>
    have hr : fs.walk true k q (c :: post) = .found r m := hr
    obtain ⟨h1, h2⟩ := hpost c List.mem_cons_self
    cases hl : fs.look true q c with
    | stop o => exact absurd (walk_stop hl ▸ hr) (look_stop_ne hl)
    | follow t => exact absurd (look_follow.mp hl).2.2.2 (hlink c rfl t)
    | enter l' =>
      obtain ⟨hp, he | he | ⟨-, -, rfl, hnl, -⟩⟩ := look_enter.mp hl
      · exact absurd he.1 h1
      · exact absurd he.1 h2
      · by_cases hn : fs.node (q ++ [c]) = none
        · rw [walk_enter hl, walk_absent hn fun hd => (hpost _ (List.mem_cons_of_mem _ hd)).2 rfl] at hr
          cases hr
          exact (hbq.trans (List.prefix_append _ _)).trans (List.prefix_append _ _)
        · have hlook : fs.look false q c = .enter (q ++ [c]) :=
            look_enter.mpr ⟨hp, .inr (.inr ⟨h1, h2, rfl, hnl, fun h => absurd h hn⟩)⟩
          refine absurd ?_ (hnext c rfl (q ++ [c]) k)
          rw [walk_append, hpre]
          exact (walk_enter hlook).trans (walk_nil _ _)

theorem valid_of_accepts (h : accepts fs base r = true) : validateRelativePath r = true := by
  unfold accepts at h
  rw [targetAccepted_eq, Bool.and_eq_true] at h
  exact h.1

/-- What the check compared, the base being there. -/
theorem ancestor_of_accepts (h : accepts fs base r = true) {b : Loc} (hb : canonical fs base = some b) :
    ∃ n q, canonicalAncestor fs n (parentPath (pathAppend base r)) = some q ∧ isInside (render b) (render q) = true := by
  unfold accepts validateTargetResolvesWithinBase at h
  rw [hb, Bool.and_eq_true] at h
  dsimp only at h
  cases hq : canonicalAncestor fs ((parentPath (pathAppend base r)).length + 1) (parentPath (pathAppend base r)) with
  | none => rw [hq] at h; cases h.2
  | some q => exact ⟨_, q, hq, by rw [hq] at h; exact h.2⟩

/-- **The check, for a base that is there**: unless the chain stops at a symlink, it stays inside the base, with the
directories missing on the way put in. -/
theorem below_of_accepts (h : accepts fs base r = true) {b : Loc} (hb : canonical fs base = some b)
    (hlink : ¬ StopsAtLink fs (parentPath (pathAppend base r))) : Below fs true base r := by
  intro l hl
  have hv := valid_of_accepts h
  obtain ⟨hbase, kb, hkb⟩ := leadsTo_some.mp hb
  obtain ⟨⟨ds, hnames, hds⟩, hne, hstart⟩ := target_dir hv hbase
  obtain ⟨n, q, hq, hin⟩ := ancestor_of_accepts h hb
  obtain ⟨pre, post, k, hpp, hpre, hnext⟩ := canonicalAncestor_spec hq hne
  obtain ⟨-, m, hm⟩ := leadsTo_some.mp hl
  have hbq : b <+: q := isInside_below (isName_of_node (node_of_walk (node_startAt fs base) hkb))
    (isName_of_node (node_of_walk (node_startAt fs _) hpre)) hin
  have hno : ∀ c ∈ post.head?, ∀ t, fs.node (q ++ [c]) ≠ some (.link t) := by
    intro c hc t ht
    cases post with
    | nil => cases hc
    | cons x post =>
      obtain rfl : x = c := Option.some.inj hc
      exact hlink ⟨pre, x, post, q, k, t, hpp, hpre, ht, hnext x rfl⟩
  have hpost : ∀ c ∈ post, c ≠ dot ∧ c ≠ dotDot := by
    intro c hc
    rw [hstart] at hnext
    obtain ⟨es, hes⟩ := base_behind (hnames.symm.trans hpp) hkb hnext
    exact hds c (hes ▸ List.mem_append_right _ hc)
  rw [hpp] at hm
  exact ⟨b, leadsTo_grows (.refl fs) hb, below_of_stops hbq hpre hpost hnext hno hm⟩

/-- **A base that is missing for one name**: it will be made, and all that is in it. -/
theorem below_of_missing (hv : validateRelativePath r = true) (hm : PlainlyMissing fs base) : Below fs true base r := by
  obtain ⟨pre, c, post, q, k, hn, hpre, hq, hc, hup⟩ := hm
  have hb : base ≠ [] := by
    rintro rfl
    rw [names_nil] at hn
    simp at hn
  obtain ⟨⟨ds, hnames, hds⟩, hne, hstart⟩ := target_dir hv hb
  intro l hl
  obtain ⟨-, m, hm⟩ := leadsTo_some.mp hl
  rw [List.mem_cons, not_or] at hup
  rw [hstart, hnames, hn, List.append_assoc, walk_append, walk_grows (.refl fs) hpre] at hm
  have hm : fs.walk true k q (c :: (post ++ ds)) = .found l m := hm
  cases hl : fs.look true q c with
  | stop o => exact absurd (walk_stop hl ▸ hm) (look_stop_ne hl)
  | follow t =>
    have := (look_follow.mp hl).2.2.2
    rw [hq] at this
    cases this
  | enter l' =>
    obtain ⟨-, he | he | ⟨-, -, rfl, -, -⟩⟩ := look_enter.mp hl
    · exact absurd he.1 hc
    · exact absurd he.1 (Ne.symm hup.1)
    · have hds' : dotDot ∉ post ++ ds := by
        rw [List.mem_append, not_or]
        exact ⟨hup.2, fun hd => (hds _ hd).2 rfl⟩
      have hbase : fs.walk true maxSymlinks (startAt fs.cwd base) (names base) =
          .found (q ++ [c] ++ post.filter (· ≠ dot)) k := by
        rw [hn, walk_append, walk_grows (.refl fs) hpre]
        exact (walk_enter hl).trans (walk_absent hq hup.2)
      rw [walk_enter hl, walk_absent hq hds', List.filter_append, ← List.append_assoc] at hm
      cases hm
      exact ⟨_, leadsTo_some.mpr ⟨hb, k, hbase⟩, List.prefix_append _ _⟩

/-- **What an accepted path keeps to, that is not misread.** -/
theorem below_of_checked (h : accepts fs base r = true) (hm : ¬ Misread fs base r) : Below fs true base r := by
  by_contra hbelow
  have hno := not_or.mp fun hs => hm ⟨hs, hbelow⟩
  cases hb : canonical fs base with
  | some b => exact hbelow (below_of_accepts h hb hno.1)
  | none =>
    have hplain : PlainlyMissing fs base := by
      by_contra hp
      exact hno.2 ⟨hb, hp⟩
    exact hbelow (below_of_missing (valid_of_accepts h) hplain)

/-! ## What the sync creates -/

theorem createDirectory_grows {refused : Loc → Bool} {start : Loc} {dir : List Name} {x : Name}
    (h : createDirectory fs refused start dir x = some fs') : GrowsDirs fs fs' := by
  unfold createDirectory at h
  split at h
  · cases h
  · split at h
    · cases h
      exact place_dir_grows _ _
    · cases h

theorem createDirectoriesFrom_grows (refused : Loc → Bool) (start : Loc) : ∀ (todo : List Name) (fs : Files)
    (done : List Name), GrowsDirs fs (createDirectoriesFrom refused start fs done todo)
  | [], fs, _ => .refl fs
  | x :: xs, fs, done => by
    unfold createDirectoriesFrom
    split
    · exact createDirectoriesFrom_grows refused start xs fs _
    · exact .refl fs
    · exact .refl fs
    · cases hc : createDirectory fs refused start done x with
      | none => exact .refl fs
      | some fs' => exact (createDirectory_grows hc).trans (createDirectoriesFrom_grows refused start xs fs' _)

theorem atomicWrite_grows (fs : Files) (target : Str) (w : Written) : Grows fs (atomicWrite fs target w) := by
  unfold atomicWrite
  split
  · exact place_file_grows _ _
  · exact place_file_grows _ _
  · exact .refl fs

/-- **What holds while a sync runs**: every accepted path keeps to the base, whatever else is made. -/
theorem below_of_reaches {s : Writing} (h : Reaches base (fun fs r => ¬ Misread fs base r) s) :
    ∀ r ∈ s.accepted, validateRelativePath r = true ∧ Below s.files true base r := by
  induction h with
  | start fs => exact fun r hr => absurd hr List.not_mem_nil
  | check h hacc hok ih =>
    intro r' hr'
    obtain rfl | hr' := List.mem_cons.mp hr'
    · exact ⟨valid_of_accepts hacc, below_of_checked hacc hok⟩
    · exact ih r' hr'
  | create h hr refused ih =>
    intro r' hr'
    obtain ⟨hv, hb⟩ := ih r' hr'
    exact ⟨hv, hb.of_grows (createDirectoriesFrom_grows _ _ _ _ _).grows hv⟩
  | write h hr w ih =>
    intro r' hr'
    obtain ⟨hv, hb⟩ := ih r' hr'
    exact ⟨hv, hb.of_grows (atomicWrite_grows _ _ w) hv⟩

/-- **At the moment of a check it is right about every directory that is there.** -/
theorem contained_of_accepts (hb : base ≠ []) (h : accepts fs base r = true) : Contained fs base r := by
  intro l hl
  have hv := valid_of_accepts h
  obtain ⟨b, hbase⟩ := base_leads hv hb hl
  obtain ⟨n, q, hq, hin⟩ := ancestor_of_accepts h hbase
  refine ⟨b, hbase, ?_⟩
  obtain rfl : l = q := by
    cases n with
    | zero => cases hq
    | succ n =>
      have hl : canonical fs (parentPath (pathAppend base r)) = some l := hl
      unfold canonicalAncestor at hq
      rw [hl] at hq
      exact Option.some.inj hq
  obtain ⟨-, k, hk⟩ := leadsTo_some.mp hl
  obtain ⟨-, kb, hkb⟩ := leadsTo_some.mp hbase
  exact isInside_below (isName_of_node (node_of_walk (node_startAt fs base) hkb))
    (isName_of_node (node_of_walk (node_startAt fs _) hk)) hin

/-! ## A symlink that cannot be resolved yet -/

/-- A destination `/b` with a link to `m/../../out`, and the directory `/out`. -/
def linked : Files :=
  ((bare.place [] ['b'] (.dir true)).place [['b']] ['z'] (.link "m/../../out".toList)).place [] "out".toList (.dir true)

/-- The tree after the directory of `m/g` was made. -/
def linkedThrough : Files := createDirectories (fun _ => false) linked (parentPath (pathAppend "/b".toList "m/g".toList))

/-- The tree after the directory of `z/sub/f` was made, too. -/
def linkedOut : Files :=
  createDirectories (fun _ => false) linkedThrough (parentPath (pathAppend "/b".toList "z/sub/f".toList))

/-- What was checked while the link led nowhere. -/
theorem linked_accepts : accepts linked "/b".toList "z/sub/f".toList = true ∧ accepts linked "/b".toList "m/g".toList = true := by
  decide +kernel

end Mito
