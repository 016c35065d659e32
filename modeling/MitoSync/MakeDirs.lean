import MitoSync.SyncCommand
/-!
# MakeDirs — the directories a path needs

`fs::create_directories` and `mkdirRecursive` make the directories of a path one after the other, each in the tree the
ones before left.  Which they make is told here of the tree before any was made: a name is made a directory where it is
missing and its stretch of the path can be made (`CanMake`, `Makes`).  The two functions come to the same tree
(`createDirectoriesFrom_eq`); it has the directories `Makes` says, and the path leads somewhere in it exactly where it
can be made (`mkdirRecursive_node`, `mkdirRecursive_resolves`).
-/
namespace Mito

open Lib Files

/-- A path leads somewhere. -/
def Resolves (fs : Files) (start : Loc) (cs : List Name) : Prop :=
  ∃ l k, fs.walk false maxSymlinks start cs = .found l k

/-- Where the names of a path would stand: each in the directory the way to it leads to, what is missing on the way read
as empty directories. -/
def partsOf (fs : Files) (start : Loc) (cs : List Name) : Set Loc :=
  { l | ∃ q x m k, q ++ [x] <+: cs ∧ fs.walk true maxSymlinks start q = .found m k ∧ l = m ++ [x] }

/-- **A path can be made**: each stretch of it leads somewhere in a tree that has more directories, but only those of
`also`, which are made before, and such as stand at the stretch's own names and may be made there. -/
def CanMake (refused : Loc → Bool) (fs : Files) (also : Set Loc) (start : Loc) (cs : List Name) : Prop :=
  ∀ q, q <+: cs → ∃ fs', GrowsDirs fs fs' ∧
    (∀ l, fs.node l = none → fs'.node l ≠ none → l ∈ also ∨ refused l = false ∧ l ∈ partsOf fs start q) ∧
    Resolves fs' start q

/-- The directories that are missing for a path, as far as it can be made. -/
def Makes (refused : Loc → Bool) (fs : Files) (also : Set Loc) (start : Loc) (cs : List Name) : Set Loc :=
  { l | fs.node l = none ∧ ∃ q x m k, q ++ [x] <+: cs ∧ fs.walk true maxSymlinks start q = .found m k ∧
    l = m ++ [x] ∧ isName x = true ∧ CanMake refused fs also start (q ++ [x]) }

/-! ## Stretches of a path -/

section

variable {refused : Loc → Bool} {fs fs' g g' : Files} {also : Set Loc} {start : Loc} {q cs : List Name} {x : Name}

theorem Resolves.part {b : List Name} (h : Resolves fs start (q ++ b)) : Resolves fs start q := by
  obtain ⟨l, k, h⟩ := h
  exact walk_part h

theorem partsOf_append {l : Loc} (h : l ∈ partsOf fs start q) (b : List Name) : l ∈ partsOf fs start (q ++ b) := by
  obtain ⟨p, y, m, k, hp, hw, hl⟩ := h
  exact ⟨p, y, m, k, hp.trans (List.prefix_append q b), hw, hl⟩

theorem CanMake.part (h : CanMake refused fs also start cs) (hq : q <+: cs) : CanMake refused fs also start q :=
  fun p hp => h p (hp.trans hq)

theorem isName_ne (h : isName x = true) : x ≠ dot ∧ x ≠ dotDot := by
  simp only [isName, Bool.and_eq_true, decide_eq_true_eq] at h
  exact ⟨h.1.1.2, h.1.2⟩

/-- A name the way goes through stands there. -/
theorem node_of_step {m r : Loc} {k j : Nat} (hx : isName x = true) (h : fs.walk false k m [x] = .found r j) :
    fs.Passes m ∧ fs.node (m ++ [x]) ≠ none := by
  obtain ⟨hdot, hdots⟩ := isName_ne hx
  cases follows_of_walk h with
  | enter he _ =>
    obtain ⟨hp, ⟨hd, -⟩ | ⟨hd, -⟩ | ⟨-, -, -, -, hn⟩⟩ := look_enter.1 he
    · exact absurd hd hdot
    · exact absurd hd hdots
    · exact ⟨hp, fun hnone => Bool.false_ne_true (hn hnone)⟩
  | follow hf _ =>
    obtain ⟨hp, -, -, hlink⟩ := look_follow.1 hf
    exact ⟨hp, by rw [hlink]; exact nofun⟩

/-- The last step of a way, taken where the way before it leads. -/
theorem walk_last {m r : Loc} {k j : Nat} (hq : fs.walk false maxSymlinks start q = .found m k)
    (h : fs.walk false maxSymlinks start (q ++ [x]) = .found r j) : fs.walk false k m [x] = .found r j := by
  rw [walk_append, hq] at h
  exact h

/-- **Where a tree that has grown leads on, the names on the way stand.** -/
theorem node_of_part (hg : GrowsDirs fs g) (hr : Resolves g start cs) {m : Loc} {k : Nat} (hp : q ++ [x] <+: cs)
    (hw : fs.walk true maxSymlinks start q = .found m k) (hx : isName x = true) : g.node (m ++ [x]) ≠ none := by
  obtain ⟨t, rfl⟩ := hp
  obtain ⟨r, j, hlast⟩ := hr.part
  obtain ⟨m', k', hfirst⟩ := walk_part hlast
  have heq := (walk_grows hg.grows hfirst).symm.trans hw
  obtain ⟨rfl, rfl⟩ : m' = m ∧ k' = k := by simpa using heq
  exact (node_of_step hx (walk_last hfirst hlast)).2

/-- Of two trees grown from one, one has grown from the other where it has all its directories. -/
theorem growsDirs_of_new (h : GrowsDirs fs fs') (hg : GrowsDirs fs g)
    (hin : ∀ l, fs.node l = none → fs'.node l ≠ none → g.node l ≠ none) : GrowsDirs fs' g := by
  refine ⟨hg.1.trans h.1.symm, fun l => ?_⟩
  rcases h.2 l with heq | ⟨hnone, hdir⟩
  · rcases hg.2 l with hsame | ⟨hnone, hdir⟩
    · exact .inl (hsame.trans heq.symm)
    · exact .inr ⟨heq.trans hnone, hdir⟩
  · have hthere := hin l hnone (by rw [hdir]; exact nofun)
    rcases hg.2 l with hsame | ⟨-, hmade⟩
    · exact absurd (hsame.trans hnone) hthere
    · exact .inl (hmade.trans hdir.symm)

theorem node_of_grows (h : GrowsDirs fs g) {l : Loc} (hl : fs.node l ≠ none) : g.node l = fs.node l :=
  (h.2 l).resolve_right fun hnew => hl hnew.1

/-! ## One directory -/

theorem createDirectory_some_iff : createDirectory fs refused start q x = some g ↔
    ∃ m k, fs.walk false maxSymlinks start q = .found m k ∧ fs.node m = some (.dir true) ∧ isName x = true ∧
      fs.node (m ++ [x]) = none ∧ refused (m ++ [x]) = false ∧ g = fs.place m x (.dir true) := by
  unfold createDirectory
  cases hw : fs.walk false maxSymlinks start q with
  | found m k =>
    simp only [Lib.Outcome.loc?, Option.ite_none_right_eq_some, Option.some.injEq]
    constructor
    · rintro ⟨⟨hd, hx, hn, hr⟩, rfl⟩
      exact ⟨m, k, rfl, hd, hx, hn, hr, rfl⟩
    · rintro ⟨m', k', hf, hd, hx, hn, hr, rfl⟩
      obtain ⟨rfl, rfl⟩ : m = m' ∧ k = k' := by simpa using hf
      exact ⟨⟨hd, hx, hn, hr⟩, rfl⟩
  | missing | notDir | denied | loop => simp [Lib.Outcome.loc?]

/-- What was made for the stretches up to `q`: the directories of `also`, and some at the names of `q`, which leads
somewhere now. -/
structure MadeSoFar (refused : Loc → Bool) (fs : Files) (also : Set Loc) (start : Loc) (q : List Name) (g : Files) :
    Prop where
  grows : GrowsDirs fs g
  new : ∀ l, fs.node l = none → g.node l ≠ none → l ∈ also ∨ refused l = false ∧ l ∈ partsOf fs start q
  before : ∀ l ∈ also, g.node l ≠ none
  resolves : Resolves g start q

/-- A stretch that leads somewhere needs no directory. -/
theorem MadeSoFar.goOn (h : MadeSoFar refused fs also start q g) (hr : Resolves g start (q ++ [x])) :
    MadeSoFar refused fs also start (q ++ [x]) g where
  grows := h.grows
  new l hl hg := (h.new l hl hg).imp_right (And.imp_right (partsOf_append · [x]))
  before := h.before
  resolves := hr

/-- **One directory more.** -/
theorem MadeSoFar.make (h : MadeSoFar refused fs also start q g) (hs : fs.node start ≠ none)
    (hc : createDirectory g refused start q x = some g') : MadeSoFar refused fs also start (q ++ [x]) g' := by
  have hgrows := createDirectory_grows hc
  obtain ⟨m, k, hw, hd, hx, hn, hr, rfl⟩ := createDirectory_some_iff.1 hc
  have hnode := place_at (.dir true) ⟨hd, hx, hn⟩
  have hstart : g.node start ≠ none := by
    rw [node_of_grows h.grows hs]
    exact hs
  refine ⟨h.grows.trans hgrows, fun l hl hg => ?_, fun l hl => ?_, ?_⟩
  · by_cases hlast : l = m ++ [x]
    · exact .inr ⟨hlast ▸ hr, q, x, m, k, List.prefix_refl _, walk_grows h.grows.grows hw, hlast⟩
    · rw [hnode, if_neg hlast] at hg
      exact (h.new l hl hg).imp_right (And.imp_right (partsOf_append · [x]))
  · rw [node_of_grows hgrows (h.before l hl)]
    exact h.before l hl
  · have hstep : (g.place m x (.dir true)).look false m x = .enter (m ++ [x]) := by
      obtain ⟨hdot, hdots⟩ := isName_ne hx
      refine look_enter.2 ⟨.inl ?_, .inr (.inr ⟨hdot, hdots, rfl, fun t => ?_, fun hnone => ?_⟩)⟩
      · rw [hnode, if_neg (by simp)]
        exact hd
      · rw [hnode, if_pos rfl]
        exact nofun
      · rw [hnode, if_pos rfl] at hnone
        exact nomatch hnone
    refine ⟨m ++ [x], k, ?_⟩
    rw [walk_append, walk_stays hgrows.grows hstart hw]
    show (g.place m x (.dir true)).walk false k m [x] = _
    rw [walk_enter hstep, walk_nil]

/-- **A stretch that can be made and leads nowhere yet is one directory short.** -/
theorem MadeSoFar.short (h : MadeSoFar refused fs also start q g) (hs : fs.node start ≠ none)
    (hcan : CanMake refused fs also start (q ++ [x])) (hr : ¬ Resolves g start (q ++ [x])) :
    ∃ g', createDirectory g refused start q x = some g' := by
  obtain ⟨fs', hgrows, hnew, r, j, hwhole⟩ := hcan _ (List.prefix_refl _)
  have hstart : fs'.node start ≠ none := by
    rw [node_of_grows hgrows hs]
    exact hs
  obtain ⟨m, k, hw⟩ := h.resolves
  have hplace := walk_grows h.grows.grows hw
  -- what that tree has and this one has not is the one directory
  obtain ⟨l, hl, hthere, hmissing⟩ : ∃ l, fs.node l = none ∧ fs'.node l ≠ none ∧ g.node l = none := by
    by_contra hall
    refine hr ⟨r, j, walk_stays (growsDirs_of_new hgrows h.grows fun l hl hthere hmissing => ?_).grows hstart hwhole⟩
    exact hall ⟨l, hl, hthere, hmissing⟩
  rcases hnew l hl hthere with halso | ⟨hfree, p, y, m', k', hp, hw', rfl⟩
  · exact absurd hmissing (h.before l halso)
  have hy : isName y = true := (fs'.within m' y hthere).2
  rcases List.prefix_concat_iff.1 hp with heq | hbefore
  · obtain ⟨rfl, hyx⟩ := List.append_inj' heq rfl
    obtain rfl : y = x := by simpa using hyx
    obtain ⟨rfl, rfl⟩ : m' = m ∧ k' = k := by simpa using hw'.symm.trans hplace
    obtain ⟨m'', k'', hfirst⟩ := walk_part hwhole
    obtain ⟨rfl, rfl⟩ : m'' = m' ∧ k'' = k' := by simpa using (walk_grows hgrows.grows hfirst).symm.trans hw'
    have hdir : fs'.node m'' = some (.dir true) := by
      refine (node_of_step hy (walk_last hfirst hwhole)).1.resolve_right fun hnone => ?_
      have hin := (fs'.within m'' y hthere).1
      rw [hnone] at hin
      cases hin
    have hnode : g.node m'' = some (.dir true) := by
      have hg : g.node m'' ≠ none := by
        refine node_of_walk ?_ hw
        rw [node_of_grows h.grows hs]
        exact hs
      rcases h.grows.2 m'' with hsame | ⟨-, hmade⟩
      · rw [hsame] at hg ⊢
        rw [← node_of_grows hgrows hg]
        exact hdir
      · exact hmade
    exact ⟨_, createDirectory_some_iff.2 ⟨m'', k'', hw, hnode, hy, hmissing, hfree, rfl⟩⟩
  · exact absurd hmissing (node_of_part h.grows h.resolves hbefore hw' hy)

theorem CanMake.snoc (h : CanMake refused fs also start q) (hg : MadeSoFar refused fs also start (q ++ [x]) g) :
    CanMake refused fs also start (q ++ [x]) := by
  intro p hp
  rcases List.prefix_concat_iff.1 hp with rfl | hp
  · exact ⟨g, hg.grows, hg.new, hg.resolves⟩
  · exact h p hp

/-! ## The directories of a path -/

/-- Behind a stretch that leads nowhere nothing is made. -/
theorem mkdirRecursive_stuck : ∀ (todo q : List Name), ¬ Resolves g start q → mkdirRecursive refused start g q todo = g
  | [], _, _ => rfl
  | x :: todo, q, h => by
    have hnone : createDirectory g refused start q x = none := by
      refine Option.eq_none_iff_forall_ne_some.2 fun g' hc => ?_
      obtain ⟨m, k, hw, -⟩ := createDirectory_some_iff.1 hc
      exact h ⟨m, k, hw⟩
    rw [mkdirRecursive, hnone]
    exact mkdirRecursive_stuck todo (q ++ [x]) fun hr => h hr.part

/-- What is there is not made. -/
theorem createDirectory_none (h : Resolves g start (q ++ [x])) : createDirectory g refused start q x = none := by
  refine Option.eq_none_iff_forall_ne_some.2 fun g' hc => ?_
  obtain ⟨m, k, hw, -, hx, hn, -⟩ := createDirectory_some_iff.1 hc
  obtain ⟨r, j, hlast⟩ := h
  exact (node_of_step hx (walk_last hw hlast)).2 hn

/-- What is made was missing. -/
theorem walk_of_createDirectory (h : createDirectory g refused start q x = some g') :
    g.walk false maxSymlinks start (q ++ [x]) = .missing := by
  obtain ⟨m, k, hw, hd, hx, hn, -⟩ := createDirectory_some_iff.1 h
  obtain ⟨hdot, hdots⟩ := isName_ne hx
  have hstop : g.look false m x = .stop .missing := by
    rw [look_passes (.inl hd), lookIn, if_neg hdot, if_neg hdots, hn]
    rfl
  rw [walk_append, hw]
  exact walk_stop hstop

/-- **`create_directories` and `mkdirRecursive` come to the same tree.** -/
theorem createDirectoriesFrom_eq (refused : Loc → Bool) (start : Loc) : ∀ (todo : List Name) (g : Files)
    (q : List Name), createDirectoriesFrom refused start g q todo = mkdirRecursive refused start g q todo
  | [], _, _ => rfl
  | x :: todo, g, q => by
    have hnowhere : (∀ l k, g.walk false maxSymlinks start (q ++ [x]) ≠ .found l k) →
        createDirectory g refused start q x = none → g = mkdirRecursive refused start g q (x :: todo) := by
      intro hne hnone
      rw [mkdirRecursive, hnone]
      refine (mkdirRecursive_stuck todo _ ?_).symm
      rintro ⟨l, k, hf⟩
      exact hne l k hf
    have hblocked : g.walk false maxSymlinks start (q ++ [x]) ≠ .missing →
        createDirectory g refused start q x = none := by
      intro hne
      by_contra hsome
      obtain ⟨g', hc⟩ := Option.ne_none_iff_exists'.1 hsome
      exact hne (walk_of_createDirectory hc)
    rw [createDirectoriesFrom.eq_2]
    split
    · rename_i l k hf
      rw [createDirectoriesFrom_eq refused start todo, mkdirRecursive, createDirectory_none ⟨l, k, hf⟩]
      rfl
    · rename_i ho
      exact hnowhere (by simp [ho]) (hblocked (by simp [ho]))
    · rename_i ho
      exact hnowhere (by simp [ho]) (hblocked (by simp [ho]))
    · rename_i hfound hdenied hloop
      cases hc : createDirectory g refused start q x with
      | some g' =>
        rw [mkdirRecursive, hc]
        exact createDirectoriesFrom_eq refused start todo g' _
      | none => exact hnowhere hfound hc

/-- **How far a path is made**: to the end of the stretch behind which it cannot be. -/
theorem mkdirRecursive_made (hs : fs.node start ≠ none) : ∀ (todo : List Name) (q : List Name) (g : Files),
    MadeSoFar refused fs also start q g → CanMake refused fs also start q →
    ∃ t rest, todo = t ++ rest ∧ MadeSoFar refused fs also start (q ++ t) (mkdirRecursive refused start g q todo) ∧
      CanMake refused fs also start (q ++ t) ∧ ∀ x ∈ rest.head?, ¬ CanMake refused fs also start (q ++ t ++ [x])
  | [], q, g, hg, hcan => ⟨[], [], rfl, by simpa [mkdirRecursive] using hg, by simpa using hcan, by simp⟩
  | x :: todo, q, g, hg, hcan => by
    have honward : ∀ g', MadeSoFar refused fs also start (q ++ [x]) g' →
        ∃ t rest, x :: todo = t ++ rest ∧
          MadeSoFar refused fs also start (q ++ t) (mkdirRecursive refused start g' (q ++ [x]) todo) ∧
          CanMake refused fs also start (q ++ t) ∧
          ∀ x ∈ rest.head?, ¬ CanMake refused fs also start (q ++ t ++ [x]) := by
      intro g' hg'
      obtain ⟨t, rest, rfl, hmade, hcan', hno⟩ := mkdirRecursive_made hs todo _ g' hg' (hcan.snoc hg')
      have happ : q ++ [x] ++ t = q ++ x :: t := by simp
      rw [happ] at hmade hcan' hno
      exact ⟨x :: t, rest, rfl, hmade, hcan', hno⟩
    rw [mkdirRecursive]
    cases hc : createDirectory g refused start q x with
    | some g' => exact honward g' (hg.make hs hc)
    | none =>
      by_cases hr : Resolves g start (q ++ [x])
      · exact honward g (hg.goOn hr)
      · refine ⟨[], x :: todo, rfl, ?_, by simpa using hcan, ?_⟩
        · rw [List.append_nil, Option.getD_none, mkdirRecursive_stuck todo _ hr]
          exact hg
        · rintro y ⟨⟩ hmore
          rw [List.append_nil] at hmore
          obtain ⟨g', hg'⟩ := hg.short hs hmore hr
          rw [hc] at hg'
          exact nomatch hg'

theorem canMake_nil : CanMake refused fs also start [] := by
  intro q hq
  obtain rfl := List.prefix_nil.1 hq
  exact ⟨fs, .refl fs, fun l hl hn => absurd hl hn, start, maxSymlinks, walk_nil _ _⟩

/-- A path that leads somewhere can be made as it is. -/
theorem Resolves.canMake (h : Resolves fs start cs) : CanMake refused fs also start cs := by
  rintro q ⟨t, rfl⟩
  exact ⟨fs, .refl fs, fun l hl hn => absurd hl hn, h.part⟩

/-- Nothing is missing for it. -/
theorem Resolves.makes (h : Resolves fs start cs) : Makes refused fs also start cs = ∅ := by
  refine Set.eq_empty_iff_forall_notMem.2 ?_
  rintro l ⟨hl, q, x, m, k, hq, hw, rfl, hx, -⟩
  exact node_of_part (.refl fs) h hq hw hx hl

/-- What is there before anything is made for the path. -/
theorem madeSoFar_nil (hg : GrowsDirs fs g) (hnew : ∀ l, fs.node l = none → (g.node l ≠ none ↔ l ∈ also))
    (halso : ∀ l ∈ also, fs.node l = none) : MadeSoFar refused fs also start [] g where
  grows := hg
  new l hl hn := .inl ((hnew l hl).1 hn)
  before l hl := (hnew l (halso l hl)).2 hl
  resolves := ⟨start, maxSymlinks, walk_nil _ _⟩

/-- **The tree that comes of it has the directories that were missing**, and no other new ones. -/
theorem mkdirRecursive_node (hs : fs.node start ≠ none) (hg : MadeSoFar refused fs also start [] g) {l : Loc}
    (hl : fs.node l = none) : (mkdirRecursive refused start g [] cs).node l ≠ none ↔
      l ∈ also ∨ l ∈ Makes refused fs also start cs := by
  obtain ⟨t, rest, hcs, hmade, hcan, hno⟩ := mkdirRecursive_made hs cs [] g hg canMake_nil
  rw [List.nil_append] at hmade hcan hno
  constructor
  · intro hn
    rcases hmade.new l hl hn with halso | ⟨-, q, x, m, k, hq, hw, rfl⟩
    · exact .inl halso
    · have hx : isName x = true := ((mkdirRecursive refused start g [] cs).within m x hn).2
      exact .inr ⟨hl, q, x, m, k, hq.trans (hcs ▸ List.prefix_append t rest), hw, rfl, hx, hcan.part hq⟩
  · rintro (halso | ⟨-, q, x, m, k, hq, hw, rfl, hx, hcanq⟩)
    · exact hmade.before l halso
    · rw [hcs] at hq
      rcases List.prefix_or_prefix_of_prefix hq (List.prefix_append t rest) with hin | ⟨b, hb⟩
      · exact node_of_part hmade.grows hmade.resolves hin hw hx
      · cases b with
        | nil =>
          rw [List.append_nil] at hb
          exact node_of_part hmade.grows hmade.resolves (hb ▸ List.prefix_refl _) hw hx
        | cons y b =>
          -- the stretch behind it could be made no further
          rw [← hb, List.prefix_append_right_inj] at hq
          obtain ⟨c, rfl⟩ := hq
          have hpart : t ++ [y] <+: q ++ [x] := hb ▸ ⟨b, by simp⟩
          exact absurd (hcanq.part hpart) (hno y rfl)

/-- **It leads somewhere in that tree exactly where it can be made.** -/
theorem mkdirRecursive_resolves (cs : List Str) (hs : fs.node start ≠ none) (hg : MadeSoFar refused fs also start [] g) :
    Resolves (mkdirRecursive refused start g [] cs) start cs ↔ CanMake refused fs also start cs := by
  obtain ⟨t, rest, hcs, hmade, hcan, hno⟩ := mkdirRecursive_made hs cs [] g hg canMake_nil
  rw [List.nil_append] at hmade hcan hno
  cases rest with
  | nil =>
    rw [List.append_nil] at hcs
    exact iff_of_true (hcs ▸ hmade.resolves) (hcs ▸ hcan)
  | cons x rest =>
    have hpart : t ++ [x] <+: cs := ⟨rest, by simp [hcs]⟩
    refine iff_of_false (fun hr => ?_) fun hall => hno x rfl (hall.part hpart)
    obtain ⟨b, hb⟩ := hpart
    rw [← hb] at hr
    refine hno x rfl (hcan.snoc (hmade.goOn ?_))
    rw [← hb]
    exact hr.part

end

end Mito
