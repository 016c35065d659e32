import MitoSync.S3Listing
import MitoSync.Lib.Ending
/-!
# Listings — the three enumerators of a bucket

`parallel_enumerate_s3_prefix`, its streaming twin, which hands over each level's entries, and `enumerate_s3_prefix`,
which reads one flat listing or one level.  Where S3 answers every request as it documents, each of them comes to an
end and returns the same entries, each once (`listings_agree`).  The search by levels ends because a common prefix is
longer than the prefix it was listed under and holds a key.
-/
namespace Mito

open Lib Relation

/-! ## What S3 promises of a prefix -/

/-- Every common prefix of the pages holds a key. -/
def Pages.Held {B : Bucket} {N : Str} (r : Pages B N) : Prop := ∀ c ∈ r.prefixes, ∃ k, B k ≠ none ∧ c <+: k

/-- The search by levels over answers that list only prefixes that hold keys. -/
def truthfulWalker (m : Bool) (B : Bucket) (N : Str) : Walker Str (Pages B N) DirectoryEntry Bool :=
  { s3Walker m B N with opens := fun d s r s' => OpensPrefix B N d s r s' ∧ ∀ x ∈ r, x.Held }

/-- A bucket of finitely many keys. -/
def Bucket.Finite (B : Bucket) : Prop := { k | B k ≠ none }.Finite

/-- **What a listing should return**: the listed paths under the prefix, each once, with their objects' sizes and
times. -/
structure Bucket.Lists (m : Bool) (B : Bucket) (prefix_ : Str) (es : List DirectoryEntry) : Prop where
  nodup : (es.map DirectoryEntry.relativePath).Nodup
  mem : ∀ e, e ∈ es ↔ isListed m e.relativePath ∧ B (makeS3Key prefix_ e.relativePath) = some ⟨e.size, e.mtime⟩

/-! ## A listing for every prefix -/

theorem slash_split {q : Str} (h : '/' ∈ q) : q.takeWhile (· ≠ '/') ++ ['/'] <+: q := by
  induction q with
  | nil => exact absurd h List.not_mem_nil
  | cons c q ih =>
    by_cases hc : c = '/'
    · subst hc
      exact ⟨q, rfl⟩
    · rw [List.takeWhile_cons_of_pos (by simpa using hc), List.cons_append]
      exact (List.cons_prefix_cons).2 ⟨rfl, ih ((List.mem_cons.1 h).resolve_left (Ne.symm hc))⟩

theorem slash_notMem_takeWhile (q : Str) : '/' ∉ q.takeWhile (· ≠ '/') := by
  intro h
  have hall := List.all_eq_true.1 (List.all_takeWhile (l := q) (p := fun c => decide (c ≠ '/'))) _ h
  simp at hall

/-- **S3 can answer for every prefix**, on one page. -/
theorem exists_pages {B : Bucket} (hB : B.Finite) {N d : Str} (hN : N <+: d) (hc : d = N ∨ d.getLast? = some '/') :
    ∃ r : Pages B N, r.currentPrefix = d ∧ r.Covers ∧ r.Held := by
  have hB' : { k | B k ≠ none }.Finite := hB
  let ks := hB'.toFinset.toList
  have hks : ∀ k, k ∈ ks ↔ B k ≠ none := by
    intro k
    rw [Finset.mem_toList, Set.Finite.mem_toFinset, Set.mem_ofPred_eq]
  have hget : ∀ k, B k ≠ none → B k = some ((B k).getD {}) := by
    intro k hk
    obtain ⟨i, hi⟩ := Option.ne_none_iff_exists'.1 hk
    rw [hi, Option.getD_some]
  let below := ks.filter (fun k => decide (d <+: k ∧ '/' ∉ k.drop d.length))
  let deeper := ks.filter (fun k => decide (d <+: k ∧ '/' ∈ k.drop d.length))
  let objects := below.map (fun k => (k, (B k).getD {}))
  let prefixes := (deeper.map (fun k => d ++ (k.drop d.length).takeWhile (· ≠ '/') ++ ['/'])).dedup
  have hkeys : objects.map Prod.fst = below := by
    rw [List.map_map]
    exact List.map_id _
  have hprefixes : ∀ c, c ∈ prefixes ↔ ∃ k ∈ deeper, d ++ (k.drop d.length).takeWhile (· ≠ '/') ++ ['/'] = c := by
    intro c
    rw [List.mem_dedup, List.mem_map]
  have hlisted : Listed B d (objects ++ []) (prefixes ++ []) := by
    rw [List.append_nil, List.append_nil]
    refine ⟨?_, ?_, List.nodup_dedup _, ?_⟩
    · rw [hkeys]
      exact (Finset.nodup_toList _).filter _
    · intro o ho
      obtain ⟨k, hk, rfl⟩ := List.mem_map.1 ho
      obtain ⟨hk, hshow⟩ := List.mem_filter.1 hk
      obtain ⟨⟨q, rfl⟩, hq⟩ := of_decide_eq_true hshow
      rw [List.drop_left] at hq
      exact ⟨hget _ ((hks _).1 hk), q, hq, rfl⟩
    · intro c hc
      obtain ⟨k, -, rfl⟩ := (hprefixes c).1 hc
      exact ⟨_, slash_notMem_takeWhile _, rfl⟩
  have hunder : ∀ k ∈ deeper, d ++ (k.drop d.length).takeWhile (· ≠ '/') ++ ['/'] <+: k := by
    intro k hk
    obtain ⟨⟨q, rfl⟩, hq⟩ := of_decide_eq_true (List.mem_filter.1 hk).2
    rw [List.drop_left] at hq ⊢
    rw [List.append_assoc]
    exact List.prefix_append_right_inj d |>.2 (slash_split hq)
  let r : Pages B N := ⟨d, ⟨objects, prefixes⟩, [], hN, hc, hlisted⟩
  have hobjects : r.objects = objects := List.append_nil _
  have hlast : r.prefixes = prefixes := List.append_nil _
  refine ⟨r, rfl, ?_, ?_⟩
  · intro k hk hd
    rw [hobjects, hlast, hkeys]
    have hmem := (hks k).2 hk
    by_cases hs : '/' ∈ k.drop d.length
    · have hdeep : k ∈ deeper := List.mem_filter.2 ⟨hmem, decide_eq_true ⟨hd, hs⟩⟩
      exact .inr ⟨_, (hprefixes _).2 ⟨k, hdeep, rfl⟩, hunder k hdeep⟩
    · have hbelow : k ∈ below := List.mem_filter.2 ⟨hmem, decide_eq_true ⟨hd, hs⟩⟩
      exact .inl hbelow
  · intro c hc
    rw [hlast] at hc
    obtain ⟨k, hk, rfl⟩ := (hprefixes c).1 hc
    exact ⟨k, (hks k).1 (List.mem_filter.1 hk).1, hunder k hk⟩

/-! ## The search by levels -/

section Levels

variable {m : Bool} {B : Bucket} {N : Str}

theorem Bucket.Finite.exists_bound (hB : B.Finite) : ∃ M, ∀ k, B k ≠ none → k.length ≤ M := by
  have hB' : { k | B k ≠ none }.Finite := hB
  obtain ⟨M, hM⟩ := (hB'.image List.length).bddAbove
  exact ⟨M, fun k hk => hM ⟨k, hk, rfl⟩⟩

/-- A prefix of `N`'s, as the search asks for them. -/
def Closed (N p : Str) : Prop := N <+: p ∧ (p = N ∨ p.getLast? = some '/')

/-- How far a prefix is from the longest key, a prefix to open above its pages, and what is left of the pages. -/
def prefixRank (M : Nat) : Str ⊕ Pages B N → ℕ × ℕ
  | .inl p => (2 * (M + 1 - p.length) + 1, 0)
  | .inr r => (2 * (M + 1 - r.currentPrefix.length), r.objects.length + r.next.length)

theorem Pages.held_commonPrefix {r : Pages B N} (h : r.Held) {M : Nat} (hM : ∀ k, B k ≠ none → k.length ≤ M) {c : Str}
    (hc : c ∈ r.prefixes) : Closed N c ∧ r.currentPrefix.length < c.length ∧ c.length ≤ M := by
  obtain ⟨k, hk, hck⟩ := h c hc
  obtain ⟨q, -, hq⟩ := r.objects_listed.commonPrefix c hc
  have hlen : c.length = r.currentPrefix.length + q.length + 1 := by
    rw [hq, List.length_append, List.length_append, List.length_singleton]
  have hclosed : Closed N c := by
    rw [hq, List.append_assoc]
    refine ⟨r.under.trans (List.prefix_append _ _), .inr ?_⟩
    rw [← List.append_assoc, List.getLast?_concat]
  exact ⟨hclosed, by omega, hck.length_le.trans (hM k hk)⟩

theorem Pages.nextPage_rank {r r' : Pages B N} (hp : r.page.objects = []) (h : r.nextPage = some r') :
    r'.currentPrefix = r.currentPrefix ∧ r'.objects.length + r'.next.length < r.objects.length + r.next.length ∧
      ∀ c ∈ r'.prefixes, c ∈ r.prefixes := by
  unfold Pages.nextPage at h
  split at h
  · exact absurd h (by simp)
  · rename_i p ps hn
    obtain rfl := Option.some.inj h
    refine ⟨rfl, ?_, fun c hc => ?_⟩
    · simp only [Pages.objects, hp, hn, List.flatMap_cons, List.length_append, List.length_cons, List.length_nil]
      omega
    · simp only [Pages.prefixes, hn, List.flatMap_cons] at hc ⊢
      exact List.mem_append_right _ hc

theorem truthful_descends {M : Nat} (hM : ∀ k, B k ≠ none → k.length ≤ M) :
    (truthfulWalker m B N).Descends (Closed N) Pages.Held (prefixRank M) (Prod.Lex (· < ·) (· < ·)) where
  opens := by
    rintro d s r s' ⟨ho, hheld⟩ hd x hx
    refine ⟨hheld x hx, ?_⟩
    cases ho with
    | failed => exact absurd hx (by simp)
    | listed hc =>
      obtain rfl := Option.some.inj (Option.mem_def.1 hx)
      exact .left _ _ (by omega)
  reads := by
    intro r s es ds r' s' hr hheld
    have hdown : ∀ c ∈ r.page.commonPrefixes, Closed N c ∧
        Prod.Lex (· < ·) (· < ·) (prefixRank (B := B) (N := N) M (.inl c)) (prefixRank M (.inr r)) := by
      intro c hc
      obtain ⟨hclosed, hlt, hle⟩ := Pages.held_commonPrefix hheld hM (List.mem_append_left _ hc)
      exact ⟨hclosed, .left _ _ (by omega)⟩
    cases hr with
    | @object o ho =>
      refine ⟨by simp, fun x hx => ?_⟩
      obtain rfl := Option.some.inj (Option.mem_def.1 hx)
      obtain ⟨os, hos⟩ := List.head?_eq_some_iff.1 ho
      refine ⟨hheld, .right _ ?_⟩
      simp only [Pages.objects, Pages.tail, hos, List.tail_cons, List.length_append, List.length_cons]
      omega
    | page hp =>
      refine ⟨hdown, fun x hx => ?_⟩
      obtain ⟨hcp, hlt, hsub⟩ := Pages.nextPage_rank hp (Option.mem_def.1 hx)
      refine ⟨fun c hc => hheld c (hsub c hc), ?_⟩
      simp only [prefixRank, hcp]
      exact .right _ hlt
    | failed hp => exact ⟨hdown, by simp⟩

theorem truthful_serves (hB : B.Finite) : (truthfulWalker m B N).Serves (Closed N) Pages.Held where
  opens := by
    rintro d s ⟨hN, hc⟩ hs
    obtain ⟨r, rfl, hcovers, hheld⟩ := exists_pages hB hN hc
    refine ⟨some r, s, ⟨.listed hcovers, fun x hx => ?_⟩, hs⟩
    obtain rfl := Option.some.inj (Option.mem_def.1 hx)
    exact hheld
  reads := by
    intro r s _ hs
    cases ho : r.page.objects with
    | nil => exact ⟨_, _, _, s, .page ho, hs⟩
    | cons o os => exact ⟨_, _, _, s, .object (o := o) (by rw [ho]; rfl), hs⟩

/-- **The search by levels terminates.** -/
theorem truthful_terminates (hB : B.Finite) :
    Terminates (truthfulWalker m B N).Going Walker.State.Over (.start N true) := by
  obtain ⟨M, hM⟩ := hB.exists_bound
  exact Walker.going_terminates (Nat.lt_wfRel.wf.prod_lex Nat.lt_wfRel.wf) (truthful_descends hM) (truthful_serves hB)
    ⟨List.prefix_refl N, .inl rfl⟩ Bool.noConfusion

end Levels

/-! ## The flat listing -/

/-- The keys a request for a prefix shows: all under it, or those with no separator behind it. -/
def Shown (recursive : Bool) (N k : Str) : Prop := N <+: k ∧ (recursive = true ∨ '/' ∉ k.drop N.length)

/-- A prefix being read by `enumerate_s3_prefix`: what is left of the page at hand, and the pages after it. -/
structure FlatPages (recursive : Bool) (B : Bucket) (normalizedPrefix : Str) where
  page : List (Str × SyncEntryInfo)
  next : List (List (Str × SyncEntryInfo))
  keys_nodup : ((page ++ next.flatten).map Prod.fst).Nodup
  object : ∀ o ∈ page ++ next.flatten, B o.1 = some o.2 ∧ Shown recursive normalizedPrefix o.1

namespace FlatPages

variable {recursive : Bool} {B : Bucket} {N : Str}

def objects (r : FlatPages recursive B N) : List (Str × SyncEntryInfo) := r.page ++ r.next.flatten

def tail (r : FlatPages recursive B N) : FlatPages recursive B N where
  page := r.page.tail
  next := r.next
  keys_nodup := r.keys_nodup.sublist (((List.tail_sublist _).append_right _).map _)
  object o ho := r.object o (((List.tail_sublist _).append_right _).subset ho)

def nextPage (r : FlatPages recursive B N) : Option (FlatPages recursive B N) :=
  match h : r.next with
  | [] => none
  | p :: ps => some
    { page := p
      next := ps
      keys_nodup := by
        have hn := r.keys_nodup
        rw [h, List.flatten_cons] at hn
        exact hn.sublist ((List.sublist_append_right _ _).map _)
      object := by
        have ho := r.object
        rw [h, List.flatten_cons] at ho
        exact fun o hm => ho o (List.mem_append_right _ hm) }

/-- Every key the request shows is there. -/
def Covers (r : FlatPages recursive B N) : Prop := ∀ k, B k ≠ none → Shown recursive N k → k ∈ r.objects.map Prod.fst

end FlatPages

inductive OpensFlat (recursive : Bool) (B : Bucket) (N : Str) :
    Unit → Bool → Option (FlatPages recursive B N) → Bool → Prop
  | listed {r : FlatPages recursive B N} {complete : Bool} (h : r.Covers) :
      OpensFlat recursive B N () complete (some r) complete
  | failed {complete : Bool} : OpensFlat recursive B N () complete none false

/-- The loop over the objects and the pages; there are no places below. -/
inductive ReadsFlat (recursive : Bool) (B : Bucket) (N : Str) : FlatPages recursive B N → Bool →
    List DirectoryEntry → List Unit → Option (FlatPages recursive B N) → Bool → Prop
  | object {r : FlatPages recursive B N} {complete : Bool} {o : Str × SyncEntryInfo} (h : r.page.head? = some o) :
      ReadsFlat recursive B N r complete
        ((listedPath false N N o.1).toList.map (fun p => ⟨p, o.2.size, o.2.mtime⟩)) [] (some r.tail) complete
  | page {r : FlatPages recursive B N} {complete : Bool} (h : r.page = []) :
      ReadsFlat recursive B N r complete [] [] r.nextPage complete
  | failed {r : FlatPages recursive B N} {complete : Bool} (h : r.page = []) :
      ReadsFlat recursive B N r complete [] [] none false

/-- `enumerate_s3_prefix` as a search of one place. -/
def flatWalker (recursive : Bool) (B : Bucket) (N : Str) : Walker Unit (FlatPages recursive B N) DirectoryEntry Bool where
  opens := OpensFlat recursive B N
  reads := ReadsFlat recursive B N
  lost complete := complete = false

section Flat

variable {recursive : Bool} {B : Bucket} {N : Str}

def flatBelow (recursive : Bool) (B : Bucket) (N : Str) : Unit ⊕ FlatPages recursive B N → Set Str
  | .inl _ => { path | isFilePath path ∧ B (N ++ path) ≠ none ∧ Shown recursive N (N ++ path) }
  | .inr r => { path | isFilePath path ∧ N ++ path ∈ r.objects.map Prod.fst }

namespace FlatPages

theorem nextPage_cases (r : FlatPages recursive B N) (hp : r.page = []) :
    (r.objects = [] ∧ r.nextPage = none) ∨
      ∃ r', r.nextPage = some r' ∧ r'.objects = r.objects ∧ r'.next.length < r.next.length := by
  unfold nextPage
  split
  · rename_i h
    exact .inl ⟨by simp [objects, hp, h], rfl⟩
  · rename_i p ps h
    exact .inr ⟨_, rfl, by simp [objects, hp, h], by simp [h]⟩

theorem objects_of_head {r : FlatPages recursive B N} {o : Str × SyncEntryInfo} (h : r.page.head? = some o) :
    r.objects = o :: r.tail.objects := by
  obtain ⟨os, hos⟩ := List.head?_eq_some_iff.1 h
  simp [objects, tail, hos]

theorem listedPath_flat {r : FlatPages recursive B N} {o : Str × SyncEntryInfo} (h : r.page.head? = some o)
    {path : Str} : listedPath false N N o.1 = some path ↔ o.1 = N ++ path ∧ isFilePath path := by
  have hu : N <+: o.1 := (r.object o (by rw [← objects, objects_of_head h]; exact List.mem_cons_self)).2.1
  rw [listedPath_eq_some hu (.inl rfl)]
  simp [isListed]

theorem mem_below_object {r : FlatPages recursive B N} {o : Str × SyncEntryInfo} (h : r.page.head? = some o)
    {path : Str} : path ∈ flatBelow recursive B N (.inr r) ↔
      listedPath false N N o.1 = some path ∨ path ∈ flatBelow recursive B N (.inr r.tail) := by
  rw [listedPath_flat h]
  simp only [flatBelow, Set.mem_ofPred_eq, objects_of_head h, List.map_cons, List.mem_cons]
  constructor
  · rintro ⟨hf, h | h⟩
    · exact .inl ⟨h.symm, hf⟩
    · exact .inr ⟨hf, h⟩
  · rintro (⟨h, hf⟩ | ⟨hf, h⟩)
    · exact ⟨hf, .inl h.symm⟩
    · exact ⟨hf, .inr h⟩

/-- **An object and the rest of the listing account for the listing.** -/
theorem object_weight {r : FlatPages recursive B N} {o : Str × SyncEntryInfo} (h : r.page.head? = some o) (f : Str) :
    weight (flatBelow recursive B N) ((some r.tail).toList.map .inr ++ [].map .inl)
        (((listedPath false N N o.1).toList.map (fun p => (⟨p, o.2.size, o.2.mtime⟩ : DirectoryEntry))).map
          DirectoryEntry.relativePath) f =
      weightOf (flatBelow recursive B N) (.inr r) f := by
  have hmap : ((listedPath false N N o.1).toList.map (fun p => (⟨p, o.2.size, o.2.mtime⟩ : DirectoryEntry))).map
      DirectoryEntry.relativePath = (listedPath false N N o.1).toList := by
    rw [List.map_map]
    exact List.map_id _
  have hnodup : (r.objects.map Prod.fst).Nodup := r.keys_nodup
  rw [objects_of_head h, List.map_cons, List.nodup_cons] at hnodup
  rw [hmap]
  simp only [Option.toList_some, List.map_cons, List.map_nil, List.append_nil]
  apply weight_eq_of_splits
  · rw [weight_split, weight_singleton]
    cases hp : listedPath false N N o.1 with
    | none => simpa using weightOf_le_one _ f
    | some p =>
      have hkey := ((listedPath_flat h).1 hp).1
      by_cases hpf : p = f
      · have hout : f ∉ flatBelow recursive B N (.inr r.tail) := by
          rintro ⟨-, hin⟩
          rw [← hpf, ← hkey] at hin
          exact hnodup.1 hin
        rw [weightOf_of_notMem hout]
        simp [weight, hpf]
      · simp only [Option.toList_some, weight, List.count_singleton, beq_iff_eq, hpf, if_false, List.countP_nil,
          Nat.add_zero]
        exact weightOf_le_one _ f
  · rw [mem_below_object h]
    simp only [Option.mem_toList, List.mem_singleton, exists_eq_left]

theorem page_weight {r : FlatPages recursive B N} (h : r.page = []) (f : Str) :
    weight (flatBelow recursive B N) (r.nextPage.toList.map .inr ++ ([] : List Unit).map .inl) [] f =
      weightOf (flatBelow recursive B N) (.inr r) f := by
  rw [List.map_nil, List.append_nil]
  rcases r.nextPage_cases h with ⟨ho, hn⟩ | ⟨r', hn, ho, -⟩
  · have hout : f ∉ flatBelow recursive B N (.inr r) := by
      rintro ⟨-, hin⟩
      rw [ho] at hin
      exact List.not_mem_nil hin
    rw [hn, weightOf_of_notMem hout]
    exact weight_nil f
  · rw [hn]
    refine weightOf_congr ?_
    simp only [flatBelow, Set.mem_ofPred_eq, ho]

theorem mem_below {r : FlatPages recursive B N} (h : r.Covers) {path : Str} :
    path ∈ flatBelow recursive B N (.inl ()) ↔ path ∈ flatBelow recursive B N (.inr r) := by
  constructor
  · rintro ⟨hf, hb, hs⟩
    exact ⟨hf, h _ hb hs⟩
  · rintro ⟨hf, hin⟩
    obtain ⟨o, ho, hok⟩ := List.mem_map.1 hin
    obtain ⟨hbo, hs⟩ := r.object o ho
    rw [hok] at hbo hs
    exact ⟨hf, by simp [hbo], hs⟩

end FlatPages

theorem flatWalker_counts (recursive : Bool) (B : Bucket) (N : Str) :
    Walker.Counts (flatWalker recursive B N) (flatBelow recursive B N) DirectoryEntry.relativePath where
  opens_le := by
    intro d s r s' h f
    cases h with
    | listed hc =>
      simp only [Option.toList_some, List.map_cons, List.map_nil, weight_singleton]
      exact weightOf_mono (FlatPages.mem_below hc).2
    | failed => simp
  opens_eq := by
    intro d s r s' h hl f
    cases h with
    | listed hc =>
      simp only [Option.toList_some, List.map_cons, List.map_nil, weight_singleton]
      exact weightOf_congr (FlatPages.mem_below hc).symm
    | failed => exact absurd rfl hl
  reads_le := by
    intro r s es ds r' s' h f
    cases h with
    | object ho => exact (FlatPages.object_weight ho f).le
    | page hp => exact (FlatPages.page_weight hp f).le
    | failed hp => simp
  reads_eq := by
    intro r s es ds r' s' h hl f
    cases h with
    | object ho => exact FlatPages.object_weight ho f
    | page hp => exact FlatPages.page_weight hp f
    | failed _ => exact absurd rfl hl
  opens_lost := by
    intro d s r s' h hl
    cases h with
    | listed _ => exact hl
    | failed => rfl
  reads_lost := by
    intro r s es ds r' s' h hl
    cases h with
    | object _ => exact hl
    | page _ => exact hl
    | failed _ => rfl

end Flat

section Flat

variable {recursive : Bool} {B : Bucket} {N : Str}

theorem exists_flatPages (hB : B.Finite) : ∃ r : FlatPages recursive B N, r.Covers := by
  classical
  have hB' : { k | B k ≠ none }.Finite := hB
  let ks := hB'.toFinset.toList.filter (fun k => decide (Shown recursive N k))
  have hks : ∀ k, k ∈ ks ↔ B k ≠ none ∧ Shown recursive N k := by
    intro k
    rw [List.mem_filter, Finset.mem_toList, Set.Finite.mem_toFinset, Set.mem_ofPred_eq, decide_eq_true_eq]
  let objects := ks.map (fun k => (k, (B k).getD {}))
  have hkeys : objects.map Prod.fst = ks := by
    rw [List.map_map]
    exact List.map_id _
  have hnodup : ((objects ++ [].flatten).map Prod.fst).Nodup := by
    rw [List.flatten_nil, List.append_nil, hkeys]
    exact (Finset.nodup_toList _).filter _
  have hobject : ∀ o ∈ objects ++ [].flatten, B o.1 = some o.2 ∧ Shown recursive N o.1 := by
    intro o ho
    rw [List.flatten_nil, List.append_nil] at ho
    obtain ⟨k, hk, rfl⟩ := List.mem_map.1 ho
    obtain ⟨hb, hs⟩ := (hks k).1 hk
    obtain ⟨i, hi⟩ := Option.ne_none_iff_exists'.1 hb
    exact ⟨by rw [hi, Option.getD_some], hs⟩
  refine ⟨⟨objects, [], hnodup, hobject⟩, fun k hb hs => ?_⟩
  have hk := (hks k).2 ⟨hb, hs⟩
  rw [← hkeys] at hk
  simpa [FlatPages.objects] using hk

/-- What is left of a flat listing. -/
def flatRank : Unit ⊕ FlatPages recursive B N → ℕ × ℕ
  | .inl _ => (1, 0)
  | .inr r => (0, r.objects.length + r.next.length)

theorem flat_descends : (flatWalker recursive B N).Descends (fun _ => True) (fun _ => True) flatRank
    (Prod.Lex (· < ·) (· < ·)) where
  opens := by
    intro d s r s' _ _ x _
    exact ⟨trivial, .left _ _ Nat.one_pos⟩
  reads := by
    intro r s es ds r' s' hr _
    cases hr with
    | object ho =>
      refine ⟨by simp, fun x hx => ⟨trivial, .right _ ?_⟩⟩
      obtain rfl := Option.some.inj (Option.mem_def.1 hx)
      rw [FlatPages.objects_of_head ho, List.length_cons]
      exact Nat.add_lt_add_right (Nat.lt_succ_self _) _
    | page hp =>
      refine ⟨by simp, fun x hx => ⟨trivial, .right _ ?_⟩⟩
      rcases r.nextPage_cases hp with ⟨-, hn⟩ | ⟨r', hn, ho, hlt⟩
      · rw [hn] at hx
        exact absurd hx (by simp)
      · rw [hn] at hx
        obtain rfl := Option.some.inj (Option.mem_def.1 hx)
        rw [ho]
        exact Nat.add_lt_add_left hlt _
    | failed hp => exact ⟨by simp, by simp⟩

theorem flat_serves (hB : B.Finite) : (flatWalker recursive B N).Serves (fun _ => True) (fun _ => True) where
  opens := by
    intro d s _ hs
    obtain ⟨r, hr⟩ := exists_flatPages hB
    exact ⟨some r, s, .listed hr, hs⟩
  reads := by
    intro r s _ hs
    cases ho : r.page with
    | nil => exact ⟨_, _, _, s, .page ho, hs⟩
    | cons o os => exact ⟨_, _, _, s, .object (o := o) (by rw [ho]; rfl), hs⟩

theorem flat_terminates (hB : B.Finite) :
    Terminates (flatWalker recursive B N).Going Walker.State.Over (.start () true) :=
  Walker.going_terminates (Nat.lt_wfRel.wf.prod_lex Nat.lt_wfRel.wf) flat_descends (flat_serves hB) trivial
    Bool.noConfusion

end Flat

/-! ## What the three return -/

section Returns

variable {m : Bool} {B : Bucket} {prefix_ : Str}

/-- Paths found once each, all of them, with their objects' sizes and times. -/
theorem Bucket.Lists.of_paths {es : List DirectoryEntry} (hnodup : (es.map DirectoryEntry.relativePath).Nodup)
    (hin : ∀ p ∈ es.map DirectoryEntry.relativePath, p ∈ B.listed m prefix_)
    (hall : ∀ p ∈ B.listed m prefix_, p ∈ es.map DirectoryEntry.relativePath)
    (hinfo : ∀ e ∈ es, B (makeS3Key prefix_ e.relativePath) = some ⟨e.size, e.mtime⟩) : B.Lists m prefix_ es := by
  refine ⟨hnodup, fun e => ⟨fun he => ⟨(hin _ (List.mem_map_of_mem he)).1, hinfo e he⟩, ?_⟩⟩
  rintro ⟨hl, hb⟩
  obtain ⟨e', he', hp⟩ := List.mem_map.1 (hall e.relativePath ⟨hl, by simp [hb]⟩)
  have hb' := hinfo e' he'
  rw [hp, hb] at hb'
  obtain ⟨hs, hm⟩ := SyncEntryInfo.mk.inj (Option.some.inj hb')
  have heq : e' = e := by
    cases e
    cases e'
    simp only at hp hs hm
    rw [hp, hs, hm]
  rwa [← heq]

/-- **Listings of one prefix are the same up to their order.** -/
theorem Bucket.Lists.perm {a b : List DirectoryEntry} (ha : B.Lists m prefix_ a) (hb : B.Lists m prefix_ b) :
    a.Perm b :=
  (List.perm_ext_iff_of_nodup (List.Nodup.of_map _ ha.nodup) (List.Nodup.of_map _ hb.nodup)).2
    fun e => (ha.mem e).trans (hb.mem e).symm

/-- **With the folder markers, prefix and paths give back the keys.** -/
theorem Bucket.Lists.keys {es : List DirectoryEntry} (h : B.Lists true prefix_ es) :
    (es.map (fun e => withSlash prefix_ ++ e.relativePath)).Nodup ∧
      ∀ k, k ∈ es.map (fun e => withSlash prefix_ ++ e.relativePath) ↔ B k ≠ none ∧ withSlash prefix_ <+: k := by
  constructor
  · have hmap : es.map (fun e => withSlash prefix_ ++ e.relativePath) =
        (es.map DirectoryEntry.relativePath).map (fun p => withSlash prefix_ ++ p) := by
      rw [List.map_map]
      rfl
    rw [hmap]
    exact h.nodup.map fun _ _ heq => List.append_cancel_left heq
  · intro k
    rw [List.mem_map]
    constructor
    · rintro ⟨e, he, rfl⟩
      have hb := ((h.mem e).1 he).2
      exact ⟨by rw [show withSlash prefix_ ++ e.relativePath = makeS3Key prefix_ e.relativePath from rfl, hb]; simp,
        List.prefix_append _ _⟩
    · rintro ⟨hk, path, rfl⟩
      obtain ⟨i, hi⟩ := Option.ne_none_iff_exists'.1 hk
      exact ⟨⟨path, i.size, i.mtime⟩, (h.mem _).2 ⟨.inl rfl, hi⟩, rfl⟩

/-- A search that nothing fails in is complete, and is one the enumerator makes. -/
theorem truthful_s3Lists {w : Walker.State Str (Pages B (withSlash prefix_)) DirectoryEntry Bool}
    (h : ReflTransGen (truthfulWalker m B (withSlash prefix_)).Going (.start (withSlash prefix_) true) w)
    (ho : w.Over) : S3ListsWith m B prefix_ { entries := w.entries } false := by
  have hopens : ∀ {d s r s'}, (truthfulWalker m B (withSlash prefix_)).opens d s r s' →
      (s3Walker m B (withSlash prefix_)).opens d s r s' := fun h => h.1
  have hrun : (s3Walker m B (withSlash prefix_)).Run (.start (withSlash prefix_) true) w :=
    Walker.run_mono hopens (fun h => h) (Walker.going_run h)
  have hstart : ¬ Walker.State.Short (truthfulWalker m B (withSlash prefix_)) (.start (withSlash prefix_) true) :=
    not_or.2 ⟨Bool.noConfusion, Bool.noConfusion⟩
  obtain ⟨hcomplete, hc⟩ := not_or.1 (Walker.going_notShort h hstart)
  have hlists : S3ListsWith m B prefix_ { entries := w.entries, complete := w.shared } w.cancelled := .walked hrun ho
  rw [Bool.eq_true_of_not_eq_false hcomplete, Bool.eq_false_of_not_eq_true hc] at hlists
  exact hlists

theorem truthful_lists {w : Walker.State Str (Pages B (withSlash prefix_)) DirectoryEntry Bool}
    (h : ReflTransGen (truthfulWalker m B (withSlash prefix_)).Going (.start (withSlash prefix_) true) w)
    (ho : w.Over) : B.Lists m prefix_ w.entries := by
  have hlists := truthful_s3Lists h ho
  obtain ⟨hnodup, hin, hall⟩ := s3ListsWith_paths hlists
  exact .of_paths hnodup hin (hall rfl rfl) (s3ListsWith_info hlists)

/-- **The search by levels can return all there is.** -/
theorem exists_s3Lists (hB : B.Finite) (prefix_ : Str) :
    ∃ es, S3Lists B prefix_ { entries := es } false ∧ B.Lists false prefix_ es := by
  obtain ⟨w, hrun, ho⟩ := (truthful_terminates (N := withSlash prefix_) (m := false) hB).exists_over
  exact ⟨w.entries, truthful_s3Lists hrun ho, truthful_lists hrun ho⟩

/-- **A listing `enumerate_s3_prefix` may return** where it lists all there is under a prefix, and whether `cancelled` was
set by then. -/
inductive FlatLists (B : Bucket) (prefix_ : Str) : Listing → Bool → Prop
  | read {w : Walker.State Unit (FlatPages true B (withSlash prefix_)) DirectoryEntry Bool}
      (h : (flatWalker true B (withSlash prefix_)).Run (.start () true) w) (ho : w.Over) :
      FlatLists B prefix_ { entries := w.entries, complete := w.shared } w.cancelled

/-- **What the flat listing returns**: paths under the prefix, each once, and all of them where no request failed and
nothing was cancelled. -/
theorem flatLists_paths {l : Listing} {cancelled : Bool} (h : FlatLists B prefix_ l cancelled) :
    l.paths.Nodup ∧ (∀ p ∈ l.paths, p ∈ B.listed false prefix_) ∧
      (l.complete = true → cancelled = false → ∀ p ∈ B.listed false prefix_, p ∈ l.paths) := by
  cases h with
  | @read w hw ho =>
    have hroot : ∀ p, p ∈ B.listed false prefix_ ↔ p ∈ flatBelow true B (withSlash prefix_) (.inl ()) := by
      intro p
      simp [Bucket.listed, isListed, flatBelow, makeS3Key, Shown]
    obtain ⟨hnodup, hin, hall⟩ := Walker.run_finds (flatWalker_counts true B (withSlash prefix_)) hw ho
    refine ⟨hnodup, fun p hp => ?_, fun hcomplete hc p hp => ?_⟩
    · obtain ⟨e, he, rfl⟩ := List.mem_map.1 hp
      exact (hroot _).2 (hin e he)
    · apply hall _ p ((hroot p).1 hp)
      rintro (hs | hs)
      · exact absurd (hcomplete.symm.trans hs) (by simp)
      · exact absurd hs (by simp [hc])

theorem flat_lists {w : Walker.State Unit (FlatPages true B (withSlash prefix_)) DirectoryEntry Bool}
    (h : ReflTransGen (flatWalker true B (withSlash prefix_)).Going (.start () true) w) (ho : w.Over) :
    B.Lists false prefix_ w.entries := by
  have hrun := Walker.going_run h
  have hstart : ¬ Walker.State.Short (flatWalker true B (withSlash prefix_)) (.start () true) :=
    not_or.2 ⟨Bool.noConfusion, Bool.noConfusion⟩
  obtain ⟨hcomplete, hc⟩ := not_or.1 (Walker.going_notShort h hstart)
  have hlists : FlatLists B prefix_ { entries := w.entries, complete := w.shared } w.cancelled := .read hrun ho
  obtain ⟨hnodup, hin, hall⟩ := flatLists_paths hlists
  refine .of_paths hnodup hin (hall (Bool.eq_true_of_not_eq_false hcomplete) (Bool.eq_false_of_not_eq_true hc)) ?_
  refine Walker.run_good_start (p := fun _ => True) (q := fun _ => True)
    (g := fun e => B (makeS3Key prefix_ e.relativePath) = some ⟨e.size, e.mtime⟩)
    (fun _ _ _ _ => trivial) ?_ hrun trivial
  intro r s es ds r' s' hr _
  refine ⟨?_, by simp, by simp⟩
  intro e he
  cases hr with
  | page _ => exact absurd he (by simp)
  | failed _ => exact absurd he (by simp)
  | @object o hhead =>
    obtain ⟨p, hp, rfl⟩ := List.mem_map.1 he
    have hkey := ((FlatPages.listedPath_flat hhead).1 (Option.mem_toList.1 hp)).1
    show B (withSlash prefix_ ++ p) = some ⟨o.2.size, o.2.mtime⟩
    rw [← hkey]
    exact (r.object o (by rw [← FlatPages.objects, FlatPages.objects_of_head hhead]; exact List.mem_cons_self)).1

/-- An enumerator that comes to its end in every run, and returns there what it should. -/
structure Enumerates {σ : Type} (step : σ → σ → Prop) (ended : σ → Prop) (start : σ) (result : σ → List DirectoryEntry)
    (lists : List DirectoryEntry → Prop) : Prop where
  terminates : Terminates step ended start
  returns : ∀ y, ReflTransGen step start y → ended y → lists (result y)

/-- **All S3 listings agree.**  Over a bucket of finitely many keys and answers that are S3's own, the search by levels,
the flat listing and the concatenated batches come to an end and return the entries of the keys under the prefix that
end in no separator, each once; the search with the folder markers returns every key under the prefix once. -/
theorem listings_agree (hB : B.Finite) (prefix_ : Str) :
    Enumerates (truthfulWalker false B (withSlash prefix_)).Going Walker.State.Over
      (.start (withSlash prefix_) true) Walker.State.entries (B.Lists false prefix_) ∧
    Enumerates (flatWalker true B (withSlash prefix_)).Going Walker.State.Over
      (.start () true) Walker.State.entries (B.Lists false prefix_) ∧
    Enumerates (truthfulWalker false B (withSlash prefix_)).StreamGoing (fun x => x.1.Over)
      (.start (withSlash prefix_) true, []) (fun x => x.2.flatten) (B.Lists false prefix_) ∧
    (∀ a b, B.Lists false prefix_ a → B.Lists false prefix_ b → a.Perm b) ∧
    Enumerates (truthfulWalker true B (withSlash prefix_)).Going Walker.State.Over
      (.start (withSlash prefix_) true) Walker.State.entries (fun es =>
        (es.map (fun e => withSlash prefix_ ++ e.relativePath)).Nodup ∧
          ∀ k, k ∈ es.map (fun e => withSlash prefix_ ++ e.relativePath) ↔ B k ≠ none ∧ withSlash prefix_ <+: k) := by
  refine ⟨⟨truthful_terminates hB, fun w h ho => truthful_lists h ho⟩,
    ⟨flat_terminates hB, fun w h ho => flat_lists h ho⟩,
    ⟨Walker.stream_terminates (truthful_terminates hB) [], fun x h ho => ?_⟩, fun a b ha hb => ha.perm hb,
    ⟨truthful_terminates hB, fun w h ho => (truthful_lists h ho).keys⟩⟩
  obtain ⟨hrun, hbatch⟩ := Walker.streamGoing_run h
  rw [hbatch rfl]
  exact truthful_lists hrun ho

/-- A bucket of one key. -/
theorem listings_agree_one :
    ∃ es, Bucket.Lists false (fun k => if k = ['a'] then some ⟨1, 5⟩ else none) [] es := by
  have hB : Bucket.Finite (fun k => if k = ['a'] then some ⟨1, 5⟩ else none) := by
    refine (Set.finite_singleton (['a'] : Str)).subset ?_
    intro k hk
    by_contra hne
    exact hk (if_neg hne)
  obtain ⟨hterm, hret⟩ := (listings_agree hB []).1
  obtain ⟨w, hrun, ho⟩ := hterm.exists_over
  exact ⟨_, hret w hrun ho⟩

end Returns

end Mito
