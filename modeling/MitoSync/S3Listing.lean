import MitoSync.LocalListing
/-!
# S3Listing — `parallel_enumerate_s3_prefix`

The same search by levels over a bucket: a place is a prefix, read page by page with the delimiter `/`, and the common
prefixes of its pages are the places of the next level.  A page may fail, or say that it is truncated and give no
token; either sets the one flag.  Folder markers, the keys that end in a separator, are left out unless they are asked
for.
-/
namespace Mito

open Lib

/-- What a bucket holds: an object a key. -/
abbrev Bucket := Str → Option SyncEntryInfo

structure Page where
  objects : List (Str × SyncEntryInfo) := []
  commonPrefixes : List Str := []

/-- What S3 lists under a prefix: objects right below it and the prefixes below it that hold any, nothing twice. -/
structure Listed (B : Bucket) (currentPrefix : Str) (objects : List (Str × SyncEntryInfo)) (prefixes : List Str) :
    Prop where
  keys_nodup : (objects.map Prod.fst).Nodup
  object : ∀ o ∈ objects, B o.1 = some o.2 ∧ ∃ q, '/' ∉ q ∧ o.1 = currentPrefix ++ q
  prefixes_nodup : prefixes.Nodup
  commonPrefix : ∀ c ∈ prefixes, ∃ q, '/' ∉ q ∧ c = currentPrefix ++ q ++ ['/']

theorem Listed.sublist {B : Bucket} {cp : Str} {os os' : List (Str × SyncEntryInfo)} {cs cs' : List Str}
    (h : Listed B cp os cs) (ho : os'.Sublist os) (hc : cs'.Sublist cs) : Listed B cp os' cs' where
  keys_nodup := h.keys_nodup.sublist (ho.map _)
  object o hm := h.object o (ho.subset hm)
  prefixes_nodup := h.prefixes_nodup.sublist hc
  commonPrefix c hm := h.commonPrefix c (hc.subset hm)

/-- A prefix being read: what is left of the page at hand, and the pages after it. -/
structure Pages (B : Bucket) (normalizedPrefix : Str) where
  currentPrefix : Str
  page : Page
  next : List Page
  under : normalizedPrefix <+: currentPrefix
  closed : currentPrefix = normalizedPrefix ∨ currentPrefix.getLast? = some '/'
  listed : Listed B currentPrefix (page.objects ++ next.flatMap Page.objects)
    (page.commonPrefixes ++ next.flatMap Page.commonPrefixes)

namespace Pages

variable {B : Bucket} {normalizedPrefix : Str}

def objects (r : Pages B normalizedPrefix) : List (Str × SyncEntryInfo) := r.page.objects ++ r.next.flatMap Page.objects

def prefixes (r : Pages B normalizedPrefix) : List Str := r.page.commonPrefixes ++ r.next.flatMap Page.commonPrefixes

/-- The page without its first object. -/
def tail (r : Pages B normalizedPrefix) : Pages B normalizedPrefix where
  currentPrefix := r.currentPrefix
  page := { r.page with objects := r.page.objects.tail }
  next := r.next
  under := r.under
  closed := r.closed
  listed := r.listed.sublist ((List.tail_sublist _).append_right _) (.refl _)

/-- The page after the one at hand. -/
def nextPage (r : Pages B normalizedPrefix) : Option (Pages B normalizedPrefix) :=
  match h : r.next with
  | [] => none
  | p :: ps => some
    { currentPrefix := r.currentPrefix
      page := p
      next := ps
      under := r.under
      closed := r.closed
      listed := by
        have hl := r.listed
        rw [h] at hl
        exact hl.sublist (List.sublist_append_right _ _) (List.sublist_append_right _ _) }

/-- The whole of a prefix: every key under it is one of the objects or under one of the prefixes. -/
def Covers (r : Pages B normalizedPrefix) : Prop :=
  ∀ k, B k ≠ none → r.currentPrefix <+: k → k ∈ r.objects.map Prod.fst ∨ ∃ c ∈ r.prefixes, c <+: k

end Pages

/-- The path an object is listed under, if it is: any but a folder marker and the prefix itself, or any at all. -/
def listedPath (includeDirectoryMarkers : Bool) (normalizedPrefix currentPrefix key : Str) : Option Str :=
  if includeDirectoryMarkers then
    if key.length < normalizedPrefix.length then none else some (key.drop normalizedPrefix.length)
  else if key = currentPrefix then none
  else if key.getLast? = some '/' then none
  else if key.length ≤ normalizedPrefix.length then none
  else some (key.drop normalizedPrefix.length)

/-- The first request for a prefix. -/
inductive OpensPrefix (B : Bucket) (normalizedPrefix : Str) :
    Str → Bool → Option (Pages B normalizedPrefix) → Bool → Prop
  | listed {r : Pages B normalizedPrefix} {complete : Bool} (h : r.Covers) : OpensPrefix B normalizedPrefix r.currentPrefix complete (some r) complete
  | failed {p : Str} {complete : Bool} : OpensPrefix B normalizedPrefix p complete none false

/-- The loop over a prefix's objects and pages. -/
inductive ReadsPrefix (m : Bool) (B : Bucket) (normalizedPrefix : Str) : Pages B normalizedPrefix → Bool →
    List DirectoryEntry → List Str → Option (Pages B normalizedPrefix) → Bool → Prop
  | object {r : Pages B normalizedPrefix} {complete : Bool} {o : Str × SyncEntryInfo} (h : r.page.objects.head? = some o) :
      ReadsPrefix m B normalizedPrefix r complete
        ((listedPath m normalizedPrefix r.currentPrefix o.1).toList.map (fun p => ⟨p, o.2.size, o.2.mtime⟩)) []
        (some r.tail) complete
  /-- the page is done, and the next one comes or there is none -/
  | page {r : Pages B normalizedPrefix} {complete : Bool} (h : r.page.objects = []) :
      ReadsPrefix m B normalizedPrefix r complete [] r.page.commonPrefixes r.nextPage complete
  /-- the page is done, and the next request fails or the page was truncated without a token -/
  | failed {r : Pages B normalizedPrefix} {complete : Bool} (h : r.page.objects = []) :
      ReadsPrefix m B normalizedPrefix r complete [] r.page.commonPrefixes none false

def s3Walker (m : Bool) (B : Bucket) (normalizedPrefix : Str) : Walker Str (Pages B normalizedPrefix) DirectoryEntry Bool where
  opens := OpensPrefix B normalizedPrefix
  reads := ReadsPrefix m B normalizedPrefix
  lost complete := complete = false

/-- **A listing `parallel_enumerate_s3_prefix` may return**, with the folder markers or without them, and whether
`cancelled` was set by then. -/
inductive S3ListsWith (m : Bool) (B : Bucket) (prefix_ : Str) : Listing → Bool → Prop
  | walked {w : Walker.State Str (Pages B (withSlash prefix_)) DirectoryEntry Bool}
      (h : (s3Walker m B (withSlash prefix_)).Run (.start (withSlash prefix_) true) w) (ho : w.Over) :
      S3ListsWith m B prefix_ { entries := w.entries, complete := w.shared } w.cancelled

abbrev S3Lists (B : Bucket) (prefix_ : Str) : Listing → Bool → Prop := S3ListsWith false B prefix_

/-! ## What it returns -/

/-- A path that is not a folder marker's. -/
def isFilePath (path : Str) : Prop := path ≠ [] ∧ path.getLast? ≠ some '/'

/-- A path that is listed. -/
def isListed (m : Bool) (path : Str) : Prop := m = true ∨ isFilePath path

/-- The paths under a prefix, or under what is left of one. -/
def s3Below (m : Bool) (B : Bucket) (normalizedPrefix : Str) : Str ⊕ Pages B normalizedPrefix → Set Str
  | .inl p => { path | isListed m path ∧ B (normalizedPrefix ++ path) ≠ none ∧ p <+: normalizedPrefix ++ path }
  | .inr r => { path | isListed m path ∧ (normalizedPrefix ++ path ∈ r.objects.map Prod.fst ∨
      ∃ c ∈ r.prefixes, B (normalizedPrefix ++ path) ≠ none ∧ c <+: normalizedPrefix ++ path) }

section Below

variable {m : Bool} {B : Bucket} {N : Str}

/-- Without the folder markers. -/
theorem listedPath_false {cp q : Str} (hc : cp = N ∨ cp.getLast? = some '/') {path : Str} :
    listedPath false N cp (N ++ q) = some path ↔ q = path ∧ isFilePath path := by
  have hlen : (N ++ q).length ≤ N.length ↔ q = [] := by
    rw [List.length_append, ← List.length_eq_zero_iff]; omega
  have hlast : q ≠ [] → (N ++ q).getLast? = q.getLast? := fun hq => List.getLast?_append_of_ne_nil N hq
  unfold listedPath isFilePath
  rw [if_neg Bool.false_ne_true, List.drop_left]
  by_cases hq : q = []
  · subst hq
    constructor
    · intro h
      split at h
      · exact absurd h (by simp)
      · split at h
        · exact absurd h (by simp)
        · rw [if_pos (by simp)] at h
          exact absurd h (by simp)
    · rintro ⟨h, hne, -⟩
      exact absurd h.symm hne
  · by_cases hl : q.getLast? = some '/'
    · rw [if_pos ((hlast hq).trans hl), ite_self]
      constructor
      · intro h; exact absurd h (by simp)
      · rintro ⟨h, -, hn⟩
        rw [h] at hl
        exact absurd hl hn
    · have hcp : N ++ q ≠ cp := by
        rintro rfl
        rcases hc with hc | hc
        · exact hq (by simpa using hc)
        · exact hl (hlast hq ▸ hc)
      rw [if_neg hcp, if_neg (by rw [hlast hq]; exact hl), if_neg (by rw [hlen]; exact hq)]
      simp only [Option.some.injEq]
      constructor
      · rintro rfl; exact ⟨rfl, hq, hl⟩
      · rintro ⟨rfl, -⟩; rfl

theorem listedPath_eq_some {cp key : Str} (hu : N <+: key) (hc : cp = N ∨ cp.getLast? = some '/') {path : Str} :
    listedPath m N cp key = some path ↔ key = N ++ path ∧ isListed m path := by
  obtain ⟨q, rfl⟩ := hu
  rw [List.append_cancel_left_eq]
  cases m with
  | false => simp only [listedPath_false hc, isListed, Bool.false_eq_true, false_or]
  | true =>
    have hlen : ¬ (N ++ q).length < N.length := by
      rw [List.length_append]; omega
    unfold listedPath isListed
    rw [if_pos rfl, if_neg hlen, List.drop_left, Option.some.injEq]
    simp

/-- No key right below a prefix lies under one of its common prefixes, and none under two. -/
theorem not_prefix_of_object {cp a b : Str} (ha : '/' ∉ a) (hp : cp ++ b ++ ['/'] <+: cp ++ a) : False := by
  obtain ⟨t, ht⟩ := hp
  simp only [List.append_assoc, List.append_cancel_left_eq] at ht
  exact ha (ht ▸ by simp)

theorem prefix_unique {cp a b k : Str} (ha : '/' ∉ a) (hb : '/' ∉ b) (hpa : cp ++ a ++ ['/'] <+: k)
    (hpb : cp ++ b ++ ['/'] <+: k) : a = b := by
  obtain ⟨s, rfl⟩ := hpa
  obtain ⟨t, ht⟩ := hpb
  simp only [List.append_assoc, List.append_cancel_left_eq, List.singleton_append] at ht
  exact (name_of_path hb ha (.inl ht)).symm

namespace Pages

theorem objects_listed (r : Pages B N) : Listed B r.currentPrefix r.objects r.prefixes := r.listed

theorem under_of_object {r : Pages B N} {o : Str × SyncEntryInfo} (h : o ∈ r.objects) : N <+: o.1 := by
  obtain ⟨q, -, hq⟩ := (r.objects_listed.object o h).2
  rw [hq]
  exact r.under.trans (List.prefix_append _ _)

/-- The finds of the object at hand and those of the rest of the prefix are apart. -/
theorem object_notMem_tail {r : Pages B N} {o : Str × SyncEntryInfo} (h : r.page.objects.head? = some o) {path : Str}
    (hp : o.1 = N ++ path) : path ∉ s3Below m B N (.inr r.tail) := by
  obtain ⟨os, hos⟩ := List.head?_eq_some_iff.1 h
  have hobj : r.objects = o :: r.tail.objects := by simp [objects, tail, hos]
  have hl := r.objects_listed
  rw [hobj] at hl
  rintro ⟨-, hin | ⟨c, hc, -, hpre⟩⟩
  · have hn := hl.keys_nodup
    rw [List.map_cons, List.nodup_cons, hp] at hn
    exact hn.1 hin
  · obtain ⟨q, hq, hoq⟩ := (hl.object o (List.mem_cons_self ..)).2
    obtain ⟨q', -, rfl⟩ := hl.commonPrefix c hc
    rw [← hp, hoq] at hpre
    exact not_prefix_of_object hq hpre

theorem mem_below_object {r : Pages B N} {o : Str × SyncEntryInfo} (h : r.page.objects.head? = some o) {path : Str} :
    path ∈ s3Below m B N (.inr r) ↔ listedPath m N r.currentPrefix o.1 = some path ∨ path ∈ s3Below m B N (.inr r.tail) := by
  obtain ⟨os, hos⟩ := List.head?_eq_some_iff.1 h
  have hobj : r.objects = o :: r.tail.objects := by simp [objects, tail, hos]
  have hpre : r.prefixes = r.tail.prefixes := rfl
  rw [listedPath_eq_some (under_of_object (by rw [hobj]; exact List.mem_cons_self ..)) r.closed]
  simp only [s3Below, Set.mem_ofPred_eq, hobj, hpre, List.map_cons, List.mem_cons]
  constructor
  · rintro ⟨hf, (h1 | h1) | h1⟩
    · exact .inl ⟨h1.symm, hf⟩
    · exact .inr ⟨hf, .inl h1⟩
    · exact .inr ⟨hf, .inr h1⟩
  · rintro (⟨h1, hf⟩ | ⟨hf, h1 | h1⟩)
    · exact ⟨hf, .inl (.inl h1.symm)⟩
    · exact ⟨hf, .inl (.inr h1)⟩
    · exact ⟨hf, .inr h1⟩

/-- **An object and the rest of its prefix account for the prefix.** -/
theorem object_weight {r : Pages B N} {o : Str × SyncEntryInfo} (h : r.page.objects.head? = some o) (f : Str) :
    weight (s3Below m B N) ((some r.tail).toList.map .inr ++ [].map .inl)
        (((listedPath m N r.currentPrefix o.1).toList.map (fun p => (⟨p, o.2.size, o.2.mtime⟩ : DirectoryEntry))).map
          DirectoryEntry.relativePath) f =
      weightOf (s3Below m B N) (.inr r) f := by
  have hmap : ((listedPath m N r.currentPrefix o.1).toList.map (fun p => (⟨p, o.2.size, o.2.mtime⟩ : DirectoryEntry))).map
      DirectoryEntry.relativePath = (listedPath m N r.currentPrefix o.1).toList := by
    rw [List.map_map]
    exact List.map_id _
  have hu : N <+: o.1 := by
    apply under_of_object (r := r)
    obtain ⟨os, hos⟩ := List.head?_eq_some_iff.1 h
    simp [objects, hos]
  rw [hmap]
  simp only [Option.toList_some, List.map_cons, List.map_nil, List.append_nil]
  apply weight_eq_of_splits
  · rw [weight_split, weight_singleton]
    cases hp : listedPath m N r.currentPrefix o.1 with
    | none => simpa using weightOf_le_one _ f
    | some p =>
      have hkey := ((listedPath_eq_some hu r.closed).1 hp).1
      by_cases hpf : p = f
      · rw [weightOf_of_notMem (object_notMem_tail h (hpf ▸ hkey))]
        simp [weight, hpf]
      · simp only [Option.toList_some, weight, List.count_singleton, beq_iff_eq, hpf, if_false, List.countP_nil,
          Nat.add_zero]
        exact weightOf_le_one _ f
  · rw [mem_below_object h]
    simp only [Option.mem_toList, List.mem_singleton, exists_eq_left]

theorem nextPage_cases (r : Pages B N) :
    (r.next = [] ∧ r.nextPage = none) ∨
      ∃ r', r.nextPage = some r' ∧ r'.objects = r.next.flatMap Page.objects ∧
        r'.prefixes = r.next.flatMap Page.commonPrefixes := by
  unfold nextPage
  split
  · rename_i h
    exact .inl ⟨h, rfl⟩
  · rename_i p ps h
    exact .inr ⟨_, rfl, by simp [objects, h], by simp [prefixes, h]⟩

/-- The finds of a page's common prefixes and of the pages after it. -/
theorem mem_below_page {r : Pages B N} (h : r.page.objects = []) {path : Str} :
    path ∈ s3Below m B N (.inr r) ↔
      (∃ c ∈ r.page.commonPrefixes, path ∈ s3Below m B N (.inl c)) ∨
        ∃ r' ∈ r.nextPage.toList, path ∈ s3Below m B N (.inr r') := by
  have hobj : r.objects = r.next.flatMap Page.objects := by simp [objects, h]
  have hpre : r.prefixes = r.page.commonPrefixes ++ r.next.flatMap Page.commonPrefixes := rfl
  rcases r.nextPage_cases with ⟨hn, hp⟩ | ⟨r', hp, ho, hc⟩
  · rw [hn] at hobj hpre
    rw [hp]
    simp only [s3Below, hobj, hpre, Set.mem_ofPred_eq, List.flatMap_nil, List.append_nil, List.map_nil,
      List.not_mem_nil, false_or, Option.toList_none, false_and, exists_false, or_false]
    constructor
    · rintro ⟨hf, c, hc, hb, hk⟩; exact ⟨c, hc, hf, hb, hk⟩
    · rintro ⟨c, hc, hf, hb, hk⟩; exact ⟨hf, c, hc, hb, hk⟩
  · rw [hp]
    simp only [s3Below, hobj, hpre, ho, hc, Set.mem_ofPred_eq, Option.toList_some, List.mem_singleton,
      exists_eq_left, List.mem_append]
    constructor
    · rintro ⟨hf, h1 | ⟨c, h1 | h1, hb, hk⟩⟩
      · exact .inr ⟨hf, .inl h1⟩
      · exact .inl ⟨c, h1, hf, hb, hk⟩
      · exact .inr ⟨hf, .inr ⟨c, h1, hb, hk⟩⟩
    · rintro (⟨c, h1, hf, hb, hk⟩ | ⟨hf, h1 | ⟨c, h1, hb, hk⟩⟩)
      · exact ⟨hf, .inr ⟨c, .inl h1, hb, hk⟩⟩
      · exact ⟨hf, .inl h1⟩
      · exact ⟨hf, .inr ⟨c, .inr h1, hb, hk⟩⟩

theorem prefixes_disjoint {r : Pages B N} :
    r.prefixes.Pairwise (fun c c' => Disjoint (s3Below m B N (.inl c)) (s3Below m B N (.inl c'))) := by
  apply r.objects_listed.prefixes_nodup.imp_of_mem
  intro c c' hc hc' hne
  rw [Set.disjoint_left]
  rintro k ⟨-, -, hk⟩ ⟨-, -, hk'⟩
  obtain ⟨q, hq, rfl⟩ := r.objects_listed.commonPrefix c hc
  obtain ⟨q', hq', rfl⟩ := r.objects_listed.commonPrefix c' hc'
  exact hne (by rw [prefix_unique hq hq' hk hk'])

/-- A page's common prefixes hold nothing that the pages after it hold. -/
theorem commonPrefix_disjoint_next {r r' : Pages B N} (h : r.page.objects = []) (hr : r.nextPage = some r') {c : Str}
    (hc : c ∈ r.page.commonPrefixes) : Disjoint (s3Below m B N (.inl c)) (s3Below m B N (.inr r')) := by
  rcases r.nextPage_cases with ⟨-, hp⟩ | ⟨r'', hp, ho, hcp⟩
  · rw [hp] at hr; exact absurd hr (by simp)
  rw [hr, Option.some.injEq] at hp
  subst hp
  rw [Set.disjoint_left]
  rintro k ⟨hf, hb, hk⟩ ⟨-, hin | ⟨c', hc', hk'⟩⟩
  · obtain ⟨o, ho', hok⟩ := List.mem_map.1 hin
    have hmem : o ∈ r.objects := by rw [objects, h, List.nil_append, ← ho]; exact ho'
    obtain ⟨q, hq, hoq⟩ := (r.objects_listed.object o hmem).2
    obtain ⟨q', -, rfl⟩ := r.objects_listed.commonPrefix c (List.mem_append_left _ hc)
    rw [← hok, hoq] at hk
    exact not_prefix_of_object hq hk
  · have hpw := r.prefixes_disjoint (m := m)
    rw [prefixes, List.pairwise_append] at hpw
    rw [hcp] at hc'
    exact Set.disjoint_left.1 (hpw.2.2 c hc c' hc') ⟨hf, hb, hk⟩ ⟨hf, hk'.1, hk'.2⟩

theorem page_weight {r : Pages B N} (h : r.page.objects = []) (f : Str) :
    weight (s3Below m B N) (r.nextPage.toList.map .inr ++ r.page.commonPrefixes.map .inl) [] f =
      weightOf (s3Below m B N) (.inr r) f := by
  apply weight_eq_of_splits
  · apply weight_le_one_of_pairwise
    rw [List.pairwise_append]
    refine ⟨?_, ?_, ?_⟩
    · cases r.nextPage <;> simp
    · have hpw := r.prefixes_disjoint (m := m)
      rw [prefixes, List.pairwise_append] at hpw
      exact List.pairwise_map.2 hpw.1
    · intro x hx y hy
      obtain ⟨r', hr', rfl⟩ := List.mem_map.1 hx
      obtain ⟨c, hc, rfl⟩ := List.mem_map.1 hy
      exact (commonPrefix_disjoint_next h (Option.mem_toList.1 hr') hc).symm
  · rw [mem_below_page h]
    simp only [List.not_mem_nil, false_or, List.mem_append, List.mem_map]
    constructor
    · rintro (⟨c, hc, hf⟩ | ⟨r', hr', hf⟩)
      · exact ⟨_, .inr ⟨c, hc, rfl⟩, hf⟩
      · exact ⟨_, .inl ⟨r', hr', rfl⟩, hf⟩
    · rintro ⟨y, ⟨r', hr', rfl⟩ | ⟨c, hc, rfl⟩, hf⟩
      · exact .inr ⟨r', hr', hf⟩
      · exact .inl ⟨c, hc, hf⟩

theorem mem_below_prefix {r : Pages B N} (h : r.Covers) {path : Str} :
    path ∈ s3Below m B N (.inl r.currentPrefix) ↔ path ∈ s3Below m B N (.inr r) := by
  constructor
  · rintro ⟨hf, hb, hk⟩
    refine ⟨hf, (h _ hb hk).imp id ?_⟩
    rintro ⟨c, hc, hck⟩
    exact ⟨c, hc, hb, hck⟩
  · rintro ⟨hf, hin | ⟨c, hc, hb, hck⟩⟩
    · obtain ⟨o, ho, hok⟩ := List.mem_map.1 hin
      obtain ⟨hbo, q, -, hq⟩ := r.objects_listed.object o ho
      refine ⟨hf, ?_, ?_⟩
      · rw [← hok, hbo]; simp
      · rw [← hok, hq]; exact List.prefix_append _ _
    · obtain ⟨q, -, rfl⟩ := r.objects_listed.commonPrefix c hc
      refine ⟨hf, hb, ?_⟩
      rw [List.append_assoc] at hck
      exact (List.prefix_append _ _).trans hck

end Pages

theorem s3Walker_counts (m : Bool) (B : Bucket) (N : Str) :
    Walker.Counts (s3Walker m B N) (s3Below m B N) DirectoryEntry.relativePath where
  opens_le := by
    intro d s r s' h f
    cases h with
    | listed hc =>
      simp only [Option.toList_some, List.map_cons, List.map_nil, weight_singleton]
      exact weightOf_mono (Pages.mem_below_prefix hc).2
    | failed => simp
  opens_eq := by
    intro d s r s' h hl f
    cases h with
    | listed hc =>
      simp only [Option.toList_some, List.map_cons, List.map_nil, weight_singleton]
      exact weightOf_congr (Pages.mem_below_prefix hc).symm
    | failed => exact absurd rfl hl
  reads_le := by
    intro r s es ds r' s' h f
    cases h with
    | object ho => exact (Pages.object_weight ho f).le
    | page hp => exact (Pages.page_weight hp f).le
    | failed hp =>
      rw [← Pages.page_weight hp f, weight_pending_append]
      simp
  reads_eq := by
    intro r s es ds r' s' h hl f
    cases h with
    | object ho => exact Pages.object_weight ho f
    | page hp => exact Pages.page_weight hp f
    | failed _ => exact absurd rfl hl
  opens_lost := by
    intro d s r s' h hl
    cases h with
    | listed _ => exact hl
    | failed => rfl
  reads_lost := by
    intro r s es ds r' s' h hl
    cases h with
    | object _ => exact hl
    | page _ => exact hl
    | failed _ => rfl

end Below

/-- The paths under a prefix of a bucket that are listed. -/
def Bucket.listed (m : Bool) (B : Bucket) (prefix_ : Str) : Set Str :=
  { path | isListed m path ∧ B (makeS3Key prefix_ path) ≠ none }

/-- The paths under a prefix of a bucket, folder markers apart. -/
def Bucket.paths (B : Bucket) (prefix_ : Str) : Set Str := { path | isFilePath path ∧ B (makeS3Key prefix_ path) ≠ none }

theorem Bucket.mem_listed_false {B : Bucket} {prefix_ path : Str} :
    path ∈ B.listed false prefix_ ↔ path ∈ B.paths prefix_ := by
  simp [Bucket.listed, Bucket.paths, isListed]

section Lists

variable {m : Bool} {B : Bucket} {prefix_ : Str} {l : Listing} {cancelled : Bool}

/-- **What the S3 enumerator returns**: paths under the prefix, each once, and all of them where the flag is not set
and nothing was cancelled. -/
theorem s3ListsWith_paths (h : S3ListsWith m B prefix_ l cancelled) :
    l.paths.Nodup ∧ (∀ p ∈ l.paths, p ∈ B.listed m prefix_) ∧
      (l.complete = true → cancelled = false → ∀ p ∈ B.listed m prefix_, p ∈ l.paths) := by
  cases h with
  | @walked w hw ho =>
    have hroot : ∀ p, p ∈ B.listed m prefix_ ↔ p ∈ s3Below m B (withSlash prefix_) (.inl (withSlash prefix_)) := by
      intro p
      simp [Bucket.listed, s3Below, makeS3Key]
    obtain ⟨hnodup, hin, hall⟩ := Walker.run_finds (s3Walker_counts m B (withSlash prefix_)) hw ho
    refine ⟨hnodup, fun p hp => ?_, fun hcomplete hc p hp => ?_⟩
    · obtain ⟨e, he, rfl⟩ := List.mem_map.1 hp
      exact (hroot _).2 (hin e he)
    · apply hall _ p ((hroot p).1 hp)
      rintro (hs | hs)
      · exact absurd (hcomplete.symm.trans hs) (by simp)
      · exact absurd hs (by simp [hc])

theorem s3Lists_paths (h : S3Lists B prefix_ l cancelled) :
    l.paths.Nodup ∧ (∀ p ∈ l.paths, p ∈ B.paths prefix_) ∧
      (l.complete = true → cancelled = false → ∀ p ∈ B.paths prefix_, p ∈ l.paths) := by
  obtain ⟨hnodup, hin, hall⟩ := s3ListsWith_paths h
  exact ⟨hnodup, fun p hp => Bucket.mem_listed_false.1 (hin p hp),
    fun hcomplete hc p hp => hall hcomplete hc p (Bucket.mem_listed_false.2 hp)⟩

/-- An object is listed with its own size and time. -/
theorem s3ListsWith_info (h : S3ListsWith m B prefix_ l cancelled) :
    ∀ e ∈ l.entries, B (makeS3Key prefix_ e.relativePath) = some ⟨e.size, e.mtime⟩ := by
  cases h with
  | walked hw ho =>
    refine Walker.run_good_start (p := fun _ => True) (q := fun _ => True)
      (g := fun e => B (makeS3Key prefix_ e.relativePath) = some ⟨e.size, e.mtime⟩)
      (fun _ _ _ _ => trivial) ?_ hw trivial
    intro r s es ds r' s' hr _
    refine ⟨?_, by simp, by simp⟩
    intro e he
    cases hr with
    | page _ => exact absurd he (by simp)
    | failed _ => exact absurd he (by simp)
    | @object o hhead =>
      obtain ⟨p, hp, rfl⟩ := List.mem_map.1 he
      obtain ⟨os, hos⟩ := List.head?_eq_some_iff.1 hhead
      have hmem : o ∈ r.objects := by simp [Pages.objects, hos]
      have hkey := ((listedPath_eq_some (Pages.under_of_object hmem) r.closed).1 (Option.mem_toList.1 hp)).1
      show B (withSlash prefix_ ++ p) = some ⟨o.2.size, o.2.mtime⟩
      rw [← hkey]
      exact (r.objects_listed.object o hmem).1

theorem s3Lists_info (h : S3Lists B prefix_ l cancelled) :
    ∀ e ∈ l.entries, B (makeS3Key prefix_ e.relativePath) = some ⟨e.size, e.mtime⟩ := s3ListsWith_info h

end Lists

end Mito
