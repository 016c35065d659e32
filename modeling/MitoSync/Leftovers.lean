import MitoSync.Basic
import MitoSync.Lib.Prog
/-!
# Leftovers — `run_leftovers`

The incomplete uploads of a bucket are listed page by page, filtered, and aborted on the way.  `Service` is the side of
S3: it lists what lies behind a marker, in an order of its own, and may fail, cut a page anywhere, or mark a page
truncated with markers that lead nowhere.  The loop's only progress is in the markers, and a cancellation leaves it as
the last page does; where neither happens (`orderly`) a run ends and its success is complete (`leftovers_complete`).
-/
namespace Mito

open Lib Prog

/-- `S3MultipartUploadInfo`; the time is in nanoseconds. -/
structure UploadInfo where
  key : Str
  uploadId : Str
  initiated : Int := 0
  deriving DecidableEq

structure LeftoversConfig where
  keyPrefix : Str := []
  /-- in seconds -/
  olderThan : Int := 0
  abortUploads : Bool := false

/-- The uploads a run lists and the aborts it attempts, of which the code keeps the numbers. -/
structure LeftoversResult where
  success : Bool := false
  listed : List UploadInfo := []
  aborts : List (UploadInfo × Bool) := []
  errorMessage : Str := []
  deriving DecidableEq

def LeftoversResult.uploadsListed (r : LeftoversResult) : Nat := r.listed.length

def LeftoversResult.uploadsAborted (r : LeftoversResult) : Nat := (r.aborts.filter Prod.snd).length

def LeftoversResult.abortFailures (r : LeftoversResult) : Nat := (r.aborts.filter (fun a => !a.2)).length

/-! ## The requests -/

structure UploadsPage where
  uploads : List UploadInfo := []
  isTruncated : Bool := false
  nextKeyMarker : Str := []
  nextUploadIdMarker : Str := []

/-- A request's answer, the failure it reports, or what it throws. -/
inductive Reply (α : Type)
  | ok (a : α) | failed (message : Str) | threw (what : Str)

inductive LeftoversCall
  | createS3Client
  | cancelled
  | listMultipartUploads (keyMarker uploadIdMarker : Str)
  | abortMultipartUpload (key uploadId : Str)

abbrev LeftoversResp : LeftoversCall → Type
  | .createS3Client | .cancelled => Bool
  | .listMultipartUploads _ _ => Reply UploadsPage
  | .abortMultipartUpload _ _ => Reply Bool

abbrev LeftoversExec (α : Type) : Type := Prog LeftoversCall LeftoversResp α

/-- One request of the run. -/
abbrev askService (c : LeftoversCall) : LeftoversExec (LeftoversResp c) := Prog.req c

def cancelledText : Str := "Cancelled".toList

def noClientText : Str := "Failed to create S3 client".toList

/-! ## The code -/

/-- The filters of the loop: the prefix the service was not asked to apply, and the age, truncated to seconds. -/
def wanted (config : LeftoversConfig) (now : Int) (u : UploadInfo) : Bool :=
  if !config.keyPrefix.isEmpty && !config.keyPrefix.isPrefixOf u.key then false
  else if config.olderThan > 0 then !decide ((now - u.initiated).tdiv 1000000000 < config.olderThan)
  else true

/-- The uploads of a page, up to an exception. -/
def visitUploads (config : LeftoversConfig) (now : Int) :
    List UploadInfo → LeftoversResult → LeftoversExec (LeftoversResult × Option Str)
  | [], r => return (r, none)
  | u :: us, r => do
    if !wanted config now u then visitUploads config now us r
    else
      let r := { r with listed := r.listed ++ [u] }
      if config.abortUploads then
        match ← askService (.abortMultipartUpload u.key u.uploadId) with
        | .threw what => return (r, some what)
        | .ok true => visitUploads config now us { r with aborts := r.aborts ++ [(u, true)] }
        | _ => visitUploads config now us { r with aborts := r.aborts ++ [(u, false)] }
      else visitUploads config now us r

/-- The loop over the pages, which halts where it has turned more often than the bound. -/
def listUploads (config : LeftoversConfig) (now : Int) :
    Nat → Str → Str → LeftoversResult → LeftoversExec LeftoversResult
  | 0, _, _, _ => .halt
  | turns + 1, keyMarker, uploadIdMarker, r => do
    if ← askService .cancelled then return { r with success := true, errorMessage := cancelledText }
    match ← askService (.listMultipartUploads keyMarker uploadIdMarker) with
    | .failed message => return { r with errorMessage := message }
    | .threw what => return { r with errorMessage := what }
    | .ok page =>
      match ← visitUploads config now page.uploads r with
      | (r, some what) => return { r with errorMessage := what }
      | (r, none) =>
        if !page.isTruncated then return { r with success := true }
        else listUploads config now turns page.nextKeyMarker page.nextUploadIdMarker r

def runLeftovers (turns : Nat) (config : LeftoversConfig) (now : Int) (clientGiven : Bool) :
    LeftoversExec LeftoversResult := do
  if !clientGiven then
    if !(← askService .createS3Client) then return { errorMessage := noClientText }
  listUploads config now turns [] [] {}

/-! ## The service -/

structure Service where
  /-- the incomplete uploads, in the order they are listed -/
  pending : List UploadInfo
  /-- a page that is not truncated has been read -/
  lastPageRead : Bool := false

/-- The service without an upload. -/
def Service.remove (s : Service) (key uploadId : Str) : Service :=
  { s with pending := s.pending.filter (fun u => !decide (u.key = key ∧ u.uploadId = uploadId)) }

section Service

variable {ι : Type} [LinearOrder ι] (place : Str → Str → ι)

/-- The uploads a listing lets through: all of them without markers, else those placed behind the markers. -/
def Service.after (s : Service) (keyMarker uploadIdMarker : Str) : List UploadInfo :=
  s.pending.filter fun u => decide (keyMarker = [] ∧ uploadIdMarker = []) ||
    decide (place keyMarker uploadIdMarker < place u.key u.uploadId)

/-- The uploads stand in their places, and have ids. -/
def Service.Sorted (s : Service) : Prop :=
  s.pending.Pairwise (fun u v => place u.key u.uploadId < place v.key v.uploadId) ∧ ∀ u ∈ s.pending, u.uploadId ≠ []

/-- **What each request may answer.**  A page is cut anywhere, and the markers of a truncated one may be anything. -/
def serve : (c : LeftoversCall) → Service → LeftoversResp c → Service → Prop
  | .createS3Client, s, _, s' => s' = s
  | .cancelled, s, _, s' => s' = s
  | .listMultipartUploads keyMarker uploadIdMarker, s, r, s' =>
    match r with
    | .ok page =>
      page.uploads <+: s.after place keyMarker uploadIdMarker ∧
        (page.isTruncated = false → page.uploads = s.after place keyMarker uploadIdMarker) ∧
        s' = { s with lastPageRead := !page.isTruncated }
    | _ => s' = s
  | .abortMultipartUpload key uploadId, s, r, s' =>
    (r ≠ .ok true ∧ s' = s) ∨ s' = s.remove key uploadId

/-- `serve` where no cancellation is seen, and a truncated page's markers are those of its last upload. -/
def orderly (c : LeftoversCall) (s : Service) (r : LeftoversResp c) (s' : Service) : Prop :=
  serve place c s r s' ∧
    match c, r with
    | .cancelled, r => r = false
    | .listMultipartUploads _ _, .ok page => page.isTruncated = true →
        ∃ u, page.uploads.getLast? = some u ∧ page.nextKeyMarker = u.key ∧ page.nextUploadIdMarker = u.uploadId
    | _, _ => True

/-! ## A run -/

variable {place}

theorem after_start (s : Service) : s.after place [] [] = s.pending := by
  unfold Service.after
  rw [List.filter_eq_self]
  intro u _
  simp

/-- **Behind the last upload seen stand those not yet seen**, whichever of the seen are gone. -/
theorem after_last {S T X : List UploadInfo} {u : UploadInfo} {done : Bool}
    (hP : ((S ++ [u]) ++ T).Pairwise (fun v w => place v.key v.uploadId < place w.key w.uploadId))
    (hX : X.Sublist (S ++ [u])) (hu : u.uploadId ≠ []) :
    Service.after place ⟨X ++ T, done⟩ u.key u.uploadId = T := by
  obtain ⟨hS, -, hST⟩ := List.pairwise_append.1 hP
  have hseen : ∀ v ∈ X, ¬ place u.key u.uploadId < place v.key v.uploadId := by
    intro v hv
    rcases List.mem_append.1 (hX.subset hv) with hvS | hvu
    · have hlt := (List.pairwise_append.1 hS).2.2 v hvS u (List.mem_singleton.2 rfl)
      exact not_lt_of_gt hlt
    · rw [List.mem_singleton.1 hvu]
      exact lt_irrefl _
  have hbehind : ∀ v ∈ T, place u.key u.uploadId < place v.key v.uploadId :=
    fun v hv => hST u (List.mem_append_right _ (List.mem_singleton.2 rfl)) v hv
  have hne : ¬ (u.key = [] ∧ u.uploadId = []) := fun h => hu h.2
  unfold Service.after
  rw [List.filter_append, List.filter_eq_nil_iff.2, List.filter_eq_self.2, List.nil_append]
  · intro v hv
    simp [hbehind v hv]
  · intro v hv
    simp [hne, hseen v hv]

/-- Of the uploads `P` the run has seen `S` and not yet `T`. -/
structure Visited (config : LeftoversConfig) (now : Int) (P S T : List UploadInfo) (r : LeftoversResult) (s : Service) :
    Prop where
  all : P = S ++ T
  pending : ∃ X, X.Sublist S ∧ s.pending = X ++ T
  listed : r.listed = S.filter (wanted config now)
  aborts : r.aborts.map Prod.fst = if config.abortUploads then r.listed else []
  running : r.success = false

variable {config : LeftoversConfig} {now : Int} {P S T : List UploadInfo} {r : LeftoversResult} {s : Service}

theorem Visited.skip {u : UploadInfo} (h : Visited config now P S (u :: T) r s) (hu : wanted config now u = false) :
    Visited config now P (S ++ [u]) T r s := by
  obtain ⟨X, hX, hs⟩ := h.pending
  refine ⟨by rw [h.all]; simp, ⟨X ++ [u], hX.append_right _, by rw [hs]; simp⟩, ?_, h.aborts, h.running⟩
  rw [List.filter_append, ← h.listed, List.filter_cons_of_neg (by simp [hu]), List.filter_nil, List.append_nil]

theorem Visited.list {u : UploadInfo} (h : Visited config now P S (u :: T) r s) (hu : wanted config now u = true)
    (ha : config.abortUploads = false) :
    Visited config now P (S ++ [u]) T { r with listed := r.listed ++ [u] } s := by
  obtain ⟨X, hX, hs⟩ := h.pending
  refine ⟨by rw [h.all]; simp, ⟨X ++ [u], hX.append_right _, by rw [hs]; simp⟩, ?_, ?_, h.running⟩
  · rw [List.filter_append, ← h.listed, List.filter_cons_of_pos hu, List.filter_nil]
  · have := h.aborts
    rw [ha] at this
    simpa [ha] using this

/-- **An abort takes its upload out of what is pending, or leaves it there**; the uploads ahead stay as they are. -/
theorem Visited.abort {u : UploadInfo} {ok : Bool} {s' : Service} (h : Visited config now P S (u :: T) r s)
    (hP : P.Pairwise (fun v w => place v.key v.uploadId < place w.key w.uploadId)) (hu : wanted config now u = true)
    (ha : config.abortUploads = true)
    (hs' : s' = s ∨ s' = s.remove u.key u.uploadId) :
    Visited config now P (S ++ [u]) T
      { r with listed := r.listed ++ [u], aborts := r.aborts ++ [(u, ok)] } s' := by
  obtain ⟨X, hX, hs⟩ := h.pending
  refine ⟨by rw [h.all]; simp, ?_, ?_, ?_, h.running⟩
  · rcases hs' with rfl | rfl
    · exact ⟨X ++ [u], hX.append_right _, by rw [hs]; simp⟩
    · have hahead : ∀ v ∈ T, ¬ (v.key = u.key ∧ v.uploadId = u.uploadId) := by
        rintro v hv ⟨hk, hi⟩
        rw [h.all] at hP
        have hlt := (List.pairwise_cons.1 (List.pairwise_append.1 hP).2.1).1 v hv
        rw [hk, hi] at hlt
        exact lt_irrefl _ hlt
      have hkeep : T.filter (fun v => !decide (v.key = u.key ∧ v.uploadId = u.uploadId)) = T := by
        rw [List.filter_eq_self]
        intro v hv
        simp [hahead v hv]
      refine ⟨X.filter (fun v => !decide (v.key = u.key ∧ v.uploadId = u.uploadId)),
        (List.filter_sublist.trans hX).trans (List.sublist_append_left S [u]), ?_⟩
      unfold Service.remove
      rw [hs, List.filter_append, List.filter_cons_of_neg (by simp), hkeep]
  · rw [List.filter_append, ← h.listed, List.filter_cons_of_pos hu, List.filter_nil]
  · have := h.aborts
    rw [ha] at this
    simpa [ha] using this

theorem visitUploads_spec (hP : P.Pairwise (fun v w => place v.key v.uploadId < place w.key w.uploadId)) :
    ∀ (us : List UploadInfo) {S : List UploadInfo} {r : LeftoversResult} {s : Service},
      Visited config now P S (us ++ T) r s →
      wp (orderly place) (fun _ => True) (fun _ => False) (visitUploads config now us r)
        (fun out s' => out.1.success = false ∧ s'.lastPageRead = s.lastPageRead ∧
          (out.2 = none → Visited config now P (S ++ us) T out.1 s')) s := by
  intro us
  induction us with
  | nil =>
    intro S r s h
    exact ⟨h.running, rfl, fun _ => by rw [List.append_nil]; exact h⟩
  | cons u us ih =>
    intro S r s h
    have hsplit : S ++ u :: us = (S ++ [u]) ++ us := by simp
    rw [hsplit]
    unfold visitUploads
    cases hu : wanted config now u with
    | false => exact ih (h.skip hu)
    | true =>
      simp only [Bool.not_true, Bool.false_eq_true, if_false]
      cases ha : config.abortUploads with
      | false =>
        simp only [Bool.false_eq_true, if_false]
        exact ih (h.list hu ha)
      | true =>
        simp only [if_true, wp_bind, wp_req]
        refine ⟨trivial, fun a s' hx => ?_⟩
        have hs' : s' = s ∨ s' = s.remove u.key u.uploadId := hx.1.imp_left And.right
        have hread : s'.lastPageRead = s.lastPageRead := by
          rcases hs' with rfl | rfl <;> rfl
        rw [← hread]
        cases a with
        | threw what => exact ⟨h.running, rfl, fun hwhat => absurd hwhat (Option.some_ne_none what)⟩
        | failed message => exact ih (h.abort hP hu ha hs')
        | ok b =>
          cases b with
          | false => exact ih (h.abort hP hu ha hs')
          | true => exact ih (h.abort hP hu ha hs')

/-- What the claimed success of a run says of the service it began with. -/
structure Complete (config : LeftoversConfig) (now : Int) (P : List UploadInfo) (r : LeftoversResult) (s : Service) :
    Prop where
  lastPageRead : s.lastPageRead = true
  listed : r.listed = P.filter (wanted config now)
  aborts : r.aborts.map Prod.fst = if config.abortUploads then r.listed else []

/-- The markers stand behind what has been seen. -/
def Behind (S : List UploadInfo) (keyMarker uploadIdMarker : Str) : Prop :=
  (S = [] ∧ keyMarker = [] ∧ uploadIdMarker = []) ∨
    ∃ S' u, S = S' ++ [u] ∧ keyMarker = u.key ∧ uploadIdMarker = u.uploadId

theorem Visited.after (h : Visited config now P S T r s)
    (hP : P.Pairwise (fun v w => place v.key v.uploadId < place w.key w.uploadId)) (hid : ∀ u ∈ P, u.uploadId ≠ [])
    {keyMarker uploadIdMarker : Str} (hm : Behind S keyMarker uploadIdMarker) :
    s.after place keyMarker uploadIdMarker = T := by
  obtain ⟨X, hX, hs⟩ := h.pending
  obtain ⟨pending, done⟩ := s
  obtain rfl : pending = X ++ T := hs
  rcases hm with ⟨rfl, rfl, rfl⟩ | ⟨S', u, rfl, rfl, rfl⟩
  · rw [after_start, List.sublist_nil.1 hX]
    rfl
  · rw [h.all] at hP
    exact after_last hP hX (hid u (by rw [h.all]; simp))

/-- **An orderly listing ends, and its success is complete**: each page leaves fewer uploads behind its markers. -/
theorem listUploads_spec (hP : P.Pairwise (fun v w => place v.key v.uploadId < place w.key w.uploadId))
    (hid : ∀ u ∈ P, u.uploadId ≠ []) :
    ∀ (turns : Nat) {S T : List UploadInfo} {r : LeftoversResult} {s : Service} {keyMarker uploadIdMarker : Str},
      Visited config now P S T r s → Behind S keyMarker uploadIdMarker → T.length < turns →
      wp (orderly place) (fun _ => True) (fun _ => False) (listUploads config now turns keyMarker uploadIdMarker r)
        (fun r' s' => r'.success = true → Complete config now P r' s') s
  | 0, _, _, _, _, _, _, _, _, hlt => absurd hlt (Nat.not_lt_zero _)
  | turns + 1, S, T, r, s, keyMarker, uploadIdMarker, h, hm, hlt => by
    have hrunning : ∀ {r' : LeftoversResult} {s' : Service}, r'.success = false →
        (r'.success = true → Complete config now P r' s') := by
      intro r' s' hf ht
      rw [hf] at ht
      cases ht
    rw [listUploads, wp_bind, wp_req]
    refine ⟨trivial, fun c s₁ hx => ?_⟩
    obtain rfl : s₁ = s := hx.1
    obtain rfl : c = false := hx.2
    simp only [Bool.false_eq_true, if_false, wp_bind, wp_req]
    refine ⟨trivial, fun a s₂ hx => ?_⟩
    cases a with
    | failed message => exact hrunning h.running
    | threw what => exact hrunning h.running
    | ok page =>
      obtain ⟨⟨hsome, hall, rfl⟩, hmarkers⟩ := hx
      rw [h.after hP hid hm] at hsome hall
      obtain ⟨B, hB⟩ := hsome
      have hread : Visited config now P S (page.uploads ++ B) r { s₁ with lastPageRead := !page.isTruncated } := by
        rw [hB]
        exact ⟨h.all, h.pending, h.listed, h.aborts, h.running⟩
      simp only [wp_bind]
      refine wp_mono (fun out s₃ hout => ?_) (visitUploads_spec hP page.uploads hread)
      obtain ⟨r', what⟩ := out
      obtain ⟨hf, hlast, hseen⟩ := hout
      cases what with
      | some what => exact hrunning hf
      | none =>
        have hseen := hseen rfl
        cases ht : page.isTruncated with
        | false =>
          simp only [Bool.not_false, if_true]
          intro _
          have hnil : B = [] := by
            have hpage := hall ht
            rw [hpage, List.append_right_eq_self] at hB
            exact hB
          have hS : S ++ page.uploads = P := by
            have := hseen.all
            rw [hnil, List.append_nil] at this
            exact this.symm
          refine ⟨by rw [hlast, ht]; rfl, ?_, hseen.aborts⟩
          have hlisted := hseen.listed
          rw [hS] at hlisted
          exact hlisted
        | true =>
          simp only [Bool.not_true, Bool.false_eq_true, if_false]
          obtain ⟨u, hu, hk, hi⟩ := hmarkers ht
          obtain ⟨A, hA⟩ := List.getLast?_eq_some_iff.1 hu
          refine listUploads_spec hP hid turns hseen (.inr ⟨S ++ A, u, by rw [hA, List.append_assoc], hk, hi⟩) ?_
          have hlen := congrArg List.length hB
          rw [hA] at hlen
          simp only [List.length_append, List.length_singleton] at hlen
          omega

/-- **An orderly run ends, and its success is complete**: with a bound above the number of uploads it never halts, and
where it reports success the last page has been read, and the uploads listed, and those an abort was attempted for if
any was asked, are the ones the filters let through, each once. -/
theorem leftovers_complete {turns : Nat} {clientGiven : Bool} {s : Service} (hs : s.Sorted place)
    (hturns : s.pending.length < turns) {q : LeftoversExec LeftoversResult} {s' : Service}
    (h : Steps (orderly place) (runLeftovers turns config now clientGiven, s) (q, s')) :
    q ≠ .halt ∧ ∀ r, q = .ret r → r.success = true → Complete config now s.pending r s' ∧ r.listed.Nodup := by
  have hlist : wp (orderly place) (fun _ => True) (fun _ => False) (listUploads config now turns [] [] {})
      (fun r' s' => r'.success = true → Complete config now s.pending r' s') s :=
    listUploads_spec hs.1 hs.2 turns ⟨rfl, ⟨[], .slnil, rfl⟩, rfl, by simp, rfl⟩ (.inl ⟨rfl, rfl, rfl⟩) hturns
  have hrun : wp (orderly place) (fun _ => True) (fun _ => False) (runLeftovers turns config now clientGiven)
      (fun r' s' => r'.success = true → Complete config now s.pending r' s') s := by
    unfold runLeftovers
    cases clientGiven with
    | true => exact hlist
    | false =>
      simp only [Bool.not_false, if_true, wp_bind, wp_req]
      refine ⟨trivial, fun c s₁ hx => ?_⟩
      obtain rfl : s₁ = s := hx.1
      cases c with
      | true => exact hlist
      | false => exact fun ht => by cases ht
  have hq := wp_steps h hrun
  refine ⟨by rintro rfl; exact hq, ?_⟩
  rintro r rfl hsuccess
  have hcomplete : Complete config now s.pending r s' := hq hsuccess
  have hnodup : s.pending.Nodup := hs.1.imp fun hlt heq => by rw [heq] at hlt; exact lt_irrefl _ hlt
  exact ⟨hcomplete, by rw [hcomplete.listed]; exact hnodup.filter _⟩

section TwoPages

/-- An upload of the key `k`, begun at `initiated`. -/
def pendingUpload (k : Char) (initiated : Int) : UploadInfo := ⟨[k], ['1'], initiated⟩

def byFirst (key _ : Str) : Nat := (key.headD 'a').toNat

/-- Uploads older than a second are aborted, at five seconds. -/
def abortOld : LeftoversConfig := { olderThan := 1, abortUploads := true }

def threeUploads : List UploadInfo := [pendingUpload 'a' 0, pendingUpload 'b' 5000000000, pendingUpload 'c' 0]

/-- The first page ends with the young upload, and the last upload's abort is refused. -/
theorem leftovers_complete_pages : ∃ r s',
    Steps (orderly byFirst) (runLeftovers 4 abortOld 5000000000 true, { pending := threeUploads }) (.ret r, s') ∧
      r.success = true ∧ r.aborts = [(pendingUpload 'a' 0, true), (pendingUpload 'c' 0, false)] ∧
      Complete abortOld 5000000000 threeUploads r s' ∧ r.listed.Nodup := by
  let rest : Service := { pending := [pendingUpload 'b' 5000000000, pendingUpload 'c' 0] }
  have hrun : Steps (orderly byFirst) (runLeftovers 4 abortOld 5000000000 true, { pending := threeUploads })
      (.ret { success := true, listed := [pendingUpload 'a' 0, pendingUpload 'c' 0],
              aborts := [(pendingUpload 'a' 0, true), (pendingUpload 'c' 0, false)] }, { rest with lastPageRead := true }) := by
    refine steps_answer false { pending := threeUploads } ⟨rfl, rfl⟩ ?_
    refine steps_answer (.ok ⟨[pendingUpload 'a' 0, pendingUpload 'b' 5000000000], true, ['b'], ['1']⟩)
      { pending := threeUploads } ⟨⟨⟨[pendingUpload 'c' 0], by decide⟩, nofun, rfl⟩, fun _ => ⟨_, rfl, rfl, rfl⟩⟩ ?_
    refine steps_answer (.ok true) rest ⟨.inr rfl, trivial⟩ ?_
    refine steps_answer false rest ⟨rfl, rfl⟩ ?_
    refine steps_answer (.ok { uploads := [pendingUpload 'c' 0] }) { rest with lastPageRead := true }
      ⟨⟨⟨[], by decide⟩, fun _ => by decide, rfl⟩, nofun⟩ ?_
    refine steps_answer (.ok false) _ ⟨.inl ⟨nofun, rfl⟩, trivial⟩ ?_
    exact .refl
  have hsorted : Service.Sorted byFirst { pending := threeUploads } := ⟨by decide, by decide⟩
  have h := (leftovers_complete hsorted (by decide) hrun).2 _ rfl rfl
  exact ⟨_, _, hrun, rfl, rfl, h⟩

end TwoPages

/-- **Markers that lead nowhere keep the loop going**: no bound is enough. -/
theorem listUploads_loops (keyMarker uploadIdMarker : Str) (r : LeftoversResult) : ∀ (turns : Nat) (s : Service),
    ∃ s', Steps (serve place) (listUploads config now turns keyMarker uploadIdMarker r, s) (.halt, s')
  | 0, s => ⟨s, .refl⟩
  | turns + 1, s => by
    obtain ⟨s', h⟩ := listUploads_loops keyMarker uploadIdMarker r turns { s with lastPageRead := false }
    refine ⟨s', ?_⟩
    refine steps_answer false s rfl ?_
    refine steps_answer (.ok ⟨[], true, keyMarker, uploadIdMarker⟩) { s with lastPageRead := false }
      ⟨List.nil_prefix, nofun, rfl⟩ ?_
    exact h

end Service

/-- A cancellation before the first page reports success over an upload that no page has shown. -/
theorem leftovers_hidden :
    ¬ ∀ (place : Str → Str → Nat) (config : LeftoversConfig) (now : Int) (clientGiven : Bool) (s : Service)
      (turns : Nat), s.Sorted place → s.pending.length < turns → ∀ (q : LeftoversExec LeftoversResult) (s' : Service),
      Steps (serve place) (runLeftovers turns config now clientGiven, s) (q, s') →
      q ≠ .halt ∧ ∀ r, q = .ret r → r.success = true → Complete config now s.pending r s' ∧ r.listed.Nodup := by
  intro h
  have hrun : Steps (serve fun _ _ => 0) (runLeftovers 2 {} 0 true, { pending := [⟨['k'], ['1'], 0⟩] })
      (.ret { success := true, errorMessage := cancelledText }, { pending := [⟨['k'], ['1'], 0⟩] }) :=
    steps_answer true { pending := [⟨['k'], ['1'], 0⟩] } rfl .refl
  have hsorted : Service.Sorted (fun _ _ => 0) { pending := [⟨['k'], ['1'], 0⟩] } :=
    ⟨List.pairwise_singleton _ _, fun u hu => by rw [List.mem_singleton.1 hu]; simp⟩
  have hcomplete := ((h _ _ _ _ _ _ hsorted (by decide) _ _ hrun).2 _ rfl rfl).1
  exact absurd hcomplete.lastPageRead (by decide)

end Mito
