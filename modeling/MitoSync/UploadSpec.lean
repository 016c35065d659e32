import MitoSync.Upload
/-!
# UploadSpec — what the object writers establish

Every executor here has a goal, the content it is to leave (`none` for a delete), and one spec in two parts.  Where it
runs, or is killed, the object is whole: what it was, or the goal (`Whole`).  Where it returns, success means the goal
and failure means that something was refused (`F`) and, unless failed requests may have been carried out, that the
object is what it was.
-/
namespace Mito

open Lib Prog

namespace Env

variable (E : Env)

/-- The destination is as a write of `goal` leaves it. -/
def hits (goal : Option Bytes) (e : Option Stored) : Prop :=
  match goal with
  | none => e = none
  | some b => ∃ t, E.stamp t ∧ e = some ⟨b, t⟩

/-- **Crash-whole**: the old entry or the complete new one. -/
def Whole (old : Option Stored) (goal : Option Bytes) (s : Slot) : Prop := s.entry = old ∨ E.hits goal s.entry

/-- A cancellation is seen only where the environment makes one. -/
def Calm (s : Slot) : Prop := s.seen = true → E.faulty

/-- What a request that is not acknowledged leaves of the destination. -/
def Spared (old : Option Stored) (goal : Option Bytes) (s : Slot) : Prop :=
  s.entry = old ∨ E.mode = .lenient ∧ E.hits goal s.entry

/-- What an executor without multipart uploads keeps until its request is acknowledged. -/
structure Pending (old : Option Stored) (U : List MultipartUpload → Prop) (goal : Option Bytes) (s : Slot) : Prop where
  entry : E.Spared old goal s
  uploads : U s.uploads
  calm : E.Calm s

/-- The outcome of such an executor. -/
def Settled (old : Option Stored) (U : List MultipartUpload → Prop) (goal : Option Bytes) (F : Prop) {α : Type} :
    Ans α → Slot → Prop
  | .ok _, s => E.hits goal s.entry ∧ U s.uploads ∧ E.Calm s
  | _, s => E.Pending old U goal s ∧ F

variable {E}

theorem Spared.whole {old : Option Stored} {goal : Option Bytes} {s : Slot} (h : E.Spared old goal s) :
    E.Whole old goal s := h.imp_right And.right

end Env

variable {E : Env} {I H : Slot → Prop} {old : Option Stored} {goal : Option Bytes}
  {U : List MultipartUpload → Prop}

theorem cancelled_cases {s s' : Slot} {r : Bool} (hs : E.Calm s) (h : exec E .cancelled s r s') :
    s' = { s with seen := r } ∧ (r = true → E.faulty) := by
  obtain ⟨-, hr, rfl⟩ := h
  exact ⟨rfl, fun h => (hr h).elim id hs⟩

/-- **The retry loop**: `J` holds before each attempt and `F` is what a failed attempt shows, so the loop fails only
where `F`. -/
theorem wp_retry {α : Type} {request : Exec (Ans α)} {J : Slot → Prop} {F : Prop} {Q : Ans α → Slot → Prop}
    (hI : ∀ s, J s → I s) (hF : E.faulty → F) (hcalm : ∀ s, J s → E.Calm s)
    (hseen : ∀ s b, J s → (b = true → E.faulty) → J { s with seen := b })
    (hreq : ∀ s, J s → wp (exec E) I H request (fun r s' => (r = .failed → J s' ∧ F) ∧ (r ≠ .failed → Q r s')) s)
    (hfail : F → ∀ s, J s → Q .failed s) :
    ∀ n s, J s → (0 < n ∨ F) → wp (exec E) I H (retry request n) Q s
  | 0, s, hs, hn => by
    rw [retry, pure_eq, wp_ret]
    exact hfail (hn.resolve_left (Nat.lt_irrefl 0)) s hs
  | n + 1, s, hs, _ => by
    rw [retry, wp_bind, wp_req]
    refine ⟨hI s hs, fun r s' hr => ?_⟩
    obtain ⟨rfl, hrF⟩ := cancelled_cases (hcalm s hs) hr
    have hs' := hseen s r hs hrF
    cases r with
    | true => exact hfail (hF (hrF rfl)) _ hs'
    | false =>
      simp only [Bool.false_eq_true, if_false, wp_bind]
      refine wp_mono (fun a s'' ha => ?_) (hreq _ hs')
      cases a with
      | ok a => exact ha.2 (by simp)
      | threw => exact ha.2 (by simp)
      | failed => exact wp_retry hI hF hcalm hseen hreq hfail n s'' (ha.1 rfl).1 (.inr (ha.1 rfl).2)

/-! ## One request -/

/-- **A retried request settles as one attempt does.** -/
theorem wp_retry_settled {α : Type} {request : Exec (Ans α)} {F : Prop} (hF : E.faulty → F)
    (hreq : ∀ s, E.Pending old U goal s →
      wp (exec E) (E.Whole old goal) H request (E.Settled old U goal F) s)
    {n : Nat} (hn : 0 < n) {s : Slot} (hs : E.Pending old U goal s) :
    wp (exec E) (E.Whole old goal) H (retry request n) (E.Settled old U goal F) s := by
  refine wp_retry (J := E.Pending old U goal) (F := F) (fun s h => h.entry.whole) hF (fun s h => h.calm)
    (fun s b h hb => ⟨h.entry, h.uploads, hb⟩) (fun s h => wp_mono (fun r s' hr => ?_) (hreq s h))
    (fun hF s h => ⟨h, hF⟩) n s hs (.inl hn)
  exact ⟨fun hf => by subst hf; exact hr, fun _ => hr⟩

/-- A request whose effect is to make the destination the goal. -/
theorem request_settled {α : Type} {can : Prop} {done : α → Slot → Prop} {s s' : Slot} {r : Ans α}
    (hs : E.Pending old U goal s) (hdone : ∀ a s', done a s' → ∃ e, E.hits goal e ∧ s' = { s with entry := e })
    (h : E.request can s done r s') : E.Settled old U goal (E.faulty ∨ ¬ can) r s' := by
  have hun : (s' = s ∨ E.mode = .lenient ∧ can ∧ ∃ a, done a s') → E.Pending old U goal s' := by
    rintro (rfl | ⟨hm, -, a, ha⟩)
    · exact hs
    · obtain ⟨e, he, rfl⟩ := hdone a s' ha
      exact ⟨.inr ⟨hm, he⟩, hs.uploads, hs.calm⟩
  cases r with
  | ok a =>
    obtain ⟨e, he, rfl⟩ := hdone a s' h.2
    exact ⟨he, hs.uploads, hs.calm⟩
  | failed => exact ⟨hun h.2, h.1⟩
  | threw => exact ⟨hun h.2, .inl h.1⟩

theorem writes_hits {s s' : Slot} {b : Bytes} (h : E.writes s b s') :
    ∃ e, E.hits (some b) e ∧ s' = { s with entry := e } := by
  obtain ⟨t, ht, rfl⟩ := h
  exact ⟨_, ⟨t, ht, rfl⟩, rfl⟩

/-- **`upload_from_data` puts its data or, refused, nothing.** -/
theorem uploadFromData_spec {data : Bytes} {s : Slot} (hs : E.Pending old U (some data) s) :
    wp (exec E) (E.Whole old (some data)) H (uploadFromData data)
      (E.Settled old U (some data) (E.faulty ∨ ¬ data.length ≤ kMaxSinglePutBytes)) s := by
  refine wp_retry_settled .inl (fun s hs => ?_) (Nat.succ_pos _) hs
  exact ⟨hs.entry.whole, fun r s' h => request_settled hs (fun _ _ => writes_hits) h⟩

theorem putObjectFromFile_spec {s : Slot} (hs : E.Pending old U (some E.source) s) :
    wp (exec E) (E.Whole old (some E.source)) H putObjectFromFile
      (E.Settled old U (some E.source) (E.faulty ∨ ¬ E.source.length ≤ kMaxSinglePutBytes)) s := by
  rw [putObjectFromFile, wp_bind, wp_req]
  refine ⟨hs.entry.whole, fun r s' h => ?_⟩
  cases r with
  | failed =>
    obtain ⟨hF, rfl⟩ := h
    exact ⟨hs, .inl (hF.resolve_right (by simp))⟩
  | threw =>
    obtain ⟨hF, rfl⟩ := h
    exact ⟨hs, .inl hF⟩
  | ok n =>
    obtain ⟨hn, rfl⟩ := h
    cases hn
    by_cases hlim : E.source.length > kMaxSinglePutBytes
    · simp only [hlim, if_true]
      exact ⟨hs, .inr (by omega)⟩
    · simp only [hlim, if_false, wp_bind, wp_req]
      refine ⟨hs.entry.whole, fun r s' h => ?_⟩
      have := request_settled hs (fun _ _ => writes_hits) h
      cases r <;> exact this

/-- **`upload_small_file` puts the source or, refused, nothing.** -/
theorem uploadSmallFile_spec {s : Slot} (hs : E.Pending old U (some E.source) s) :
    wp (exec E) (E.Whole old (some E.source)) H uploadSmallFile
      (E.Settled old U (some E.source) (E.faulty ∨ ¬ E.source.length ≤ kMaxSinglePutBytes)) s :=
  wp_retry_settled .inl (fun _ hs => putObjectFromFile_spec hs) (Nat.succ_pos _) hs

/-- **`delete_s3_object` removes the object or, refused, nothing.** -/
theorem deleteS3Object_spec {s : Slot} (hs : E.Pending old U none s) :
    wp (exec E) (E.Whole old none) H deleteS3Object (E.Settled old U none E.faulty) s := by
  refine wp_retry_settled id (fun s hs => ?_) (Nat.succ_pos _) hs
  refine ⟨hs.entry.whole, fun r s' h => ?_⟩
  have := request_settled hs (fun _ s' (h : s' = { s with entry := none }) => ⟨none, rfl, h⟩) h
  cases r with
  | ok a => exact this
  | failed => exact ⟨this.1, this.2.resolve_right (by simp)⟩
  | threw => exact ⟨this.1, this.2.resolve_right (by simp)⟩

/-! ## Multipart uploads -/

/-- While its parts are sent, the upload is the last one, live, and the object is as it was at the create. -/
structure Env.Sending (E : Env) (e : Option Stored) (W : List MultipartUpload) (P : List (Nat × Bytes)) (s : Slot) :
    Prop where
  entry : s.entry = e
  uploads : s.uploads = W ++ [{ parts := P }]
  calm : E.Calm s

/-- The outcome of a part: more parts are stored, and an ETag names the one with the number and bytes asked for. -/
def Env.PartSent (E : Env) (e : Option Stored) (W : List MultipartUpload) (P : List (Nat × Bytes)) (F : Prop)
    (q : Nat × Bytes) (r : Ans Nat) (s : Slot) : Prop :=
  ∃ X, E.Sending e W (P ++ X) s ∧
    match r with
    | .ok etag => (P ++ X)[etag]? = some q
    | _ => F

variable {e : Option Stored} {W : List MultipartUpload} {P : List (Nat × Bytes)}

theorem Env.Sending.get {s : Slot} (h : E.Sending e W P s) : s.uploads[W.length]? = some { parts := P } := by
  rw [h.uploads, List.getElem?_append_right (Nat.le_refl _), Nat.sub_self]
  rfl

theorem modify_concat {α : Type} (f : α → α) (x : α) : ∀ l : List α, (l ++ [x]).modify l.length f = l ++ [f x]
  | [] => rfl
  | y :: l => by rw [List.cons_append, List.length_cons, List.modify_succ_cons, modify_concat f x l, List.cons_append]

theorem Env.Sending.modify {s : Slot} (h : E.Sending e W P s) (f : MultipartUpload → MultipartUpload) :
    s.uploads.modify W.length f = W ++ [f { parts := P }] := by
  rw [h.uploads, modify_concat]

theorem Env.Sending.push {s : Slot} (h : E.Sending e W P s) (q : Nat × Bytes) :
    E.Sending e W (P ++ [q]) (s.modifyUpload W.length (fun u => { u with parts := u.parts ++ [q] })) :=
  ⟨h.entry, h.modify _, h.calm⟩

theorem addPart_sent {s s' : Slot} {n : Nat} {b : Option Bytes} {d : Bytes} {F : Prop} {r : Ans Nat}
    (hs : E.Sending e W P s) (hb : ∀ d', b = some d' → d' = d) (hF : E.faulty → F)
    (hcan : b = some d ∧ d.length ≤ kMaxSinglePutBytes ∧ 1 ≤ n ∧ n ≤ kMaxMultipartParts ∨ F)
    (h : E.addPart s W.length n b r s') : E.PartSent e W P F (n, d) r s' := by
  have hdone : ∀ a, (∃ u d', s.uploads[W.length]? = some u ∧ b = some d' ∧ a = u.parts.length ∧
      s' = s.modifyUpload W.length (fun u => { u with parts := u.parts ++ [(n, d')] })) →
      a = P.length ∧ E.Sending e W (P ++ [(n, d)]) s' := by
    rintro a ⟨u, d', hu, hd, ha, rfl⟩
    rw [hs.get] at hu
    cases hu
    obtain rfl := hb d' hd
    exact ⟨ha, hs.push _⟩
  cases r with
  | ok a =>
    obtain ⟨rfl, hsend⟩ := hdone a h.2
    exact ⟨_, hsend, by simp⟩
  | threw =>
    rcases h.2 with rfl | ⟨-, -, a, ha⟩
    · exact ⟨[], by rwa [List.append_nil], hF h.1⟩
    · exact ⟨_, (hdone a ha).2, hF h.1⟩
  | failed =>
    have hf : F := by
      rcases h.1 with hf | hc
      · exact hF hf
      · exact hcan.resolve_left (fun hok => hc ⟨_, d, hs.get, ⟨rfl, rfl⟩, hok⟩)
    rcases h.2 with rfl | ⟨-, -, a, ha⟩
    · exact ⟨[], by rwa [List.append_nil], hf⟩
    · exact ⟨_, (hdone a ha).2, hf⟩

theorem wp_part {request : Exec (Ans Nat)} {F : Prop} {q : Nat × Bytes} (hI : ∀ P s, E.Sending e W P s → I s)
    (hF : E.faulty → F)
    (hreq : ∀ P s, E.Sending e W P s → wp (exec E) I H request (E.PartSent e W P F q) s) {n : Nat} (hn : 0 < n)
    {s : Slot} (hs : E.Sending e W P s) : wp (exec E) I H (retry request n) (E.PartSent e W P F q) s := by
  refine wp_retry (J := fun s => ∃ X, E.Sending e W (P ++ X) s) (F := F) (fun s ⟨X, h⟩ => hI _ s h) hF
    (fun s ⟨X, h⟩ => h.calm) (fun s b ⟨X, h⟩ hb => ⟨X, h.entry, h.uploads, hb⟩) (fun s ⟨X, h⟩ => ?_)
    (fun hF s ⟨X, h⟩ => ⟨X, h, hF⟩) n s ⟨[], by rwa [List.append_nil]⟩ (.inl hn)
  refine wp_mono (fun r s' hr => ?_) (hreq _ s h)
  obtain ⟨Y, hY, hm⟩ := hr
  rw [List.append_assoc] at hY hm
  exact ⟨fun hf => ⟨⟨X ++ Y, hY⟩, by subst hf; exact hm⟩, fun _ => ⟨X ++ Y, hY, hm⟩⟩

/-- The outcome of the parts loop: its ETags name parts with the bytes asked for, in order. -/
def Env.PartsSent (E : Env) (e : Option Stored) (W : List MultipartUpload) (P : List (Nat × Bytes)) (F : Prop)
    (bytes : Nat → Bytes) (i n : Nat) (r : Option (List (Nat × Nat))) (s : Slot) : Prop :=
  ∃ X, E.Sending e W (P ++ X) s ∧
    match r with
    | some ps => ps.map Prod.fst = (List.range' i n).map (· + 1) ∧
        MultipartUpload.pick { parts := P ++ X } ps = some ((List.range' i n).map bytes)
    | none => F

theorem pick_mono {P X : List (Nat × Bytes)} : ∀ {ps : List (Nat × Nat)} {bs : List Bytes},
    MultipartUpload.pick { parts := P } ps = some bs → MultipartUpload.pick { parts := P ++ X } ps = some bs
  | [], bs, h => h
  | p :: ps, bs, h => by
    unfold MultipartUpload.pick at h ⊢
    rw [List.mapM_cons] at h ⊢
    obtain ⟨b, hb, h⟩ := Option.bind_eq_some_iff.1 h
    obtain ⟨bs', hbs, h⟩ := Option.bind_eq_some_iff.1 h
    have hb' : MultipartUpload.part? { parts := P ++ X } p = some b := by
      unfold MultipartUpload.part? at hb ⊢
      obtain ⟨q, hq, hb⟩ := Option.bind_eq_some_iff.1 hb
      have hlt := (List.getElem?_eq_some_iff.1 hq).1
      exact Option.bind_eq_some_iff.2 ⟨q, by rw [List.getElem?_append_left hlt, hq], hb⟩
    exact Option.bind_eq_some_iff.2 ⟨b, hb', Option.bind_eq_some_iff.2 ⟨bs', pick_mono hbs, h⟩⟩

theorem pick_cons {P : List (Nat × Bytes)} {n etag : Nat} {b : Bytes} {ps : List (Nat × Nat)} {bs : List Bytes}
    (hb : P[etag]? = some (n, b)) (h : MultipartUpload.pick { parts := P } ps = some bs) :
    MultipartUpload.pick { parts := P } ((n, etag) :: ps) = some (b :: bs) := by
  unfold MultipartUpload.pick at h ⊢
  rw [List.mapM_cons, h]
  simp [MultipartUpload.part?, hb]

/-- **The parts loop**, from the spec of one part. -/
theorem wp_sendParts {part : Nat → Exec (Ans Nat)} {bytes : Nat → Bytes} {F : Prop} :
    ∀ (n i : Nat) {P : List (Nat × Bytes)} {s : Slot},
      (∀ j P s, i ≤ j → j < i + n → E.Sending e W P s →
        wp (exec E) I H (part j) (E.PartSent e W P F (j + 1, bytes j)) s) →
      E.Sending e W P s → wp (exec E) I H (sendParts part i n) (E.PartsSent e W P F bytes i n) s
  | 0, i, P, s, _, hs => ⟨[], by rwa [List.append_nil], rfl, rfl⟩
  | n + 1, i, P, s, hpart, hs => by
    rw [sendParts, wp_bind]
    refine wp_mono (fun r s' hr => ?_) (hpart i P s (Nat.le_refl _) (by omega) hs)
    obtain ⟨X, hX, hm⟩ := hr
    cases r with
    | failed => exact ⟨X, hX, hm⟩
    | threw => exact ⟨X, hX, hm⟩
    | ok etag =>
      simp only [wp_bind]
      refine wp_mono (fun r s'' hr => ?_)
        (wp_sendParts n (i + 1) (fun j P s h₁ h₂ => hpart j P s (by omega) (by omega)) hX)
      obtain ⟨Y, hY, hps⟩ := hr
      rw [List.append_assoc] at hY hps
      cases r with
      | none => exact ⟨X ++ Y, hY, hps⟩
      | some ps =>
        refine ⟨X ++ Y, hY, ?_, ?_⟩
        · rw [List.map_cons, hps.1]
          rfl
        · refine pick_cons ?_ hps.2
          rw [← List.append_assoc, List.getElem?_append_left (List.getElem?_eq_some_iff.1 hm).1, hm]

/-- The outcome of a multipart upload: completed with the goal, or given an abort call and, with requests that do what
they report, never completed. -/
def Env.Finished (E : Env) (e : Option Stored) (W : List MultipartUpload) (b : Bytes) (F : Prop) (r : Bool) (s : Slot) :
    Prop :=
  E.Calm s ∧
    if r then E.hits (some b) s.entry
    else F ∧ E.Spared e (some b) s ∧
      (E.mode ≠ .lenient → ∃ u, s.uploads = W ++ [u] ∧ u.completed = false ∧ u.abortCalled = true)

/-- What the parts loop hands to the completion. -/
def Env.Ready (P : List (Nat × Bytes)) (b : Bytes) (F : Prop) : Option (List (Nat × Nat)) → Prop
  | some ps => ∃ bs, MultipartUpload.pick { parts := P } ps = some bs ∧ bs.flatten = b ∧ (completable ps bs ∨ F)
  | none => F

theorem abort_finished {s s' : Slot} {b : Bytes} {F : Prop} {r : Bool} (hF : F) (hc : E.Calm s)
    (he : E.Spared e (some b) s) (hu : E.mode ≠ .lenient → s.uploads = W ++ [{ parts := P }])
    (h : exec E (.abortMultipartUpload W.length) s r s') : E.Finished e W b F false s' := by
  obtain ⟨-, rfl⟩ := h
  refine ⟨hc, hF, he, fun hm => ⟨{ parts := P, abortCalled := true, aborted := r }, ?_, rfl, rfl⟩⟩
  show s.uploads.modify W.length _ = _
  rw [hu hm, modify_concat, Bool.false_or]

/-- **A multipart upload is completed or aborted**, and the object appears with the completion only. -/
theorem wp_completeOrAbort {b : Bytes} {F : Prop} (hI : ∀ s, E.Whole e (some b) s → I s) (hF : E.faulty → F)
    {parts : Option (List (Nat × Nat))} (hp : Env.Ready P b F parts) {s : Slot} (hs : E.Sending e W P s) :
    wp (exec E) I H (completeOrAbort W.length parts) (E.Finished e W b F) s := by
  cases parts with
  | none =>
    rw [completeOrAbort, wp_bind, wp_req]
    exact ⟨hI s (.inl hs.entry), fun r s' h => abort_finished hp hs.calm (.inl hs.entry) (fun _ => hs.uploads) h⟩
  | some ps =>
    obtain ⟨bs, hpick, rfl, hok⟩ := hp
    rw [completeOrAbort, wp_bind, wp_req]
    refine ⟨hI s (.inl hs.entry), fun r s' h => ?_⟩
    have hdone : ∀ {u : Unit}, (∃ u bs', s.uploads[W.length]? = some u ∧ u.pick ps = some bs' ∧
        E.writes (s.modifyUpload W.length (fun u => { u with completed := true })) bs'.flatten s') →
        E.hits (some bs.flatten) s'.entry ∧ E.Calm s' := by
      rintro - ⟨u, bs', hu, hb, t, ht, rfl⟩
      rw [hs.get] at hu
      cases hu
      rw [hpick] at hb
      cases hb
      exact ⟨⟨t, ht, rfl⟩, hs.calm⟩
    have habort : ∀ {can : Prop}, F → (s' = s ∨ E.mode = .lenient ∧ can ∧ ∃ _ : Unit, ∃ u bs',
        s.uploads[W.length]? = some u ∧ u.pick ps = some bs' ∧
          E.writes (s.modifyUpload W.length (fun u => { u with completed := true })) bs'.flatten s') →
        I s' ∧ ∀ r s'', exec E (.abortMultipartUpload W.length) s' r s'' →
          E.Finished e W bs.flatten F false s'' := by
      rintro can hf (rfl | ⟨hm, -, u, hw⟩)
      · exact ⟨hI _ (.inl hs.entry),
          fun r s'' h => abort_finished hf hs.calm (.inl hs.entry) (fun _ => hs.uploads) h⟩
      · obtain ⟨hh, hc⟩ := hdone (u := u) hw
        exact ⟨hI _ (.inr hh), fun r s'' h => abort_finished (P := P) hf hc (.inr ⟨hm, hh⟩) (fun h => absurd hm h) h⟩
    cases r with
    | ok a =>
      obtain ⟨hh, hc⟩ := hdone (u := a) h.2
      exact ⟨hc, hh⟩
    | threw =>
      simp only [wp_bind, wp_req]
      exact habort (hF h.1) h.2
    | failed =>
      have hf : F := by
        rcases h.1 with hf | hc
        · exact hF hf
        · exact hok.resolve_left (fun hok => hc ⟨_, bs, hs.get, ⟨rfl, rfl⟩, hpick, hok⟩)
      simp only [wp_bind, wp_req]
      exact habort hf h.2

/-! ## Parts that are chunks -/

theorem rangeOf_chunk {k i : Nat} {c : Bytes} (hk : 0 < k) (h : i * k < c.length) :
    rangeOf (some c) (i * k) (min (i * k + k) c.length - 1) = some (chunk k c i) := by
  have hlen : min (i * k + k) c.length - 1 - i * k + 1 = chunkLen k c.length i := by
    unfold chunkLen
    omega
  unfold rangeOf
  rw [Option.bind_some, if_pos (by omega), hlen]
  rfl

/-- Parts numbered from 1 may be completed where each but the last is long enough. -/
theorem completable_parts {n : Nat} {bytes : Nat → Bytes} {ps : List (Nat × Nat)} (hn : 0 < n)
    (hlen : ∀ i, i + 1 < n → minPartBytes ≤ (bytes i).length)
    (hps : ps.map Prod.fst = (List.range' 0 n).map (· + 1)) : completable ps ((List.range' 0 n).map bytes) := by
  refine ⟨?_, ?_, fun b hb => ?_⟩
  · rintro rfl
    have := congrArg List.length hps
    simp only [List.map_nil, List.length_nil, List.length_map, List.length_range'] at this
    omega
  · rw [hps, List.pairwise_map]
    exact (List.pairwise_lt_range').imp (fun h => Nat.succ_lt_succ h)
  · rw [← List.map_dropLast] at hb
    obtain ⟨i, hi, rfl⟩ := List.mem_map.1 hb
    obtain ⟨m, rfl⟩ := Nat.exists_eq_succ_of_ne_zero (Nat.ne_of_gt hn)
    rw [List.range'_1_concat, List.dropLast_concat, List.mem_range'_1] at hi
    exact hlen i (by omega)

/-- **From the parts to the object**: parts that may be completed are completed to what they make, or aborted. -/
theorem wp_parts {n : Nat} {bytes : Nat → Bytes} {F : Prop} {part : Nat → Exec (Ans Nat)} (hn : 0 < n)
    (hlen : ∀ i, i + 1 < n → minPartBytes ≤ (bytes i).length)
    (hI : ∀ s, E.Whole e (some ((List.range' 0 n).map bytes).flatten) s → I s) (hF : E.faulty → F)
    (hpart : ∀ j P s, j < n → E.Sending e W P s →
      wp (exec E) I H (part j) (E.PartSent e W P F (j + 1, bytes j)) s) {s : Slot} (hs : E.Sending e W P s) :
    wp (exec E) I H (sendParts part 0 n >>= completeOrAbort W.length)
      (E.Finished e W ((List.range' 0 n).map bytes).flatten F) s := by
  rw [wp_bind]
  refine wp_mono (fun r s' hr => ?_) (wp_sendParts n 0 (fun j P s _ h => hpart j P s (by omega)) hs)
  obtain ⟨X, hX, hr⟩ := hr
  refine wp_completeOrAbort hI hF ?_ hX
  cases r with
  | none => exact hr
  | some ps => exact ⟨_, hr.2, rfl, .inl (completable_parts hn hlen hr.1)⟩

/-- **The parts of the chunks of a content make that content.** -/
theorem wp_multipart {k : Nat} {c : Bytes} {F : Prop} {part : Nat → Exec (Ans Nat)} (hk : minPartBytes ≤ k)
    (hc : c ≠ []) (hI : ∀ s, E.Whole e (some c) s → I s) (hF : E.faulty → F)
    (hpart : ∀ j P s, j < numChunks k c.length → E.Sending e W P s →
      wp (exec E) I H (part j) (E.PartSent e W P F (j + 1, chunk k c j)) s) {s : Slot} (hs : E.Sending e W P s) :
    wp (exec E) I H (sendParts part 0 (numChunks k c.length) >>= completeOrAbort W.length)
      (E.Finished e W c F) s := by
  have hk0 : 0 < k := by
    unfold minPartBytes at hk
    omega
  have hmake : ((List.range' 0 (numChunks k c.length)).map (chunk k c)).flatten = c := by
    have : (List.range' 0 (numChunks k c.length)).map (chunk k c) = chunks k c := by
      unfold chunks
      rw [List.range_eq_range']
    rw [this, flatten_chunks hk0]
  have hlen : ∀ i, i + 1 < numChunks k c.length → minPartBytes ≤ (chunk k c i).length := by
    intro i hi
    have hend := (lt_numChunks hk0).1 hi
    rw [Nat.add_mul, Nat.one_mul] at hend
    rw [length_chunk (by omega)]
    unfold chunkLen
    omega
  have h := wp_parts (numChunks_pos hk0 (List.length_pos_iff.2 hc)) hlen (by rw [hmake]; exact hI) hF hpart hs
  rwa [hmake] at h

/-- Creating an upload begins a multipart upload or leaves the object alone. -/
theorem create_cases {s s' : Slot} {r : Ans Nat} (hc : E.Calm s) (h : exec E .createMultipartUpload s r s') :
    s'.entry = s.entry ∧ E.Calm s' ∧
      match r with
      | .ok id => id = s.uploads.length ∧ E.Sending s.entry s.uploads [] s'
      | _ => E.faulty ∧ (E.mode ≠ .lenient → s' = s) := by
  have hun : (s' = s ∨ E.mode = .lenient ∧ True ∧ ∃ id, id = s.uploads.length ∧
      s' = { s with uploads := s.uploads ++ [{}] }) →
      s'.entry = s.entry ∧ E.Calm s' ∧ (E.mode ≠ .lenient → s' = s) := by
    rintro (rfl | ⟨hm, -, id, -, rfl⟩)
    · exact ⟨rfl, hc, fun _ => rfl⟩
    · exact ⟨rfl, hc, fun h => absurd hm h⟩
  cases r with
  | ok id =>
    obtain ⟨-, rfl, rfl⟩ := h
    exact ⟨rfl, hc, rfl, rfl, rfl, hc⟩
  | failed =>
    obtain ⟨h₁, h₂, h₃⟩ := hun h.2
    exact ⟨h₁, h₂, h.1.resolve_right (by simp), h₃⟩
  | threw =>
    obtain ⟨h₁, h₂, h₃⟩ := hun h.2
    exact ⟨h₁, h₂, h.1, h₃⟩

/-! ## Server-side copy -/

/-- What a failed copy shows: a fault, or more parts than S3 takes. -/
def Env.CopyRefused (E : Env) : Prop := E.faulty ∨ kMaxMultipartParts < numChunks multipartPartSize E.source.length

theorem chunkLen_le_limit {k n i : Nat} (hk : k ≤ kMaxSinglePutBytes) : chunkLen k n i ≤ kMaxSinglePutBytes :=
  Nat.le_trans (chunkLen_le k n i) hk

theorem copyPart_spec {clientRetries j : Nat} (hI : ∀ P s, E.Sending e W P s → I s)
    (hj : j < numChunks multipartPartSize E.source.length) {s : Slot} (hs : E.Sending e W P s) :
    wp (exec E) I H (copyPart clientRetries W.length E.source.length multipartPartSize j)
      (E.PartSent e W P E.CopyRefused (j + 1, chunk multipartPartSize E.source j)) s := by
  have hk : 0 < multipartPartSize := by
    unfold multipartPartSize
    omega
  have hjl : j * multipartPartSize < E.source.length := (lt_numChunks hk).1 hj
  have hend : min (j * multipartPartSize + multipartPartSize - 1) (E.source.length - 1) =
      min (j * multipartPartSize + multipartPartSize) E.source.length - 1 := by omega
  rw [copyPart, wp_bind, wp_req]
  refine ⟨hI P s hs, fun r s' hr => ?_⟩
  obtain ⟨rfl, hrF⟩ := cancelled_cases hs.calm hr
  have hs' : E.Sending e W P { s with seen := r } := ⟨hs.entry, hs.uploads, hrF⟩
  cases r with
  | true => exact ⟨[], by rwa [List.append_nil], .inl (hrF rfl)⟩
  | false =>
    simp only [Bool.false_eq_true, if_false]
    refine wp_part hI .inl (fun P s hs => ?_) (Nat.succ_pos _) hs'
    refine ⟨hI P s hs, fun r s' h => ?_⟩
    refine addPart_sent hs (d := chunk multipartPartSize E.source j) (fun d' hd' => ?_) .inl ?_ h
    · rw [hend, rangeOf_chunk hk hjl] at hd'
      exact (Option.some.inj hd').symm
    · by_cases hmax : numChunks multipartPartSize E.source.length ≤ kMaxMultipartParts
      · refine .inl ⟨by rw [hend, rangeOf_chunk hk hjl], ?_, by omega, by omega⟩
        rw [length_chunk hjl]
        exact chunkLen_le_limit (by unfold multipartPartSize kMaxSinglePutBytes; omega)
      · exact .inr (.inr (by omega))

theorem copyObjectMultipart_spec {clientRetries : Nat} (hne : E.source ≠ []) {s : Slot}
    (hs : E.Pending old (fun _ => True) (some E.source) s) :
    wp (exec E) (E.Whole old (some E.source)) H
      (copyObjectMultipart clientRetries E.source.length multipartPartSize)
      (E.Settled old (fun _ => True) (some E.source) E.CopyRefused) s := by
  have hspare : ∀ s', E.Whole s.entry (some E.source) s' → E.Whole old (some E.source) s' := by
    rintro s' (h | h)
    · rcases hs.entry with h' | h'
      · exact .inl (h.trans h')
      · exact .inr (by rw [h]; exact h'.2)
    · exact .inr h
  rw [copyObjectMultipart, wp_bind, wp_req]
  refine ⟨hs.entry.whole, fun r s' h => ?_⟩
  obtain ⟨he, hc, hr⟩ := create_cases hs.calm h
  have hun : E.Pending old (fun _ => True) (some E.source) s' := by
    refine ⟨?_, trivial, hc⟩
    unfold Env.Spared
    rw [he]
    exact hs.entry
  cases r with
  | failed => exact ⟨hun, .inl hr.1⟩
  | threw => exact ⟨hun, .inl hr.1⟩
  | ok id =>
    obtain ⟨rfl, hsend⟩ := hr
    have hpart : ∀ j P s₁, j < numChunks multipartPartSize E.source.length →
        E.Sending s.entry s.uploads P s₁ → wp (exec E) (E.Whole old (some E.source)) H
          (copyPart clientRetries s.uploads.length E.source.length multipartPartSize j)
          (E.PartSent s.entry s.uploads P E.CopyRefused (j + 1, chunk multipartPartSize E.source j)) s₁ :=
      fun j P s₁ hj hs₁ => copyPart_spec (fun P s₁ hs₁ => hspare s₁ (.inl hs₁.entry)) hj hs₁
    have hm := wp_multipart (by unfold minPartBytes multipartPartSize; omega) hne hspare .inl hpart hsend
    simp only [wp_bind] at hm ⊢
    refine wp_mono (fun parts s₁ h₁ => wp_mono (fun b s₂ h₂ => ?_) h₁) hm
    obtain ⟨hc, hb⟩ := h₂
    cases b with
    | true => exact ⟨hb, trivial, hc⟩
    | false =>
      obtain ⟨hF, hsp, -⟩ := hb
      refine ⟨⟨?_, trivial, hc⟩, hF⟩
      rcases hsp with h | h
      · rcases hs.entry with h' | h'
        · exact .inl (h.trans h')
        · exact .inr ⟨h'.1, by rw [h]; exact h'.2⟩
      · exact .inr h

/-- **`copy_s3_object` leaves the source's bytes or, refused, what was there.** -/
theorem copyS3Object_spec {clientRetries : Nat} {s : Slot}
    (hs : E.Pending old (fun _ => True) (some E.source) s) :
    wp (exec E) (E.Whole old (some E.source)) H (copyS3Object clientRetries E.source.length)
      (E.Settled old (fun _ => True) (some E.source) E.CopyRefused) s := by
  refine wp_retry_settled .inl (fun s hs => ?_) (Nat.succ_pos _) hs
  rw [copyObject, wp_bind, wp_req]
  refine ⟨hs.entry.whole, fun r s' hr => ?_⟩
  obtain ⟨rfl, hrF⟩ := cancelled_cases hs.calm hr
  have hs' : E.Pending old (fun _ => True) (some E.source) { s with seen := r } := ⟨hs.entry, trivial, hrF⟩
  cases r with
  | true => exact ⟨hs', .inl (hrF rfl)⟩
  | false =>
    simp only [Bool.false_eq_true, if_false]
    by_cases hlim : E.source.length ≤ kMaxSinglePutBytes
    · simp only [hlim, if_true]
      refine ⟨hs'.entry.whole, fun r s' h => ?_⟩
      have := request_settled hs' (fun _ _ => writes_hits) h
      cases r with
      | ok a => exact this
      | failed => exact ⟨this.1, .inl (this.2.resolve_right (fun h => h hlim))⟩
      | threw => exact ⟨this.1, .inl (this.2.resolve_right (fun h => h hlim))⟩
    · simp only [hlim, if_false]
      refine copyObjectMultipart_spec (fun h => ?_) hs'
      rw [h] at hlim
      exact hlim (Nat.zero_le _)

end Mito
