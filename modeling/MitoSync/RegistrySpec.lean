import MitoSync.Registry
import MitoSync.DiffRequests
/-!
# RegistrySpec — no multipart upload is forgotten

Of an upload only its flags matter here (`fates`), and only three requests change them.  While an upload is registered
anything may happen to it, and it is let go of once it has ended (`Guarded`), so the checksum fetch and the server-side
copy forget none.  A differential upload has one exit for each of its uploads (`DiffUploaded`), and forgets it where the
abort is refused.
-/
namespace Mito

open Lib Prog

/-! ## What a request does to the uploads -/

/-- The flags of an upload: completed, given an abort call, aborted. -/
def MultipartUpload.fate (u : MultipartUpload) : Bool × Bool × Bool := (u.completed, u.abortCalled, u.aborted)

def Slot.fates (s : Slot) : List (Bool × Bool × Bool) := s.uploads.map MultipartUpload.fate

@[simp] theorem length_fates (s : Slot) : s.fates.length = s.uploads.length := List.length_map _

theorem fates_modifyUpload {s : Slot} {id : Nat} {f : MultipartUpload → MultipartUpload}
    {g : Bool × Bool × Bool → Bool × Bool × Bool} (h : ∀ u, (f u).fate = g u.fate) :
    (s.modifyUpload id f).fates = s.fates.modify id g := by
  unfold Slot.fates Slot.modifyUpload
  ext1 j
  rw [List.getElem?_map, List.getElem?_modify, List.getElem?_modify, List.getElem?_map]
  cases s.uploads[j]? with
  | none => rfl
  | some u => by_cases hj : id = j <;> simp [hj, h]

variable {E : Env}

/-- The requests that neither begin nor end an upload. -/
def Call.quiet : Call → Prop
  | .createMultipartUpload | .completeMultipartUpload _ _ | .abortMultipartUpload _ => False
  | _ => True

theorem lookup_fates {α : Type} {value : Option α} {s s' : Slot} {r : Ans α} (h : E.lookup s value r s') :
    s'.fates = s.fates := by
  cases r with
  | ok a => rw [h.2]
  | failed => rw [h.2]
  | threw => rw [h.2]

theorem syscall_fates {can : Prop} {done : Slot → Prop} {s s' : Slot} {r : Bool}
    (h : E.syscall can s done r s') (hdone : ∀ s', done s' → s'.fates = s.fates) : s'.fates = s.fates := by
  cases r with
  | true => exact hdone s' h.2
  | false => rw [h.2]

theorem request_fates {α : Type} {can : Prop} {done : α → Slot → Prop} {s s' : Slot} {r : Ans α}
    (h : E.request can s done r s') (hdone : ∀ a s', done a s' → s'.fates = s.fates) : s'.fates = s.fates := by
  have hun : (s' = s ∨ E.mode = .lenient ∧ can ∧ ∃ a, done a s') → s'.fates = s.fates := by
    rintro (rfl | ⟨-, -, a, ha⟩)
    · rfl
    · exact hdone a s' ha
  cases r with
  | ok a => exact hdone a s' h.2
  | failed => exact hun h.2
  | threw => exact hun h.2

theorem addPart_fates {s s' : Slot} {id n : Nat} {b : Option Bytes} {r : Ans Nat} (h : E.addPart s id n b r s') :
    s'.fates = s.fates := by
  refine request_fates h ?_
  rintro e s' ⟨u, d, -, -, -, rfl⟩
  refine (fates_modifyUpload (g := fun f => f) ?_).trans (List.modify_id _ _)
  exact fun _ => rfl

theorem writeCall_fates {can : Prop} {d : Bytes} {done : Bytes → Slot → Prop} {s s' : Slot} {r : WriteAns}
    (h : E.writeCall can s d done r s') (hdone : ∀ b s', done b s' → s'.fates = s.fates) : s'.fates = s.fates := by
  cases r with
  | eintr => rw [h.2]
  | failed => rw [h.2]
  | wrote n =>
    obtain ⟨-, -, h₀, h₁⟩ := h
    rcases Nat.eq_zero_or_pos n with hn | hn
    · rw [(h₀ hn).2]
    · exact hdone _ _ (h₁ hn)

/-- **A quiet request leaves every upload's flags as they are.** -/
theorem exec_fates {c : Call} {s s' : Slot} {r : Resp c} (hc : c.quiet) (h : exec E c s r s') : s'.fates = s.fates := by
  have hw : ∀ b s', E.writes s b s' → s'.fates = s.fates := by
    rintro b s' ⟨t, -, rfl⟩
    rfl
  cases c with
  | cancelled => rw [h.2.2]; rfl
  | cacheHit => rw [h]
  | pick n => rw [h]
  | sourceSize => exact lookup_fates h
  | sourceChunkCRC32s => exact lookup_fates h
  | sourceObjectCRC32s size => exact lookup_fates h
  | sourceRange start len => exact lookup_fates h
  | openSource => exact syscall_fates h (fun _ h => congrArg Slot.fates h)
  | openSourceStream => exact syscall_fates h (fun _ h => congrArg Slot.fates h)
  | readSource offset n =>
    cases r with
    | data d => rw [h.2.2.2]
    | eintr => rw [h.2]
    | failed => rw [h.2]
  | resolvesWithinBase => exact syscall_fates h (fun _ h => congrArg Slot.fates h)
  | createDirectories => exact syscall_fates h (fun _ h => by rw [h]; rfl)
  | symlinkStatus => cases r <;> rw [h.2]
  | openTemp =>
    cases r with
    | opened =>
      obtain ⟨-, t, -, rfl⟩ := h
      rfl
    | eexist => rw [h.2]
    | failed => rw [h.2]
  | writeTemp d =>
    simp only [exec] at h
    refine writeCall_fates h ?_
    rintro b s' ⟨o, t, -, -, rfl⟩
    rfl
  | fdatasync => exact syscall_fates h (fun _ h => congrArg Slot.fates h)
  | closeTemp => exact syscall_fates h (fun _ h => congrArg Slot.fates h)
  | renameTemp => exact syscall_fates h (fun _ h => by rw [h]; rfl)
  | removeTemp => exact syscall_fates h (fun _ h => by rw [h]; rfl)
  | exists_ => exact lookup_fates h
  | fileSize => exact lookup_fates h
  | fileChunkCRC32s => exact lookup_fates h
  | openInPlace =>
    refine syscall_fates h ?_
    rintro s' (⟨-, rfl⟩ | ⟨-, h⟩)
    · rfl
    · exact hw _ _ h
  | pwrite offset d =>
    simp only [exec] at h
    refine writeCall_fates h ?_
    rintro b s' ⟨o, -, h⟩
    exact hw _ _ h
  | ftruncate size =>
    refine syscall_fates h ?_
    rintro s' ⟨o, -, h⟩
    exact hw _ _ h
  | fsync => exact syscall_fates h (fun _ h => congrArg Slot.fates h)
  | clearMtime => exact syscall_fates h (fun _ h => by rw [h]; rfl)
  | createEmpty => exact syscall_fates h (hw _)
  | remove =>
    cases r with
    | ok b => rw [h.2]; rfl
    | failed => rw [h.2]
    | threw => rw [h.2]
  | getObjectSize => exact lookup_fates h
  | getChunkCRC32s size => exact lookup_fates h
  | putObject d => exact request_fates h (fun _ => hw _)
  | putSource => exact request_fates h (fun _ => hw _)
  | deleteObject => exact request_fates h (fun _ _ h => by rw [h]; rfl)
  | copyObject => exact request_fates h (fun _ => hw _)
  | createMultipartUpload => exact hc.elim
  | uploadPart id n d crc => exact addPart_fates h
  | uploadPartCopy id n a b => exact addPart_fates h
  | uploadPartCopyFromSource id n a b => exact addPart_fates h
  | completeMultipartUpload id parts => exact hc.elim
  | abortMultipartUpload id => exact hc.elim

/-- A create that is answered adds an upload with no flag set; one that fails adds one at most. -/
theorem create_fates {s s' : Slot} {r : Ans Nat} (h : exec E .createMultipartUpload s r s') :
    s'.fates = s.fates ++ [(false, false, false)] ∧ (∀ id, r = .ok id → id = s.fates.length) ∨
      s'.fates = s.fates ∧ ∀ id, r ≠ .ok id := by
  have hdone : ∀ id, (id = s.uploads.length ∧ s' = { s with uploads := s.uploads ++ [{}] }) →
      s'.fates = s.fates ++ [(false, false, false)] ∧ id = s.fates.length := by
    rintro id ⟨rfl, rfl⟩
    exact ⟨List.map_append, (length_fates s).symm⟩
  cases r with
  | ok id =>
    obtain ⟨hf, hid⟩ := hdone id h.2
    exact .inl ⟨hf, fun _ h => (Ans.ok.inj h) ▸ hid⟩
  | failed =>
    rcases h.2 with rfl | ⟨-, -, id, hid⟩
    · exact .inr ⟨rfl, nofun⟩
    · exact .inl ⟨(hdone id hid).1, nofun⟩
  | threw =>
    rcases h.2 with rfl | ⟨-, -, id, hid⟩
    · exact .inr ⟨rfl, nofun⟩
    · exact .inl ⟨(hdone id hid).1, nofun⟩

/-- A completion sets the upload's flag, and nothing where it fails; or it is carried out all the same. -/
theorem complete_fates {s s' : Slot} {id : Nat} {parts : List (Nat × Nat)} {r : Ans Unit}
    (h : exec E (.completeMultipartUpload id parts) s r s') :
    s'.fates = s.fates.modify id (fun f => (true, f.2)) ∨ s'.fates = s.fates ∧ r ≠ .ok () := by
  have hdone : (∃ u bs, s.uploads[id]? = some u ∧ u.pick parts = some bs ∧
      E.writes (s.modifyUpload id (fun u => { u with completed := true })) bs.flatten s') →
      s'.fates = s.fates.modify id (fun f => (true, f.2)) := by
    rintro ⟨u, bs, -, -, t, -, rfl⟩
    refine fates_modifyUpload ?_
    exact fun _ => rfl
  cases r with
  | ok a => exact .inl (hdone h.2)
  | failed =>
    rcases h.2 with rfl | ⟨-, -, a, ha⟩
    · exact .inr ⟨rfl, nofun⟩
    · exact .inl (hdone ha)
  | threw =>
    rcases h.2 with rfl | ⟨-, -, a, ha⟩
    · exact .inr ⟨rfl, nofun⟩
    · exact .inl (hdone ha)

theorem abort_fates {s s' : Slot} {id : Nat} {r : Bool} (h : exec E (.abortMultipartUpload id) s r s') :
    s'.fates = s.fates.modify id (fun f => (f.1, true, f.2.2 || r)) := by
  obtain ⟨-, rfl⟩ := h
  refine fates_modifyUpload ?_
  exact fun _ => rfl

/-! ## The uploads remembered -/

/-- Completed, or aborted and the abort acknowledged. -/
def Slot.ended (s : Slot) (id : Nat) : Prop := ∃ f, s.fates[id]? = some f ∧ (f.1 = true ∨ f.2.2 = true)

/-- **No upload is forgotten**: each one a create was answered with has ended or is registered. -/
def Tracked.remembers (w : Tracked) : Prop := ∀ id ∈ w.created, w.slot.ended id ∨ id ∈ w.registry

theorem ended_congr {s s' : Slot} (h : s'.fates = s.fates) {id : Nat} : s'.ended id ↔ s.ended id := by
  unfold Slot.ended
  rw [h]

/-- Setting flags ends no fewer uploads. -/
theorem ended_modify {s s' : Slot} {id j : Nat} {g : Bool × Bool × Bool → Bool × Bool × Bool}
    (h : s'.fates = s.fates.modify id g) (hg : ∀ f, (f.1 = true ∨ f.2.2 = true) → (g f).1 = true ∨ (g f).2.2 = true)
    (hj : s.ended j) : s'.ended j := by
  obtain ⟨f, hf, he⟩ := hj
  refine ⟨if id = j then g f else f, ?_, ?_⟩
  · rw [h, List.getElem?_modify, hf]
    by_cases hij : id = j <;> simp [hij]
  · by_cases hij : id = j
    · rw [if_pos hij]
      exact hg f he
    · rwa [if_neg hij]

theorem ended_append {s s' : Slot} {j : Nat} {fs : List (Bool × Bool × Bool)} (h : s'.fates = s.fates ++ fs)
    (hj : s.ended j) : s'.ended j := by
  obtain ⟨f, hf, he⟩ := hj
  refine ⟨f, ?_, he⟩
  rw [h, List.getElem?_append_left (List.getElem?_eq_some_iff.1 hf).1, hf]

/-- The upload whose flag is set has ended. -/
theorem ended_set {s s' : Slot} {id : Nat} {g : Bool × Bool × Bool → Bool × Bool × Bool}
    (h : s'.fates = s.fates.modify id g) (hg : ∀ f, (g f).1 = true ∨ (g f).2.2 = true) (hid : id < s.fates.length) :
    s'.ended id := by
  refine ⟨g s.fates[id], ?_, hg _⟩
  rw [h, List.getElem?_modify, List.getElem?_eq_getElem hid]
  simp

/-! ## Requests that leave uploads and registry alone -/

def TrackedCall.quiet : TrackedCall → Prop
  | .slot c => c.quiet
  | .registerUpload _ | .unregisterUpload _ | .takeRegistered => False
  | _ => True

/-- The same flags, the same registry. -/
structure Tracked.Like (w w' : Tracked) : Prop where
  fates : w'.slot.fates = w.slot.fates
  registry : w'.registry = w.registry
  created : w'.created = w.created
  refused : w'.refused = w.refused

theorem Tracked.Like.refl (w : Tracked) : w.Like w := ⟨rfl, rfl, rfl, rfl⟩

theorem Tracked.Like.trans {w₁ w₂ w₃ : Tracked} (h : w₁.Like w₂) (h' : w₂.Like w₃) : w₁.Like w₃ :=
  ⟨h'.fates.trans h.fates, h'.registry.trans h.registry, h'.created.trans h.created, h'.refused.trans h.refused⟩

theorem Tracked.Like.remembers {w w' : Tracked} (h : w.Like w') (hw : w.remembers) : w'.remembers := by
  intro id hid
  rw [h.created] at hid
  rw [ended_congr h.fates, h.registry]
  exact hw id hid

theorem answered_quiet {c : Call} (hc : c.quiet) (w : Tracked) (s : Slot) (r : Resp c) :
    w.answered s c r = { w with slot := s } := by
  cases c <;> first | exact hc.elim | rfl

theorem quiet_like {c : TrackedCall} (hc : c.quiet) {w w' : Tracked} {r : TrackedResp c}
    (h : trackedExec E c w r w') : w.Like w' := by
  cases c with
  | slot c =>
    obtain ⟨s', hs, rfl⟩ := h
    rw [answered_quiet hc]
    exact ⟨exec_fates hc hs, rfl, rfl, rfl⟩
  | registerUpload id => exact hc.elim
  | unregisterUpload id => exact hc.elim
  | takeRegistered => exact hc.elim
  | shutdownRequested => rw [h]; exact .refl w
  | uploadPartCopyChecksum id part =>
    obtain ⟨s', ⟨ans, hs, -⟩, rfl⟩ := h
    exact ⟨addPart_fates hs, rfl, rfl, rfl⟩
  | waitTimedOut => rw [h]; exact .refl w
  | fanOutThrew => rw [h]; exact .refl w

/-- **A program of quiet requests leaves uploads and registry alone.** -/
theorem wp_quiet {α : Type} {p : TrackedExec α} (hp : p.Asks TrackedCall.quiet) (w : Tracked) :
    wp (trackedExec E) (fun _ => True) (fun _ => True) p (fun _ w' => w.Like w') w :=
  wp_asks (fun _ _ _ _ hc hw h => hw.trans (quiet_like hc h)) (fun _ _ => trivial) (fun _ _ => trivial) hp (.refl w)

theorem asks_copyPart (clientRetries id sourceSize partSize i : Nat) :
    (copyPart clientRetries id sourceSize partSize i).Asks Call.quiet := by
  refine asks_bind (asks_req.2 trivial) (fun stop => ?_)
  cases stop with
  | true => trivial
  | false => exact retry_composes (asks_composes _) (asks_req.2 trivial) (asks_req.2 trivial) _

theorem asks_diffUploadPart (id localSize : Nat) (localCrcs s3Crcs : List UInt32) (i : Nat) :
    (diffUploadPart id localSize localCrcs s3Crcs i).Asks Call.quiet := by
  unfold diffUploadPart
  simp only
  split
  · exact retry_composes (asks_composes _) (asks_req.2 trivial) (asks_req.2 trivial) _
  · refine asks_bind (asks_req.2 trivial) (fun ans => ?_)
    cases ans with
    | ok data => exact retry_composes (asks_composes _) (asks_req.2 trivial) (asks_req.2 trivial) _
    | failed => trivial
    | threw => trivial

theorem asks_uploadSmallFile : uploadSmallFile.Asks Call.quiet := by
  refine retry_composes (asks_composes _) (asks_req.2 trivial) ?_ _
  refine asks_bind (asks_req.2 trivial) (fun ans => ?_)
  cases ans with
  | ok fileSize =>
    simp only
    split
    · trivial
    · refine asks_bind (asks_req.2 trivial) (fun ans => ?_)
      cases ans <;> trivial
  | failed => trivial
  | threw => trivial

theorem quiet_of_look (c : Call) (h : c.ofLook) : c.quiet := by
  cases c <;> first | exact h.elim | trivial

theorem asks_onSlot {α : Type} {p : Exec α} (h : p.Asks Call.quiet) : (onSlot p).Asks TrackedCall.quiet :=
  asks_interp (fun c hc => (asks_req (c := TrackedCall.slot c)).2 hc) h

theorem asks_fanOut (id : Nat) (tasks : List (CopyPart × Nat)) (t : FanOut) :
    (fanOut id tasks t).Asks TrackedCall.quiet := by
  induction tasks, t using fanOut.induct with
  | case1 t =>
    rw [fanOut]
    trivial
  | case2 task tasks t drop succeed fail again =>
    rw [fanOut]
    refine asks_bind (asks_req.2 trivial) (fun i => asks_bind (asks_req.2 trivial) (fun stop => ?_))
    split
    · exact drop i
    · refine asks_bind (asks_req.2 trivial) (fun ans => ?_)
      cases ans with
      | checksum crc => exact succeed i crc
      | noChecksum => exact fail i
      | refused => exact fail i
      | retryable =>
        simp only
        split
        · exact fail i
        · exact again i ‹_›
      | threw =>
        simp only
        split
        · exact fail i
        · exact again i ‹_›

theorem asks_parallelUploadPartCopyRequests (id : Nat) (parts : List CopyPart) (numChunks : Int) (chunkIds : List Int)
    (maxRetries : Nat) (numThreads : Int) :
    (parallelUploadPartCopyRequests id parts numChunks chunkIds maxRetries numThreads).Asks TrackedCall.quiet := by
  refine asks_bind (asks_fanOut _ _ _) (fun t => asks_bind (asks_req.2 trivial) (fun late => ?_))
  refine asks_bind (asks_req.2 trivial) (fun threw => ?_)
  cases threw <;> trivial

/-! ## Requests that do not -/

variable {I H : Tracked → Prop}

/-- What a create leaves: no upload the caller knows of, or one more that is open and not registered. -/
theorem create_tracked {w w' : Tracked} {r : Ans Nat} (h : trackedExec E (.slot .createMultipartUpload) w r w') :
    w'.registry = w.registry ∧ w'.refused = w.refused ∧ (∃ fs, w'.slot.fates = w.slot.fates ++ fs) ∧
      match r with
      | .ok id => id = w.slot.fates.length ∧ w'.created = w.created ++ [id] ∧
          w'.slot.fates = w.slot.fates ++ [(false, false, false)]
      | _ => w'.created = w.created := by
  obtain ⟨s', hs, rfl⟩ := h
  have hfs : ∃ fs, s'.fates = w.slot.fates ++ fs := by
    rcases create_fates hs with ⟨hf, -⟩ | ⟨hf, -⟩
    · exact ⟨_, hf⟩
    · exact ⟨[], by rw [hf, List.append_nil]⟩
  cases r with
  | ok id =>
    rcases create_fates hs with ⟨hf, hid⟩ | ⟨-, hne⟩
    · exact ⟨rfl, rfl, hfs, hid id rfl, rfl, hf⟩
    · exact absurd rfl (hne id)
  | failed => exact ⟨rfl, rfl, hfs, rfl⟩
  | threw => exact ⟨rfl, rfl, hfs, rfl⟩

theorem abort_tracked {w w' : Tracked} {id : Nat} {r : Bool}
    (h : trackedExec E (.slot (.abortMultipartUpload id)) w r w') :
    w'.registry = w.registry ∧ w'.created = w.created ∧
      w'.slot.fates = w.slot.fates.modify id (fun f => (f.1, true, f.2.2 || r)) ∧
      w'.refused = if r then w.refused else w.refused ++ [id] := by
  obtain ⟨s', hs, rfl⟩ := h
  cases r <;> exact ⟨rfl, rfl, abort_fates hs, rfl⟩

theorem complete_tracked {w w' : Tracked} {id : Nat} {parts : List (Nat × Nat)} {r : Ans Unit}
    (h : trackedExec E (.slot (.completeMultipartUpload id parts)) w r w') :
    w'.registry = w.registry ∧ w'.created = w.created ∧ w'.refused = w.refused ∧
      (w'.slot.fates = w.slot.fates.modify id (fun f => (true, f.2)) ∨
        w'.slot.fates = w.slot.fates ∧ r ≠ .ok ()) := by
  obtain ⟨s', hs, rfl⟩ := h
  exact ⟨rfl, rfl, rfl, complete_fates hs⟩

/-- While an upload is being worked on: it is registered, and the others are remembered. -/
structure Tracked.Guarded (id : Nat) (w : Tracked) : Prop where
  remembers : w.remembers
  stored : id < w.slot.fates.length

theorem Tracked.Guarded.like {id : Nat} {w w' : Tracked} (h : w.Guarded id) (hl : w.Like w') : w'.Guarded id :=
  ⟨hl.remembers h.remembers, by rw [hl.fates]; exact h.stored⟩

theorem Tracked.Guarded.complete {w w' : Tracked} {id : Nat} {parts : List (Nat × Nat)} {r : Ans Unit}
    (hw : w.Guarded id) (h : trackedExec E (.slot (.completeMultipartUpload id parts)) w r w') :
    w'.Guarded id ∧ (r = .ok () → w'.slot.ended id) := by
  obtain ⟨hreg, hcr, -, hf⟩ := complete_tracked h
  rcases hf with hf | ⟨hf, hr⟩
  · refine ⟨⟨fun j hj => ?_, ?_⟩, fun _ => ended_set hf (fun _ => .inl rfl) hw.stored⟩
    · rw [hcr] at hj
      rw [hreg]
      exact (hw.remembers j hj).imp_left (ended_modify hf (fun _ _ => .inl rfl))
    · rw [hf, List.length_modify]
      exact hw.stored
  · exact ⟨hw.like ⟨hf, hreg, hcr, by obtain ⟨s', -, rfl⟩ := h; rfl⟩, fun h => absurd h hr⟩

/-- An upload that has ended may be let go of. -/
theorem remembers_unregister {w : Tracked} {id : Nat} (hw : w.remembers) (hid : w.slot.ended id) :
    ({ w with registry := w.registry.filter (fun j => decide (j ≠ id)) } : Tracked).remembers := by
  intro j hj
  rcases hw j hj with hj | hj
  · exact .inl hj
  · by_cases hij : j = id
    · exact .inl (hij ▸ hid)
    · exact .inr (List.mem_filter.2 ⟨hj, decide_eq_true hij⟩)

/-- **A guarded abort forgets nothing**: the upload is let go of only where the abort is acknowledged. -/
theorem abortAndRelease_spec {w : Tracked} {id : Nat} (hw : w.Guarded id) :
    wp (trackedExec E) (fun _ => True) H (abortAndRelease id) (fun _ w' => w'.remembers) w := by
  rw [abortAndRelease, wp_bind, wp_req]
  refine ⟨trivial, fun r w' h => ?_⟩
  obtain ⟨hreg, hcr, hf, -⟩ := abort_tracked h
  have hrem : w'.remembers := by
    intro j hj
    rw [hcr] at hj
    rw [hreg]
    exact (hw.remembers j hj).imp_left (ended_modify hf (fun f hf => hf.imp_right (fun h => by simp [h])))
  cases r with
  | false => exact hrem
  | true =>
    have hended : w'.slot.ended id := ended_set hf (fun _ => .inr (Bool.or_true _)) hw.stored
    refine ⟨trivial, fun _ w'' h => ?_⟩
    obtain rfl : w'' = _ := h
    exact remembers_unregister hrem hended

/-- A create, and the registration of what it made. -/
theorem register_spec {w w₁ w₂ : Tracked} {id : Nat} {u : Unit} (hw : w.remembers)
    (h₁ : trackedExec E (.slot .createMultipartUpload) w (.ok id) w₁)
    (h₂ : trackedExec E (.registerUpload id) w₁ u w₂) : w₂.Guarded id := by
  obtain ⟨hreg, -, -, hid, hcr, hf⟩ := create_tracked h₁
  obtain rfl : w₂ = _ := h₂
  refine ⟨fun j hj => ?_, ?_⟩
  · rcases List.mem_append.1 (hcr ▸ hj) with hj | hj
    · rw [hreg]
      exact (hw j hj).imp (ended_append hf) (List.mem_cons_of_mem _)
    · exact .inr (List.mem_singleton.1 hj ▸ List.mem_cons_self)
  · simp only [hf, List.length_append, List.length_singleton]
    omega

/-- A create that failed. -/
theorem unanswered_spec {w w' : Tracked} {r : Ans Nat} (hw : w.remembers) (hr : ∀ id, r ≠ .ok id)
    (h : trackedExec E (.slot .createMultipartUpload) w r w') : w'.remembers := by
  obtain ⟨hreg, -, ⟨fs, hf⟩, hcr⟩ := create_tracked h
  have hcr : w'.created = w.created := by
    cases r with
    | ok id => exact absurd rfl (hr id)
    | failed => exact hcr
    | threw => exact hcr
  intro j hj
  rw [hcr] at hj
  rw [hreg]
  exact (hw j hj).imp_left (ended_append hf)

/-- **`GetHashes` forgets no upload**, whatever the fan-out, its exceptions and the abort come to. -/
theorem getHashes_remembers {w : Tracked} (hw : w.remembers) (filesize chunkSize : Int) (chunkIds : List Int)
    (maxRetries : Nat) (numThreads : Int) :
    wp (trackedExec E) (fun _ => True) (fun _ => True) (getHashes filesize chunkSize chunkIds maxRetries numThreads)
      (fun _ w' => w'.remembers) w := by
  unfold getHashes
  simp only
  split
  · exact hw
  · rw [wp_bind, wp_req]
    refine ⟨trivial, fun r w₁ h₁ => ?_⟩
    cases r with
    | failed => exact unanswered_spec hw (fun _ h => by cases h) h₁
    | threw => exact unanswered_spec hw (fun _ h => by cases h) h₁
    | ok id =>
      simp only [wp_bind, wp_req]
      refine ⟨trivial, fun _ w₂ h₂ => ?_⟩
      have hg := register_spec hw h₁ h₂
      split
      · trivial
      · simp only [wp_bind]
        refine wp_mono (fun crcs w₃ hl => ?_) (wp_quiet (asks_parallelUploadPartCopyRequests _ _ _ _ _ _) w₂)
        cases crcs with
        | none => exact (hg.like hl).remembers
        | some crcs =>
          simp only [wp_bind]
          exact wp_mono (fun _ _ h => h) (abortAndRelease_spec (hg.like hl))

/-- **`CopyObjectMultipart` forgets no upload**, whatever becomes of the parts, the completion and the abort. -/
theorem copyObjectMultipart_remembers {w : Tracked} (hw : w.remembers) (clientRetries sourceSize partSize : Nat) :
    wp (trackedExec E) (fun _ => True) (fun _ => True) (copyObjectMultipartTracked clientRetries sourceSize partSize)
      (fun _ w' => w'.remembers) w := by
  rw [copyObjectMultipartTracked, wp_bind, wp_req]
  refine ⟨trivial, fun r w₁ h₁ => ?_⟩
  cases r with
  | failed => exact unanswered_spec hw (fun _ h => by cases h) h₁
  | threw => exact unanswered_spec hw (fun _ h => by cases h) h₁
  | ok id =>
    simp only [wp_bind, wp_req]
    refine ⟨trivial, fun _ w₂ h₂ => ?_⟩
    have hg := register_spec hw h₁ h₂
    refine wp_mono (fun parts w₃ hl => ?_)
      (wp_quiet (asks_onSlot (sendParts_composes (asks_composes _) (asks_copyPart _ _ _ _) _ _)) w₂)
    have hg := hg.like hl
    cases parts with
    | none =>
      simp only [wp_bind]
      exact wp_mono (fun _ _ h => h) (abortAndRelease_spec hg)
    | some parts =>
      simp only [wp_bind, wp_req]
      refine ⟨trivial, fun r w₄ h₄ => ?_⟩
      obtain ⟨hg, hended⟩ := hg.complete h₄
      cases r with
      | failed => exact wp_bind.2 (wp_mono (fun _ _ h => h) (abortAndRelease_spec hg))
      | threw => exact wp_bind.2 (wp_mono (fun _ _ h => h) (abortAndRelease_spec hg))
      | ok a =>
        simp only [wp_bind, wp_req]
        refine ⟨trivial, fun _ w₅ h₅ => ?_⟩
        obtain rfl : w₅ = _ := h₅
        exact remembers_unregister hg.remembers (hended rfl)

/-! ## `diff_upload_file` -/

/-- A request on the destination, with its bookkeeping. -/
abbrev slotExec (E : Env) (c : Call) : Tracked → Resp c → Tracked → Prop := trackedExec E (.slot c)

theorem wp_onSlot {α : Type} {p : Exec α} {Q : α → Tracked → Prop} {w : Tracked} (h : wp (slotExec E) I H p Q w) :
    wp (trackedExec E) I H (onSlot p) Q w :=
  wp_interp (g := askSlot) id (fun _ _ _ hI hP => ⟨hI, hP⟩) (fun _ h => h) h

theorem wp_quiet_slot {α : Type} {p : Exec α} (hp : p.Asks Call.quiet) (w : Tracked) :
    wp (slotExec E) (fun _ => True) (fun _ => True) p (fun _ w' => w.Like w') w := by
  refine wp_asks (P := Call.quiet) (fun c _ _ _ hc hw h => ?_) (fun _ _ => trivial) (fun _ _ => trivial) hp (.refl w)
  have hq : TrackedCall.quiet (.slot c) := hc
  exact hw.trans (quiet_like hq h)

/-- What a differential upload leaves: no upload that was answered, or one that has ended or whose abort was refused. -/
def Tracked.DiffUploaded (w w' : Tracked) : Prop :=
  w'.registry = w.registry ∧
    (w'.created = w.created ∧ w'.refused = w.refused ∧ (∃ fs, w'.slot.fates = w.slot.fates ++ fs) ∨
      ∃ f, w'.created = w.created ++ [w.slot.fates.length] ∧ w'.slot.fates = w.slot.fates ++ [f] ∧
        ((f.1 = true ∨ f.2.2 = true) ∧ w'.refused = w.refused ∨
          f.2.2 = false ∧ w'.refused = w.refused ++ [w.slot.fates.length]))

/-- The upload `diff_upload_file` is working on, which no one else knows of. -/
structure Tracked.Working (w : Tracked) (completed : Bool) (w' : Tracked) : Prop where
  registry : w'.registry = w.registry
  refused : w'.refused = w.refused
  created : w'.created = w.created ++ [w.slot.fates.length]
  fates : w'.slot.fates = w.slot.fates ++ [(completed, false, false)]

theorem Tracked.Working.like {w w₁ w₂ : Tracked} {b : Bool} (h : w.Working b w₁) (hl : w₁.Like w₂) : w.Working b w₂ :=
  ⟨hl.registry.trans h.registry, hl.refused.trans h.refused, hl.created.trans h.created, hl.fates.trans h.fates⟩

theorem Tracked.Working.abort {w w₁ w₂ : Tracked} {b r : Bool} (h : w.Working b w₁)
    (ha : slotExec E (.abortMultipartUpload w.slot.fates.length) w₁ r w₂) : w.DiffUploaded w₂ := by
  obtain ⟨hreg, hcr, hf, href⟩ := abort_tracked ha
  refine ⟨hreg.trans h.registry, .inr ⟨(b, true, r), hcr.trans h.created, ?_, ?_⟩⟩
  · rw [hf, h.fates, modify_concat]
    rfl
  · cases r with
    | true => exact .inl ⟨.inr rfl, href.trans h.refused⟩
    | false => exact .inr ⟨rfl, by rw [href, h.refused]; rfl⟩

theorem Tracked.Working.completeOrAbort {w w₁ : Tracked} (h : w.Working false w₁)
    (parts : Option (List (Nat × Nat))) :
    wp (slotExec E) (fun _ => True) (fun _ => True) (completeOrAbort w.slot.fates.length parts)
      (fun _ w' => w.DiffUploaded w') w₁ := by
  cases parts with
  | none =>
    rw [Mito.completeOrAbort, wp_bind, wp_req]
    exact ⟨trivial, fun _ _ ha => h.abort ha⟩
  | some parts =>
    rw [Mito.completeOrAbort, wp_bind, wp_req]
    refine ⟨trivial, fun r w₂ h₂ => ?_⟩
    obtain ⟨hreg, hcr, href, hf⟩ := complete_tracked h₂
    have hw : ∃ b, w.Working b w₂ ∧ (r = .ok () → b = true) := by
      rcases hf with hf | ⟨hf, hr⟩
      · refine ⟨true, ⟨hreg.trans h.registry, href.trans h.refused, hcr.trans h.created, ?_⟩, fun _ => rfl⟩
        rw [hf, h.fates, modify_concat]
      · exact ⟨false, h.like ⟨hf, hreg, hcr, href⟩, fun h => absurd h hr⟩
    obtain ⟨b, hw, hb⟩ := hw
    cases r with
    | ok a =>
      obtain rfl := hb rfl
      exact ⟨hw.registry, .inr ⟨_, hw.created, hw.fates, .inl ⟨.inl rfl, hw.refused⟩⟩⟩
    | failed =>
      simp only [wp_bind, wp_req]
      exact ⟨trivial, fun _ _ ha => hw.abort ha⟩
    | threw =>
      simp only [wp_bind, wp_req]
      exact ⟨trivial, fun _ _ ha => hw.abort ha⟩

/-- A step that leaves uploads and registry alone. -/
theorem Tracked.DiffUploaded.of_like {w w' : Tracked} (h : w.Like w') : w.DiffUploaded w' :=
  ⟨h.registry, .inl ⟨h.created, h.refused, [], by rw [h.fates, List.append_nil]⟩⟩

theorem Tracked.DiffUploaded.after {w w₁ w₂ : Tracked} (hl : w.Like w₁) (h : w₁.DiffUploaded w₂) :
    w.DiffUploaded w₂ := by
  obtain ⟨fates, registry, created, refused⟩ := hl
  unfold Tracked.DiffUploaded at h
  rw [fates, registry, created, refused] at h
  exact h

theorem diffUploadMultipart_tracked (w : Tracked) (localSize : Nat) (localCrcs s3Crcs : List UInt32) :
    wp (slotExec E) (fun _ => True) (fun _ => True) (diffUploadMultipart localSize localCrcs s3Crcs)
      (fun _ w' => w.DiffUploaded w') w := by
  rw [diffUploadMultipart, wp_bind, wp_req]
  refine ⟨trivial, fun r w₁ h₁ => ?_⟩
  obtain ⟨hreg, href, hfs, hok⟩ := create_tracked h₁
  cases r with
  | failed => exact ⟨hreg, .inl ⟨hok, href, hfs⟩⟩
  | threw => exact ⟨hreg, .inl ⟨hok, href, hfs⟩⟩
  | ok id =>
    obtain ⟨rfl, hcr, hf⟩ := hok
    have hw : w.Working false w₁ := ⟨hreg, href, hcr, hf⟩
    simp only [wp_bind, wp_req]
    refine ⟨trivial, fun r w₂ h₂ => ?_⟩
    have hopen : TrackedCall.quiet (.slot .openSourceStream) := trivial
    have hw := hw.like (quiet_like hopen h₂)
    cases r with
    | false => exact hw.completeOrAbort none
    | true =>
      simp only [if_true, wp_bind]
      refine wp_mono (fun parts w₃ hl => ?_) (wp_quiet_slot (sendParts_composes (asks_composes _) (asks_diffUploadPart _ _ _ _) _ _) w₂)
      exact (hw.like hl).completeOrAbort parts

theorem diffUploadDecide_tracked (w : Tracked) (localSize : Nat) (localCrcs : List UInt32) (s3Size : Int)
    (s3Crcs : List UInt32) :
    wp (slotExec E) (fun _ => True) (fun _ => True) (diffUploadDecide localSize localCrcs s3Size s3Crcs)
      (fun _ w' => w.DiffUploaded w') w := by
  unfold diffUploadDecide
  simp only
  split_ifs
  · exact .of_like (.refl w)
  · refine wp_mono (fun _ _ hl => .of_like hl) (wp_quiet_slot (asks_bind asks_uploadSmallFile (fun ans => ?_)) w)
    cases ans <;> trivial
  · exact .of_like (.refl w)
  · exact diffUploadMultipart_tracked w localSize localCrcs s3Crcs

theorem diffUploadFile_tracked (w : Tracked) :
    wp (slotExec E) (fun _ => True) (fun _ => True) diffUploadFile (fun _ w' => w.DiffUploaded w') w := by
  rw [diffUploadFile, wp_bind, wp_req]
  refine ⟨trivial, fun r w₁ h₁ => ?_⟩
  have hsize : TrackedCall.quiet (.slot .sourceSize) := trivial
  have hl := quiet_like hsize h₁
  cases r with
  | failed => exact .of_like hl
  | threw => exact .of_like hl
  | ok localSize =>
    simp only
    split
    · exact .of_like hl
    · simp only [wp_bind, wp_req]
      refine ⟨trivial, fun r w₂ h₂ => ?_⟩
      have hcrcs : TrackedCall.quiet (.slot .sourceChunkCRC32s) := trivial
      have hl := hl.trans (quiet_like hcrcs h₂)
      cases r with
      | failed => exact .of_like hl
      | threw => exact .of_like hl
      | ok localCrcs =>
        simp only [wp_bind]
        refine wp_mono (fun remote w₃ hl' => ?_) (wp_quiet_slot (asks_mono quiet_of_look remoteChunks_asks) w₂)
        have hl := hl.trans hl'
        cases remote with
        | none => exact .of_like hl
        | some remote => exact wp_mono (fun _ _ h => .after hl h) (diffUploadDecide_tracked w₃ localSize localCrcs _ _)

/-- The upload was completed. -/
def Slot.completed (s : Slot) (id : Nat) : Prop := ∃ f, s.fates[id]? = some f ∧ f.1 = true

theorem Tracked.DiffUploaded.remembers_iff {w w' : Tracked} (h : ({ w with refused := [] } : Tracked).DiffUploaded w')
    (hw : w.remembers) (hreg : ∀ id ∈ w.registry, id < w.slot.uploads.length) :
    w'.remembers ↔ ∀ id ∈ w'.refused, w'.slot.completed id := by
  obtain ⟨hr, ⟨hcr, href, fs, hf⟩ | ⟨f, hcr, hf, hlast⟩⟩ := h
  · have hrem : w'.remembers := by
      intro j hj
      rw [hr]
      exact (hw j (hcr ▸ hj)).imp_left (ended_append hf)
    exact iff_of_true hrem (fun j hj => absurd (href ▸ hj) List.not_mem_nil)
  · have hget : w'.slot.fates[w.slot.fates.length]? = some f := by
      rw [hf]
      exact List.getElem?_concat_length
    constructor
    · intro hrem id hid
      rcases hlast with ⟨-, href⟩ | ⟨hab, href⟩
      · exact absurd (href ▸ hid) List.not_mem_nil
      · have href : w'.refused = [w.slot.fates.length] := href
        obtain rfl : id = w.slot.fates.length := List.mem_singleton.1 (href ▸ hid)
        rcases hrem _ (hcr ▸ List.mem_append_right _ List.mem_cons_self) with ⟨f', hf', he⟩ | hmem
        · obtain rfl : f = f' := Option.some.inj (hget.symm.trans hf')
          exact ⟨f, hget, he.resolve_right (by simp [hab])⟩
        · have := hreg _ (hr ▸ hmem)
          rw [length_fates] at this
          exact absurd this (Nat.lt_irrefl _)
    · intro hall j hj
      rcases List.mem_append.1 (hcr ▸ hj) with hj | hj
      · rw [hr]
        exact (hw j hj).imp_left (ended_append hf)
      · obtain rfl := List.mem_singleton.1 hj
        rcases hlast with ⟨he, -⟩ | ⟨-, href⟩
        · exact .inl ⟨f, hget, he⟩
        · have href : w'.refused = [w.slot.fates.length] := href
          obtain ⟨f', hf', hc⟩ := hall w.slot.fates.length (by rw [href]; exact List.mem_cons_self)
          exact .inl ⟨f', hf', .inl hc⟩

/-! ## The registry beside the copy -/

theorem answered_slot (w : Tracked) (s : Slot) (c : Call) (r : Resp c) : (w.answered s c r).slot = s := by
  unfold Tracked.answered
  split <;> rfl

/-- What is proved of an executor on its destination holds of it beside the registry. -/
theorem wp_onSlot_slot {α : Type} {p : Exec α} {Q : α → Slot → Prop} {w : Tracked}
    (h : wp (exec E) (fun _ => True) (fun _ => True) p Q w.slot) :
    wp (trackedExec E) (fun _ => True) (fun _ => True) (onSlot p) (fun a w' => Q a w'.slot) w := by
  refine wp_interp (g := askSlot) Tracked.slot ?_ (fun _ h => h) h
  intro c t P _ hP
  refine ⟨trivial, fun r t' ⟨s', hs, ht⟩ => hP r t' ?_⟩
  rw [ht, answered_slot]
  exact hs

theorem abortAndRelease_slot {id : Nat} {Q : Slot → Prop} {w : Tracked}
    (h : ∀ r s', exec E (.abortMultipartUpload id) w.slot r s' → Q s') :
    wp (trackedExec E) (fun _ => True) (fun _ => True) (abortAndRelease id) (fun _ w' => Q w'.slot) w := by
  rw [abortAndRelease, wp_bind, wp_req]
  refine ⟨trivial, fun r w' ⟨s', hs, hw⟩ => ?_⟩
  have hslot : Q w'.slot := by
    rw [hw, answered_slot]
    exact h r s' hs
  cases r with
  | false => exact hslot
  | true =>
    refine ⟨trivial, fun _ w'' h => ?_⟩
    obtain rfl : w'' = _ := h
    exact hslot

/-- **What is proved of the server-side copy holds of it with its bookkeeping.** -/
theorem copyObjectMultipartTracked_wp {clientRetries sourceSize partSize : Nat} {Q : Ans Unit → Slot → Prop}
    {w : Tracked} (h : wp (exec E) (fun _ => True) (fun _ => True)
      (copyObjectMultipart clientRetries sourceSize partSize) Q w.slot) :
    wp (trackedExec E) (fun _ => True) (fun _ => True) (copyObjectMultipartTracked clientRetries sourceSize partSize)
      (fun ans w' => Q ans w'.slot) w := by
  rw [copyObjectMultipart, wp_bind, wp_req] at h
  rw [copyObjectMultipartTracked, wp_bind, wp_req]
  refine ⟨trivial, ?_⟩
  rintro r w₁ ⟨s₁, hs, hw⟩
  have hcreate := h.2 r s₁ hs
  obtain rfl : w₁.slot = s₁ := by rw [hw, answered_slot]
  cases r with
  | failed => exact hcreate
  | threw => exact hcreate
  | ok id =>
    simp only [wp_bind, wp_req] at hcreate ⊢
    refine ⟨trivial, fun _ w₂ h₂ => ?_⟩
    obtain rfl : w₂ = _ := h₂
    refine wp_mono (fun parts w₃ hparts => ?_) (wp_onSlot_slot (w := { w₁ with registry := id :: w₁.registry }) hcreate)
    cases parts with
    | none =>
      simp only [Mito.completeOrAbort, wp_bind, wp_req] at hparts ⊢
      exact wp_mono (fun _ _ h => h) (abortAndRelease_slot hparts.2)
    | some parts =>
      simp only [Mito.completeOrAbort, wp_bind, wp_req] at hparts ⊢
      refine ⟨trivial, ?_⟩
      rintro r w₄ ⟨s₄, hs, hw⟩
      have hcomplete := hparts.2 r s₄ hs
      obtain rfl : w₄.slot = s₄ := by rw [hw, answered_slot]
      cases r with
      | ok a =>
        simp only [wp_bind, wp_req]
        refine ⟨trivial, fun _ w₅ h₅ => ?_⟩
        obtain rfl : w₅ = _ := h₅
        exact hcomplete
      | failed =>
        simp only [wp_bind, wp_req] at hcomplete ⊢
        exact wp_mono (fun _ _ h => h) (abortAndRelease_slot hcomplete.2)
      | threw =>
        simp only [wp_bind, wp_req] at hcomplete ⊢
        exact wp_mono (fun _ _ h => h) (abortAndRelease_slot hcomplete.2)

/-! ## At the exit -/

/-- The upload, where S3 has it, was given an abort call. -/
def Slot.abortAsked (s : Slot) (id : Nat) : Prop := ∀ f, s.fates[id]? = some f → f.2.1 = true

/-- What aborts leave of the uploads: those that have ended, and the calls they were given. -/
structure Tracked.AbortsOnly (w w' : Tracked) : Prop where
  ended : ∀ j, w.slot.ended j → w'.slot.ended j
  asked : ∀ j, w.slot.abortAsked j → w'.slot.abortAsked j

theorem abort_only {w w' : Tracked} {id : Nat} {r : Bool} (h : trackedExec E (.slot (.abortMultipartUpload id)) w r w') :
    w.AbortsOnly w' ∧ w'.slot.abortAsked id := by
  obtain ⟨-, -, hf, -⟩ := abort_tracked h
  have hasked : ∀ j, w.slot.abortAsked j ∨ j = id → w'.slot.abortAsked j := by
    intro j hj f hfj
    rw [hf, List.getElem?_modify, Option.map_eq_map, Option.map_eq_some_iff] at hfj
    obtain ⟨f', hf', rfl⟩ := hfj
    by_cases hij : id = j
    · rw [if_pos hij]
    · rw [if_neg hij]
      exact hj.resolve_right (fun h => hij h.symm) f' hf'
  exact ⟨⟨fun _ => ended_modify hf fun f he => he.imp_right fun h => by simp [h], fun j hj => hasked j (.inl hj)⟩,
    hasked id (.inr rfl)⟩

theorem abortUploads_spec : ∀ (ids : List Nat) (w : Tracked),
    wp (trackedExec E) (fun _ => True) (fun _ => True) (abortUploads ids)
      (fun _ w' => w.AbortsOnly w' ∧ ∀ id ∈ ids, w'.slot.abortAsked id) w
  | [], w => ⟨⟨fun _ h => h, fun _ h => h⟩, fun _ h => absurd h List.not_mem_nil⟩
  | id :: ids, w => by
    rw [abortUploads, wp_bind, wp_req]
    refine ⟨trivial, fun r w₁ h => ?_⟩
    obtain ⟨honly, hid⟩ := abort_only h
    refine wp_mono (fun _ w' ⟨honly', hids⟩ => ⟨⟨?_, ?_⟩, ?_⟩) (abortUploads_spec ids w₁)
    · exact fun j hj => honly'.ended j (honly.ended j hj)
    · exact fun j hj => honly'.asked j (honly.asked j hj)
    · intro j hj
      rcases List.mem_cons.1 hj with rfl | hj
      · exact honly'.asked j hid
      · exact hids j hj

/-- **The cleanup at the exit gives every upload that is remembered an abort call, unless it has ended.** -/
theorem abortAll_spec {w : Tracked} (hw : w.remembers) :
    wp (trackedExec E) (fun _ => True) (fun _ => True) abortAll
      (fun _ w' => ∀ id ∈ w.created, w'.slot.ended id ∨ w'.slot.abortAsked id) w := by
  rw [abortAll, wp_bind, wp_req]
  refine ⟨trivial, fun ids w₁ ⟨hids, hw₁⟩ => ?_⟩
  refine wp_mono (fun _ w' ⟨honly, hasked⟩ id hid => ?_) (abortUploads_spec ids w₁)
  refine (hw id hid).imp (fun he => honly.ended id ?_) fun hreg => hasked id ?_
  · rw [hw₁]
    exact he
  · rw [hids]
    exact hreg

/-! ## The three operations -/

/-- **When no upload is forgotten**: always by the checksum fetch and the server-side copy, and by a differential upload
where each abort of its own that was refused is of an upload S3 had completed.  What is not forgotten has ended by the
exit, or its abort was asked for. -/
theorem uploads_remembered {w : Tracked} (hw : w.remembers) (hreg : ∀ id ∈ w.registry, id < w.slot.uploads.length) :
    (∀ filesize chunkSize chunkIds maxRetries numThreads r w',
      Steps (trackedExec E) (getHashes filesize chunkSize chunkIds maxRetries numThreads, w) (.ret r, w') →
        w'.remembers) ∧
    (∀ clientRetries sourceSize partSize r w',
      Steps (trackedExec E) (copyObjectMultipartTracked clientRetries sourceSize partSize, w) (.ret r, w') →
        w'.remembers) ∧
    (∀ r w', Steps (trackedExec E) (diffUploadFileTracked, { w with refused := [] }) (.ret r, w') →
      (w'.remembers ↔ ∀ id ∈ w'.refused, w'.slot.completed id)) ∧
    ∀ w' : Tracked, w'.remembers → ∀ w'', Steps (trackedExec E) (abortAll, w') (.ret (), w'') →
      ∀ id ∈ w'.created, w''.slot.ended id ∨ w''.slot.abortAsked id := by
  refine ⟨?_, ?_, ?_, fun w' hrem w'' h => ?_⟩
  · intro filesize chunkSize chunkIds maxRetries numThreads r w' h
    have h' := wp_returns (getHashes_remembers hw filesize chunkSize chunkIds maxRetries numThreads) h
    exact h'
  · intro clientRetries sourceSize partSize r w' h
    have h' := wp_returns (copyObjectMultipart_remembers hw clientRetries sourceSize partSize) h
    exact h'
  · intro r w' h
    have h' := wp_returns (wp_onSlot (diffUploadFile_tracked { w with refused := [] })) h
    exact h'.remembers_iff hw hreg
  · exact wp_returns (abortAll_spec hrem) h

/-! ### An upload left registered, and one that is aborted -/

theorem oneByte_faulty : oneByte.faulty := Mode.noConfusion

/-- A copy whose part was refused, and so was the abort. -/
def leftRegistered : Tracked :=
  { slot := { uploads := [{ abortCalled := true }] }, registry := [0], created := [0], refused := [0] }

theorem copy_left_registered :
    Steps (trackedExec oneByte) (copyObjectMultipartTracked 0 1 1, {}) (.ret .failed, leftRegistered) := by
  refine steps_answer (.ok 0) { slot := { uploads := [{}] }, created := [0] } ⟨_, ⟨trivial, rfl, rfl⟩, rfl⟩ ?_
  refine steps_answer () { slot := { uploads := [{}] }, registry := [0], created := [0] } rfl ?_
  refine steps_answer false _ ⟨_, ⟨fun h => h, nofun, rfl⟩, rfl⟩ ?_
  refine steps_answer false _ ⟨_, ⟨fun h => h, nofun, rfl⟩, rfl⟩ ?_
  refine steps_answer .failed _ ⟨_, ⟨.inl oneByte_faulty, .inl rfl⟩, rfl⟩ ?_
  refine steps_answer false _ ⟨_, ⟨fun _ => oneByte_faulty, rfl⟩, rfl⟩ ?_
  exact .refl

/-- The exit's abort is refused once more. -/
theorem cleanup_asks :
    ∃ w', Steps (trackedExec oneByte) (abortAll, leftRegistered) (.ret (), w') ∧ ¬ w'.slot.ended 0 := by
  refine ⟨_, steps_answer [0] _ ⟨rfl, rfl⟩ (steps_answer false _ ⟨_, ⟨fun _ => oneByte_faulty, rfl⟩, rfl⟩ .refl), ?_⟩
  rintro ⟨f, hf, he⟩
  obtain rfl := Option.some.inj hf
  exact absurd he (by decide)

theorem fanOut_one :
    Steps (trackedExec oneByte)
      (fanOut 0 [(⟨1, 0, 0⟩, 0)] {}, { slot := { uploads := [{}] }, registry := [0], created := [0] })
      (.ret { crcs := [(0, 0)] },
        { slot := { uploads := [{ parts := [(1, [7])] }] }, registry := [0], created := [0] }) := by
  have hdone : fanOut 0 [] { crcs := [(0, 0)] } = .ret { crcs := [(0, 0)] } := by
    rw [fanOut]
    rfl
  rw [fanOut]
  refine steps_answer (0 : Fin 1) _ ⟨_, rfl, rfl⟩ ?_
  refine steps_answer false _ rfl ?_
  refine steps_answer (.checksum 0) { slot := { uploads := [{ parts := [(1, [7])] }] }, registry := [0], created := [0] }
    ⟨_, ⟨.ok 0, ⟨⟨{}, [7], rfl, ⟨rfl, rfl⟩, rfl, by decide, by decide, by decide⟩, {}, [7], rfl, rfl, rfl, rfl⟩,
      ⟨0, rfl⟩, [7], rfl, rfl⟩, rfl⟩ ?_
  exact hdone ▸ .refl

/-- The one chunk is copied with its checksum, and the upload is aborted. -/
theorem fetch_aborted :
    Steps (trackedExec oneByte) (getHashes 1 1 [] 0 1, {})
      (.ret (some [0]),
        { slot := { uploads := [{ parts := [(1, [7])], abortCalled := true, aborted := true }] }, created := [0] }) := by
  have hparts : getHashesParts 1 1 [] = some [⟨1, 0, 0⟩] := by decide
  refine steps_answer (.ok 0) { slot := { uploads := [{}] }, created := [0] } ⟨_, ⟨trivial, rfl, rfl⟩, rfl⟩ ?_
  refine steps_answer () { slot := { uploads := [{}] }, registry := [0], created := [0] } rfl ?_
  rw [hparts]
  refine (steps_bind (steps_bind fanOut_one _) _).trans ?_
  refine steps_answer false _ rfl ?_
  refine steps_answer false _ rfl ?_
  refine steps_answer true _ ⟨_, ⟨nofun, rfl⟩, rfl⟩ ?_
  refine steps_answer () _ rfl ?_
  exact .refl

theorem uploads_remembered_copied :
    (Steps (trackedExec oneByte) (copyObjectMultipartTracked 0 1 1, {}) (.ret .failed, leftRegistered) ∧
      leftRegistered.remembers ∧ ∃ w', Steps (trackedExec oneByte) (abortAll, leftRegistered) (.ret (), w') ∧
        ¬ w'.slot.ended 0 ∧ w'.slot.abortAsked 0) ∧
    ∃ w', Steps (trackedExec oneByte) (getHashes 1 1 [] 0 1, {}) (.ret (some [0]), w') ∧
      w'.created = [0] ∧ w'.registry = [] ∧ w'.remembers := by
  obtain ⟨hfetch, hcopy, -, hexit⟩ := uploads_remembered (E := oneByte) (w := {}) nofun nofun
  have hleft := hcopy _ _ _ _ _ copy_left_registered
  obtain ⟨w', hrun, hnot⟩ := cleanup_asks
  refine ⟨⟨copy_left_registered, hleft, w', hrun, hnot, ?_⟩,
    _, fetch_aborted, rfl, rfl, hfetch _ _ _ _ _ _ _ fetch_aborted⟩
  exact (hexit _ hleft _ hrun 0 List.mem_cons_self).resolve_left hnot

/-! ## An upload that is forgotten -/

theorem unchangedChunks_nil (localCrcs : List UInt32) : unchangedChunks localCrcs [] = 0 := by
  unfold unchangedChunks
  rw [List.length_eq_zero_iff, List.filter_eq_nil_iff]
  intro i _
  unfold unchangedChunk
  rw [List.getElem?_nil]
  cases localCrcs[i]? <;> simp

/-- A file over the limit of a single request goes up in parts, though there is no object. -/
theorem diffUploadDecide_large {localSize : Nat} {localCrcs : List UInt32} (h : kMaxSinglePutBytes < localSize)
    (h₀ : localCrcs ≠ []) (hn : localCrcs.length ≤ kMaxMultipartParts) :
    diffUploadDecide localSize localCrcs (-1) [] = diffUploadMultipart localSize localCrcs [] := by
  have hlen := List.length_pos_iff.2 h₀
  unfold diffUploadDecide
  simp only [unchangedChunks_nil]
  rw [if_neg (by omega), if_neg (by omega), if_neg (by omega)]

/-- The source opens no more once its upload is created, and the abort is refused. -/
theorem diffUploadMultipart_forgets (hf : E.faulty) (localSize : Nat) (localCrcs s3Crcs : List UInt32) :
    Steps (slotExec E) (diffUploadMultipart localSize localCrcs s3Crcs, {})
      (.ret false, { slot := { uploads := [{ abortCalled := true }] }, created := [0], refused := [0] }) := by
  refine steps_answer (.ok 0) { slot := { uploads := [{}] }, created := [0] } ⟨_, ⟨trivial, rfl, rfl⟩, rfl⟩ ?_
  refine steps_answer false _ ⟨_, ⟨.inl hf, rfl⟩, rfl⟩ ?_
  refine steps_answer false _ ⟨_, ⟨fun _ => hf, rfl⟩, rfl⟩ ?_
  exact .refl

/-- A HEAD that fails decides as an absent object does. -/
theorem remoteChunks_failed (hf : E.faulty) (decide : Int → List UInt32 → Exec Bool) :
    Steps (slotExec E) (remoteChunks >>= fun remote =>
      match remote with
      | some (s3Size, s3Crcs) => decide s3Size s3Crcs
      | none => return false, {}) (decide (-1) [], {}) := by
  refine steps_answer .failed {} ⟨{}, ⟨.inl hf, rfl⟩, rfl⟩ ?_
  exact .refl

/-- A file over the limit of a single request, whose object is absent, whose source opens no more once the upload is
created, and whose abort is refused. -/
theorem diffUploadFile_large (hf : E.faulty) (h : kMaxSinglePutBytes < E.source.length)
    (hn : numChunks defaultChunkSize E.source.length ≤ kMaxMultipartParts) :
    Steps (slotExec E) (diffUploadFile, {})
      (.ret false, { slot := { uploads := [{ abortCalled := true }] }, created := [0], refused := [0] }) := by
  have hpos : E.source.length ≠ 0 := by omega
  have hne : E.source ≠ [] := fun h => hpos (List.length_eq_zero_iff.2 h)
  have hcrcs : E.chunkCRC32s E.source ≠ [] := by
    intro h
    have hlen := numChunks_pos defaultChunkSize_pos (Nat.pos_of_ne_zero hpos)
    rw [← length_chunkCRC32s, h] at hlen
    exact absurd hlen (Nat.lt_irrefl 0)
  have hsize : trackedExec E (.slot .sourceSize) {} (.ok E.source.length) {} := ⟨{}, ⟨rfl, rfl⟩, rfl⟩
  have hsums : trackedExec E (.slot .sourceChunkCRC32s) {} (.ok (E.chunkCRC32s E.source)) {} :=
    ⟨{}, ⟨if_neg hne, rfl⟩, rfl⟩
  unfold diffUploadFile
  refine (steps_bind (steps_req hsize) _).trans ?_
  simp only [ret_bind, if_neg hpos]
  refine (steps_bind (steps_req hsums) _).trans ?_
  simp only [ret_bind]
  refine (remoteChunks_failed hf (diffUploadDecide E.source.length (E.chunkCRC32s E.source))).trans ?_
  rw [diffUploadDecide_large h hcrcs (by rwa [length_chunkCRC32s])]
  exact diffUploadMultipart_forgets hf _ _ _

theorem steps_onSlot {α : Type} {x y : Exec α × Tracked} (h : Steps (slotExec E) x y) :
    Steps (trackedExec E) (onSlot x.1, x.2) (onSlot y.1, y.2) := by
  induction h with
  | refl => exact .refl
  | tail _ hs ih =>
    cases hs with
    | answer he => exact ih.tail (.answer he)

/-- **A differential upload forgets its upload**: the sender of a file of 5 GiB and a byte gives its upload up, and the
abort is refused. -/
theorem diffUploadFile_forgets :
    ¬ ∀ (E : Env) (w w' : Tracked) (r : Bool), E.mode = .strict → w.remembers →
      Steps (trackedExec E) (diffUploadFileTracked, w) (.ret r, w') → w'.remembers := by
  intro h
  let E : Env :=
    { source := List.replicate (kMaxSinglePutBytes + 1) 0, crc := fun _ => 0, stamp := fun _ => True, mode := .strict }
  have hf : E.faulty := Mode.noConfusion
  have hlen : E.source.length = kMaxSinglePutBytes + 1 := List.length_replicate
  have hrun := diffUploadFile_large (E := E) hf (by omega) (by rw [hlen]; decide)
  rcases h E {} _ false rfl nofun (steps_onSlot hrun) 0 List.mem_cons_self with ⟨f, hf, he⟩ | hmem
  · obtain rfl := Option.some.inj hf
    exact absurd he (by decide)
  · exact absurd hmem List.not_mem_nil

end Mito
