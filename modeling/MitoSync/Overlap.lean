import MitoSync.Entry
import MitoSync.Lib.Overlap
import MitoSync.Requests
/-!
# Overlap — several runs on one destination

Nothing keeps two runs off one bucket or one tree.  Each has its temporary files and multipart uploads to itself, under
names of their own, but the files and objects themselves they share, and what a run finds at a key may be another's.
An executor that writes its destination whole does not look at what is there (`whole_oblivious`), so it goes on as if it
were alone.  At every point of any such runs, then, a key holds what it held or all of what one of their lines is to
leave, and never a mixture of two (`never_torn`).
-/
namespace Mito

open Lib Prog Relation Overlap

/-- The destination's entry; the rest of a slot is its executor's own. -/
def entryCell : Cell Slot (Option Stored) where
  get := Slot.entry
  set e s := { s with entry := e }
  get_set _ _ := rfl
  set_get _ := rfl
  set_set _ _ _ := rfl

instance : Inhabited Stored := ⟨⟨[], 0⟩⟩

/-- Answers after which an executor goes on alike: a writer does not mind whether there is a regular file. -/
def Call.same : (c : Call) → Resp c → Resp c → Prop
  | .symlinkStatus, r, r' => r = .refused ↔ r' = .refused
  | _, r, r' => r = r'

/-! ## What an executor cannot tell -/

section Blind

variable {E : Env} {s s' : Slot}

/-- A request that overwrites the entry, or does nothing. -/
theorem request_overwrites {α : Type} {can : Prop} {done : α → Slot → Prop} {r : Ans α}
    (h : E.request can s done r s') :
    s' = s ∧ (∀ e, E.request can (entryCell.set e s) done r (entryCell.set e s)) ∨
      ∀ e, E.request can (entryCell.set e s) done r s' := by
  cases r with
  | ok a => exact .inr fun _ => h
  | failed =>
    obtain ⟨hf, rfl | hd⟩ := h
    · exact .inl ⟨rfl, fun _ => ⟨hf, .inl rfl⟩⟩
    · exact .inr fun _ => ⟨hf, .inr hd⟩
  | threw =>
    obtain ⟨hf, rfl | hd⟩ := h
    · exact .inl ⟨rfl, fun _ => ⟨hf, .inl rfl⟩⟩
    · exact .inr fun _ => ⟨hf, .inr hd⟩

/-- A request that leaves the entry. -/
theorem request_leaves {α : Type} {can : Prop} {done : α → Slot → Prop} {done' : Option Stored → α → Slot → Prop}
    (hdone : ∀ a s', done a s' → s'.entry = s.entry ∧ ∀ e, done' e a (entryCell.set e s')) {r : Ans α}
    (h : E.request can s done r s') :
    s'.entry = s.entry ∧ ∀ e, E.request can (entryCell.set e s) (done' e) r (entryCell.set e s') := by
  cases r with
  | ok a => exact ⟨(hdone a s' h.2).1, fun e => ⟨h.1, (hdone a s' h.2).2 e⟩⟩
  | failed =>
    obtain ⟨hf, rfl | ⟨hm, hc, a, hd⟩⟩ := h
    · exact ⟨rfl, fun _ => ⟨hf, .inl rfl⟩⟩
    · exact ⟨(hdone a s' hd).1, fun e => ⟨hf, .inr ⟨hm, hc, a, (hdone a s' hd).2 e⟩⟩⟩
  | threw =>
    obtain ⟨hf, rfl | ⟨hm, hc, a, hd⟩⟩ := h
    · exact ⟨rfl, fun _ => ⟨hf, .inl rfl⟩⟩
    · exact ⟨(hdone a s' hd).1, fun e => ⟨hf, .inr ⟨hm, hc, a, (hdone a s' hd).2 e⟩⟩⟩

theorem lookup_leaves {α : Type} {value : Option α} {r : Ans α} (h : E.lookup s value r s') :
    s'.entry = s.entry ∧ ∀ e, E.lookup (entryCell.set e s) value r (entryCell.set e s') := by
  cases r <;> obtain ⟨h, rfl⟩ := h <;> exact ⟨rfl, fun _ => ⟨h, rfl⟩⟩

theorem syscall_leaves {can : Prop} {done : Slot → Prop} {done' : Option Stored → Slot → Prop}
    (hdone : ∀ s', done s' → s'.entry = s.entry ∧ ∀ e, done' e (entryCell.set e s')) {r : Bool}
    (h : E.syscall can s done r s') :
    s'.entry = s.entry ∧ ∀ e, E.syscall can (entryCell.set e s) (done' e) r (entryCell.set e s') := by
  cases r with
  | true => exact ⟨(hdone s' h.2).1, fun e => ⟨h.1, (hdone s' h.2).2 e⟩⟩
  | false =>
    obtain ⟨h, rfl⟩ := h
    exact ⟨rfl, fun _ => ⟨h, rfl⟩⟩

theorem writeTemp_leaves {d : Bytes} {r : WriteAns} (h : exec E (.writeTemp d) s r s') :
    s'.entry = s.entry ∧ ∀ e, exec E (.writeTemp d) (entryCell.set e s) r (entryCell.set e s') := by
  cases r with
  | eintr =>
    obtain ⟨h, rfl⟩ := h
    exact ⟨rfl, fun _ => ⟨h, rfl⟩⟩
  | failed =>
    obtain ⟨h, rfl⟩ := h
    exact ⟨rfl, fun _ => ⟨h, rfl⟩⟩
  | wrote n =>
    obtain ⟨hcan, hn, h0, hpos⟩ := h
    rcases Nat.eq_zero_or_pos n with hz | hp
    · obtain ⟨hf, rfl⟩ := h0 hz
      exact ⟨rfl, fun e => ⟨hcan, hn, fun _ => ⟨hf, rfl⟩, fun hp => absurd hz (by omega)⟩⟩
    · obtain ⟨o, t, ho, ht, rfl⟩ := hpos hp
      exact ⟨rfl, fun e => ⟨hcan, hn, fun hz => absurd hz (by omega), fun _ => ⟨o, t, ho, ht, rfl⟩⟩⟩

/-- A request that leaves the entry and answers the same whatever it is. -/
theorem blind_of_leaves {c : Call} (hsame : ∀ r, c.same r r)
    (h : ∀ s r s', exec E c s r s' → s'.entry = s.entry ∧ ∀ e, exec E c (entryCell.set e s) r (entryCell.set e s')) :
    Blind (exec E) entryCell Call.same c := fun s r s' hr =>
  .inl ⟨(h s r s' hr).1, fun e => ⟨r, hsame r, (h s r s' hr).2 e⟩⟩

/-- A request that overwrites the entry, or does nothing, whatever it is. -/
theorem blind_of_overwrites {c : Call} (hsame : ∀ r, c.same r r)
    (h : ∀ s r s', exec E c s r s' → s' = s ∧ (∀ e, exec E c (entryCell.set e s) r (entryCell.set e s)) ∨
      ∀ e, exec E c (entryCell.set e s) r s') : Blind (exec E) entryCell Call.same c := fun s r s' hr => by
  rcases h s r s' hr with ⟨rfl, hleft⟩ | hover
  · exact .inl ⟨rfl, fun e => ⟨r, hsame r, hleft e⟩⟩
  · exact .inr fun e => ⟨r, hsame r, hover e⟩

/-- **No request of a whole-file executor tells what is at its key.** -/
theorem whole_blind {c : Call} (hc : c.whole) : Blind (exec E) entryCell Call.same c := by
  cases c with
  | cancelled =>
    refine blind_of_leaves (fun _ => rfl) fun s r s' h => ?_
    obtain ⟨h, hf, rfl⟩ := h
    exact ⟨rfl, fun _ => ⟨h, hf, rfl⟩⟩
  | cacheHit =>
    refine blind_of_leaves (fun _ => rfl) fun s r s' h => ?_
    obtain rfl : s' = s := h
    exact ⟨rfl, fun _ => rfl⟩
  | sourceSize => exact blind_of_leaves (fun _ => rfl) fun _ _ _ => lookup_leaves
  | sourceRange start len => exact blind_of_leaves (fun _ => rfl) fun _ _ _ => lookup_leaves
  | openSource | resolvesWithinBase | fdatasync | closeTemp =>
    refine blind_of_leaves (fun _ => rfl) fun _ _ _ => syscall_leaves fun s' h => ?_
    obtain rfl := h
    exact ⟨rfl, fun _ => rfl⟩
  | createDirectories =>
    refine blind_of_leaves (fun _ => rfl) fun _ _ _ => syscall_leaves fun s' h => ?_
    obtain rfl := h
    exact ⟨rfl, fun _ => rfl⟩
  | removeTemp =>
    refine blind_of_leaves (fun _ => rfl) fun _ _ _ => syscall_leaves fun s' h => ?_
    obtain rfl := h
    exact ⟨rfl, fun _ => rfl⟩
  | readSource offset n =>
    refine blind_of_leaves (fun _ => rfl) fun s r s' h => ?_
    cases r with
    | data d =>
      obtain ⟨hd, hn, hne, rfl⟩ := h
      exact ⟨rfl, fun _ => ⟨hd, hn, hne, rfl⟩⟩
    | eintr =>
      obtain ⟨h, rfl⟩ := h
      exact ⟨rfl, fun _ => ⟨h, rfl⟩⟩
    | failed =>
      obtain ⟨h, rfl⟩ := h
      exact ⟨rfl, fun _ => ⟨h, rfl⟩⟩
  | openTemp =>
    refine blind_of_leaves (fun _ => rfl) fun s r s' h => ?_
    cases r with
    | opened =>
      obtain ⟨hp, t, ht, rfl⟩ := h
      exact ⟨rfl, fun _ => ⟨hp, t, ht, rfl⟩⟩
    | eexist =>
      obtain ⟨h, rfl⟩ := h
      exact ⟨rfl, fun _ => ⟨h, rfl⟩⟩
    | failed =>
      obtain ⟨h, rfl⟩ := h
      exact ⟨rfl, fun _ => ⟨h, rfl⟩⟩
  | writeTemp d => exact blind_of_leaves (fun _ => rfl) fun _ _ _ => writeTemp_leaves
  | renameTemp =>
    refine blind_of_overwrites (fun _ => rfl) fun s r s' h => ?_
    cases r with
    | true => exact .inr fun _ => h
    | false =>
      obtain ⟨h, rfl⟩ := h
      exact .inl ⟨rfl, fun _ => ⟨h, rfl⟩⟩
  | putObject d => exact blind_of_overwrites (fun _ => rfl) fun _ _ _ => request_overwrites
  | putSource => exact blind_of_overwrites (fun _ => rfl) fun _ _ _ => request_overwrites
  | deleteObject => exact blind_of_overwrites (fun _ => rfl) fun _ _ _ => request_overwrites
  | copyObject => exact blind_of_overwrites (fun _ => rfl) fun _ _ _ => request_overwrites
  | completeMultipartUpload id parts => exact blind_of_overwrites (fun _ => rfl) fun _ _ _ => request_overwrites
  | createMultipartUpload =>
    refine blind_of_leaves (fun _ => rfl) fun _ _ _ => request_leaves fun a s' h => ?_
    obtain ⟨rfl, rfl⟩ := h
    exact ⟨rfl, fun _ => ⟨rfl, rfl⟩⟩
  | uploadPartCopyFromSource id n a b =>
    refine blind_of_leaves (fun _ => rfl) fun _ _ _ => request_leaves fun a s' h => ?_
    obtain ⟨u, d, hu, hb, ha, rfl⟩ := h
    exact ⟨rfl, fun _ => ⟨u, d, hu, hb, ha, rfl⟩⟩
  | abortMultipartUpload id =>
    refine blind_of_leaves (fun _ => rfl) fun s r s' h => ?_
    obtain ⟨hf, rfl⟩ := h
    exact ⟨rfl, fun _ => ⟨hf, rfl⟩⟩
  | _ => exact hc.elim

theorem symlinkStatus_blind : Blind (exec E) entryCell Call.same .symlinkStatus := by
  intro s r s' h
  have hany : ∀ e : Option Stored, r ≠ .refused → ∃ r', Call.same .symlinkStatus r r' ∧
      exec E .symlinkStatus (entryCell.set e s) r' (entryCell.set e s) := by
    intro e hr
    cases e with
    | none => exact ⟨.absent, iff_of_false hr (by simp), rfl, rfl⟩
    | some o => exact ⟨.regular, iff_of_false hr (by simp), Option.some_ne_none o, rfl⟩
  cases r with
  | refused =>
    obtain ⟨hf, rfl⟩ := h
    exact .inl ⟨rfl, fun e => ⟨.refused, Iff.rfl, hf, rfl⟩⟩
  | absent =>
    obtain ⟨-, rfl⟩ := h
    exact .inl ⟨rfl, fun e => hany e (by simp)⟩
  | regular =>
    obtain ⟨-, rfl⟩ := h
    exact .inl ⟨rfl, fun e => hany e (by simp)⟩

theorem ask_oblivious (c : Call) (hc : c.whole) : Oblivious (exec E) entryCell Call.same (ask c) := by
  refine oblivious_req (whole_blind hc) fun r r' h => ?_
  cases c with
  | symlinkStatus => exact hc.elim
  | _ => exact h

theorem openWriter_oblivious : Oblivious (exec E) entryCell Call.same openWriter := by
  have hcreate := createTemp_composes (oblivious_composes (exec E) entryCell Call.same) ask_oblivious 8
  refine ⟨symlinkStatus_blind, fun r r' h => ?_, fun r => ?_⟩
  · cases r with
    | refused =>
      obtain rfl : r' = .refused := h.1 rfl
      rfl
    | absent =>
      cases r' with
      | refused => exact absurd (h.2 rfl) (by simp)
      | absent => rfl
      | regular => rfl
    | regular =>
      cases r' with
      | refused => exact absurd (h.2 rfl) (by simp)
      | absent => rfl
      | regular => rfl
  · cases r with
    | refused => exact trivial
    | absent => exact hcreate
    | regular => exact hcreate

/-- **A whole-file line cannot tell what is at its key.** -/
theorem whole_oblivious (limits : Limits) {config : SyncConfig} {f : SyncFileEntry} (hf : f.isWhole config) :
    Oblivious (exec E) entryCell Call.same (processEntry limits config f) :=
  processEntry_composes (oblivious_composes (exec E) entryCell Call.same) ask_oblivious openWriter_oblivious limits hf

end Blind

section Together

variable {ι κ : Type} [DecidableEq ι] [DecidableEq κ]

/-- A line as one of the runs processes it. -/
structure Writer where
  env : Env
  limits : Limits
  config : SyncConfig
  line : SyncFileEntry

namespace Writer

def program (w : Writer) : Exec Outcome := processEntry w.limits w.config w.line

/-- The line's executor writes its destination whole, and its source is what the planner saw. -/
structure Whole (w : Writer) : Prop where
  line : w.line.isWhole w.config
  sized : w.env.Sized w.line

/-- The entry is what the line is to leave. -/
def leaves (w : Writer) (e : Option Stored) : Prop := w.env.hits (w.line.goal w.env.source) e

variable {w : Writer}

theorem Whole.not_skip (h : w.Whole) : w.line.action ≠ .skip := fun ha => by
  have := h.line
  simp [SyncFileEntry.isWhole, ha] at this

theorem Whole.not_diff (h : w.Whole) : ¬ w.line.isDiff := by
  rintro (ha | ha)
  · have := h.line
    simp [SyncFileEntry.isWhole, ha] at this
  · have := h.line
    simp [SyncFileEntry.isWhole, ha] at this

theorem during_whole (h : w.Whole) {old : Option Stored} {s : Slot} (hd : w.env.During w.config w.line old s) :
    s.entry = old ∨ w.leaves s.entry := by
  rw [Env.During, if_neg fun ha => h.not_diff (.inr ha)] at hd
  exact hd

/-- What one of them does alone, from any entry: it leaves that or its goal, and is done only with the latter. -/
theorem program_spec (h : w.Whole) {s : Slot} (hs : s.seen = false) :
    wp (exec w.env) (fun s' => s'.entry = s.entry ∨ w.leaves s'.entry)
      (fun s' => s'.entry = s.entry ∨ w.leaves s'.entry) w.program
      (fun o s' => (s'.entry = s.entry ∨ w.leaves s'.entry) ∧ (o = .done → w.leaves s'.entry)) s := by
  refine wp_mono (fun o s' hc => ?_) (processEntry_spec (F := True) (fun _ => during_whole h)
    (fun _ _ => during_whole h) h.sized ?_ (fun hd => absurd hd h.not_diff) h.not_skip ?_)
  · cases o with
    | done =>
      have hdid : w.leaves s'.entry := hc.resolve_right fun hd => h.not_diff hd.1
      exact ⟨.inr hdid, fun _ => hdid⟩
    | failed => exact ⟨during_whole h hc.2, fun heq => absurd heq (by simp)⟩
    | dropped => exact ⟨during_whole h hc.2, fun heq => absurd heq (by simp)⟩
  · constructor <;> simp
  · exact ⟨rfl, fun hseen => absurd (hs.symm.trans hseen) (by simp), fun _ => .inr trivial⟩

end Writer

/-- One request of a line of some run, on what the others have left at its key. -/
abbrev OverlapStep (w : ι → Writer) (key : ι → κ) :=
  Overlap.Step (α := Outcome) (fun t => exec (w t).env) entryCell key

/-- The lines' programs, each at its start, over what the destination holds. -/
def overlapStart (w : ι → Writer) (own : ι → Slot) (store : κ → Option Stored) :
    Overlap.State ι κ Slot (Option Stored) Call Resp Outcome := ⟨fun t => (w t).program, own, store⟩

variable {w : ι → Writer} {key : ι → κ} {own : ι → Slot} {store : κ → Option Stored}

omit [DecidableEq ι] [DecidableEq κ] in
theorem writers_specified (hw : ∀ t, (w t).Whole) (hown : ∀ t, (own t).seen = false) :
    Specified (fun t => exec (w t).env) entryCell Call.same (fun t => (w t).leaves) (fun _ o => o = .done)
      (overlapStart w own store) where
  oblivious t := whole_oblivious _ (hw t).line
  leaves t e q u h := by
    have hspec := Writer.program_spec (hw t) (s := entryCell.set e (own t)) (hown t)
    exact wp_crash (I := fun s' => s'.entry = e ∨ (w t).leaves s'.entry) (fun _ _ hq => hq.1) (fun _ hh => hh) hspec h
  returns t e o u h ho := by
    have hspec := Writer.program_spec (hw t) (s := entryCell.set e (own t)) (hown t)
    exact (wp_returns hspec h).2 ho

/-- **However many runs work on one destination, and however they interleave, it is never torn**: at every point a key
holds what it held or all of what one of their lines is to leave there, and the latter once any of its lines is done. -/
theorem never_torn (hw : ∀ t, (w t).Whole) (hown : ∀ t, (own t).seen = false)
    {y : Overlap.State ι κ Slot (Option Stored) Call Resp Outcome}
    (h : ReflTransGen (OverlapStep w key) (overlapStart w own store) y) :
    (∀ k, y.store k = store k ∨ ∃ t, key t = k ∧ (w t).leaves (y.store k)) ∧
      ∀ t, y.programs t = .ret .done → ∃ t', key t' = key t ∧ (w t').leaves (y.store (key t)) :=
  ⟨together_whole (writers_specified hw hown) h, fun _ ht => together_done (writers_specified hw hown) h ht rfl⟩

/-- The upload of a file of one byte. -/
def byteWriter (b : UInt8) : Writer where
  env := { source := [b], crc := fun _ => 0, stamp := fun _ => True, mode := .sound }
  limits := ⟨9, 0⟩
  config := {}
  line := { relativePath := ['a'], action := .upload, localSize := 1, localMtime := 5 }

theorem byteWriter_run (b : UInt8) (s : Slot) (hs : s.seen = false) :
    Steps (exec (byteWriter b).env) ((byteWriter b).program, s) (.ret .done, { s with entry := some ⟨[b], 9⟩ }) := by
  obtain ⟨entry, temp, uploads, parent, seen⟩ := s
  obtain rfl : seen = false := hs
  refine steps_answer (.ok [b]) _ ⟨rfl, rfl⟩ ?_
  refine steps_answer true _ rfl ?_
  refine steps_answer false _ ⟨by simp, by simp, rfl⟩ ?_
  refine steps_answer false _ ⟨by simp, by simp, rfl⟩ ?_
  refine steps_answer false _ ⟨by simp, by simp, rfl⟩ ?_
  refine steps_answer (.ok ()) _ ⟨Nat.le_of_ble_eq_true rfl, 9, trivial, rfl⟩ ?_
  exact .refl

def twoWriters (t : Bool) : Writer := byteWriter (if t then 1 else 2)

/-- Two runs upload a file of one byte each under one key: the key holds one of the two. -/
theorem never_torn_two_writers :
    ∃ y, ReflTransGen (OverlapStep twoWriters fun _ => ()) (overlapStart twoWriters (fun _ => {}) fun _ => none) y ∧
      (∀ t, y.programs t = .ret .done) ∧ ∃ t, (twoWriters t).leaves (y.store ()) := by
  have hwhole : ∀ t, (twoWriters t).Whole := fun t =>
    ⟨trivial, ⟨fun _ => .inl rfl, fun h => by simp [twoWriters, byteWriter] at h,
      fun h => by simp [SyncFileEntry.isDiff, twoWriters, byteWriter] at h⟩⟩
  have hone : ∀ (x : Overlap.State Bool Unit Slot (Option Stored) Call Resp Outcome) t,
      x.programs t = (twoWriters t).program → (x.own t).seen = false →
      ∃ y, ReflTransGen (OverlapStep twoWriters fun _ => ()) x y ∧
        y.programs = Function.update x.programs t (.ret .done) ∧ ∀ t', t' ≠ t → y.own t' = x.own t' := by
    intro x t hp hs
    have hrun := byteWriter_run (if t then 1 else 2) (entryCell.set (x.store ()) (x.own t)) hs
    obtain ⟨y, hy, hprograms, -, -, hown⟩ :=
      task_run (fun t => exec (twoWriters t).env) entryCell (fun _ => ()) (x := x) (t := t)
        (q := (.ret .done, _)) (by rw [hp]; exact hrun)
    exact ⟨y, hy, hprograms, hown⟩
  obtain ⟨x, hx, hxp, hxo⟩ := hone (overlapStart twoWriters (fun _ => {}) fun _ => none) true rfl rfl
  have hxf : x.programs false = (twoWriters false).program := by
    rw [hxp]
    rfl
  obtain ⟨y, hy, hyp, -⟩ := hone x false hxf (by rw [hxo false (by simp)]; rfl)
  have hdone : ∀ t, y.programs t = .ret .done := by
    intro t
    rw [hyp, hxp]
    cases t <;> rfl
  obtain ⟨t, -, ht⟩ := (never_torn hwhole (fun _ => rfl) (hx.trans hy)).2 true (hdone true)
  exact ⟨y, hx.trans hy, hdone, t, ht⟩

end Together

end Mito
