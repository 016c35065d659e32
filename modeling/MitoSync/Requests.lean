import MitoSync.Sync
/-!
# Requests — what the executors of whole files are made of

An executor that writes its destination whole never looks at what is there, but for one look at whether a link or a
directory stands in its way.  Here is that executor by executor: what holds of a program once it holds of its parts
holds of a line processed whole (`processEntry_composes`), if it holds of the requests such lines make (`Call.whole`)
and of the writer's constructor.
-/
namespace Mito

open Lib Prog

/-- The requests of the executors that write a destination whole, `openWriter` apart. -/
def Call.whole : Call → Prop
  | .cancelled | .cacheHit | .sourceSize | .sourceRange _ _ | .openSource | .resolvesWithinBase | .createDirectories
  | .openTemp | .writeTemp _ | .fdatasync | .closeTemp | .renameTemp | .removeTemp | .putObject _ | .putSource
  | .deleteObject | .copyObject | .createMultipartUpload | .uploadPartCopyFromSource _ _ _ _
  | .completeMultipartUpload _ _ | .abortMultipartUpload _ => True
  | .readSource _ n => 0 < n
  | _ => False

/-- The requests of a copy in parts. -/
def Call.ofCopy : Call → Prop
  | .cancelled | .createMultipartUpload | .uploadPartCopyFromSource _ _ _ _ | .completeMultipartUpload _ _
  | .abortMultipartUpload _ => True
  | _ => False

theorem Call.ofCopy.whole {c : Call} (h : c.ofCopy) : c.whole := by
  cases c <;> first | exact h.elim | trivial

/-- The lines whose executor writes its destination whole, or deletes an object. -/
def SyncFileEntry.isWhole (config : SyncConfig) (f : SyncFileEntry) : Prop :=
  match f.action with
  | .upload | .download | .copy => True
  | .delete => config.direction = .upload ∨ config.direction = .s3ToS3
  | _ => False

section Requests

variable {S : ∀ {α : Type}, Exec α → Prop} (hS : Composes S)

include hS

theorem retry_composes (hcancelled : S (ask .cancelled)) {α : Type} {request : Exec (Ans α)} (h : S request) :
    ∀ n, S (retry request n)
  | 0 => hS.ret _
  | n + 1 => by
    refine hS.bind hcancelled (fun stop => ?_)
    cases stop with
    | true => exact hS.ret _
    | false =>
      refine hS.bind h (fun ans => ?_)
      cases ans with
      | ok a => exact hS.ret _
      | threw => exact hS.ret _
      | failed => exact retry_composes hcancelled h n

theorem sendParts_composes {part : Nat → Exec (Ans Nat)} (h : ∀ i, S (part i)) : ∀ n i, S (sendParts part i n)
  | 0, _ => hS.ret _
  | n + 1, i => by
    refine hS.bind (h i) (fun ans => ?_)
    cases ans with
    | failed => exact hS.ret _
    | threw => exact hS.ret _
    | ok etag =>
      refine hS.bind (sendParts_composes h n (i + 1)) (fun ps => ?_)
      cases ps <;> exact hS.ret _

theorem completeOrAbort_composes (id : Nat) (hcomplete : ∀ ps, S (ask (.completeMultipartUpload id ps)))
    (habort : S (ask (.abortMultipartUpload id))) (parts : Option (List (Nat × Nat))) :
    S (completeOrAbort id parts) := by
  have hdrop : S (ask (.abortMultipartUpload id) >>= fun _ => (return false : Exec Bool)) :=
    hS.bind habort fun _ => hS.ret _
  cases parts with
  | none => exact hdrop
  | some ps =>
    refine hS.bind (hcomplete ps) (fun ans => ?_)
    cases ans with
    | ok a => exact hS.ret _
    | failed => exact hdrop
    | threw => exact hdrop

theorem copyObjectMultipart_composes (hcopy : ∀ c : Call, c.ofCopy → S (ask c))
    (clientRetries sourceSize partSize : Nat) : S (copyObjectMultipart clientRetries sourceSize partSize) := by
  refine hS.bind (hcopy .createMultipartUpload trivial) (fun ans => ?_)
  cases ans with
  | failed => exact hS.ret _
  | threw => exact hS.ret _
  | ok id =>
    refine hS.bind (sendParts_composes hS (fun i => ?_) _ _) (fun parts => ?_)
    · refine hS.bind (hcopy .cancelled trivial) (fun stop => ?_)
      cases stop with
      | true => exact hS.ret _
      | false =>
        exact retry_composes hS (hcopy .cancelled trivial) (hcopy (.uploadPartCopyFromSource id _ _ _) trivial) _
    · refine hS.bind (completeOrAbort_composes hS id (fun ps => hcopy (.completeMultipartUpload id ps) trivial)
        (hcopy (.abortMultipartUpload id) trivial) parts) (fun b => ?_)
      cases b <;> exact hS.ret _

variable (hask : ∀ c : Call, c.whole → S (ask c))

include hask

/-! ## Writing objects -/

theorem uploadSmallFile_composes : S uploadSmallFile := by
  refine retry_composes hS (hask .cancelled trivial) ?_ _
  refine hS.bind (hask .sourceSize trivial) (fun ans => ?_)
  cases ans with
  | failed => exact hS.ret _
  | threw => exact hS.ret _
  | ok fileSize =>
    dsimp only
    split
    · exact hS.ret _
    · refine hS.bind (hask .putSource trivial) (fun ans => ?_)
      cases ans <;> exact hS.ret _

theorem copyS3Object_composes (clientRetries fileSize : Nat) : S (copyS3Object clientRetries fileSize) := by
  refine retry_composes hS (hask .cancelled trivial) ?_ _
  refine hS.bind (hask .cancelled trivial) (fun stop => ?_)
  cases stop with
  | true => exact hS.ret _
  | false =>
    simp only [Bool.false_eq_true, if_false]
    split
    · exact hask .copyObject trivial
    · exact copyObjectMultipart_composes hS (fun c hc => hask c hc.whole) _ _ _

/-! ## Writing files -/

theorem createTemp_composes : ∀ n, S (createTemp n)
  | 0 => hS.ret _
  | n + 1 => by
    refine hS.bind (hask .openTemp trivial) (fun ans => ?_)
    cases ans with
    | opened => exact hS.ret _
    | eexist => exact createTemp_composes n
    | failed => exact hS.ret _

theorem openWriter_composes (hstatus : S (ask .symlinkStatus)) : S openWriter := by
  have hcreate := createTemp_composes hS hask 8
  refine hS.bind hstatus (fun ans => ?_)
  cases ans with
  | refused => exact hS.ret _
  | absent => exact hcreate
  | regular => exact hcreate

theorem writeAll_composes : ∀ fuel d, S (writeAll fuel d)
  | 0, [] => hS.ret _
  | _ + 1, [] => hS.ret _
  | 0, _ :: _ => hS.halt
  | fuel + 1, b :: d => by
    refine hS.bind (hask (.writeTemp (b :: d)) trivial) (fun ans => ?_)
    cases ans with
    | eintr => exact writeAll_composes fuel (b :: d)
    | failed => exact hS.ret _
    | wrote n =>
      dsimp only
      split
      · exact hS.ret _
      · exact writeAll_composes fuel _

theorem commitOrDrop_composes (written : Bool) : S (commitOrDrop written) := by
  have hdrop : S (ask .removeTemp >>= fun _ => (return false : Exec Bool)) :=
    hS.bind (hask .removeTemp trivial) fun _ => hS.ret _
  cases written with
  | false => exact hdrop
  | true =>
    refine hS.bind ?_ (fun committed => ?_)
    · refine hS.bind (hask .fdatasync trivial) (fun ok => ?_)
      cases ok with
      | false => exact hS.ret _
      | true =>
        refine hS.bind (hask .closeTemp trivial) (fun ok => ?_)
        cases ok with
        | false => exact hS.ret _
        | true => exact hask .renameTemp trivial
    · cases committed with
      | true => exact hS.ret _
      | false => exact hdrop

theorem copyWrite_composes : ∀ fuel d, S (copyWrite fuel d)
  | 0, [] => hS.ret _
  | _ + 1, [] => hS.ret _
  | 0, _ :: _ => hS.halt
  | fuel + 1, b :: d => by
    refine hS.bind (hask .cancelled trivial) (fun stop => ?_)
    cases stop with
    | true => exact hS.ret _
    | false =>
      refine hS.bind (hask (.writeTemp (b :: d)) trivial) (fun ans => ?_)
      cases ans with
      | eintr => exact copyWrite_composes fuel (b :: d)
      | failed => exact hS.ret _
      | wrote n =>
        dsimp only
        split
        · exact hS.ret _
        · exact copyWrite_composes fuel _

theorem copyLoop_composes (fuel : Nat) : ∀ turns offset, S (copyLoop fuel turns offset)
  | 0, _ => hS.halt
  | turns + 1, offset => by
    refine hS.bind (hask .cancelled trivial) (fun stop => ?_)
    cases stop with
    | true => exact hS.ret _
    | false =>
      have hbuffer : Call.whole (.readSource offset copyBufferSize) := Nat.mul_pos (by decide) (by decide)
      refine hS.bind (hask _ hbuffer) (fun ans => ?_)
      cases ans with
      | eintr => exact copyLoop_composes fuel turns offset
      | failed => exact hS.ret _
      | data d =>
        dsimp only
        split
        · exact hS.ret _
        · refine hS.bind (copyWrite_composes hS hask _ _) (fun ok => ?_)
          cases ok with
          | false => exact hS.ret _
          | true => exact copyLoop_composes fuel turns _

variable (hopen : S openWriter)

include hopen

theorem writeAtomically_composes (fuel : Nat) (data : Bytes) : S (writeAtomically fuel data) := by
  refine hS.bind hopen (fun ok => ?_)
  cases ok with
  | false => exact hS.ret _
  | true => exact hS.bind (writeAll_composes hS hask _ _) (commitOrDrop_composes hS hask)

theorem downloadFromData_composes (fuel : Nat) (base relative : Str) (data : Bytes) :
    S (downloadFromData fuel base relative data) := by
  unfold downloadFromData
  split
  · exact hS.ret _
  · refine hS.bind (hask .resolvesWithinBase trivial) (fun inside => ?_)
    cases inside with
    | false => exact hS.ret _
    | true => exact writeAtomically_composes hS hask hopen _ _

theorem downloadAttempts_composes (fuel s3Size : Nat) : ∀ n, S (downloadAttempts fuel s3Size n)
  | 0 => hS.ret _
  | n + 1 => by
    refine hS.bind (hask .cancelled trivial) (fun stop => ?_)
    cases stop with
    | true => exact hS.ret _
    | false =>
      refine hS.bind (hask (.sourceRange 0 s3Size) trivial) (fun ans => ?_)
      cases ans with
      | threw => exact hS.ret _
      | failed => exact downloadAttempts_composes fuel s3Size n
      | ok data =>
        dsimp only
        split
        · exact downloadAttempts_composes fuel s3Size n
        · refine hS.bind (writeAtomically_composes hS hask hopen _ _) (fun ok => ?_)
          cases ok <;> exact hS.ret _

theorem downloadSmallFile_composes (hempty : S (ask .createEmpty)) (fuel : Nat) (base relative : Str) (s3Size : Int) :
    S (downloadSmallFile fuel base relative s3Size) := by
  unfold downloadSmallFile
  split
  · exact hS.ret _
  split
  · exact hS.ret _
  refine hS.bind (hask .resolvesWithinBase trivial) (fun inside => ?_)
  cases inside with
  | false => exact hS.ret _
  | true =>
    simp only [if_true]
    split
    · refine hS.bind hempty (fun ok => ?_)
      cases ok <;> exact hS.ret _
    · exact downloadAttempts_composes hS hask hopen _ _ _

theorem copyLocalFile_composes (fuel : Nat) (sourceBase destBase relative : Str) :
    S (copyLocalFile fuel sourceBase destBase relative) := by
  refine hS.bind (hask .cancelled trivial) (fun stop => ?_)
  cases stop with
  | true => exact hS.ret _
  | false =>
    simp only [Bool.false_eq_true, if_false]
    split
    · exact hS.ret _
    refine hS.bind (hask .resolvesWithinBase trivial) (fun inside => ?_)
    cases inside with
    | false => exact hS.ret _
    | true =>
      refine hS.bind (hask .createDirectories trivial) (fun made => ?_)
      cases made with
      | false => exact hS.ret _
      | true =>
        refine hS.bind (hask .openSource trivial) (fun opened => ?_)
        cases opened with
        | false => exact hS.ret _
        | true =>
          refine hS.bind hopen (fun ok => ?_)
          cases ok with
          | false => exact hS.ret _
          | true =>
            refine hS.bind (copyLoop_composes hS hask _ _ _) (fun success => ?_)
            exact hS.bind (hask .cancelled trivial) (fun cancelled => commitOrDrop_composes hS hask _)

omit hopen

/-! ## A line -/

theorem count_composes (success : Bool) : S (count success) := by
  cases success with
  | true => exact hS.ret _
  | false =>
    refine hS.bind (hask .cancelled trivial) (fun stop => ?_)
    cases stop <;> exact hS.ret _

theorem countAns_composes (a : Ans Unit) : S (countAns a) := by
  cases a with
  | ok u => exact count_composes hS hask true
  | failed => exact count_composes hS hask false
  | threw => exact hS.halt

theorem prefetch_composes (f : SyncFileEntry) : S (prefetch f) := by
  unfold prefetch
  cases prefetchSize f with
  | none => exact hS.ret _
  | some size =>
    refine hS.bind (hask (.sourceRange 0 size) trivial) (fun ans => ?_)
    cases ans with
    | ok data =>
      refine hS.bind (hask .cacheHit trivial) (fun hit => ?_)
      cases hit <;> exact hS.ret _
    | failed => exact hS.ret _
    | threw => exact hS.ret _

include hopen

theorem enqueueWrite_composes (fuel : Nat) (base relative : Str) (data : Bytes) :
    S (enqueueWrite fuel base relative data) := by
  refine hS.bind (hask .cancelled trivial) (fun stop => ?_)
  cases stop with
  | true => exact hS.ret _
  | false =>
    refine hS.bind (downloadFromData_composes hS hask hopen _ _ _ _) (fun ok => ?_)
    cases ok <;> exact hS.ret _

theorem processDownload_composes (fuel : Nat) (config : SyncConfig) (f : SyncFileEntry) (preRead : Option Bytes) :
    S (processDownload fuel config f preRead) := by
  cases preRead with
  | some data => exact enqueueWrite_composes hS hask hopen _ _ _ _
  | none =>
    unfold processDownload
    dsimp only
    split
    · exact hS.bind (downloadFromData_composes hS hask hopen _ _ _ _) (count_composes hS hask)
    · refine hS.bind (retry_composes hS (hask .cancelled trivial) (hask (.sourceRange 0 _) trivial) _) (fun ans => ?_)
      cases ans with
      | ok data => exact enqueueWrite_composes hS hask hopen _ _ _ _
      | failed => exact count_composes hS hask false
      | threw => exact hS.halt

theorem processFile_composes (limits : Limits) {config : SyncConfig} {f : SyncFileEntry} (hf : f.isWhole config)
    (preRead : Option Bytes) : S (processFile limits config f preRead) := by
  refine hS.bind (hask .cancelled trivial) (fun stop => ?_)
  cases stop with
  | true => exact hS.ret _
  | false =>
    have hcount := count_composes hS hask
    have hcountAns := countAns_composes hS hask
    have hput : ∀ data, S (uploadFromData data) := fun data =>
      retry_composes hS (hask .cancelled trivial) (hask (.putObject data) trivial) _
    have hsmall := uploadSmallFile_composes hS hask
    have hdelete : S deleteS3Object := retry_composes hS (hask .cancelled trivial) (hask .deleteObject trivial) _
    unfold SyncFileEntry.isWhole at hf
    simp only [Bool.false_eq_true, if_false]
    cases ha : f.action with
    | skip => exact hS.ret _
    | upload =>
      cases config.direction with
      | localToLocal => exact hS.bind (copyLocalFile_composes hS hask hopen _ _ _ _) hcount
      | upload =>
        cases preRead with
        | some data => exact hS.bind (hput data) hcountAns
        | none => exact hS.bind hsmall hcountAns
      | download =>
        cases preRead with
        | some data => exact hS.bind (hput data) hcountAns
        | none => exact hS.bind hsmall hcountAns
      | s3ToS3 =>
        cases preRead with
        | some data => exact hS.bind (hput data) hcountAns
        | none => exact hS.bind hsmall hcountAns
    | uploadDiff =>
      rw [ha] at hf
      exact hf.elim
    | download => exact processDownload_composes hS hask hopen _ _ _ _
    | downloadDiff =>
      rw [ha] at hf
      exact hf.elim
    | copy => exact hS.bind (copyS3Object_composes hS hask _ _) hcountAns
    | delete =>
      rw [ha] at hf
      rcases hf with hd | hd
      · rw [hd]
        exact hS.bind hdelete hcountAns
      · rw [hd]
        exact hS.bind hdelete hcountAns

/-- **What holds of the parts of a whole-file line holds of the line.** -/
theorem processEntry_composes (limits : Limits) {config : SyncConfig} {f : SyncFileEntry} (hf : f.isWhole config) :
    S (processEntry limits config f) := by
  refine hS.bind (prefetch_composes hS hask f) (fun preRead => ?_)
  refine hS.bind (hask .cancelled trivial) (fun stop => ?_)
  cases stop with
  | true => exact hS.ret _
  | false => exact processFile_composes hS hask hopen limits hf preRead

end Requests

end Mito
