import MitoSync.CloudMonitoring
import MitoSync.Numerals
import MitoSync.Recording
import MitoSync.Requests
/-!
# ServerSideCopies — the bytes a copy is charged for

The monitor sees every request the SDK sends and counts it.  Of the bytes S3 copies by itself it sees those of a ranged
request only, in the range's header; so the range of a part is read back from the text it was written to, and the size
of an object copied in one request is added by `copy_s3_object`, which knows it.  Between the two every byte S3 has
acknowledged copying is counted once, however often parts and requests are retried (`copyS3Object_booked`), and
however many copies there are at once (`copies_add_up`).
-/
namespace Mito

open Lib Prog Relation

/-! ## Numbers in headers -/

/-- The sign and the digits that `strtoll` reads. -/
def leadingNumber (str : Str) : Bool × Str :=
  match str.dropWhile (fun c => c = ' ' ∨ '\t' ≤ c ∧ c ≤ '\r') with
  | '-' :: rest => (true, rest.takeWhile Char.isDigit)
  | '+' :: rest => (false, rest.takeWhile Char.isDigit)
  | rest => (false, rest.takeWhile Char.isDigit)

/-- `std::stoll` of a text, `none` where it throws. -/
def stollText (str : Str) : Option Int :=
  let (negative, digits) := leadingNumber str
  if digits = [] then none else int64 (if negative then -(decimal digits : Int) else decimal digits)

/-- `std::stoull` of a text: it takes a sign, and negates what it has read. -/
def stoullText (str : Str) : Option UInt64 :=
  let (negative, digits) := leadingNumber str
  if digits = [] ∨ 18446744073709551615 < decimal digits then none
  else some (if negative then -(UInt64.ofNat (decimal digits)) else UInt64.ofNat (decimal digits))

/-! ## The monitor -/

/-- A request as the SDK tells the monitor of it. -/
structure MonitoredRequest where
  serviceName : Str
  requestName : Str
  request : Option HttpRequest

def isServerSideCopyType (op : S3OperationType) : Bool :=
  op = .uploadPartCopy || op = .uploadPartCopyRemote || op = .copyObject || op = .copyObjectRemote

/-- The operation type of a request's context. -/
def MonitoredRequest.operationType (q : MonitoredRequest) : S3OperationType :=
  match parseS3OperationType q.requestName with
  | .uploadPartCopy => if isCrossBucketCopy q.request then .uploadPartCopyRemote else .uploadPartCopy
  | .copyObject => if isCrossBucketCopy q.request then .copyObjectRemote else .copyObject
  | op => op

def MonitoredRequest.isS3 (q : MonitoredRequest) : Bool := q.serviceName = "s3".toList || q.serviceName = "S3".toList

def contentLength (value : Option Str) : UInt64 := (value.bind stoullText).getD 0

def extractBytesUploaded : Option HttpRequest → UInt64
  | none => 0
  | some request => contentLength (request.header "content-length".toList)

/-- The range of a copy, under either spelling of its header. -/
def copySourceRangeHeader (request : HttpRequest) : Option Str :=
  (request.header "x-amz-copy-source-range".toList).or (request.header "X-Amz-Copy-Source-Range".toList)

/-- The bytes of `bytes=START-END`, none where it does not read so. -/
def rangeBytes (range : Str) : UInt64 :=
  let numbers := (range.dropWhile (· ≠ '=')).drop 1
  let start := numbers.takeWhile (· ≠ '-')
  let stop := (numbers.dropWhile (· ≠ '-')).drop 1
  if start = [] ∨ stop = [] then 0
  else
    match stollText start, stollText stop with
    | some startByte, some endByte =>
      if 0 ≤ startByte ∧ startByte ≤ endByte then UInt64.ofInt (endByte - startByte + 1) else 0
    | _, _ => 0

/-- The bytes `OnRequestSucceeded` takes a copy for. -/
def bytesServerSide : Option HttpRequest → UInt64
  | none => 0
  | some request => ((copySourceRangeHeader request).map rangeBytes).getD 0

/-- The calls `OnRequestSucceeded` makes of a request that was started: what it sent, what of the answer was data, and
what S3 copied. -/
def MonitoredRequest.succeeded (q : MonitoredRequest) (response : Option Str) (latencyMs : Int64) : MetricsCall :=
  if isServerSideCopyType q.operationType then
    .recordSuccess q.operationType latencyMs 0 0 (bytesServerSide q.request)
  else
    .recordSuccess q.operationType latencyMs (extractBytesUploaded q.request)
      (if q.operationType = .getObject then contentLength response else 0) 0

/-- What the monitor records of one request from `OnRequestStarted` to `OnFinish`: it has a context for S3 only. -/
def MonitoredRequest.calls (q : MonitoredRequest) (retries : Nat) (success : Bool) (response : Option Str)
    (latencyMs : Int64) : List MetricsCall :=
  if q.isS3 then
    .recordStart q.operationType :: (List.replicate retries (.recordRetry q.operationType) ++
      [if success then q.succeeded response latencyMs else .recordFailure q.operationType latencyMs])
  else []

/-! ## A copy and its records -/

/-- The text the client writes a range as. -/
def copySourceRange (startByte endByte : Int) : Str :=
  "bytes=".toList ++ signedNumeral startByte ++ '-' :: signedNumeral endByte

/-- A copy under way: its destination, what it has had recorded, and how many bytes S3 has acknowledged copying. -/
structure Copying where
  slot : Slot := {}
  calls : List MetricsCall := []
  copied : Nat := 0

/-- The SDK's request for a whole copy. -/
structure MonitoredRequest.IsCopyObject (q : MonitoredRequest) : Prop where
  service : q.isS3
  name : q.requestName = "CopyObject".toList
  noRange : ∀ request ∈ q.request, copySourceRangeHeader request = none

/-- The SDK's request for a part of a copy. -/
structure MonitoredRequest.IsPartCopy (startByte endByte : Int) (q : MonitoredRequest) : Prop where
  service : q.isS3
  name : q.requestName = "UploadPartCopy".toList
  range : ∃ request, q.request = some request ∧
    copySourceRangeHeader request = some (copySourceRange startByte endByte)

def Ans.isOk {α : Type} : Ans α → Bool
  | .ok _ => true
  | _ => false

/-- What may be recorded of one request. -/
def Monitored (q : MonitoredRequest) (success : Bool) (calls : List MetricsCall) : Prop :=
  ∃ retries response latencyMs, calls = q.calls retries success response latencyMs

/-- Requests of one kind that fail, one after another, and at the end one that succeeds where `success`. -/
inductive MonitoredAll (kind : MonitoredRequest → Prop) : Bool → List MetricsCall → Prop
  | none : MonitoredAll kind false []
  | success {q : MonitoredRequest} {calls : List MetricsCall} (hq : kind q) (h : Monitored q true calls) :
    MonitoredAll kind true calls
  | failure {q : MonitoredRequest} {success : Bool} {calls rest : List MetricsCall} (hq : kind q)
    (h : Monitored q false calls) (hrest : MonitoredAll kind success rest) : MonitoredAll kind success (calls ++ rest)

/-- The SDK's request of another name. -/
structure MonitoredRequest.Is (name : String) (q : MonitoredRequest) : Prop where
  service : q.isS3
  name : q.requestName = name.toList

/-- What is recorded while a copy's request is carried out: the request itself, as often as it is tried.  S3 names a
part it has copied, so an answer without a part is a failure.  What other executors ask is not described. -/
def Call.records : (c : Call) → Resp c → List MetricsCall → Prop
  | .cancelled, _, calls => calls = []
  | .copyObject, r, calls => MonitoredAll MonitoredRequest.IsCopyObject r.isOk calls
  | .uploadPartCopyFromSource _ _ startByte endByte, r, calls =>
    MonitoredAll (MonitoredRequest.IsPartCopy startByte endByte) r.isOk calls
  | .createMultipartUpload, r, calls => MonitoredAll (MonitoredRequest.Is "CreateMultipartUpload") r.isOk calls
  | .completeMultipartUpload _ _, r, calls => MonitoredAll (MonitoredRequest.Is "CompleteMultipartUpload") r.isOk calls
  | .abortMultipartUpload _, r, calls => MonitoredAll (MonitoredRequest.Is "AbortMultipartUpload") r calls
  | _, _, _ => True

/-- The bytes S3 acknowledges copying with an answer. -/
def Env.acknowledged (E : Env) : (c : Call) → Resp c → Nat
  | .copyObject, .ok _ => E.source.length
  | .uploadPartCopyFromSource _ _ startByte endByte, .ok _ => endByte + 1 - startByte
  | _, _ => 0

def copyingExec (E : Env) (c : Call) (w : Copying) (r : Resp c) (w' : Copying) : Prop :=
  exec E c w.slot r w'.slot ∧ (∃ calls, c.records r calls ∧ w'.calls = w.calls ++ calls) ∧
    w'.copied = w.copied + E.acknowledged c r

inductive BookCall
  | slot (c : Call)
  | addServerSideBytes (op : S3OperationType) (bytes : UInt64)

abbrev BookResp : BookCall → Type
  | .slot c => Resp c
  | .addServerSideBytes _ _ => Unit

abbrev BookExec (α : Type) : Type := Prog BookCall BookResp α

abbrev bookSlot (c : Call) : BookExec (Resp c) := Prog.req (C := BookCall) (R := BookResp) (.slot c)

abbrev askBook (c : BookCall) : BookExec (BookResp c) := Prog.req c

def bookExec (E : Env) : (c : BookCall) → Copying → BookResp c → Copying → Prop
  | .slot c, w, r, w' => copyingExec E c w r w'
  | .addServerSideBytes op bytes, w, _, w' => w' = { w with calls := w.calls ++ [.addServerSideBytes op bytes] }

/-- The attempts of `copy_s3_object`, with what it adds to the counters. -/
def copyAttempts (sameBucket : Bool) (clientRetries fileSize : Nat) : Nat → BookExec (Ans Unit)
  | 0 => return .failed
  | attempts + 1 => do
    if ← bookSlot .cancelled then return .failed
    match ← (copyObject clientRetries fileSize).interp bookSlot with
    | .ok _ =>
      if fileSize ≤ kMaxSinglePutBytes then
        askBook (.addServerSideBytes (if sameBucket then .copyObject else .copyObjectRemote) (UInt64.ofNat fileSize))
      return .ok ()
    | .threw => return .threw
    | .failed => copyAttempts sameBucket clientRetries fileSize attempts

def copyS3ObjectBooked (sameBucket : Bool) (clientRetries fileSize : Nat) : BookExec (Ans Unit) :=
  copyAttempts sameBucket clientRetries fileSize (maxRetries + 1)

/-! ## Reading a range back -/

theorem leadingNumber_digits {digits : Str} (h : ∀ c ∈ digits, c.isDigit = true) (hne : digits ≠ []) :
    leadingNumber digits = (false, digits) := by
  obtain ⟨c, rest, rfl⟩ := List.exists_cons_of_ne_nil hne
  have hc : c.isDigit = true := h c (by simp)
  have hspace : ¬ (c = ' ' ∨ '\t' ≤ c ∧ c ≤ '\r') := by
    rintro (rfl | ⟨-, hle⟩)
    · exact absurd hc (by decide)
    · have hdigit : '0' ≤ c := by
        simp only [Char.isDigit, Bool.and_eq_true, decide_eq_true_eq] at hc
        exact hc.1
      exact absurd (Char.le_trans hdigit hle) (by decide)
  have htake : (c :: rest).takeWhile Char.isDigit = c :: rest := List.takeWhile_eq_self_iff.2 h
  unfold leadingNumber
  rw [List.dropWhile_cons_of_neg (by simpa using hspace)]
  split
  · rename_i heq
    obtain ⟨rfl, -⟩ := List.cons.inj heq
    exact absurd hc (by decide)
  · rename_i heq
    obtain ⟨rfl, -⟩ := List.cons.inj heq
    exact absurd hc (by decide)
  · rw [htake]

theorem stollText_numeral {n : Nat} (h : n < 2 ^ 63) : stollText (numeral n) = some (n : Int) := by
  unfold stollText
  rw [leadingNumber_digits (fun _ => isDigit_of_mem_numeral) (numeral_ne_nil n)]
  simp only [numeral_ne_nil, if_false, Bool.false_eq_true, decimal_numeral]
  exact if_pos ⟨by omega, by omega⟩

/-- **The monitor reads the length of every range the client writes.** -/
theorem rangeBytes_copySourceRange {startByte endByte : Nat} (h : startByte ≤ endByte) (hend : endByte < 2 ^ 63) :
    rangeBytes (copySourceRange startByte endByte) = UInt64.ofNat (endByte + 1 - startByte) := by
  have hstart : signedNumeral (startByte : Int) = numeral startByte := if_neg (by omega)
  have hstop : signedNumeral (endByte : Int) = numeral endByte := if_neg (by omega)
  have htext : copySourceRange startByte endByte =
      "bytes".toList ++ '=' :: (numeral startByte ++ '-' :: numeral endByte) := by
    show "bytes=".toList ++ signedNumeral startByte ++ '-' :: signedNumeral endByte = _
    rw [hstart, hstop]
    rfl
  have hnumbers : ((copySourceRange startByte endByte).dropWhile (· ≠ '=')).drop 1 =
      numeral startByte ++ '-' :: numeral endByte := by
    rw [htext, (split_first (numeral startByte ++ '-' :: numeral endByte) (by decide)).2]
    rfl
  obtain ⟨htake, hdrop⟩ := split_first (numeral endByte) (dash_not_mem_numeral (n := startByte))
  have hreads := stollText_numeral (show startByte < 2 ^ 63 by omega)
  have hreadsEnd := stollText_numeral hend
  have hbytes : UInt64.ofInt ((endByte : Int) - startByte + 1) = UInt64.ofNat (endByte + 1 - startByte) := by
    rw [UInt64.ofInt]
    congr 1
    omega
  unfold rangeBytes
  simp only [hnumbers, htake, hdrop, List.drop_succ_cons, List.drop_zero, numeral_ne_nil, or_self, if_false, hreads,
    hreadsEnd, hbytes]
  exact if_pos ⟨by omega, by omega⟩

/-! ## What is booked -/

/-- What a call adds to the bytes copied by S3. -/
def MetricsCall.serverSide : MetricsCall → UInt64
  | .recordSuccess op _ _ _ bytes | .addServerSideBytes op bytes => if op = .count then 0 else bytes
  | _ => 0

def booked (calls : List MetricsCall) : UInt64 := (calls.map MetricsCall.serverSide).sum

theorem booked_append (calls calls' : List MetricsCall) : booked (calls ++ calls') = booked calls + booked calls' := by
  simp [booked]

section Totals

theorem foldl_addTotals (ops : List S3OperationType) (metrics : S3OperationType → OperationMetrics)
    (total : OperationMetrics) :
    (ops.foldl (fun total op => CloudMetrics.addTotals total (metrics op)) total).bytesServer =
      total.bytesServer + (ops.map fun op => (metrics op).bytesServer).sum := by
  induction ops generalizing total with
  | nil => simp
  | cons op ops ih =>
    rw [List.foldl_cons, ih, List.map_cons, List.sum_cons, ← UInt64.add_assoc]
    rfl

theorem sum_bytesServer_update {ops : List S3OperationType} (hops : ops.Nodup) {op : S3OperationType} (hop : op ∈ ops)
    (metrics : S3OperationType → OperationMetrics) (o : OperationMetrics) {bytes : UInt64}
    (ho : o.bytesServer = (metrics op).bytesServer + bytes) :
    (ops.map fun op' => (Function.update metrics op o op').bytesServer).sum =
      (ops.map fun op' => (metrics op').bytesServer).sum + bytes := by
  induction ops with
  | nil => exact absurd hop List.not_mem_nil
  | cons op' ops ih =>
    obtain ⟨hnot, hrest⟩ := List.nodup_cons.1 hops
    rw [List.map_cons, List.sum_cons, List.map_cons, List.sum_cons]
    by_cases heq : op = op'
    · subst heq
      have hsame : (ops.map fun op' => (Function.update metrics op o op').bytesServer) =
          ops.map fun op' => (metrics op').bytesServer := by
        refine List.map_congr_left fun op' hop' => ?_
        rw [Function.update_of_ne fun h : op' = op => hnot (h ▸ hop')]
      rw [hsame, Function.update_self, ho]
      ac_rfl
    · rw [Function.update_of_ne (Ne.symm heq), ih hrest ((List.mem_cons.1 hop).resolve_left heq), UInt64.add_assoc]

theorem all_nodup : S3OperationType.all.Nodup := by decide

theorem total_modify (m : CloudMetrics) {op : S3OperationType} (hop : op ≠ .count)
    {f : OperationMetrics → OperationMetrics} {bytes : UInt64}
    (hf : (f (m.metrics op)).bytesServer = (m.metrics op).bytesServer + bytes) :
    (m.modify op f).getTotalMetrics.bytesServer = m.getTotalMetrics.bytesServer + bytes := by
  rw [CloudMetrics.modify, if_neg hop, CloudMetrics.getTotalMetrics, foldl_addTotals, CloudMetrics.getTotalMetrics,
    foldl_addTotals, sum_bytesServer_update all_nodup (mem_all.2 hop) m.metrics _ hf, UInt64.add_assoc]

theorem total_call (m : CloudMetrics) (c : MetricsCall) :
    (m.call c).getTotalMetrics.bytesServer = m.getTotalMetrics.bytesServer + c.serverSide := by
  have hcount : ∀ f, m.modify .count f = m := fun f => if_pos rfl
  cases c with
  | recordStart op =>
    by_cases hop : op = .count
    · subst hop
      simp [CloudMetrics.call, CloudMetrics.recordStart, hcount, MetricsCall.serverSide]
    · exact total_modify m hop (by simp [MetricsCall.serverSide])
  | recordSuccess op latencyMs bytesUp bytesDown bytesServerSide =>
    by_cases hop : op = .count
    · subst hop
      simp [CloudMetrics.call, CloudMetrics.recordSuccess, hcount, MetricsCall.serverSide]
    · exact total_modify m hop (by simp [MetricsCall.serverSide, CloudMetrics.addLatency, hop])
  | recordFailure op latencyMs =>
    by_cases hop : op = .count
    · subst hop
      simp [CloudMetrics.call, CloudMetrics.recordFailure, hcount, MetricsCall.serverSide]
    · exact total_modify m hop (by simp [MetricsCall.serverSide, CloudMetrics.addLatency])
  | recordRetry op =>
    by_cases hop : op = .count
    · subst hop
      simp [CloudMetrics.call, CloudMetrics.recordRetry, hcount, MetricsCall.serverSide]
    · exact total_modify m hop (by simp [MetricsCall.serverSide])
  | addServerSideBytes op bytes =>
    by_cases hbytes : bytes = 0
    · subst hbytes
      simp [CloudMetrics.call, CloudMetrics.addServerSideBytes, MetricsCall.serverSide]
    rw [CloudMetrics.call, CloudMetrics.addServerSideBytes, if_neg hbytes]
    by_cases hop : op = .count
    · subst hop
      simp [hcount, MetricsCall.serverSide]
    · exact total_modify m hop (by simp [MetricsCall.serverSide, hop])
  | addRegion region =>
    have hsame : (m.addRegion region).metrics = m.metrics := by
      unfold CloudMetrics.addRegion
      split <;> rfl
    rw [CloudMetrics.call, CloudMetrics.getTotalMetrics, hsame]
    simp [MetricsCall.serverSide, CloudMetrics.getTotalMetrics]

/-- **The total `getTotalMetrics` finds grows by what is booked.** -/
theorem total_calls (calls : List MetricsCall) (m : CloudMetrics) :
    (calls.foldl CloudMetrics.call m).getTotalMetrics.bytesServer = m.getTotalMetrics.bytesServer + booked calls := by
  induction calls generalizing m with
  | nil => simp [booked]
  | cons c calls ih =>
    rw [List.foldl_cons, ih, total_call, UInt64.add_assoc]
    rfl

end Totals

/-! ## A copy's records -/

theorem partCopy_type {startByte endByte : Int} {q : MonitoredRequest} (h : q.IsPartCopy startByte endByte) :
    isServerSideCopyType q.operationType = true ∧ q.operationType ≠ .count := by
  have htype : parseS3OperationType q.requestName = .uploadPartCopy := by
    rw [h.name]
    rfl
  unfold MonitoredRequest.operationType
  rw [htype]
  dsimp only
  split <;> exact ⟨rfl, by decide⟩

theorem copyObject_type {q : MonitoredRequest} (h : q.IsCopyObject) :
    isServerSideCopyType q.operationType = true := by
  have htype : parseS3OperationType q.requestName = .copyObject := by
    rw [h.name]
    rfl
  unfold MonitoredRequest.operationType
  rw [htype]
  dsimp only
  split <;> rfl

/-- A request that succeeds books what it succeeds with; one that fails books nothing. -/
theorem booked_calls {q : MonitoredRequest} (hq : q.isS3) (retries : Nat) (success : Bool) (response : Option Str)
    (latencyMs : Int64) :
    booked (q.calls retries success response latencyMs) =
      if success then (q.succeeded response latencyMs).serverSide else 0 := by
  have hretries : (List.replicate retries (MetricsCall.recordRetry q.operationType)).map MetricsCall.serverSide =
      List.replicate retries 0 := List.map_replicate
  have hzeros : ∀ n, (List.replicate n (0 : UInt64)).sum = 0 := by
    intro n
    induction n with
    | zero => rfl
    | succ n ih =>
      rw [List.replicate_succ, List.sum_cons, ih]
      rfl
  rw [MonitoredRequest.calls, if_pos hq]
  cases success <;> simp [booked, MetricsCall.serverSide, hretries, hzeros]

/-- **However often a request is tried, it is booked once, where it succeeds.** -/
theorem booked_all {kind : MonitoredRequest → Prop} {b : UInt64} (hs3 : ∀ q, kind q → q.isS3) {success : Bool}
    (hkind : success = true → ∀ q, kind q → ∀ response latencyMs, (q.succeeded response latencyMs).serverSide = b)
    {calls : List MetricsCall} (h : MonitoredAll kind success calls) : booked calls = if success then b else 0 := by
  induction h with
  | none => rfl
  | success hq h =>
    obtain ⟨retries, response, latencyMs, rfl⟩ := h
    rw [booked_calls (hs3 _ hq), hkind rfl _ hq]
  | failure hq h _ ih =>
    obtain ⟨retries, response, latencyMs, rfl⟩ := h
    rw [booked_append, booked_calls (hs3 _ hq), ih hkind]
    simp

theorem booked_zero {kind : MonitoredRequest → Prop} (hs3 : ∀ q, kind q → q.isS3) {success : Bool}
    (hkind : success = true → ∀ q, kind q → ∀ response latencyMs, (q.succeeded response latencyMs).serverSide = 0)
    {calls : List MetricsCall} (h : MonitoredAll kind success calls) : booked calls = 0 := by
  rw [booked_all hs3 hkind h]
  split <;> rfl

/-- A request that is no copy books nothing. -/
theorem booked_other {name : String} (hname : isServerSideCopyType (parseS3OperationType name.toList) = false)
    {success : Bool} {calls : List MetricsCall} (h : MonitoredAll (MonitoredRequest.Is name) success calls) :
    booked calls = 0 := by
  refine booked_zero (fun q hq => hq.service) (fun _ q hq response latencyMs => ?_) h
  have hother : isServerSideCopyType q.operationType = false := by
    unfold MonitoredRequest.operationType
    rw [hq.name]
    revert hname
    cases parseS3OperationType name.toList <;> simp [isServerSideCopyType]
  rw [MonitoredRequest.succeeded, hother]
  simp [MetricsCall.serverSide]

theorem booked_part {startByte endByte : Nat} (hle : startByte ≤ endByte) (hend : endByte < 2 ^ 63) {success : Bool}
    {calls : List MetricsCall} (h : MonitoredAll (MonitoredRequest.IsPartCopy startByte endByte) success calls) :
    booked calls = if success then UInt64.ofNat (endByte + 1 - startByte) else 0 := by
  refine booked_all (fun q hq => hq.service) (fun _ q hq response latencyMs => ?_) h
  obtain ⟨hcopy, hcount⟩ := partCopy_type hq
  obtain ⟨request, hrequest, hrange⟩ := hq.range
  rw [MonitoredRequest.succeeded, if_pos hcopy, MetricsCall.serverSide, if_neg hcount, hrequest, bytesServerSide,
    hrange, Option.map_some, Option.getD_some, rangeBytes_copySourceRange hle hend]

theorem booked_copyObject {success : Bool} {calls : List MetricsCall}
    (h : MonitoredAll MonitoredRequest.IsCopyObject success calls) : booked calls = 0 := by
  refine booked_zero (fun q hq => hq.service) (fun _ q hq response latencyMs => ?_) h
  have hnone : bytesServerSide q.request = 0 := by
    cases hrequest : q.request with
    | none => rfl
    | some request =>
      rw [bytesServerSide, hq.noRange request hrequest]
      rfl
  rw [MonitoredRequest.succeeded, if_pos (copyObject_type hq), hnone, MetricsCall.serverSide]
  split <;> rfl

/-! ## A copy -/

/-- The books of a copy are even. -/
def Copying.Balanced (w : Copying) : Prop := booked w.calls = UInt64.ofNat w.copied

section Copy

variable {E : Env}

/-- S3 copies a part that lies in the object. -/
theorem addPart_range {s s' : Slot} {id partNumber startByte endByte etag : Nat}
    (h : exec E (.uploadPartCopyFromSource id partNumber startByte endByte) s (.ok etag) s') :
    startByte ≤ endByte ∧ endByte < E.source.length := by
  obtain ⟨⟨u, d, -, -, hd, -⟩, -⟩ := h
  by_contra hnot
  rw [rangeOf, Option.bind_some, if_neg hnot] at hd
  exact absurd hd (by simp)

/-- **Each request of a copy keeps the books even.** -/
theorem copyingExec_balanced (hsize : E.source.length < 2 ^ 63) {c : Call} (hc : c.ofCopy) {w w' : Copying} {r : Resp c}
    (hw : w.Balanced) (h : copyingExec E c w r w') : w'.Balanced := by
  obtain ⟨hexec, ⟨calls, hcalls, hlog⟩, hcopied⟩ := h
  have hzero : booked calls = 0 → E.acknowledged c r = 0 → w'.Balanced := by
    intro hb ha
    rw [Copying.Balanced, hlog, booked_append, hb, hcopied, ha, Nat.add_zero, UInt64.add_zero]
    exact hw
  cases c with
  | cancelled =>
    obtain rfl : calls = [] := hcalls
    exact hzero rfl rfl
  | createMultipartUpload => exact hzero (booked_other rfl hcalls) (by cases r <;> rfl)
  | completeMultipartUpload id parts => exact hzero (booked_other rfl hcalls) (by cases r <;> rfl)
  | abortMultipartUpload id => exact hzero (booked_other rfl hcalls) rfl
  | uploadPartCopyFromSource id partNumber startByte endByte =>
    cases r with
    | ok etag =>
      obtain ⟨hle, hlt⟩ := addPart_range hexec
      rw [Copying.Balanced, hlog, booked_append, booked_part hle (by omega) hcalls, hcopied, UInt64.ofNat_add, hw]
      rfl
    | failed => exact hzero (booked_zero (fun q hq => hq.service) (fun h => absurd h (by simp [Ans.isOk])) hcalls) rfl
    | threw => exact hzero (booked_zero (fun q hq => hq.service) (fun h => absurd h (by simp [Ans.isOk])) hcalls) rfl
  | _ => exact hc.elim

/-- The bytes of part `i`. -/
def partLength (sourceSize partSize i : Nat) : Nat :=
  min (i * partSize + partSize - 1) (sourceSize - 1) + 1 - i * partSize

/-- **The parts have all the bytes of the object.** -/
theorem sum_partLength {sourceSize partSize : Nat} (hpart : 0 < partSize) (hsize : 0 < sourceSize) :
    ∀ k, ((List.range k).map (partLength sourceSize partSize)).sum = min (k * partSize) sourceSize
  | 0 => by simp
  | k + 1 => by
    rw [List.range_succ, List.map_append, List.sum_append, sum_partLength hpart hsize k, List.map_cons, List.map_nil,
      List.sum_cons, List.sum_nil, partLength, Nat.add_mul, Nat.one_mul]
    omega

variable {w : Copying}

/-- What a request has copied where it was answered so. -/
def Copying.Has (w : Copying) (bytes : Nat) (r : Ans Nat) (w' : Copying) : Prop :=
  w'.copied = w.copied + if r.isOk then bytes else 0

theorem retry_copied {request : Exec (Ans Nat)} {b : Nat}
    (h : ∀ w, wp (copyingExec E) (fun _ => True) (fun _ => True) request (w.Has b) w) :
    ∀ n w, wp (copyingExec E) (fun _ => True) (fun _ => True) (retry request n) (w.Has b) w
  | 0, w => rfl
  | n + 1, w => by
    rw [retry, wp_bind, wp_req]
    refine ⟨trivial, fun stop w' hw => ?_⟩
    have hcopied : w'.copied = w.copied := hw.2.2
    cases stop with
    | true => exact hcopied
    | false =>
      rw [if_neg Bool.false_ne_true, wp_bind]
      refine wp_mono (fun r w'' hr => ?_) (h w')
      rw [Copying.Has, hcopied] at hr
      cases r with
      | ok etag => exact hr
      | threw => exact hr
      | failed =>
        refine wp_mono (fun r' w₃ hr' => ?_) (retry_copied h n w'')
        rw [Copying.Has, hr] at hr'
        exact hr'

theorem copyPart_copied (clientRetries id sourceSize partSize i : Nat) (w : Copying) :
    wp (copyingExec E) (fun _ => True) (fun _ => True) (copyPart clientRetries id sourceSize partSize i)
      (w.Has (partLength sourceSize partSize i)) w := by
  unfold copyPart
  rw [wp_bind, wp_req]
  refine ⟨trivial, fun stop w' hw => ?_⟩
  have hcopied : w'.copied = w.copied := hw.2.2
  cases stop with
  | true => exact hcopied
  | false =>
    rw [if_neg Bool.false_ne_true]
    refine wp_mono (fun r w'' hr => ?_) (retry_copied (b := partLength sourceSize partSize i) (fun w => ?_) _ w')
    · rw [Copying.Has, hcopied] at hr
      exact hr
    · refine ⟨trivial, fun r w' h => ?_⟩
      have hpart := h.2.2
      cases r <;> exact hpart

/-- The parts loop has copied every part, or some. -/
theorem sendParts_copied (clientRetries id sourceSize partSize : Nat) : ∀ n i w,
    wp (copyingExec E) (fun _ => True) (fun _ => True) (sendParts (copyPart clientRetries id sourceSize partSize) i n)
      (fun parts w' => w.copied ≤ w'.copied ∧ (parts.isSome →
        w'.copied = w.copied + ((List.range' i n).map (partLength sourceSize partSize)).sum)) w
  | 0, i, w => ⟨Nat.le_refl _, fun _ => by simp⟩
  | n + 1, i, w => by
    rw [sendParts, wp_bind]
    refine wp_mono (fun r w' hr => ?_) (copyPart_copied clientRetries id sourceSize partSize i w)
    rw [Copying.Has] at hr
    cases r with
    | failed => exact ⟨Nat.le_of_eq hr.symm, fun h => absurd h (by simp)⟩
    | threw => exact ⟨Nat.le_of_eq hr.symm, fun h => absurd h (by simp)⟩
    | ok etag =>
      rw [Ans.isOk, if_pos rfl] at hr
      dsimp only
      rw [wp_bind]
      refine wp_mono (fun parts w'' hrest => ?_) (sendParts_copied clientRetries id sourceSize partSize n (i + 1) w')
      obtain ⟨hle, hall⟩ := hrest
      cases parts with
      | none => exact ⟨by omega, fun h => absurd h (by simp)⟩
      | some ps =>
        refine ⟨by omega, fun _ => ?_⟩
        rw [hall rfl, hr, List.range'_succ, List.map_cons, List.sum_cons, Nat.add_assoc]

theorem completeOrAbort_copied (id : Nat) (parts : Option (List (Nat × Nat))) (w : Copying) :
    wp (copyingExec E) (fun _ => True) (fun _ => True) (completeOrAbort id parts)
      (fun completed w' => w'.copied = w.copied ∧ (completed = true → parts.isSome)) w := by
  have habort : ∀ w' : Copying, w'.copied = w.copied →
      wp (copyingExec E) (fun _ => True) (fun _ => True)
        (ask (.abortMultipartUpload id) >>= fun _ => (return false : Exec Bool))
        (fun completed w' => w'.copied = w.copied ∧ (completed = true → parts.isSome)) w' :=
    fun w' hw' => ⟨trivial, fun _ w'' h =>
      ⟨(show w''.copied = w'.copied from h.2.2).trans hw', fun h => absurd h (by simp)⟩⟩
  cases parts with
  | none => exact habort w rfl
  | some ps =>
    unfold completeOrAbort
    rw [wp_bind, wp_req]
    refine ⟨trivial, fun r w' h => ?_⟩
    have hcopied : w'.copied = w.copied := by
      rw [h.2.2]
      cases r <;> rfl
    cases r with
    | ok _ => exact ⟨hcopied, fun _ => rfl⟩
    | failed => exact habort w' hcopied
    | threw => exact habort w' hcopied

/-- What one attempt at a copy of `n` bytes has copied: all of them where it succeeds. -/
def Copying.Copied (w : Copying) (n : Nat) (r : Ans Unit) (w' : Copying) : Prop :=
  w.copied ≤ w'.copied ∧ (r = .ok () → w'.copied = w.copied + n)

theorem copyObjectMultipart_copied (clientRetries : Nat) {n partSize : Nat} (hn : 0 < n) (hpart : 0 < partSize)
    (w : Copying) : wp (copyingExec E) (fun _ => True) (fun _ => True) (copyObjectMultipart clientRetries n partSize)
      (w.Copied n) w := by
  unfold copyObjectMultipart
  rw [wp_bind, wp_req]
  refine ⟨trivial, fun r w' h => ?_⟩
  have hcopied : w'.copied = w.copied := by
    rw [h.2.2]
    cases r <;> rfl
  cases r with
  | failed => exact ⟨Nat.le_of_eq hcopied.symm, fun h => absurd h (by simp)⟩
  | threw => exact ⟨Nat.le_of_eq hcopied.symm, fun h => absurd h (by simp)⟩
  | ok id =>
    dsimp only
    rw [wp_bind]
    refine wp_mono (fun parts w'' hparts => ?_)
      (sendParts_copied clientRetries id n partSize (numChunks partSize n) 0 w')
    obtain ⟨hle, hall⟩ := hparts
    rw [wp_bind]
    refine wp_mono (fun completed w₃ h => ?_) (completeOrAbort_copied id parts w'')
    obtain ⟨hsame, hdone⟩ := h
    cases completed with
    | false => exact ⟨by omega, fun h => absurd h (by simp)⟩
    | true =>
      have htotal := hall (hdone rfl)
      rw [← List.range_eq_range', sum_partLength hpart hn, Nat.min_eq_right (le_numChunks_mul hpart n)] at htotal
      exact ⟨by omega, fun _ => by omega⟩

/-- The books are even once `bytes` are added. -/
def Copying.Owes (w : Copying) (bytes : Nat) : Prop := booked w.calls + UInt64.ofNat bytes = UInt64.ofNat w.copied

/-- **One attempt leaves the books even**, or, where the object was copied in one request, short of its size. -/
theorem copyObject_copied (hsize : E.source.length < 2 ^ 63) (clientRetries : Nat) (hw : w.Balanced) :
    wp (copyingExec E) (fun _ => True) (fun _ => True) (copyObject clientRetries E.source.length)
      (fun r w' => w.Copied E.source.length r w' ∧
        if r = .ok () ∧ E.source.length ≤ kMaxSinglePutBytes then w'.Owes E.source.length else w'.Balanced) w := by
  unfold copyObject
  rw [wp_bind, wp_req]
  refine ⟨trivial, fun stop w' h => ?_⟩
  have hcopied : w'.copied = w.copied := h.2.2
  have hbalanced : w'.Balanced := copyingExec_balanced hsize (c := .cancelled) trivial hw h
  cases stop with
  | true => exact ⟨⟨Nat.le_of_eq hcopied.symm, fun h => absurd h (by simp)⟩, by simpa using hbalanced⟩
  | false =>
    rw [if_neg Bool.false_ne_true]
    by_cases hone : E.source.length ≤ kMaxSinglePutBytes
    · rw [if_pos hone]
      refine ⟨trivial, fun r w'' h => ?_⟩
      obtain ⟨-, ⟨calls, hcalls, hlog⟩, hmore⟩ := h
      have hsame : booked w''.calls = UInt64.ofNat w'.copied := by
        rw [hlog, booked_append, booked_copyObject hcalls, UInt64.add_zero]
        exact hbalanced
      cases r with
      | ok u =>
        have htotal : w''.copied = w'.copied + E.source.length := hmore
        refine ⟨⟨by omega, fun _ => by omega⟩, ?_⟩
        rw [if_pos ⟨rfl, hone⟩, Copying.Owes, hsame, htotal, UInt64.ofNat_add]
      | failed =>
        have htotal : w''.copied = w'.copied := hmore
        exact ⟨⟨by omega, fun h => absurd h (by simp)⟩, by simpa [Copying.Balanced, htotal] using hsame⟩
      | threw =>
        have htotal : w''.copied = w'.copied := hmore
        exact ⟨⟨by omega, fun h => absurd h (by simp)⟩, by simpa [Copying.Balanced, htotal] using hsame⟩
    · rw [if_neg hone]
      have hpos : 0 < E.source.length := by omega
      have hasks : (copyObjectMultipart clientRetries E.source.length multipartPartSize).Asks Call.ofCopy :=
        copyObjectMultipart_composes (asks_composes _) (fun _ hc => asks_req.2 hc) _ _ _
      refine wp_mono (fun r w'' h => ?_) (wp_and
        (copyObjectMultipart_copied clientRetries hpos (show 0 < multipartPartSize by decide) w')
        (wp_asks (J := Copying.Balanced) (fun _ _ _ _ hc hj h => copyingExec_balanced hsize hc hj h)
          (fun _ _ => trivial) (fun _ _ => trivial) hasks hbalanced))
      obtain ⟨⟨hle, hall⟩, hj⟩ := h
      rw [if_neg fun h => hone h.2]
      exact ⟨⟨by omega, fun hr => by rw [hall hr, hcopied]⟩, hj⟩

/-- An executor's program, where the counters are kept too. -/
theorem wp_bookSlot {α : Type} {p : Exec α} {Q : α → Copying → Prop}
    (h : wp (copyingExec E) (fun _ => True) (fun _ => True) p Q w) :
    wp (bookExec E) (fun _ => True) (fun _ => True) (p.interp bookSlot) Q w := by
  refine wp_interp id ?_ (fun _ _ => trivial) h
  intro c t P _ hP
  exact ⟨trivial, fun r t' he => hP r t' he⟩

theorem copyAttempts_booked (hsize : E.source.length < 2 ^ 63) (sameBucket : Bool) (clientRetries : Nat) :
    ∀ attempts w, w.Balanced →
      wp (bookExec E) (fun _ => True) (fun _ => True) (copyAttempts sameBucket clientRetries E.source.length attempts)
        (fun r w' => w'.Balanced ∧ w.copied ≤ w'.copied ∧ (r = .ok () → w.copied + E.source.length ≤ w'.copied)) w
  | 0, w, hw => ⟨hw, Nat.le_refl _, fun h => absurd h (by simp)⟩
  | attempts + 1, w, hw => by
    rw [copyAttempts, wp_bind, wp_req]
    refine ⟨trivial, fun stop w' h => ?_⟩
    have hcopied : w'.copied = w.copied := h.2.2
    have hbalanced : w'.Balanced := copyingExec_balanced hsize (c := .cancelled) trivial hw h
    cases stop with
    | true => exact ⟨hbalanced, Nat.le_of_eq hcopied.symm, fun h => absurd h (by simp)⟩
    | false =>
      rw [if_neg Bool.false_ne_true, wp_bind]
      refine wp_mono (fun r w'' h => ?_) (wp_bookSlot (copyObject_copied hsize clientRetries hbalanced))
      obtain ⟨⟨hle, hall⟩, hbooks⟩ := h
      cases r with
      | threw => exact ⟨by simpa using hbooks, by omega, fun h => absurd h (by simp)⟩
      | failed =>
        have hrest := copyAttempts_booked hsize sameBucket clientRetries attempts w'' (by simpa using hbooks)
        refine wp_mono (fun r w₃ h => ?_) hrest
        exact ⟨h.1, by omega, fun hr => by have := h.2.2 hr; omega⟩
      | ok u =>
        have htotal := hall rfl
        dsimp only
        by_cases hone : E.source.length ≤ kMaxSinglePutBytes
        · rw [if_pos ⟨rfl, hone⟩] at hbooks
          rw [if_pos hone, wp_bind, wp_req]
          refine ⟨trivial, fun _ w₃ h => ?_⟩
          obtain rfl := h
          refine ⟨?_, by show w.copied ≤ w''.copied; omega, fun _ => by show _ ≤ w''.copied; omega⟩
          have hop : (if sameBucket then S3OperationType.copyObject else .copyObjectRemote) ≠ .count := by
            cases sameBucket <;> decide
          have hadded : booked [.addServerSideBytes (if sameBucket then .copyObject else .copyObjectRemote)
              (UInt64.ofNat E.source.length)] = UInt64.ofNat E.source.length := by
            simp [booked, MetricsCall.serverSide, hop]
          rw [Copying.Balanced, booked_append, hadded]
          exact hbooks
        · rw [if_neg fun h => hone h.2] at hbooks
          rw [if_neg hone]
          exact ⟨hbooks, by omega, fun _ => by omega⟩

/-- **The books of `copy_s3_object` come out even**, whatever fails and is retried, and it has copied the object at
least once where it says so. -/
theorem copyS3Object_booked (hsize : E.source.length < 2 ^ 63) (sameBucket : Bool) (clientRetries : Nat) {s s' : Slot}
    {r : Ans Unit} {calls : List MetricsCall} {copied : Nat}
    (h : Steps (bookExec E) (copyS3ObjectBooked sameBucket clientRetries E.source.length, { slot := s })
      (.ret r, ⟨s', calls, copied⟩)) :
    booked calls = UInt64.ofNat copied ∧ (r = .ok () → E.source.length ≤ copied) := by
  have hspec := wp_returns (copyAttempts_booked hsize sameBucket clientRetries (maxRetries + 1) { slot := s } rfl) h
  exact ⟨hspec.1, fun hr => Nat.le_trans (Nat.le_add_left _ _) (hspec.2.2 hr)⟩

end Copy

/-! ## Without the books -/

/-- A request with the counters left out. -/
def BookCall.erase : (c : BookCall) → Exec (BookResp c)
  | .slot c => ask c
  | .addServerSideBytes _ _ => return ()

theorem interp_bookSlot_erase {α : Type} : ∀ p : Exec α, (p.interp bookSlot).interp BookCall.erase = p
  | .ret _ => rfl
  | .halt => rfl
  | .call c k => congrArg (Prog.call c) (funext fun r => interp_bookSlot_erase (k r))

/-- But for the counters it is `copy_s3_object`. -/
theorem copyS3ObjectBooked_erase (sameBucket : Bool) (clientRetries fileSize : Nat) :
    (copyS3ObjectBooked sameBucket clientRetries fileSize).interp BookCall.erase =
      copyS3Object clientRetries fileSize := by
  have hattempts : ∀ attempts, (copyAttempts sameBucket clientRetries fileSize attempts).interp BookCall.erase =
      retry (copyObject clientRetries fileSize) attempts := by
    intro attempts
    induction attempts with
    | zero => rfl
    | succ attempts ih =>
      rw [copyAttempts, retry, interp_bind]
      refine congrArg (Prog.call Call.cancelled) (funext fun stop => ?_)
      cases stop with
      | true => rfl
      | false =>
        show Prog.interp BookCall.erase ((copyObject clientRetries fileSize).interp bookSlot >>= _) = _
        rw [interp_bind, interp_bookSlot_erase]
        refine congrArg (copyObject clientRetries fileSize >>= ·) (funext fun r => ?_)
        cases r with
        | threw => rfl
        | failed => exact ih
        | ok u =>
          dsimp only
          split <;> rfl
  exact hattempts _

/-! ## All of them -/

/-- A copy that has returned. -/
structure Copy where
  env : Env
  sameBucket : Bool
  clientRetries : Nat
  calls : List MetricsCall
  copied : Nat
  result : Ans Unit

/-- It is what a run of `copy_s3_object` leaves, on an object whose size an `int64_t` holds. -/
def Copy.Ran (c : Copy) : Prop :=
  c.env.source.length < 2 ^ 63 ∧ ∃ s s',
    Steps (bookExec c.env) (copyS3ObjectBooked c.sameBucket c.clientRetries c.env.source.length, { slot := s })
      (.ret c.result, ⟨s', c.calls, c.copied⟩)

theorem booked_copies : ∀ {copies : List Copy}, (∀ c ∈ copies, c.Ran) →
    booked (copies.map Copy.calls).flatten = UInt64.ofNat (copies.map Copy.copied).sum
  | [], _ => rfl
  | c :: copies, h => by
    obtain ⟨hsize, s, s', hrun⟩ := h c (by simp)
    rw [List.map_cons, List.flatten_cons, booked_append, (copyS3Object_booked hsize _ _ hrun).1,
      booked_copies fun c hc => h c (List.mem_cons_of_mem _ hc), List.map_cons, List.sum_cons, UInt64.ofNat_add]

/-- **Whatever is copied is charged for once.**  Any number of copies at once, each retried as it may be, and other
threads that record what they like: when all have recorded, the total of the bytes copied by S3 has grown by the bytes
S3 has acknowledged copying and by what the others recorded, and of every copy that succeeded it has acknowledged as
many bytes as the object has, or more. -/
theorem copies_add_up (m : CloudMetrics) {copies : List Copy} (hcopies : ∀ c ∈ copies, c.Ran)
    (others : List (List MetricsCall)) {y}
    (h : ReflTransGen recording.Step (aboutToRecord m (copies.map Copy.calls ++ others)) y) (hy : y.pending = []) :
    y.shared.getTotalMetrics.bytesServer =
        m.getTotalMetrics.bytesServer + UInt64.ofNat (copies.map Copy.copied).sum + booked others.flatten ∧
      ∀ c ∈ copies, c.result = .ok () → c.env.source.length ≤ c.copied := by
  refine ⟨?_, fun c hc hr => ?_⟩
  · have htotals := congrArg Prod.fst (totals_recorded m _ h hy (List.Perm.refl _))
    have hmetrics : y.shared.getTotalMetrics =
        ((copies.map Copy.calls ++ others).flatten.foldl CloudMetrics.call m).getTotalMetrics := by
      unfold CloudMetrics.getTotalMetrics
      rw [show y.shared.metrics = _ from htotals]
      rfl
    rw [hmetrics, total_calls, List.flatten_append, booked_append, booked_copies hcopies, UInt64.add_assoc]
  · obtain ⟨hsize, s, s', hrun⟩ := hcopies c hc
    exact (copyS3Object_booked hsize _ _ hrun).2 hr

/-- A copy of one byte between buckets, done at the first attempt. -/
def oneByteCopy : Copy where
  env := { source := [7], crc := fun _ => 0, stamp := fun _ => True, mode := .sound }
  sameBucket := false
  clientRetries := 0
  calls :=
    [.recordStart .copyObjectRemote, .recordSuccess .copyObjectRemote 3 0 0 0,
      .addServerSideBytes .copyObjectRemote 1]
  copied := 1
  result := .ok ()

theorem oneByteCopy_ran : oneByteCopy.Ran := by
  have hrecords : Call.records .copyObject (.ok ())
      [.recordStart .copyObjectRemote, .recordSuccess .copyObjectRemote 3 0 0 0] :=
    .success (q := ⟨"s3".toList, "CopyObject".toList, none⟩) ⟨rfl, rfl, fun _ h => absurd h (by simp)⟩ ⟨0, none, 3, rfl⟩
  have hcancelled : ∀ s : Slot, s.seen = false → exec oneByteCopy.env .cancelled s false s := by
    rintro ⟨entry, temp, uploads, parent, seen⟩ rfl
    exact ⟨by simp, by simp, rfl⟩
  refine ⟨by decide, {}, { entry := some ⟨[7], 9⟩ }, ?_⟩
  refine steps_answer false { slot := {} } ⟨hcancelled {} rfl, ⟨[], rfl, rfl⟩, rfl⟩ ?_
  refine steps_answer false { slot := {} } ⟨hcancelled {} rfl, ⟨[], rfl, rfl⟩, rfl⟩ ?_
  refine steps_answer (.ok ()) ⟨_, _, 1⟩ ⟨⟨Nat.le_of_ble_eq_true rfl, 9, trivial, rfl⟩, ⟨_, hrecords, rfl⟩, rfl⟩ ?_
  exact steps_answer () _ rfl .refl

/-- Its byte is counted, beside a thread that records a request of its own. -/
theorem copies_add_up_one : ∃ y, ReflTransGen recording.Step
    (aboutToRecord {} ([oneByteCopy].map Copy.calls ++ [[.recordStart .getObject]])) y ∧ y.pending = [] ∧
      y.shared.getTotalMetrics.bytesServer = 1 := by
  obtain ⟨y, hy, hpending⟩ := (LockFree.terminates (K := recording)
    (aboutToRecord {} ([oneByteCopy].map Copy.calls ++ [[.recordStart .getObject]]))).exists_over
  have hrun : ReflTransGen recording.Step
      (aboutToRecord {} ([oneByteCopy].map Copy.calls ++ [[.recordStart .getObject]])) y :=
    hy.lift id fun _ _ hw => .work hw
  refine ⟨y, hrun, hpending, ?_⟩
  rw [(copies_add_up {} (by simpa using oneByteCopy_ran) [[.recordStart .getObject]] hrun hpending).1]
  decide

end Mito
