import MitoSync.Basic
/-!
# Metrics — what is saved of the call counters, and what comes back

A process counts its S3 calls by operation.  `CloudMetrics::save` writes the counters of the operations that were called
under their names, and `load` reads them back by the names it knows.  `metrics_restored_iff`: what comes back is what was
saved, but for an operation that was never started and for the calls under no name.
-/
namespace Mito

/-! ## The counters -/

inductive S3OperationType
  | headObject | getObject | putObject | deleteObject | deleteObjects | listObjectsV2 | listBuckets | getBucketLocation
  | createMultipartUpload | uploadPart | uploadPartCopy | uploadPartCopyRemote | copyObject | copyObjectRemote
  | abortMultipartUpload | completeMultipartUpload | listParts | listMultipartUploads | unknown
  /-- `COUNT`, the number of the others -/
  | count
  deriving DecidableEq

namespace S3OperationType

/-- The operations below `COUNT`. -/
def all : List S3OperationType :=
  [headObject, getObject, putObject, deleteObject, deleteObjects, listObjectsV2, listBuckets, getBucketLocation,
    createMultipartUpload, uploadPart, uploadPartCopy, uploadPartCopyRemote, copyObject, copyObjectRemote,
    abortMultipartUpload, completeMultipartUpload, listParts, listMultipartUploads, unknown]

/-- `S3OperationTypeName` -/
def name : S3OperationType → Str
  | headObject => "HeadObject".toList
  | getObject => "GetObject".toList
  | putObject => "PutObject".toList
  | deleteObject => "DeleteObject".toList
  | deleteObjects => "DeleteObjects".toList
  | listObjectsV2 => "ListObjectsV2".toList
  | listBuckets => "ListBuckets".toList
  | getBucketLocation => "GetBucketLocation".toList
  | createMultipartUpload => "CreateMultipartUpload".toList
  | uploadPart => "UploadPart".toList
  | uploadPartCopy => "UploadPartCopy".toList
  | uploadPartCopyRemote => "UploadPartCopy (remote)".toList
  | copyObject => "CopyObject".toList
  | copyObjectRemote => "CopyObject (remote)".toList
  | abortMultipartUpload => "AbortMultipartUpload".toList
  | completeMultipartUpload => "CompleteMultipartUpload".toList
  | listParts => "ListParts".toList
  | listMultipartUploads => "ListMultipartUploads".toList
  | unknown => "Unknown".toList
  | count => "Unknown".toList

end S3OperationType

open S3OperationType in
def parseS3OperationType (requestName : Str) : S3OperationType :=
  let is := fun name : String => requestName = name.toList
  if is "HeadObject" ∨ is "HeadObjectRequest" then headObject
  else if is "GetObject" ∨ is "GetObjectRequest" then getObject
  else if is "PutObject" ∨ is "PutObjectRequest" then putObject
  else if is "DeleteObject" ∨ is "DeleteObjectRequest" then deleteObject
  else if is "DeleteObjects" ∨ is "DeleteObjectsRequest" then deleteObjects
  else if is "ListObjectsV2" ∨ is "ListObjectsV2Request" ∨ is "ListObjects" ∨ is "ListObjectsRequest" then listObjectsV2
  else if is "ListBuckets" ∨ is "ListBucketsRequest" then listBuckets
  else if is "GetBucketLocation" ∨ is "GetBucketLocationRequest" then getBucketLocation
  else if is "CreateMultipartUpload" ∨ is "CreateMultipartUploadRequest" then createMultipartUpload
  else if is "UploadPart" ∨ is "UploadPartRequest" then uploadPart
  else if is "UploadPartCopy" ∨ is "UploadPartCopyRequest" then uploadPartCopy
  else if is "UploadPartCopy (remote)" ∨ is "UploadPartCopyRemote" then uploadPartCopyRemote
  else if is "CopyObject" ∨ is "CopyObjectRequest" then copyObject
  else if is "CopyObject (remote)" ∨ is "CopyObjectRemote" then copyObjectRemote
  else if is "AbortMultipartUpload" ∨ is "AbortMultipartUploadRequest" then abortMultipartUpload
  else if is "CompleteMultipartUpload" ∨ is "CompleteMultipartUploadRequest" then completeMultipartUpload
  else if is "ListParts" ∨ is "ListPartsRequest" then listParts
  else if is "ListMultipartUploads" ∨ is "ListMultipartUploadsRequest" then listMultipartUploads
  else unknown

/-- The counters that are saved, as `ParsedMetrics` holds them. -/
@[ext] structure Counters where
  calls : UInt64 := 0
  success : UInt64 := 0
  failures : UInt64 := 0
  retries : UInt64 := 0
  bytesUp : UInt64 := 0
  bytesDown : UInt64 := 0
  bytesServer : UInt64 := 0
  deriving DecidableEq

structure OperationMetrics extends Counters where
  totalLatencyMs : Int64 := 0
  minLatencyMs : Int64 := 9223372036854775807
  maxLatencyMs : Int64 := 0

structure CloudMetrics where
  metrics : S3OperationType → OperationMetrics := fun _ => {}
  regions : List Str := []

namespace CloudMetrics

/-- A change of an operation's counters, which `COUNT` has none of. -/
def modify (m : CloudMetrics) (op : S3OperationType) (f : OperationMetrics → OperationMetrics) : CloudMetrics :=
  if op = .count then m else { m with metrics := Function.update m.metrics op (f (m.metrics op)) }

/-- `updateMinLatency` and `updateMaxLatency` -/
def addLatency (latencyMs : Int64) (o : OperationMetrics) : OperationMetrics :=
  { o with
    totalLatencyMs := o.totalLatencyMs + latencyMs
    minLatencyMs := if latencyMs < o.minLatencyMs then latencyMs else o.minLatencyMs
    maxLatencyMs := if latencyMs > o.maxLatencyMs then latencyMs else o.maxLatencyMs }

def recordStart (m : CloudMetrics) (op : S3OperationType) : CloudMetrics :=
  m.modify op fun o => { o with calls := o.calls + 1 }

def recordSuccess (m : CloudMetrics) (op : S3OperationType) (latencyMs : Int64)
    (bytesUp bytesDown bytesServerSide : UInt64) : CloudMetrics :=
  m.modify op fun o =>
    addLatency latencyMs
      { o with
        success := o.success + 1
        bytesUp := o.bytesUp + bytesUp
        bytesDown := o.bytesDown + bytesDown
        bytesServer := o.bytesServer + bytesServerSide }

def recordFailure (m : CloudMetrics) (op : S3OperationType) (latencyMs : Int64) : CloudMetrics :=
  m.modify op fun o => addLatency latencyMs { o with failures := o.failures + 1 }

def recordRetry (m : CloudMetrics) (op : S3OperationType) : CloudMetrics :=
  m.modify op fun o => { o with retries := o.retries + 1 }

def addServerSideBytes (m : CloudMetrics) (op : S3OperationType) (bytes : UInt64) : CloudMetrics :=
  if bytes = 0 then m else m.modify op fun o => { o with bytesServer := o.bytesServer + bytes }

def addRegion (m : CloudMetrics) (region : Str) : CloudMetrics :=
  if region.isEmpty || m.regions.any (· == region) then m else { m with regions := m.regions ++ [region] }

/-- One operation's turn in `getTotalMetrics`: an extreme that was never set does not count. -/
def addTotals (total m : OperationMetrics) : OperationMetrics where
  calls := total.calls + m.calls
  success := total.success + m.success
  failures := total.failures + m.failures
  retries := total.retries + m.retries
  bytesUp := total.bytesUp + m.bytesUp
  bytesDown := total.bytesDown + m.bytesDown
  bytesServer := total.bytesServer + m.bytesServer
  totalLatencyMs := total.totalLatencyMs + m.totalLatencyMs
  minLatencyMs :=
    if m.minLatencyMs ≠ 9223372036854775807 ∧ m.minLatencyMs < total.minLatencyMs then m.minLatencyMs
    else total.minLatencyMs
  maxLatencyMs :=
    if m.maxLatencyMs > 0 ∧ m.maxLatencyMs > total.maxLatencyMs then m.maxLatencyMs else total.maxLatencyMs

def getTotalMetrics (m : CloudMetrics) : OperationMetrics :=
  S3OperationType.all.foldl (fun total op => addTotals total (m.metrics op)) {}

end CloudMetrics

inductive MetricsCall
  | recordStart (op : S3OperationType)
  | recordSuccess (op : S3OperationType) (latencyMs : Int64) (bytesUp bytesDown bytesServerSide : UInt64)
  | recordFailure (op : S3OperationType) (latencyMs : Int64)
  | recordRetry (op : S3OperationType)
  | addServerSideBytes (op : S3OperationType) (bytes : UInt64)
  | addRegion (region : Str)

def CloudMetrics.call (m : CloudMetrics) : MetricsCall → CloudMetrics
  | .recordStart op => m.recordStart op
  | .recordSuccess op latencyMs bytesUp bytesDown bytesServerSide =>
    m.recordSuccess op latencyMs bytesUp bytesDown bytesServerSide
  | .recordFailure op latencyMs => m.recordFailure op latencyMs
  | .recordRetry op => m.recordRetry op
  | .addServerSideBytes op bytes => m.addServerSideBytes op bytes
  | .addRegion region => m.addRegion region

/-! ## The document -/

/-- A JSON value, the numbers among them integers.  The members of an object are in the order of their keys. -/
inductive Json
  | null | bool (b : Bool) | number (n : Int) | string (s : Str) | array (elems : List Json)
  | object (members : List (Str × Json))

/-- `j[key] = value` -/
def setMember (key : Str) (value : Json) : List (Str × Json) → List (Str × Json)
  | [] => [(key, value)]
  | (k, v) :: rest =>
    if key < k then (key, value) :: (k, v) :: rest
    else if key = k then (key, value) :: rest
    else (k, v) :: setMember key value rest

def member (key : Str) : List (Str × Json) → Option Json
  | [] => none
  | (k, v) :: rest => if key = k then some v else member key rest

/-- `j.value(key, fallback)`, which throws where `j` is no object or the member no number. -/
def Json.value (key : Str) (fallback : Int) : Json → Option Int
  | .object members =>
    match member key members with
    | none => some fallback
    | some (.number n) => some n
    | some (.bool b) => some (if b then 1 else 0)
    | some _ => none
  | _ => none

/-- The members of `op_json`. -/
def countersMembers (c : Counters) : List (Str × Json) :=
  let set := fun (key : String) (n : UInt64) => setMember key.toList (.number n.toNat)
  set "bytes_server" c.bytesServer (set "bytes_down" c.bytesDown (set "bytes_up" c.bytesUp
    (set "retries" c.retries (set "failures" c.failures (set "success" c.success (set "calls" c.calls []))))))

/-- The operations that were called, under their names. -/
def metricsMembers (m : CloudMetrics) (ops : List S3OperationType) : List (Str × Json) :=
  ops.foldl (fun members op =>
    if (m.metrics op).calls = 0 then members
    else setMember op.name (.object (countersMembers (m.metrics op).toCounters)) members) []

def saveDocument (m : CloudMetrics) (savedAt : Str) : Json :=
  .object (setMember "regions".toList (.array (m.regions.map .string))
    (setMember "metrics".toList (.object (metricsMembers m S3OperationType.all))
      (setMember "saved_at".toList (.string savedAt) (setMember "version".toList (.number 1) []))))

def parseCounters (opJson : Json) : Option Counters := do
  let calls ← opJson.value "calls".toList 0
  let success ← opJson.value "success".toList 0
  let failures ← opJson.value "failures".toList 0
  let retries ← opJson.value "retries".toList 0
  let bytesUp ← opJson.value "bytes_up".toList 0
  let bytesDown ← opJson.value "bytes_down".toList 0
  let bytesServer ← opJson.value "bytes_server".toList 0
  return {
    calls := .ofInt calls
    success := .ofInt success
    failures := .ofInt failures
    retries := .ofInt retries
    bytesUp := .ofInt bytesUp
    bytesDown := .ofInt bytesDown
    bytesServer := .ofInt bytesServer }

/-- The members that name an operation, the last one for it counting. -/
def parseMetrics : List (Str × Json) → (S3OperationType → Counters) → Option (S3OperationType → Counters)
  | [], parsed => some parsed
  | (opName, opJson) :: rest, parsed =>
    let op := parseS3OperationType opName
    if op = .unknown ∨ op = .count then parseMetrics rest parsed
    else do
      let counters ← parseCounters opJson
      parseMetrics rest (Function.update parsed op counters)

def parseRegions : List Json → List Str
  | [] => []
  | .string region :: rest => region :: parseRegions rest
  | _ :: rest => parseRegions rest

/-- What `load` makes of a document, `none` where it gives up. -/
def parseDocument : Json → Option ((S3OperationType → Counters) × List Str)
  | .object members => do
    let version ← (Json.object members).value "version".toList 0
    if Int32.ofInt version ≠ 1 then none
    let parsed ←
      match member "metrics".toList members with
      | some (.object ops) => parseMetrics ops fun _ => {}
      | _ => some fun _ => {}
    let regions :=
      match member "regions".toList members with
      | some (.array elems) => parseRegions elems
      | _ => []
    return (parsed, regions)
  | _ => none

/-- The JSON library: a text that a value was dumped to parses to that value. -/
structure JsonLibrary where
  Text : Type
  dump : Json → Option Text
  parse : Text → Option Json
  parse_dump : ∀ j text, dump j = some text → parse text = some j

/-- `CloudMetrics::save`, up to the rename: the new content of the file. -/
def CloudMetrics.save (m : CloudMetrics) (lib : JsonLibrary) (savedAt : Str) : Option lib.Text :=
  lib.dump (saveDocument m savedAt)

/-- `CloudMetrics::load`: a file that is missing or does not parse leaves the counters as they were. -/
def CloudMetrics.load (m : CloudMetrics) (lib : JsonLibrary) (file : Option lib.Text) : CloudMetrics × Bool :=
  match (file.bind lib.parse).bind parseDocument with
  | none => (m, false)
  | some (parsed, regions) => ({ metrics := fun op => { toCounters := parsed op }, regions }, true)

/-! ## What is kept -/

/-- The saved counters and the regions are the same. -/
structure Restores (m m' : CloudMetrics) : Prop where
  counters : ∀ op ≠ .count, (m'.metrics op).toCounters = (m.metrics op).toCounters
  regions : m'.regions = m.regions

/-- Nothing is counted under no name, nor for an operation without a call. -/
structure Kept (m : CloudMetrics) : Prop where
  unknown : (m.metrics .unknown).toCounters = {}
  uncalled : ∀ op ≠ .count, (m.metrics op).calls = 0 → (m.metrics op).toCounters = {}

/-! ## The names -/

theorem parse_name (op : S3OperationType) (h : op ≠ .count) : parseS3OperationType op.name = op := by
  cases op with
  | count => exact absurd rfl h
  | _ => decide +kernel

theorem mem_all {op : S3OperationType} : op ∈ S3OperationType.all ↔ op ≠ .count := by
  cases op <;> decide

/-! ## Members -/

theorem member_setMember (key k : Str) (value : Json) (members : List (Str × Json)) :
    member k (setMember key value members) = if k = key then some value else member k members := by
  induction members with
  | nil => rfl
  | cons m rest ih =>
    obtain ⟨k', v⟩ := m
    unfold setMember
    split
    · rfl
    · split
      · rename_i heq
        subst heq
        by_cases hk : k = key
        · rw [member, if_pos hk, if_pos hk]
        · rw [member, if_neg hk, if_neg hk, member, if_neg hk]
      · rename_i hne
        rw [member, member, ih]
        by_cases hk : k = k'
        · rw [if_pos hk, if_pos hk, if_neg (fun h => hne (h.symm.trans hk))]
        · rw [if_neg hk, if_neg hk]

theorem ofInt_toNat (n : UInt64) : UInt64.ofInt n.toNat = n := by
  have hlt := n.toNat_lt
  have hmod : ((n.toNat : Int) % 2 ^ 64).toNat = n.toNat := by omega
  rw [UInt64.ofInt, hmod, UInt64.ofNat_toNat]

theorem parseCounters_members (c : Counters) : parseCounters (.object (countersMembers c)) = some c := by
  unfold parseCounters Json.value countersMembers
  simp only [member_setMember]
  simp [ofInt_toNat]

/-- An operation's entry in the document. -/
def opMember (m : CloudMetrics) (op : S3OperationType) : Str × Json :=
  (op.name, .object (countersMembers (m.metrics op).toCounters))

/-- One more entry goes among those that are there. -/
theorem setMember_entries (m : CloudMetrics) {op : S3OperationType} (hop : op ≠ .count) (ops : List S3OperationType)
    (hops : .count ∉ ops) : ∃ ops' : List S3OperationType,
      setMember op.name (opMember m op).2 (ops.map (opMember m)) = ops'.map (opMember m) ∧
      ∀ o, o ∈ ops' ↔ o = op ∨ o ∈ ops := by
  induction ops with
  | nil => exact ⟨[op], rfl, by simp⟩
  | cons o ops ih =>
    obtain ⟨hne, hrest⟩ := not_or.1 (List.mem_cons.not.1 hops)
    rw [List.map_cons]
    by_cases hlt : op.name < o.name
    · refine ⟨op :: o :: ops, ?_, fun o' => List.mem_cons⟩
      exact if_pos hlt
    · by_cases heq : op.name = o.name
      · -- no two operations have one name
        obtain rfl : op = o := by rw [← parse_name op hop, ← parse_name o (Ne.symm hne), heq]
        refine ⟨op :: ops, ?_, fun o' => by rw [List.mem_cons]; tauto⟩
        exact (if_neg hlt).trans (if_pos rfl)
      · obtain ⟨ops', hset, hmem⟩ := ih hrest
        refine ⟨o :: ops', ?_, fun o' => ?_⟩
        · rw [List.map_cons, ← hset]
          exact (if_neg hlt).trans (if_neg heq)
        · rw [List.mem_cons, List.mem_cons, hmem]
          tauto

/-- The document has an entry for each operation that was called. -/
theorem metricsMembers_entries (m : CloudMetrics) : ∃ ops : List S3OperationType,
    metricsMembers m S3OperationType.all = ops.map (opMember m) ∧
      ∀ o, o ∈ ops ↔ o ≠ .count ∧ (m.metrics o).calls ≠ 0 := by
  have hfold : ∀ (todo done : List S3OperationType), .count ∉ todo → .count ∉ done →
      ∃ ops : List S3OperationType,
      todo.foldl (fun members op =>
        if (m.metrics op).calls = 0 then members
        else setMember op.name (.object (countersMembers (m.metrics op).toCounters)) members) (done.map (opMember m)) =
          ops.map (opMember m) ∧ ∀ o, o ∈ ops ↔ o ∈ done ∨ o ∈ todo ∧ (m.metrics o).calls ≠ 0 := by
    intro todo
    induction todo with
    | nil => exact fun done _ _ => ⟨done, rfl, by simp⟩
    | cons op todo ih =>
      intro done htodo hdone
      obtain ⟨hne, hrest⟩ := not_or.1 (List.mem_cons.not.1 htodo)
      rw [List.foldl_cons]
      by_cases hcalls : (m.metrics op).calls = 0
      · rw [if_pos hcalls]
        obtain ⟨ops, hops, hmem⟩ := ih done hrest hdone
        refine ⟨ops, hops, fun o => ?_⟩
        rw [hmem, List.mem_cons]
        constructor
        · tauto
        · rintro (h | ⟨rfl | h, hc⟩)
          · exact .inl h
          · exact absurd hcalls hc
          · exact .inr ⟨h, hc⟩
      · rw [if_neg hcalls]
        obtain ⟨done', hset, hmem'⟩ := setMember_entries m (Ne.symm hne) done hdone
        have hdone' : .count ∉ done' := fun h => ((hmem' _).1 h).elim hne hdone
        obtain ⟨ops, hops, hmem⟩ := ih done' hrest hdone'
        rw [← hset] at hops
        refine ⟨ops, hops, fun o => ?_⟩
        rw [hmem, hmem', List.mem_cons]
        constructor
        · rintro ((rfl | h) | h)
          · exact .inr ⟨.inl rfl, hcalls⟩
          · exact .inl h
          · exact .inr ⟨.inr h.1, h.2⟩
        · tauto
  obtain ⟨ops, hops, hmem⟩ := hfold S3OperationType.all [] (by decide) List.not_mem_nil
  refine ⟨ops, hops, fun o => ?_⟩
  rw [hmem, mem_all]
  simp

/-- Entries read back, but for the calls under no name. -/
theorem parseMetrics_entries (m : CloudMetrics) (ops : List S3OperationType) (hops : .count ∉ ops)
    (parsed : S3OperationType → Counters) :
    parseMetrics (ops.map (opMember m)) parsed =
      some fun o => if o ∈ ops ∧ o ≠ .unknown then (m.metrics o).toCounters else parsed o := by
  induction ops generalizing parsed with
  | nil => simp [parseMetrics]
  | cons op ops ih =>
    obtain ⟨hne, hrest⟩ := not_or.1 (List.mem_cons.not.1 hops)
    have hparse := parse_name op (Ne.symm hne)
    rw [List.map_cons, opMember, parseMetrics, hparse]
    by_cases hunknown : op = .unknown
    · rw [if_pos (.inl hunknown), ih hrest]
      congr 1
      funext o
      refine if_congr ?_ rfl rfl
      rw [List.mem_cons, hunknown]
      tauto
    · rw [if_neg (by tauto), parseCounters_members]
      simp only [Option.bind_eq_bind, Option.bind_some]
      rw [ih hrest]
      congr 1
      funext o
      by_cases ho : o = op
      · subst ho
        rw [Function.update_self, ite_self, if_pos ⟨List.mem_cons_self, hunknown⟩]
      · rw [Function.update_of_ne ho]
        refine if_congr ?_ rfl rfl
        rw [List.mem_cons]
        tauto

theorem parseRegions_strings (regions : List Str) : parseRegions (regions.map .string) = regions := by
  induction regions with
  | nil => rfl
  | cons region regions ih => rw [List.map_cons, parseRegions, ih]

/-- What is read back of a document that was saved. -/
theorem parseDocument_saved (m : CloudMetrics) (savedAt : Str) :
    parseDocument (saveDocument m savedAt) = some (fun o =>
      if (o ≠ .count ∧ (m.metrics o).calls ≠ 0) ∧ o ≠ .unknown then (m.metrics o).toCounters else {}, m.regions) := by
  obtain ⟨ops, hops, hmem⟩ := metricsMembers_entries m
  have hcount : .count ∉ ops := fun h => ((hmem _).1 h).1 rfl
  unfold saveDocument
  generalize hmembers : setMember "regions".toList (.array (m.regions.map .string)) _ = members
  have hversion : member "version".toList members = some (.number 1) := by
    rw [← hmembers]
    simp [member_setMember]
  have hmetrics : member "metrics".toList members = some (.object (ops.map (opMember m))) := by
    rw [← hmembers, ← hops]
    simp [member_setMember]
  have hregions : member "regions".toList members = some (.array (m.regions.map .string)) := by
    rw [← hmembers]
    simp [member_setMember]
  have hone : Int32.ofInt 1 = 1 := by decide
  simp only [parseDocument, Json.value, hversion, hmetrics, hregions, parseRegions_strings,
    parseMetrics_entries m ops hcount, Option.bind_eq_bind, Option.bind_some, hone, ne_eq, not_true_eq_false, if_false,
    hmem]
  rfl

/-! ## The round trip -/

/-- What a load makes of a file that was saved: everything that a name was saved for. -/
theorem load_saved (m m₀ : CloudMetrics) (lib : JsonLibrary) (savedAt : Str) {text : lib.Text}
    (h : m.save lib savedAt = some text) :
    (m₀.load lib (some text)).2 = true ∧ (m₀.load lib (some text)).1.regions = m.regions ∧
      ∀ o, ((m₀.load lib (some text)).1.metrics o).toCounters =
        if (o ≠ .count ∧ (m.metrics o).calls ≠ 0) ∧ o ≠ .unknown then (m.metrics o).toCounters else {} := by
  unfold CloudMetrics.load
  rw [Option.bind_some, lib.parse_dump _ _ h, Option.bind_some, parseDocument_saved]
  exact ⟨rfl, rfl, fun _ => rfl⟩

/-- **A saved state comes back as it was exactly where nothing is counted under no name or without a call.** -/
theorem metrics_restored_iff (start m₀ : CloudMetrics) (calls : List MetricsCall) (lib : JsonLibrary) (savedAt : Str)
    {text : lib.Text} (h : (calls.foldl CloudMetrics.call start).save lib savedAt = some text) :
    Restores (calls.foldl CloudMetrics.call start) (m₀.load lib (some text)).1 ↔
      Kept (calls.foldl CloudMetrics.call start) := by
  generalize calls.foldl CloudMetrics.call start = m at h ⊢
  obtain ⟨-, hregions, hcounters⟩ := load_saved m m₀ lib savedAt h
  constructor
  · intro hr
    refine ⟨?_, fun op hop hcalls => ?_⟩
    · have hc := hr.counters .unknown (by decide)
      rw [hcounters, if_neg (by simp)] at hc
      exact hc.symm
    · have hc := hr.counters op hop
      rw [hcounters, if_neg (by simp [hcalls])] at hc
      exact hc.symm
  · intro hk
    refine ⟨fun op hop => ?_, hregions⟩
    rw [hcounters]
    split
    · rfl
    · rename_i hnot
      by_cases hunknown : op = .unknown
      · rw [hunknown, hk.unknown]
      · have hcalls : (m.metrics op).calls = 0 := by tauto
        rw [hk.uncalled op hop hcalls]

/-! ### Two calls that come back, and two that do not -/

/-- A library that keeps the values as they are. -/
def plainJson : JsonLibrary := ⟨Json, some, some, fun _ _ h => h.symm⟩

def readOnce : List MetricsCall :=
  [.recordStart .getObject, .recordSuccess .getObject 5 0 10 0, .addRegion "eu-central-1".toList]

theorem readOnce_kept : Kept (readOnce.foldl CloudMetrics.call {}) where
  unknown := rfl
  uncalled := by
    intro op hop hcalls
    cases op with
    | getObject => exact absurd hcalls (by decide)
    | _ => rfl

theorem metrics_restored_iff_once :
    Restores (readOnce.foldl CloudMetrics.call {})
      (({} : CloudMetrics).load plainJson ((readOnce.foldl CloudMetrics.call {}).save plainJson [])).1 :=
  (metrics_restored_iff {} {} readOnce plainJson [] rfl).2 readOnce_kept

/-- A request under no name of the table, and a retry before any call. -/
theorem metrics_not_restored :
    ¬ Restores (CloudMetrics.call {} (.recordStart .unknown)) (({} : CloudMetrics).load plainJson
      ((CloudMetrics.call {} (.recordStart .unknown)).save plainJson [])).1 ∧
    ¬ Restores (CloudMetrics.call {} (.recordRetry .getObject)) (({} : CloudMetrics).load plainJson
      ((CloudMetrics.call {} (.recordRetry .getObject)).save plainJson [])).1 := by
  constructor
  · intro h
    have hload := (load_saved (CloudMetrics.call {} (.recordStart .unknown)) {} plainJson [] rfl).2.2 .unknown
    have hsame := hload.symm.trans (h.counters .unknown (by decide))
    exact absurd hsame (by decide)
  · intro h
    have hload := (load_saved (CloudMetrics.call {} (.recordRetry .getObject)) {} plainJson [] rfl).2.2 .getObject
    have hsame := hload.symm.trans (h.counters .getObject (by decide))
    exact absurd hsame (by decide)

end Mito
