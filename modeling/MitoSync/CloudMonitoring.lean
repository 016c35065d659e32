import MitoSync.UrlParser
import MitoSync.Lib.Search
/-!
# CloudMonitoring — the buckets of a copy

The monitor tells a copy inside a bucket from one between buckets by the request alone.  The source is in a header and
always found.  The destination is what stands before the first `.s3.` or `.s3-` of the host, and the path's first
part where the host has neither: a bucket or an endpoint whose own name has such a marker is cut at it
(`copy_attributed_iff`).
-/
namespace Mito

open Lib

/-! ## The code -/

/-- What the monitor reads of an `HttpRequest`: its headers by name, and the path of its URI. -/
structure HttpRequest where
  header : Str → Option Str
  path : Str

/-- `extractSourceBucket`, of `/bucket/key` or `bucket/key`. -/
def extractSourceBucket : Str → Str
  | '/' :: source => source.takeWhile (· ≠ '/')
  | source => source.takeWhile (· ≠ '/')

/-- Virtual-hosted style: the bucket before `.s3.`, or else before the older `.s3-`. -/
def hostBucket (host : Str) : Option Str :=
  (beforeFirst ".s3.".toList host).or (beforeFirst ".s3-".toList host)

/-- Path style: the first part of an absolute path. -/
def pathBucket : Str → Str
  | '/' :: path => path.takeWhile (· ≠ '/')
  | _ => []

def extractDestinationBucket : Option HttpRequest → Str
  | none => []
  | some request =>
    match (request.header "Host".toList).bind hostBucket with
    | some bucket => bucket
    | none => pathBucket request.path

/-- The copy source, under either spelling of its header. -/
def copySource (request : HttpRequest) : Option Str :=
  (request.header "x-amz-copy-source".toList).or (request.header "X-Amz-Copy-Source".toList)

/-- `isCrossBucketCopy`.  What cannot be told counts as a copy between buckets. -/
def isCrossBucketCopy : Option HttpRequest → Bool
  | none => true
  | some request =>
    let sourceBucket := ((copySource request).map extractSourceBucket).getD []
    if sourceBucket = [] then true
    else if extractDestinationBucket (some request) = [] then true
    else sourceBucket ≠ extractDestinationBucket (some request)

/-! ## The requests -/

/-- A bucket's name, with what its decoding needs of S3's rules for one. -/
structure BucketName where
  val : Str
  nonempty : val ≠ []
  plain : '/' ∉ val

/-- How a request names its bucket. -/
inductive Style
  | virtualHosted (region : Option Str)
  | path (endpoint : Str)

def Style.host (bucket : BucketName) : Style → Str
  | .virtualHosted (some region) => bucket.val ++ ".s3.".toList ++ region ++ ".amazonaws.com".toList
  | .virtualHosted none => bucket.val ++ ".s3.".toList ++ "amazonaws.com".toList
  | .path endpoint => endpoint

/-- A copy's request: its host and path name the destination, its header the source. -/
structure Copies (request : HttpRequest) (style : Style) (source destination : BucketName) : Prop where
  host : request.header "Host".toList = some (style.host destination)
  path : ∀ endpoint, style = .path endpoint → ∃ key, request.path = '/' :: (destination.val ++ '/' :: key)
  source : ∃ slash key, (slash = [] ∨ slash = ['/']) ∧
    copySource request = some (slash ++ (source.val ++ '/' :: key))

/-- No marker is met before the one that ends the bucket's name, or none at all where the path names it. -/
def Style.Located (bucket : BucketName) : Style → Prop
  | .virtualHosted _ => ¬ ".s3.".toList <:+: bucket.val ++ ".s3".toList
  | .path endpoint =>
    FirstAt ".s3.".toList bucket.val endpoint ∨
      ¬ ".s3.".toList <:+: endpoint ∧
        (FirstAt ".s3-".toList bucket.val endpoint ∨ ¬ ".s3-".toList <:+: endpoint)

/-! ## The two buckets -/

section Buckets

variable {request : HttpRequest} {style : Style} {source destination : BucketName}

theorem takeWhile_bucket (bucket : BucketName) (key : Str) :
    (bucket.val ++ '/' :: key).takeWhile (· ≠ '/') = bucket.val :=
  (split_first key bucket.plain).1

/-- A name does not begin with the slash that the header may. -/
theorem extractSourceBucket_eq (bucket : BucketName) {slash : Str} (h : slash = [] ∨ slash = ['/']) (key : Str) :
    extractSourceBucket (slash ++ (bucket.val ++ '/' :: key)) = bucket.val := by
  rcases h with rfl | rfl
  · obtain ⟨c, name, hname⟩ := List.exists_cons_of_ne_nil bucket.nonempty
    have hc : c ≠ '/' := fun heq => bucket.plain (by simp [hname, heq])
    have hplain : extractSourceBucket (bucket.val ++ '/' :: key) =
        (bucket.val ++ '/' :: key).takeWhile (· ≠ '/') := by
      rw [hname, List.cons_append]
      exact extractSourceBucket.eq_2 _ fun source heq => hc (List.cons.inj heq).1
    rw [List.nil_append, hplain, takeWhile_bucket]
  · exact takeWhile_bucket bucket key

theorem marker_ne_nil : ".s3.".toList ≠ [] ∧ ".s3-".toList ≠ [] := by decide

/-- A virtual host is cut at its first `.s3.`. -/
theorem firstAt_virtual (bucket : BucketName) (region : Option Str) :
    FirstAt ".s3.".toList bucket.val ((Style.virtualHosted region).host bucket) ↔
      (Style.virtualHosted region).Located bucket := by
  have hpre : bucket.val ++ ".s3.".toList <+: (Style.virtualHosted region).host bucket := by
    cases region with
    | none => exact ⟨_, rfl⟩
    | some region => exact ⟨region ++ ".amazonaws.com".toList, by simp [Style.host]⟩
  have hdrop : (bucket.val ++ ".s3.".toList).dropLast = bucket.val ++ ".s3".toList := by
    rw [List.dropLast_append_of_ne_nil marker_ne_nil.1]
    rfl
  unfold FirstAt Style.Located
  rw [hdrop]
  exact and_iff_right hpre

theorem extractDestinationBucket_eq (h : Copies request style source destination) :
    extractDestinationBucket (some request) = (hostBucket (style.host destination)).getD (pathBucket request.path) := by
  unfold extractDestinationBucket
  dsimp only
  rw [h.host, Option.bind_some]
  cases hostBucket (style.host destination) <;> rfl

/-- **The destination is found where no marker stands before it.** -/
theorem extractDestinationBucket_iff (h : Copies request style source destination) :
    extractDestinationBucket (some request) = destination.val ↔ style.Located destination := by
  rw [extractDestinationBucket_eq h]
  unfold hostBucket
  cases style with
  | virtualHosted region =>
    rw [← firstAt_virtual, ← beforeFirst_eq_some_iff marker_ne_nil.1]
    cases hfirst : beforeFirst ".s3.".toList ((Style.virtualHosted region).host destination) with
    | none =>
      -- the host has a `.s3.` of its own making
      refine absurd ?_ ((beforeFirst_eq_none_iff marker_ne_nil.1).1 hfirst)
      cases region with
      | none => exact ⟨destination.val, "amazonaws.com".toList, rfl⟩
      | some region => exact ⟨destination.val, region ++ ".amazonaws.com".toList, by simp [Style.host]⟩
    | some bucket => simp
  | path endpoint =>
    obtain ⟨key, hpath⟩ := h.path endpoint rfl
    have hbucket : pathBucket request.path = destination.val := by
      rw [hpath]
      exact takeWhile_bucket destination key
    show ((beforeFirst ".s3.".toList endpoint).or (beforeFirst ".s3-".toList endpoint)).getD _ = _ ↔ _
    rw [Style.Located, ← beforeFirst_eq_some_iff marker_ne_nil.1, ← beforeFirst_eq_some_iff marker_ne_nil.2,
      ← beforeFirst_eq_none_iff marker_ne_nil.1, ← beforeFirst_eq_none_iff marker_ne_nil.2, hbucket]
    cases beforeFirst ".s3.".toList endpoint with
    | some bucket => simp
    | none => cases beforeFirst ".s3-".toList endpoint <;> simp

theorem isCrossBucketCopy_eq (h : Copies request style source destination)
    (hfound : extractDestinationBucket (some request) = destination.val) :
    isCrossBucketCopy (some request) = true ↔ source.val ≠ destination.val := by
  obtain ⟨slash, key, hslash, hsource⟩ := h.source
  unfold isCrossBucketCopy
  dsimp only
  rw [hfound, hsource, Option.map_some, Option.getD_some, extractSourceBucket_eq source hslash, if_neg source.nonempty,
    if_neg destination.nonempty, decide_eq_true_iff]

/-- **A copy is attributed to its buckets where the destination's marker is the first.** -/
theorem copy_attributed_iff (h : Copies request style source destination) :
    (extractDestinationBucket (some request) = destination.val ∧
        (isCrossBucketCopy (some request) = true ↔ source.val ≠ destination.val)) ↔
      style.Located destination := by
  rw [← extractDestinationBucket_iff h]
  exact and_iff_left_of_imp (isCrossBucketCopy_eq h)

end Buckets

/-- A copy in `us-east-1` from a bucket to itself. -/
def copyWithin (bucket : Str) : HttpRequest where
  header name :=
    if name = "Host".toList then some (bucket ++ ".s3.us-east-1.amazonaws.com".toList)
    else if name = "x-amz-copy-source".toList then some (bucket ++ "/key".toList)
    else none
  path := "/key".toList

theorem copy_attributed_iff_pinned :
    (extractDestinationBucket (some (copyWithin "my-data".toList)) = "my-data".toList ∧
        (isCrossBucketCopy (some (copyWithin "my-data".toList)) = true ↔ "my-data".toList ≠ "my-data".toList)) ↔
      ¬ ".s3.".toList <:+: "my-data".toList ++ ".s3".toList :=
  @copy_attributed_iff (copyWithin "my-data".toList) (.virtualHosted (some "us-east-1".toList))
    ⟨"my-data".toList, by decide, by decide⟩ ⟨"my-data".toList, by decide, by decide⟩
    ⟨rfl, nofun, [], "key".toList, .inl rfl, rfl⟩

/-- A copy within `my.s3.data` counts as one to another bucket, `my`. -/
theorem copy_within_marked_bucket :
    extractDestinationBucket (some (copyWithin "my.s3.data".toList)) = "my".toList ∧
      isCrossBucketCopy (some (copyWithin "my.s3.data".toList)) = true := by
  decide

end Mito
