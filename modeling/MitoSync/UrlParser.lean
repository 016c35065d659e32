import MitoSync.RangedRead
/-!
# UrlParser — the bucket, the key and the region of an S3 URL

`parse_s3_url` takes what follows the last `@` for a region wherever a slash comes before it, and the bucket's slash
always does.  So a URL parses back to what it was built from where it names a region, or where its key has no `@`
(`objectUrl_parses_back_iff`); any other key loses what follows its last `@`.
-/
namespace Mito

/-! ## The code -/

/-- A text around the last occurrence of a character, as `rfind` finds it. -/
def splitLast (c : Char) (s : Str) : Option (Str × Str) :=
  match s.reverse.dropWhile (· ≠ c) with
  | [] => none
  | _ :: before => some (before.reverse, (s.reverse.takeWhile (· ≠ c)).reverse)

/-- The bucket and the key of what is left without its region. -/
def parseBucketKey (rest : Str) : Option FileSource :=
  let bucket := rest.takeWhile (· ≠ '/')
  match rest.dropWhile (· ≠ '/') with
  | [] => none
  | _ :: key => if bucket = [] then none else if key = [] then none else some ⟨bucket, key⟩

/-- `parse_s3_url`: the bucket and the key, and what `region` then holds; `none` where it returns false. -/
def parseS3UrlInto (url region : Str) : Option (FileSource × Str) :=
  if "s3://".toList.isPrefixOf url then
    let rest := url.drop 5
    match splitLast '@' rest with
    | some (before, suffix) =>
      if before ≠ [] ∧ before.contains '/' then (parseBucketKey before).map (fun s => (s, suffix))
      else (parseBucketKey rest).map (fun s => (s, region))
    | none => (parseBucketKey rest).map (fun s => (s, region))
  else none

/-- The URL of an object, with the region it is in where one is given. -/
def objectUrl (bucket key region : Str) : Str :=
  "s3://".toList ++ (bucket ++ '/' :: (key ++ if region = [] then [] else '@' :: region))

/-! ## The last and the first of a character -/

section Split

variable {c : Char} {s before : Str}

theorem split_first (after : Str) (h : c ∉ before) : (before ++ c :: after).takeWhile (· ≠ c) = before ∧
    (before ++ c :: after).dropWhile (· ≠ c) = c :: after := by
  refine span_iff.2 ⟨rfl, fun x hx => decide_eq_true ?_, fun x hx => ?_⟩
  · rintro rfl
    exact h hx
  · obtain rfl : c = x := Option.some.inj hx
    simp

theorem splitLast_of_not_mem (h : c ∉ s) : splitLast c s = none := by
  have hdrop : s.reverse.dropWhile (· ≠ c) = [] := by
    refine List.dropWhile_eq_nil_iff.2 fun x hx => decide_eq_true ?_
    rintro rfl
    exact h (List.mem_reverse.1 hx)
  unfold splitLast
  rw [hdrop]

theorem splitLast_append (before : Str) {after : Str} (h : c ∉ after) :
    splitLast c (before ++ c :: after) = some (before, after) := by
  have hrev : (before ++ c :: after).reverse = after.reverse ++ c :: before.reverse := by simp
  have hnot : c ∉ after.reverse := fun hmem => h (List.mem_reverse.1 hmem)
  obtain ⟨htake, hdrop⟩ := split_first before.reverse hnot
  unfold splitLast
  rw [hrev, hdrop, htake]
  simp

/-- A text that has a character has it last somewhere. -/
theorem exists_last (h : c ∈ s) : ∃ before after, s = before ++ c :: after ∧ c ∉ after := by
  induction s with
  | nil => exact absurd h List.not_mem_nil
  | cons x s ih =>
    by_cases hs : c ∈ s
    · obtain ⟨before, after, rfl, hafter⟩ := ih hs
      exact ⟨x :: before, after, rfl, hafter⟩
    · obtain rfl : c = x := (List.mem_cons.1 h).resolve_right hs
      exact ⟨[], s, rfl, hs⟩

end Split

/-! ## What is parsed -/

theorem parseBucketKey_eq {bucket : Str} (hne : bucket ≠ []) (hb : '/' ∉ bucket) (key : Str) :
    parseBucketKey (bucket ++ '/' :: key) = if key = [] then none else some ⟨bucket, key⟩ := by
  obtain ⟨htake, hdrop⟩ := split_first key hb
  unfold parseBucketKey
  simp only [htake, hdrop, if_neg hne]

section Parse

variable {bucket key region rest : Str}

/-- A region that is named is taken off. -/
theorem parseS3UrlInto_region (hne : bucket ≠ []) (hb : '/' ∉ bucket) (hr : '@' ∉ region) (key region₀ : Str) :
    parseS3UrlInto ("s3://".toList ++ (bucket ++ '/' :: (key ++ '@' :: region))) region₀ =
      if key = [] then none else some (⟨bucket, key⟩, region) := by
  have happ : bucket ++ '/' :: (key ++ '@' :: region) = (bucket ++ '/' :: key) ++ '@' :: region := by simp
  have hdrop : ("s3://".toList ++ (bucket ++ '/' :: (key ++ '@' :: region))).drop 5 =
      (bucket ++ '/' :: key) ++ '@' :: region := happ
  have hbefore : bucket ++ '/' :: key ≠ [] ∧ (bucket ++ '/' :: key).contains '/' = true := by simp
  unfold parseS3UrlInto
  rw [if_pos (by simp [List.isPrefixOf]), hdrop]
  dsimp only
  rw [splitLast_append _ hr]
  dsimp only
  rw [if_pos hbefore, parseBucketKey_eq hne hb]
  split <;> rfl

/-- Without any `@` there is no region. -/
theorem parseS3UrlInto_plain (hne : bucket ≠ []) (hb : '/' ∉ bucket) (hk : key ≠ []) (hba : '@' ∉ bucket)
    (hka : '@' ∉ key) (region₀ : Str) :
    parseS3UrlInto ("s3://".toList ++ (bucket ++ '/' :: key)) region₀ = some (⟨bucket, key⟩, region₀) := by
  have hdrop : ("s3://".toList ++ (bucket ++ '/' :: key)).drop 5 = bucket ++ '/' :: key := rfl
  have hnone : splitLast '@' (bucket ++ '/' :: key) = none := by
    refine splitLast_of_not_mem fun h => ?_
    rcases List.mem_append.1 h with h | h
    · exact hba h
    · exact hka ((List.mem_cons.1 h).resolve_left (by decide))
  unfold parseS3UrlInto
  rw [if_pos (by simp [List.isPrefixOf]), hdrop]
  dsimp only
  rw [hnone]
  dsimp only
  rw [parseBucketKey_eq hne hb, if_neg hk]
  rfl

/-- **A URL parses back where it names a region, or where its key has no `@`.** -/
theorem objectUrl_parses_back_iff (hne : bucket ≠ []) (hb : '/' ∉ bucket) (hba : '@' ∉ bucket) (hk : key ≠ [])
    (hr : '/' ∉ region ∧ '@' ∉ region) (region₀ : Str) :
    parseS3UrlInto (objectUrl bucket key region) region₀ =
        some (⟨bucket, key⟩, if region = [] then region₀ else region) ↔
      region ≠ [] ∨ '@' ∉ key := by
  unfold objectUrl
  by_cases hempty : region = []
  · rw [if_pos hempty, if_pos hempty, List.append_nil]
    by_cases hka : '@' ∈ key
    · refine iff_of_false (fun h => ?_) (by simp [hempty, hka])
      -- the key loses what follows its last `@`
      obtain ⟨before, after, rfl, hafter⟩ := exists_last hka
      rw [parseS3UrlInto_region hne hb hafter] at h
      split at h
      · exact absurd h (by simp)
      · have hkey : before = before ++ '@' :: after := by
          have hpair := congrArg (fun p : FileSource × Str => p.1.path) (Option.some.inj h)
          exact hpair
        exact absurd (congrArg List.length hkey) (by simp)
    · exact iff_of_true (parseS3UrlInto_plain hne hb hk hba hka region₀) (.inr hka)
  · rw [if_neg hempty, if_neg hempty, parseS3UrlInto_region hne hb hr.2, if_neg hk]
    exact iff_of_true rfl (.inl hempty)

end Parse

theorem objectUrl_parses_back_iff_pinned :
    parseS3UrlInto (objectUrl ['b'] ['a', '@', 'b', '/', 'c'] ['e', 'u', '-', '1']) [] =
      some (⟨['b'], ['a', '@', 'b', '/', 'c']⟩, ['e', 'u', '-', '1']) :=
  (objectUrl_parses_back_iff (by decide) (by decide) (by decide) (by decide) (by decide) []).2 (.inl (by decide))

/-- The URL of the object `a@b/c` names the object `a`, and a region that is none. -/
theorem objectUrl_at_in_key :
    parseS3UrlInto (objectUrl ['b'] ['a', '@', 'b', '/', 'c'] []) [] = some (⟨['b'], ['a']⟩, ['b', '/', 'c']) ∧
      parseS3UrlInto (objectUrl ['b'] ['a', '@', 'b', '/', 'c'] []) [] ≠ some (⟨['b'], ['a', '@', 'b', '/', 'c']⟩, []) := by
  decide

end Mito
