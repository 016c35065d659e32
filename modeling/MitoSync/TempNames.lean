import MitoSync.SyncCommand
import MitoSync.Numerals
/-!
# TempNames — the names of temporary files

`make_temp_name` cuts the target's name to what the longest file name leaves room for, and puts its process and a
counter behind it.  Whatever the target is called, the sweep recognises the name, reads that process in it, and no two
names of one target are the same (`makeTempName_owned`): a numeral has no dash, so the last two dashes are the
writer's own.
-/
namespace Mito

/-! ## The code -/

def tempNameSuffix (pid : Nat) (counter : UInt64) : Str :=
  '-' :: (numeral pid ++ '-' :: (numeral counter.toNat ++ tempSuffix))

/-- `make_temp_name`, for the target's file name.  One byte of the budget is the leading dot's. -/
def makeTempName (target : Str) (pid : Nat) (counter : UInt64) : Str :=
  let budget := 255 - (tempNameSuffix pid counter).length - 1
  let stem := if target.length > budget then target.take budget else target
  '.' :: (stem ++ tempNameSuffix pid counter)

/-! ## What is read back -/

section Names

variable {target : Str} {pid : Nat} {counter : UInt64}

theorem length_tempNameSuffix (hpid : pid ≤ 2147483647) (counter : UInt64) :
    (tempNameSuffix pid counter).length ≤ 41 := by
  have hp := length_numeral_le (k := 10) (by decide) (show pid < 10 ^ 10 by omega)
  have hc := length_numeral_le (k := 20) (by decide) (show counter.toNat < 10 ^ 20 by have := counter.toNat_lt; omega)
  have hs : tempSuffix.length = 9 := rfl
  unfold tempNameSuffix
  simp only [List.length_cons, List.length_append]
  omega

/-- A name is a dot, what is kept of the target, and the suffix. -/
theorem makeTempName_eq (hne : target ≠ []) (hpid : pid ≤ 2147483647) (counter : UInt64) :
    ∃ stem, stem ≠ [] ∧ stem.length + (tempNameSuffix pid counter).length ≤ 254 ∧
      makeTempName target pid counter = '.' :: (stem ++ tempNameSuffix pid counter) := by
  have hsuffix := length_tempNameSuffix hpid counter
  have htarget := List.length_pos_of_ne_nil hne
  unfold makeTempName
  dsimp only
  split
  · rename_i hlong
    refine ⟨_, List.ne_nil_of_length_pos ?_, ?_, rfl⟩
    · rw [List.length_take]
      omega
    · rw [List.length_take]
      omega
  · exact ⟨target, hne, by omega, rfl⟩

theorem isSyncTempName_append {body : Str} (h : body.head? = some '.') :
    isSyncTempName (body ++ tempSuffix) = true := by
  have hne : body ≠ [] := by
    rintro rfl
    exact absurd h (by simp)
  have hlen := List.length_pos_of_ne_nil hne
  have hhead : (body ++ tempSuffix).head? = some '.' := by rw [List.head?_append, h]; rfl
  have hsuffix : tempSuffix.isSuffixOf (body ++ tempSuffix) = true :=
    List.isSuffixOf_iff_suffix.2 (List.suffix_append _ _)
  unfold isSyncTempName
  rw [hhead, hsuffix, List.length_append]
  simp [hlen]

/-- **What the sweep reads in a name**: the process between the last two dashes. -/
theorem parseSyncTempPid_append {stem counter : Str} (hstem : stem ≠ []) (hpid : 0 < pid ∧ pid ≤ 2147483647)
    (hne : counter ≠ []) (hdigits : counter.all Char.isDigit = true) :
    parseSyncTempPid ('.' :: (stem ++ '-' :: (numeral pid ++ '-' :: counter)) ++ tempSuffix) = some pid := by
  have hdash : '-' ∉ counter := fun h => absurd (List.all_eq_true.1 hdigits _ h) (by decide)
  have hbody : ('.' :: (stem ++ '-' :: (numeral pid ++ '-' :: counter)) ++ tempSuffix).take
      (('.' :: (stem ++ '-' :: (numeral pid ++ '-' :: counter)) ++ tempSuffix).length - tempSuffix.length) =
        ('.' :: (stem ++ '-' :: numeral pid)) ++ '-' :: counter := by
    rw [List.length_append, Nat.add_sub_cancel, List.take_left]
    simp
  have hlong : 1 < ('.' :: stem).length := by
    have := List.length_pos_of_ne_nil hstem
    simp only [List.length_cons]
    omega
  have hlast : splitLast '-' ('.' :: (stem ++ '-' :: numeral pid)) = some ('.' :: stem, numeral pid) :=
    splitLast_append ('.' :: stem) (dash_not_mem_numeral pid)
  unfold parseSyncTempPid
  rw [isSyncTempName_append rfl, hbody]
  simp only [splitLast_append _ hdash, hlast, hne, hlong, numeral_ne_nil, all_isDigit_numeral, hdigits,
    decimal_numeral, hpid, ne_eq, not_false_eq_true, and_self, guard, if_true, Option.bind_eq_bind, Option.bind_some,
    Option.pure_def]

/-- A name's parts, up to its suffix. -/
theorem makeTempName_parts (hne : target ≠ []) (hpid : pid ≤ 2147483647) (counter : UInt64) :
    ∃ stem, stem ≠ [] ∧ makeTempName target pid counter =
      '.' :: (stem ++ '-' :: (numeral pid ++ '-' :: numeral counter.toNat)) ++ tempSuffix := by
  obtain ⟨stem, hstem, -, hname⟩ := makeTempName_eq hne hpid counter
  refine ⟨stem, hstem, ?_⟩
  rw [hname]
  simp [tempNameSuffix]

theorem parseSyncTempPid_makeTempName (hne : target ≠ []) (hpid : 0 < pid ∧ pid ≤ 2147483647) (counter : UInt64) :
    parseSyncTempPid (makeTempName target pid counter) = some pid := by
  obtain ⟨stem, hstem, hname⟩ := makeTempName_parts hne hpid.2 counter
  rw [hname]
  exact parseSyncTempPid_append hstem hpid (numeral_ne_nil _) (all_isDigit_numeral _)

/-- The last dash stands before the counter. -/
theorem counter_of_makeTempName (hne : target ≠ []) {pid' : Nat} {counter' : UInt64} (hpid : pid ≤ 2147483647)
    (hpid' : pid' ≤ 2147483647) (h : makeTempName target pid' counter' = makeTempName target pid counter) :
    counter' = counter := by
  have hlast : ∀ (stem : Str) (pid : Nat) (counter : UInt64),
      splitLast '-' ('.' :: (stem ++ '-' :: (numeral pid ++ '-' :: numeral counter.toNat))) =
        some ('.' :: (stem ++ '-' :: numeral pid), numeral counter.toNat) := by
    intro stem pid counter
    rw [← splitLast_append ('.' :: (stem ++ '-' :: numeral pid)) (dash_not_mem_numeral counter.toNat)]
    simp
  obtain ⟨stem, -, hname⟩ := makeTempName_parts hne hpid counter
  obtain ⟨stem', -, hname'⟩ := makeTempName_parts hne hpid' counter'
  rw [hname, hname'] at h
  have hsplit := congrArg (splitLast '-') (List.append_cancel_right h)
  rw [hlast, hlast] at hsplit
  have hnumeral : numeral counter'.toNat = numeral counter.toNat := congrArg Prod.snd (Option.some.inj hsplit)
  exact UInt64.toNat_inj.1 (numeral_injective hnumeral)

/-- **A temporary name fits, is recognised, names its process, and is no other's.** -/
theorem makeTempName_owned (hne : target ≠ []) (hpid : 0 < pid ∧ pid ≤ 2147483647) (counter : UInt64) :
    (makeTempName target pid counter).length ≤ 255 ∧ isSyncTempName (makeTempName target pid counter) = true ∧
      parseSyncTempPid (makeTempName target pid counter) = some pid ∧
      ∀ (pid' : Nat) (counter' : UInt64), 0 < pid' ∧ pid' ≤ 2147483647 →
        makeTempName target pid' counter' = makeTempName target pid counter → pid' = pid ∧ counter' = counter := by
  have hparse := parseSyncTempPid_makeTempName hne hpid counter
  refine ⟨?_, ?_, hparse, fun pid' counter' hpid' h => ⟨?_, counter_of_makeTempName hne hpid.2 hpid'.2 h⟩⟩
  · obtain ⟨stem, -, hlen, hname⟩ := makeTempName_eq hne hpid.2 counter
    rw [hname, List.length_cons, List.length_append]
    omega
  · obtain ⟨stem, -, hname⟩ := makeTempName_parts hne hpid.2 counter
    rw [hname]
    exact isSyncTempName_append rfl
  · have hparse' := parseSyncTempPid_makeTempName hne hpid' counter'
    rw [h, hparse] at hparse'
    exact (Option.some.inj hparse').symm

end Names

/-- A target that looks like a temporary file itself. -/
theorem makeTempName_owned_nested :
    parseSyncTempPid (makeTempName ".a-1-2.mito-tmp".toList 77 5) = some 77 :=
  (makeTempName_owned (by decide) (by decide) 5).2.2.1

end Mito
