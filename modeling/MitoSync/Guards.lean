import MitoSync.Basic
/-!
# Guards — the checks on a path that read no file

`validate_relative_path` and the lexical `validate_target_within_base`, with the `fs::path` concatenation they are
applied to.
-/
namespace Mito

/-- `fs::path(base) / relative`. -/
def pathAppend (base relative : Str) : Str :=
  if relative.head? = some '/' then relative
  else if base = [] ∨ base.getLast? = some '/' then base ++ relative
  else base ++ '/' :: relative

/-- `validate_target_within_base`: a comparison of strings. -/
def withinBase (base target : Str) : Bool := (withSlash base).isPrefixOf target

def separatorsNormalized (p : Str) : Str := p.map (fun c => if c = '\\' then '/' else c)

/-- The components the check visits: the walk stops at the end of the string, so one closing separator adds none. -/
def components (p : Str) : List Str :=
  let cs := p.splitOn '/'
  if cs.getLast? = some [] then cs.dropLast else cs

def componentOk (c : Str) : Bool := c ≠ [] && c ≠ ['.', '.'] && c ≠ ['.']

def validateRelativePath (p : Str) : Bool :=
  if p = [] then true
  else if p.head? = some '/' ∨ p.head? = some '\\' then false
  else (components (separatorsNormalized p)).all componentOk

/-- The two lexical checks every local executor makes of its target. -/
def targetAccepted (base relative : Str) : Bool :=
  validateRelativePath relative && withinBase base (pathAppend base relative)

theorem pathAppend_eq {base relative : Str} (h : relative.head? ≠ some '/') :
    pathAppend base relative = withSlash base ++ relative := by
  unfold pathAppend withSlash
  rw [if_neg h]
  by_cases hb : base = [] ∨ base.getLast? = some '/'
  · rw [if_pos hb, if_neg (by tauto)]
  · rw [if_neg hb, if_pos (by tauto), List.append_assoc]
    rfl

/-- A valid relative path is never absolute. -/
theorem validateRelativePath_head {p : Str} (h : validateRelativePath p = true) : p.head? ≠ some '/' := by
  unfold validateRelativePath at h
  split at h
  · rename_i hp
    simp [hp]
  · split at h
    · simp at h
    · rename_i hh
      tauto

/-- **The lexical check of the base adds nothing to a valid relative path.** -/
theorem targetAccepted_eq (base relative : Str) : targetAccepted base relative = validateRelativePath relative := by
  unfold targetAccepted
  cases h : validateRelativePath relative with
  | false => rfl
  | true =>
    rw [pathAppend_eq (validateRelativePath_head h), Bool.true_and]
    unfold withinBase
    rw [List.isPrefixOf_iff_prefix]
    exact List.prefix_append _ _

end Mito
