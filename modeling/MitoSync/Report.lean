import MitoSync.Diff
import MitoSync.Numerals
import MitoSync.Lib.Csv
/-!
# Report — the results of a directory comparison as comma-separated values

`write_csv_results` puts a line down for each file that did not match: quotes stand round the path and the error text,
and nothing is escaped.  A reader of such files gets back what was written exactly if no path and no error text on a
line has a quote, and no source named as the only one that has a file has a comma, a quote or a line break in its name
(`csv_reads_back`).
-/
namespace Mito

open Lib

def sourceToString (source : DiffSource) : Str :=
  match source.type with
  | .local => source.path
  | .s3 => "s3://".toList ++ source.bucket ++ "/".toList ++ source.path

def statusToString (status : FileCompareStatus) (sizeA sizeB : Int) (srcA srcB : Str) : Str :=
  let different : Str :=
    if sizeA ≥ 0 ∧ sizeB < 0 then if srcA = [] then "ONLY_A".toList else "ONLY ".toList ++ srcA
    else if sizeB ≥ 0 ∧ sizeA < 0 then if srcB = [] then "ONLY_B".toList else "ONLY ".toList ++ srcB
    else "DIFFERENT".toList
  match status with
  | .mismatch => different
  | .match => "MATCH".toList
  | .error => "ERROR".toList
  | .onlyInA | .onlyInB => "UNKNOWN".toList

/-- What `write_csv_results` puts into a file that it could open. -/
def writeCsvResults (result : DirectoryComparisonResult) (sourceA sourceB : Str) : Str :=
  "status,path,size_a,size_b,error\n".toList ++ result.files.flatMap fun file =>
    if file.status = .match then []
    else
      statusToString file.status file.sizeA file.sizeB sourceA sourceB ++ ",".toList ++
        "\"".toList ++ file.relativePath ++ "\",".toList ++
        signedNumeral file.sizeA ++ ",".toList ++ signedNumeral file.sizeB ++ ",".toList ++
        "\"".toList ++ file.errorMessage ++ "\"\n".toList

/-! ## The table that is meant -/

def csvHeader : List Str :=
  ["status".toList, "path".toList, "size_a".toList, "size_b".toList, "error".toList]

def csvRow (sourceA sourceB : Str) (file : FileCompareResult) : List Str :=
  [statusToString file.status file.sizeA file.sizeB sourceA sourceB, file.relativePath, signedNumeral file.sizeA,
    signedNumeral file.sizeB, file.errorMessage]

def csvTable (result : DirectoryComparisonResult) (sourceA sourceB : Str) : Csv.Table :=
  csvHeader :: (result.files.filter fun file => file.status ≠ .match).map (csvRow sourceA sourceB)

/-- A text that may stand without quotes. -/
def isPlain (text : Str) : Prop := ∀ c ∈ text, Csv.isSpecial c = false

instance (text : Str) : Decidable (isPlain text) := List.decidableBAll _ _

def csvCells (sourceA sourceB : Str) (file : FileCompareResult) : List Csv.Cell :=
  [⟨false, statusToString file.status file.sizeA file.sizeB sourceA sourceB⟩, ⟨true, file.relativePath⟩,
    ⟨false, signedNumeral file.sizeA⟩, ⟨false, signedNumeral file.sizeB⟩, ⟨true, file.errorMessage⟩]

variable {result : DirectoryComparisonResult} {file : FileCompareResult} {srcA srcB : Str}

theorem isPlain_append {a b : Str} : isPlain (a ++ b) ↔ isPlain a ∧ isPlain b := List.forall_mem_append

theorem isPlain_signedNumeral (n : Int) : isPlain (signedNumeral n) := by
  have hdigit : ∀ c : Char, c.isDigit = true → Csv.isSpecial c = false := by
    intro c hc
    have hne : ∀ d : Char, d.isDigit = false → c ≠ d := fun d hd h => by rw [h, hd] at hc; cases hc
    simp [Csv.isSpecial, hne ',' (by decide), hne '"' (by decide), hne '\n' (by decide), hne '\r' (by decide)]
  have hnumeral : ∀ m, isPlain (numeral m) := fun m c hc => hdigit c (isDigit_of_mem_numeral hc)
  unfold signedNumeral
  split
  · intro c hc
    rcases List.mem_cons.1 hc with rfl | hc
    · decide
    · exact hnumeral _ c hc
  · exact hnumeral _

/-- **A source's name stands in the status only where that source alone has the file.** -/
theorem isPlain_statusToString (status : FileCompareStatus) (sizeA sizeB : Int) :
    isPlain (statusToString status sizeA sizeB srcA srcB) ↔
      (status = .mismatch → (sizeA ≥ 0 ∧ sizeB < 0 → isPlain srcA) ∧ (sizeB ≥ 0 ∧ sizeA < 0 → isPlain srcB)) := by
  have honly : ∀ (text src : Str), isPlain text →
      (isPlain (if src = [] then text else "ONLY ".toList ++ src) ↔ isPlain src) := by
    intro text src htext
    have hempty : isPlain ([] : Str) := by decide
    have hprefix : isPlain "ONLY ".toList := by decide
    split
    · rename_i hsrc
      rw [hsrc]
      exact iff_of_true htext hempty
    · rw [isPlain_append]
      exact and_iff_right hprefix
  cases status with
  | mismatch =>
    show isPlain (if sizeA ≥ 0 ∧ sizeB < 0 then _ else if sizeB ≥ 0 ∧ sizeA < 0 then _ else _) ↔ _
    by_cases ha : sizeA ≥ 0 ∧ sizeB < 0
    · have hb : ¬ (sizeB ≥ 0 ∧ sizeA < 0) := by omega
      rw [if_pos ha, honly _ _ (by decide)]
      simp [ha, hb]
    · by_cases hb : sizeB ≥ 0 ∧ sizeA < 0
      · rw [if_neg ha, if_pos hb, honly _ _ (by decide)]
        simp [ha, hb]
      · rw [if_neg ha, if_neg hb]
        have hdifferent : isPlain "DIFFERENT".toList := by decide
        exact iff_of_true hdifferent fun _ => ⟨fun h => absurd h ha, fun h => absurd h hb⟩
  | «match» => exact iff_of_true (by decide : isPlain "MATCH".toList) nofun
  | onlyInA => exact iff_of_true (by decide : isPlain "UNKNOWN".toList) nofun
  | onlyInB => exact iff_of_true (by decide : isPlain "UNKNOWN".toList) nofun
  | error => exact iff_of_true (by decide : isPlain "ERROR".toList) nofun

/-- The file is written as the table's cells are. -/
theorem writeCsvResults_eq (result : DirectoryComparisonResult) (srcA srcB : Str) :
    writeCsvResults result srcA srcB =
      ((csvHeader.map (Csv.Cell.mk false)) ::
        (result.files.filter fun file => file.status ≠ .match).map (csvCells srcA srcB)).flatMap Csv.line := by
  have hheader : Csv.line (csvHeader.map (Csv.Cell.mk false)) = "status,path,size_a,size_b,error\n".toList := by decide
  rw [List.flatMap_cons, hheader]
  refine congrArg (_ ++ ·) ?_
  induction result.files with
  | nil => rfl
  | cons file files ih =>
    rw [List.flatMap_cons, ih]
    by_cases hstatus : file.status = .match
    · simp [hstatus]
    · simp [hstatus, csvCells, Csv.line, Csv.Cell.render]

theorem legible_csvCells :
    (∀ cell ∈ csvCells srcA srcB file, cell.Legible) ↔
      isPlain (statusToString file.status file.sizeA file.sizeB srcA srcB) ∧ '"' ∉ file.relativePath ∧
        '"' ∉ file.errorMessage := by
  have hquoted : ∀ text, (Csv.Cell.mk true text).Legible ↔ '"' ∉ text := fun _ => Iff.rfl
  have hbare : ∀ text, (Csv.Cell.mk false text).Legible ↔ isPlain text := fun _ => Iff.rfl
  simp only [csvCells, List.forall_mem_cons, hquoted, hbare, isPlain_signedNumeral, List.not_mem_nil, false_implies,
    implies_true, true_and, and_true]

/-- A source whose name has no comma, quote or line break. -/
def DiffSource.Plain (source : DiffSource) : Prop :=
  match source.type with
  | .local => isPlain source.path
  | .s3 => isPlain source.bucket ∧ isPlain source.path

theorem isPlain_sourceToString {source : DiffSource} : isPlain (sourceToString source) ↔ source.Plain := by
  have hscheme : isPlain "s3://".toList := by decide
  have hslash : isPlain "/".toList := by decide
  unfold sourceToString DiffSource.Plain
  cases source.type with
  | «local» => rfl
  | s3 => simp only [isPlain_append, hscheme, hslash, true_and, and_true]

/-- What a line has to keep to: no quote where quotes stand round it, and nothing special in the name of the only
source that has the file. -/
structure FileCompareResult.Plain (file : FileCompareResult) (a b : DiffSource) : Prop where
  path : '"' ∉ file.relativePath
  error : '"' ∉ file.errorMessage
  onlyA : file.status = .mismatch → file.sizeA ≥ 0 → file.sizeB < 0 → a.Plain
  onlyB : file.status = .mismatch → file.sizeB ≥ 0 → file.sizeA < 0 → b.Plain

/-- **The report is read back exactly if each of its lines is plain.** -/
theorem csv_reads_back (result : DirectoryComparisonResult) (a b : DiffSource) :
    Csv.read (writeCsvResults result (sourceToString a) (sourceToString b)) =
        some (csvTable result (sourceToString a) (sourceToString b)) ↔
      ∀ file ∈ result.files, file.status ≠ .match → file.Plain a b := by
  have hheader : ∀ cell ∈ csvHeader.map (Csv.Cell.mk false), cell.Legible := by
    have hplain : ∀ text ∈ csvHeader, isPlain text := by decide
    exact List.forall_mem_map.2 hplain
  have htable : csvTable result (sourceToString a) (sourceToString b) =
      (csvHeader.map (Csv.Cell.mk false) :: (result.files.filter fun file => file.status ≠ .match).map
        (csvCells (sourceToString a) (sourceToString b))).map (List.map Csv.Cell.text) := by
    simp [csvTable, csvHeader, csvRow, csvCells]
  have hline : ∀ file : FileCompareResult,
      (∀ cell ∈ csvCells (sourceToString a) (sourceToString b) file, cell.Legible) ↔ file.Plain a b := by
    intro file
    rw [legible_csvCells, isPlain_statusToString, isPlain_sourceToString, isPlain_sourceToString]
    constructor
    · rintro ⟨hstatus, hpath, herror⟩
      exact ⟨hpath, herror, fun h hA hB => (hstatus h).1 ⟨hA, hB⟩, fun h hB hA => (hstatus h).2 ⟨hB, hA⟩⟩
    · rintro ⟨hpath, herror, hA, hB⟩
      exact ⟨fun h => ⟨fun hsize => hA h hsize.1 hsize.2, fun hsize => hB h hsize.1 hsize.2⟩, hpath, herror⟩
  rw [writeCsvResults_eq, htable, Csv.read_lines (by simp [csvHeader, csvCells]), List.forall_mem_cons,
    and_iff_right hheader, List.forall_mem_map]
  simp only [hline, List.mem_filter, decide_eq_true_eq, and_imp]

end Mito
