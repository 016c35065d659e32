import MitoSync.Rm
import MitoSync.SyncCommand
/-!
# RmCommand — `mito rm`, from its words to its exit code

The parser of the command line, the checks `run_rm_command` makes before it starts `run_rm`, and what it makes of the
result and of `progress.cancelled`.  A command ends with an exit code and the log of what S3 was asked.
-/
namespace Mito

open Lib

/-! ## The command line -/

/-- `RmCliOptions`, without what only messages read. -/
structure RmCliOptions where
  help : Bool := false
  error : Bool := false
  recursive : Bool := false
  force : Bool := false
  batch : Bool := false
  numThreads : Int := 256
  s3Url : Str := []
  bucket : Str := []
  prefix_ : Str := []
  region : Str := []
  endpointUrl : Str := []
  errorMessage : String := ""
  deriving DecidableEq

def RmCliOptions.fail (o : RmCliOptions) (message : String) : RmCliOptions :=
  { o with error := true, errorMessage := message }

/-- `-t`'s value. -/
def parseRmThreads (o : RmCliOptions) (value : Str) : RmCliOptions :=
  match stoi value with
  | none => o.fail "--threads requires a valid number"
  | some n => if n < 1 then o.fail "--threads must be at least 1" else { o with numThreads := n }

def parseRmPositional (o : RmCliOptions) (arg : Str) : RmCliOptions :=
  if o.s3Url = [] then
    match parseSource arg with
    | .error _ => o.fail ("Invalid S3 URL: " ++ String.ofList arg)
    | .ok s =>
      if s.isS3 then { o with s3Url := arg, bucket := s.source.bucket, prefix_ := s.source.path, region := s.region }
      else o.fail ("Invalid S3 URL: " ++ String.ofList arg)
  else o.fail "Too many arguments"

/-- The words after `mito rm`. -/
def parseRmArgs : List Str → RmCliOptions → RmCliOptions
  | [], o => o
  | arg :: rest, o =>
    if arg = "-h".toList ∨ arg = "--help".toList then parseRmArgs rest { o with help := true }
    else if arg = "-r".toList ∨ arg = "--recursive".toList then parseRmArgs rest { o with recursive := true }
    else if arg = "-f".toList ∨ arg = "--force".toList then parseRmArgs rest { o with force := true }
    else if ["-q".toList, "--quiet".toList, "-v".toList, "--verbose".toList].contains arg then parseRmArgs rest o
    else if arg = "-t".toList ∨ arg = "--threads".toList then
      match rest with
      | [] => o.fail "--threads requires a number"
      | value :: rest =>
        let o := parseRmThreads o value
        if o.error then o else parseRmArgs rest o
    else if arg = "-rf".toList ∨ arg = "-fr".toList then parseRmArgs rest { o with recursive := true, force := true }
    else if arg = "--endpoint-url".toList then
      match rest with
      | [] => o.fail "--endpoint-url requires a URL"
      | value :: rest => parseRmArgs rest { o with endpointUrl := value }
    else if arg = "--batch".toList then parseRmArgs rest { o with batch := true }
    else if arg.head? = some '-' then o.fail ("Unknown option: " ++ String.ofList arg)
    else
      let o := parseRmPositional o arg
      if o.error then o else parseRmArgs rest o

/-! ## The command -/

/-- The configuration of the run. -/
def rmConfigOf (o : RmCliOptions) : RmConfig where
  bucket := o.bucket
  prefix_ := o.prefix_
  recursive := o.recursive
  force := o.force
  batch := o.batch

/-- The exit code, from the result and `progress.cancelled` as it reads it once the run has returned. -/
def rmExit (result : RmResult) (cancelled : Bool) : Nat :=
  if result.errorMessage ≠ [] then (if cancelled then 130 else 2)
  else if cancelled then 130
  else if result.objectsFailed > 0 then 1 else 0

/-- The checks before the run, and their exit codes. -/
def checkRm (o : RmCliOptions) : Option Nat :=
  if o.error then some 2
  else if o.help then some 0
  else if o.s3Url = [] then some 2
  else if explicitPrefix o.prefix_ && !o.recursive then some 2
  else none

/-- A command that has ended: `cancelled` is whether Ctrl-C reached the run. -/
structure RmEnded where
  exit : Nat
  log : List RmEvent := []
  cancelled : Bool := false

/-- **How `mito rm` can end.**  What may throw in `run_rm` is the making of the client, of the threads that list and of
the threads that delete, which are all made before the first task is posted. -/
inductive RmCommand (args : List Str) : RmEnded → Prop
  | checked {code : Nat} (h : checkRm (parseRmArgs args {}) = some code) : RmCommand args { exit := code }
  | noRegion (h : checkRm (parseRmArgs args {}) = none) (hr : (parseRmArgs args {}).region = [])
      (he : (parseRmArgs args {}).endpointUrl = []) : RmCommand args { exit := 2 }
  | noClient (h : checkRm (parseRmArgs args {}) = none) (cancelled : Bool) :
      RmCommand args ⟨rmExit { errorMessage := "Failed to create S3 client".toList } cancelled, [], cancelled⟩
  | threw (h : checkRm (parseRmArgs args {}) = none) {s : Crew RmCall RmTask RmResp RmResult RmWorld}
      (hs : RmSteps (rmConfigOf (parseRmArgs args {})) ⟨runRm (rmConfigOf (parseRmArgs args {})), [], {}⟩ s)
      (hw : s.workers = []) {c : CrewCall RmCall RmTask} {k : CrewResp RmResp c → RmPoster RmResult}
      (hc : s.poster = .call c k) {cancelled : Bool} (hm : s.world.cancelled = true → cancelled = true) (what : Str) :
      RmCommand args ⟨rmExit { errorMessage := "Exception: ".toList ++ what } cancelled, s.world.log, cancelled⟩
  | ran (h : checkRm (parseRmArgs args {}) = none) {s : Crew RmCall RmTask RmResp RmResult RmWorld}
      (hs : RmSteps (rmConfigOf (parseRmArgs args {})) ⟨runRm (rmConfigOf (parseRmArgs args {})), [], {}⟩ s)
      {result : RmResult} (hr : s.poster = .ret result) {cancelled : Bool}
      (hm : s.world.cancelled = true → cancelled = true) :
      RmCommand args ⟨rmExit result cancelled, s.world.log, cancelled⟩
  /-- a second Ctrl-C, at any moment of the run -/
  | killed (h : checkRm (parseRmArgs args {}) = none) {s : Crew RmCall RmTask RmResp RmResult RmWorld}
      (hs : RmSteps (rmConfigOf (parseRmArgs args {})) ⟨runRm (rmConfigOf (parseRmArgs args {})), [], {}⟩ s) :
      RmCommand args ⟨130, s.world.log, true⟩

end Mito
