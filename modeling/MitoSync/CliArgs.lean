import MitoSync.UrlParser
import MitoSync.Lib.Interleaving
/-!
# CliArgs — the words after `mito sync`

`parse_sync_args` with every field it sets.  Flags, options with a value and positionals change different fields, so
a word's place among those of other kinds changes nothing (`Lib.foldlM_eq_of_sameOrders`).  A positional is taken for
S3 whatever the case of its scheme, and `parse_source` knows the small letters only: `S3://` makes an S3 side that is
no S3 source, and this is the one way to a request that is not well formed (`sync_request_iff`).
-/
namespace Mito

open Lib

/-! ## The code -/

/-- An S3 side of a command line: `FileSource` with what its requests need.  `isS3` is its type. -/
structure S3Side where
  isS3 : Bool := false
  source : FileSource := {}
  region : Str := []
  endpoint : Str := []
  deriving DecidableEq

/-- `SyncCliOptions`, without what only logging, messages and credentials read. -/
structure SyncCliOptions where
  help : Bool := false
  error : Bool := false
  errorMessage : String := ""
  deleteOrphans : Bool := false
  dryRun : Bool := false
  numThreads : Int := 256
  localPath : Str := []
  s3Source : S3Side := {}
  s3Dest : S3Side := {}
  endpointUrl : Str := []
  direction : SyncDirection := .upload
  hasLocal : Bool := false
  hasS3Source : Bool := false
  hasS3Dest : Bool := false
  deriving DecidableEq

def SyncCliOptions.fail (o : SyncCliOptions) (message : String) : SyncCliOptions :=
  { o with error := true, errorMessage := message }

/-- `parse_source`, no region being the default. -/
def parseSource (arg : Str) : Except String S3Side :=
  if "s3://".toList.isPrefixOf arg then
    match parseS3UrlInto arg [] with
    | some (source, region) => .ok { isS3 := true, source := source, region := region }
    | none => .error ("Invalid S3 URL format: " ++ String.ofList arg ++ " (expected s3://bucket/key or s3://bucket/key@region)")
  else .ok { source := { path := arg } }

/-- `s3://` in either case. -/
def looksLikeS3 (arg : Str) : Bool := (arg.take 5).map Char.toLower = "s3://".toList

/-- `std::stoi`, `none` for its exceptions. -/
def stoi (text : Str) : Option Int :=
  match readSigned (text.dropWhile isSpace) with
  | some (n, _) => if -2147483648 ≤ n ∧ n ≤ 2147483647 then some n else none
  | none => none

def parsePositional (o : SyncCliOptions) (arg : Str) : SyncCliOptions :=
  if !o.hasLocal && !o.hasS3Source then
    if looksLikeS3 arg then
      match parseSource arg with
      | .error m => o.fail m
      | .ok s => { o with s3Source := s, hasS3Source := true, direction := .download }
    else { o with localPath := arg, hasLocal := true, direction := .upload }
  else if o.hasLocal && !o.hasS3Source then
    if !looksLikeS3 arg then o.fail "Second argument must be an S3 URL (s3://bucket/prefix/)"
    else match parseSource arg with
      | .error m => o.fail m
      | .ok s => { o with s3Source := s, hasS3Source := true }
  else if o.hasS3Source && !o.hasLocal && !o.hasS3Dest then
    if looksLikeS3 arg then
      match parseSource arg with
      | .error m => o.fail m
      | .ok s => { o with s3Dest := s, hasS3Dest := true, direction := .s3ToS3 }
    else { o with localPath := arg, hasLocal := true }
  else o.fail "Too many arguments"

/-- What is done once every word was read: one endpoint serves every S3 side. -/
def applyEndpoint (o : SyncCliOptions) : SyncCliOptions :=
  if o.endpointUrl = [] then o
  else
    { o with
      s3Source := if o.s3Source.isS3 then { o.s3Source with endpoint := o.endpointUrl } else o.s3Source
      s3Dest := if o.s3Dest.isS3 then { o.s3Dest with endpoint := o.endpointUrl } else o.s3Dest }

/-- `SyncCliOptions`, with what logging, messages and credentials read as well. -/
structure SyncArgs extends SyncCliOptions where
  debug : Bool := false
  verbose : Bool := false
  quiet : Bool := false
  allowUnverifiedRanges : Bool := false
  sourceProfile : Str := []
  destProfile : Str := []
  /-- the profile of `s3_source` -/
  s3SourceProfile : Str := []
  /-- the profile of `s3_dest` -/
  s3DestProfile : Str := []

def SyncArgs.refuse (o : SyncArgs) (message : String) : SyncArgs :=
  { o with toSyncCliOptions := o.toSyncCliOptions.fail message }

inductive SyncFlag
  | help | debug | verbose | quiet | allowUnverifiedRanges | delete | dryRun
  deriving DecidableEq

inductive SyncOption
  | threads | sourceProfile | destProfile | endpointUrl
  deriving DecidableEq

def syncFlag (arg : Str) : Option SyncFlag :=
  if arg = "-h".toList ∨ arg = "--help".toList then some .help
  else if arg = "-d".toList ∨ arg = "--debug".toList then some .debug
  else if arg = "-v".toList ∨ arg = "--verbose".toList then some .verbose
  else if arg = "-q".toList ∨ arg = "--quiet".toList then some .quiet
  else if arg = "--allow-unverified-ranges".toList then some .allowUnverifiedRanges
  else if arg = "--delete".toList then some .delete
  else if arg = "--dry-run".toList then some .dryRun
  else none

/-- An option that takes the next word as its value, whatever it is. -/
def syncOption (arg : Str) : Option SyncOption :=
  if arg = "-t".toList ∨ arg = "--threads".toList then some .threads
  else if arg = "--source-profile".toList then some .sourceProfile
  else if arg = "--dest-profile".toList then some .destProfile
  else if arg = "--endpoint-url".toList then some .endpointUrl
  else none

def SyncFlag.set : SyncFlag → SyncArgs → SyncArgs
  | .help, o => { o with help := true }
  | .debug, o => { o with debug := true }
  | .verbose, o => { o with verbose := true }
  | .quiet, o => { o with quiet := true }
  | .allowUnverifiedRanges, o => { o with allowUnverifiedRanges := true }
  | .delete, o => { o with deleteOrphans := true }
  | .dryRun, o => { o with dryRun := true }

def SyncOption.set : SyncOption → Str → SyncArgs → SyncArgs
  | .threads, value, o =>
    match stoi value with
    | none => o.refuse "--threads requires a valid number"
    | some n =>
      if n < 1 then { o with numThreads := n }.refuse "--threads must be at least 1" else { o with numThreads := n }
  | .sourceProfile, value, o => { o with sourceProfile := value }
  | .destProfile, value, o => { o with destProfile := value }
  | .endpointUrl, value, o => { o with endpointUrl := value }

def SyncOption.missing : SyncOption → String
  | .threads => "--threads requires a number argument"
  | .sourceProfile => "--source-profile requires a profile name"
  | .destProfile => "--dest-profile requires a profile name"
  | .endpointUrl => "--endpoint-url requires a URL"

def SyncArgs.position (o : SyncArgs) (arg : Str) : SyncArgs :=
  { o with toSyncCliOptions := parsePositional o.toSyncCliOptions arg }

def applySyncProfiles (o : SyncArgs) : SyncArgs :=
  match o.direction with
  | .s3ToS3 =>
    { o with
      s3SourceProfile := if o.sourceProfile ≠ [] then o.sourceProfile else o.s3SourceProfile
      s3DestProfile := if o.destProfile ≠ [] then o.destProfile else o.s3DestProfile }
  | .upload => { o with s3SourceProfile := if o.destProfile ≠ [] then o.destProfile else o.s3SourceProfile }
  | .download => { o with s3SourceProfile := if o.sourceProfile ≠ [] then o.sourceProfile else o.s3SourceProfile }
  | .localToLocal => o

/-- What is done once every word was read. -/
def SyncArgs.finish (o : SyncArgs) : SyncArgs :=
  { applySyncProfiles o with toSyncCliOptions := applyEndpoint o.toSyncCliOptions }

/-- The loop of `parse_sync_args`, over the words after the subcommand. -/
def parseSyncWords : List Str → SyncArgs → SyncArgs
  | [], o => o.finish
  | arg :: rest, o =>
    match syncFlag arg with
    | some flag => parseSyncWords rest (flag.set o)
    | none =>
      match syncOption arg with
      | some option =>
        match rest with
        | [] => o.refuse option.missing
        | value :: rest =>
          if (option.set value o).error then option.set value o else parseSyncWords rest (option.set value o)
      | none =>
        if arg.head? = some '-' then o.refuse ("Unknown option: " ++ String.ofList arg)
        else if (o.position arg).error then o.position arg
        else parseSyncWords rest (o.position arg)

/-! ## Words in groups -/

/-- A word that the parser knows what to do with, and an option's value with it. -/
inductive SyncItem
  | flag (arg : Str) (flag : SyncFlag) (h : syncFlag arg = some flag)
  | option (arg : Str) (option : SyncOption) (value : Str) (hf : syncFlag arg = none) (h : syncOption arg = some option)
  | positional (arg : Str) (hf : syncFlag arg = none) (ho : syncOption arg = none) (hd : arg.head? ≠ some '-')

inductive SyncKind
  | flag (flag : SyncFlag) | option (option : SyncOption) | positional
  deriving DecidableEq

namespace SyncItem

def words : SyncItem → List Str
  | .flag arg _ _ => [arg]
  | .option arg _ value _ _ => [arg, value]
  | .positional arg _ _ _ => [arg]

/-- Which option it is, however it is spelled. -/
def kind : SyncItem → SyncKind
  | .flag _ f _ => .flag f
  | .option _ v _ _ _ => .option v
  | .positional _ _ _ _ => .positional

def positional? : SyncItem → Option Str
  | .positional arg _ _ _ => some arg
  | .flag _ _ _ => none
  | .option _ _ _ _ _ => none

/-- What an item does, `none` where the parser ends with an error. -/
def run (o : SyncArgs) : SyncItem → Option SyncArgs
  | .flag _ f _ => some (f.set o)
  | .option _ v value _ _ => if (v.set value o).error then none else some (v.set value o)
  | .positional arg _ _ _ => if (o.position arg).error then none else some (o.position arg)

end SyncItem

/-- The words of a command line, item by item. -/
def wordsOf (xs : List SyncItem) : List Str := xs.flatMap SyncItem.words

/-- The positionals among them, in their order. -/
def positionalsOf (xs : List SyncItem) : List Str := xs.filterMap SyncItem.positional?

/-- **A parser that goes through runs the items.** -/
theorem parseSyncWords_items : ∀ (xs : List SyncItem) (o o' : SyncArgs), xs.foldlM SyncItem.run o = some o' →
    parseSyncWords (wordsOf xs) o = o'.finish
  | [], o, o', h => by
    obtain rfl := Option.some.inj h
    rfl
  | x :: xs, o, o', h => by
    rw [List.foldlM_cons] at h
    obtain ⟨o₁, hrun, hrest⟩ := Option.bind_eq_some_iff.1 h
    have ih := parseSyncWords_items xs o₁ o' hrest
    cases x with
    | flag arg flag hf =>
      obtain rfl := Option.some.inj hrun
      show parseSyncWords (arg :: wordsOf xs) o = _
      rw [parseSyncWords.eq_2, hf]
      exact ih
    | option arg option value hf ho =>
      simp only [SyncItem.run] at hrun
      split at hrun
      · exact absurd hrun (by simp)
      · rename_i herror
        obtain rfl := Option.some.inj hrun
        show parseSyncWords (arg :: value :: wordsOf xs) o = _
        rw [parseSyncWords.eq_2, hf, ho]
        dsimp only
        rw [if_neg herror]
        exact ih
    | positional arg hf ho hd =>
      simp only [SyncItem.run] at hrun
      split at hrun
      · exact absurd hrun (by simp)
      · rename_i herror
        obtain rfl := Option.some.inj hrun
        show parseSyncWords (arg :: wordsOf xs) o = _
        rw [parseSyncWords.eq_2, hf, ho]
        dsimp only
        rw [if_neg hd, if_neg herror]
        exact ih


/-- **A parser without an error has read items**, and nothing else. -/
theorem items_of_words : ∀ (args : List Str) (o : SyncArgs), (parseSyncWords args o).error = false →
    ∃ xs o', wordsOf xs = args ∧ xs.foldlM SyncItem.run o = some o'
  | [], o, _ => ⟨[], o, rfl, rfl⟩
  | arg :: rest, o, h => by
    rw [parseSyncWords.eq_2] at h
    cases hf : syncFlag arg with
    | some flag =>
      rw [hf] at h
      obtain ⟨xs, o', hwords, hrun⟩ := items_of_words rest (flag.set o) h
      exact ⟨.flag arg flag hf :: xs, o', congrArg (arg :: ·) hwords, hrun⟩
    | none =>
      cases ho : syncOption arg with
      | some option =>
        rw [hf, ho] at h
        cases rest with
        | nil => exact absurd h (by simp [SyncArgs.refuse, SyncCliOptions.fail])
        | cons value rest =>
          by_cases herror : (option.set value o).error = true
          · dsimp only at h
            rw [if_pos herror, herror] at h
            exact absurd h (by simp)
          · dsimp only at h
            rw [if_neg herror] at h
            obtain ⟨xs, o', hwords, hrun⟩ := items_of_words rest (option.set value o) h
            refine ⟨.option arg option value hf ho :: xs, o', congrArg (fun ws => arg :: value :: ws) hwords, ?_⟩
            rw [List.foldlM_cons, SyncItem.run, if_neg herror]
            exact hrun
      | none =>
        rw [hf, ho] at h
        dsimp only at h
        by_cases hd : arg.head? = some '-'
        · rw [if_pos hd] at h
          exact absurd h (by simp [SyncArgs.refuse, SyncCliOptions.fail])
        · rw [if_neg hd] at h
          by_cases herror : (o.position arg).error = true
          · rw [if_pos herror, herror] at h
            exact absurd h (by simp)
          · rw [if_neg herror] at h
            obtain ⟨xs, o', hwords, hrun⟩ := items_of_words rest (o.position arg) h
            refine ⟨.positional arg hf ho hd :: xs, o', congrArg (arg :: ·) hwords, ?_⟩
            rw [List.foldlM_cons, SyncItem.run, if_neg herror]
            exact hrun

/-! ## Any order of the options -/

section Orders

variable {o : SyncArgs}

/-- The fields that options write and positionals do not. -/
def SyncCliOptions.mapOptions (o : SyncCliOptions) (help deleteOrphans dryRun : Bool → Bool)
    (numThreads : Int → Int) (endpointUrl : Str → Str) : SyncCliOptions :=
  { o with
    help := help o.help
    deleteOrphans := deleteOrphans o.deleteOrphans
    dryRun := dryRun o.dryRun
    numThreads := numThreads o.numThreads
    endpointUrl := endpointUrl o.endpointUrl }

theorem parsePositional_mapOptions (o : SyncCliOptions) (a b c : Bool → Bool) (n : Int → Int) (u : Str → Str)
    (arg : Str) : parsePositional (o.mapOptions a b c n u) arg = (parsePositional o arg).mapOptions a b c n u := by
  unfold parsePositional SyncCliOptions.mapOptions
  cases looksLikeS3 arg <;> cases parseSource arg <;> dsimp only <;> split_ifs <;> rfl

theorem position_map (o : SyncArgs) (a b c : Bool → Bool) (n : Int → Int) (u : Str → Str) (arg : Str) :
    { o with toSyncCliOptions := o.toSyncCliOptions.mapOptions a b c n u : SyncArgs }.position arg =
      { o with toSyncCliOptions := (parsePositional o.toSyncCliOptions arg).mapOptions a b c n u } := by
  unfold SyncArgs.position
  rw [parsePositional_mapOptions]

theorem position_flag (f : SyncFlag) (arg : Str) : (f.set o).position arg = f.set (o.position arg) := by
  cases f with
  | help => exact position_map o (fun _ => true) id id id id arg
  | delete => exact position_map o id (fun _ => true) id id id arg
  | dryRun => exact position_map o id id (fun _ => true) id id arg
  | debug => rfl
  | verbose => rfl
  | quiet => rfl
  | allowUnverifiedRanges => rfl

/-- The values that an option refuses. -/
def SyncOption.refuses : SyncOption → Str → Bool
  | .threads, value => (stoi value).all (· < 1)
  | _, _ => false

/-- What an option writes of a value it takes. -/
def SyncOption.put : SyncOption → Str → SyncArgs → SyncArgs
  | .threads, value, o => { o with numThreads := (stoi value).getD 0 }
  | .sourceProfile, value, o => { o with sourceProfile := value }
  | .destProfile, value, o => { o with destProfile := value }
  | .endpointUrl, value, o => { o with endpointUrl := value }

theorem SyncOption.set_of_refuses {v : SyncOption} {value : Str} (h : v.refuses value = true) (o : SyncArgs) :
    (v.set value o).error = true := by
  cases v with
  | threads =>
    rw [SyncOption.refuses] at h
    rw [SyncOption.set]
    cases hn : stoi value with
    | none => rfl
    | some n =>
      rw [hn] at h
      have hlow : n < 1 := by simpa using h
      dsimp only
      rw [if_pos hlow]
      rfl
  | sourceProfile => exact absurd h (by simp [SyncOption.refuses])
  | destProfile => exact absurd h (by simp [SyncOption.refuses])
  | endpointUrl => exact absurd h (by simp [SyncOption.refuses])

theorem SyncOption.set_of_not_refuses {v : SyncOption} {value : Str} (h : v.refuses value = false) (o : SyncArgs) :
    v.set value o = v.put value o := by
  cases v with
  | threads =>
    rw [SyncOption.refuses] at h
    rw [SyncOption.set, SyncOption.put]
    cases hn : stoi value with
    | none =>
      rw [hn] at h
      exact absurd h (by simp)
    | some n =>
      rw [hn] at h
      have hlow : ¬ n < 1 := by simpa using h
      dsimp only
      rw [if_neg hlow]
      rfl
  | sourceProfile => rfl
  | destProfile => rfl
  | endpointUrl => rfl

theorem SyncOption.put_error (v : SyncOption) (value : Str) (o : SyncArgs) : (v.put value o).error = o.error := by
  cases v <;> rfl

theorem SyncOption.set_error (v : SyncOption) (value : Str) (o : SyncArgs) :
    (v.set value o).error = (o.error || v.refuses value) := by
  cases h : v.refuses value with
  | true => rw [v.set_of_refuses h, Bool.or_true]
  | false => rw [v.set_of_not_refuses h, v.put_error, Bool.or_false]

theorem position_put (v : SyncOption) (value arg : Str) :
    (v.put value o).position arg = v.put value (o.position arg) := by
  cases v with
  | threads => exact position_map o id id id (fun _ => (stoi value).getD 0) id arg
  | sourceProfile => rfl
  | destProfile => rfl
  | endpointUrl => exact position_map o id id id id (fun _ => value) arg

theorem position_error {o : SyncArgs} (h : o.error = true) (arg : Str) : (o.position arg).error = true := by
  show (parsePositional o.toSyncCliOptions arg).error = true
  unfold parsePositional SyncCliOptions.fail
  cases looksLikeS3 arg <;> cases parseSource arg <;> dsimp only <;> split_ifs <;> first | rfl | exact h


theorem run_option (o : SyncArgs) {arg value : Str} {v : SyncOption} (hf : syncFlag arg = none)
    (h : syncOption arg = some v) : SyncItem.run o (.option arg v value hf h) =
      if o.error || v.refuses value then none else some (v.put value o) := by
  rw [SyncItem.run, SyncOption.set_error]
  by_cases hrefuse : v.refuses value = true
  · simp [hrefuse]
  · rw [SyncOption.set_of_not_refuses (Bool.eq_false_iff.2 hrefuse)]

theorem flag_flag (f g : SyncFlag) (o : SyncArgs) : g.set (f.set o) = f.set (g.set o) := by
  cases f <;> cases g <;> rfl

theorem flag_put (f : SyncFlag) (v : SyncOption) (value : Str) (o : SyncArgs) :
    v.put value (f.set o) = f.set (v.put value o) := by
  cases f <;> cases v <;> rfl

theorem put_put {v w : SyncOption} (h : v ≠ w) (a b : Str) (o : SyncArgs) :
    w.put b (v.put a o) = v.put a (w.put b o) := by
  cases v <;> cases w <;> first | rfl | exact absurd rfl h

theorem flag_error (f : SyncFlag) (o : SyncArgs) : (f.set o).error = o.error := by
  cases f <;> rfl

/-- A flag changes nothing for what follows it. -/
theorem run_flag_past (o : SyncArgs) (f : SyncFlag) (y : SyncItem) :
    SyncItem.run (f.set o) y = (SyncItem.run o y).map f.set := by
  cases y with
  | flag arg g h => exact congrArg some (flag_flag f g o)
  | option arg v value hf h =>
    rw [run_option, run_option, flag_error, flag_put]
    split <;> rfl
  | positional arg hf ho hd =>
    rw [SyncItem.run, SyncItem.run, position_flag, flag_error]
    split <;> rfl

/-- An option's value changes nothing for the options of other names, and for the positionals. -/
theorem run_put_past (o : SyncArgs) {v : SyncOption} (value : Str) {y : SyncItem} (h : SyncKind.option v ≠ y.kind) :
    SyncItem.run (v.put value o) y = (SyncItem.run o y).map (v.put value) := by
  cases y with
  | flag arg g hg => exact congrArg some (flag_put g v value o).symm
  | option arg w b hf hw =>
    have hne : v ≠ w := fun heq => h (congrArg SyncKind.option heq)
    rw [run_option, run_option, SyncOption.put_error, put_put hne]
    split <;> rfl
  | positional arg hf ho hd =>
    rw [SyncItem.run, SyncItem.run, position_put, SyncOption.put_error]
    split <;> rfl

/-- An item that goes through leaves the error as it was. -/
theorem run_keeps_error {o o' : SyncArgs} {y : SyncItem} (h : SyncItem.run o y = some o') : o'.error = o.error := by
  cases y with
  | flag arg g hg =>
    obtain rfl := Option.some.inj h
    exact flag_error g o
  | option arg v value hf ho =>
    rw [run_option] at h
    split at h
    · exact absurd h (by simp)
    · obtain rfl := Option.some.inj h
      exact v.put_error value o
  | positional arg hf ho hd =>
    rw [SyncItem.run] at h
    split at h
    · exact absurd h (by simp)
    · rename_i herror
      obtain rfl := Option.some.inj h
      have hbefore : o.error ≠ true := fun hb => herror (position_error hb arg)
      rw [Bool.eq_false_iff.2 herror, Bool.eq_false_iff.2 hbefore]

/-- **Items of different kinds commute.** -/
theorem run_commutes : Commutes SyncItem.kind SyncItem.run := by
  -- a flag or an option before any item of another kind
  have hflag : ∀ o f arg h (y : SyncItem), ((SyncItem.run o (.flag arg f h)).bind fun o => SyncItem.run o y) =
      (SyncItem.run o y).bind fun o => SyncItem.run o (.flag arg f h) := by
    intro o f arg h y
    show SyncItem.run (f.set o) y = _
    rw [run_flag_past]
    cases SyncItem.run o y <;> rfl
  have hoption : ∀ o v arg value hf h (y : SyncItem), SyncKind.option v ≠ y.kind →
      ((SyncItem.run o (.option arg v value hf h)).bind fun o => SyncItem.run o y) =
        (SyncItem.run o y).bind fun o => SyncItem.run o (.option arg v value hf h) := by
    intro o v arg value hf h y hne
    cases hy : SyncItem.run o y with
    | none =>
      rw [run_option]
      split
      · rfl
      · show SyncItem.run (v.put value o) y = none
        rw [run_put_past o value hne, hy]
        rfl
    | some o' =>
      show _ = SyncItem.run o' (.option arg v value hf h)
      rw [run_option, run_option, run_keeps_error hy]
      split
      · rfl
      · show SyncItem.run (v.put value o) y = some (v.put value o')
        rw [run_put_past o value hne, hy]
        rfl
  intro o x y hne
  cases x with
  | flag arg f h => exact hflag o f arg h y
  | option arg v value hf h => exact hoption o v arg value hf h y hne
  | positional arg hf ho hd =>
    cases y with
    | flag arg' f h => exact (hflag o f arg' h _).symm
    | option arg' v value hf' h => exact (hoption o v arg' value hf' h _ fun heq => hne heq.symm).symm
    | positional _ _ _ _ => exact absurd rfl hne

end Orders

/-! ## What the positionals become -/

def SyncCliOptions.shape (o : SyncCliOptions) : Bool × Bool × Bool × SyncDirection :=
  (o.hasLocal, o.hasS3Source, o.hasS3Dest, o.direction)

/-- What is known once these positionals were taken. -/
inductive Took (o : SyncCliOptions) : List Str → Prop
  | none (h : o.shape = (false, false, false, .upload)) : Took o []
  | oneLocal {a : Str} (ha : looksLikeS3 a = false) (h : o.shape = (true, false, false, .upload)) : Took o [a]
  | oneS3 {a : Str} (ha : looksLikeS3 a = true) (h : o.shape = (false, true, false, .download))
      (hs : parseSource a = .ok o.s3Source) : Took o [a]
  | localToS3 {a b : Str} (ha : looksLikeS3 a = false) (hb : looksLikeS3 b = true)
      (h : o.shape = (true, true, false, .upload)) (hs : parseSource b = .ok o.s3Source) : Took o [a, b]
  | s3ToLocal {a b : Str} (ha : looksLikeS3 a = true) (hb : looksLikeS3 b = false)
      (h : o.shape = (true, true, false, .download)) (hs : parseSource a = .ok o.s3Source) : Took o [a, b]
  | s3ToS3 {a b : Str} (ha : looksLikeS3 a = true) (hb : looksLikeS3 b = true)
      (h : o.shape = (false, true, true, .s3ToS3)) (hs : parseSource a = .ok o.s3Source)
      (hd : parseSource b = .ok o.s3Dest) : Took o [a, b]

theorem shape_eq {o : SyncCliOptions} {l s d : Bool} {dir : SyncDirection} (h : o.shape = (l, s, d, dir)) :
    o.hasLocal = l ∧ o.hasS3Source = s ∧ o.hasS3Dest = d ∧ o.direction = dir := by
  simpa [SyncCliOptions.shape] using h

/-- A positional that is taken. -/
theorem Took.position {o : SyncCliOptions} {ps : List Str} (h : Took o ps) {arg : Str}
    (hok : (parsePositional o arg).error = false) : Took (parsePositional o arg) (ps ++ [arg]) := by
  have hfail : ∀ m, (o.fail m).error ≠ false := by simp [SyncCliOptions.fail]
  cases hs3 : looksLikeS3 arg with
  | true =>
    cases hsource : parseSource arg with
    | error m =>
      -- a URL that does not parse is an error wherever it stands
      exfalso
      revert hok
      unfold parsePositional
      simp only [hs3, hsource, Bool.not_true, if_true, Bool.false_eq_true, if_false]
      split_ifs <;> exact hfail _
    | ok s =>
      cases h with
      | none h =>
        obtain ⟨hl, hs, hd, hdir⟩ := shape_eq h
        have heq : parsePositional o arg = { o with s3Source := s, hasS3Source := true, direction := .download } := by
          simp [parsePositional, hl, hs, hs3, hsource]
        rw [heq]
        exact .oneS3 hs3 (by simp [SyncCliOptions.shape, hl, hd]) hsource
      | oneLocal ha h =>
        obtain ⟨hl, hs, hd, hdir⟩ := shape_eq h
        have heq : parsePositional o arg = { o with s3Source := s, hasS3Source := true } := by
          simp [parsePositional, hl, hs, hs3, hsource]
        rw [heq]
        exact .localToS3 ha hs3 (by simp [SyncCliOptions.shape, hl, hd, hdir]) hsource
      | oneS3 ha h hsrc =>
        obtain ⟨hl, hs, hd, hdir⟩ := shape_eq h
        have heq : parsePositional o arg = { o with s3Dest := s, hasS3Dest := true, direction := .s3ToS3 } := by
          simp [parsePositional, hl, hs, hd, hs3, hsource]
        rw [heq]
        exact .s3ToS3 ha hs3 (by simp [SyncCliOptions.shape, hl, hs]) hsrc hsource
      | localToS3 ha hb h hsrc =>
        obtain ⟨hl, hs, hd, hdir⟩ := shape_eq h
        exact absurd hok (by simp [parsePositional, hl, hs, SyncCliOptions.fail])
      | s3ToLocal ha hb h hsrc =>
        obtain ⟨hl, hs, hd, hdir⟩ := shape_eq h
        exact absurd hok (by simp [parsePositional, hl, hs, SyncCliOptions.fail])
      | s3ToS3 ha hb h hsrc hdest =>
        obtain ⟨hl, hs, hd, hdir⟩ := shape_eq h
        exact absurd hok (by simp [parsePositional, hl, hs, hd, SyncCliOptions.fail])
  | false =>
    cases h with
    | none h =>
      obtain ⟨hl, hs, hd, hdir⟩ := shape_eq h
      have heq : parsePositional o arg = { o with localPath := arg, hasLocal := true, direction := .upload } := by
        simp [parsePositional, hl, hs, hs3]
      rw [heq]
      exact .oneLocal hs3 (by simp [SyncCliOptions.shape, hs, hd])
    | oneLocal ha h =>
      obtain ⟨hl, hs, hd, hdir⟩ := shape_eq h
      exact absurd hok (by simp [parsePositional, hl, hs, hs3, SyncCliOptions.fail])
    | oneS3 ha h hsrc =>
      obtain ⟨hl, hs, hd, hdir⟩ := shape_eq h
      have heq : parsePositional o arg = { o with localPath := arg, hasLocal := true } := by
        simp [parsePositional, hl, hs, hd, hs3]
      rw [heq]
      exact .s3ToLocal ha hs3 (by simp [SyncCliOptions.shape, hs, hd, hdir]) hsrc
    | localToS3 ha hb h hsrc =>
      obtain ⟨hl, hs, hd, hdir⟩ := shape_eq h
      exact absurd hok (by simp [parsePositional, hl, hs, SyncCliOptions.fail])
    | s3ToLocal ha hb h hsrc =>
      obtain ⟨hl, hs, hd, hdir⟩ := shape_eq h
      exact absurd hok (by simp [parsePositional, hl, hs, SyncCliOptions.fail])
    | s3ToS3 ha hb h hsrc hdest =>
      obtain ⟨hl, hs, hd, hdir⟩ := shape_eq h
      exact absurd hok (by simp [parsePositional, hl, hs, hd, SyncCliOptions.fail])

/-- What a positional's S3 side and the shape read is no option's. -/
theorem Took.of_fields {o o' : SyncCliOptions} {ps : List Str} (h : Took o ps) (hshape : o'.shape = o.shape)
    (hs : o'.s3Source = o.s3Source) (hd : o'.s3Dest = o.s3Dest) : Took o' ps := by
  cases h with
  | none h => exact .none (hshape.trans h)
  | oneLocal ha h => exact .oneLocal ha (hshape.trans h)
  | oneS3 ha h hsrc => exact .oneS3 ha (hshape.trans h) (hs ▸ hsrc)
  | localToS3 ha hb h hsrc => exact .localToS3 ha hb (hshape.trans h) (hs ▸ hsrc)
  | s3ToLocal ha hb h hsrc => exact .s3ToLocal ha hb (hshape.trans h) (hs ▸ hsrc)
  | s3ToS3 ha hb h hsrc hdest => exact .s3ToS3 ha hb (hshape.trans h) (hs ▸ hsrc) (hd ▸ hdest)

/-- One item. -/
theorem Took.run {o o' : SyncArgs} {ps : List Str} (h : Took o.toSyncCliOptions ps) {x : SyncItem}
    (hrun : SyncItem.run o x = some o') : Took o'.toSyncCliOptions (ps ++ positionalsOf [x]) := by
  cases x with
  | flag arg f hf =>
    obtain rfl := Option.some.inj hrun
    rw [show ps ++ positionalsOf [SyncItem.flag arg f hf] = ps from List.append_nil ps]
    exact h.of_fields (by cases f <;> rfl) (by cases f <;> rfl) (by cases f <;> rfl)
  | option arg v value hf hv =>
    rw [run_option] at hrun
    split at hrun
    · exact absurd hrun (by simp)
    · obtain rfl := Option.some.inj hrun
      rw [show ps ++ positionalsOf [SyncItem.option arg v value hf hv] = ps from List.append_nil ps]
      exact h.of_fields (by cases v <;> rfl) (by cases v <;> rfl) (by cases v <;> rfl)
  | positional arg hf ho hd =>
    rw [SyncItem.run] at hrun
    split at hrun
    · exact absurd hrun (by simp)
    · rename_i herror
      obtain rfl := Option.some.inj hrun
      exact h.position (Bool.eq_false_iff.2 herror)

/-- Every item. -/
theorem Took.runs : ∀ {xs : List SyncItem} {o o' : SyncArgs} {ps : List Str}, Took o.toSyncCliOptions ps →
    xs.foldlM SyncItem.run o = some o' → Took o'.toSyncCliOptions (ps ++ positionalsOf xs)
  | [], o, o', ps, h, hrun => by
    obtain rfl := Option.some.inj hrun
    rw [show ps ++ positionalsOf [] = ps from List.append_nil ps]
    exact h
  | x :: xs, o, o', ps, h, hrun => by
    rw [List.foldlM_cons] at hrun
    obtain ⟨o₁, hx, hrest⟩ := Option.bind_eq_some_iff.1 hrun
    have ih := Took.runs (h.run hx) hrest
    have happ : ps ++ positionalsOf [x] ++ positionalsOf xs = ps ++ positionalsOf (x :: xs) := by
      rw [List.append_assoc]
      refine congrArg (ps ++ ·) ?_
      unfold positionalsOf
      rw [← List.filterMap_append]
      rfl
    rw [← happ]
    exact ih

theorem toLower_cases (c : Char) : c.toLower = c ∨ 65 ≤ c.toNat ∧ c.toLower.toNat = c.toNat + 32 := by
  unfold Char.toLower
  split
  · rename_i h
    have hlow : 65 ≤ c.toNat := h.1
    have hhigh : c.toNat ≤ 90 := h.2
    refine .inr ⟨hlow, ?_⟩
    show (c.val + 32).toNat = _
    rw [UInt32.toNat_add]
    exact Nat.mod_eq_of_lt (by show c.toNat + 32 < _; omega)
  · exact .inl rfl

/-- Only letters have a second case. -/
theorem toLower_eq {c d : Char} (h : c.toLower = d) (hd : d.toNat < 97) : c = d := by
  rcases toLower_cases c with hsame | ⟨hlow, hcase⟩
  · exact hsame.symm.trans h
  · rw [h] at hcase
    omega

theorem toLower_eq_s {c : Char} (h : c.toLower = 's') : c = 's' ∨ c = 'S' := by
  rcases toLower_cases c with hsame | ⟨hlow, hcase⟩
  · exact .inl (hsame.symm.trans h)
  · rw [h] at hcase
    have hcode : c.toNat = 'S'.toNat := by
      have hs : 's'.toNat = 115 := rfl
      have hS : 'S'.toNat = 83 := rfl
      omega
    exact .inr (Char.toNat_inj.1 hcode)

theorem looksLikeS3_iff (arg : Str) : looksLikeS3 arg = true ↔ "s3://".toList <+: arg ∨ "S3://".toList <+: arg := by
  unfold looksLikeS3
  rw [decide_eq_true_iff]
  constructor
  · intro h
    rcases arg with _ | ⟨c₀, _ | ⟨c₁, _ | ⟨c₂, _ | ⟨c₃, _ | ⟨c₄, rest⟩⟩⟩⟩⟩
    any_goals (simp at h; done)
    have hcs : c₀.toLower = 's' ∧ c₁.toLower = '3' ∧ c₂.toLower = ':' ∧ c₃.toLower = '/' ∧ c₄.toLower = '/' := by
      simpa using h
    obtain ⟨h₀, h₁, h₂, h₃, h₄⟩ := hcs
    obtain rfl := toLower_eq h₁ (by decide)
    obtain rfl := toLower_eq h₂ (by decide)
    obtain rfl := toLower_eq h₃ (by decide)
    obtain rfl := toLower_eq h₄ (by decide)
    rcases toLower_eq_s h₀ with rfl | rfl
    · exact .inl ⟨rest, rfl⟩
    · exact .inr ⟨rest, rfl⟩
  · rintro (⟨rest, rfl⟩ | ⟨rest, rfl⟩) <;> rfl

theorem parseBucketKey_some {rest : Str} {s : FileSource} (h : parseBucketKey rest = some s) :
    s.bucket ≠ [] ∧ s.path ≠ [] := by
  unfold parseBucketKey at h
  dsimp only at h
  split at h
  · exact absurd h (by simp)
  · split_ifs at h with hb hk
    obtain rfl := Option.some.inj h
    exact ⟨hb, hk⟩

theorem parseS3UrlInto_some {url region region' : Str} {s : FileSource}
    (h : parseS3UrlInto url region = some (s, region')) : s.bucket ≠ [] ∧ s.path ≠ [] := by
  have hmap : ∀ {rest r : Str}, (parseBucketKey rest).map (fun s => (s, r)) = some (s, region') →
      s.bucket ≠ [] ∧ s.path ≠ [] := by
    intro rest r hrest
    obtain ⟨s', hs', heq⟩ := Option.map_eq_some_iff.1 hrest
    obtain rfl := congrArg Prod.fst heq
    exact parseBucketKey_some hs'
  unfold parseS3UrlInto at h
  split at h
  · dsimp only at h
    split at h
    · split at h
      · exact hmap h
      · exact hmap h
    · exact hmap h
  · exact absurd h (by simp)

/-- An S3 side that requests can be made of. -/
def S3Side.WellFormed (s : S3Side) : Prop := s.isS3 = true ∧ s.source.bucket ≠ [] ∧ s.source.path ≠ []

/-- A positional that looks like S3 makes a well-formed side unless its scheme is in capitals. -/
theorem parseSource_wellFormed_iff {arg : Str} {s : S3Side} (harg : looksLikeS3 arg = true)
    (h : parseSource arg = .ok s) : s.WellFormed ↔ ¬ "S3://".toList <+: arg := by
  unfold parseSource at h
  by_cases hpre : "s3://".toList.isPrefixOf arg = true
  · have hcapital : ¬ "S3://".toList <+: arg := by
      rintro ⟨t, rfl⟩
      exact absurd hpre (by simp [List.isPrefixOf])
    refine iff_of_true ?_ hcapital
    rw [if_pos hpre] at h
    split at h
    · rename_i source region hurl
      obtain rfl := Except.ok.inj h
      exact ⟨rfl, parseS3UrlInto_some hurl⟩
    · exact absurd h (by simp)
  · have hcapital : "S3://".toList <+: arg :=
      ((looksLikeS3_iff arg).1 harg).resolve_left fun hsmall => hpre (List.isPrefixOf_iff_prefix.2 hsmall)
    refine iff_of_false ?_ (not_not.2 hcapital)
    rw [if_neg hpre] at h
    obtain rfl := Except.ok.inj h
    rintro ⟨hs3, -⟩
    exact absurd hs3 (by simp)

/-- The direction that the kinds of two positionals stand for. -/
def directionOf (a b : Str) : SyncDirection :=
  if looksLikeS3 a then (if looksLikeS3 b then .s3ToS3 else .download) else .upload

theorem Took.direction {o : SyncCliOptions} {a b : Str} (h : Took o [a, b]) : o.direction = directionOf a b := by
  unfold directionOf
  cases h with
  | localToS3 ha hb h hsrc => simp [ha, (shape_eq h).2.2.2]
  | s3ToLocal ha hb h hsrc => simp [ha, hb, (shape_eq h).2.2.2]
  | s3ToS3 ha hb h hsrc hdest => simp [ha, hb, (shape_eq h).2.2.2]

/-- The S3 sides are the positionals that look like S3, and all of them. -/
theorem Took.sides {o : SyncCliOptions} {ps : List Str} (h : Took o ps) :
    ((o.hasS3Source = true → o.s3Source.WellFormed) ∧ (o.hasS3Dest = true → o.s3Dest.WellFormed)) ↔
      ∀ arg ∈ ps, ¬ "S3://".toList <+: arg := by
  have hlocal : ∀ {a : Str}, looksLikeS3 a = false → ¬ "S3://".toList <+: a := fun {a} ha hpre =>
    absurd ((looksLikeS3_iff a).2 (.inr hpre)) (by simp [ha])
  cases h with
  | none h => simp [(shape_eq h).2.1, (shape_eq h).2.2.1]
  | oneLocal ha h => simpa [(shape_eq h).2.1, (shape_eq h).2.2.1] using hlocal ha
  | oneS3 ha h hsrc => simp [(shape_eq h).2.1, (shape_eq h).2.2.1, parseSource_wellFormed_iff ha hsrc]
  | localToS3 ha hb h hsrc =>
    simpa [(shape_eq h).2.1, (shape_eq h).2.2.1, parseSource_wellFormed_iff hb hsrc] using fun _ => hlocal ha
  | s3ToLocal ha hb h hsrc =>
    simpa [(shape_eq h).2.1, (shape_eq h).2.2.1, parseSource_wellFormed_iff ha hsrc] using fun _ => hlocal hb
  | s3ToS3 ha hb h hsrc hdest =>
    simp [(shape_eq h).2.1, (shape_eq h).2.2.1, parseSource_wellFormed_iff ha hsrc, parseSource_wellFormed_iff hb hdest]

/-! ## The request -/

/-- A request as the claim of the parser has it: its S3 sides can be asked, its direction is the one of its
positionals, and every command line with the same items of each kind in the same order is the same request. -/
structure SyncRequest (xs : List SyncItem) : Prop where
  source : (parseSyncWords (wordsOf xs) {}).hasS3Source = true → (parseSyncWords (wordsOf xs) {}).s3Source.WellFormed
  dest : (parseSyncWords (wordsOf xs) {}).hasS3Dest = true → (parseSyncWords (wordsOf xs) {}).s3Dest.WellFormed
  direction : ∀ a b, positionalsOf xs = [a, b] → (parseSyncWords (wordsOf xs) {}).direction = directionOf a b
  moved : ∀ ys, SameOrders SyncItem.kind xs ys → parseSyncWords (wordsOf ys) {} = parseSyncWords (wordsOf xs) {}

theorem finish_wellFormed (o : SyncArgs) : (o.finish.hasS3Source = o.hasS3Source ∧ o.finish.hasS3Dest = o.hasS3Dest ∧
    o.finish.direction = o.direction) ∧ (o.finish.s3Source.WellFormed ↔ o.s3Source.WellFormed) ∧
      (o.finish.s3Dest.WellFormed ↔ o.s3Dest.WellFormed) := by
  have hside : ∀ (s : S3Side) (url : Str), (if s.isS3 then { s with endpoint := url } else s).WellFormed ↔
      s.WellFormed := by
    intro s url
    split <;> exact Iff.rfl
  have hbase : o.finish.toSyncCliOptions = applyEndpoint o.toSyncCliOptions := rfl
  rw [hbase]
  unfold applyEndpoint
  by_cases hurl : o.endpointUrl = []
  · rw [if_pos hurl]
    exact ⟨⟨rfl, rfl, rfl⟩, Iff.rfl, Iff.rfl⟩
  · rw [if_neg hurl]
    exact ⟨⟨rfl, rfl, rfl⟩, hside _ _, hside _ _⟩

/-- **A command line without an error is a well-formed request exactly where no positional has its scheme in
capitals.** -/
theorem sync_request_iff {args : List Str} (hok : (parseSyncWords args {}).error = false) :
    ∃ xs, wordsOf xs = args ∧ (SyncRequest xs ↔ ∀ arg ∈ positionalsOf xs, ¬ "S3://".toList <+: arg) := by
  obtain ⟨xs, o, hwords, hrun⟩ := items_of_words args {} hok
  refine ⟨xs, hwords, ?_⟩
  have hparse : parseSyncWords (wordsOf xs) {} = o.finish := parseSyncWords_items xs {} o hrun
  have htook : Took o.toSyncCliOptions (positionalsOf xs) := Took.runs (.none rfl) hrun
  obtain ⟨⟨hs, hd, hdir⟩, hsource, hdest⟩ := finish_wellFormed o
  constructor
  · intro h
    have hsides := h.source
    have hdests := h.dest
    rw [hparse, hs, hsource] at hsides
    rw [hparse, hd, hdest] at hdests
    exact htook.sides.1 ⟨hsides, hdests⟩
  · intro hsmall
    obtain ⟨hsides, hdests⟩ := htook.sides.2 hsmall
    refine ⟨?_, ?_, ?_, ?_⟩
    · rw [hparse, hs, hsource]
      exact hsides
    · rw [hparse, hd, hdest]
      exact hdests
    · intro a b hab
      rw [hparse, hdir]
      exact (hab ▸ htook).direction
    · intro ys horders
      have hys : ys.foldlM SyncItem.run {} = some o :=
        (foldlM_eq_of_sameOrders run_commutes xs ys {} horders).symm.trans hrun
      rw [hparse]
      exact parseSyncWords_items ys {} o hys

theorem sync_request_iff_pinned :
    ∃ xs, wordsOf xs = ["/data/".toList, "--delete".toList, "s3://b/k/".toList] ∧
      (SyncRequest xs ↔ ∀ arg ∈ positionalsOf xs, ¬ "S3://".toList <+: arg) :=
  sync_request_iff (by decide)

/-- `mito sync S3://bucket/x/ /data/` has an S3 source that is of no S3 type. -/
theorem sync_request_capital_scheme :
    (parseSyncWords ["S3://bucket/x/".toList, "/data/".toList] {}).error = false ∧
      (parseSyncWords ["S3://bucket/x/".toList, "/data/".toList] {}).hasS3Source = true ∧
      (parseSyncWords ["S3://bucket/x/".toList, "/data/".toList] {}).s3Source.isS3 = false := by
  decide

end Mito
