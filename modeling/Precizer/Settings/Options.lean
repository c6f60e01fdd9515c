import Precizer.Database.Comparison
import Precizer.General.Decimal
import Precizer.Logger.Markup
import Precizer.Settings.Ini

/-! # Options

The option table, the settings that options change, and the handler that applies one option. The
command line and the settings file share the handler; a file shows by its line number that it is
being read, and then a flag can also be turned off.
-/
namespace Precizer.Settings
open General Database Logger

/-- The keys of the table and the events of the option parser. -/
inductive Key where
  | lockChecksum
  | rehashLocked
  | ignore
  | includePath
  | dbDropIgnored
  | dbDropInaccessible
  | watchTimestamps
  | maxdepth
  | dryRun
  | oneFileSystem
  | startDeviceOnly
  | force
  | update
  | database
  | path
  | checkLevel
  | compare
  | compareFilter
  | silent
  | quietIgnored
  | verbose
  | output
  | progress
  | color
  | config
  | help
  | questionMark
  | usage
  | version
  | argument
  | noArguments
  | finish
  deriving DecidableEq

def Key.isOption (key : Key) : Bool := key ≠ .argument ∧ key ≠ .noArguments ∧ key ≠ .finish

/-- A table entry; headings have neither a name nor a key. -/
structure ArgpOption where
  name : Option Text := none
  key : Option Key := none
  arg : Option String := none
  isAlias : Bool := false

def heading : ArgpOption := {}

def flag (name : String) (key : Key) : ArgpOption := { name := ascii name, key := key }

def valued (name : String) (key : Key) (arg : String) : ArgpOption := { name := ascii name, key := key, arg := arg }

def formerly (name : String) (key : Key) : ArgpOption := { name := ascii name, key := key, isAlias := true }

def options : List ArgpOption := [
  heading,
  valued "lock-checksum" .lockChecksum "PCRE2_REGEXP",
  flag "rehash-locked" .rehashLocked,
  heading,
  heading,
  valued "ignore" .ignore "PCRE2_REGEXP",
  valued "include" .includePath "PCRE2_REGEXP",
  flag "db-drop-ignored" .dbDropIgnored,
  formerly "db-clean-ignored" .dbDropIgnored,
  flag "db-drop-inaccessible" .dbDropInaccessible,
  formerly "drop-inaccessible" .dbDropInaccessible,
  flag "watch-timestamps" .watchTimestamps,
  valued "maxdepth" .maxdepth "NUMBER",
  valued "dry-run" .dryRun "MODE",
  flag "one-file-system" .oneFileSystem,
  formerly "start-device-only" .startDeviceOnly,
  flag "force" .force,
  flag "update" .update,
  valued "database" .database "FILE",
  valued "path" .path "PATH",
  valued "check-level" .checkLevel "full|quick",
  heading,
  flag "compare" .compare,
  valued "compare-filter" .compareFilter "checksum-mismatch|first-source|second-source",
  heading,
  flag "silent" .silent,
  flag "quiet-ignored" .quietIgnored,
  flag "verbose" .verbose,
  valued "output" .output "full|compact|machine",
  flag "progress" .progress,
  valued "color" .color "auto|always|never",
  valued "config" .config "FILE",
  flag "help" .help,
  { key := some .questionMark, isAlias := true },
  flag "usage" .usage,
  flag "version" .version]

inductive OutputMode where
  | full
  | compact
  | machine
  deriving DecidableEq

inductive ColorMode where
  | auto
  | always
  | never
  deriving DecidableEq

/-- What `rational_logger_mode` is set to. -/
inductive LoggerMode where
  | regular
  | verbose
  | machine
  | silent
  deriving DecidableEq

inductive CheckLevel where
  | quick
  | full
  deriving DecidableEq

/-- The settings, with the values of `init_config`. No terminal depth is `-1`, an unset path is empty. -/
structure Config where
  output : OutputMode := .full
  colorMode : ColorMode := .auto
  colorSpecified : Bool := false
  progress : Bool := false
  showRememberedMessagesAtExit : Bool := false
  force : Bool := false
  silent : Bool := false
  verbose : Bool := false
  update : Bool := false
  compare : Bool := false
  compareFilter : CompareFilter := {}
  configFilePath : Option Text := none
  configFileErrorLine : ℤ := -1
  roots : List Text := []
  dbPrimaryFilePath : Text := []
  dbFileName : Text := []
  dbFilePaths : List Text := []
  dbFileNames : List Text := []
  dbDropIgnored : Bool := false
  dbDropInaccessible : Bool := false
  dbCheckLevel : CheckLevel := .full
  maxdepth : ℤ := -1
  ignore : List Text := []
  quietIgnored : Bool := false
  includePaths : List Text := []
  includeSpecified : Bool := false
  lockChecksum : List Text := []
  rehashLocked : Bool := false
  dryRun : Bool := false
  dryRunWithChecksums : Bool := false
  watchTimestamps : Bool := false
  oneFileSystem : Bool := false
  deriving DecidableEq

/-- The settings, the output modes that follow them, and what was reported. -/
structure ParseState where
  config : Config := {}
  rationalLoggerMode : LoggerMode := .regular
  rationalColorMode : ColorMode := .auto
  informationModeRequested : Bool := false
  diagnostics : List Text := []
  deriving DecidableEq

/-- The fields of the option parser's state that the handler reads; `bare` is `argc == 1`. -/
structure ArgpState where
  quoted : Bool := false
  bare : Bool := false
  configHasEntries : Bool := false

inductive ErrorT where
  | ok
  | usage
  | invalid
  deriving DecidableEq

def lowercase (c : UInt8) : UInt8 := if 65 ≤ c ∧ c ≤ 90 then c + 32 else c

/-- `strcasecmp` finds no difference. -/
def strcasecmp (s : Text) (t : String) : Bool := s.map lowercase = (ascii t).map lowercase

/-- The number, and the suffix unless nothing was converted. -/
def strtol (s : Text) : ℤ × Option Text :=
  let skipped := s.dropWhile isSpace
  let negative := skipped.head? = some 45
  let unsigned := if negative ∨ skipped.head? = some 43 then skipped.tail else skipped
  let digits := unsigned.takeWhile (IsDigit ·)
  let value : ℤ := if negative then -digitsValue digits else digitsValue digits
  (max (-2 ^ 63) (min value (2 ^ 63 - 1)),if digits = [] then none else some (unsigned.dropWhile (IsDigit ·)))

def slash : UInt8 := 47

def basename (path : Text) : Text :=
  if path = [] then ascii "."
  else if path.rdropWhile (· = slash) = [] then [slash]
  else (path.rdropWhile (· = slash)).rtakeWhile (· ≠ slash)

def updateLoggerMode (s : ParseState) : ParseState :=
  { s with
    rationalColorMode := if s.config.colorSpecified = false ∧ s.config.output = .machine then .never else s.config.colorMode,
    rationalLoggerMode :=
      if s.config.silent then .silent
      else if s.config.output ≠ .full then .machine
      else if s.config.verbose then .verbose
      else .regular }

def initConfig : ParseState := updateLoggerMode {}

def ParseState.set (s : ParseState) (f : Config → Config) : ParseState := { s with config := f s.config }

def argpFailure (s : ParseState) (message : Text) : ParseState := { s with diagnostics := s.diagnostics ++ [message] }

/-- `ERROR: Line %d in config file: ` -/
def fileError (line : ℕ) (message : Text) : Text :=
  ascii "ERROR: Line " ++ decimalText line ++ ascii " in config file: " ++ message

def reportOptionError (s : ParseState) (message : Text) : ParseState :=
  if s.config.configFileErrorLine > 0 then argpFailure s (fileError s.config.configFileErrorLine.toNat message)
  else argpFailure s (ascii "ERROR: " ++ message)

/-- `text '%s'. rest` -/
def quoting (text : String) (arg : Text) (rest : String) : Text := ascii text ++ arg ++ ascii rest

def outputOf (arg : Text) : Option OutputMode :=
  if strcasecmp arg "full" then some .full
  else if strcasecmp arg "compact" then some .compact
  else if strcasecmp arg "machine" then some .machine
  else none

def colorOf (arg : Text) : Option ColorMode :=
  if strcasecmp arg "auto" then some .auto
  else if strcasecmp arg "always" then some .always
  else if strcasecmp arg "never" then some .never
  else none

def checkLevelOf (arg : Text) : Option CheckLevel :=
  if strcasecmp arg "QUICK" then some .quick
  else if strcasecmp arg "FULL" then some .full
  else none

/-- The filter with one more category. -/
def compareFilterOf (filter : CompareFilter) (arg : Text) : Option CompareFilter :=
  if strcasecmp arg "checksum-mismatch" then some { filter with checksumMismatch := true }
  else if strcasecmp arg "first-source" then some { filter with firstSource := true }
  else if strcasecmp arg "second-source" then some { filter with secondSource := true }
  else none

def maxdepthOf (arg : Text) : Option ℤ :=
  if (strtol arg).2 = some [] ∧ 0 ≤ (strtol arg).1 ∧ (strtol arg).1 ≤ 32767 then some (strtol arg).1 else none

/-- A choice that the table of values does not have is reported. -/
def choose {α : Type} (choice : Option α) (message : Text) (apply : α → ParseState) (s : ParseState) : ParseState × ErrorT :=
  match choice with
  | some a => (apply a,.ok)
  | none => (reportOptionError s message,.invalid)

/-- The value of a flag. -/
def flagValue (s : ParseState) (arg : Option Text) : Bool :=
  s.config.configFileErrorLine < 0 || arg = none || !strcasecmp (arg.getD []) "false"

def parseDryRun (arg : Option Text) (s : ParseState) : ParseState × ErrorT :=
  let switched := s.set fun c =>
    { c with
      dryRun := flagValue s arg,
      dryRunWithChecksums := if c.configFileErrorLine > 0 then false else c.dryRunWithChecksums }
  match flagValue s arg,arg with
  | true,some mode =>
    if strcasecmp mode "with-checksums" then (switched.set fun c => { c with dryRunWithChecksums := true },.ok)
    else (reportOptionError switched
      (quoting "Unsupported --dry-run mode '" mode "'. Supported mode: with-checksums. See --help for more information"),.invalid)
  | _,_ => (switched,.ok)

/-- A path on its own line or on the command line, while no allocation fails (`ENOMEM` otherwise). -/
def parsePath (key : Key) (arg : Text) (s : ParseState) : ParseState × ErrorT :=
  if key = .argument ∧ s.config.compare = true then (s.set fun c => { c with dbFilePaths := c.dbFilePaths ++ [arg] },.ok)
  else if arg = [] then
    (reportOptionError s (ascii "Filesystem root path must not be empty. See --help for more information"),.invalid)
  else (s.set fun c => { c with roots := c.roots ++ [arg] },.ok)

def parseNoArguments (state : ArgpState) (s : ParseState) : ParseState × ErrorT :=
  if s.informationModeRequested then (s,.ok)
  else if (s.config.compare = false ∧ s.config.roots ≠ []) ∨ (s.config.compare = true ∧ s.config.dbFilePaths ≠ []) then (s,.ok)
  else if state.bare = true ∧ state.configHasEntries = false then ({ s with informationModeRequested := true },.ok)
  else if s.config.compare = false then
    (argpFailure s (ascii "ERROR: At least one scan path is required. " ++
      if s.config.configFilePath = none then ascii "Specify a directory as a positional argument or with --path=PATH"
      else ascii "Add 'path = /path/to/directory' to the configuration file"),.usage)
  else (s,.usage)

def warnings (s : ParseState) : ParseState :=
  let s := if s.config.dbDropInaccessible = true ∧ s.config.update = false then
    argpFailure s (ascii "WARNING: --db-drop-inaccessible has no effect without --update; records for inaccessible paths will be kept in the database")
    else s
  if s.config.rehashLocked = true ∧ s.config.lockChecksum = [] then
    argpFailure s (ascii "WARNING: --rehash-locked has no effect without --lock-checksum")
  else s

def parseFinish (s : ParseState) : ParseState × ErrorT :=
  if s.informationModeRequested then (s,.ok)
  else if s.config.compareFilter.specified = true ∧ s.config.compare = false then
    (argpFailure s (ascii "ERROR: --compare-filter can only be used together with --compare. See --help for more information"),.usage)
  else if s.config.compare = true ∧ s.config.dbFilePaths.length < 2 then
    (argpFailure s (ascii "ERROR: Too few arguments. --compare require two arguments with paths to database files. See --help for more information"),.usage)
  else if s.config.compare = true ∧ 2 < s.config.dbFilePaths.length then
    (argpFailure s (ascii "ERROR: Too many arguments. --compare require just two arguments with paths to database files. See --help for more information"),.usage)
  else (warnings s,.ok)

/-- The switch of `parse_opt`, while no allocation fails: `ENOMEM` for a database path, and a pattern
that `add_string_to_array` drops without a report, are left out. -/
def parseKey (key : Key) (arg : Option Text) (state : ArgpState) (s : ParseState) : ParseState × ErrorT :=
  let text := arg.getD []
  let value := flagValue s arg
  match key with
  | .database => (s.set fun c => { c with dbPrimaryFilePath := text, dbFileName := basename text },.ok)
  | .ignore => (s.set fun c => { c with ignore := c.ignore ++ [text] },.ok)
  | .dryRun => parseDryRun arg s
  | .includePath => (s.set fun c => { c with includePaths := c.includePaths ++ [text], includeSpecified := true },.ok)
  | .lockChecksum => (s.set fun c => { c with lockChecksum := c.lockChecksum ++ [text] },.ok)
  | .rehashLocked => (s.set fun c => { c with rehashLocked := value },.ok)
  | .compare => (s.set fun c => { c with compare := value },.ok)
  | .compareFilter =>
    choose (arg.bind (compareFilterOf s.config.compareFilter))
      (quoting "Unsupported --compare-filter value '" text
        "'. Supported values: checksum-mismatch, first-source, second-source. See --help for more information")
      (fun filter => s.set fun c => { c with compareFilter := filter }) s
  | .startDeviceOnly => (s.set fun c => { c with oneFileSystem := value },.ok)
  | .oneFileSystem => (s.set fun c => { c with oneFileSystem := value },.ok)
  | .dbDropIgnored => (s.set fun c => { c with dbDropIgnored := value },.ok)
  | .dbDropInaccessible => (s.set fun c => { c with dbDropInaccessible := value },.ok)
  | .maxdepth =>
    choose (maxdepthOf text)
      (ascii "Wrong --maxdepth (-m) value. Should be an integer from 0 to 32767. See --help for more information")
      (fun depth => s.set fun c => { c with maxdepth := depth }) s
  | .progress => (s.set fun c => { c with progress := value, showRememberedMessagesAtExit := value },.ok)
  | .watchTimestamps => (s.set fun c => { c with watchTimestamps := value },.ok)
  | .update => (s.set fun c => { c with update := value },.ok)
  | .force => (s.set fun c => { c with force := value },.ok)
  | .checkLevel =>
    choose (checkLevelOf text)
      (quoting "Unsupported --check-level value '" text "'. Supported values: FULL or QUICK")
      (fun level => s.set fun c => { c with dbCheckLevel := level }) s
  | .silent => (updateLoggerMode (s.set fun c => { c with silent := value }),.ok)
  | .quietIgnored => (s.set fun c => { c with quietIgnored := value },.ok)
  | .verbose => (updateLoggerMode (s.set fun c => { c with verbose := value }),.ok)
  | .output =>
    choose (outputOf text)
      (quoting "Unsupported --output value '" text "'. Supported values: full, compact, or machine")
      (fun output => updateLoggerMode (s.set fun c => { c with output := output })) s
  | .color =>
    choose (colorOf text)
      (quoting "Unsupported --color value '" text "'. Supported values: auto, always, or never")
      (fun color => updateLoggerMode (s.set fun c => { c with colorMode := color, colorSpecified := true })) s
  | .help => ({ s with informationModeRequested := true },.ok)
  | .questionMark => ({ s with informationModeRequested := true },.ok)
  | .version => ({ s with informationModeRequested := true },.ok)
  | .usage => ({ s with informationModeRequested := true },.ok)
  | .config => (s,.ok)
  | .noArguments => parseNoArguments state s
  | .path => parsePath .path text s
  | .argument => parsePath .argument text s
  | .finish => parseFinish s

def parseOpt (key : Key) (arg : Option Text) (state : ArgpState) (s : ParseState) : ParseState × ErrorT :=
  if state.quoted = true ∧ (key = .argument ∨ key = .noArguments ∨ key = .finish) then
    (argpFailure s (ascii "ERROR: Unsupported use of --"),.usage)
  else parseKey key arg state s

end Precizer.Settings
