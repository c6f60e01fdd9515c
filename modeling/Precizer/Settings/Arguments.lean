import Precizer.Settings.ConfigFile

/-! # The command line

The command line is parsed twice. The first pass finds out whether a settings file is to be read,
the second applies the options of the command line or, after a file, only checks what the file
gave. Paths are normalized once everything is accepted.
-/
namespace Precizer.Settings
open General Database Logger

def dash : UInt8 := 45

/-- A tokenized command line: its options with their arguments, whether an option after them is
malformed, whether `--` precedes the operands, and the operands. -/
structure CommandLine where
  options : List (Key × Option Text) := []
  malformed : Bool := false
  quoted : Bool := false
  operands : List Text := []
  named : ∀ option ∈ options, option.1.isOption = true := by decide
  unquoted : quoted = false → ∀ operand ∈ operands, operand = [dash] ∨ operand.head? ≠ some dash := by decide

/-- No argument but the program name. -/
def CommandLine.bare (line : CommandLine) : Bool :=
  line.options.isEmpty && !line.malformed && !line.quoted && line.operands.isEmpty

/-- One call of the parser function. -/
structure Event where
  key : Key
  arg : Option Text
  quoted : Bool

/-- The calls that the option parser makes as long as none fails. -/
def CommandLine.events (line : CommandLine) : List Event :=
  line.options.map (fun option => ⟨option.1,option.2,false⟩) ++
    if line.malformed then []
    else line.operands.map (fun operand => ⟨.argument,some operand,line.quoted⟩) ++
      (if line.operands = [] then [⟨.noArguments,none,line.quoted⟩] else []) ++ [⟨.finish,none,line.quoted⟩]

variable {σ : Type*}

/-- One call, which ends the parsing if it fails. -/
def argpStep (parser : Event → σ → σ × ErrorT) (s : σ × ErrorT) (event : Event) : (σ × ErrorT) × Bool :=
  (parser event s.1,(parser event s.1).2 = .ok)

/-- `argp_parse`: the first failure is the answer; a malformed option fails after the others. -/
def argpParse (parser : Event → σ → σ × ErrorT) (line : CommandLine) (s : σ) : σ × ErrorT :=
  let parsed := stoppedFold (argpStep parser) (s,.ok) line.events
  if parsed.2.isNone && line.malformed then (parsed.1.1,.invalid) else parsed.1

structure ArgumentParseContext where
  configRequired : Bool := false
  hasOtherArguments : Bool := false
  informationModeRequested : Bool := false
  parse : ParseState

def ArgumentParseContext.other (context : ArgumentParseContext) : ArgumentParseContext :=
  { context with hasOtherArguments := true }

/-- The shared handler applies a valid output option early. -/
def applyEarly (event : Event) (context : ArgumentParseContext) : ArgumentParseContext × ErrorT :=
  let applied := parseOpt event.key event.arg { quoted := event.quoted } context.parse
  ({ context with parse := applied.1 },applied.2)

def parseSourceOption (event : Event) (context : ArgumentParseContext) : ArgumentParseContext × ErrorT :=
  match event.key with
  | .config => ({ context with parse := context.parse.set fun c => { c with configFilePath := event.arg } },.ok)
  | .silent => applyEarly event context.other
  | .verbose => applyEarly event context.other
  | .output => if (outputOf (event.arg.getD [])).isSome then applyEarly event context.other else (context.other,.ok)
  | .color => if (colorOf (event.arg.getD [])).isSome then applyEarly event context.other else (context.other,.ok)
  | .help => ({ context.other with informationModeRequested := true },.ok)
  | .questionMark => ({ context.other with informationModeRequested := true },.ok)
  | .usage => ({ context.other with informationModeRequested := true },.ok)
  | .version => ({ context.other with informationModeRequested := true },.ok)
  | .finish => (context,if event.quoted then .usage else .ok)
  | .noArguments => (context,.ok)
  | _ => (context.other,.ok)

def setConfigFilePath (path : Option Text) (context : ArgumentParseContext) : ArgumentParseContext :=
  { context with parse := context.parse.set fun c => { c with configFilePath := path } }

def defaultConfigFile : Text := ascii "precizer.conf"

/-- The source of the settings, unless a file conflicts with other arguments. -/
def selectSettingsSource (line : CommandLine) (preliminaryError : ErrorT) (context : ArgumentParseContext) :
    ArgumentParseContext × Bool :=
  let context := { context with configRequired := false }
  if preliminaryError ≠ .ok then
    ({ setConfigFilePath none context with hasOtherArguments := false, informationModeRequested := false },true)
  else if context.informationModeRequested then (setConfigFilePath none context,true)
  else if context.parse.config.configFilePath ≠ none then
    if context.hasOtherArguments then
      let reported := argpFailure context.parse
        (ascii "ERROR: --config cannot be combined with other arguments. Use either a config file or CLI arguments")
      (setConfigFilePath none { context with parse := reported },false)
    else ({ context with configRequired := true },true)
  else if line.bare then (setConfigFilePath (some defaultConfigFile) context,true)
  else (context,true)

/-- A path keeps its first character, and loses the slashes at its end. -/
def removeTrailingSlash (path : Text) : Text :=
  match path with
  | [] => []
  | c :: rest => c :: rest.rdropWhile (· = slash)

/-- The paths of the mode that was selected, while no allocation fails. -/
def normalizePaths (c : Config) : Config :=
  if c.compare then
    { c with
      roots := [],
      dbFilePaths := c.dbFilePaths.map removeTrailingSlash,
      dbFileNames := c.dbFileNames ++ (c.dbFilePaths.map removeTrailingSlash).map basename }
  else { c with roots := c.roots.map removeTrailingSlash }

inductive ParseStatus where
  | success
  | informational
  | failure
  deriving DecidableEq

def readSelected (opening : Text → Opening) (context : ArgumentParseContext) : ConfigFileAnswer :=
  match context.parse.config.configFilePath with
  | none => ⟨true,false,context.parse⟩
  | some path => readConfigFile path context.configRequired (opening path) context.parse

/-- The main pass and what follows it. -/
def parseMain (line : CommandLine) (preliminaryError : ErrorT) (hasEntries : Bool) (s : ParseState) : ParseState × ParseStatus :=
  let parsed := argpParse (fun event => parseOpt event.key event.arg ⟨event.quoted,line.bare,hasEntries⟩) line s
  if parsed.2 ≠ .ok ∨ preliminaryError ≠ .ok then (parsed.1,.failure)
  else if parsed.1.informationModeRequested then (parsed.1,.informational)
  else (parsed.1.set normalizePaths,.success)

/-- `parse_arguments`, given how every path opens. -/
def parseArguments (opening : Text → Opening) (line : CommandLine) (s : ParseState) : ParseState × ParseStatus :=
  let s := ParseState.set { s with informationModeRequested := false } fun c => { c with configFilePath := none }
  let preliminary := argpParse parseSourceOption line { parse := s }
  let selected := selectSettingsSource line preliminary.2 preliminary.1
  if selected.2 = false then (selected.1.parse,.failure)
  else
    let answer := readSelected opening selected.1
    if answer.success = false then (answer.parse,.failure)
    else parseMain line preliminary.2 answer.hasEntries answer.parse

inductive OpenFlag where
  | readonly
  | readwrite
  | readwriteCreate
  | dryRunMode
  deriving DecidableEq

structure DbMode where
  sqliteOpenFlag : OpenFlag
  dbInitializeTables : Bool
  deriving DecidableEq

/-- `db_determine_mode`, unless an update lacks its database. -/
def dbDetermineMode (c : Config) (dbPrimaryFileExists : Bool) : Option DbMode :=
  let mode : Option DbMode :=
    if c.compare then some ⟨.readonly,false⟩
    else if c.update then if dbPrimaryFileExists then some ⟨.readwrite,false⟩ else none
    else if dbPrimaryFileExists then some ⟨.readwrite,false⟩
    else some ⟨.readwriteCreate,true⟩
  mode.map fun mode =>
    if c.dryRun then { mode with sqliteOpenFlag := if dbPrimaryFileExists then .readonly else .dryRunMode } else mode

end Precizer.Settings
