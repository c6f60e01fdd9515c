import Precizer.Settings.IniReading
import Precizer.Settings.Options

/-! # The settings file

Every entry of a settings file is looked up by its long name, its quotes are taken off, a boolean
spelling is normalized, and the option handler applies it. The first entry that is refused ends
the reading.
-/
namespace Precizer.Settings
open General Logger

structure ConfigFileReadContext where
  hasEntries : Bool := false
  failed : Bool := false
  parse : ParseState

/-- These options are given on the command line only. -/
def cliOnly : List Text := [ascii "help",ascii "usage",ascii "version",ascii "config"]

/-- The entry with a name; an alias stands for the entry before it that is none. -/
def findOption (name : Text) (option : Option ArgpOption) : List ArgpOption → Option ArgpOption
  | [] => none
  | entry :: rest =>
    if entry.name = some name then (if entry.isAlias then option else some entry)
    else findOption name (if entry.isAlias then option else some entry) rest

def doubleQuote : UInt8 := 34

def singleQuote : UInt8 := 39

/-- The value without its outer quotes, unless they are not closed. -/
def unquote (value : Text) : Option Text :=
  match value with
  | [] => some []
  | quote :: rest =>
    if quote = doubleQuote ∨ quote = singleQuote then
      if rest.getLast? = some quote then some rest.dropLast else none
    else some value

def isFalse (value : Text) : Bool :=
  strcasecmp value "false" || strcasecmp value "no" || strcasecmp value "off" || strcasecmp value "n" || strcasecmp value "0"

def isTrue (value : Text) : Bool :=
  strcasecmp value "true" || strcasecmp value "yes" || strcasecmp value "on" || strcasecmp value "y" || strcasecmp value "1"

/-- A flag is spelled as a boolean; `compare` takes paths, and `dry-run` may also take a mode. -/
def takesBoolean (option : ArgpOption) : Bool :=
  (option.arg = none && option.key ≠ some .compare) || option.key = some .dryRun

/-- The argument for the handler, unless the value is not a boolean that was asked for. -/
def argumentOf (option : ArgpOption) (value : Text) : Option (Option Text) :=
  if takesBoolean option then
    if isFalse value then some (some (ascii "false"))
    else if isTrue value then some none
    else if option.key ≠ some .dryRun then none
    else some (some value)
  else some (some value)

def ConfigFileReadContext.refuse (context : ConfigFileReadContext) (line : ℕ) (message : Text) : ConfigFileReadContext × Bool :=
  ({ context with failed := true, parse := argpFailure context.parse (fileError line message) },false)

/-- The handler's diagnostics name the line while the entry is applied. -/
def applyEntry (line : ℕ) (key : Key) (argument : Option Text) (context : ConfigFileReadContext) :
    ConfigFileReadContext × Bool :=
  let applied := parseOpt key argument {} (context.parse.set fun c => { c with configFileErrorLine := line })
  let parse := applied.1.set fun c => { c with configFileErrorLine := -1 }
  if applied.2 = .ok then ({ context with parse := parse },true) else ({ context with failed := true, parse := parse },false)

/-- An entry of `compare` names a database. -/
def applyValue (line : ℕ) (option : ArgpOption) (argument : Option Text) (context : ConfigFileReadContext) :
    ConfigFileReadContext × Bool :=
  match option.key with
  | some .compare =>
    if argument.getD [] = [] then context.refuse line (ascii "Database path for 'compare' must not be empty")
    else applyEntry line .argument argument { context with parse := context.parse.set fun c => { c with compare := true } }
  | some key => applyEntry line key argument context
  | none => ({ context with failed := true },false)

def readConfigEntry : Handler ConfigFileReadContext := fun context call =>
  match call.entry with
  | none => (context,true)
  | some (name,value) =>
    if name ∈ cliOnly then context.refuse call.lineno (quoting "Config key '" name "' is only available in CLI")
    else
      match findOption name none options with
      | none => context.refuse call.lineno (quoting "Unknown config key '" name "'")
      | some option =>
        let context := { context with hasEntries := true }
        match unquote value with
        | none => context.refuse call.lineno (quoting "Unclosed quoted value for '" name "'")
        | some value =>
          match argumentOf option value with
          | none => context.refuse call.lineno (quoting "Unsupported --" name (" value '") ++
              quoting "" value "'. Supported values: true/yes/on/y/1 or false/no/off/n/0")
          | some argument => applyValue call.lineno option argument context

/-- How opening a file ends; errors carry the text of their number. -/
inductive Opening where
  | notFound (error : Text)
  | failed (error : Text)
  | opened (file : Stream) (readError : Text) (closeError : Option Text)

structure ConfigFileAnswer where
  success : Bool
  hasEntries : Bool
  parse : ParseState

def systemError (text : String) (path : Text) (error : Text) : Text := quoting text path "'" ++ ascii ": " ++ error

/-- What follows the parsing of an open file; only the first failure is reported. -/
def finishConfigFile (path readError : Text) (closeError : Option Text) (parser : Parser) (context : ConfigFileReadContext) :
    ConfigFileAnswer :=
  if context.failed then ⟨false,context.hasEntries,context.parse⟩
  else if parser.readFailed then
    ⟨false,context.hasEntries,argpFailure context.parse (systemError "ERROR: Cannot read config file '" path readError)⟩
  else if parser.error ≠ 0 then
    ⟨false,context.hasEntries,argpFailure context.parse (fileError parser.error (ascii "Invalid config syntax"))⟩
  else
    match closeError with
    | some error =>
      ⟨false,context.hasEntries,argpFailure context.parse (systemError "ERROR: Cannot close config file '" path error)⟩
    | none => ⟨true,context.hasEntries,context.parse⟩

def readConfigFile (path : Text) (required : Bool) (opening : Opening) (s : ParseState) : ConfigFileAnswer :=
  match opening with
  | .notFound error =>
    if required then ⟨false,false,argpFailure s (systemError "ERROR: Cannot open config file '" path error)⟩
    else ⟨true,false,s⟩
  | .failed error => ⟨false,false,argpFailure s (systemError "ERROR: Cannot open config file '" path error)⟩
  | .opened file readError closeError =>
    let parsed := iniParseFile readConfigEntry { parse := s } file
    finishConfigFile path readError closeError parsed.1 parsed.2

end Precizer.Settings
