import Precizer.Settings.Arguments

/-! # Assignments

An accepted option assigns to the settings, and it does so alike wherever it comes from: a file
only adds that a flag can be turned off and that every `dry-run` selects its mode anew. Whether an
entry of a file is accepted depends on the entry alone.
-/
namespace Precizer.Settings
open General Database Logger

/-- A key with the argument that the handler is given. -/
abbrev Assignment := Key × Option Text

def flagIn (file : Bool) (arg : Option Text) : Bool := !file || arg = none || !strcasecmp (arg.getD []) "false"

/-- What an accepted option does to the settings. -/
def assign (file : Bool) (a : Assignment) (c : Config) : Config :=
  let text := a.2.getD []
  let value := flagIn file a.2
  match a.1 with
  | .database => { c with dbPrimaryFilePath := text, dbFileName := basename text }
  | .ignore => { c with ignore := c.ignore ++ [text] }
  | .includePath => { c with includePaths := c.includePaths ++ [text], includeSpecified := true }
  | .lockChecksum => { c with lockChecksum := c.lockChecksum ++ [text] }
  | .dryRun =>
    { c with dryRun := value, dryRunWithChecksums := (value && a.2.isSome) || (!file && c.dryRunWithChecksums) }
  | .rehashLocked => { c with rehashLocked := value }
  | .compare => { c with compare := value }
  | .compareFilter => { c with compareFilter := (compareFilterOf c.compareFilter text).getD c.compareFilter }
  | .startDeviceOnly => { c with oneFileSystem := value }
  | .oneFileSystem => { c with oneFileSystem := value }
  | .dbDropIgnored => { c with dbDropIgnored := value }
  | .dbDropInaccessible => { c with dbDropInaccessible := value }
  | .maxdepth => { c with maxdepth := (maxdepthOf text).getD c.maxdepth }
  | .progress => { c with progress := value, showRememberedMessagesAtExit := value }
  | .watchTimestamps => { c with watchTimestamps := value }
  | .update => { c with update := value }
  | .force => { c with force := value }
  | .checkLevel => { c with dbCheckLevel := (checkLevelOf text).getD c.dbCheckLevel }
  | .silent => { c with silent := value }
  | .quietIgnored => { c with quietIgnored := value }
  | .verbose => { c with verbose := value }
  | .output => { c with output := (outputOf text).getD c.output }
  | .color => { c with colorMode := (colorOf text).getD c.colorMode, colorSpecified := true }
  | .path => { c with roots := c.roots ++ [text] }
  | .argument =>
    if c.compare then { c with dbFilePaths := c.dbFilePaths ++ [text] } else { c with roots := c.roots ++ [text] }
  | _ => c

/-- The handler takes the argument; `compare` tells whether a positional argument is a database. -/
def takesArgument (file compare : Bool) (a : Assignment) : Bool :=
  match a.1 with
  | .dryRun => !(flagIn file a.2 && a.2.isSome) || strcasecmp (a.2.getD []) "with-checksums"
  | .compareFilter => a.2.isSome && (compareFilterOf {} (a.2.getD [])).isSome
  | .maxdepth => (maxdepthOf (a.2.getD [])).isSome
  | .checkLevel => (checkLevelOf (a.2.getD [])).isSome
  | .output => (outputOf (a.2.getD [])).isSome
  | .color => (colorOf (a.2.getD [])).isSome
  | .path => a.2.getD [] ≠ []
  | .argument => compare || a.2.getD [] ≠ []
  | _ => true

/-- The parser events that are no option and no operand. -/
def Key.IsEvent (key : Key) : Prop := key = .noArguments ∨ key = .finish

theorem compareFilterOf_isSome (filter : CompareFilter) (arg : Text) :
    (compareFilterOf filter arg).isSome = (compareFilterOf {} arg).isSome := by
  unfold compareFilterOf
  split_ifs <;> rfl

@[simp] theorem updateLoggerMode_config (s : ParseState) : (updateLoggerMode s).config = s.config := rfl

@[simp] theorem updateLoggerMode_diagnostics (s : ParseState) : (updateLoggerMode s).diagnostics = s.diagnostics := rfl

@[simp] theorem set_config (s : ParseState) (f : Config → Config) : (s.set f).config = f s.config := rfl

@[simp] theorem set_diagnostics (s : ParseState) (f : Config → Config) : (s.set f).diagnostics = s.diagnostics := rfl

@[simp] theorem argpFailure_config (s : ParseState) (message : Text) : (argpFailure s message).config = s.config := rfl

@[simp] theorem argpFailure_diagnostics (s : ParseState) (message : Text) :
    (argpFailure s message).diagnostics = s.diagnostics ++ [message] := rfl

@[simp] theorem reportOptionError_config (s : ParseState) (message : Text) :
    (reportOptionError s message).config = s.config := by
  unfold reportOptionError
  split <;> rfl

/-- What the handler does with an assignment that it takes. -/
structure Assigned (file : Bool) (a : Assignment) (s : ParseState) (r : ParseState × ErrorT) : Prop where
  ok : r.2 = .ok
  config : r.1.config = assign file a s.config
  diagnostics : r.1.diagnostics = s.diagnostics

/-- What it does with one that it does not take: one diagnostic, which names the line in a file. -/
structure Rejected (file : Bool) (s : ParseState) (r : ParseState × ErrorT) : Prop where
  invalid : r.2 = .invalid
  diagnostic : ∃ text, r.1.diagnostics = s.diagnostics ++
    [if file then fileError s.config.configFileErrorLine.toNat text else ascii "ERROR: " ++ text]

def ReadFrom (file : Bool) (s : ParseState) : Prop :=
  if file then 0 < s.config.configFileErrorLine else s.config.configFileErrorLine < 0

theorem ReadFrom.flagValue {file : Bool} {s : ParseState} (h : ReadFrom file s) (arg : Option Text) :
    flagValue s arg = flagIn file arg := by
  cases file with
  | false =>
    have hline : s.config.configFileErrorLine < 0 := h
    simp [Settings.flagValue,flagIn,hline]
  | true =>
    have hline : 0 < s.config.configFileErrorLine := h
    have hnot : ¬s.config.configFileErrorLine < 0 := by omega
    simp [Settings.flagValue,flagIn,hnot]

theorem ReadFrom.reported {file : Bool} {s s' : ParseState} (h : ReadFrom file s)
    (hline : s'.config.configFileErrorLine = s.config.configFileErrorLine) (hdiagnostics : s'.diagnostics = s.diagnostics)
    (text : Text) : Rejected file s (reportOptionError s' text,.invalid) := by
  refine ⟨rfl,text,?_⟩
  unfold reportOptionError
  rw [hline]
  cases file with
  | false =>
    have hline : s.config.configFileErrorLine < 0 := h
    rw [if_neg (by omega),argpFailure_diagnostics,hdiagnostics]
    rfl
  | true =>
    have hline : 0 < s.config.configFileErrorLine := h
    rw [if_pos hline,argpFailure_diagnostics,hdiagnostics]
    rfl

theorem choose_cases {α : Type} {file : Bool} {a : Assignment} {s : ParseState} (hs : ReadFrom file s) (choice : Option α)
    (message : Text) (apply : α → ParseState)
    (happly : ∀ x, choice = some x → Assigned file a s (apply x,.ok)) :
    if choice.isSome then Assigned file a s (choose choice message apply s) else Rejected file s (choose choice message apply s) := by
  cases choice with
  | none => exact hs.reported rfl rfl message
  | some x => exact happly x rfl

theorem parseDryRun_cases {file : Bool} {s : ParseState} (hs : ReadFrom file s) (arg : Option Text) :
    if takesArgument file s.config.compare (.dryRun,arg) then Assigned file (.dryRun,arg) s (parseDryRun arg s)
    else Rejected file s (parseDryRun arg s) := by
  have hreset : decide (0 < s.config.configFileErrorLine) = file := by
    cases file with
    | false =>
      have hline : s.config.configFileErrorLine < 0 := hs
      exact decide_eq_false (by omega)
    | true => exact decide_eq_true hs
  have hvalue := hs.flagValue arg
  unfold parseDryRun
  dsimp only
  cases hflag : flagIn file arg with
  | false =>
    rw [hflag] at hvalue
    simp only [takesArgument,hflag,Bool.false_and,Bool.not_false,Bool.true_or,if_true]
    rw [hvalue]
    refine ⟨rfl,?_,rfl⟩
    simp [assign,hflag,hreset]
  | true =>
    rw [hflag] at hvalue
    rw [hvalue]
    cases arg with
    | none =>
      simp only [takesArgument,hflag,Option.isSome_none,Bool.and_false,Bool.not_false,Bool.true_or,if_true]
      refine ⟨rfl,?_,rfl⟩
      simp [assign,hflag,hreset]
    | some mode =>
      simp only [takesArgument,hflag,Option.isSome_some,Bool.and_self,Bool.not_true,Bool.false_or,Option.getD_some]
      split
      · refine ⟨rfl,?_,rfl⟩
        simp [assign,hflag]
      · refine hs.reported ?_ ?_ _ <;> rfl

theorem parsePath_cases {file : Bool} {key : Key} (hkey : key = .path ∨ key = .argument) {s : ParseState}
    (hs : ReadFrom file s) (arg : Option Text) :
    if takesArgument file s.config.compare (key,arg) then Assigned file (key,arg) s (parsePath key (arg.getD []) s)
    else Rejected file s (parsePath key (arg.getD []) s) := by
  have hroots (hroot : assign file (key,arg) s.config = { s.config with roots := s.config.roots ++ [arg.getD []] }) :
      if arg.getD [] ≠ [] then Assigned file (key,arg) s
        (if arg.getD [] = [] then
          (reportOptionError s (ascii "Filesystem root path must not be empty. See --help for more information"),.invalid)
          else (s.set fun c => { c with roots := c.roots ++ [arg.getD []] },.ok))
      else Rejected file s
        (if arg.getD [] = [] then
          (reportOptionError s (ascii "Filesystem root path must not be empty. See --help for more information"),.invalid)
          else (s.set fun c => { c with roots := c.roots ++ [arg.getD []] },.ok)) := by
    by_cases hempty : arg.getD [] = []
    · rw [if_neg (not_not.mpr hempty),if_pos hempty]
      exact hs.reported rfl rfl _
    · rw [if_pos hempty,if_neg hempty]
      exact ⟨rfl,hroot.symm,rfl⟩
  unfold parsePath
  rcases hkey with rfl | rfl
  · simpa [takesArgument] using hroots rfl
  · cases hcompare : s.config.compare with
    | false =>
      have hroot : assign file (.argument,arg) s.config = { s.config with roots := s.config.roots ++ [arg.getD []] } := by
        simp [assign,hcompare]
      simpa [takesArgument] using hroots hroot
    | true =>
      simp only [takesArgument,Bool.true_or,if_true,and_self]
      exact ⟨rfl,by simp [assign,hcompare],rfl⟩

theorem parseKey_cases {file : Bool} {key : Key} (hkey : ¬key.IsEvent) {s : ParseState} (hs : ReadFrom file s)
    (arg : Option Text) (state : ArgpState) :
    if takesArgument file s.config.compare (key,arg) then Assigned file (key,arg) s (parseKey key arg state s)
    else Rejected file s (parseKey key arg state s) := by
  have hvalue := hs.flagValue arg
  cases key with
  | dryRun => exact parseDryRun_cases hs arg
  | path => exact parsePath_cases (.inl rfl) hs arg
  | argument => exact parsePath_cases (.inr rfl) hs arg
  | noArguments => exact absurd (.inl rfl) hkey
  | finish => exact absurd (.inr rfl) hkey
  | compareFilter =>
    cases arg with
    | none => exact hs.reported rfl rfl _
    | some text =>
      have hchoice := choose_cases (a := (.compareFilter,some text)) hs (compareFilterOf s.config.compareFilter text)
        (quoting "Unsupported --compare-filter value '" text
          "'. Supported values: checksum-mismatch, first-source, second-source. See --help for more information")
        (fun filter => s.set fun c => { c with compareFilter := filter })
        (fun filter hfilter => ⟨rfl,by simp [assign,hfilter],rfl⟩)
      rw [compareFilterOf_isSome] at hchoice
      exact hchoice
  | maxdepth =>
    exact choose_cases (a := (.maxdepth,arg)) hs (maxdepthOf (arg.getD [])) _ _
      (fun depth hdepth => ⟨rfl,by simp [assign,hdepth],rfl⟩)
  | checkLevel =>
    exact choose_cases (a := (.checkLevel,arg)) hs (checkLevelOf (arg.getD [])) _ _
      (fun level hlevel => ⟨rfl,by simp [assign,hlevel],rfl⟩)
  | output =>
    exact choose_cases (a := (.output,arg)) hs (outputOf (arg.getD [])) _ _
      (fun output houtput => ⟨rfl,by simp [assign,houtput],rfl⟩)
  | color =>
    exact choose_cases (a := (.color,arg)) hs (colorOf (arg.getD [])) _ _
      (fun color hcolor => ⟨rfl,by simp [assign,hcolor],rfl⟩)
  | _ => exact ⟨rfl,by simp [parseKey,assign,hvalue],rfl⟩

theorem parseOpt_cases {file : Bool} {key : Key} (hkey : ¬key.IsEvent) {s : ParseState} (hs : ReadFrom file s)
    (arg : Option Text) {state : ArgpState} (hquoted : state.quoted = false) :
    if takesArgument file s.config.compare (key,arg) then Assigned file (key,arg) s (parseOpt key arg state s)
    else Rejected file s (parseOpt key arg state s) := by
  have hkeyed : parseOpt key arg state s = parseKey key arg state s := by
    refine if_neg ?_
    rw [hquoted]
    exact fun h => Bool.false_ne_true h.1
  rw [hkeyed]
  exact parseKey_cases hkey hs arg state

end Precizer.Settings
