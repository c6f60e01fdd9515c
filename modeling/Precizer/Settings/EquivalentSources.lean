import Precizer.Settings.EquivalentRuns
import Precizer.Settings.FileVerdict

/-! # Equivalent sources

A settings file and the command line of its assignments end with the same verdict and the same
settings. The settings are those of the assignments, and the final checks decide.
-/
namespace Precizer.Settings
open General Logger

/-- How a parsing ends that selected the settings and took every option. -/
structure Concluded (c : Config) (r : ParseState × ParseStatus) : Prop where
  status : r.2 = .success ∨ r.2 = .failure
  success : r.2 = .success ↔ Complete c
  config : r.1.config = if r.2 = .success then normalizePaths c else c
  modes : ModesFollow r.1

theorem parseMain_taken {line : CommandLine} (h : TakenLine line) (hbare : line.bare = false) (hasEntries : Bool) {s : ParseState}
    {c : Config} (hs : Passing s c) :
    Concluded (line.assignments.foldl lineAssign c) (parseMain line .ok hasEntries s) := by
  obtain ⟨hpassing,hcomplete⟩ := mainPass_taken h hbare hasEntries hs
  unfold mainEvent at hpassing hcomplete
  unfold parseMain
  dsimp only
  by_cases hok : (argpParse (fun event => parseOpt event.key event.arg ⟨event.quoted,line.bare,hasEntries⟩) line s).2 = .ok
  · rw [if_neg (by simp [hok]),hpassing.informed,if_neg Bool.false_ne_true]
    refine ⟨.inl rfl,⟨fun _ => hcomplete.mp hok,fun _ => rfl⟩,?_,modesFollow_normalizePaths hpassing.ready.sound.modes⟩
    rw [if_pos rfl,set_config,hpassing.config]
  · rw [if_pos (.inl hok)]
    refine ⟨.inr rfl,⟨fun h => (by cases h),fun h => absurd (hcomplete.mpr h) hok⟩,?_,hpassing.ready.sound.modes⟩
    rw [hpassing.config,if_neg (fun h => by cases h)]

theorem assign_configFilePath (file : Bool) (a : Assignment) (c : Config) (path : Option Text) :
    assign file a { c with configFilePath := path } = { assign file a c with configFilePath := path } := by
  obtain ⟨key,arg⟩ := a
  cases key <;> first | rfl | (simp only [assign]; split <;> rfl)

theorem earlyAssign_configFilePath (assignments : List Assignment) (c : Config) :
    (assignments.foldl earlyAssign c).configFilePath = c.configFilePath := by
  induction assignments generalizing c with
  | nil => rfl
  | cons a rest ih =>
    have hkept := congrArg Config.configFilePath (assign_configFilePath false a c c.configFilePath)
    rw [List.foldl_cons,ih,earlyAssign]
    split
    · exact hkept
    · rfl

theorem Passing.start {s : ParseState} {c : Config} (h : Passing s c) (hpath : c.configFilePath = none) :
    Passing (ParseState.set { s with informationModeRequested := false } fun c => { c with configFilePath := none }) c := by
  refine ⟨?_,?_,rfl⟩
  · rw [set_config,h.config,← hpath]
  · exact ⟨⟨h.ready.sound.modes,(h.ready.sound.configFilePath none).valid⟩,h.ready.line⟩

theorem parseArguments_taken {line : CommandLine} (h : TakenLine line) (hbare : line.bare = false)
    (hconfig : ∀ a ∈ line.assignments, a.1 ≠ .config) (opening : Text → Opening) {s : ParseState} {c : Config}
    (hs : Passing s c) (hpath : c.configFilePath = none) :
    Concluded (line.assignments.foldl lineAssign c) (parseArguments opening line s) := by
  have hstart : Passing ({ parse := ParseState.set { s with informationModeRequested := false } fun c =>
      { c with configFilePath := none } } : ArgumentParseContext).parse c := hs.start hpath
  obtain ⟨hok,hinformed,hpassing⟩ := preliminary_taken h hconfig hstart rfl
  unfold parseArguments
  dsimp only
  set preliminary := argpParse parseSourceOption line
    { parse := ParseState.set { s with informationModeRequested := false } fun c => { c with configFilePath := none } }
  have hnone : preliminary.1.parse.config.configFilePath = none := by
    rw [hpassing.config,earlyAssign_configFilePath,hpath]
  have hselected : selectSettingsSource line preliminary.2 preliminary.1 =
      ({ preliminary.1 with configRequired := false },true) := by
    unfold selectSettingsSource
    dsimp only
    rw [if_neg (not_not.mpr hok),hinformed,if_neg Bool.false_ne_true,if_neg (not_not.mpr hnone),hbare,if_neg Bool.false_ne_true]
  have hread : readSelected opening { preliminary.1 with configRequired := false } = ⟨true,false,preliminary.1.parse⟩ := by
    unfold readSelected
    dsimp only
    rw [hnone]
  rw [hselected,if_neg (fun heq => by cases heq),hread,if_neg (fun heq => by cases heq),hok]
  have hconcluded := parseMain_taken h hbare false hpassing
  rwa [foldl_early h.taken] at hconcluded

theorem readConfigEntry_information (context : ConfigFileReadContext) (call : Call) :
    (readConfigEntry context call).1.parse.informationModeRequested = context.parse.informationModeRequested := by
  have happly (context' : ConfigFileReadContext) {key : Key} (hkey : key.isSetting = true ∨ key = .argument)
      (argument : Option Text) : (applyEntry call.lineno key argument context').1.parse.informationModeRequested =
        context'.parse.informationModeRequested := by
    have hkept := parseOpt_information hkey argument {} (context'.parse.set fun c => { c with configFileErrorLine := call.lineno })
    unfold applyEntry
    dsimp only
    split <;> exact hkept
  unfold readConfigEntry
  split
  · rfl
  split
  · rfl
  rename_i hcli
  split
  · rfl
  rename_i option hfind
  dsimp only
  split
  · rfl
  split
  · rfl
  obtain ⟨key,hkey,hsetting,-⟩ := setting_of_findOption hcli hfind
  unfold applyValue
  split
  · split
    · rfl
    · exact happly _ (.inr rfl) _
  · rename_i hsome
    rw [hkey] at hsome
    cases hsome
    exact happly _ (.inl hsetting) _
  · rfl

theorem passing_document (path readError : Text) (d : Document) (h : ∀ call ∈ d.calls, call.Meaningful) {s : ParseState}
    {c : Config} (hs : Passing s c) :
    Passing (readConfigFile path true (.opened ⟨d.render,false⟩ readError none) s).parse
      ((d.calls.filterMap Call.assignment).foldl assignEntry c) := by
  obtain ⟨hsuccess,hconfig,-⟩ := readConfigFile_document path readError true hs.ready.line d h
  refine ⟨by rw [hconfig,hs.config],readConfigFile_ready hs.ready _ _ _,?_⟩
  have hconcludes := iniParseStream_concludes readConfigEntry {} ({ parse := s } : ConfigFileReadContext) ⟨d.render,false⟩ rfl
  have hread : (iniParseFile readConfigEntry { parse := s } ⟨d.render,false⟩).2.parse.informationModeRequested = false := by
    rw [iniParseFile,hconcludes.state]
    refine stoppedFold_preserves (P := fun context : ConfigFileReadContext => context.parse.informationModeRequested = false) ?_
      hs.informed
    intro context call _ hcontext
    rw [readConfigEntry_information]
    exact hcontext
  unfold readConfigFile finishConfigFile
  dsimp only
  split_ifs <;> exact hread

theorem unquoted_none : false = false → ∀ operand ∈ ([] : List Text), operand = [dash] ∨ operand.head? ≠ some dash :=
  fun _ _ hoperand => absurd hoperand List.not_mem_nil

def fileLine (path : Text) : CommandLine where
  options := [(.config,some path)]
  named := List.forall_mem_singleton.mpr rfl
  unquoted := unquoted_none

theorem taken_fileLine (path : Text) : TakenLine (fileLine path) :=
  ⟨List.forall_mem_singleton.mpr ⟨.inl rfl,fun _ => rfl⟩,fun _ hoperand => absurd hoperand List.not_mem_nil,rfl,rfl⟩

/-- The settings that a document gives. -/
theorem parseArguments_document {opening : Text → Opening} {path readError : Text} {d : Document}
    (hopening : opening path = .opened ⟨d.render,false⟩ readError none) (h : ∀ call ∈ d.calls, call.Meaningful) {s : ParseState}
    {c : Config} (hs : Passing s c) (hpath : c.configFilePath = none) :
    Concluded ((d.calls.filterMap Call.assignment).foldl assignEntry { c with configFilePath := some path })
      (parseArguments opening (fileLine path) s) := by
  have hstart := hs.start hpath
  unfold parseArguments
  dsimp only
  set start := ParseState.set { s with informationModeRequested := false } fun c => { c with configFilePath := none } with hstarted
  have hnamed : Passing (start.set fun c => { c with configFilePath := some path }) { c with configFilePath := some path } := by
    refine ⟨?_,hstart.ready.configFilePath _,hstart.informed⟩
    rw [set_config,hstart.config]
  have hselected : selectSettingsSource (fileLine path) (argpParse parseSourceOption (fileLine path) { parse := start }).2
      (argpParse parseSourceOption (fileLine path) { parse := start }).1 =
      ({ configRequired := true, parse := start.set fun c => { c with configFilePath := some path } },true) := rfl
  have hpreliminary : (argpParse parseSourceOption (fileLine path) { parse := start }).2 = .ok := rfl
  have hread : readSelected opening
      { configRequired := true, parse := start.set fun c => { c with configFilePath := some path } } =
      readConfigFile path true (.opened ⟨d.render,false⟩ readError none)
        (start.set fun c => { c with configFilePath := some path }) := by
    rw [← hopening]
    rfl
  obtain ⟨hsuccess,-,-⟩ := readConfigFile_document path readError true hnamed.ready.line d h
  rw [hselected,if_neg (fun heq => by cases heq),hread,hsuccess,if_neg (fun heq => by cases heq),hpreliminary]
  have hmain := parseMain_taken (taken_fileLine path) rfl
    (readConfigFile path true (.opened ⟨d.render,false⟩ readError none)
      (start.set fun c => { c with configFilePath := some path })).hasEntries (passing_document path readError d h hnamed)
  exact hmain

/-- A kept entry of a file is taken on the command line. -/
theorem taken_of_entry {a : Assignment} (h : EntryAssignment a) (hargument : a.1 ≠ .argument)
    (hvalue : a.1.isSwitch = true → flagIn true a.2 = true) : Taken a := by
  refine ⟨.inl (h.known.resolve_left hargument).1,?_⟩
  intro compare
  rw [takesArgument_compare hargument]
  obtain ⟨key,arg⟩ := a
  by_cases hdryRun : key = .dryRun
  · subst hdryRun
    have htaken := h.taken
    have hon : flagIn true arg = true := hvalue rfl
    have honline : flagIn false arg = true := rfl
    simp only [takesArgument,hon,honline] at htaken ⊢
    exact htaken
  · have hsame : takesArgument false true (key,arg) = takesArgument true true (key,arg) := by
      cases key <;> first | rfl | exact absurd rfl hdryRun
    rw [hsame]
    exact h.taken

theorem isOption_of_isSetting {key : Key} (h : key.isSetting = true) : key.isOption = true := by
  cases key <;> first | rfl | cases h

section
variable {assignments : List Assignment} (h : ∀ a ∈ assignments, EntryAssignment a)
include h

theorem lineOptions_cases {a : Assignment} (ha : a ∈ lineOptions assignments) :
    Taken a ∧ a.1.isOption = true ∧ a.1 ≠ .config := by
  rcases List.mem_append.mp ha with hcompare | hsetting
  · split at hcompare
    · cases hcompare
    · cases List.mem_singleton.mp hcompare
      exact ⟨⟨.inl rfl,fun _ => rfl⟩,rfl,by decide⟩
  · obtain ⟨hfiltered,hvalue⟩ := mem_effective hsetting
    obtain ⟨hmem,hnot⟩ := List.mem_filter.mp hfiltered
    rw [Bool.not_eq_true',namesDatabase,decide_eq_false_iff_not] at hnot
    obtain ⟨hknown,hconfig⟩ := (h a hmem).known.resolve_left hnot
    exact ⟨taken_of_entry (h a hmem) hnot hvalue,isOption_of_isSetting hknown,hconfig⟩

theorem databasesOf_ne_nil {path : Text} (hpath : path ∈ databasesOf assignments) : path ≠ [] := by
  obtain ⟨a,ha,rfl⟩ := List.mem_map.mp hpath
  obtain ⟨hmem,hargument⟩ := List.mem_filter.mp ha
  exact (h a hmem).path (of_decide_eq_true hargument)

end

/-- The command line of a file's assignments. No operand may look like an option. -/
def commandLine (assignments : List Assignment) (h : ∀ a ∈ assignments, EntryAssignment a)
    (hplain : ∀ path ∈ databasesOf assignments, path = [dash] ∨ path.head? ≠ some dash) : CommandLine where
  options := lineOptions assignments
  operands := databasesOf assignments
  named := fun _ hoption => (lineOptions_cases h hoption).2.1
  unquoted := fun _ => hplain

theorem taken_commandLine {assignments : List Assignment} (h : ∀ a ∈ assignments, EntryAssignment a)
    (hplain : ∀ path ∈ databasesOf assignments, path = [dash] ∨ path.head? ≠ some dash) :
    TakenLine (commandLine assignments h hplain) :=
  ⟨fun _ hoption => (lineOptions_cases h hoption).1,fun _ hoperand => databasesOf_ne_nil h hoperand,rfl,rfl⟩

theorem config_commandLine {assignments : List Assignment} (h : ∀ a ∈ assignments, EntryAssignment a)
    (hplain : ∀ path ∈ databasesOf assignments, path = [dash] ∨ path.head? ≠ some dash) :
    ∀ a ∈ (commandLine assignments h hplain).assignments, a.1 ≠ .config := by
  intro a ha
  rcases List.mem_append.mp ha with hoption | hoperand
  · exact (lineOptions_cases h hoption).2.2
  · obtain ⟨operand,-,rfl⟩ := List.mem_map.mp hoperand
    exact fun heq => by cases heq

theorem complete_configFilePath (c : Config) (path : Option Text) :
    Complete { c with configFilePath := path } ↔ Complete c :=
  ⟨fun h => ⟨h.scan,h.comparison⟩,fun h => ⟨h.scan,h.comparison⟩⟩

theorem normalizePaths_configFilePath (c : Config) (path : Option Text) :
    normalizePaths { c with configFilePath := path } = { normalizePaths c with configFilePath := path } := by
  unfold normalizePaths
  dsimp only
  split <;> rfl

theorem foldl_configFilePath (assignments : List Assignment) (c : Config) (path : Option Text) :
    assignments.foldl assignEntry { c with configFilePath := path } =
      { assignments.foldl assignEntry c with configFilePath := path } := by
  induction assignments generalizing c with
  | nil => rfl
  | cons a rest ih =>
    have hassign : assignEntry { c with configFilePath := path } a = { assignEntry c a with configFilePath := path } := by
      unfold assignEntry
      split
      · exact assign_configFilePath true a { c with compare := true } path
      · exact assign_configFilePath true a c path
    rw [List.foldl_cons,List.foldl_cons,hassign]
    exact ih (assignEntry c a)

theorem Concluded.agree {c : Config} {path : Option Text} {r r' : ParseState × ParseStatus}
    (h : Concluded { c with configFilePath := path } r) (h' : Concluded c r') :
    r.2 = r'.2 ∧ r.1.config = { r'.1.config with configFilePath := path } ∧
      r.1.rationalLoggerMode = r'.1.rationalLoggerMode ∧ r.1.rationalColorMode = r'.1.rationalColorMode := by
  have hsuccess : r.2 = .success ↔ r'.2 = .success :=
    h.success.trans ((complete_configFilePath c path).trans h'.success.symm)
  have hstatus : r.2 = r'.2 := by
    rcases h'.status with hother | hother
    · rw [hother,hsuccess.mpr hother]
    · rcases h.status with hone | hone
      · have hboth := hsuccess.mp hone
        rw [hother] at hboth
        cases hboth
      · rw [hone,hother]
  have hconfig : r.1.config = { r'.1.config with configFilePath := path } := by
    rw [h.config,h'.config,← hstatus]
    split
    · exact normalizePaths_configFilePath c path
    · rfl
  obtain ⟨hlogger,hcolor⟩ := h.modes
  obtain ⟨hlogger',hcolor'⟩ := h'.modes
  refine ⟨hstatus,hconfig,?_,?_⟩
  · rw [hlogger,hlogger']
    unfold updateLoggerMode
    rw [hconfig]
  · rw [hcolor,hcolor']
    unfold updateLoggerMode
    rw [hconfig]

end Precizer.Settings
