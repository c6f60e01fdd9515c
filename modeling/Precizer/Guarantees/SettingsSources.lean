import Precizer.Guarantees.SettingsFiles
import Precizer.Settings.EquivalentSources

/-! # The settings of a run

The settings of a run come from one source, a file or the command line, and a file can always be
replaced by a command line. What the program is started with is sound.
-/
namespace Precizer.Settings
open General Database Logger

/-- Whatever the files hold and however the line is given, the output modes follow the settings, and
accepted settings can be run with. -/
theorem settings_sound (opening : Text → Opening) (line : CommandLine) :
    ModesFollow (parseArguments opening line initConfig).1 ∧
      ((parseArguments opening line initConfig).2 = .success → Runnable (parseArguments opening line initConfig).1.config) := by
  refine parseArguments_cases (P := fun r => ModesFollow r.1 ∧ (r.2 = .success → Runnable r.1.config)) ready_initConfig
    opening line ?_ ?_ ?_
  · exact fun s h => ⟨h.sound.modes,fun heq => by cases heq⟩
  · exact fun s h => ⟨h.sound.modes,fun heq => by cases heq⟩
  · intro s hasEntries h hok hinformed
    have hready := mainPass_ready h line hasEntries
    have hcomplete : Complete (argpParse (mainEvent line hasEntries) line s).1.config := complete_mainPass hok hinformed
    exact ⟨modesFollow_normalizePaths hready.sound.modes,fun _ => runnable_normalizePaths hready.sound.valid hcomplete⟩

/-- Settings come from one source: no file has a say, or the line asks for nothing but a file, and
then the settings are those that the file leaves on top of the defaults. Only a file that was named
must exist. -/
theorem single_source (opening : Text → Opening) (line : CommandLine) (s : ParseState) :
    (∀ other, parseArguments other line s = parseArguments opening line s) ∨
      FileOnly line ∧ ∃ path s₀, s₀.config = { s.config with configFilePath := some path } ∧
        ∀ other, let answer := readConfigFile path (!line.bare) (other path) s₀
          (answer.success = false → (parseArguments other line s).2 = .failure) ∧
            (parseArguments other line s).1.config =
              if (parseArguments other line s).2 = .success then normalizePaths answer.parse.config else answer.parse.config := by
  cases haccepted : (selectedSource line s).2 with
  | false =>
    left
    intro other
    rw [parseArguments_unselected haccepted,parseArguments_unselected haccepted]
  | true =>
    cases hfile : (selectedSource line s).1.parse.config.configFilePath with
    | none =>
      left
      intro other
      have hread (opening : Text → Opening) :
          readSelected opening (selectedSource line s).1 = ⟨true,false,(selectedSource line s).1.parse⟩ := by
        unfold readSelected
        rw [hfile]
      rw [parseArguments_selected haccepted,parseArguments_selected haccepted,hread,hread]
    | some path =>
      right
      have hnone : (startContext s).parse.config.configFilePath = none := rfl
      obtain ⟨honly,hok,hrequired,hconfig⟩ := selected_file hnone haccepted hfile
      refine ⟨honly,path,(selectedSource line s).1.parse,hconfig,?_⟩
      intro other
      have hread : readSelected other (selectedSource line s).1 =
          readConfigFile path (!line.bare) (other path) (selectedSource line s).1.parse := by
        have hrequired : (selectedSource line s).1.configRequired = !line.bare := hrequired
        unfold readSelected
        rw [hfile,← hrequired]
      rw [parseArguments_selected haccepted,hread,hok]
      dsimp only
      cases hsuccess : (readConfigFile path (!line.bare) (other path) (selectedSource line s).1.parse).success with
      | false =>
        rw [if_pos rfl,if_neg (fun h => by cases h)]
        exact ⟨fun _ => rfl,rfl⟩
      | true =>
        rw [if_neg (fun h => by cases h)]
        exact ⟨fun h => (by cases h),honly.parseMain _ _⟩

theorem passing_initConfig : Passing initConfig initConfig.config := ⟨rfl,ready_initConfig,rfl⟩

theorem switched_initConfig (a : Assignment) (h : a.1.isSwitch = true) :
    assignEntry initConfig.config (Switched a) = initConfig.config := by
  have hkeys : ∀ key : Key, key.isSwitch = true →
      assignEntry initConfig.config (key,some (ascii "false")) = initConfig.config := by
    intro key
    cases key <;> decide
  exact hkeys a.1 h

/-- A settings file that names no database with a leading `-` can be replaced by the command line of
its assignments: both end with the same status, the same settings up to the path of the file, and
the same output modes. A file that asks for nothing fails. -/
theorem file_as_command_line {opening : Text → Opening} {path readError : Text} {d : Document}
    (hopening : opening path = .opened ⟨d.render,false⟩ readError none) (h : ∀ call ∈ d.calls, call.Meaningful)
    (hplain : ∀ database ∈ databasesOf (d.calls.filterMap Call.assignment), database = [dash] ∨ database.head? ≠ some dash) :
    let line := commandLine (d.calls.filterMap Call.assignment) (entryAssignment_calls d.calls) hplain
    let fromFile := parseArguments opening (fileLine path) initConfig
    let fromLine := parseArguments opening line initConfig
    (line.bare = true → fromFile.2 = .failure) ∧
      (line.bare = false → fromFile.2 = fromLine.2 ∧
        fromFile.1.config = { fromLine.1.config with configFilePath := some path } ∧
        fromFile.1.rationalLoggerMode = fromLine.1.rationalLoggerMode ∧
        fromFile.1.rationalColorMode = fromLine.1.rationalColorMode) := by
  intro line fromFile fromLine
  have hentries := entryAssignment_calls d.calls
  have hfile := parseArguments_document hopening h passing_initConfig rfl
  rw [foldl_configFilePath,foldl_line hentries switched_initConfig] at hfile
  refine ⟨fun hbare => ?_,fun hbare => ?_⟩
  · have honly := fileOnly_of_bare hbare
    have hoptions : line.options = [] := by
      unfold CommandLine.bare at hbare
      simp only [Bool.and_eq_true,List.isEmpty_iff] at hbare
      exact hbare.1.1.1
    have hnothing : lineOptions (d.calls.filterMap Call.assignment) ++
        lineOperands (databasesOf (d.calls.filterMap Call.assignment)) = [] := by
      have hoptions : lineOptions (d.calls.filterMap Call.assignment) = [] := hoptions
      have hoperands : databasesOf (d.calls.filterMap Call.assignment) = [] := honly.operands
      rw [hoptions,hoperands]
      rfl
    rw [hnothing] at hfile
    refine hfile.status.resolve_left fun hsuccess => ?_
    exact ((hfile.success.mp hsuccess).scan rfl).1 rfl
  · have hline := parseArguments_taken (taken_commandLine hentries hplain) hbare (config_commandLine hentries hplain) opening
      passing_initConfig rfl
    exact hfile.agree hline

def rootsOpening : Text → Opening := fun _ => .opened ⟨rootsDocument.render,false⟩ [] none

/-- `--path=/m --path=/n --dry-run` -/
def rootsLine : CommandLine where
  options := [(.path,some (ascii "/m")),(.path,some (ascii "/n")),(.dryRun,none)]
  unquoted := unquoted_none

theorem file_as_command_line_roots :
    (parseArguments rootsOpening (fileLine (ascii "p")) initConfig).2 = (parseArguments rootsOpening rootsLine initConfig).2 := by
  have hplain : ∀ database ∈ databasesOf (rootsDocument.calls.filterMap Call.assignment),
      database = [dash] ∨ database.head? ≠ some dash := by decide
  have hopening : rootsOpening (ascii "p") = .opened ⟨rootsDocument.render,false⟩ [] none := rfl
  have hline : commandLine (rootsDocument.calls.filterMap Call.assignment) (entryAssignment_calls rootsDocument.calls) hplain =
      rootsLine := by
    simp only [commandLine,rootsLine,CommandLine.mk.injEq]
    refine ⟨by decide,trivial,trivial,by decide⟩
  have hagree := file_as_command_line hopening (by decide) hplain
  rw [hline] at hagree
  exact (hagree.2 (by decide)).1

theorem writes_of_dbDetermineMode {c : Config} {found : Bool} {mode : DbMode} (h : dbDetermineMode c found = some mode) :
    (mode.sqliteOpenFlag = .readonly ∨ mode.sqliteOpenFlag = .dryRunMode) ↔ (c.compare = true ∨ c.dryRun = true) := by
  unfold dbDetermineMode at h
  cases hcompare : c.compare <;> cases hupdate : c.update <;> cases hdryRun : c.dryRun <;> cases found <;>
    simp [hcompare,hupdate,hdryRun] at h ⊢ <;> subst h <;> simp

/-- A settings file alone decides whether a run may write its database: it may not if the file names
databases to compare, or if its last `dry-run` entry is on. -/
theorem document_decides_writes {opening : Text → Opening} {path readError : Text} {d : Document}
    (hopening : opening path = .opened ⟨d.render,false⟩ readError none) (h : ∀ call ∈ d.calls, call.Meaningful)
    (hsuccess : (parseArguments opening (fileLine path) initConfig).2 = .success) {dbPrimaryFileExists : Bool} {mode : DbMode}
    (hmode : dbDetermineMode (parseArguments opening (fileLine path) initConfig).1.config dbPrimaryFileExists = some mode) :
    (mode.sqliteOpenFlag = .readonly ∨ mode.sqliteOpenFlag = .dryRunMode) ↔
      ((d.calls.filterMap Call.assignment).any namesDatabase = true ∨
        lastOf .dryRun (fun arg => some (flagIn true arg)) (d.calls.filterMap Call.assignment) false = true) := by
  have hfile := parseArguments_document hopening h passing_initConfig rfl
  have hdeclared := declared_foldl (fileAssignment_calls d.calls) { initConfig.config with configFilePath := some path }
  have hdryRun := hdeclared.flags (.dryRun,Config.dryRun) (by simp [flagFields])
  have hcompare := hdeclared.compare
  have hnormalized (c : Config) : (normalizePaths c).compare = c.compare ∧ (normalizePaths c).dryRun = c.dryRun := by
    unfold normalizePaths
    split <;> exact ⟨rfl,rfl⟩
  have hconfig := hfile.config
  rw [if_pos hsuccess] at hconfig
  rw [writes_of_dbDetermineMode hmode,hconfig,(hnormalized _).1,(hnormalized _).2,hcompare]
  dsimp only at hdryRun
  rw [hdryRun]
  rfl

theorem document_decides_writes_roots :
    (OpenFlag.dryRunMode = .readonly ∨ OpenFlag.dryRunMode = .dryRunMode) ↔
      ((rootsDocument.calls.filterMap Call.assignment).any namesDatabase = true ∨
        lastOf .dryRun (fun arg => some (flagIn true arg)) (rootsDocument.calls.filterMap Call.assignment) false = true) := by
  have hopening : rootsOpening (ascii "p") = .opened ⟨rootsDocument.render,false⟩ [] none := rfl
  have hassignments : rootsDocument.calls.filterMap Call.assignment =
      [(.path,some (ascii "/m")),(.path,some (ascii "/n")),(.dryRun,none)] := by decide
  have hfile := parseArguments_document hopening (by decide) passing_initConfig rfl
  have hsuccess : (parseArguments rootsOpening (fileLine (ascii "p")) initConfig).2 = .success := by
    refine hfile.success.mpr ⟨fun _ => ?_,fun hcompare => ?_⟩
    · rw [hassignments]
      decide
    · rw [hassignments] at hcompare
      cases hcompare
  have hmode : dbDetermineMode (parseArguments rootsOpening (fileLine (ascii "p")) initConfig).1.config false =
      some ⟨.dryRunMode,true⟩ := by
    rw [hfile.config,if_pos hsuccess,hassignments]
    decide
  exact document_decides_writes hopening (by decide) hsuccess hmode

end Precizer.Settings
