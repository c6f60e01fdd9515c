import Precizer.Settings.DeclaredSettings

/-! # Sound settings

Invariants of the settings through both passes over the command line and the reading of a file:
the output modes follow the settings, and every setting is one that the program can work with.
They hold in every state that is reached, failed ones included.
-/
namespace Precizer.Settings
open General Logger

/-- The output modes are those that the settings ask for. -/
def ModesFollow (s : ParseState) : Prop :=
  s.rationalLoggerMode = (updateLoggerMode s).rationalLoggerMode ∧ s.rationalColorMode = (updateLoggerMode s).rationalColorMode

/-- Settings that the program can work with, before the paths are normalized. -/
structure Valid (c : Config) : Prop where
  maxdepth : c.maxdepth = -1 ∨ (0 ≤ c.maxdepth ∧ c.maxdepth ≤ 32767)
  roots : ∀ root ∈ c.roots, root ≠ []
  databases : c.compare = false → c.dbFilePaths = []
  names : c.dbFileNames = []
  included : c.includeSpecified = !c.includePaths.isEmpty
  checksums : c.dryRunWithChecksums = true → c.dryRun = true
  remembered : c.showRememberedMessagesAtExit = c.progress
  database : (c.dbPrimaryFilePath = [] ∧ c.dbFileName = []) ∨ c.dbFileName = basename c.dbPrimaryFilePath

structure Sound (s : ParseState) : Prop where
  modes : ModesFollow s
  valid : Valid s.config

theorem modesFollow_update (s : ParseState) : ModesFollow (updateLoggerMode s) := ⟨rfl,rfl⟩

theorem sound_initConfig : Sound initConfig where
  modes := modesFollow_update _
  valid := by
    constructor
    · exact .inl rfl
    · exact fun root h => absurd h List.not_mem_nil
    · exact fun _ => rfl
    · rfl
    · rfl
    · exact fun h => absurd h Bool.false_ne_true
    · rfl
    · exact .inl ⟨rfl,rfl⟩

theorem Sound.reported {s : ParseState} (h : Sound s) (message : Text) : Sound (argpFailure s message) := ⟨h.modes,h.valid⟩

theorem Sound.reportedOption {s : ParseState} (h : Sound s) (message : Text) : Sound (reportOptionError s message) := by
  unfold reportOptionError
  split <;> exact h.reported _

theorem Sound.informed {s : ParseState} (h : Sound s) : Sound { s with informationModeRequested := true } := ⟨h.modes,h.valid⟩

theorem Sound.line {s : ParseState} (h : Sound s) (line : ℤ) : Sound (s.set fun c => { c with configFileErrorLine := line }) :=
  ⟨h.modes,⟨h.valid.maxdepth,h.valid.roots,h.valid.databases,h.valid.names,h.valid.included,h.valid.checksums,
    h.valid.remembered,h.valid.database⟩⟩

theorem Sound.configFilePath {s : ParseState} (h : Sound s) (path : Option Text) :
    Sound (s.set fun c => { c with configFilePath := path }) :=
  ⟨h.modes,⟨h.valid.maxdepth,h.valid.roots,h.valid.databases,h.valid.names,h.valid.included,h.valid.checksums,
    h.valid.remembered,h.valid.database⟩⟩

theorem Sound.compared {s : ParseState} (h : Sound s) : Sound (s.set fun c => { c with compare := true }) := by
  refine ⟨h.modes,⟨h.valid.maxdepth,h.valid.roots,?_,h.valid.names,h.valid.included,h.valid.checksums,h.valid.remembered,
    h.valid.database⟩⟩
  intro hcompare
  cases hcompare

theorem choose_sound {α : Type} {s : ParseState} (h : Sound s) {choice : Option α} {message : Text} {apply : α → ParseState}
    (happly : ∀ x, choice = some x → Sound (apply x)) : Sound (choose choice message apply s).1 := by
  cases choice with
  | none => exact h.reportedOption message
  | some x => exact happly x rfl

theorem maxdepthOf_bounds {arg : Text} {depth : ℤ} (h : maxdepthOf arg = some depth) : 0 ≤ depth ∧ depth ≤ 32767 := by
  unfold maxdepthOf at h
  split at h
  · rename_i hbounds
    cases h
    exact hbounds.2
  · cases h

theorem ReadFrom.line {file : Bool} {s : ParseState} (h : ReadFrom file s) :
    decide (0 < s.config.configFileErrorLine) = file := by
  cases file with
  | false =>
    have hline : s.config.configFileErrorLine < 0 := h
    exact decide_eq_false (by omega)
  | true => exact decide_eq_true h

theorem parseDryRun_sound {file : Bool} {s : ParseState} (hs : ReadFrom file s) (h : Sound s) (arg : Option Text) :
    Sound (parseDryRun arg s).1 := by
  have hvalid := h.valid
  have hvalue := hs.flagValue arg
  have hline := hs.line
  -- a flag that is off comes from a file, which resets the mode as well
  have hswitched : Sound (s.set fun c =>
      { c with
        dryRun := flagValue s arg,
        dryRunWithChecksums := if c.configFileErrorLine > 0 then false else c.dryRunWithChecksums }) := by
    refine ⟨h.modes,⟨hvalid.maxdepth,hvalid.roots,hvalid.databases,hvalid.names,hvalid.included,?_,hvalid.remembered,
      hvalid.database⟩⟩
    intro hchecksums
    rw [set_config] at hchecksums ⊢
    dsimp only at hchecksums ⊢
    cases file with
    | false => rw [hvalue]; rfl
    | true =>
      rw [if_pos (of_decide_eq_true hline)] at hchecksums
      cases hchecksums
  unfold parseDryRun
  dsimp only
  split
  · rename_i mode hflag
    split
    · rw [hflag] at hswitched
      refine ⟨h.modes,⟨hvalid.maxdepth,hvalid.roots,hvalid.databases,hvalid.names,hvalid.included,?_,hvalid.remembered,
        hvalid.database⟩⟩
      exact fun _ => hflag
    · exact hswitched.reportedOption _
  · exact hswitched

theorem parsePath_sound {s : ParseState} (h : Sound s) (key : Key) (arg : Text) : Sound (parsePath key arg s).1 := by
  have hvalid := h.valid
  unfold parsePath
  split
  · rename_i hdatabase
    refine ⟨h.modes,⟨hvalid.maxdepth,hvalid.roots,?_,hvalid.names,hvalid.included,hvalid.checksums,hvalid.remembered,
      hvalid.database⟩⟩
    intro hcompare
    rw [set_config] at hcompare
    exact absurd (hdatabase.2.symm.trans hcompare) (fun heq => by cases heq)
  · split
    · exact h.reportedOption _
    · rename_i hne
      refine ⟨h.modes,⟨hvalid.maxdepth,?_,hvalid.databases,hvalid.names,hvalid.included,hvalid.checksums,hvalid.remembered,
        hvalid.database⟩⟩
      intro root hroot
      rcases List.mem_append.mp hroot with hold | hnew
      · exact hvalid.roots root hold
      · rwa [List.mem_singleton.mp hnew]

theorem parseNoArguments_sound {s : ParseState} (h : Sound s) (state : ArgpState) : Sound (parseNoArguments state s).1 := by
  unfold parseNoArguments
  split
  · exact h
  split
  · exact h
  split
  · exact h.informed
  split
  · exact h.reported _
  · exact h

theorem warnings_sound {s : ParseState} (h : Sound s) : Sound (warnings s) := by
  unfold warnings
  dsimp only
  split <;> split <;> first | exact (h.reported _).reported _ | exact h.reported _ | exact h

theorem parseFinish_sound {s : ParseState} (h : Sound s) : Sound (parseFinish s).1 := by
  unfold parseFinish
  split
  · exact h
  split
  · exact h.reported _
  split
  · exact h.reported _
  split
  · exact h.reported _
  · exact warnings_sound h

theorem parseKey_sound {file : Bool} {s : ParseState} (hs : ReadFrom file s) (h : Sound s) {key : Key}
    (hcompare : key = .compare → file = false) (arg : Option Text) (state : ArgpState) :
    Sound (parseKey key arg state s).1 := by
  have hv := h.valid
  have hvalue := hs.flagValue arg
  cases key with
  | dryRun => exact parseDryRun_sound hs h arg
  | path => exact parsePath_sound h _ _
  | argument => exact parsePath_sound h _ _
  | noArguments => exact parseNoArguments_sound h state
  | finish => exact parseFinish_sound h
  | compare =>
    have hon : flagValue s arg = true := by
      rw [hvalue,hcompare rfl]
      rfl
    have hset : (parseKey .compare arg state s).1 = s.set fun c => { c with compare := true } := by
      rw [← hon]
      rfl
    rw [hset]
    exact h.compared
  | compareFilter => exact choose_sound h fun filter _ => ⟨h.modes,⟨hv.1,hv.2,hv.3,hv.4,hv.5,hv.6,hv.7,hv.8⟩⟩
  | maxdepth =>
    refine choose_sound h fun depth hdepth => ⟨h.modes,⟨?_,hv.2,hv.3,hv.4,hv.5,hv.6,hv.7,hv.8⟩⟩
    exact .inr (maxdepthOf_bounds hdepth)
  | checkLevel => exact choose_sound h fun level _ => ⟨h.modes,⟨hv.1,hv.2,hv.3,hv.4,hv.5,hv.6,hv.7,hv.8⟩⟩
  | output =>
    exact choose_sound h fun output _ => ⟨modesFollow_update _,⟨hv.1,hv.2,hv.3,hv.4,hv.5,hv.6,hv.7,hv.8⟩⟩
  | color =>
    exact choose_sound h fun color _ => ⟨modesFollow_update _,⟨hv.1,hv.2,hv.3,hv.4,hv.5,hv.6,hv.7,hv.8⟩⟩
  | silent => exact ⟨modesFollow_update _,⟨hv.1,hv.2,hv.3,hv.4,hv.5,hv.6,hv.7,hv.8⟩⟩
  | verbose => exact ⟨modesFollow_update _,⟨hv.1,hv.2,hv.3,hv.4,hv.5,hv.6,hv.7,hv.8⟩⟩
  | progress => exact ⟨h.modes,⟨hv.1,hv.2,hv.3,hv.4,hv.5,hv.6,rfl,hv.8⟩⟩
  | database => exact ⟨h.modes,⟨hv.1,hv.2,hv.3,hv.4,hv.5,hv.6,hv.7,.inr rfl⟩⟩
  | includePath =>
    refine ⟨h.modes,⟨hv.1,hv.2,hv.3,hv.4,?_,hv.6,hv.7,hv.8⟩⟩
    simp [parseKey]
  | help => exact h.informed
  | questionMark => exact h.informed
  | usage => exact h.informed
  | version => exact h.informed
  | config => exact h
  | _ => exact ⟨h.modes,⟨hv.1,hv.2,hv.3,hv.4,hv.5,hv.6,hv.7,hv.8⟩⟩

theorem parseOpt_sound {file : Bool} {s : ParseState} (hs : ReadFrom file s) (h : Sound s) {key : Key}
    (hcompare : key = .compare → file = false) (arg : Option Text) (state : ArgpState) :
    Sound (parseOpt key arg state s).1 := by
  unfold parseOpt
  split
  · exact h.reported _
  · exact parseKey_sound hs h hcompare arg state

end Precizer.Settings
