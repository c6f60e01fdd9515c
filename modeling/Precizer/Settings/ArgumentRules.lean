import Precizer.Settings.SoundSettings

/-! # Rules of the command line

What every call of the option parser preserves, both passes preserve, and so does the reading of
a file between them. A successful pass took every option and operand and passed the final checks.
-/
namespace Precizer.Settings
open General Logger

/-- Outside the entries of a file, with sound settings. -/
structure Ready (s : ParseState) : Prop where
  sound : Sound s
  line : s.config.configFileErrorLine = -1

theorem Ready.readFrom {s : ParseState} (h : Ready s) : ReadFrom false s := by
  have hline : s.config.configFileErrorLine < 0 := by
    rw [h.line]
    decide
  exact hline

theorem choose_line {α : Type} {s : ParseState} {choice : Option α} {message : Text} {apply : α → ParseState} {line : ℤ}
    (hs : s.config.configFileErrorLine = line) (happly : ∀ x, (apply x).config.configFileErrorLine = line) :
    (choose choice message apply s).1.config.configFileErrorLine = line := by
  cases choice with
  | none =>
    rw [choose,reportOptionError_config]
    exact hs
  | some x => exact happly x

theorem parseOpt_line (key : Key) (arg : Option Text) (state : ArgpState) (s : ParseState) :
    (parseOpt key arg state s).1.config.configFileErrorLine = s.config.configFileErrorLine := by
  have hpath (key : Key) (arg : Text) : (parsePath key arg s).1.config.configFileErrorLine = s.config.configFileErrorLine := by
    unfold parsePath
    split
    · rfl
    split
    · rw [reportOptionError_config]
    · rfl
  have hdryRun : (parseDryRun arg s).1.config.configFileErrorLine = s.config.configFileErrorLine := by
    unfold parseDryRun
    dsimp only
    split
    · split
      · rfl
      · rw [reportOptionError_config]
        rfl
    · rfl
  have hnoArguments : (parseNoArguments state s).1.config.configFileErrorLine = s.config.configFileErrorLine := by
    unfold parseNoArguments
    split_ifs <;> rfl
  have hfinish : (parseFinish s).1.config.configFileErrorLine = s.config.configFileErrorLine := by
    unfold parseFinish warnings
    dsimp only
    split_ifs <;> rfl
  unfold parseOpt
  split
  · rfl
  cases key with
  | dryRun => exact hdryRun
  | path => exact hpath _ _
  | argument => exact hpath _ _
  | noArguments => exact hnoArguments
  | finish => exact hfinish
  | compareFilter => exact choose_line rfl fun _ => rfl
  | maxdepth => exact choose_line rfl fun _ => rfl
  | checkLevel => exact choose_line rfl fun _ => rfl
  | output => exact choose_line rfl fun _ => rfl
  | color => exact choose_line rfl fun _ => rfl
  | _ => rfl

theorem Ready.parseOpt {s : ParseState} (h : Ready s) (key : Key) (arg : Option Text) (state : ArgpState) :
    Ready (parseOpt key arg state s).1 :=
  ⟨parseOpt_sound h.readFrom h.sound (fun _ => rfl) arg state,(parseOpt_line key arg state s).trans h.line⟩

theorem Ready.reported {s : ParseState} (h : Ready s) (message : Text) : Ready (argpFailure s message) :=
  ⟨h.sound.reported message,h.line⟩

theorem Ready.configFilePath {s : ParseState} (h : Ready s) (path : Option Text) :
    Ready (s.set fun c => { c with configFilePath := path }) := ⟨h.sound.configFilePath path,h.line⟩

theorem ready_initConfig : Ready initConfig := ⟨sound_initConfig,rfl⟩

/-- An entry keeps the settings sound, whether it is accepted or refused. -/
theorem readConfigEntry_ready {context : ConfigFileReadContext} (h : Ready context.parse) {call : Call}
    (hline : 0 < call.lineno) : Ready (readConfigEntry context call).1.parse := by
  have hrefuse (context' : ConfigFileReadContext) (h : Ready context'.parse) (text : Text) :
      Ready (context'.refuse call.lineno text).1.parse := h.reported _
  have happly (context' : ConfigFileReadContext) (h : Ready context'.parse) {key : Key} (hkey : key ≠ .compare)
      (argument : Option Text) : Ready (applyEntry call.lineno key argument context').1.parse := by
    have hread : ReadFrom true (context'.parse.set fun c => { c with configFileErrorLine := call.lineno }) :=
      Int.natCast_pos.mpr hline
    have hsound := parseOpt_sound hread (h.sound.line call.lineno) (fun heq => absurd heq hkey) argument {}
    unfold applyEntry
    dsimp only
    split <;> exact ⟨hsound.line (-1),rfl⟩
  have hvalue (context' : ConfigFileReadContext) (h : Ready context'.parse) (option : ArgpOption) (argument : Option Text) :
      Ready (applyValue call.lineno option argument context').1.parse := by
    unfold applyValue
    split
    · split
      · exact hrefuse context' h _
      · have hcompared : Ready (context'.parse.set fun c => { c with compare := true }) := ⟨h.sound.compared,h.line⟩
        have hargument : Key.argument ≠ .compare := by decide
        exact happly { context' with parse := context'.parse.set fun c => { c with compare := true } } hcompared hargument argument
    · rename_i hcompare _
      exact happly context' h hcompare argument
    · exact h
  unfold readConfigEntry
  split
  · exact h
  · split
    · exact hrefuse context h _
    · split
      · exact hrefuse context h _
      · dsimp only
        split
        · exact hrefuse _ h _
        · split
          · exact hrefuse _ h _
          · exact hvalue { context with hasEntries := true } h _ _

theorem Concludes.state {σ : Type*} {final : Parser} {answer : σ × Option Call} {result : Parser × σ}
    (h : Concludes final answer result) : result.2 = answer.1 := by
  obtain ⟨user,refused⟩ := answer
  cases refused with
  | none => exact congrArg Prod.snd h
  | some call => exact h.2

theorem lineno_iniCalls (file : Stream) : ∀ call ∈ (iniCalls {} file).2, 0 < call.lineno :=
  (iniCalls_increasing {} file rfl).2.1

theorem readConfigFile_ready {s : ParseState} (h : Ready s) (path : Text) (required : Bool) (opening : Opening) :
    Ready (readConfigFile path required opening s).parse := by
  cases opening with
  | notFound error =>
    unfold readConfigFile
    dsimp only
    split
    · exact h.reported _
    · exact h
  | failed error => exact h.reported _
  | opened file readError closeError =>
    have hstart : Ready ({ parse := s } : ConfigFileReadContext).parse := h
    have hread : Ready (iniParseFile readConfigEntry { parse := s } file).2.parse := by
      have hconcludes := iniParseStream_concludes readConfigEntry {} ({ parse := s } : ConfigFileReadContext) file rfl
      rw [iniParseFile,hconcludes.state]
      exact stoppedFold_preserves (P := fun context : ConfigFileReadContext => Ready context.parse)
        (fun context call hcall hready => readConfigEntry_ready hready (lineno_iniCalls file call hcall)) hstart
    unfold readConfigFile finishConfigFile
    dsimp only
    split
    · exact hread
    split
    · exact hread.reported _
    split
    · exact hread.reported _
    split
    · exact hread.reported _
    · exact hread

variable {σ : Type*}

theorem argpParse_preserves {parser : Event → σ → σ × ErrorT} {P : σ → Prop} {line : CommandLine}
    (hparser : ∀ event ∈ line.events, ∀ s, P s → P (parser event s).1) {s : σ} (h : P s) : P (argpParse parser line s).1 := by
  have hfold : P (stoppedFold (argpStep parser) (s,.ok) line.events).1.1 :=
    stoppedFold_preserves (P := fun r : σ × ErrorT => P r.1) (fun r event hevent hr => hparser event hevent r.1 hr) h
  unfold argpParse
  dsimp only
  split <;> exact hfold

/-- A successful parsing had no malformed option, and every call succeeded. -/
theorem argpParse_ok {parser : Event → σ → σ × ErrorT} {line : CommandLine} {s : σ} (h : (argpParse parser line s).2 = .ok) :
    line.malformed = false ∧ (stoppedFold (argpStep parser) (s,.ok) line.events).2 = none ∧
      (argpParse parser line s).1 = (stoppedFold (argpStep parser) (s,.ok) line.events).1.1 := by
  unfold argpParse at h ⊢
  dsimp only at h ⊢
  cases hrefused : (stoppedFold (argpStep parser) (s,.ok) line.events).2 with
  | none =>
    rw [hrefused] at h
    cases hmalformed : line.malformed with
    | true =>
      rw [hmalformed] at h
      cases h
    | false => exact ⟨rfl,rfl,rfl⟩
  | some event =>
    obtain ⟨first,second,-,-,heq,hfailed⟩ := stoppedFold_split hrefused
    rw [hrefused] at h
    have hstep : (argpStep parser (stoppedFold (argpStep parser) (s,.ok) first).1 event).1.2 = .ok := by
      rw [heq] at h
      exact h
    rw [argpStep,decide_eq_false_iff_not] at hfailed
    exact absurd hstep hfailed

/-- The preliminary pass. -/
theorem parseSourceOption_ready {context : ArgumentParseContext} (h : Ready context.parse) (event : Event) :
    Ready (parseSourceOption event context).1.parse := by
  unfold parseSourceOption
  split
  · exact h.configFilePath _
  · exact h.parseOpt _ _ _
  · exact h.parseOpt _ _ _
  · split
    · exact h.parseOpt _ _ _
    · exact h
  · split
    · exact h.parseOpt _ _ _
    · exact h
  all_goals exact h

theorem selectSettingsSource_ready {context : ArgumentParseContext} (h : Ready context.parse) (line : CommandLine)
    (preliminaryError : ErrorT) : Ready (selectSettingsSource line preliminaryError context).1.parse := by
  unfold selectSettingsSource
  dsimp only
  split
  · exact h.configFilePath _
  split
  · exact h.configFilePath _
  split
  · split
    · exact (h.reported _).configFilePath _
    · exact h
  split
  · exact h.configFilePath _
  · exact h

theorem modesFollow_normalizePaths {s : ParseState} (h : ModesFollow s) : ModesFollow (s.set normalizePaths) := by
  unfold ModesFollow updateLoggerMode ParseState.set normalizePaths at *
  dsimp only at *
  split <;> exact h

theorem selected_ready {s : ParseState} (h : Ready s) (line : CommandLine) (preliminaryError : ErrorT) :
    Ready (selectSettingsSource line preliminaryError (argpParse parseSourceOption line
      { parse := ParseState.set { s with informationModeRequested := false } fun c => { c with configFilePath := none } }).1).1.parse := by
  have hstart : Ready ({ parse := ParseState.set { s with informationModeRequested := false } fun c =>
      { c with configFilePath := none } } : ArgumentParseContext).parse :=
    ⟨⟨h.sound.modes,(h.sound.configFilePath none).valid⟩,h.line⟩
  refine selectSettingsSource_ready ?_ line preliminaryError
  exact argpParse_preserves (P := fun context : ArgumentParseContext => Ready context.parse)
    (fun event _ context hready => parseSourceOption_ready hready event) hstart

theorem readSelected_ready {context : ArgumentParseContext} (h : Ready context.parse) (opening : Text → Opening) :
    Ready (readSelected opening context).parse := by
  unfold readSelected
  split
  · exact h
  · exact readConfigFile_ready h _ _ _

theorem mainPass_ready {s : ParseState} (h : Ready s) (line : CommandLine) (hasEntries : Bool) :
    Ready (argpParse (fun event => parseOpt event.key event.arg ⟨event.quoted,line.bare,hasEntries⟩) line s).1 :=
  argpParse_preserves (P := Ready) (fun _ _ _ hready => hready.parseOpt _ _ _) h

theorem parseArguments_cases {P : ParseState × ParseStatus → Prop} {s : ParseState} (h : Ready s) (opening : Text → Opening)
    (line : CommandLine) (hfailed : ∀ s', Ready s' → P (s',.failure)) (hinformed : ∀ s', Ready s' → P (s',.informational))
    (hsuccess : ∀ s' hasEntries, Ready s' →
      (argpParse (fun event => parseOpt event.key event.arg ⟨event.quoted,line.bare,hasEntries⟩) line s').2 = .ok →
      (argpParse (fun event => parseOpt event.key event.arg ⟨event.quoted,line.bare,hasEntries⟩) line s').1.informationModeRequested = false →
      P ((argpParse (fun event => parseOpt event.key event.arg ⟨event.quoted,line.bare,hasEntries⟩) line s').1.set normalizePaths,.success)) :
    P (parseArguments opening line s) := by
  unfold parseArguments
  dsimp only
  split
  · exact hfailed _ (selected_ready h line _)
  split
  · exact hfailed _ (readSelected_ready (selected_ready h line _) opening)
  · have hready := readSelected_ready (selected_ready h line
      (argpParse parseSourceOption line
        { parse := ParseState.set { s with informationModeRequested := false } fun c => { c with configFilePath := none } }).2) opening
    unfold parseMain
    dsimp only
    split
    · exact hfailed _ (mainPass_ready hready line _)
    rename_i hok
    split
    · exact hinformed _ (mainPass_ready hready line _)
    rename_i hinformation
    refine hsuccess _ _ hready ?_ (Bool.eq_false_iff.mpr hinformation)
    exact not_not.mp fun hne => hok (.inl hne)

end Precizer.Settings
