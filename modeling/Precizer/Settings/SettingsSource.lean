import Precizer.Settings.AcceptedSettings

/-! # The source of the settings

Only a command line that asks for nothing but a settings file, or for nothing at all, has a file
read. The main pass then finds neither options nor operands to apply.
-/
namespace Precizer.Settings
open General

/-- An event that asks for anything but a settings file. -/
def Event.isOther (event : Event) : Bool := event.key ≠ .config ∧ event.key ≠ .finish ∧ event.key ≠ .noArguments

theorem parseSourceOption_other (event : Event) (context : ArgumentParseContext) :
    (parseSourceOption event context).1.hasOtherArguments = (context.hasOtherArguments || event.isOther) := by
  obtain ⟨key,arg,quoted⟩ := event
  cases key <;> simp [parseSourceOption,Event.isOther,ArgumentParseContext.other,applyEarly] <;> split <;> rfl

/-- A command line that names settings files only, or nothing. -/
structure FileOnly (line : CommandLine) : Prop where
  options : ∀ option ∈ line.options, option.1 = .config
  malformed : line.malformed = false
  quoted : line.quoted = false
  operands : line.operands = []

theorem fileOnly_of_bare {line : CommandLine} (h : line.bare = true) : FileOnly line := by
  unfold CommandLine.bare at h
  simp only [Bool.and_eq_true,List.isEmpty_iff,Bool.not_eq_true'] at h
  obtain ⟨⟨⟨hoptions,hmalformed⟩,hquoted⟩,hoperands⟩ := h
  refine ⟨?_,hmalformed,hquoted,hoperands⟩
  rw [hoptions]
  exact fun option hoption => absurd hoption List.not_mem_nil

theorem FileOnly.events {line : CommandLine} (h : FileOnly line) :
    ∀ event ∈ line.events, event.quoted = false ∧ (event.key = .config ∨ event.key = .noArguments ∨ event.key = .finish) := by
  intro event hevent
  rw [CommandLine.events,h.malformed,h.quoted,h.operands,if_neg Bool.false_ne_true,if_pos rfl] at hevent
  simp only [List.map_nil,List.nil_append,List.mem_append,List.mem_map,List.mem_singleton] at hevent
  rcases hevent with ⟨option,hoption,rfl⟩ | rfl | rfl
  · exact ⟨rfl,.inl (h.options option hoption)⟩
  · exact ⟨rfl,.inr (.inl rfl)⟩
  · exact ⟨rfl,.inr (.inr rfl)⟩

/-- Once another argument was seen, it stays seen. -/
theorem otherArguments_of_accepted {events : List Event} {r : ArgumentParseContext × ErrorT}
    (haccepted : (stoppedFold (argpStep parseSourceOption) r events).2 = none)
    (hother : (stoppedFold (argpStep parseSourceOption) r events).1.1.hasOtherArguments = false) :
    r.1.hasOtherArguments = false ∧ ∀ event ∈ events, event.isOther = false := by
  induction events generalizing r with
  | nil => exact ⟨hother,fun event hevent => absurd hevent List.not_mem_nil⟩
  | cons event events ih =>
    obtain ⟨-,heq⟩ := stoppedFold_cons_accepted haccepted
    rw [heq] at haccepted hother
    obtain ⟨hseen,hevents⟩ := ih haccepted hother
    have hstep := parseSourceOption_other event r.1
    rw [argpStep,hstep,Bool.or_eq_false_iff] at hseen
    exact ⟨hseen.1,List.forall_mem_cons.mpr ⟨hseen.2,hevents⟩⟩

theorem fileOnly_of_preliminary {line : CommandLine} {context : ArgumentParseContext}
    (hok : (argpParse parseSourceOption line context).2 = .ok)
    (hother : (argpParse parseSourceOption line context).1.hasOtherArguments = false) : FileOnly line := by
  obtain ⟨hmalformed,haccepted,hstate⟩ := argpParse_ok hok
  rw [hstate] at hother
  obtain ⟨-,hevents⟩ := otherArguments_of_accepted haccepted hother
  rw [CommandLine.events,hmalformed,if_neg Bool.false_ne_true,← List.append_assoc] at haccepted hevents
  obtain ⟨-,hlast,-⟩ := stoppedFold_append_accepted haccepted
  obtain ⟨hfinish,-⟩ := stoppedFold_cons_accepted hlast
  refine ⟨?_,hmalformed,?_,?_⟩
  · intro option hoption
    have hevent : (⟨option.1,option.2,false⟩ : Event).isOther = false :=
      hevents _ (List.mem_append_left _ (List.mem_append_left _ (List.mem_map.mpr ⟨option,hoption,rfl⟩)))
    have hnamed := line.named option hoption
    simp only [Event.isOther,Key.isOption,decide_eq_false_iff_not,decide_eq_true_eq] at hevent hnamed
    tauto
  · cases hquoted : line.quoted with
    | false => rfl
    | true =>
      rw [hquoted] at hfinish
      cases hfinish
  · by_contra hne
    obtain ⟨operand,hoperand⟩ := List.exists_mem_of_ne_nil _ hne
    have hevent : (⟨.argument,some operand,line.quoted⟩ : Event).isOther = false := by
      refine hevents _ (List.mem_append_left _ (List.mem_append_right _ (List.mem_append_left _ ?_)))
      exact List.mem_map.mpr ⟨operand,hoperand,rfl⟩
    cases hevent

/-- The checks at the end of the main pass leave the settings alone. -/
theorem parseOpt_check {event : Event} (hkey : event.key = .config ∨ event.key = .noArguments ∨ event.key = .finish)
    {state : ArgpState} (hstate : state.quoted = false) (s : ParseState) : (parseOpt event.key event.arg state s).1.config = s.config := by
  unfold parseOpt
  rw [hstate,if_neg (fun h => Bool.false_ne_true h.1)]
  rcases hkey with hkey | hkey | hkey <;> rw [hkey]
  · rfl
  · show (parseNoArguments state s).1.config = s.config
    unfold parseNoArguments
    split_ifs <;> rfl
  · show (parseFinish s).1.config = s.config
    unfold parseFinish
    split_ifs <;> first | rfl | exact (warnings_config s).1

theorem FileOnly.preliminary {line : CommandLine} (h : FileOnly line) (context : ArgumentParseContext) :
    ∃ path, (argpParse parseSourceOption line context).1.parse.config = { context.parse.config with configFilePath := path } := by
  refine argpParse_preserves (P := fun reached : ArgumentParseContext =>
    ∃ path, reached.parse.config = { context.parse.config with configFilePath := path }) ?_ ⟨_,rfl⟩
  rintro ⟨key,arg,quoted⟩ hevent reached ⟨path,hpath⟩
  obtain ⟨-,hkey⟩ := h.events _ hevent
  rcases hkey with hkey | hkey | hkey <;> cases hkey
  · refine ⟨arg,?_⟩
    rw [parseSourceOption,set_config,hpath]
  · exact ⟨path,hpath⟩
  · exact ⟨path,hpath⟩

theorem preliminary_of_bare {line : CommandLine} (h : line.bare = true) {context : ArgumentParseContext}
    (hpath : context.parse.config.configFilePath = none) :
    (argpParse parseSourceOption line context).1.parse.config.configFilePath = none := by
  have honly := fileOnly_of_bare h
  unfold CommandLine.bare at h
  simp only [Bool.and_eq_true,List.isEmpty_iff] at h
  obtain ⟨⟨⟨hoptions,-⟩,-⟩,-⟩ := h
  refine argpParse_preserves (P := fun reached : ArgumentParseContext => reached.parse.config.configFilePath = none) ?_ hpath
  rintro ⟨key,arg,quoted⟩ hevent reached hreached
  rw [CommandLine.events,honly.malformed,honly.operands,hoptions,if_neg Bool.false_ne_true,if_pos rfl] at hevent
  simp only [List.map_nil,List.nil_append,List.mem_append,List.mem_singleton] at hevent
  rcases hevent with hevent | hevent <;> cases hevent <;> exact hreached

theorem selected_file {line : CommandLine} {context : ArgumentParseContext} {path : Text}
    (hpath : context.parse.config.configFilePath = none)
    (hselected : (selectSettingsSource line (argpParse parseSourceOption line context).2
      (argpParse parseSourceOption line context).1).2 = true)
    (hfile : (selectSettingsSource line (argpParse parseSourceOption line context).2
      (argpParse parseSourceOption line context).1).1.parse.config.configFilePath = some path) :
    FileOnly line ∧ (argpParse parseSourceOption line context).2 = .ok ∧
      (selectSettingsSource line (argpParse parseSourceOption line context).2
        (argpParse parseSourceOption line context).1).1.configRequired = !line.bare ∧
      (selectSettingsSource line (argpParse parseSourceOption line context).2
        (argpParse parseSourceOption line context).1).1.parse.config =
          { context.parse.config with configFilePath := some path } := by
  unfold selectSettingsSource at hselected hfile ⊢
  dsimp only at hselected hfile ⊢
  by_cases herror : (argpParse parseSourceOption line context).2 ≠ .ok
  · rw [if_pos herror] at hfile
    cases hfile
  rw [if_neg herror] at hselected hfile ⊢
  have hok := not_not.mp herror
  by_cases hinformation : (argpParse parseSourceOption line context).1.informationModeRequested = true
  · rw [if_pos hinformation] at hfile
    cases hfile
  rw [if_neg hinformation] at hselected hfile ⊢
  by_cases hnamed : (argpParse parseSourceOption line context).1.parse.config.configFilePath ≠ none
  · rw [if_pos hnamed] at hselected hfile ⊢
    by_cases hother : (argpParse parseSourceOption line context).1.hasOtherArguments = true
    · rw [if_pos hother] at hselected
      cases hselected
    rw [if_neg hother] at hfile ⊢
    have honly := fileOnly_of_preliminary hok (Bool.eq_false_iff.mpr hother)
    have hbare : line.bare = false := by
      refine Bool.eq_false_iff.mpr fun hbare => ?_
      exact hnamed (preliminary_of_bare hbare hpath)
    obtain ⟨set,hset⟩ := honly.preliminary context
    refine ⟨honly,hok,by rw [hbare]; rfl,?_⟩
    rw [hset] at hfile ⊢
    rw [← hfile]
  · rw [if_neg hnamed] at hselected hfile ⊢
    by_cases hbare : line.bare = true
    · rw [if_pos hbare] at hfile ⊢
      have honly := fileOnly_of_bare hbare
      obtain ⟨set,hset⟩ := honly.preliminary context
      refine ⟨honly,hok,by rw [hbare]; rfl,?_⟩
      cases hfile
      rw [setConfigFilePath,set_config,hset]
    · rw [if_neg hbare] at hfile
      exact absurd hfile (fun heq => hnamed (by rw [heq]; exact Option.some_ne_none path))

/-- The main pass leaves the settings of such a line alone but for the normalization. -/
theorem FileOnly.parseMain {line : CommandLine} (h : FileOnly line) (hasEntries : Bool) (s : ParseState) :
    (parseMain line .ok hasEntries s).1.config =
      if (parseMain line .ok hasEntries s).2 = .success then normalizePaths s.config else s.config := by
  have hkept : (argpParse (fun event => parseOpt event.key event.arg ⟨event.quoted,line.bare,hasEntries⟩) line s).1.config =
      s.config := by
    refine argpParse_preserves (P := fun reached : ParseState => reached.config = s.config) ?_ rfl
    intro event hevent reached hreached
    obtain ⟨hquoted,hkey⟩ := h.events event hevent
    rw [parseOpt_check hkey hquoted]
    exact hreached
  unfold Settings.parseMain
  dsimp only
  split
  · exact hkept
  split
  · exact hkept
  · rw [set_config,hkept]
    rfl

/-- The context of the preliminary pass. -/
def startContext (s : ParseState) : ArgumentParseContext :=
  { parse := ParseState.set { s with informationModeRequested := false } fun c => { c with configFilePath := none } }

/-- What the preliminary pass selects. -/
def selectedSource (line : CommandLine) (s : ParseState) : ArgumentParseContext × Bool :=
  selectSettingsSource line (argpParse parseSourceOption line (startContext s)).2
    (argpParse parseSourceOption line (startContext s)).1

theorem parseArguments_unselected {line : CommandLine} {s : ParseState} (h : (selectedSource line s).2 = false)
    (opening : Text → Opening) : parseArguments opening line s = ((selectedSource line s).1.parse,.failure) := if_pos h

theorem parseArguments_selected {line : CommandLine} {s : ParseState} (h : (selectedSource line s).2 = true)
    (opening : Text → Opening) :
    parseArguments opening line s =
      if (readSelected opening (selectedSource line s).1).success = false then
        ((readSelected opening (selectedSource line s).1).parse,.failure)
      else parseMain line (argpParse parseSourceOption line (startContext s)).2
        (readSelected opening (selectedSource line s).1).hasEntries (readSelected opening (selectedSource line s).1).parse := by
  refine if_neg ?_
  change ¬(selectedSource line s).2 = false
  rw [h]
  exact fun heq => by cases heq

end Precizer.Settings
