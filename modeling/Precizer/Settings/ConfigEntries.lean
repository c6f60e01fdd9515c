import Precizer.Settings.Assignments

/-! # Entries of a settings file

An entry means an assignment or is refused, whatever was read before it. The settings of an
accepted file are those that its assignments leave, one after the other; a refused file has
exactly one diagnostic, which names a line.
-/
namespace Precizer.Settings
open General Logger

def optionAssignment (option : ArgpOption) (argument : Option Text) : Option Assignment :=
  match option.key with
  | some .compare => if argument.getD [] = [] then none else some (.argument,argument)
  | some key => if takesArgument true true (key,argument) then some (key,argument) else none
  | none => none

def entryAssignment (name value : Text) : Option Assignment :=
  if name ∈ cliOnly then none
  else
    (findOption name none options).bind fun option =>
      (unquote value).bind fun value => (argumentOf option value).bind fun argument => optionAssignment option argument

/-- A database path selects the comparison first. -/
def assignEntry (c : Config) (a : Assignment) : Config :=
  assign true a (if a.1 = .argument then { c with compare := true } else c)

/-- The names of a table with the entries that they stand for. -/
def resolved (option : Option ArgpOption) : List ArgpOption → List (Option Text × Option ArgpOption)
  | [] => []
  | entry :: rest =>
    (entry.name,if entry.isAlias then option else some entry) :: resolved (if entry.isAlias then option else some entry) rest

theorem findOption_mem {name : Text} {option : Option ArgpOption} {entries : List ArgpOption} {found : ArgpOption}
    (h : findOption name option entries = some found) : (some name,some found) ∈ resolved option entries := by
  induction entries generalizing option with
  | nil => cases h
  | cons entry rest ih =>
    rw [findOption] at h
    split at h
    · rename_i hname
      rw [resolved,hname,h]
      exact List.mem_cons_self
    · exact List.mem_cons_of_mem _ (ih h)

theorem key_of_findOption {name : Text} {option : ArgpOption} (h : findOption name none options = some option) :
    ∃ key, option.key = some key ∧ key ≠ .noArguments ∧ key ≠ .finish ∧ key ≠ .argument ∧ key ≠ .startDeviceOnly := by
  have htable : ∀ entry ∈ resolved none options, entry.1.isSome = true →
      ∃ key, (entry.2.bind ArgpOption.key) = some key ∧ key ≠ .noArguments ∧ key ≠ .finish ∧ key ≠ .argument ∧
        key ≠ .startDeviceOnly := by
    decide
  exact htable _ (findOption_mem h) rfl

/-- In a file a path stands for `compare`, and an alias for its option. -/
structure FileAssignment (a : Assignment) : Prop where
  notCompare : a.1 ≠ .compare
  notAlias : a.1 ≠ .startDeviceOnly

theorem fileAssignment_of_entry {name value : Text} {a : Assignment} (h : entryAssignment name value = some a) :
    FileAssignment a := by
  unfold entryAssignment at h
  split at h
  · cases h
  · obtain ⟨option,hfind,h⟩ := Option.bind_eq_some_iff.mp h
    obtain ⟨text,-,h⟩ := Option.bind_eq_some_iff.mp h
    obtain ⟨argument,-,h⟩ := Option.bind_eq_some_iff.mp h
    obtain ⟨key,hkey,-,-,-,halias⟩ := key_of_findOption hfind
    unfold optionAssignment at h
    rw [hkey] at h
    split at h
    · split at h
      · cases h
      · cases h
        exact ⟨fun heq => (by cases heq),fun heq => (by cases heq)⟩
    · rename_i key' hcompare hsome
      cases hsome
      split at h
      · cases h
        exact ⟨fun heq => hcompare heq,halias⟩
      · cases h
    · cases h

theorem assign_errorLine (file : Bool) (a : Assignment) (c : Config) (line : ℤ) :
    assign file a { c with configFileErrorLine := line } = { assign file a c with configFileErrorLine := line } := by
  obtain ⟨key,arg⟩ := a
  cases key <;> first | rfl | (simp only [assign]; split <;> rfl)

def BetweenEntries (context : ConfigFileReadContext) : Prop := context.parse.config.configFileErrorLine = -1

structure Accepted (a : Assignment) (context : ConfigFileReadContext) (r : ConfigFileReadContext × Bool) : Prop where
  accepted : r.2 = true
  hasEntries : r.1.hasEntries = true
  failed : r.1.failed = context.failed
  config : r.1.parse.config = assignEntry context.parse.config a
  diagnostics : r.1.parse.diagnostics = context.parse.diagnostics

structure Refused (line : ℕ) (context : ConfigFileReadContext) (r : ConfigFileReadContext × Bool) : Prop where
  refused : r.2 = false
  failed : r.1.failed = true
  diagnostic : ∃ text, r.1.parse.diagnostics = context.parse.diagnostics ++ [fileError line text]
  between : BetweenEntries r.1

theorem refused_refuse {context : ConfigFileReadContext} (h : BetweenEntries context) (line : ℕ) (text : Text) :
    Refused line context (context.refuse line text) := ⟨rfl,rfl,⟨text,rfl⟩,h⟩

theorem Refused.counted {line : ℕ} {context : ConfigFileReadContext} {r : ConfigFileReadContext × Bool}
    (h : Refused line { context with hasEntries := true } r) : Refused line context r :=
  ⟨h.refused,h.failed,h.diagnostic,h.between⟩

theorem Accepted.counted {a : Assignment} {context : ConfigFileReadContext} {r : ConfigFileReadContext × Bool}
    (h : Accepted a { context with hasEntries := true } r) : Accepted a context r :=
  ⟨h.accepted,h.hasEntries,h.failed,h.config,h.diagnostics⟩

theorem applyEntry_cases {context : ConfigFileReadContext} (h : BetweenEntries context) (hentries : context.hasEntries = true)
    {line : ℕ} (hline : 0 < line) {key : Key} (hkey : ¬key.IsEvent) (argument : Option Text) :
    if takesArgument true context.parse.config.compare (key,argument) then
      (applyEntry line key argument context).2 = true ∧ (applyEntry line key argument context).1.hasEntries = true ∧
        (applyEntry line key argument context).1.failed = context.failed ∧
        (applyEntry line key argument context).1.parse.config = assign true (key,argument) context.parse.config ∧
        (applyEntry line key argument context).1.parse.diagnostics = context.parse.diagnostics
    else Refused line context (applyEntry line key argument context) := by
  have hread : ReadFrom true (context.parse.set fun c => { c with configFileErrorLine := line }) := Int.natCast_pos.mpr hline
  have hquoted : ({} : ArgpState).quoted = false := rfl
  have hcases := parseOpt_cases hkey hread argument hquoted
  have hcompare : (context.parse.set fun c => { c with configFileErrorLine := line }).config.compare =
      context.parse.config.compare := rfl
  rw [hcompare] at hcases
  unfold applyEntry
  dsimp only
  split at hcases
  · rename_i htakes
    rw [if_pos htakes,if_pos hcases.ok]
    refine ⟨rfl,hentries,rfl,?_,hcases.diagnostics⟩
    rw [set_config,hcases.config,set_config,assign_errorLine]
    have hsame : assign true (key,argument) context.parse.config =
        { assign true (key,argument) context.parse.config with configFileErrorLine := -1 } := by
      rw [← assign_errorLine]
      congr 1
      rw [← h]
    exact hsame.symm
  · rename_i htakes
    obtain ⟨text,hdiagnostic⟩ := hcases.diagnostic
    have hnot : ¬(parseOpt key argument {} (context.parse.set fun c => { c with configFileErrorLine := line })).2 = .ok := by
      rw [hcases.invalid]
      exact fun hok => by cases hok
    rw [if_neg htakes,if_neg hnot]
    exact ⟨rfl,rfl,⟨text,hdiagnostic⟩,rfl⟩

theorem takesArgument_compare {a : Assignment} (h : a.1 ≠ .argument) (file compare : Bool) :
    takesArgument file compare a = takesArgument file true a := by
  obtain ⟨key,arg⟩ := a
  cases key <;> first | rfl | exact absurd rfl h

theorem applyValue_cases {context : ConfigFileReadContext} (h : BetweenEntries context) (hentries : context.hasEntries = true)
    {line : ℕ} (hline : 0 < line) {option : ArgpOption} {key : Key} (hkey : option.key = some key)
    (hevent : ¬key.IsEvent) (hargument : key ≠ .argument) (argument : Option Text) :
    match optionAssignment option argument with
    | some a => Accepted a context (applyValue line option argument context)
    | none => Refused line context (applyValue line option argument context) := by
  by_cases hcompare : key = .compare
  · subst hcompare
    have hmeans : optionAssignment option argument =
        if argument.getD [] = [] then none else some (.argument,argument) := by
      rw [optionAssignment,hkey]
    have happlied : applyValue line option argument context =
        if argument.getD [] = [] then context.refuse line (ascii "Database path for 'compare' must not be empty")
        else applyEntry line .argument argument
          { context with parse := context.parse.set fun c => { c with compare := true } } := by
      rw [applyValue,hkey]
    rw [hmeans,happlied]
    by_cases hempty : argument.getD [] = []
    · rw [if_pos hempty,if_pos hempty]
      exact refused_refuse h line _
    · rw [if_neg hempty,if_neg hempty]
      have hevent : ¬Key.IsEvent .argument := by
        rintro (heq | heq) <;> cases heq
      have hcompared : BetweenEntries { context with parse := context.parse.set fun c => { c with compare := true } } := h
      have hcases := applyEntry_cases hcompared hentries hline hevent argument
      have htakes : takesArgument true true (.argument,argument) = true := rfl
      obtain ⟨haccepted,hhas,hfailed,hconfig,hdiagnostics⟩ := (if_pos htakes).mp hcases
      exact ⟨haccepted,hhas,hfailed,hconfig,hdiagnostics⟩
  · have hmeans : optionAssignment option argument =
        if takesArgument true true (key,argument) then some (key,argument) else none := by
      rw [optionAssignment,hkey]
      cases key <;> first | rfl | exact absurd rfl hcompare
    have happlied : applyValue line option argument context = applyEntry line key argument context := by
      rw [applyValue,hkey]
      cases key <;> first | rfl | exact absurd rfl hcompare
    have hcases := applyEntry_cases h hentries hline hevent argument
    rw [takesArgument_compare hargument] at hcases
    rw [hmeans,happlied]
    split at hcases
    · rename_i htakes
      rw [if_pos htakes]
      obtain ⟨haccepted,hhas,hfailed,hconfig,hdiagnostics⟩ := hcases
      refine ⟨haccepted,hhas,hfailed,?_,hdiagnostics⟩
      rw [hconfig,assignEntry,if_neg hargument]
    · rename_i htakes
      rw [if_neg htakes]
      exact hcases

theorem readConfigEntry_cases {context : ConfigFileReadContext} (h : BetweenEntries context) {call : Call}
    (hline : 0 < call.lineno) {name value : Text} (hentry : call.entry = some (name,value)) :
    match entryAssignment name value with
    | some a => Accepted a context (readConfigEntry context call)
    | none => Refused call.lineno context (readConfigEntry context call) := by
  have hcounted : BetweenEntries { context with hasEntries := true } := h
  unfold readConfigEntry entryAssignment
  rw [hentry]
  dsimp only
  by_cases hcli : name ∈ cliOnly
  · rw [if_pos hcli,if_pos hcli]
    exact refused_refuse h _ _
  rw [if_neg hcli,if_neg hcli]
  cases hfind : findOption name none options with
  | none => exact refused_refuse h _ _
  | some option =>
    obtain ⟨key,hkey,hnone,hfinish,hargument,-⟩ := key_of_findOption hfind
    have hevent : ¬key.IsEvent := by
      rintro (heq | heq)
      · exact hnone heq
      · exact hfinish heq
    rw [Option.bind_some]
    cases hunquote : unquote value with
    | none => exact (refused_refuse hcounted _ _).counted
    | some text =>
      rw [Option.bind_some]
      dsimp only
      cases hprepared : argumentOf option text with
      | none => exact (refused_refuse hcounted _ _).counted
      | some argument =>
        rw [Option.bind_some]
        have hcases := applyValue_cases hcounted rfl hline hkey hevent hargument argument
        cases hmeans : optionAssignment option argument with
        | none =>
          rw [hmeans] at hcases
          exact hcases.counted
        | some a =>
          rw [hmeans] at hcases
          exact hcases.counted

end Precizer.Settings
