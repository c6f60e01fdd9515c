import Precizer.Settings.ConfigEntries

/-! # Declared settings

What the assignments of a file declare: for a setting with one value the last of its entries
decides, the entries of a list accumulate, and a setting without an entry keeps its value. The
verdict on a file is that on its entries, one by one.
-/
namespace Precizer.Settings
open General Database Logger

/-- The settings that a boolean entry switches, with the keys of their entries. -/
def flagFields : List (Key × (Config → Bool)) := [
  (.rehashLocked,Config.rehashLocked),
  (.dbDropIgnored,Config.dbDropIgnored),
  (.dbDropInaccessible,Config.dbDropInaccessible),
  (.watchTimestamps,Config.watchTimestamps),
  (.dryRun,Config.dryRun),
  (.oneFileSystem,Config.oneFileSystem),
  (.force,Config.force),
  (.update,Config.update),
  (.silent,Config.silent),
  (.quietIgnored,Config.quietIgnored),
  (.verbose,Config.verbose),
  (.progress,Config.progress),
  (.progress,Config.showRememberedMessagesAtExit)]

/-- The settings that entries extend; the database paths are those of `compare`. -/
def listFields : List (Key × (Config → List Text)) := [
  (.ignore,Config.ignore),
  (.includePath,Config.includePaths),
  (.lockChecksum,Config.lockChecksum),
  (.path,Config.roots),
  (.argument,Config.dbFilePaths)]

/-- What the last entry of a key gives, and the value that stays without one. -/
def lastOf {τ : Type} (key : Key) (read : Option Text → Option τ) (assignments : List Assignment) (value : τ) : τ :=
  ((assignments.filterMap fun a => if a.1 = key then read a.2 else none).getLast?).getD value

/-- What all entries of a key give, in order. -/
def allOf (key : Key) (assignments : List Assignment) : List Text :=
  assignments.flatMap fun a => if a.1 = key then [a.2.getD []] else []

def namesCategory (category : CompareCategory) (arg : Option Text) : Bool :=
  ((compareFilterOf {} (arg.getD [])).getD {}).contains category

/-- The settings are the declared ones. -/
structure Declared (assignments : List Assignment) (c₀ c : Config) : Prop where
  flags : ∀ field ∈ flagFields, field.2 c = lastOf field.1 (fun arg => some (flagIn true arg)) assignments (field.2 c₀)
  lists : ∀ field ∈ listFields, field.2 c = field.2 c₀ ++ allOf field.1 assignments
  dryRunWithChecksums : c.dryRunWithChecksums =
    lastOf .dryRun (fun arg => some (flagIn true arg && arg.isSome)) assignments c₀.dryRunWithChecksums
  maxdepth : c.maxdepth = lastOf .maxdepth (fun arg => maxdepthOf (arg.getD [])) assignments c₀.maxdepth
  checkLevel : c.dbCheckLevel = lastOf .checkLevel (fun arg => checkLevelOf (arg.getD [])) assignments c₀.dbCheckLevel
  output : c.output = lastOf .output (fun arg => outputOf (arg.getD [])) assignments c₀.output
  color : c.colorMode = lastOf .color (fun arg => colorOf (arg.getD [])) assignments c₀.colorMode
  database : c.dbPrimaryFilePath = lastOf .database (fun arg => some (arg.getD [])) assignments c₀.dbPrimaryFilePath
  databaseName : c.dbFileName = lastOf .database (fun arg => some (basename (arg.getD []))) assignments c₀.dbFileName
  compare : c.compare = (c₀.compare || assignments.any fun a => a.1 = .argument)
  colorSpecified : c.colorSpecified = (c₀.colorSpecified || assignments.any fun a => a.1 = .color)
  includeSpecified : c.includeSpecified = (c₀.includeSpecified || assignments.any fun a => a.1 = .includePath)
  compareFilter : ∀ category, c.compareFilter.contains category =
    (c₀.compareFilter.contains category || assignments.any fun a => a.1 = .compareFilter && namesCategory category a.2)

section
variable {assignments : List Assignment} (hfile : ∀ a ∈ assignments, FileAssignment a)
include hfile

theorem foldl_lastOf {τ : Type} {part : Config → τ} {key : Key} {read : Option Text → Option τ}
    (hstep : ∀ c a, FileAssignment a → part (assignEntry c a) = (if a.1 = key then read a.2 else none).getD (part c))
    (c : Config) : part (assignments.foldl assignEntry c) = lastOf key read assignments (part c) :=
  foldl_last (fun c a ha => hstep c a (hfile a ha)) c

theorem foldl_any (part : Config → Bool) {switches : Assignment → Bool}
    (hstep : ∀ c a, FileAssignment a → part (assignEntry c a) = (part c || switches a)) (c : Config) :
    part (assignments.foldl assignEntry c) = (part c || assignments.any switches) :=
  foldl_switched (fun c a ha => hstep c a (hfile a ha)) c

end

theorem flag_assignEntry {field : Key × (Config → Bool)} (h : field ∈ flagFields) (c : Config) (a : Assignment)
    (ha : FileAssignment a) :
    field.2 (assignEntry c a) = (if a.1 = field.1 then some (flagIn true a.2) else none).getD (field.2 c) := by
  obtain ⟨key,arg⟩ := a
  simp only [flagFields,List.mem_cons,List.not_mem_nil,or_false] at h
  rcases h with rfl | rfl | rfl | rfl | rfl | rfl | rfl | rfl | rfl | rfl | rfl | rfl | rfl <;> cases key <;>
    first | rfl | exact absurd rfl ha.notAlias

theorem list_assignEntry {field : Key × (Config → List Text)} (h : field ∈ listFields) (c : Config) (a : Assignment) :
    field.2 (assignEntry c a) = field.2 c ++ if a.1 = field.1 then [a.2.getD []] else [] := by
  obtain ⟨key,arg⟩ := a
  simp only [listFields,List.mem_cons,List.not_mem_nil,or_false] at h
  rcases h with rfl | rfl | rfl | rfl | rfl <;> cases key <;> first | rfl | exact (List.append_nil _).symm

theorem contains_compareFilterOf (filter : CompareFilter) (arg : Text) (category : CompareCategory) :
    ((compareFilterOf filter arg).getD filter).contains category =
      (filter.contains category || ((compareFilterOf {} arg).getD {}).contains category) := by
  unfold compareFilterOf
  split_ifs <;> cases category <;> simp [CompareFilter.contains]

theorem declared_foldl {assignments : List Assignment} (hfile : ∀ a ∈ assignments, FileAssignment a) (c : Config) :
    Declared assignments c (assignments.foldl assignEntry c) where
  flags field h := foldl_lastOf hfile (flag_assignEntry h) c
  lists field h := foldl_collected (fun c a _ => list_assignEntry h c a) c
  dryRunWithChecksums := by
    refine foldl_lastOf hfile (fun c a _ => ?_) c
    obtain ⟨key,arg⟩ := a
    cases key <;> first | rfl | simp [assignEntry,assign]
  maxdepth := by
    refine foldl_lastOf hfile (fun c a _ => ?_) c
    obtain ⟨key,arg⟩ := a
    cases key <;> rfl
  checkLevel := by
    refine foldl_lastOf hfile (fun c a _ => ?_) c
    obtain ⟨key,arg⟩ := a
    cases key <;> rfl
  output := by
    refine foldl_lastOf hfile (fun c a _ => ?_) c
    obtain ⟨key,arg⟩ := a
    cases key <;> rfl
  color := by
    refine foldl_lastOf hfile (fun c a _ => ?_) c
    obtain ⟨key,arg⟩ := a
    cases key <;> rfl
  database := by
    refine foldl_lastOf hfile (fun c a _ => ?_) c
    obtain ⟨key,arg⟩ := a
    cases key <;> rfl
  databaseName := by
    refine foldl_lastOf hfile (fun c a _ => ?_) c
    obtain ⟨key,arg⟩ := a
    cases key <;> rfl
  compare := by
    refine foldl_any hfile Config.compare (fun c a ha => ?_) c
    obtain ⟨key,arg⟩ := a
    cases key <;> first | exact absurd rfl ha.notCompare | simp [assignEntry,assign]
  colorSpecified := by
    refine foldl_any hfile Config.colorSpecified (fun c a _ => ?_) c
    obtain ⟨key,arg⟩ := a
    cases key <;> simp [assignEntry,assign]
  includeSpecified := by
    refine foldl_any hfile Config.includeSpecified (fun c a _ => ?_) c
    obtain ⟨key,arg⟩ := a
    cases key <;> simp [assignEntry,assign]
  compareFilter category := by
    refine foldl_any hfile (fun c => c.compareFilter.contains category) (fun c a _ => ?_) c
    obtain ⟨key,arg⟩ := a
    by_cases hkey : key = .compareFilter
    · subst hkey
      simpa [assignEntry,assign,namesCategory] using contains_compareFilterOf c.compareFilter (arg.getD []) category
    · cases key <;> first | exact absurd rfl hkey | simp [assignEntry,assign]

/-- What an entry means; a section header means nothing. -/
def Call.assignment (call : Call) : Option Assignment := call.entry.bind fun entry => entryAssignment entry.1 entry.2

/-- The reader accepts the call. -/
def Call.Meaningful (call : Call) : Prop := call.entry = none ∨ call.assignment.isSome = true

instance : DecidablePred Call.Meaningful := fun _ => inferInstanceAs (Decidable (_ ∨ _))

theorem stoppedFold_readConfigEntry {context : ConfigFileReadContext} (h : BetweenEntries context) {calls : List Call}
    (hlines : ∀ call ∈ calls, 0 < call.lineno) :
    match calls.find? (fun call => ¬call.Meaningful) with
    | none =>
      (stoppedFold readConfigEntry context calls).2 = none ∧
        (stoppedFold readConfigEntry context calls).1.failed = context.failed ∧
        (stoppedFold readConfigEntry context calls).1.parse.config =
          (calls.filterMap Call.assignment).foldl assignEntry context.parse.config ∧
        (stoppedFold readConfigEntry context calls).1.parse.diagnostics = context.parse.diagnostics
    | some call =>
      (stoppedFold readConfigEntry context calls).2 = some call ∧
        (stoppedFold readConfigEntry context calls).1.failed = true ∧
        ∃ text, (stoppedFold readConfigEntry context calls).1.parse.diagnostics =
          context.parse.diagnostics ++ [fileError call.lineno text] := by
  induction calls generalizing context with
  | nil => exact ⟨rfl,rfl,rfl,rfl⟩
  | cons call calls ih =>
    have hrest := fun c hc => hlines c (List.mem_cons_of_mem call hc)
    cases hentry : call.entry with
    | none =>
      have hmeaningful : call.Meaningful := .inl hentry
      have hread : readConfigEntry context call = (context,true) := by
        rw [readConfigEntry,hentry]
      have hnone : call.assignment = none := by
        rw [Call.assignment,hentry]
        rfl
      rw [List.find?_cons_of_neg (by simp [hmeaningful]),stoppedFold_accepted (by rw [hread]),hread,
        List.filterMap_cons_none hnone]
      exact ih h hrest
    | some entry =>
      obtain ⟨name,value⟩ := entry
      have hassignment : call.assignment = entryAssignment name value := by
        rw [Call.assignment,hentry]
        rfl
      have hcases := readConfigEntry_cases h (hlines call List.mem_cons_self) hentry
      cases hmeans : entryAssignment name value with
      | none =>
        rw [hmeans] at hcases hassignment
        have hmeaningless : ¬call.Meaningful := by
          rintro (hnone | hsome)
          · rw [hentry] at hnone
            cases hnone
          · rw [hassignment] at hsome
            cases hsome
        rw [List.find?_cons_of_pos (by simp [hmeaningless]),stoppedFold_refused hcases.refused]
        exact ⟨rfl,hcases.failed,hcases.diagnostic⟩
      | some a =>
        rw [hmeans] at hcases hassignment
        have hmeaningful : call.Meaningful := .inr (by rw [hassignment]; rfl)
        have hbetween : BetweenEntries (readConfigEntry context call).1 := by
          have hkept : (assignEntry context.parse.config a).configFileErrorLine = context.parse.config.configFileErrorLine := by
            obtain ⟨key,arg⟩ := a
            cases key <;> rfl
          rw [BetweenEntries,hcases.config,hkept]
          exact h
        have hinduction := ih hbetween hrest
        rw [hcases.failed,hcases.config,hcases.diagnostics] at hinduction
        rw [List.find?_cons_of_neg (by simp [hmeaningful]),stoppedFold_accepted hcases.accepted,
          List.filterMap_cons_some hassignment,List.foldl_cons]
        exact hinduction

end Precizer.Settings
