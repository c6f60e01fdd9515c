import Precizer.General.CommutingFolds
import Precizer.Settings.SettingsSource

/-! # The command line of a settings file

Every assignment that a settings file makes can be made on the command line. A flag can only be
switched on there, and a database is an operand. The command line of a file keeps the last entry
of every flag, if it is on, and selects the comparison before anything else.
-/
namespace Precizer.Settings
open General Logger

def Key.isSwitch (key : Key) : Bool := flagFields.any fun field => field.1 = key

/-- The options that are applied before the settings are selected. -/
def Key.isEarly (key : Key) : Bool := key = .silent ∨ key = .verbose ∨ key = .output ∨ key = .color

def Key.isSetting (key : Key) : Bool :=
  key.isOption && key ≠ .help && key ≠ .questionMark && key ≠ .usage && key ≠ .version

/-- A flag counts if it is on and no later entry of its key decides. -/
def effective : List Assignment → List Assignment
  | [] => []
  | a :: rest =>
    if a.1.isSwitch && (rest.any (fun b => b.1 = a.1) || !flagIn true a.2) then effective rest else a :: effective rest

def namesDatabase (a : Assignment) : Bool := a.1 = .argument

def settingsOf (assignments : List Assignment) : List Assignment :=
  effective (assignments.filter fun a => !namesDatabase a)

def databasesOf (assignments : List Assignment) : List Text :=
  (assignments.filter namesDatabase).map fun a => a.2.getD []

def lineOptions (assignments : List Assignment) : List Assignment :=
  (if databasesOf assignments = [] then [] else [(.compare,none)]) ++ settingsOf assignments

def lineAssign (c : Config) (a : Assignment) : Config := assign false a c

structure EntryAssignment (a : Assignment) : Prop where
  file : FileAssignment a
  known : a.1 = .argument ∨ (a.1.isSetting = true ∧ a.1 ≠ .config)
  taken : takesArgument true true a = true
  path : a.1 = .argument → a.2.getD [] ≠ []

theorem setting_of_findOption {name : Text} {option : ArgpOption} (hcli : name ∉ cliOnly)
    (h : findOption name none options = some option) :
    ∃ key, option.key = some key ∧ key.isSetting = true ∧ key ≠ .config := by
  have htable : ∀ entry ∈ resolved none options, ∀ name, entry.1 = some name → name ∉ cliOnly →
      ∃ key, (entry.2.bind ArgpOption.key) = some key ∧ key.isSetting = true ∧ key ≠ .config := by
    intro entry hentry
    have hnames : ∀ entry ∈ resolved none options, entry.1 = none ∨ entry.1.getD [] ∈ cliOnly ∨
        ∃ key, (entry.2.bind ArgpOption.key) = some key ∧ key.isSetting = true ∧ key ≠ .config := by
      decide
    intro name hname hcli
    rcases hnames entry hentry with hnone | hmem | hkey
    · rw [hname] at hnone
      cases hnone
    · rw [hname] at hmem
      exact absurd hmem hcli
    · exact hkey
  exact htable _ (findOption_mem h) name rfl hcli

theorem optionAssignment_cases {option : ArgpOption} {key : Key} (hkey : option.key = some key) {argument : Option Text}
    {a : Assignment} (h : optionAssignment option argument = some a) :
    (a = (.argument,argument) ∧ argument.getD [] ≠ []) ∨ (a = (key,argument) ∧ takesArgument true true a = true) := by
  unfold optionAssignment at h
  rw [hkey] at h
  split at h
  · split at h
    · cases h
    · rename_i hne
      cases h
      exact .inl ⟨rfl,hne⟩
  · rename_i hsome
    cases hsome
    split at h
    · rename_i htaken
      cases h
      exact .inr ⟨rfl,htaken⟩
    · cases h
  · cases h

theorem entryAssignment_cases {name value : Text} {a : Assignment} (h : entryAssignment name value = some a) :
    EntryAssignment a := by
  have hfile := fileAssignment_of_entry h
  unfold entryAssignment at h
  split at h
  · cases h
  rename_i hcli
  obtain ⟨option,hfind,h⟩ := Option.bind_eq_some_iff.mp h
  obtain ⟨text,-,h⟩ := Option.bind_eq_some_iff.mp h
  obtain ⟨argument,-,h⟩ := Option.bind_eq_some_iff.mp h
  obtain ⟨key,hkey,hsetting,hconfig⟩ := setting_of_findOption hcli hfind
  rcases optionAssignment_cases hkey h with ⟨rfl,hne⟩ | ⟨rfl,htaken⟩
  · exact ⟨hfile,.inl rfl,rfl,fun _ => hne⟩
  · refine ⟨hfile,.inr ⟨hsetting,hconfig⟩,htaken,?_⟩
    intro hargument
    have hkey : key = .argument := hargument
    rw [hkey] at hsetting
    cases hsetting

theorem entryAssignment_calls (calls : List Call) : ∀ a ∈ calls.filterMap Call.assignment, EntryAssignment a := by
  intro a ha
  obtain ⟨call,-,hassignment⟩ := List.mem_filterMap.mp ha
  obtain ⟨entry,-,hentry⟩ := Option.bind_eq_some_iff.mp hassignment
  exact entryAssignment_cases hentry

theorem mem_effective {a : Assignment} {assignments : List Assignment} (h : a ∈ effective assignments) :
    a ∈ assignments ∧ (a.1.isSwitch = true → flagIn true a.2 = true) := by
  induction assignments with
  | nil => cases h
  | cons b rest ih =>
    rw [effective] at h
    split at h
    · exact ⟨List.mem_cons_of_mem b (ih h).1,(ih h).2⟩
    · rename_i hkept
      rcases List.mem_cons.mp h with rfl | h
      · refine ⟨List.mem_cons_self,?_⟩
        intro hswitch
        rw [hswitch,Bool.true_and,Bool.or_eq_true,not_or,Bool.not_eq_true',Bool.not_eq_false] at hkept
        exact hkept.2
      · exact ⟨List.mem_cons_of_mem b (ih h).1,(ih h).2⟩

theorem switch_ne_argument {a : Assignment} (ha : a.1.isSwitch = true) : a.1 ≠ .argument := by
  intro hargument
  rw [hargument] at ha
  cases ha

theorem assignEntry_eq {a : Assignment} (h : a.1 ≠ .argument) (c : Config) : assignEntry c a = assign true a c := by
  rw [assignEntry,if_neg h]

theorem commutes_switch {a b : Assignment} (ha : a.1.isSwitch = true) (hb : b.1 ≠ .startDeviceOnly) (hne : a.1 ≠ b.1) :
    Commutes assignEntry a b := by
  intro c
  rw [assignEntry_eq (switch_ne_argument ha),assignEntry_eq (switch_ne_argument ha)]
  by_cases hargument : b.1 = .argument
  -- A database reads `compare`, which its entry sets first, whatever the switch wrote.
  · unfold assignEntry
    rw [if_pos hargument,if_pos hargument]
    obtain ⟨key,arg⟩ := a
    obtain ⟨other,text⟩ := b
    have hother : other = .argument := hargument
    subst hother
    cases key <;> first
      | (cases ha; done)
      | rfl
  · rw [assignEntry_eq hargument,assignEntry_eq hargument]
    obtain ⟨key,arg⟩ := a
    obtain ⟨other,text⟩ := b
    cases key <;> first
      | (cases ha; done)
      | (dsimp only [assign]
         cases other <;> first | rfl | exact absurd rfl hne | exact absurd rfl hb | exact absurd rfl hargument)

theorem overwrites_switch {a b : Assignment} (ha : a.1.isSwitch = true) (hkey : a.1 = b.1) : Overwrites assignEntry b a := by
  obtain ⟨key,arg⟩ := a
  obtain ⟨other,text⟩ := b
  have hkey : key = other := hkey
  subst hkey
  intro c
  cases key <;> first | (cases ha; done) | rfl

def Switched (a : Assignment) : Assignment := (a.1,some (ascii "false"))

theorem assignEntry_off {a : Assignment} (ha : a.1.isSwitch = true) (hvalue : flagIn true a.2 = false) (c : Config) :
    assignEntry c a = assignEntry c (Switched a) := by
  obtain ⟨key,arg⟩ := a
  have hvalue : flagIn true arg = false := hvalue
  have hfalse : flagIn true (some (ascii "false")) = false := by decide
  cases key <;> first | (cases ha; done) | simp [Switched,assignEntry,assign,hvalue,hfalse]

theorem assignEntry_on {a : Assignment} (hfile : FileAssignment a) (hargument : a.1 ≠ .argument)
    (hvalue : a.1.isSwitch = true → flagIn true a.2 = true) {c : Config} (hchecksums : a.1 = .dryRun → c.dryRunWithChecksums = false) :
    assignEntry c a = lineAssign c a := by
  obtain ⟨key,arg⟩ := a
  have honline : flagIn false arg = true := rfl
  rw [assignEntry_eq hargument]
  cases key <;> first
    | rfl
    | exact absurd rfl hargument
    | exact absurd rfl hfile.notCompare
    | exact absurd rfl hfile.notAlias
    | (have hon : flagIn true arg = true := hvalue rfl
       simp [lineAssign,assign,hon,honline]
       done)
    | (have hon : flagIn true arg = true := hvalue rfl
       have hnone := hchecksums rfl
       simp [lineAssign,assign,hon,honline,hnone])

/-- From settings whose flags are off, the kept assignments lead to the settings of all. -/
theorem foldl_effective {assignments : List Assignment} (hfile : ∀ a ∈ assignments, FileAssignment a)
    (hargument : ∀ a ∈ assignments, a.1 ≠ .argument) {c : Config}
    (hoff : ∀ a ∈ assignments, a.1.isSwitch = true → assignEntry c (Switched a) = c) :
    assignments.foldl assignEntry c = (effective assignments).foldl lineAssign c := by
  induction assignments generalizing c with
  | nil => rfl
  | cons a rest ih =>
    have hrest := fun c => ih (c := c) (fun b hb => hfile b (List.mem_cons_of_mem a hb)) (fun b hb => hargument b (List.mem_cons_of_mem a hb))
    have hself := hoff a List.mem_cons_self
    have hothers := fun b hb => hoff b (List.mem_cons_of_mem a hb)
    rw [List.foldl_cons,effective]
    by_cases hdropped : (a.1.isSwitch && (rest.any (fun b => b.1 = a.1) || !flagIn true a.2)) = true
    · rw [if_pos hdropped,← hrest c hothers]
      simp only [Bool.and_eq_true,Bool.or_eq_true,Bool.not_eq_true',List.any_eq_true,decide_eq_true_eq] at hdropped
      obtain ⟨hswitch,⟨b,hb,hkey⟩ | hvalue⟩ := hdropped
      · refine foldl_overwritten (fun b hb => ?_) ⟨b,hb,overwrites_switch hswitch hkey.symm⟩ c
        by_cases hkey : a.1 = b.1
        · exact .inl (overwrites_switch hswitch hkey)
        · exact .inr (commutes_switch hswitch (hfile b (List.mem_cons_of_mem a hb)).notAlias hkey)
      · rw [assignEntry_off hswitch hvalue,hself hswitch]
    · rw [if_neg hdropped,List.foldl_cons]
      simp only [Bool.and_eq_true,Bool.or_eq_true,Bool.not_eq_true',List.any_eq_true,decide_eq_true_eq,not_and,not_or,
        not_exists,Bool.not_eq_false] at hdropped
      have hkept : assignEntry c a = lineAssign c a := by
        refine assignEntry_on (hfile a List.mem_cons_self) (hargument a List.mem_cons_self) (fun hswitch => (hdropped hswitch).2) ?_
        intro hdryRun
        have hswitch : a.1.isSwitch = true := by
          rw [hdryRun]
          rfl
        have hchecksums := congrArg Config.dryRunWithChecksums (hself hswitch)
        rw [Switched,hdryRun] at hchecksums
        exact hchecksums.symm
      rw [← hkept]
      refine hrest (assignEntry c a) fun b hb hswitch => ?_
      have hne : b.1 ≠ a.1 := by
        intro hkey
        exact (hdropped (hkey ▸ hswitch)).1 b hb hkey
      have hcommutes : Commutes assignEntry (Switched b) a := commutes_switch hswitch (hfile a List.mem_cons_self).notAlias hne
      rw [← hcommutes c,hothers b hb hswitch]

/-- The operands, as the main pass assigns them. -/
def lineOperands (databases : List Text) : List Assignment := databases.map fun path => (.argument,some path)

theorem foldl_databases {databases : List Assignment} (h : ∀ a ∈ databases, a.1 = .argument) {c : Config}
    (hcompare : c.compare = true) :
    databases.foldl assignEntry c = (lineOperands (databases.map fun a => a.2.getD [])).foldl lineAssign c := by
  induction databases generalizing c with
  | nil => rfl
  | cons a rest ih =>
    obtain ⟨key,arg⟩ := a
    have hkey : key = .argument := h _ List.mem_cons_self
    subst hkey
    have hassign : assignEntry c (.argument,arg) = lineAssign c (.argument,some (arg.getD [])) := by
      simp [assignEntry,lineAssign,assign,hcompare]
    have hkept : (assignEntry c (.argument,arg)).compare = true := rfl
    rw [lineOperands,List.foldl_cons,List.map_cons,List.map_cons,List.foldl_cons,← hassign]
    exact ih (fun b hb => h b (List.mem_cons_of_mem _ hb)) hkept

theorem commutes_database {a b : Assignment} (ha : a.1 = .argument) (hb : b.1 ≠ .argument) (hcompare : b.1 ≠ .compare) :
    Commutes assignEntry a b := by
  obtain ⟨key,arg⟩ := a
  obtain ⟨other,text⟩ := b
  have ha : key = .argument := ha
  subst ha
  intro c
  cases other <;> first | rfl | exact absurd rfl hb | exact absurd rfl hcompare

theorem commutes_compare {b : Assignment} (hb : b.1 ≠ .argument) : Commutes lineAssign (.compare,none) b := by
  obtain ⟨other,text⟩ := b
  intro c
  cases other <;> first | rfl | exact absurd rfl hb

/-- The command line of the assignments leads to the settings of the file. -/
theorem foldl_line {assignments : List Assignment} (hentries : ∀ a ∈ assignments, EntryAssignment a) {c : Config}
    (hoff : ∀ a : Assignment, a.1.isSwitch = true → assignEntry c (Switched a) = c) :
    assignments.foldl assignEntry c =
      (lineOptions assignments ++ lineOperands (databasesOf assignments)).foldl lineAssign c := by
  have hdatabase : ∀ a ∈ assignments.filter namesDatabase, a.1 = .argument := by
    intro a ha
    exact of_decide_eq_true (List.mem_filter.mp ha).2
  have hsetting : ∀ a ∈ assignments.filter (fun a => !namesDatabase a), FileAssignment a ∧ a.1 ≠ .argument := by
    intro a ha
    obtain ⟨hmem,hnot⟩ := List.mem_filter.mp ha
    rw [Bool.not_eq_true',namesDatabase,decide_eq_false_iff_not] at hnot
    exact ⟨(hentries a hmem).file,hnot⟩
  have hpartitioned : assignments.foldl assignEntry c =
      (assignments.filter namesDatabase).foldl assignEntry
        ((assignments.filter fun a => !namesDatabase a).foldl assignEntry c) := by
    refine foldl_partitioned namesDatabase (fun a _ b hb ha hb' => ?_) c
    exact commutes_database (of_decide_eq_true ha) (of_decide_eq_false hb') (hentries b hb).file.notCompare
  have hsettings : (assignments.filter fun a => !namesDatabase a).foldl assignEntry c =
      (settingsOf assignments).foldl lineAssign c :=
    foldl_effective (fun a ha => (hsetting a ha).1) (fun a ha => (hsetting a ha).2) (fun a _ hswitch => hoff a hswitch)
  rw [hpartitioned,hsettings,List.foldl_append,lineOptions]
  by_cases hnone : databasesOf assignments = []
  · have hnil : assignments.filter namesDatabase = [] := List.map_eq_nil_iff.mp hnone
    rw [if_pos hnone,hnone,hnil]
    rfl
  · rw [if_neg hnone,List.foldl_append]
    have hcompared : (settingsOf assignments).foldl lineAssign (lineAssign c (.compare,none)) =
        lineAssign ((settingsOf assignments).foldl lineAssign c) (.compare,none) := by
      refine foldl_commutes (fun b hb => ?_) c
      exact commutes_compare (hsetting b (mem_effective hb).1).2
    rw [List.foldl_cons,List.foldl_nil,hcompared,databasesOf,← foldl_databases hdatabase rfl]
    cases hdatabases : assignments.filter namesDatabase with
    | nil => exact absurd (by rw [databasesOf,hdatabases]; rfl) hnone
    | cons a rest =>
      obtain ⟨key,arg⟩ := a
      have hkey : key = .argument := hdatabase _ (by rw [hdatabases]; exact List.mem_cons_self)
      subst hkey
      rfl

end Precizer.Settings
