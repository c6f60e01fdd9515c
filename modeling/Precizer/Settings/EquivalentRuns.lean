import Precizer.Settings.EquivalentLine

/-! # Runs of taken lines

A command line whose options and operands are all taken is parsed to its end. It assigns them in
order, and whether the final checks pass depends on the settings only.
-/
namespace Precizer.Settings
open General Logger

theorem choose_information {α : Type} {s : ParseState} {choice : Option α} {message : Text} {apply : α → ParseState} {b : Bool}
    (hs : s.informationModeRequested = b) (happly : ∀ x, (apply x).informationModeRequested = b) :
    (choose choice message apply s).1.informationModeRequested = b := by
  cases choice with
  | none =>
    rw [choose,reportOptionError]
    split <;> exact hs
  | some x => exact happly x

theorem parseOpt_information {key : Key} (hkey : key.isSetting = true ∨ key = .argument) (arg : Option Text)
    (state : ArgpState) (s : ParseState) :
    (parseOpt key arg state s).1.informationModeRequested = s.informationModeRequested := by
  have hpath (key : Key) (arg : Text) : (parsePath key arg s).1.informationModeRequested = s.informationModeRequested := by
    unfold parsePath reportOptionError
    split_ifs <;> rfl
  have hdryRun : (parseDryRun arg s).1.informationModeRequested = s.informationModeRequested := by
    unfold parseDryRun reportOptionError
    dsimp only
    split
    · split_ifs <;> rfl
    · rfl
  unfold parseOpt
  split
  · rfl
  cases key with
  | dryRun => exact hdryRun
  | path => exact hpath _ _
  | argument => exact hpath _ _
  | compareFilter => exact choose_information rfl fun _ => rfl
  | maxdepth => exact choose_information rfl fun _ => rfl
  | checkLevel => exact choose_information rfl fun _ => rfl
  | output => exact choose_information rfl fun _ => rfl
  | color => exact choose_information rfl fun _ => rfl
  | noArguments => rcases hkey with hkey | hkey <;> cases hkey
  | finish => rcases hkey with hkey | hkey <;> cases hkey
  | help => rcases hkey with hkey | hkey <;> cases hkey
  | questionMark => rcases hkey with hkey | hkey <;> cases hkey
  | usage => rcases hkey with hkey | hkey <;> cases hkey
  | version => rcases hkey with hkey | hkey <;> cases hkey
  | _ => rfl

/-- The command line takes the option or operand. -/
structure Taken (a : Assignment) : Prop where
  known : a.1.isSetting = true ∨ a.1 = .argument
  taken : ∀ compare, takesArgument false compare a = true

/-- Between two calls of a pass that nothing failed in. -/
structure Passing (s : ParseState) (c : Config) : Prop where
  config : s.config = c
  ready : Ready s
  informed : s.informationModeRequested = false

theorem Taken.parseOpt {a : Assignment} (h : Taken a) {s : ParseState} {c : Config} (hs : Passing s c) (state : ArgpState)
    (hquoted : state.quoted = false) :
    (parseOpt a.1 a.2 state s).2 = .ok ∧ Passing (parseOpt a.1 a.2 state s).1 (lineAssign c a) := by
  have hevent : ¬a.1.IsEvent := by
    rintro (hkey | hkey) <;> rcases h.known with hknown | hknown <;> rw [hkey] at hknown <;> cases hknown
  have hassigned := (if_pos (h.taken _)).mp (parseOpt_cases hevent hs.ready.readFrom a.2 hquoted)
  refine ⟨hassigned.ok,?_,hs.ready.parseOpt _ _ _,?_⟩
  · rw [hassigned.config,hs.config]
    rfl
  · rw [parseOpt_information h.known]
    exact hs.informed

structure TakenLine (line : CommandLine) : Prop where
  options : ∀ option ∈ line.options, Taken option
  operands : ∀ operand ∈ line.operands, operand ≠ []
  malformed : line.malformed = false
  quoted : line.quoted = false

def asEvent (a : Assignment) : Event := ⟨a.1,a.2,false⟩

def CommandLine.assignments (line : CommandLine) : List Assignment := line.options ++ lineOperands line.operands

def checks (line : CommandLine) : List Event :=
  (if line.operands = [] then [⟨.noArguments,none,false⟩] else []) ++ [⟨.finish,none,false⟩]

theorem TakenLine.events {line : CommandLine} (h : TakenLine line) :
    line.events = line.assignments.map asEvent ++ checks line := by
  rw [CommandLine.events,h.malformed,h.quoted,if_neg Bool.false_ne_true,CommandLine.assignments,lineOperands,checks,
    List.map_append,List.map_map,List.append_assoc,List.append_assoc]
  rfl

theorem TakenLine.taken {line : CommandLine} (h : TakenLine line) : ∀ a ∈ line.assignments, Taken a := by
  intro a ha
  rcases List.mem_append.mp ha with hoption | hoperand
  · exact h.options a hoption
  · obtain ⟨operand,hmem,rfl⟩ := List.mem_map.mp hoperand
    refine ⟨.inr rfl,?_⟩
    intro compare
    rw [takesArgument,Option.getD_some,Bool.or_eq_true,decide_eq_true_eq]
    exact .inr (h.operands operand hmem)

/-- The final checks leave the settings alone, and pass if the settings are complete. -/
theorem noArguments_result (state : ArgpState) (hquoted : state.quoted = false) (hbare : state.bare = false) {s : ParseState}
    {c : Config} (hs : Passing s c) :
    Passing (parseOpt .noArguments none state s).1 c ∧
      ((parseOpt .noArguments none state s).2 = .ok ↔
        (c.compare = false → c.roots ≠ []) ∧ (c.compare = true → c.dbFilePaths ≠ [])) := by
  have hready := hs.ready.parseOpt .noArguments none state
  have hkeyed : parseOpt .noArguments none state s = parseNoArguments state s := by
    refine if_neg ?_
    rw [hquoted]
    exact fun h => Bool.false_ne_true h.1
  rw [hkeyed] at hready ⊢
  obtain ⟨rfl,-,hinformed⟩ := hs
  unfold parseNoArguments at hready ⊢
  rw [hinformed,if_neg Bool.false_ne_true] at hready ⊢
  by_cases hpaths : (s.config.compare = false ∧ s.config.roots ≠ []) ∨ (s.config.compare = true ∧ s.config.dbFilePaths ≠ [])
  · rw [if_pos hpaths] at hready ⊢
    refine ⟨⟨rfl,hready,hinformed⟩,fun _ => ?_,fun _ => rfl⟩
    rcases hpaths with ⟨hcompare,hne⟩ | ⟨hcompare,hne⟩
    · exact ⟨fun _ => hne,fun h => absurd (hcompare.symm.trans h) Bool.false_ne_true⟩
    · exact ⟨fun h => absurd (h.symm.trans hcompare) Bool.false_ne_true,fun _ => hne⟩
  · rw [if_neg hpaths,hbare,if_neg (fun h => Bool.false_ne_true h.1)] at hready ⊢
    have hmissing : ¬((s.config.compare = false → s.config.roots ≠ []) ∧ (s.config.compare = true → s.config.dbFilePaths ≠ [])) := by
      intro h
      refine hpaths ?_
      cases hcompare : s.config.compare with
      | false => exact .inl ⟨rfl,h.1 hcompare⟩
      | true => exact .inr ⟨rfl,h.2 hcompare⟩
    split at hready <;> rename_i hcompare
    · rw [if_pos hcompare]
      exact ⟨⟨rfl,hready,hinformed⟩,fun h => (by cases h),fun h => absurd h hmissing⟩
    · rw [if_neg hcompare]
      exact ⟨⟨rfl,hready,hinformed⟩,fun h => (by cases h),fun h => absurd h hmissing⟩

theorem finish_result (state : ArgpState) (hquoted : state.quoted = false) {s : ParseState} {c : Config} (hs : Passing s c) :
    Passing (parseOpt .finish none state s).1 c ∧
      ((parseOpt .finish none state s).2 = .ok ↔
        (c.compare = false → c.compareFilter.specified = false) ∧ (c.compare = true → c.dbFilePaths.length = 2)) := by
  have hready := hs.ready.parseOpt .finish none state
  have hkeyed : parseOpt .finish none state s = parseFinish s := by
    refine if_neg ?_
    rw [hquoted]
    exact fun h => Bool.false_ne_true h.1
  rw [hkeyed] at hready ⊢
  obtain ⟨rfl,-,hinformed⟩ := hs
  unfold parseFinish at hready ⊢
  rw [hinformed,if_neg Bool.false_ne_true] at hready ⊢
  by_cases hfilter : s.config.compareFilter.specified = true ∧ s.config.compare = false
  · rw [if_pos hfilter] at hready ⊢
    refine ⟨⟨rfl,hready,hinformed⟩,fun h => (by cases h),fun h => ?_⟩
    exact absurd ((h.1 hfilter.2).symm.trans hfilter.1) Bool.false_ne_true
  rw [if_neg hfilter] at hready ⊢
  by_cases hfew : s.config.compare = true ∧ s.config.dbFilePaths.length < 2
  · rw [if_pos hfew] at hready ⊢
    refine ⟨⟨rfl,hready,hinformed⟩,fun h => (by cases h),fun h => ?_⟩
    have htwo := h.2 hfew.1
    omega
  rw [if_neg hfew] at hready ⊢
  by_cases hmany : s.config.compare = true ∧ 2 < s.config.dbFilePaths.length
  · rw [if_pos hmany] at hready ⊢
    refine ⟨⟨rfl,hready,hinformed⟩,fun h => (by cases h),fun h => ?_⟩
    have htwo := h.2 hmany.1
    omega
  rw [if_neg hmany] at hready ⊢
  obtain ⟨hconfig,hkept⟩ := warnings_config s
  refine ⟨⟨hconfig,hready,hkept.trans hinformed⟩,fun _ => ⟨?_,?_⟩,fun _ => rfl⟩
  · intro hcompare
    exact Bool.eq_false_iff.mpr fun hspecified => hfilter ⟨hspecified,hcompare⟩
  · intro hcompare
    have hatLeast : ¬s.config.dbFilePaths.length < 2 := fun hless => hfew ⟨hcompare,hless⟩
    have hatMost : ¬2 < s.config.dbFilePaths.length := fun hless => hmany ⟨hcompare,hless⟩
    omega

theorem roots_of_operands {operands : List Text} (hne : operands ≠ []) (c : Config)
    (hcompare : ((lineOperands operands).foldl lineAssign c).compare = false) :
    ((lineOperands operands).foldl lineAssign c).roots ≠ [] := by
  obtain ⟨first,last,rfl⟩ := List.eq_nil_or_concat operands |>.resolve_left hne
  rw [List.concat_eq_append,lineOperands,List.map_append,List.foldl_append] at hcompare ⊢
  rw [List.map_singleton,List.foldl_cons,List.foldl_nil,lineAssign] at hcompare ⊢
  unfold assign at hcompare ⊢
  dsimp only at hcompare ⊢
  split at hcompare
  · rename_i hcompared
    exact absurd (hcompare.symm.trans hcompared) Bool.false_ne_true
  · rename_i hcompared
    rw [if_neg hcompared]
    exact List.append_ne_nil_of_right_ne_nil _ (List.cons_ne_nil _ [])

theorem foldl_asEvent (assignments : List Assignment) (c : Config) :
    (assignments.map asEvent).foldl (fun c event => lineAssign c (event.key,event.arg)) c = assignments.foldl lineAssign c :=
  List.foldl_map

theorem checks_result {line : CommandLine} (hbare : line.bare = false) (hasEntries : Bool) {c : Config}
    {r : ParseState × ErrorT} (hr : Passing r.1 c)
    (hroots : line.operands ≠ [] → c.compare = false → c.roots ≠ []) :
    Passing (stoppedFold (argpStep (mainEvent line hasEntries)) r (checks line)).1.1 c ∧
      ((stoppedFold (argpStep (mainEvent line hasEntries)) r (checks line)).1.2 = .ok ↔ Complete c) := by
  have hlast (r : ParseState × ErrorT) (hr : Passing r.1 c)
      (hpaths : (c.compare = true → c.dbFilePaths.length = 2) → c.compare = false → c.roots ≠ []) :
      Passing (stoppedFold (argpStep (mainEvent line hasEntries)) r [⟨.finish,none,false⟩]).1.1 c ∧
        ((stoppedFold (argpStep (mainEvent line hasEntries)) r [⟨.finish,none,false⟩]).1.2 = .ok ↔ Complete c) := by
    have hfinish := finish_result ⟨false,line.bare,hasEntries⟩ rfl hr
    have hend : (stoppedFold (argpStep (mainEvent line hasEntries)) r [⟨.finish,none,false⟩]).1 =
        parseOpt .finish none ⟨false,line.bare,hasEntries⟩ r.1 := by
      rw [stoppedFold]
      split <;> rfl
    rw [hend]
    refine ⟨hfinish.1,hfinish.2.trans ⟨fun hchecks => ⟨fun hcompare => ⟨?_,hchecks.1 hcompare⟩,hchecks.2⟩,fun hcomplete => ?_⟩⟩
    · exact hpaths hchecks.2 hcompare
    · exact ⟨fun hcompare => (hcomplete.scan hcompare).2,hcomplete.comparison⟩
  unfold checks
  by_cases hnone : line.operands = []
  · rw [if_pos hnone,List.singleton_append]
    obtain ⟨hpassing,hpaths⟩ := noArguments_result ⟨false,line.bare,hasEntries⟩ rfl hbare hr
    by_cases hok : (parseOpt .noArguments none ⟨false,line.bare,hasEntries⟩ r.1).2 = .ok
    · have haccepted : (argpStep (mainEvent line hasEntries) r ⟨.noArguments,none,false⟩).2 = true := decide_eq_true hok
      rw [stoppedFold_accepted haccepted]
      exact hlast (argpStep (mainEvent line hasEntries) r ⟨.noArguments,none,false⟩).1 hpassing (fun _ => (hpaths.mp hok).1)
    · have hrefused : (argpStep (mainEvent line hasEntries) r ⟨.noArguments,none,false⟩).2 = false := decide_eq_false hok
      rw [stoppedFold_refused hrefused]
      refine ⟨hpassing,fun h => absurd h hok,fun hcomplete => absurd (hpaths.mpr ⟨fun hcompare => ?_,fun hcompare => ?_⟩) hok⟩
      · exact (hcomplete.scan hcompare).1
      · have htwo := hcomplete.comparison hcompare
        intro hnil
        rw [hnil] at htwo
        cases htwo
  · rw [if_neg hnone,List.nil_append]
    exact hlast r hr (fun _ => hroots hnone)

theorem mainPass_taken {line : CommandLine} (h : TakenLine line) (hbare : line.bare = false) (hasEntries : Bool) {s : ParseState}
    {c : Config} (hs : Passing s c) :
    Passing (argpParse (mainEvent line hasEntries) line s).1 (line.assignments.foldl lineAssign c) ∧
      ((argpParse (mainEvent line hasEntries) line s).2 = .ok ↔ Complete (line.assignments.foldl lineAssign c)) := by
  have hfold : (stoppedFold (argpStep (mainEvent line hasEntries)) (s,.ok) (line.assignments.map asEvent)).2 = none ∧
      Passing (stoppedFold (argpStep (mainEvent line hasEntries)) (s,.ok) (line.assignments.map asEvent)).1.1
        (line.assignments.foldl lineAssign c) := by
    rw [← foldl_asEvent]
    refine stoppedFold_simulates (R := fun (r : ParseState × ErrorT) (c : Config) => Passing r.1 c) ?_ hs
    intro r c event hevent hr
    obtain ⟨a,ha,rfl⟩ := List.mem_map.mp hevent
    obtain ⟨hok,hpassing⟩ := (h.taken a ha).parseOpt hr ⟨false,line.bare,hasEntries⟩ rfl
    exact ⟨decide_eq_true hok,hpassing⟩
  have hroots : line.operands ≠ [] → (line.assignments.foldl lineAssign c).compare = false →
      (line.assignments.foldl lineAssign c).roots ≠ [] := by
    intro hne
    rw [CommandLine.assignments,List.foldl_append]
    exact roots_of_operands hne _
  have hchecks := checks_result hbare hasEntries hfold.2 hroots
  have hparsed : argpParse (mainEvent line hasEntries) line s =
      (stoppedFold (argpStep (mainEvent line hasEntries)) (s,.ok) line.events).1 := by
    unfold argpParse
    dsimp only
    rw [h.malformed,Bool.and_false,if_neg Bool.false_ne_true]
  rw [hparsed,h.events,stoppedFold_append hfold.1]
  exact hchecks

/-- What the preliminary pass assigns. -/
def earlyAssign (c : Config) (a : Assignment) : Config := if a.1.isEarly then lineAssign c a else c

theorem Taken.preliminary {a : Assignment} (h : Taken a) (hconfig : a.1 ≠ .config) {context : ArgumentParseContext} {c : Config}
    (hs : Passing context.parse c) (hinformed : context.informationModeRequested = false) :
    (parseSourceOption (asEvent a) context).2 = .ok ∧
      (parseSourceOption (asEvent a) context).1.informationModeRequested = false ∧
      Passing (parseSourceOption (asEvent a) context).1.parse (earlyAssign c a) := by
  obtain ⟨key,arg⟩ := a
  have happlied := h.parseOpt hs {} rfl
  have htaken := h.taken true
  cases key with
  | config => exact absurd rfl hconfig
  | silent => exact ⟨happlied.1,hinformed,happlied.2⟩
  | verbose => exact ⟨happlied.1,hinformed,happlied.2⟩
  | output =>
    have hearly : parseSourceOption (asEvent (.output,arg)) context = applyEarly (asEvent (.output,arg)) context.other :=
      if_pos htaken
    rw [hearly]
    exact ⟨happlied.1,hinformed,happlied.2⟩
  | color =>
    have hearly : parseSourceOption (asEvent (.color,arg)) context = applyEarly (asEvent (.color,arg)) context.other :=
      if_pos htaken
    rw [hearly]
    exact ⟨happlied.1,hinformed,happlied.2⟩
  | help => rcases h.known with hknown | hknown <;> cases hknown
  | questionMark => rcases h.known with hknown | hknown <;> cases hknown
  | usage => rcases h.known with hknown | hknown <;> cases hknown
  | version => rcases h.known with hknown | hknown <;> cases hknown
  | noArguments => rcases h.known with hknown | hknown <;> cases hknown
  | finish => rcases h.known with hknown | hknown <;> cases hknown
  | _ => exact ⟨rfl,hinformed,hs⟩

theorem preliminary_taken {line : CommandLine} (h : TakenLine line) (hconfig : ∀ a ∈ line.assignments, a.1 ≠ .config)
    {context : ArgumentParseContext} {c : Config} (hs : Passing context.parse c)
    (hinformed : context.informationModeRequested = false) :
    (argpParse parseSourceOption line context).2 = .ok ∧
      (argpParse parseSourceOption line context).1.informationModeRequested = false ∧
      Passing (argpParse parseSourceOption line context).1.parse (line.assignments.foldl earlyAssign c) := by
  have hfold : (stoppedFold (argpStep parseSourceOption) (context,.ok) line.events).2 = none ∧
      (stoppedFold (argpStep parseSourceOption) (context,.ok) line.events).1.2 = .ok ∧
      (stoppedFold (argpStep parseSourceOption) (context,.ok) line.events).1.1.informationModeRequested = false ∧
      Passing (stoppedFold (argpStep parseSourceOption) (context,.ok) line.events).1.1.parse
        (line.events.foldl (fun c event => earlyAssign c (event.key,event.arg)) c) := by
    refine stoppedFold_simulates (R := fun (r : ArgumentParseContext × ErrorT) (c : Config) =>
      r.2 = .ok ∧ r.1.informationModeRequested = false ∧ Passing r.1.parse c) ?_ ⟨rfl,hinformed,hs⟩
    rintro r c event hevent ⟨-,hinformed,hpassing⟩
    rw [h.events] at hevent
    rcases List.mem_append.mp hevent with hassignment | hcheck
    · obtain ⟨a,ha,rfl⟩ := List.mem_map.mp hassignment
      have hstep := (h.taken a ha).preliminary (hconfig a ha) hpassing hinformed
      exact ⟨decide_eq_true hstep.1,hstep⟩
    · rcases List.mem_append.mp hcheck with hnone | hfinish
      · split at hnone
        · cases List.mem_singleton.mp hnone
          exact ⟨rfl,rfl,hinformed,hpassing⟩
        · cases hnone
      · cases List.mem_singleton.mp hfinish
        exact ⟨rfl,rfl,hinformed,hpassing⟩
  have hassigned : line.events.foldl (fun c event => earlyAssign c (event.key,event.arg)) c =
      line.assignments.foldl earlyAssign c := by
    rw [h.events,List.foldl_append,List.foldl_map,checks]
    split <;> rfl
  have hparsed : argpParse parseSourceOption line context =
      (stoppedFold (argpStep parseSourceOption) (context,.ok) line.events).1 := by
    unfold argpParse
    dsimp only
    rw [h.malformed,Bool.and_false,if_neg Bool.false_ne_true]
  rw [hassigned] at hfold
  rw [hparsed]
  exact hfold.2

theorem commutes_early {a b : Assignment} (ha : a.1.isEarly = true) (hne : a.1 ≠ b.1) : Commutes lineAssign a b := by
  obtain ⟨key,arg⟩ := a
  obtain ⟨other,text⟩ := b
  intro c
  cases key <;> first
    | (cases ha; done)
    | (cases other <;> first | rfl | exact absurd rfl hne | (cases hcompare : c.compare <;> simp [lineAssign,assign,hcompare]))

theorem overwrites_early {a b : Assignment} (ha : a.1.isEarly = true) (hkey : a.1 = b.1)
    (hb : takesArgument false true b = true) : Overwrites lineAssign b a := by
  obtain ⟨key,arg⟩ := a
  obtain ⟨other,text⟩ := b
  have hkey : key = other := hkey
  subst hkey
  intro c
  cases key with
  | output =>
    obtain ⟨output,houtput⟩ := Option.isSome_iff_exists.mp hb
    simp [lineAssign,assign,houtput]
  | color =>
    obtain ⟨color,hcolor⟩ := Option.isSome_iff_exists.mp hb
    simp [lineAssign,assign,hcolor]
  | silent => rfl
  | verbose => rfl
  | _ => cases ha

/-- The main pass overwrites what the preliminary pass assigned. -/
theorem foldl_early {assignments : List Assignment} (h : ∀ a ∈ assignments, Taken a) (c : Config) :
    assignments.foldl lineAssign (assignments.foldl earlyAssign c) = assignments.foldl lineAssign c := by
  have hfiltered : assignments.foldl earlyAssign c = (assignments.filter fun a => a.1.isEarly).foldl lineAssign c :=
    List.foldl_filter.symm
  rw [hfiltered]
  refine foldl_overwritten_all (fun a ha => ?_) c
  obtain ⟨hmem,hearly⟩ := List.mem_filter.mp ha
  refine ⟨fun b hb => ?_,a,hmem,overwrites_early hearly rfl ((h a hmem).taken true)⟩
  by_cases hkey : a.1 = b.1
  · exact .inl (overwrites_early hearly hkey ((h b hb).taken true))
  · exact .inr (commutes_early hearly hkey)

end Precizer.Settings
