import Precizer.Database.Comparison

/-! # What a comparison lists

A comparison that ran to its end lists, for each selected category, the paths of its
query that the patterns leave visible, each once and in order, and its summary only
speaks of categories whose list is empty.
-/
namespace Precizer.Database
open General Rational Traversal

/-- The path is in the scope the patterns leave. -/
def inScope (c : Config) (path : RelativePath) : Bool := !(matchIncludeIgnore c false path).ignored

def CompareLine.listedIn (category : CompareCategory) : CompareLine → Option RelativePath
  | .path shown p => if shown = category then some p else none
  | _ => none

def listed (category : CompareCategory) (lines : List CompareLine) : List RelativePath :=
  lines.filterMap (CompareLine.listedIn category)

def visiblePaths (c : Config) (category : CompareCategory) (a b : FilesTable) : List RelativePath :=
  (comparePaths category a b).filter (inScope c)

section Query

variable (a b : FilesTable)

theorem orderPaths_mem {paths : List RelativePath} {path : RelativePath} :
    path ∈ orderPaths paths ↔ path ∈ paths := List.mem_mergeSort

theorem orderPaths_sorted (paths : List RelativePath) : (orderPaths paths).Pairwise (· ≤ ·) := by
  have htrans : ∀ p q r : RelativePath, decide (p ≤ q) = true → decide (q ≤ r) = true → decide (p ≤ r) = true := by
    intro p q r hpq hqr
    simp only [decide_eq_true_eq] at *
    exact List.le_trans hpq hqr
  have htotal : ∀ p q : RelativePath, (decide (p ≤ q) || decide (q ≤ p)) = true := by
    intro p q
    simpa using List.le_total p q
  simpa [orderPaths] using List.pairwise_mergeSort htrans htotal paths

theorem unmatched_nodup : (unmatchedPaths a b).Nodup := a.keysNodup.sublist (List.filter_sublist.map _)

theorem mismatched_nodup : (mismatchedPaths a b).Nodup := b.keysNodup.sublist (List.filter_sublist.map _)

theorem comparePaths_nodup (category : CompareCategory) : (comparePaths category a b).Nodup := by
  have hperm := fun paths : List RelativePath => List.mergeSort_perm paths fun p q => decide (p ≤ q)
  cases category with
  | firstSource => exact (hperm _).nodup_iff.mpr (unmatched_nodup a b)
  | secondSource => exact (hperm _).nodup_iff.mpr (unmatched_nodup b a)
  | checksumMismatch => exact (hperm _).nodup_iff.mpr (mismatched_nodup a b)

theorem mem_unmatched {path : RelativePath} :
    path ∈ unmatchedPaths a b ↔ (∃ e, a.find path = some e) ∧ b.find path = none := by
  constructor
  · intro h
    obtain ⟨e,he,rfl⟩ := List.mem_map.mp h
    obtain ⟨hrow,hnone⟩ := List.mem_filter.mp he
    exact ⟨⟨e,UniqueTable.find_eq_some_iff.mpr ⟨hrow,rfl⟩⟩,by simpa using hnone⟩
  · rintro ⟨⟨e,hfind⟩,hnone⟩
    obtain ⟨hrow,rfl⟩ := UniqueTable.find_eq_some_iff.mp hfind
    exact List.mem_map_of_mem (List.mem_filter.mpr ⟨hrow,by simpa using hnone⟩)

theorem mem_mismatched {path : RelativePath} : path ∈ mismatchedPaths a b ↔
    ∃ e e', a.find path = some e ∧ b.find path = some e' ∧ e.value.sha512 ≠ e'.value.sha512 := by
  constructor
  · intro h
    obtain ⟨e',he',rfl⟩ := List.mem_map.mp h
    obtain ⟨hrow,hdiffers⟩ := List.mem_filter.mp he'
    cases hfind : a.find e'.key with
    | none => simp [hfind] at hdiffers
    | some e =>
      rw [hfind] at hdiffers
      exact ⟨e,e',rfl,UniqueTable.find_eq_some_iff.mpr ⟨hrow,rfl⟩,by simpa using hdiffers⟩
  · rintro ⟨e,e',hfind,hfind',hdiffers⟩
    obtain ⟨hrow,rfl⟩ := UniqueTable.find_eq_some_iff.mp hfind'
    refine List.mem_map_of_mem (List.mem_filter.mpr ⟨hrow,?_⟩)
    rw [hfind]
    simpa using hdiffers

theorem orderPaths_congr {paths paths' : List RelativePath} (hnodup : paths.Nodup) (hnodup' : paths'.Nodup)
    (h : ∀ path, path ∈ paths ↔ path ∈ paths') : orderPaths paths = orderPaths paths' := by
  have hperm : (orderPaths paths).Perm (orderPaths paths') := by
    refine (List.mergeSort_perm _ _).trans (List.Perm.trans ?_ (List.mergeSort_perm _ _).symm)
    exact (List.perm_ext_iff_of_nodup hnodup hnodup').mpr h
  refine hperm.eq_of_pairwise ?_ (orderPaths_sorted _) (orderPaths_sorted _)
  intro p q _ _ hpq hqp
  exact List.le_antisymm hpq hqp

theorem mismatched_swap : comparePaths .checksumMismatch b a = comparePaths .checksumMismatch a b := by
  refine orderPaths_congr (mismatched_nodup b a) (mismatched_nodup a b) ?_
  intro path
  rw [mem_mismatched,mem_mismatched]
  constructor
  · rintro ⟨e,e',hfind,hfind',hdiffers⟩
    exact ⟨e',e,hfind',hfind,fun h => hdiffers h.symm⟩
  · rintro ⟨e,e',hfind,hfind',hdiffers⟩
    exact ⟨e',e,hfind',hfind,fun h => hdiffers h.symm⟩

end Query

section Report

variable (c : Config) (script : CompareScript) (category : CompareCategory)

theorem listed_append (lines lines' : List CompareLine) :
    listed category (lines ++ lines') = listed category lines ++ listed category lines' :=
  List.filterMap_append

/-- A loop that came to its end has listed the visible paths. -/
theorem reportRows_complete (paths : List RelativePath) (n : ℕ) (found : Bool)
    (hend : (reportRows c script category n paths found).2 = true) :
    (reportRows c script category n paths found).1.found = (found || !(paths.filter (inScope c)).isEmpty) ∧
      listed category (reportRows c script category n paths found).1.lines = paths.filter (inScope c) := by
  induction paths generalizing n found with
  | nil =>
    unfold reportRows at hend ⊢
    split
    · rename_i hstep
      simp [hstep] at hend
    · simp [listed]
  | cons path rest ih =>
    unfold reportRows at hend ⊢
    split
    · rename_i hstep
      simp [hstep] at hend
    · rename_i hstep
      rw [if_neg hstep] at hend
      dsimp only at hend ⊢
      split
      · rename_i hraised
        simp [hraised] at hend
      · rename_i hraised
        rw [if_neg hraised] at hend
        split
        · rename_i hcopied
          rw [if_pos hcopied] at hend
          cases hend
        · rename_i hcopied
          rw [if_neg hcopied] at hend
          split
          · rename_i hscope
            rw [if_pos hscope] at hend
            cases hend
          · rename_i hscope
            rw [if_neg hscope] at hend
            rw [not_not,leave_eq,outcome_eq_success] at hscope
            have hvisible := matchIncludeIgnore_of_ok hscope.1
            split
            · rename_i hignored
              rw [if_pos hignored] at hend
              have hhidden : inScope c path = false := by
                rw [inScope,← hvisible,hignored]
                rfl
              rw [List.filter_cons_of_neg (by simp [hhidden])]
              exact ih _ _ hend
            · rename_i hignored
              rw [if_neg hignored] at hend
              have hshown : inScope c path = true := by
                rw [inScope,← hvisible]
                simpa using hignored
              obtain ⟨hfound,hlines⟩ := ih _ _ hend
              rw [List.filter_cons_of_pos hshown]
              refine ⟨by rw [hfound]; simp,?_⟩
              rw [listed_append]
              have hheading : listed category (if found then [] else [.heading category]) = [] := by
                split <;> rfl
              rw [hheading,List.nil_append]
              have hpath : CompareLine.listedIn category (.path category path) = some path := if_pos rfl
              rw [listed,List.filterMap_cons_some hpath]
              exact congrArg _ hlines

def CompareLine.belongsTo (category : CompareCategory) (line : CompareLine) : Prop :=
  line = .heading category ∨ ∃ p, line = .path category p

theorem reportRows_lines (paths : List RelativePath) (n : ℕ) (found : Bool) :
    ∀ line ∈ (reportRows c script category n paths found).1.lines, line.belongsTo category := by
  induction paths generalizing n found with
  | nil =>
    unfold reportRows
    split <;> simp
  | cons path rest ih =>
    unfold reportRows
    split
    · simp
    · dsimp only
      split
      · simp
      · split
        · simp
        · split
          · simp
          · split
            · exact ih _ _
            · intro line hline
              rcases List.mem_append.mp hline with hheading | hline
              · split at hheading
                · cases hheading
                · exact .inl (List.mem_singleton.mp hheading)
              · rcases List.mem_cons.mp hline with rfl | hline
                · exact .inr ⟨path,rfl⟩
                · exact ih _ _ line hline

theorem listed_other {category' : CompareCategory} (hne : category' ≠ category) {lines : List CompareLine}
    (h : ∀ line ∈ lines, line.belongsTo category) : listed category' lines = [] := by
  apply List.filterMap_eq_nil_iff.mpr
  intro line hline
  rcases h line hline with rfl | ⟨p,rfl⟩
  · rfl
  · exact if_neg fun heq => hne heq.symm

theorem reportRows_status (paths : List RelativePath) (n : ℕ) (found : Bool) :
    ∃ ok halted, (reportRows c script category n paths found).1.status = outcome ok halted := by
  induction paths generalizing n found with
  | nil =>
    unfold reportRows
    split <;> exact ⟨true,false,rfl⟩
  | cons path rest ih =>
    unfold reportRows
    split
    · exact ⟨true,false,rfl⟩
    · dsimp only
      split
      · exact ⟨true,false,rfl⟩
      · split
        · rw [successStatus_eq,leave_eq,run_outcome]
          exact ⟨_,_,rfl⟩
        · split
          · exact ⟨_,_,leave_eq _ _⟩
          · split
            · exact ih _ _
            · exact ih _ _

theorem preparedRows_status (paths : List RelativePath) :
    ∃ ok halted, (preparedRows c script category paths).1.status = outcome ok halted := by
  unfold preparedRows
  split
  · exact reportRows_status c script category paths 0 false
  · exact ⟨false,false,rfl⟩

theorem dbReportCategory_status (paths : List RelativePath) :
    ∃ ok halted, (dbReportCategory c script category paths).status = outcome ok halted := by
  obtain ⟨ok,halted,hrows⟩ := preparedRows_status c script category paths
  unfold dbReportCategory
  dsimp only
  split
  · exact ⟨_,_,provide_outcome _ false false⟩
  · split
    · exact ⟨_,_,provide_outcome _ false false⟩
    · rw [hrows]
      exact ⟨_,_,provide_outcome _ ok halted⟩

theorem dbReportCategory_complete {paths : List RelativePath} (hquiet : script.signal.arrival = none)
    (hok : (dbReportCategory c script category paths).status = successStatus) :
    (dbReportCategory c script category paths).found = !(paths.filter (inScope c)).isEmpty ∧
      listed category (dbReportCategory c script category paths).lines = paths.filter (inScope c) := by
  have hok := success_of_provide hok
  rw [Signal.raised_none hquiet] at hok
  have hend : (preparedRows c script category paths).2 = true := by
    split at hok
    · cases hok
    · split at hok
      · cases hok
      · rename_i hincomplete
        simpa [hok] using hincomplete
  change (preparedRows c script category paths).1.found = _ ∧
    listed category (preparedRows c script category paths).1.lines = _
  unfold preparedRows at hend ⊢
  split
  · rename_i hprepared
    rw [if_pos hprepared] at hend
    simpa using reportRows_complete c script category paths 0 false hend
  · rename_i hprepared
    rw [if_neg hprepared] at hend
    cases hend

theorem dbReportCategory_lines (paths : List RelativePath) :
    ∀ line ∈ (dbReportCategory c script category paths).lines, line.belongsTo category := by
  change ∀ line ∈ (preparedRows c script category paths).1.lines, line.belongsTo category
  unfold preparedRows
  split
  · exact reportRows_lines c script category paths 0 false
  · simp

end Report

section Category

variable {c : Config} {script : CompareScript} {f : CompareFilter} {a b : FilesTable}
  {category : CompareCategory} {status : Return}

theorem runCategory_conclusive (hstatus : status.conclusive = true) :
    (runCategory c script f a b category status).status.conclusive = true := by
  unfold runCategory
  split
  · obtain ⟨ok,halted,hreport⟩ := dbReportCategory_status c script category (comparePaths category a b)
    dsimp only
    rw [hreport]
    exact conclusive_run hstatus
  · exact hstatus

theorem runCategory_lines :
    ∀ line ∈ (runCategory c script f a b category status).lines, line.belongsTo category := by
  unfold runCategory
  split
  · exact dbReportCategory_lines c script category _
  · simp

/-- A category that leaves success behind was entered under success and, if it is selected,
has listed its visible paths. -/
theorem runCategory_complete (hstatus : status.conclusive = true) (hquiet : script.signal.arrival = none)
    (hok : (runCategory c script f a b category status).status = successStatus) :
    status = successStatus ∧
      (runCategory c script f a b category status).found =
        (f.checks category && !(visiblePaths c category a b).isEmpty) ∧
      listed category (runCategory c script f a b category status).lines =
        if f.checks category then visiblePaths c category a b else [] := by
  unfold runCategory at hok ⊢
  cases hchecks : f.checks category with
  | false =>
    rw [hchecks] at hok
    exact ⟨hok,rfl,rfl⟩
  | true =>
    rw [hchecks] at hok
    cases hskip : status.skip with
    | true =>
      rw [hskip] at hok
      have hok : status = successStatus := hok
      rw [hok] at hskip
      cases hskip
    | false =>
      rw [hskip] at hok
      obtain ⟨ok,halted,hreport⟩ := dbReportCategory_status c script category (comparePaths category a b)
      have hrun : run (globalReturnStatus (script.signal.halted (.reported category))) status
          (dbReportCategory c script category (comparePaths category a b)).status = successStatus := hok
      rw [hreport] at hrun
      obtain ⟨-,hok,hhalted⟩ := run_success hrun
      have hsuccess : (dbReportCategory c script category (comparePaths category a b)).status = successStatus := by
        rw [hreport,hok,hhalted]
        rfl
      obtain ⟨hfound,hlisted⟩ := dbReportCategory_complete c script category hquiet hsuccess
      exact ⟨success_of_conclusive hstatus hskip,hfound,hlisted⟩

end Category

section Compare

variable {c : Config} {script : CompareScript} {f : CompareFilter} {a b : FilesTable}

theorem attachDatabases_conclusive (script : CompareScript) :
    (attachDatabases script).1.conclusive = true := by
  unfold attachDatabases
  dsimp only
  split
  · split
    · rw [leave_eq]
      exact conclusive_outcome _ _
    · rw [leave_eq]
      exact conclusive_outcome _ _
  · exact script.conclusive

theorem detachDatabase_conclusive {status : Return} (attached detached : Bool)
    (hstatus : status.conclusive = true) :
    (detachDatabase script attached detached status).conclusive = true := by
  unfold detachDatabase
  dsimp only
  split
  · rw [leave_eq]
    exact conclusive_call hstatus
  · exact hstatus

theorem success_of_detach {attached detached : Bool} {status : Return} (hstatus : status.conclusive = true)
    (h : detachDatabase script attached detached status = successStatus) : status = successStatus := by
  unfold detachDatabase at h
  dsimp only at h
  split at h
  · rw [leave_eq] at h
    exact success_of_call hstatus h
  · exact h

def selectedPaths (c : Config) (f : CompareFilter) (category : CompareCategory) (a b : FilesTable) :
    List RelativePath :=
  if f.checks category then visiblePaths c category a b else []

theorem selectedPaths_found (category : CompareCategory) :
    (f.checks category && !(visiblePaths c category a b).isEmpty) =
      !(selectedPaths c f category a b).isEmpty := by
  unfold selectedPaths
  cases f.checks category <;> simp

theorem dbCompare_lines (hcompare : c.compare = true) (hquiet : script.signal.arrival = none)
    (hok : (dbCompare c script f a b).status = successStatus) :
    ∃ first second mismatches,
      (dbCompare c script f a b).lines = [.starting] ++ first ++ second ++ mismatches ++
        compareSummary f (!(selectedPaths c f .firstSource a b).isEmpty)
          (!(selectedPaths c f .secondSource a b).isEmpty)
          (!(selectedPaths c f .checksumMismatch a b).isEmpty) ++ [.complete] ∧
      (∀ line ∈ first, line.belongsTo .firstSource) ∧ (∀ line ∈ second, line.belongsTo .secondSource) ∧
      (∀ line ∈ mismatches, line.belongsTo .checksumMismatch) ∧
      listed .firstSource first = selectedPaths c f .firstSource a b ∧
      listed .secondSource second = selectedPaths c f .secondSource a b ∧
      listed .checksumMismatch mismatches = selectedPaths c f .checksumMismatch a b := by
  unfold dbCompare at hok ⊢
  dsimp only at hok ⊢
  have henter : ¬ (script.signal.raised .enter || !c.compare) = true := by
    rw [Signal.raised_none hquiet,hcompare]
    decide
  rw [if_neg henter] at hok ⊢
  have hok := success_of_provide hok
  have hattached := attachDatabases_conclusive script
  generalize attachDatabases script = attached at hok hattached ⊢
  have hfirst : (runCategory c script f a b .firstSource attached.1).status.conclusive = true :=
    runCategory_conclusive hattached
  have hcomplete1 : (runCategory c script f a b .firstSource attached.1).status = successStatus → _ :=
    runCategory_complete hattached hquiet
  have hlines1 : ∀ line ∈ (runCategory c script f a b .firstSource attached.1).lines,
      line.belongsTo .firstSource := runCategory_lines
  generalize runCategory c script f a b .firstSource attached.1 = first at *
  have hsecond : (runCategory c script f a b .secondSource first.status).status.conclusive = true :=
    runCategory_conclusive hfirst
  have hcomplete2 : (runCategory c script f a b .secondSource first.status).status = successStatus → _ :=
    runCategory_complete hfirst hquiet
  have hlines2 : ∀ line ∈ (runCategory c script f a b .secondSource first.status).lines,
      line.belongsTo .secondSource := runCategory_lines
  generalize runCategory c script f a b .secondSource first.status = second at *
  have hmismatches : (runCategory c script f a b .checksumMismatch second.status).status.conclusive = true :=
    runCategory_conclusive hsecond
  have hcomplete3 : (runCategory c script f a b .checksumMismatch second.status).status = successStatus → _ :=
    runCategory_complete hsecond hquiet
  have hlines3 : ∀ line ∈ (runCategory c script f a b .checksumMismatch second.status).lines,
      line.belongsTo .checksumMismatch := runCategory_lines
  generalize runCategory c script f a b .checksumMismatch second.status = mismatches at *
  have hdetached := success_of_detach (detachDatabase_conclusive _ _ hmismatches) hok
  obtain ⟨hok2,hfound3,hlisted3⟩ := hcomplete3 (success_of_detach hmismatches hdetached)
  obtain ⟨hok1,hfound2,hlisted2⟩ := hcomplete2 hok2
  obtain ⟨-,hfound1,hlisted1⟩ := hcomplete1 hok1
  refine ⟨first.lines,second.lines,mismatches.lines,?_,hlines1,hlines2,hlines3,hlisted1,hlisted2,hlisted3⟩
  rw [if_pos hok,hfound1,hfound2,hfound3,selectedPaths_found,selectedPaths_found,selectedPaths_found]

theorem summary_mem {line : CompareLine} {first second mismatches summary : List CompareLine}
    (hfirst : ∀ line ∈ first, line.belongsTo .firstSource)
    (hsecond : ∀ line ∈ second, line.belongsTo .secondSource)
    (hmismatches : ∀ line ∈ mismatches, line.belongsTo .checksumMismatch)
    (hline : ∀ category, ¬ line.belongsTo category) (hstart : line ≠ .starting) (hcomplete : line ≠ .complete) :
    line ∈ [.starting] ++ first ++ second ++ mismatches ++ summary ++ [.complete] ↔ line ∈ summary := by
  have h1 : line ∉ first := fun h => hline _ (hfirst line h)
  have h2 : line ∉ second := fun h => hline _ (hsecond line h)
  have h3 : line ∉ mismatches := fun h => hline _ (hmismatches line h)
  simp [h1,h2,h3,hstart,hcomplete]

theorem listed_summary (category : CompareCategory) (first second mismatches : Bool) :
    listed category (compareSummary f first second mismatches) = [] := by
  unfold compareSummary
  rw [listed_append,listed_append]
  have hif : ∀ (p : Bool) (lines : List CompareLine), listed category lines = [] →
      listed category (if p then lines else []) = [] := by
    intro p lines hlines
    split
    · exact hlines
    · rfl
  rw [hif _ [.allChecksumsIdentical] rfl,hif _ [.absolutelyEqual] rfl,List.append_nil,List.append_nil]
  split
  · exact hif _ [.allFilesIdentical] rfl
  · rw [listed_append,hif _ [.noFirstSourceDifferences] rfl,hif _ [.noSecondSourceDifferences] rfl]
    rfl

theorem mem_compareSummary {line : CompareLine} {first second mismatches : Bool} :
    line ∈ compareSummary f first second mismatches ↔
      (line = .allFilesIdentical ∧ f.full = true ∧ first = false ∧ second = false ∧ mismatches = false) ∨
      (line = .noFirstSourceDifferences ∧ f.full = false ∧ f.checks .firstSource = true ∧ first = false) ∨
      (line = .noSecondSourceDifferences ∧ f.full = false ∧ f.checks .secondSource = true ∧ second = false) ∨
      (line = .allChecksumsIdentical ∧ f.checks .checksumMismatch = true ∧ mismatches = false) ∨
      (line = .absolutelyEqual ∧ f.full = true ∧ first = false ∧ second = false ∧ mismatches = false) := by
  unfold compareSummary
  cases f.full with
  | true => cases first <;> cases second <;> cases mismatches <;> simp [and_comm]
  | false => cases first <;> cases second <;> cases mismatches <;> simp [and_comm]

/-- The paths both sides agree to put under a category. -/
def InCategory (category : CompareCategory) (a b : FilesTable) (path : RelativePath) : Prop :=
  match category with
  | .firstSource => (∃ e, a.find path = some e) ∧ b.find path = none
  | .secondSource => (∃ e, b.find path = some e) ∧ a.find path = none
  | .checksumMismatch => ∃ e e', a.find path = some e ∧ b.find path = some e' ∧
      e.value.sha512 ≠ e'.value.sha512

theorem mem_selected {category : CompareCategory} {path : RelativePath} :
    path ∈ selectedPaths c f category a b ↔
      f.checks category = true ∧ inScope c path = true ∧ InCategory category a b path := by
  have hquery : path ∈ comparePaths category a b ↔ InCategory category a b path := by
    unfold comparePaths
    rw [orderPaths_mem]
    cases category with
    | firstSource => exact mem_unmatched a b
    | secondSource => exact mem_unmatched b a
    | checksumMismatch => exact mem_mismatched a b
  unfold selectedPaths
  split
  · rename_i hchecks
    rw [visiblePaths,List.mem_filter,hquery]
    exact ⟨fun h => ⟨hchecks,h.2,h.1⟩,fun h => ⟨h.2.2,h.2.1⟩⟩
  · rename_i hchecks
    exact ⟨fun h => absurd h List.not_mem_nil,fun h => absurd h.1 hchecks⟩

theorem selected_nodup (category : CompareCategory) : (selectedPaths c f category a b).Nodup := by
  unfold selectedPaths
  split
  · exact (comparePaths_nodup a b category).filter _
  · exact List.nodup_nil

theorem selected_sorted (category : CompareCategory) :
    (selectedPaths c f category a b).Pairwise (· ≤ ·) := by
  unfold selectedPaths
  split
  · exact (orderPaths_sorted _).filter _
  · exact List.Pairwise.nil

/-- Swapping the databases swaps the first two lists and leaves the third. -/
def CompareCategory.swap : CompareCategory → CompareCategory
  | .firstSource => .secondSource
  | .secondSource => .firstSource
  | .checksumMismatch => .checksumMismatch

theorem selected_swap {f' : CompareFilter} (hf : ∀ category, f'.checks category = f.checks category.swap)
    (category : CompareCategory) : selectedPaths c f' category b a = selectedPaths c f category.swap a b := by
  have hvisible : visiblePaths c category b a = visiblePaths c category.swap a b := by
    cases category with
    | firstSource => rfl
    | secondSource => rfl
    | checksumMismatch => exact congrArg _ (mismatched_swap a b)
  rw [selectedPaths,selectedPaths,hf,hvisible]

theorem dbCompare_listed (hcompare : c.compare = true) (hquiet : script.signal.arrival = none)
    (hok : (dbCompare c script f a b).status = successStatus) (category : CompareCategory) :
    listed category (dbCompare c script f a b).lines = selectedPaths c f category a b := by
  obtain ⟨first,second,mismatches,hlines,h1,h2,h3,hlisted1,hlisted2,hlisted3⟩ :=
    dbCompare_lines hcompare hquiet hok
  have hedge : listed category [.starting] = [] ∧ listed category [.complete] = [] := ⟨rfl,rfl⟩
  rw [hlines,listed_append,listed_append,listed_append,listed_append,listed_append,listed_summary,
    hedge.1,hedge.2]
  cases category with
  | firstSource => rw [hlisted1,listed_other .secondSource (by decide) h2,listed_other _ (by decide) h3]; simp
  | secondSource => rw [hlisted2,listed_other .firstSource (by decide) h1,listed_other _ (by decide) h3]; simp
  | checksumMismatch =>
    rw [hlisted3,listed_other .firstSource (by decide) h1,listed_other .secondSource (by decide) h2]
    simp

theorem dbCompare_summary (hcompare : c.compare = true) (hquiet : script.signal.arrival = none)
    (hok : (dbCompare c script f a b).status = successStatus) {line : CompareLine}
    (hline : ∀ category, ¬ line.belongsTo category) (hstart : line ≠ .starting) (hcomplete : line ≠ .complete) :
    line ∈ (dbCompare c script f a b).lines ↔
      line ∈ compareSummary f (!(selectedPaths c f .firstSource a b).isEmpty)
        (!(selectedPaths c f .secondSource a b).isEmpty) (!(selectedPaths c f .checksumMismatch a b).isEmpty) := by
  obtain ⟨first,second,mismatches,hlines,h1,h2,h3,-,-,-⟩ := dbCompare_lines hcompare hquiet hok
  rw [hlines]
  exact summary_mem h1 h2 h3 hline hstart hcomplete

theorem dbCompare_failed (hcompare : c.compare = true) (hquiet : script.signal.arrival = none)
    (hfail : (dbCompare c script f a b).status ≠ successStatus) {line : CompareLine}
    (hline : ∀ category, ¬ line.belongsTo category) (hstart : line ≠ .starting) (hcomplete : line ≠ .complete) :
    line ∉ (dbCompare c script f a b).lines := by
  have henter : ¬ (script.signal.raised .enter || !c.compare) = true := by
    rw [Signal.raised_none hquiet,hcompare]
    decide
  unfold dbCompare at hfail ⊢
  dsimp only at hfail ⊢
  rw [if_neg henter] at hfail ⊢
  dsimp only at hfail ⊢
  rw [Signal.halted_none hquiet] at hfail
  rw [if_neg fun hok => hfail (by rw [hok]; rfl),
    summary_mem runCategory_lines runCategory_lines runCategory_lines hline hstart hcomplete]
  exact List.not_mem_nil

end Compare
end Precizer.Database
