import Precizer.Pipeline.InterruptedRuns

/-! # Interrupts leave no trace

However often an update of a constant tree is interrupted, the next update that is not
leaves the table one undisturbed update would have left, provided that one does not fail.
A failing update rolls its rows back; an interrupted one commits what it has.
-/
namespace Precizer.Guarantees
open General Rational Digest Traversal Database Pipeline

section Passes

variable {tree : Tree} {access : RelativePath → FileAccessStatus} {c : Config} {start t : FilesTable}
  {stored : List RootPath} {log : List Event} {r : RunScript} {plan : List (Visit × VisitOutcome)}

/-- The plan of an undisturbed pass that starts between the runs. -/
theorem replanned (hplan : TreePlan tree c (contents start) plan) (hconst : ConstantTree tree access)
    (hwrites : c.dryRun = false) (hkept : c.rehashLocked = false) (hstates : Underway c access plan (contents start) t)
    (h : TreeRun tree stored true r) (hconfig : r.config = c) :
    planStatus (r.plan t) = planStatus plan ∧ planFailed (r.plan t) = false ∧
      (∀ v o, (v,o) ∈ plan → ∃ w, (w,visitOutcome c v (contents t v.entry.path)) ∈ r.plan t ∧ w.found = v.found) ∧
      ∀ path, Visits (r.plan t) path → Visits plan path := by
  obtain ⟨hmapped,hstatus⟩ := hstates.replans hplan hconst hwrites hkept h.entries
  obtain ⟨-,-,hback,hforth⟩ := hplan.transport h.entries
  have hrun : r.plan t = walkPlan c (contents t) none r.pass.visits := by
    rw [h.plan_eq,hconfig]
  rw [hrun]
  refine ⟨hstatus,?_,?_,?_⟩
  · apply planFailed_of_status
    rw [hstatus]
    intro hfailure
    have hno := planStatus_failure.mp hfailure
    rw [hplan.goes] at hno
    cases hno
  · intro v o hv
    obtain ⟨w,hw,hsame⟩ := hforth v o hv
    have hpath : w.entry.path = v.entry.path := congrArg (fun e : TreeEntry => e.entry.path) hsame
    refine ⟨w,?_,hsame⟩
    rw [hmapped,← hpath,← visitOutcome_found hsame]
    exact List.mem_map_of_mem (f := fun x : Visit × VisitOutcome =>
      (x.1,visitOutcome c x.1 (contents t x.1.entry.path))) hw
  · rintro path ⟨⟨w,o⟩,hw,hinfo,hpath⟩
    rw [hmapped] at hw
    obtain ⟨⟨w',o'⟩,hw',heq⟩ := List.mem_map.mp hw
    obtain ⟨rfl,-⟩ := Prod.mk.inj heq
    obtain ⟨v,hv,hsame⟩ := hback w' o' hw'
    have hentry : v.entry = w'.entry := congrArg TreeEntry.entry hsame
    exact ⟨(v,o'),hv,hentry ▸ hinfo,hentry ▸ hpath⟩

theorem unprocessed_state {path : RelativePath} (hstates : Underway c access plan (contents start) t)
    (hunprocessed : ∀ v, Processed c plan v → v.entry.path ≠ path) :
    contents t path = contents start path ∨
      (planStatus plan = successStatus ∧ droppedPath c access path = true) := by
  have hstate := hstates path
  generalize contents t path = x at hstate
  cases hstate with
  | untouched => exact .inl rfl
  | visited hprocessed hpath _ => exact absurd hpath (hunprocessed _ hprocessed)
  | dropped hclean hdropped => exact .inr ⟨hclean,hdropped⟩

theorem visited_agrees (hplan : TreePlan tree c (contents start) plan) (hconst : ConstantTree tree access)
    (hwrites : c.dryRun = false) (hkept : c.rehashLocked = false) (hstates : Underway c access plan (contents start) t)
    (h : TreeRun tree stored true r) (hconfig : r.config = c) (hbefore : r.before = successStatus)
    (hquiet : (passState r t log).interrupted = false) {v : Visit} {o : VisitOutcome} (hv : (v,o) ∈ plan)
    (hinfo : v.entry.info = .file) :
    contents (passState r t log).session.table v.entry.path = o.columns.or (contents start v.entry.path) ∨
      (planStatus plan = successStatus ∧ droppedPath c access v.entry.path = true) := by
  obtain ⟨-,hok,hvisits,-⟩ := replanned hplan hconst hwrites hkept hstates h hconfig
  obtain ⟨hpassed,-⟩ := h.passed_contents hconst (hconfig ▸ hwrites) hbefore hquiet hok
  obtain ⟨hmem,rfl,-⟩ := hplan.entry hv
  obtain ⟨w,hw,hsame⟩ := hvisits v _ hv
  have hentry : w.entry = v.entry := congrArg TreeEntry.entry hsame
  have hcontents := hpassed w _ hw (hentry ▸ hinfo)
  rw [hentry] at hcontents
  rw [hcontents]
  by_cases hdepth : beyondMaxdepth c v.entry = true
  · have hsilent (x : Option FileColumns) : (visitOutcome c v x).columns = none := by
      unfold visitOutcome
      rw [if_pos hdepth]
    rw [hsilent,hsilent]
    apply unprocessed_state hstates
    intro u hprocessed hpath
    obtain ⟨humem,huinfo,-⟩ := hplan.outcome hprocessed
    have hfound : u.found = v.found := hconst.sound.unique humem hmem huinfo hinfo hpath
    have hnear := hprocessed.2.2
    rw [show u.entry = v.entry from congrArg TreeEntry.entry hfound,hdepth] at hnear
    cases hnear
  · have hprocessed : Processed c plan v := ⟨⟨_,hv⟩,hinfo,by simpa using hdepth⟩
    obtain ⟨-,-,houtcome,-⟩ := hplan.outcome hprocessed
    rw [houtcome]
    exact ((hstates v.entry.path).outcome hplan hconst hwrites hkept hprocessed).2.2

theorem passes_agree {single : RunScript} {roots : List RootPath} (hconst : ConstantTree tree access)
    (hwrites : c.dryRun = false) (hkept : c.rehashLocked = false)
    (hsingle : TreeRun tree roots true single) (hsingleConfig : single.config = c)
    (hsingleBefore : single.before = successStatus) (hsingleQuiet : (passState single start []).interrupted = false)
    (hplan : TreePlan tree c (contents start) (single.plan start))
    (hstates : Underway c access (single.plan start) (contents start) t)
    (h : TreeRun tree stored true r) (hconfig : r.config = c) (hbefore : r.before = successStatus)
    (hquiet : (passState r t log).interrupted = false) (path : RelativePath) :
    contents (passState r t log).session.table path = contents (passState single start []).session.table path ∨
      (planStatus (single.plan start) = successStatus ∧ droppedPath c access path = true) := by
  obtain ⟨-,hok,-,hback⟩ := replanned hplan hconst hwrites hkept hstates h hconfig
  obtain ⟨hvisited,hunvisited⟩ :=
    hsingle.passed_contents hconst (hsingleConfig ▸ hwrites) hsingleBefore hsingleQuiet hplan.goes
  by_cases hvisits : Visits (single.plan start) path
  · obtain ⟨⟨v,o⟩,hv,hinfo,rfl⟩ := hvisits
    rw [hvisited v o hv hinfo]
    exact visited_agrees hplan hconst hwrites hkept hstates h hconfig hbefore hquiet hv hinfo
  · rw [hunvisited path hvisits,
      (h.passed_contents hconst (hconfig ▸ hwrites) hbefore hquiet hok).2 path fun hno => hvisits (hback path hno)]
    apply unprocessed_state hstates
    rintro v ⟨⟨o,ho⟩,hinfo,-⟩ hpath
    exact hvisits ⟨(v,o),ho,hinfo,hpath⟩

end Passes

/-- Any number of interrupted updates followed by one that is not interrupted leave the rows
that one undisturbed update, if it does not fail, leaves. -/
theorem interruption_transparent {tree : Tree} {access : RelativePath → FileAccessStatus} {c : Config}
    {start t : FilesTable} {roots stored : List RootPath} {log : List Event} {final single : RunScript}
    (hconst : ConstantTree tree access) (hwrites : c.dryRun = false) (hkept : c.rehashLocked = false)
    (hruns : InterruptedRuns tree c start roots t stored log)
    (hfinal : TreeRun tree stored true final) (hfinalConfig : final.config = c)
    (hfinalQuiet : (runFrom final t log).interrupted = false)
    (hsingle : TreeRun tree roots true single) (hsingleConfig : single.config = c)
    (hsingleQuiet : (runFrom single start []).interrupted = false)
    (hok : (runFrom single start []).status.failure = false) (path : RelativePath) :
    contents (runFrom final t log).session.table path = contents (runFrom single start []).session.table path := by
  have hvalidated := hruns.validated hwrites
  by_cases hvalid : dbValidatePaths c [tree.root] roots = successStatus
  · have hfinalBefore : final.before = successStatus := by
      rw [hfinal.before_eq hfinalConfig,hvalidated,hvalid]
    have hsingleBefore : single.before = successStatus := by
      rw [hsingle.before_eq hsingleConfig,hvalid]
    obtain ⟨hfinalPass,-,-⟩ := hfinal.uninterrupted hfinalQuiet
    obtain ⟨hsinglePass,-,-⟩ := hsingle.uninterrupted hsingleQuiet
    have hgoes : planFailed (single.plan start) = false := by
      apply planFailed_of_status
      intro hfailure
      have hends := (hsingle.ends_early hconst.sound hsingleBefore hsingleQuiet (by rw [hfailure]; decide)).1
      rw [hends,hfailure] at hok
      cases hok
    have hplan : TreePlan tree c (contents start) (single.plan start) :=
      ⟨⟨_,hsingle.entries,by rw [hsingle.plan_eq,hsingleConfig]⟩,hgoes⟩
    have hstates := hruns.underway hplan hconst hwrites hkept hvalid
    obtain ⟨hstatus,-⟩ := replanned hplan hconst hwrites hkept hstates hfinal hfinalConfig
    have hpasses := passes_agree hconst hwrites hkept hsingle hsingleConfig hsingleBefore hsinglePass hplan hstates
      hfinal hfinalConfig hfinalBefore hfinalPass
    by_cases hclean : planStatus (single.plan start) = successStatus
    · obtain ⟨hfailed,hsingleContents⟩ :=
        hsingle.cleaned_contents hconst (hsingleConfig ▸ hwrites) hsingleBefore hsingleQuiet hclean
      obtain ⟨-,hfinalContents⟩ :=
        hfinal.cleaned_contents hconst (hfinalConfig ▸ hwrites) hfinalBefore hfinalQuiet (hstatus.trans hclean)
      rw [hsingleConfig] at hfailed hsingleContents
      rw [hfinalConfig] at hfinalContents
      have hsingleCleanup : (cleanupPlan c access (single.cleanup.selected (passState single start []).session.table)).failed = false := by
        by_contra hno
        rw [hfailed.mpr (by simpa using hno)] at hok
        cases hok
      have hfinalCleanup : (cleanupPlan c access (final.cleanup.selected (passState final t log).session.table)).failed = false := by
        apply cleanupPlan_goes
        intro e he
        rcases hpasses e.key with hsame | ⟨-,hdropped⟩
        · have hkey : e.key ∈ (passState single start []).session.table.keys := by
            rw [mem_keys_contents,← hsame,← mem_keys_contents]
            exact List.mem_map_of_mem (CleanupScript.mem_selected.mp he)
          obtain ⟨e',he',hkeys⟩ := List.mem_map.mp hkey
          rw [← hkeys]
          exact Option.isSome_iff_exists.mpr (rowFate_isSome hsingleCleanup e' (CleanupScript.mem_selected.mpr he'))
        · cases hfate : rowFate c (access e.key) e.key with
          | some fate => rfl
          | none =>
            rw [droppedPath,hfate] at hdropped
            cases hdropped
      rw [hfinalContents hfinalCleanup path,hsingleContents hsingleCleanup path]
      split
      · rfl
      · rename_i hstays
        exact (hpasses path).resolve_right fun hno => hstays hno.2
    · obtain ⟨-,hfinalSession⟩ := hfinal.ends_early hconst.sound hfinalBefore hfinalQuiet (by rw [hstatus]; exact hclean)
      obtain ⟨-,hsingleSession⟩ := hsingle.ends_early hconst.sound hsingleBefore hsingleQuiet hclean
      rw [hfinalSession,hsingleSession]
      exact (hpasses path).resolve_right fun hno => hclean hno.1
  · have hstart := hruns.idle hwrites hvalid
    rw [hfinal.idle (by rw [hfinal.before_eq hfinalConfig,hvalidated]; exact hvalid),
      hsingle.idle (by rw [hsingle.before_eq hsingleConfig]; exact hvalid),hstart]
    rfl

/-- The file `a` of one byte. -/
def fileVisit : Visit := .plain (.plain [97] 1 1) (.plain [7])

def fileRun : RunScript := .plain { update := true } [fileVisit] fun _ => .accessAllowed

/-- The same update, interrupted after its only chunk was saved. -/
def cutRun : RunScript :=
  .plain { update := true } [{ fileVisit with signal := { arrival := some (.saved 0) } }] fun _ => .accessAllowed

/-- What the interrupted update leaves on disk. -/
def cutTable : FilesTable := (runFrom cutRun .empty []).session.store.committed

theorem constantTree_file :
    ConstantTree (.plain [fileVisit] fun _ => .accessAllowed) fun _ => .accessAllowed :=
  constantTree_plain (by decide) fun v hv => by
    rw [List.mem_singleton.mp hv]
    exact ⟨rfl,_,rfl⟩

theorem treeRun_file : TreeRun (.plain [fileVisit] fun _ => .accessAllowed) [[47]] true fileRun :=
  TreeRun.plain _ rfl rfl fun v hv => by
    rw [List.mem_singleton.mp hv]
    exact Visit.plain_works _ _

theorem interruptedRuns_cut : InterruptedRuns (.plain [fileVisit] fun _ => .accessAllowed) fileRun.config .empty
    [[47]] cutTable [[47]] (runFrom cutRun .empty []).session.store.stamp :=
  .run .start cutRun (TreeRun.plain _ rfl rfl fun v hv => by
    rw [List.mem_singleton.mp hv]
    exact (Visit.plain_works _ _).signalled _) rfl List.mem_cons_self

theorem interruption_transparent_cut :
    contents (runFrom fileRun cutTable (runFrom cutRun .empty []).session.store.stamp).session.table [97] =
      contents (runFrom fileRun .empty []).session.table [97] :=
  interruption_transparent constantTree_file rfl rfl interruptedRuns_cut treeRun_file rfl (by decide +kernel)
    treeRun_file rfl (by decide +kernel) (by decide +kernel) [97]

/-- A pattern whose match fails on the path `b`. -/
def failingPattern : Pattern := fun path => if path = [98] then .regexpError else .notMatch

/-- The empty files `a` and `b`, the second met under a signal. -/
def failingVisits (signal : Signal Moment) : List Visit :=
  [.plain (.plain [97] 0 0) (.plain []),{ Visit.plain (.plain [98] 0 0) (.plain []) with signal := signal }]

/-- An update that cannot match its ignore pattern on `b`. -/
def failingRun (signal : Signal Moment) : RunScript :=
  .plain { update := true, ignorePatterns := [failingPattern] } (failingVisits signal) fun _ => .accessAllowed

def failingTree : Tree := .plain (failingVisits {}) fun _ => .accessAllowed

theorem treeRun_failing (signal : Signal Moment) : TreeRun failingTree [[47]] true (failingRun signal) := by
  have hworks : ∀ v ∈ failingVisits signal, v.Works := by
    intro v hv
    rcases List.mem_pair.mp hv with rfl | rfl
    · exact Visit.plain_works _ _
    · exact (Visit.plain_works _ _).signalled _
  exact TreeRun.plain _ rfl rfl hworks

/-- The failing update, interrupted before it meets `b`. -/
def failingCut : RunState := runFrom (failingRun { arrival := some .top }) .empty []

/-- The interrupted update commits the row of `a`, which a failing one rolls back. -/
theorem interruption_not_transparent :
    ConstantTree failingTree (fun _ => .accessAllowed) ∧ TreeRun failingTree [[47]] true (failingRun {}) ∧
    InterruptedRuns failingTree (failingRun {}).config .empty [[47]] failingCut.session.store.committed [[47]]
      failingCut.session.store.stamp ∧
    (let final := runFrom (failingRun {}) failingCut.session.store.committed failingCut.session.store.stamp
     final.interrupted = false ∧ final.session.table.keys = [[97]]) ∧
    (let single := runFrom (failingRun {}) .empty []
     single.interrupted = false ∧ single.session.table.keys = []) := by
  refine ⟨constantTree_plain (by decide) ?_,treeRun_failing _,
    .run .start _ (treeRun_failing { arrival := some .top }) rfl List.mem_cons_self,
    ⟨by decide +kernel,by decide +kernel⟩,by decide +kernel,by decide +kernel⟩
  intro v hv
  rcases List.mem_pair.mp hv with rfl | rfl
  · exact ⟨rfl,_,rfl⟩
  · exact ⟨rfl,_,rfl⟩

end Precizer.Guarantees
