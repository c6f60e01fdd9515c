import Precizer.Traversal.PlanRules
import Precizer.Pipeline.TreeRun

/-! # Interrupted runs over a constant tree

Between the runs every row is untouched, or on its way to the columns that one undisturbed
visit would give it, or deleted by a cleanup that one undisturbed run would have deleted it
in. A run that is not interrupted brings each of them to the same end.
-/
namespace Precizer.Pipeline
open General Rational Digest Traversal Database

/-- A tree that does not change and whose files can all be read. -/
structure ConstantTree (tree : Tree) (access : RelativePath → FileAccessStatus) : Prop where
  sound : tree.Sound
  opened : tree.openRoot tree.root = some access
  readable : ∀ e ∈ tree.entries, e.entry.info = .file → e.access = .accessAllowed ∧ e.reading.Constant

/-- What interrupted runs make of the columns of a path, under the plan of one undisturbed run. -/
inductive RowState (c : Config) (access : RelativePath → FileAccessStatus) (plan : List (Visit × VisitOutcome))
    (start : RelativePath → Option FileColumns) (path : RelativePath) : Option FileColumns → Prop where
  | untouched : RowState c access plan start path (start path)
  | visited {v : Visit} {x : Option FileColumns} (hprocessed : Processed c plan v) (hpath : v.entry.path = path)
      (hreached : Reached c v (start path) x) : RowState c access plan start path x
  | dropped (hclean : planStatus plan = successStatus) (hdropped : droppedPath c access path = true) :
      RowState c access plan start path none

def Underway (c : Config) (access : RelativePath → FileAccessStatus) (plan : List (Visit × VisitOutcome))
    (start : RelativePath → Option FileColumns) (t : FilesTable) : Prop :=
  ∀ path, RowState c access plan start path (contents t path)

/-- The plan of one undisturbed pass over some visits of the tree. -/
structure TreePlan (tree : Tree) (c : Config) (start : RelativePath → Option FileColumns)
    (plan : List (Visit × VisitOutcome)) : Prop where
  planned : ∃ visits, visits.map Visit.found = tree.entries ∧ plan = walkPlan c start none visits
  goes : planFailed plan = false

theorem constantTree_plain {visits : List Visit} (hnodup : (Tree.plain visits fun _ => .accessAllowed).files.Nodup)
    (hplain : ∀ v ∈ visits, v.access = .accessAllowed ∧ ∃ content, v.disk = .plain content) :
    ConstantTree (.plain visits fun _ => .accessAllowed) fun _ => .accessAllowed where
  sound := ⟨List.cons_ne_nil _ _,hnodup,_,rfl,fun e he _ => by
    obtain ⟨v,hv,rfl⟩ := List.mem_map.mp he
    exact (hplain v hv).1.symm⟩
  opened := rfl
  readable := by
    intro e he _
    obtain ⟨v,hv,rfl⟩ := List.mem_map.mp he
    obtain ⟨haccess,content,hdisk⟩ := hplain v hv
    refine ⟨haccess,?_⟩
    rw [show v.found.reading = (DiskFile.plain content).reading from congrArg DiskFile.reading hdisk]
    exact DiskFile.plain_reading content

section Tree

variable {tree : Tree} {access : RelativePath → FileAccessStatus} {c : Config}
  {start : RelativePath → Option FileColumns} {plan : List (Visit × VisitOutcome)}

theorem Tree.Sound.unique (h : tree.Sound) {e e' : TreeEntry} (he : e ∈ tree.entries) (he' : e' ∈ tree.entries)
    (hinfo : e.entry.info = .file) (hinfo' : e'.entry.info = .file) (hpath : e.entry.path = e'.entry.path) :
    e = e' :=
  List.inj_on_of_nodup_map h.nodup (List.mem_filter.mpr ⟨he,by simpa using hinfo⟩)
    (List.mem_filter.mpr ⟨he',by simpa using hinfo'⟩) hpath

theorem ConstantTree.visit (h : ConstantTree tree access) {v : Visit} (hv : v.found ∈ tree.entries)
    (hinfo : v.entry.info = .file) : v.access = .accessAllowed ∧ v.disk.reading.Constant ∧
      access v.entry.path = .accessAllowed := by
  obtain ⟨haccess,hconstant⟩ := h.readable _ hv hinfo
  obtain ⟨access',hopened,hagrees⟩ := h.sound.access
  rw [h.opened] at hopened
  cases hopened
  exact ⟨haccess,hconstant,(hagrees _ hv hinfo).trans haccess⟩

theorem TreePlan.entry (h : TreePlan tree c start plan) {v : Visit} {o : VisitOutcome} (hv : (v,o) ∈ plan) :
    v.found ∈ tree.entries ∧ o = visitOutcome c v (start v.entry.path) ∧ o.failed = false := by
  obtain ⟨visits,hfound,rfl⟩ := h.planned
  obtain ⟨hmem,houtcome⟩ := mem_walkPlan visits none _ hv
  refine ⟨hfound ▸ List.mem_map_of_mem hmem,houtcome,?_⟩
  by_contra hfailed
  have hany : planFailed (walkPlan c start none visits) = true :=
    List.any_eq_true.mpr ⟨_,hv,by simpa using hfailed⟩
  rw [h.goes] at hany
  cases hany

theorem TreePlan.transport (h : TreePlan tree c start plan) {visits : List Visit}
    (hfound : visits.map Visit.found = tree.entries) : TreePlan tree c start (walkPlan c start none visits) ∧
      planStatus (walkPlan c start none visits) = planStatus plan ∧
      (∀ v o, (v,o) ∈ walkPlan c start none visits → ∃ w, (w,o) ∈ plan ∧ w.found = v.found) ∧
      ∀ w o, (w,o) ∈ plan → ∃ v, (v,o) ∈ walkPlan c start none visits ∧ v.found = w.found := by
  obtain ⟨visits',hfound',rfl⟩ := h.planned
  have hsame : (walkPlan c start none visits).map (fun x => (x.1.found,x.2)) =
      (walkPlan c start none visits').map fun x => (x.1.found,x.2) :=
    walkPlan_found (hfound.trans hfound'.symm) none
  obtain ⟨-,hstatus⟩ := plan_facts hsame
  have hcarry {plan plan' : List (Visit × VisitOutcome)}
      (hsame : plan.map (fun x => (x.1.found,x.2)) = plan'.map fun x => (x.1.found,x.2)) (v : Visit)
      (o : VisitOutcome) (hv : (v,o) ∈ plan) : ∃ w, (w,o) ∈ plan' ∧ w.found = v.found := by
    have hmem : (v.found,o) ∈ plan'.map fun x => (x.1.found,x.2) :=
      hsame ▸ List.mem_map_of_mem (f := fun x : Visit × VisitOutcome => (x.1.found,x.2)) hv
    obtain ⟨⟨w,o'⟩,hw,heq⟩ := List.mem_map.mp hmem
    obtain ⟨hfound,rfl⟩ := Prod.mk.inj heq
    exact ⟨w,hw,hfound⟩
  refine ⟨⟨⟨visits,hfound,rfl⟩,?_⟩,hstatus,hcarry hsame,hcarry hsame.symm⟩
  apply planFailed_of_status
  rw [hstatus]
  intro hfailure
  have hno := planStatus_failure.mp hfailure
  rw [h.goes] at hno
  cases hno

theorem TreePlan.processed (h : TreePlan tree c start plan) {visits : List Visit}
    (hfound : visits.map Visit.found = tree.entries) {v : Visit}
    (hv : Processed c (walkPlan c start none visits) v) : ∃ w, Processed c plan w ∧ w.found = v.found := by
  obtain ⟨⟨o,ho⟩,hinfo,hdepth⟩ := hv
  obtain ⟨w,hw,hsame⟩ := (h.transport hfound).2.2.1 v o ho
  have hentry : w.entry = v.entry := congrArg TreeEntry.entry hsame
  exact ⟨w,⟨⟨o,hw⟩,hentry ▸ hinfo,hentry ▸ hdepth⟩,hsame⟩

theorem TreePlan.outcome (h : TreePlan tree c start plan) {v : Visit} (hv : Processed c plan v) :
    v.found ∈ tree.entries ∧ v.entry.info = .file ∧ visitOutcome c v = fileOutcome c v ∧
      (fileOutcome c v (start v.entry.path)).failed = false := by
  obtain ⟨⟨o,ho⟩,hinfo,hdepth⟩ := hv
  obtain ⟨hmem,rfl,hok⟩ := h.entry ho
  have houtcome : visitOutcome c v = fileOutcome c v := by
    funext stored
    unfold visitOutcome entryOutcome
    rw [hdepth,hinfo]
    rfl
  rw [houtcome] at hok
  exact ⟨hmem,hinfo,houtcome,hok⟩

variable {x : Option FileColumns} {v : Visit}

theorem RowState.of_processed (hplan : TreePlan tree c start plan) (hconst : ConstantTree tree access)
    (hv : Processed c plan v) (h : RowState c access plan start v.entry.path x) :
    Reached c v (start v.entry.path) x ∨
      (x = none ∧ planStatus plan = successStatus ∧ droppedPath c access v.entry.path = true ∧
        (matchIncludeIgnore c false v.entry.path).ignored = true ∧ c.locked v.entry.path = false) := by
  obtain ⟨hmem,hinfo,-⟩ := hplan.outcome hv
  cases h with
  | untouched => exact .inl .initial
  | @visited w _ hprocessed hpath hreached =>
    obtain ⟨hmem',hinfo',-⟩ := hplan.outcome hprocessed
    have hsame : w.found = v.found := hconst.sound.unique hmem' hmem hinfo' hinfo hpath
    exact .inl (hreached.found hsame)
  | dropped hclean hdropped =>
    obtain ⟨hignored,hunlocked⟩ := dropped_accessible (hconst.visit hmem hinfo).2.2 hdropped
    exact .inr ⟨rfl,hclean,hdropped,hignored,hunlocked⟩

theorem RowState.outcome (hplan : TreePlan tree c start plan) (hconst : ConstantTree tree access)
    (hwrites : c.dryRun = false) (hkept : c.rehashLocked = false) (hv : Processed c plan v)
    (h : RowState c access plan start v.entry.path x) :
    (fileOutcome c v x).failed = false ∧
      (fileOutcome c v x).violation = (fileOutcome c v (start v.entry.path)).violation ∧
      (afterVisit c v x = afterVisit c v (start v.entry.path) ∨
        (planStatus plan = successStatus ∧ droppedPath c access v.entry.path = true)) := by
  obtain ⟨hmem,hinfo,-,hok⟩ := hplan.outcome hv
  obtain ⟨haccess,hconstant,-⟩ := hconst.visit hmem hinfo
  have hperform : performFileHashing c = true := by
    rw [performFileHashing,hwrites]
    rfl
  have hpatterns := patternsMatch_of_goes hok
  rcases h.of_processed hplan hconst hv with hreached | ⟨-,hclean,hdropped,hignored,hunlocked⟩
  · obtain ⟨hgoes,hviolation,hafter⟩ := hreached.outcome hconstant haccess hperform hkept hpatterns hok
    exact ⟨hgoes,hviolation,.inl hafter⟩
  · obtain ⟨hgoes,hviolation,-⟩ := fileOutcome_ignored x hpatterns hignored hunlocked
    obtain ⟨-,hviolation',-⟩ := fileOutcome_ignored (start v.entry.path) hpatterns hignored hunlocked
    exact ⟨hgoes,hviolation.trans hviolation'.symm,.inr ⟨hclean,hdropped⟩⟩

theorem Underway.replans (hplan : TreePlan tree c start plan) (hconst : ConstantTree tree access)
    (hwrites : c.dryRun = false) (hkept : c.rehashLocked = false) {t : FilesTable}
    (h : Underway c access plan start t) {visits : List Visit} (hfound : visits.map Visit.found = tree.entries) :
    walkPlan c (contents t) none visits = (walkPlan c start none visits).map
        (fun x => (x.1,visitOutcome c x.1 (contents t x.1.entry.path))) ∧
      planStatus (walkPlan c (contents t) none visits) = planStatus plan := by
  obtain ⟨hplan',hstatus,-,-⟩ := hplan.transport hfound
  have hsettled : ∀ x ∈ walkPlan c start none visits,
      (visitOutcome c x.1 (contents t x.1.entry.path)).failed = x.2.failed ∧
        (visitOutcome c x.1 (contents t x.1.entry.path)).violation = x.2.violation := by
    rintro ⟨v,o⟩ hv
    obtain ⟨-,rfl,hok⟩ := hplan'.entry hv
    dsimp only at hok ⊢
    by_cases hinfo : v.entry.info = .file
    · by_cases hdepth : beyondMaxdepth c v.entry = true
      · have hsame : visitOutcome c v (contents t v.entry.path) = visitOutcome c v (start v.entry.path) := by
          unfold visitOutcome
          rw [if_pos hdepth,if_pos hdepth]
        rw [hsame]
        exact ⟨rfl,rfl⟩
      · have hprocessed : Processed c (walkPlan c start none visits) v := ⟨⟨_,hv⟩,hinfo,by simpa using hdepth⟩
        obtain ⟨w,hw,hsame⟩ := hplan.processed hfound hprocessed
        have hpath : w.entry.path = v.entry.path := congrArg (fun e : TreeEntry => e.entry.path) hsame
        obtain ⟨-,-,houtcome,-⟩ := hplan'.outcome hprocessed
        have hstate := h v.entry.path
        rw [← hpath] at hstate
        obtain ⟨hgoes,hviolation,-⟩ := hstate.outcome hplan hconst hwrites hkept hw
        rw [houtcome] at hok ⊢
        rw [hpath,fileOutcome_found hsame] at hgoes hviolation
        rw [fileOutcome_found hsame] at hviolation
        exact ⟨hgoes.trans hok.symm,hviolation⟩
    · rw [visitOutcome_other hinfo _ (start v.entry.path)]
      exact ⟨rfl,rfl⟩
  have hmapped := walkPlan_stored (contents t) visits none hplan'.goes fun x hx => by
    rw [(hsettled x hx).1]
    exact (hplan'.entry (v := x.1) (o := x.2) hx).2.2
  refine ⟨hmapped,?_⟩
  rw [← hstatus]
  apply planStatus_congr
  rw [hmapped,List.map_map]
  apply List.map_congr_left
  intro x hx
  obtain ⟨hfailed,hviolation⟩ := hsettled x hx
  rw [Function.comp_apply]
  dsimp only
  rw [hfailed,hviolation]

theorem underway_stable : Store.Stable fun (_ : List Event) t => Underway c access plan start t := fun _ _ _ h => h

theorem Underway.saves (hplan : TreePlan tree c start plan) (hconst : ConstantTree tree access)
    (hkept : c.rehashLocked = false) {p : Pass} {w : Visit} (hw : Processed c plan w) (hsame : w.found = v.found)
    (h : p.session.Always fun _ t => Underway c access plan start t) :
    SavesKeep (fun _ t => Underway c access plan start t) c v p := by
  intro log columns t t' hdry _ hpoint hreplaces hstates path
  obtain ⟨hmem,hinfo,-,hok⟩ := hplan.outcome hw
  have hentry : w.entry = v.entry := congrArg TreeEntry.entry hsame
  obtain ⟨⟨id,hfind⟩,hothers⟩ := hreplaces
  by_cases hpath : path = v.entry.path
  · subst hpath
    have hcontents : contents t' v.entry.path = some columns := by
      rw [contents,hfind]
      rfl
    have hstate : RowState c access plan start w.entry.path (contents p.session.table v.entry.path) := by
      rw [hentry]
      exact h.working v.entry.path
    obtain ⟨i,hrow⟩ := readRow_stored p.session.table v.entry.path
    have hrow : p.row v = { storedRow (contents p.session.table v.entry.path) with ID := i } := hrow
    have hready := hpoint.ready
    have hcolumns := hpoint.columns
    rw [hrow] at hready hcolumns
    have hready := hready.withoutID
    rcases hstate.of_processed hplan hconst hw with hreached | ⟨-,-,-,hignored,hunlocked⟩
    · have hreached := hreached.found hsame
      rw [hentry] at hreached hok
      rw [fileOutcome_found hsame] at hok
      have hconstant : v.disk.reading.Constant :=
        (hconst.visit (hsame ▸ hmem) (hentry ▸ hinfo)).2.1
      have hperform : performFileHashing c = true := by
        rw [performFileHashing,hdry]
        rfl
      rw [hcontents]
      exact .visited hw (by rw [hentry]) ((hreached.save hconstant hperform hkept (patternsMatch_of_goes hok)
        hready hcolumns.withoutID).found hsame.symm)
    · rw [hentry] at hignored hunlocked
      have hvisible := hready.visible hunlocked
      rw [hignored] at hvisible
      cases hvisible
  · have hsameRow : contents t' path = contents t path := by
      rw [contents,hothers path hpath,contents]
    rw [hsameRow]
    exact hstates path

theorem Underway.deletes (hclean : planStatus plan = successStatus) {e : Entry RelativePath FileColumns}
    {t t' : FilesTable} (hdeletable : Deletable c (access e.key) e.key) (he : e ∈ t.rows) (hsub : t'.rows ⊆ t.rows)
    (h : Underway c access plan start t') : Underway c access plan start (t'.erase e.ident) := by
  have hunique : ∀ e' ∈ t'.rows, e'.ident = e.ident ∨ e'.key = e.key → e' = e := by
    rintro e' he' (hident | hkey)
    · exact List.inj_on_of_nodup_map t.identsNodup (hsub he') he hident
    · exact List.inj_on_of_nodup_map t.keysNodup (hsub he') he hkey
  intro path
  rw [contents_erase hunique]
  split
  · rename_i hpath
    rw [hpath]
    exact .dropped hclean hdeletable.dropped
  · exact h path

end Tree

section Run

variable {tree : Tree} {access : RelativePath → FileAccessStatus} {start : RelativePath → Option FileColumns}
  {plan : List (Visit × VisitOutcome)} {stored : List RootPath} {existed : Bool} {r : RunScript} {t : FilesTable}
  {log : List Event}

theorem TreeRun.keeps_underway (h : TreeRun tree stored existed r) (hplan : TreePlan tree r.config start plan)
    (hconst : ConstantTree tree access) (hwrites : r.config.dryRun = false) (hkept : r.config.rehashLocked = false)
    (hbefore : r.before = successStatus) (hstates : Underway r.config access plan start t) :
    (runFrom r t log).session.Always fun _ t => Underway r.config access plan start t := by
  have hskip : ¬ r.before.skip = true := by
    rw [hbefore]
    decide
  have hsaves : ∀ m ∈ runMet r (openSession t log),
      (m.2.session.Always fun _ t => Underway r.config access plan start t) →
      SavesKeep (fun _ t => Underway r.config access plan start t) r.config m.1 m.2 := by
    intro m hm halways
    rw [runMet,if_neg hskip] at hm
    obtain ⟨-,hprocessed⟩ := passMet_processed start h.pass h.root h.compare (synced_open t log)
      (hplan.transport h.entries).1.goes m hm
    obtain ⟨w,hw,hsame⟩ := hplan.processed h.entries hprocessed
    exact Underway.saves hplan hconst hkept hw hsame halways
  have hpassed : (passState r t log).session.Always fun _ t => Underway r.config access plan start t :=
    runFileList_always underway_stable hsaves (openSession_always hstates)
  change (runCleanup r (passState r t log)).session.Always _
  unfold runCleanup
  split
  · exact hpassed
  · rename_i hgoes
    cases hint : (passState r t log).interrupted with
    | true =>
      unfold dbDeleteMissingMetadata
      exact hpassed
    | false =>
      obtain ⟨-,hstatus,-⟩ := h.pass_follows hconst.sound hbefore hint
      have hclean : planStatus plan = successStatus := by
        rw [h.plan_eq,(hstates.replans hplan hconst hwrites hkept h.entries).2] at hstatus
        rw [hstatus] at hgoes
        unfold planStatus at hgoes ⊢
        split
        · rename_i hfailed
          rw [if_pos hfailed] at hgoes
          exact absurd rfl hgoes
        · rename_i hok
          rw [if_neg hok] at hgoes
          split
          · rename_i hviolation
            rw [if_pos hviolation] at hgoes
            exact absurd rfl hgoes
          · rfl
      refine dbDeleteMissingMetadata_always underway_stable hpassed ?_
      intro accessOf e hroot he hdeletable _ t' hsub hstates
      rw [h.head hwrites hbefore,h.openRoot] at hroot
      have haccess : access = accessOf := Option.some.inj (hconst.opened.symm.trans hroot)
      subst haccess
      exact hstates.deletes hclean hdeletable he hsub

theorem TreeRun.passed_contents (h : TreeRun tree stored existed r) (hconst : ConstantTree tree access)
    (hwrites : r.config.dryRun = false) (hbefore : r.before = successStatus)
    (hquiet : (passState r t log).interrupted = false) (hok : planFailed (r.plan t) = false) :
    (∀ v o, (v,o) ∈ r.plan t → v.entry.info = .file →
      contents (passState r t log).session.table v.entry.path = o.columns.or (contents t v.entry.path)) ∧
    ∀ path, ¬ Visits (r.plan t) path → contents (passState r t log).session.table path = contents t path := by
  obtain ⟨hfollowed,-,hsession⟩ := h.pass_follows hconst.sound hbefore hquiet
  obtain ⟨first,p,hfirst,hwalked,htable⟩ := hfollowed.walked
  have htable : (passState r t log).session.table = p.session.table := by
    rw [hsession]
    exact htable hok
  have hfirst : first.session.table = t := by
    rw [hfirst]
    rfl
  rw [htable]
  constructor
  · intro v o hv hinfo
    have hmem : v.found ∈ tree.entries := by
      rw [h.plan_eq] at hv
      exact h.entries ▸ List.mem_map_of_mem (mem_walkPlan _ _ _ hv).1
    obtain ⟨-,hconstant,-⟩ := hconst.visit hmem hinfo
    cases hcolumns : o.columns with
    | some columns => exact hwalked.written hwrites hok _ hv columns hcolumns
    | none =>
      have hlegible : v.Legible := ⟨hconstant.openable,hconstant.readable⟩
      rw [hwalked.unwritten hok _ hv hinfo (hlegible.uncut _ _) hcolumns,hfirst]
      rfl
  · intro path hunvisited
    rw [hwalked.others hok path hunvisited,hfirst]

/-- The columns after a run whose pass found nothing amiss. -/
theorem TreeRun.cleaned_contents (h : TreeRun tree stored existed r) (hconst : ConstantTree tree access)
    (hwrites : r.config.dryRun = false) (hbefore : r.before = successStatus)
    (hquiet : (runFrom r t log).interrupted = false) (hclean : planStatus (r.plan t) = successStatus) :
    ((runFrom r t log).status.failure = true ↔
        (cleanupPlan r.config access (r.cleanup.selected (passState r t log).session.table)).failed = true) ∧
      ((cleanupPlan r.config access (r.cleanup.selected (passState r t log).session.table)).failed = false → ∀ path,
        contents (runFrom r t log).session.table path = if droppedPath r.config access path then none
          else contents (passState r t log).session.table path) := by
  obtain ⟨hstatus,hrows⟩ := h.cleaned hconst.sound hwrites hbefore hquiet hclean hconst.opened
  constructor
  · rw [hstatus,cleanupStatus]
    cases (cleanupPlan r.config access (r.cleanup.selected (passState r t log).session.table)).failed with
    | true => exact ⟨fun _ => rfl,fun _ => rfl⟩
    | false =>
      cases (cleanupPlan r.config access (r.cleanup.selected (passState r t log).session.table)).violation with
      | true => exact ⟨(fun hno => by cases hno),(fun hno => by cases hno)⟩
      | false => exact ⟨(fun hno => by cases hno),(fun hno => by cases hno)⟩
  · intro hok path
    exact contents_filter (hrows hok) path

end Run

def storedAfter (r : RunScript) (stored : List RootPath) : List RootPath :=
  if r.before = successStatus then r.prefixes else stored

/-- The files table on disk, with the stored roots, after any number of updates of the tree
with the same options, each interrupted or cut off anywhere in its passes. -/
inductive InterruptedRuns (tree : Tree) (c : Config) (start : FilesTable) (roots : List RootPath) :
    FilesTable → List RootPath → List Event → Prop where
  | start : InterruptedRuns tree c start roots start roots []
  | run {t : FilesTable} {stored : List RootPath} {log : List Event} (h : InterruptedRuns tree c start roots t stored log)
      (r : RunScript) (hrun : TreeRun tree stored true r) (hconfig : r.config = c) {t' : FilesTable} {log' : List Event}
      (hdisk : (t',log') ∈ (runFrom r t log).session.store.durable) :
      InterruptedRuns tree c start roots t' (storedAfter r stored) log'

section Runs

variable {tree : Tree} {access : RelativePath → FileAccessStatus} {c : Config} {start t : FilesTable}
  {roots stored : List RootPath} {log : List Event} {r : RunScript}

/-- A run that may not go on leaves everything as it is. -/
theorem TreeRun.idle (h : TreeRun tree stored true r) (hbefore : r.before ≠ successStatus) :
    (runFrom r t log).session = openSession t log := by
  have hwarned : r.before = warningStatus := by
    rcases dbValidatePaths_cases r.config [tree.root] stored with hvalid | hwarned
    · exact absurd (h.before.trans hvalid) hbefore
    · exact h.before.trans hwarned
  have hpassed : runFileList r (openSession t log) = ⟨warningStatus,openSession t log,r.pass.raisedBefore⟩ := by
    unfold runFileList
    rw [hwarned]
    rfl
  change (runCleanup r (runFileList r (openSession t log))).session = _
  rw [hpassed]
  rfl

theorem TreeRun.before_eq (h : TreeRun tree stored true r) (hconfig : r.config = c) :
    r.before = dbValidatePaths c [tree.root] stored := by
  rw [h.before,hconfig]

/-- All the runs may go on, or none of them. -/
theorem InterruptedRuns.validated (hwrites : c.dryRun = false) (h : InterruptedRuns tree c start roots t stored log) :
    dbValidatePaths c [tree.root] stored = dbValidatePaths c [tree.root] roots := by
  induction h with
  | start => rfl
  | @run t stored log hruns r hrun hconfig t' log' hdisk ih =>
    unfold storedAfter
    split
    · rename_i hbefore
      have hvalid : dbValidatePaths c [tree.root] stored = successStatus :=
        (hrun.before_eq hconfig).symm.trans hbefore
      rw [hrun.prefixes,hconfig,dbValidatePaths_saved true (hconfig ▸ hrun.compare) hwrites hvalid,← ih,hvalid]
    · exact ih

theorem InterruptedRuns.idle (hwrites : c.dryRun = false)
    (hinvalid : dbValidatePaths c [tree.root] roots ≠ successStatus)
    (h : InterruptedRuns tree c start roots t stored log) : t = start := by
  induction h with
  | start => rfl
  | @run t stored log hruns r hrun hconfig t' log' hdisk ih =>
    have hbefore : r.before ≠ successStatus := by
      rw [hrun.before_eq hconfig,hruns.validated hwrites]
      exact hinvalid
    rw [hrun.idle hbefore] at hdisk
    rcases List.mem_cons.mp hdisk with hlast | hno
    · exact (congrArg Prod.fst hlast).trans ih
    · cases hno

theorem InterruptedRuns.underway {plan : List (Visit × VisitOutcome)} (hplan : TreePlan tree c (contents start) plan)
    (hconst : ConstantTree tree access) (hwrites : c.dryRun = false) (hkept : c.rehashLocked = false)
    (hvalid : dbValidatePaths c [tree.root] roots = successStatus)
    (h : InterruptedRuns tree c start roots t stored log) : Underway c access plan (contents start) t := by
  induction h with
  | start => exact fun path => .untouched
  | @run t stored log hruns r hrun hconfig t' log' hdisk ih =>
    have hbefore : r.before = successStatus := by
      rw [hrun.before_eq hconfig,hruns.validated hwrites]
      exact hvalid
    subst hconfig
    exact (hrun.keeps_underway hplan hconst hwrites hkept hbefore ih).durable _ hdisk

end Runs

end Precizer.Pipeline
