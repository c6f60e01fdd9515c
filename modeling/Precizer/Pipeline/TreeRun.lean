import Precizer.Traversal.Tree
import Precizer.Database.SmoothCleanup
import Precizer.Database.PathsTable
import Precizer.Pipeline.RunRules

/-! # Runs over one directory tree

An update over a single root in which nothing fails is decided by the tree, the options
and the database. Its content pass follows its plan; unless the plan failed or found a
violation, its cleanup follows the plan of the rows under the first stored prefix.
-/
namespace Precizer.Pipeline
open General Rational Traversal Database

/-- A directory tree under one root, and what the access checks answer under any root. -/
structure Tree where
  root : RootPath
  entries : List TreeEntry
  openRoot : RootPath → Option (RelativePath → FileAccessStatus)

def Tree.files (tree : Tree) : List RelativePath :=
  (tree.entries.filter fun e => e.entry.info = .file).map fun e => e.entry.path

/-- The walk delivers every regular file once, and its access check agrees with that of the
cleanup. -/
structure Tree.Sound (tree : Tree) : Prop where
  root_ne_nil : tree.root ≠ []
  nodup : tree.files.Nodup
  access : ∃ access, tree.openRoot tree.root = some access ∧
    ∀ e ∈ tree.entries, e.entry.info = .file → access e.entry.path = e.access

/-- An update over the tree in which no operation fails. -/
structure TreeRun (tree : Tree) (stored : List RootPath) (existed : Bool) (r : RunScript) : Prop where
  compare : r.config.compare = false
  update : r.config.update = true
  before : r.before = dbValidatePaths r.config [tree.root] stored
  prefixes : r.prefixes = dbSavePrefixes r.config existed [tree.root] stored
  pass : r.pass.Works
  root : r.pass.roots.length = 1
  entries : r.pass.visits.map Visit.found = tree.entries
  cleanup : r.cleanup.Works
  openRoot : r.cleanup.openRoot = tree.openRoot
  closedOk : r.closedOk = true
  closeHalted : r.closeHalted = true → r.closeRaised = true

theorem files_found {tree : Tree} {visits : List Visit} (h : visits.map Visit.found = tree.entries) :
    tree.files = filePaths visits := by
  unfold Tree.files filePaths
  rw [← h,List.filter_map,List.map_map]
  rfl

def cleanupStatus (plan : CleanupPlan) : Return :=
  if plan.failed then failureStatus else if plan.violation then warningStatus else successStatus

section Run

variable {tree : Tree} {stored : List RootPath} {existed : Bool} {r : RunScript} {t : FilesTable} {log : List Event}

def passState (r : RunScript) (t : FilesTable) (log : List Event) : RunState :=
  runFileList r (openSession t log)

def RunScript.plan (r : RunScript) (t : FilesTable) : List (Visit × VisitOutcome) :=
  r.pass.plan r.config (contents t)

theorem TreeRun.plan_eq (h : TreeRun tree stored existed r) :
    r.plan t = walkPlan r.config (contents t) none r.pass.visits := by
  obtain ⟨root,hroot⟩ := List.length_eq_one_iff.mp h.root
  unfold RunScript.plan PassScript.plan PassScript.visits
  rw [hroot,List.flatMap_cons,List.flatMap_nil,List.append_nil]
  unfold rootsPlan rootsPlan
  dsimp only
  rw [ite_self,List.append_nil]

theorem passState_run (h : r.before = successStatus) : passState r t log =
    let p := fileList r.config r.pass (openSession t log)
    ⟨call (globalReturnStatus p.halted) successStatus p.status,p.session,p.interrupted⟩ := by
  unfold passState runFileList
  rw [h]
  rfl

theorem synced_open (t : FilesTable) (log : List Event) : Synced (openSession t log) := rfl

theorem call_planStatus (plan : List (Visit × VisitOutcome)) :
    call (globalReturnStatus false) successStatus (planStatus plan) = planStatus plan := by
  unfold planStatus
  split
  · decide
  · split <;> decide

theorem TreeRun.pass_follows (h : TreeRun tree stored existed r) (hsound : tree.Sound)
    (hbefore : r.before = successStatus) (hquiet : (passState r t log).interrupted = false) :
    PassFollowed r.config (r.plan t) (openSession t log) (fileList r.config r.pass (openSession t log)) ∧
      (passState r t log).status = planStatus (r.plan t) ∧
      (passState r t log).session = (fileList r.config r.pass (openSession t log)).session := by
  rw [passState_run hbefore] at hquiet ⊢
  have hnodup : (filePaths r.pass.visits).Nodup := by
    rw [← files_found h.entries]
    exact hsound.nodup
  have hagrees : Agrees (openSession t log).table (contents t) r.pass.visits := fun _ _ => rfl
  have hfollowed := fileList_follows h.pass h.compare hnodup (synced_open t log) hagrees hquiet
  refine ⟨hfollowed,?_,rfl⟩
  dsimp only
  rw [hfollowed.halted,hfollowed.status]
  exact call_planStatus _

theorem close_status {plan : CleanupPlan} : call (globalReturnStatus false) (cleanupStatus plan) (leave false true) =
    cleanupStatus plan := by
  unfold cleanupStatus
  split
  · decide
  · split <;> decide

theorem close_planStatus (plan : List (Visit × VisitOutcome)) :
    call (globalReturnStatus false) (planStatus plan) (leave false true) = planStatus plan := by
  unfold planStatus
  split
  · decide
  · split <;> decide

theorem TreeRun.uninterrupted (h : TreeRun tree stored existed r) (hquiet : (runFrom r t log).interrupted = false) :
    (passState r t log).interrupted = false ∧ r.closeHalted = false ∧
      ((passState r t log).status.skip = false → r.cleanup.Smooth) := by
  obtain ⟨hcleanup,hclose⟩ := Bool.or_eq_false_iff.mp
    (show ((runCleanup r (passState r t log)).interrupted || r.closeRaised) = false from hquiet)
  have hhalted : r.closeHalted = false := by
    cases hhalted : r.closeHalted with
    | false => rfl
    | true =>
      rw [h.closeHalted hhalted] at hclose
      cases hclose
  unfold runCleanup at hcleanup
  split at hcleanup
  · rename_i hskip
    refine ⟨hcleanup,hhalted,fun hno => ?_⟩
    rw [hskip] at hno
    cases hno
  · obtain ⟨hpass,harrived⟩ := Bool.or_eq_false_iff.mp hcleanup
    exact ⟨hpass,hhalted,fun _ => ⟨h.cleanup,by simpa [Signal.arrived] using harrived⟩⟩

theorem TreeRun.ends_early (h : TreeRun tree stored existed r) (hsound : tree.Sound)
    (hbefore : r.before = successStatus) (hquiet : (runFrom r t log).interrupted = false)
    (hplan : planStatus (r.plan t) ≠ successStatus) :
    (runFrom r t log).status = planStatus (r.plan t) ∧
      (runFrom r t log).session = (passState r t log).session := by
  obtain ⟨hpass,hclose,-⟩ := h.uninterrupted hquiet
  obtain ⟨-,hstatus,-⟩ := h.pass_follows hsound hbefore hpass
  have hskip : (passState r t log).status.skip = true := by
    rw [hstatus]
    unfold planStatus at hplan ⊢
    split
    · rfl
    · rename_i hok
      rw [if_neg hok] at hplan
      split
      · rfl
      · rename_i hclean
        rw [if_neg hclean] at hplan
        exact absurd rfl hplan
  have hcleanup : runCleanup r (passState r t log) = passState r t log := by
    unfold runCleanup
    rw [if_pos hskip]
  refine ⟨?_,show (runCleanup r (passState r t log)).session = _ from congrArg RunState.session hcleanup⟩
  change call (globalReturnStatus r.closeHalted) (runCleanup r (passState r t log)).status
    (leave r.closeHalted r.closedOk) = _
  rw [hcleanup,hclose,h.closedOk,hstatus]
  exact close_planStatus _

theorem TreeRun.reaches (h : TreeRun tree stored existed r) (hsound : tree.Sound)
    (hbefore : r.before = successStatus) (hquiet : (runFrom r t log).interrupted = false)
    (hplan : planStatus (r.plan t) = successStatus) :
    r.cleanup.Smooth ∧ ∀ status, (dbDeleteMissingMetadata r.config r.cleanup r.prefixes false
        (passState r t log).session).1 = status →
      call (globalReturnStatus false) successStatus status = status →
      call (globalReturnStatus false) status (leave false true) = status →
      (runFrom r t log).status = status ∧ (runFrom r t log).session =
        (dbDeleteMissingMetadata r.config r.cleanup r.prefixes false (passState r t log).session).2 := by
  obtain ⟨hpass,hclose,hsmooth⟩ := h.uninterrupted hquiet
  obtain ⟨-,hstatus,-⟩ := h.pass_follows hsound hbefore hpass
  rw [hplan] at hstatus
  have hskip : (passState r t log).status.skip = false := by
    rw [hstatus]
    rfl
  have hsmooth := hsmooth hskip
  refine ⟨hsmooth,?_⟩
  intro status hresult hmerged hclosed
  have hcleanup : (runCleanup r (passState r t log)).status = status ∧ (runCleanup r (passState r t log)).session =
      (dbDeleteMissingMetadata r.config r.cleanup r.prefixes false (passState r t log).session).2 := by
    unfold runCleanup
    rw [if_neg (by simp [hskip]),hpass,Signal.halted_none hsmooth.quiet]
    dsimp only
    rw [hstatus,hresult]
    exact ⟨hmerged,rfl⟩
  refine ⟨?_,hcleanup.2⟩
  change call (globalReturnStatus r.closeHalted) (runCleanup r (passState r t log)).status
    (leave r.closeHalted r.closedOk) = _
  rw [hcleanup.1,hclose,h.closedOk]
  exact hclosed

theorem TreeRun.head (h : TreeRun tree stored existed r) (hdry : r.config.dryRun = false)
    (hbefore : r.before = successStatus) : r.prefixes.head? = some tree.root := by
  rw [h.prefixes]
  exact dbSavePrefixes_head existed h.compare hdry (h.before.symm.trans hbefore)

theorem TreeRun.cleans (h : TreeRun tree stored existed r) (hsound : tree.Sound)
    (hhead : ∀ root, r.prefixes.head? = some root → root ≠ []) (hbefore : r.before = successStatus)
    (hquiet : (runFrom r t log).interrupted = false) (hplan : planStatus (r.plan t) = successStatus)
    {access : RelativePath → FileAccessStatus} (hroot : r.cleanup.root r.prefixes = some access) :
    let plan := cleanupPlan r.config access (r.cleanup.selected (passState r t log).session.table)
    (runFrom r t log).status = cleanupStatus plan ∧
      (runFrom r t log).session.reports = (passState r t log).session.reports ++ plan.reports ∧
      (runFrom r t log).session.table = (if r.config.dryRun || plan.failed then (passState r t log).session.table
        else eraseRows (passState r t log).session.table plan.dropped) := by
  obtain ⟨hsmooth,hends⟩ := h.reaches hsound hbefore hquiet hplan
  obtain ⟨hfollowed,-,hsession⟩ := h.pass_follows hsound hbefore (h.uninterrupted hquiet).1
  have hidle : (passState r t log).session.store.autocommit = true := by
    rw [hsession]
    exact hfollowed.idle
  obtain ⟨hstatus,hreports,htable⟩ := dbDeleteMissingMetadata_smooth hsmooth h.compare h.update (fun _ => hidle)
    hhead hroot
  have hmerged (plan : CleanupPlan) : call (globalReturnStatus false) successStatus (cleanupStatus plan) =
      cleanupStatus plan := by
    unfold cleanupStatus
    split
    · decide
    · split <;> decide
  obtain ⟨hfinal,hlast⟩ := hends _ hstatus (hmerged _) close_status
  refine ⟨hfinal,?_,?_⟩
  · rw [hlast]
    exact hreports
  · rw [hlast]
    exact htable

/-- The cleanup of a run that writes, under the root of the tree. -/
theorem TreeRun.cleaned (h : TreeRun tree stored existed r) (hsound : tree.Sound) (hwrites : r.config.dryRun = false)
    (hbefore : r.before = successStatus) (hquiet : (runFrom r t log).interrupted = false)
    (hplan : planStatus (r.plan t) = successStatus) {access : RelativePath → FileAccessStatus}
    (hopen : tree.openRoot tree.root = some access) :
    let plan := cleanupPlan r.config access (r.cleanup.selected (passState r t log).session.table)
    (runFrom r t log).status = cleanupStatus plan ∧ (plan.failed = false →
      (runFrom r t log).session.table.rows =
        (passState r t log).session.table.rows.filter fun e => !droppedPath r.config access e.key) := by
  have hhead := h.head hwrites hbefore
  have hroot : r.cleanup.root r.prefixes = some access := by
    rw [CleanupScript.root,hhead,h.openRoot]
    exact hopen
  have hnonempty : ∀ root, r.prefixes.head? = some root → root ≠ [] := by
    rw [hhead]
    rintro root ⟨⟩
    exact hsound.root_ne_nil
  obtain ⟨hstatus,-,htable⟩ := h.cleans hsound hnonempty hbefore hquiet hplan hroot
  refine ⟨hstatus,fun hgoes => ?_⟩
  rw [hwrites,hgoes,Bool.or_self,if_neg (by decide)] at htable
  rw [htable]
  exact eraseRows_dropped hgoes

/-- The rows after a run that does not fail. -/
theorem TreeRun.cleaned_rows (h : TreeRun tree stored existed r) (hsound : tree.Sound) (hwrites : r.config.dryRun = false)
    (hbefore : r.before = successStatus) (hquiet : (runFrom r t log).interrupted = false)
    (hplan : planStatus (r.plan t) = successStatus) (hok : (runFrom r t log).status.failure = false)
    {access : RelativePath → FileAccessStatus} (hopen : tree.openRoot tree.root = some access) :
    (runFrom r t log).session.table.rows =
      (passState r t log).session.table.rows.filter fun e => !droppedPath r.config access e.key := by
  obtain ⟨hstatus,hrows⟩ := h.cleaned hsound hwrites hbefore hquiet hplan hopen
  apply hrows
  by_contra hfailed
  rw [hstatus,cleanupStatus,if_pos (by simpa using hfailed)] at hok
  cases hok

end Run

section Plain

theorem CleanupScript.plain_works (access : RelativePath → FileAccessStatus) : (CleanupScript.plain access).Works where
  prefixRead := rfl
  begin := rfl
  prepared := rfl
  copied := fun _ => rfl
  remember := fun _ => show SqlOutcome.done ≠ .rolledBack by decide
  delete := fun _ => rfl
  stepDone := rfl
  finalized := rfl
  closed := rfl
  commit := rfl
  rollback := rfl

def Tree.plain (visits : List Visit) (access : RelativePath → FileAccessStatus) : Tree :=
  ⟨[47],visits.map Visit.found,fun _ => some access⟩

theorem TreeRun.plain {c : Config} {visits : List Visit} (access : RelativePath → FileAccessStatus)
    (hcompare : c.compare = false) (hupdate : c.update = true) (hworks : ∀ v ∈ visits, v.Works) :
    TreeRun (.plain visits access) [[47]] true (.plain c visits access) where
  compare := hcompare
  update := hupdate
  before := by
    change successStatus = dbValidatePaths c [[47]] [[47]]
    unfold dbValidatePaths
    rw [hcompare]
    rfl
  prefixes := by
    change [[47]] = dbSavePrefixes c true [[47]] [[47]]
    unfold dbSavePrefixes
    rw [hcompare]
    cases c.dryRun <;> cases c.force <;> rfl
  pass := PassScript.plain_works hworks
  root := rfl
  entries := by
    change (PassScript.plain visits).visits.map Visit.found = visits.map Visit.found
    rw [PassScript.visits,PassScript.plain,List.flatMap_cons,List.flatMap_nil,List.append_nil]
  cleanup := CleanupScript.plain_works access
  openRoot := rfl
  closedOk := rfl
  closeHalted := fun hno => by cases hno

end Plain

end Precizer.Pipeline
