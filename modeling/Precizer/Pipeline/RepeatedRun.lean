import Precizer.Traversal.IdleVisit
import Precizer.Database.IdleCleanup
import Precizer.Pipeline.MetRows

/-! # The same update twice

The second of two updates over one tree meets the files of the first with what the first has
left in their rows. Its cleanup is reached only if that of the first was, and then every row
that could be dropped is gone.
-/
namespace Precizer.Pipeline
open General Rational Digest Traversal Database

/-- What the paths table holds after a run; a run that ends before its passes leaves it alone. -/
def RunScript.storedAfter (r : RunScript) (stored : List RootPath) : List RootPath :=
  if r.before.skip then stored else r.prefixes

def runAgain (r r' : RunScript) (t : FilesTable) (log : List Event) : RunState :=
  runFrom r' (runFrom r t log).session.store.committed (runFrom r t log).session.store.stamp

/-- An update of a tree and the same update once more. No interrupt arrives, and the first does
not fail. There is a database afterwards: a dry run does not create one. -/
structure RepeatedUpdate (tree : Tree) (stored : List RootPath) (existed : Bool) (r r' : RunScript) (t : FilesTable)
    (log : List Event) : Prop where
  sound : tree.Sound
  first : TreeRun tree stored existed r
  second : TreeRun tree (r.storedAfter stored) true r'
  options : r'.config = r.config
  database : r.config.dryRun = true → existed = true
  uninterrupted : (runFrom r t log).interrupted = false
  unfailed : (runFrom r t log).status.failure = false
  undisturbed : (runAgain r r' t log).interrupted = false

section Plans

variable {c : Config} {stored stored' : RelativePath → Option FileColumns}

theorem walkPlan_visits (visits : List Visit) (skipBelow : Option ℕ)
    (hok : planFailed (walkPlan c stored skipBelow visits) = false)
    (hok' : planFailed (walkPlan c stored' skipBelow visits) = false) :
    (walkPlan c stored' skipBelow visits).map Prod.fst = (walkPlan c stored skipBelow visits).map Prod.fst := by
  induction visits generalizing skipBelow with
  | nil => rfl
  | cons v rest ih =>
    unfold walkPlan at hok hok' ⊢
    split
    · rename_i hdelivered
      rw [if_pos hdelivered] at hok hok'
      dsimp only at hok hok' ⊢
      rw [planFailed,List.any_cons,Bool.or_eq_false_iff] at hok hok'
      obtain ⟨hfirst,hrest⟩ := hok
      obtain ⟨hfirst',hrest'⟩ := hok'
      dsimp only at hfirst hfirst'
      rw [hfirst] at hrest ⊢
      rw [hfirst',visitOutcome_skips v (stored v.entry.path)] at hrest' ⊢
      rw [List.map_cons,List.map_cons]
      exact congrArg _ (ih _ hrest hrest')
    · rename_i hundelivered
      rw [if_neg hundelivered] at hok hok'
      exact ih _ hok hok'

theorem directoryOutcome_violation (v : Visit) : (directoryOutcome c v).violation = false := by
  unfold directoryOutcome
  dsimp only
  split
  · rfl
  · split
    · rfl
    · split <;> rfl

/-- Only a regular file within the depth limit violates a locked row. -/
theorem visitOutcome_violation {v : Visit} {columns : Option FileColumns}
    (h : (visitOutcome c v columns).violation = true) :
    v.entry.info = .file ∧ ∀ columns', visitOutcome c v columns' = fileOutcome c v columns' := by
  have hnear : beyondMaxdepth c v.entry = false := by
    by_contra hfar
    unfold visitOutcome at h
    rw [if_pos (by simpa using hfar)] at h
    cases h
  unfold visitOutcome at h ⊢
  rw [hnear,if_neg (by decide)] at h
  unfold entryOutcome at h
  cases hinfo : v.entry.info with
  | file =>
    refine ⟨rfl,fun columns' => ?_⟩
    rw [hnear,if_neg (by decide)]
    unfold entryOutcome
    rw [hinfo]
  | directory =>
    rw [hinfo] at h
    dsimp only at h
    rw [directoryOutcome_violation] at h
    cases h
  | unreadableDirectory => rw [hinfo] at h; cases h
  | error => rw [hinfo] at h; cases h
  | noStat => rw [hinfo] at h; cases h
  | other => rw [hinfo] at h; cases h

theorem planStatus_success {plan : List (Visit × VisitOutcome)} (h : planStatus plan = successStatus) :
    planFailed plan = false ∧ planViolation plan = false := by
  unfold planStatus at h
  cases hfailed : planFailed plan with
  | true =>
    rw [hfailed] at h
    cases h
  | false =>
    cases hviolation : planViolation plan with
    | false => exact ⟨rfl,rfl⟩
    | true =>
      rw [hfailed,hviolation] at h
      cases h

end Plans

section Run

variable {tree : Tree} {stored : List RootPath} {existed : Bool} {r : RunScript} {t : FilesTable} {log : List Event}

/-- A run that is stopped by its validation leaves the database as it found it. -/
theorem TreeRun.stopped (h : TreeRun tree stored existed r) (hbefore : r.before ≠ successStatus) :
    (runFrom r t log).session = openSession t log := by
  have hwarned : r.before = warningStatus := by
    rcases dbValidatePaths_cases r.config [tree.root] stored with hvalid | hwarned
    · exact absurd (h.before.trans hvalid) hbefore
    · exact h.before.trans hwarned
  have hpass : runFileList r (openSession t log) = ⟨warningStatus,openSession t log,r.pass.raisedBefore⟩ := by
    unfold runFileList
    rw [hwarned]
    rfl
  change (runCleanup r (runFileList r (openSession t log))).session = _
  rw [hpass]
  rfl

theorem TreeRun.cleanup_session (h : TreeRun tree stored existed r) (hquiet : (runFrom r t log).interrupted = false) :
    ((passState r t log).status.skip = true ∧ (runFrom r t log).session = (passState r t log).session) ∨
      ((passState r t log).status.skip = false ∧ r.cleanup.Smooth ∧ (runFrom r t log).session =
        (dbDeleteMissingMetadata r.config r.cleanup r.prefixes false (passState r t log).session).2) := by
  obtain ⟨hpass,-,hsmooth⟩ := h.uninterrupted hquiet
  have hsession : (runFrom r t log).session = (runCleanup r (passState r t log)).session := rfl
  cases hskip : (passState r t log).status.skip with
  | true =>
    refine .inl ⟨rfl,?_⟩
    rw [hsession]
    unfold runCleanup
    rw [if_pos hskip]
  | false =>
    refine .inr ⟨rfl,hsmooth hskip,?_⟩
    rw [hsession]
    unfold runCleanup
    rw [if_neg (by simp [hskip]),hpass]

theorem TreeRun.committed (h : TreeRun tree stored existed r) (hsound : tree.Sound)
    (hquiet : (runFrom r t log).interrupted = false) :
    (runFrom r t log).session.store.committed = (runFrom r t log).session.table := by
  refine ((runFrom r t log).session.store.settled ?_).symm
  by_cases hbefore : r.before = successStatus
  · obtain ⟨hfollowed,-,hsession⟩ := h.pass_follows hsound hbefore (h.uninterrupted hquiet).1
    have hidle : (passState r t log).session.store.autocommit = true := by
      rw [hsession]
      exact hfollowed.idle
    rcases h.cleanup_session hquiet with ⟨-,hfinal⟩ | ⟨-,hsmooth,hfinal⟩
    · rw [hfinal]
      exact hidle
    · rw [hfinal]
      exact cleanup_idle hsmooth _ hidle
  · rw [h.stopped hbefore]
    rfl

/-- After a cleanup no row is left that it would drop. -/
theorem TreeRun.undropped (h : TreeRun tree stored existed r) (hsound : tree.Sound)
    (hbefore : r.before = successStatus) (hquiet : (runFrom r t log).interrupted = false)
    (hok : (runFrom r t log).status.failure = false) (hwrites : r.config.dryRun = false)
    (hclean : planStatus (r.plan t) = successStatus) {access : RelativePath → FileAccessStatus}
    (hopen : tree.openRoot tree.root = some access) :
    ∀ path ∈ (runFrom r t log).session.table.keys, droppedPath r.config access path = false := by
  intro path hpath
  rw [UniqueTable.keys,h.cleaned_rows hsound hwrites hbefore hquiet hclean hok hopen] at hpath
  obtain ⟨e,he,rfl⟩ := List.mem_map.mp hpath
  simpa using (List.mem_filter.mp he).2

end Run

section Repeated

variable {tree : Tree} {stored : List RootPath} {existed : Bool} {r r' : RunScript} {t : FilesTable} {log : List Event}

theorem RepeatedUpdate.before_first (h : RepeatedUpdate tree stored existed r r' t log)
    (hbefore : r'.before = successStatus) : r.before = successStatus := by
  rcases dbValidatePaths_cases r.config [tree.root] stored with hvalid | hwarned
  · exact h.first.before.trans hvalid
  · have hskip : r.before.skip = true := by
      rw [h.first.before.trans hwarned]
      rfl
    rw [h.second.before,RunScript.storedAfter,if_pos hskip,h.options,hwarned] at hbefore
    exact absurd hbefore (by decide)

theorem RepeatedUpdate.table (h : RepeatedUpdate tree stored existed r r' t log) :
    (runFrom r t log).session.store.committed = (runFrom r t log).session.table :=
  h.first.committed h.sound h.uninterrupted

theorem RepeatedUpdate.plan_found (h : RepeatedUpdate tree stored existed r r' t log)
    (columns : RelativePath → Option FileColumns) :
    (walkPlan r.config columns none r.pass.visits).map (fun x => (x.1.found,x.2)) =
      (walkPlan r.config columns none r'.pass.visits).map fun x => (x.1.found,x.2) :=
  walkPlan_found (h.first.entries.trans h.second.entries.symm) none

theorem RepeatedUpdate.planned (h : RepeatedUpdate tree stored existed r r' t log) {v : Visit} {o : VisitOutcome}
    (hv : (v,o) ∈ walkPlan r.config (contents t) none r'.pass.visits) :
    ∃ w, (w,o) ∈ r.plan t ∧ w.found = v.found := by
  have hmem := List.mem_map_of_mem (f := fun x : Visit × VisitOutcome => (x.1.found,x.2)) hv
  rw [← h.plan_found] at hmem
  obtain ⟨⟨w,o'⟩,hw,hsame⟩ := List.mem_map.mp hmem
  obtain ⟨hfound,rfl⟩ := Prod.mk.inj hsame
  rw [h.first.plan_eq]
  exact ⟨w,hw,hfound⟩

theorem RepeatedUpdate.plan_goes (h : RepeatedUpdate tree stored existed r r' t log) (hbefore : r.before = successStatus) :
    planFailed (r.plan t) = false ∧ planFailed (walkPlan r.config (contents t) none r'.pass.visits) = false := by
  have hok := h.first.plan_goes h.sound hbefore h.uninterrupted h.unfailed
  refine ⟨hok,?_⟩
  obtain ⟨-,hstatus⟩ := plan_facts (h.plan_found (contents t))
  rw [h.first.plan_eq] at hok
  refine planFailed_of_status fun hfailure => ?_
  rw [← hstatus] at hfailure
  rw [planStatus_failure.mp hfailure] at hok
  cases hok

variable {access : RelativePath → FileAccessStatus}

/-- What the content pass of the first run leaves of a file it visits, and whether the cleanup
has kept it. -/
theorem RepeatedUpdate.left (h : RepeatedUpdate tree stored existed r r' t log) (hbefore : r.before = successStatus)
    (hwrites : r.config.dryRun = false) {w : Visit} {o : VisitOutcome} (hw : (w,o) ∈ r.plan t)
    (hinfo : w.entry.info = .file) :
    (∀ columns, o.columns = some columns → contents (passState r t log).session.table w.entry.path = some columns) ∧
      (o.columns = none → Uncut r.config w (storedRow (contents t w.entry.path)) →
        contents (passState r t log).session.table w.entry.path = contents t w.entry.path) := by
  obtain ⟨hok,-⟩ := h.plan_goes hbefore
  obtain ⟨hfollowed,-,hsession⟩ := h.first.pass_follows h.sound hbefore (h.first.uninterrupted h.uninterrupted).1
  obtain ⟨start,p,hstart,hwalked,htable⟩ := hfollowed.walked
  have hfirst : start.session.table = t := by
    rw [hstart]
    rfl
  rw [hsession,htable hok]
  refine ⟨fun columns hcolumns => hwalked.written hwrites hok _ hw columns hcolumns,fun hnone huncut => ?_⟩
  rw [hwalked.unwritten hok _ hw hinfo (by rw [hfirst]; exact huncut) hnone,hfirst]

/-- A file that the second run processes is met with a row that needs nothing, unless its
reading breaks off. -/
theorem RepeatedUpdate.idle (h : RepeatedUpdate tree stored existed r r' t log) (hbefore : r.before = successStatus)
    (hwrites : r.config.dryRun = false) {v : Visit} (hmem : v ∈ r'.pass.visits)
    (hprocessed : Processed r.config (walkPlan r.config (contents t) none r'.pass.visits) v)
    (hsteady : ¬ v.found.BreaksOff) :
    Idle r.config v (contents (runFrom r t log).session.store.committed v.entry.path) := by
  obtain ⟨⟨o,ho⟩,hinfo,hdepth⟩ := hprocessed
  obtain ⟨hok,hok'⟩ := h.plan_goes hbefore
  have houtcome : o = fileOutcome r.config v (contents t v.entry.path) := by
    have hvisit : o = visitOutcome r.config v (contents t v.entry.path) := (mem_walkPlan r'.pass.visits none _ ho).2
    rw [hvisit,visitOutcome,hdepth,if_neg (by decide),entryOutcome,hinfo]
  have hgoes : (fileOutcome r.config v (contents t v.entry.path)).failed = false := by
    rw [← houtcome]
    by_contra hfailed
    have hany : planFailed (walkPlan r.config (contents t) none r'.pass.visits) = true :=
      List.any_eq_true.mpr ⟨_,ho,by simpa using hfailed⟩
    rw [hok'] at hany
    cases hany
  obtain ⟨w,hw,hfound⟩ := h.planned ho
  have hentry : w.entry = v.entry := congrArg TreeEntry.entry hfound
  obtain ⟨access,hopen,hagrees⟩ := h.sound.access
  have haccess : access v.entry.path = v.access :=
    hagrees v.found (h.second.entries ▸ List.mem_map_of_mem hmem) hinfo
  rw [h.table]
  cases hdropped : droppedPath r.config access v.entry.path with
  | true => exact idle_unready (unready_of_dropped haccess hdropped _)
  | false =>
    rw [h.first.kept_contents h.sound hbefore h.uninterrupted h.unfailed hwrites hopen hdropped]
    obtain ⟨hwritten,hunwritten⟩ := h.left hbefore hwrites hw (hentry ▸ hinfo)
    rw [hentry] at hwritten hunwritten
    cases hcolumns : o.columns with
    | some columns =>
      rw [hwritten columns hcolumns]
      rw [houtcome] at hcolumns
      exact idle_current (fileOutcome_current hcolumns)
    | none =>
      have huncut : Uncut r.config v (storedRow (contents t v.entry.path)) := by
        by_contra hcut
        exact hsteady (breaksOff_of_cut hcut)
      rw [hunwritten hcolumns (huncut.found hfound.symm)]
      rw [houtcome] at hcolumns
      exact idle_again hgoes hcolumns huncut

/-- A second run without a violation follows a first one without a violation. -/
theorem RepeatedUpdate.clean (h : RepeatedUpdate tree stored existed r r' t log) (hbefore : r.before = successStatus)
    (hwrites : r.config.dryRun = false)
    (hclean : planStatus (r'.plan (runFrom r t log).session.store.committed) = successStatus) :
    planStatus (r.plan t) = successStatus := by
  obtain ⟨hagain,hunviolated⟩ := planStatus_success hclean
  obtain ⟨hok,hok'⟩ := h.plan_goes hbefore
  rw [h.second.plan_eq,h.options] at hagain hunviolated
  by_contra hno
  have hviolation : planViolation (r.plan t) = true := by
    by_contra hfree
    exact hno (by rw [planStatus,hok,show planViolation (r.plan t) = false by simpa using hfree]; rfl)
  obtain ⟨⟨w,o⟩,hw,hviolates⟩ := List.any_eq_true.mp hviolation
  have hends := (h.first.ends_early h.sound hbefore h.uninterrupted hno).2
  have hw' := hw
  rw [h.first.plan_eq] at hw'
  obtain ⟨-,houtcome⟩ := mem_walkPlan r.pass.visits none _ hw'
  dsimp only at houtcome hviolates
  rw [houtcome] at hviolates
  obtain ⟨hinfo,hfile⟩ := visitOutcome_violation hviolates
  rw [hfile] at hviolates houtcome
  obtain ⟨hnone,huncut⟩ := violation_kept hviolates
  have hkept : contents (runFrom r t log).session.store.committed w.entry.path = contents t w.entry.path := by
    rw [h.table,hends]
    exact (h.left hbefore hwrites hw hinfo).2 (houtcome ▸ hnone) huncut
  -- the same file is visited by the second run, with the same row
  have hmem := List.mem_map_of_mem (f := fun x : Visit × VisitOutcome => (x.1.found,x.2)) hw'
  rw [h.plan_found] at hmem
  obtain ⟨⟨v,o'⟩,hv,hsame⟩ := List.mem_map.mp hmem
  obtain ⟨hfound,-⟩ := Prod.mk.inj hsame
  have hentry : v.entry = w.entry := congrArg TreeEntry.entry hfound
  have hvisited := List.mem_map_of_mem (f := Prod.fst) hv
  rw [← walkPlan_visits r'.pass.visits none hok' hagain] at hvisited
  obtain ⟨⟨v',o''⟩,hv',rfl⟩ := List.mem_map.mp hvisited
  obtain ⟨-,hagainOutcome⟩ := mem_walkPlan r'.pass.visits none _ hv'
  dsimp only at hagainOutcome hentry hfound
  rw [hentry,hkept,visitOutcome_found hfound,hfile] at hagainOutcome
  have hany : planViolation (walkPlan r.config (contents (runFrom r t log).session.store.committed) none r'.pass.visits) =
      true := List.any_eq_true.mpr ⟨_,hv',by dsimp only; rw [hagainOutcome]; exact hviolates⟩
  rw [hunviolated] at hany
  cases hany

/-- No row that the cleanup of the second run looks at is to be dropped. -/
theorem RepeatedUpdate.kept (h : RepeatedUpdate tree stored existed r r' t log) (hbefore : r'.before = successStatus)
    (hwrites : r.config.dryRun = false)
    (hclean : planStatus (r'.plan (runFrom r t log).session.store.committed) = successStatus)
    (hquiet : (passState r' (runFrom r t log).session.store.committed (runFrom r t log).session.store.stamp).interrupted =
      false) (hopen : tree.openRoot tree.root = some access) :
    ∀ e ∈ (passState r' (runFrom r t log).session.store.committed
      (runFrom r t log).session.store.stamp).session.table.rows, droppedPath r.config access e.key = false := by
  have hfirst := h.before_first hbefore
  have hundropped := h.first.undropped h.sound hfirst h.uninterrupted h.unfailed hwrites
    (h.clean hfirst hwrites hclean) hopen
  rw [← h.table] at hundropped
  obtain ⟨hfollowed,-,hsession⟩ := h.second.pass_follows h.sound hbefore hquiet
  obtain ⟨start,p,hstart,hwalked,htable⟩ := hfollowed.walked
  have hagain := (planStatus_success hclean).1
  obtain ⟨extra,hkeys,hextra⟩ := hwalked.keys
  intro e he
  have hkey : e.key ∈ (fileList r'.config r'.pass (openSession (runFrom r t log).session.store.committed
      (runFrom r t log).session.store.stamp)).session.table.keys := by
    rw [← hsession]
    exact List.mem_map_of_mem he
  rw [htable hagain,hkeys,hstart] at hkey
  rcases List.mem_append.mp hkey with hold | hnew
  · exact hundropped _ hold
  · obtain ⟨⟨v,o⟩,hv,hinfo,hpath,-,row,hready⟩ := hextra _ hnew
    rw [h.second.plan_eq] at hv
    obtain ⟨hmem,-⟩ := mem_walkPlan r'.pass.visits none _ hv
    obtain ⟨access',hopen',hagrees⟩ := h.sound.access
    rw [hopen] at hopen'
    cases hopen'
    dsimp only at hinfo hpath hready hmem
    have haccess : access v.entry.path = v.access :=
      hagrees v.found (h.second.entries ▸ List.mem_map_of_mem hmem) hinfo
    rw [← hpath]
    by_contra hdropped
    rw [h.options] at hready
    exact unready_of_dropped haccess (by simpa using hdropped) row hready

end Repeated

end Precizer.Pipeline
