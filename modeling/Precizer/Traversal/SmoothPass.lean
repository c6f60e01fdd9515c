import Precizer.Traversal.SmoothWalk

/-! # An undisturbed pass

A pass that no interrupt reaches commits what its plan has written, unless the plan
failed, and turns a violation of the plan into a warning.
-/
namespace Precizer.Traversal
open General Rational Digest Database

/-- Nothing fails in the pass; a halt of its end is preceded by the flag. -/
structure PassScript.Works (script : PassScript) : Prop where
  bufferReady : script.bufferReady = true
  haltedBefore : script.haltedBefore = true → script.raisedBefore = true
  roots : ∀ root ∈ script.roots, root.Works
  commit : script.finish.commit = .done
  rollback : script.finish.rollback = true
  halted : script.finish.halted = true → script.finish.raised = true

theorem Visit.plain_works (entry : FtsEntry) (content : List UInt8) :
    (Visit.plain entry (.plain content)).Works where
  pathBuilt := rfl
  lookup := rfl
  batchCommit := rfl
  save := ⟨rfl,rfl⟩
  remember := show SqlOutcome.done ≠ .rolledBack by decide
  turns := by
    intro start t ht
    change t ∈ (if h : content.drop start = [] then [] else [⟨content.drop start,h,0,{},.done⟩]) at ht
    split at ht
    · cases ht
    · rw [List.mem_singleton.mp ht]
      exact ⟨⟨rfl,rfl⟩,rfl⟩

theorem PassScript.plain_works {visits : List Visit} (h : ∀ v ∈ visits, v.Works) : (PassScript.plain visits).Works where
  bufferReady := rfl
  haltedBefore := fun hno => by cases hno
  roots := by
    intro root hroot
    rw [List.mem_singleton.mp hroot]
    exact ⟨rfl,rfl,rfl,h⟩
  commit := rfl
  rollback := rfl
  halted := fun hno => by cases hno

def PassScript.visits (script : PassScript) : List Visit := script.roots.flatMap RootScript.visits

def PassScript.plan (script : PassScript) (c : Config) (stored : RelativePath → Option FileColumns) :
    List (Visit × VisitOutcome) := rootsPlan c stored script.roots

def planStatus (plan : List (Visit × VisitOutcome)) : Return :=
  if planFailed plan then failureStatus else if planViolation plan then warningStatus else successStatus

structure PassFollowed (c : Config) (plan : List (Visit × VisitOutcome)) (s : Session) (p' : Pass) : Prop where
  walked : ∃ start p, start.session = s ∧ Followed c plan start p ∧
    (planFailed plan = false → p'.session.table = p.session.table)
  reports : p'.session.reports = s.reports ++ planReports plan
  status : p'.status = planStatus plan
  halted : p'.halted = false
  idle : p'.session.store.autocommit = true

section Finish

variable {c : Config} {f : FinishScript} {p : Pass} {plan : List (Visit × VisitOutcome)} {s : Session}

theorem rollback_synced (hs : Synced s) : ∃ s', dbFileTransactionRollback false true s = (successStatus,s') ∧
    s'.reports = s.reports ∧ s'.store.autocommit = true ∧ (s.fileTransactionActive = false → s' = s) := by
  unfold dbFileTransactionRollback
  cases hactive : s.fileTransactionActive with
  | false =>
    have hidle : s.store.autocommit = true := by
      have h := hs
      rw [Synced,hactive] at h
      simpa using h.symm
    exact ⟨s,rfl,rfl,hidle,fun _ => rfl⟩
  | true =>
    have hopen : s.store.autocommit = false := by
      have h := hs
      rw [Synced,hactive] at h
      simpa using h.symm
    rw [hopen]
    exact ⟨_,rfl,Session.execute_reports s .rollback,rfl,fun hno => by cases hno⟩

/-- The end of a pass without an interrupt. -/
theorem finishPass_follows {start : Pass} (hfollowed : Followed c plan start p) (hstart : start.session = s)
    (hviolation : start.lockChecksumViolationDetected = false) (hhalted : p.halted = false)
    (hcommit : f.commit = .done) (hrollback : f.rollback = true) (hquiet : f.halted = false) :
    PassFollowed c plan s (finishPass f p) := by
  have hdetected : p.lockChecksumViolationDetected = planViolation plan := by
    rw [hfollowed.violation,hviolation,Bool.false_or]
  have hreports : p.session.reports = s.reports ++ planReports plan := by rw [hfollowed.reports,hstart]
  unfold finishPass
  dsimp only
  rw [hhalted,hquiet,Bool.or_self,hcommit,hrollback]
  cases hfailed : planFailed plan with
  | true =>
    rw [(hfollowed.stops hfailed).1]
    obtain ⟨s',hrolled,hkept,hidle,-⟩ := rollback_synced hfollowed.synced
    simp only [show failureStatus.failure = true from rfl,↓reduceIte,hrolled]
    refine ⟨⟨start,p,hstart,hfollowed,fun hno => ?_⟩,hkept.trans hreports,?_,rfl,hidle⟩
    · rw [hfailed] at hno
      cases hno
    · rw [planStatus,hfailed]
      cases p.lockChecksumViolationDetected <;> rfl
  | false =>
    obtain ⟨hstatus,-⟩ := hfollowed.goes hfailed
    obtain ⟨s',hcommitted,hmoved,hinactive⟩ := commit_works hfollowed.synced
    obtain ⟨s'',hrolled,-,hidle,hsame⟩ := rollback_synced hmoved.synced
    obtain rfl := hsame hinactive
    simp only [hstatus,show successStatus.failure = false from rfl,Bool.false_eq_true,↓reduceIte,hcommitted,
      show call (globalReturnStatus false) successStatus successStatus = successStatus by decide,hrolled]
    refine ⟨⟨start,p,hstart,hfollowed,fun _ => hmoved.table⟩,hmoved.reports.trans hreports,?_,rfl,hidle⟩
    have hwarned (violation : Bool) : provide (globalReturnStatus false)
        (if violation = true ∧ True then warningStatus else successStatus) =
        if violation then warningStatus else successStatus := by
      cases violation <;> decide
    rw [planStatus,hfailed,← hdetected]
    exact hwarned _

/-- The end of a walk without an interrupt: its rows stay unless it failed. -/
theorem finishPass_rows (hs : Synced p.session) (hhalted : p.halted = false) (hcommit : f.commit = .done) (hrollback : f.rollback = true)
    (hquiet : f.halted = false) : (p.status = failureStatus → (finishPass f p).status.failure = true) ∧
      (p.status = successStatus → (finishPass f p).session.table = p.session.table) := by
  unfold finishPass
  dsimp only
  rw [hhalted,hquiet,Bool.or_self,hcommit,hrollback]
  constructor
  · intro hfailed
    rw [hfailed]
    obtain ⟨s',hrolled,-,-⟩ := rollback_synced hs
    simp only [show failureStatus.failure = true from rfl,↓reduceIte,hrolled]
    cases p.lockChecksumViolationDetected <;> rfl
  · intro hsuccess
    rw [hsuccess]
    obtain ⟨s',hcommitted,hmoved,hinactive⟩ := commit_works hs
    obtain ⟨s'',hrolled,-,hidle,hsame⟩ := rollback_synced hmoved.synced
    obtain rfl := hsame hinactive
    simp only [show successStatus.failure = false from rfl,Bool.false_eq_true,↓reduceIte,hcommitted,hrolled]
    exact hmoved.table

end Finish

section Pass

variable {c : Config} {script : PassScript} {s : Session}

theorem fileList_walked (hworks : script.Works) (hcompare : c.compare = false)
    (hquiet : (fileList c script s).interrupted = false) :
    fileList c script s = finishPass script.finish (walkRoots c script.roots (passStart script s)) ∧
      (walkRoots c script.roots (passStart script s)).interrupted = false ∧ script.haltedBefore = false ∧
      script.finish.halted = false := by
  have hbefore : script.haltedBefore = false := by
    cases hhalted : script.haltedBefore with
    | false => rfl
    | true =>
      unfold fileList at hquiet
      dsimp only at hquiet
      rw [hcompare,hworks.bufferReady,hhalted,if_neg (by decide),if_pos (by decide)] at hquiet
      have hraised := hworks.haltedBefore hhalted
      rw [show script.raisedBefore = false from hquiet] at hraised
      cases hraised
  have hrun : fileList c script s = finishPass script.finish (walkRoots c script.roots (passStart script s)) := by
    unfold fileList
    dsimp only
    rw [hcompare,hworks.bufferReady,hbefore,if_neg (by decide),if_neg (by decide)]
    unfold passStart
    rw [hbefore]
  rw [hrun] at hquiet
  have hends : (walkRoots c script.roots (passStart script s)).interrupted = false ∧ script.finish.raised = false :=
    Bool.or_eq_false_iff.mp hquiet
  refine ⟨hrun,hends.1,hbefore,?_⟩
  cases hhalted : script.finish.halted with
  | false => rfl
  | true =>
    have hraised := hworks.halted hhalted
    rw [hends.2] at hraised
    cases hraised

theorem fileList_follows {stored : RelativePath → Option FileColumns} (hworks : script.Works)
    (hcompare : c.compare = false) (hnodup : (filePaths script.visits).Nodup) (hs : Synced s)
    (hagrees : Agrees s.table stored script.visits) (hquiet : (fileList c script s).interrupted = false) :
    PassFollowed c (script.plan c stored) s (fileList c script s) := by
  obtain ⟨hrun,hwalk,hbefore,hfinish⟩ := fileList_walked hworks hcompare hquiet
  rw [hrun]
  have hfollowed := walkRoots_follows (p := passStart script s) stored script.roots hworks.roots hnodup hs rfl rfl
    hagrees hwalk
  exact finishPass_follows hfollowed rfl rfl (hfollowed.halted.trans hbefore) hworks.commit hworks.rollback hfinish

end Pass

end Precizer.Traversal
