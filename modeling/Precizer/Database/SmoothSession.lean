import Precizer.Database.FileTransaction

/-! # Saving while every statement works

The flag of the batch then follows the autocommit mode, and a save, a commit or a note only
changes the table by its own write and adds nothing to the reports.
-/
namespace Precizer.Traversal

structure SaveScript.Works (script : SaveScript) : Prop where
  begin : script.begin = .done
  statement : script.statement = .done

end Precizer.Traversal

namespace Precizer.Database
open General Rational Digest Traversal

/-- The batch is open exactly when the database is inside a transaction. -/
def Synced (s : Session) : Prop := s.fileTransactionActive = !s.store.autocommit

/-- A silent step of the session that leaves the given table. -/
structure Moves (s s' : Session) (t : FilesTable) : Prop where
  synced : Synced s'
  reports : s'.reports = s.reports
  table : s'.table = t

variable {c : Config} {s s' : Session} {path : RelativePath} {file : File} {pathKnown : Bool}
  {script : SaveScript}

theorem Moves.trans {s'' : Session} {t t' : FilesTable} (h : Moves s s' t) (h' : Moves s' s'' t') :
    Moves s s'' t' := ⟨h'.synced,h'.reports.trans h.reports,h'.table⟩

theorem moves_refl (h : Synced s) : Moves s s s.table := ⟨h,rfl,rfl⟩

/-- The batch is open afterwards, unless the run is dry. -/
theorem begin_works (hsync : Synced s) (hscript : script.Works) :
    ∃ s', dbFileTransactionBegin c false script s = (successStatus,s') ∧ Moves s s' s.table ∧
      (c.dryRun = false → s'.store.autocommit = false) := by
  unfold dbFileTransactionBegin
  cases hdry : c.dryRun with
  | true => exact ⟨s,rfl,moves_refl hsync,fun h => by cases h⟩
  | false =>
    cases hactive : s.fileTransactionActive with
    | true =>
      have hopen : s.store.autocommit = false := by
        have h := hsync
        rw [Synced,hactive] at h
        simpa using h.symm
      refine ⟨s,?_,moves_refl hsync,fun _ => hopen⟩
      simp only [Bool.false_eq_true,↓reduceIte,hopen,Bool.not_false]
      rfl
    | false =>
      have hclosed : s.store.autocommit = true := by
        have h := hsync
        rw [Synced,hactive] at h
        simpa using h.symm
      refine ⟨{ s.execute .begin with
        store := (s.execute .begin).store.begin, fileTransactionActive := true
        fileTransactionStartedNs := script.beginNs },?_,⟨rfl,Session.execute_reports s .begin,rfl⟩,fun _ => rfl⟩
      simp [execBegin,hclosed,hscript.begin]
      rfl

theorem write_works (path : RelativePath) (hsync : Synced s) (t : FilesTable) :
    ∃ s', execWrite s path (some t) .done = (true,s') ∧ Moves s s' t := by
  refine ⟨_,rfl,?_,?_,Store.write_working _ _⟩
  · exact hsync.trans (congrArg not (Store.write_autocommit (s.execute (.save path)).store t).symm)
  · rw [← Session.execute_reports s (.save path)]
    exact congrArg (List.filterMap Event.report?) (Store.write_log _ _)

theorem save_works (mark : Bool) (hsync : Synced s) (hscript : script.Works)
    (hlink : c.dryRun = false → Linked path file pathKnown s.table) :
    let r := dbSaveFileRecord c false script path file pathKnown mark s
    r.status = successStatus ∧ Synced r.session ∧ r.session.reports = s.reports := by
  cases hdry : c.dryRun with
  | true =>
    rw [save_dryRun hdry]
    exact ⟨rfl,hsync,rfl⟩
  | false =>
    obtain ⟨s',hbegun,hmoved,-⟩ := begin_works (c := c) hsync hscript
    have hlink := hlink hdry
    unfold dbSaveFileRecord
    simp only [hdry,Bool.false_eq_true,false_and,↓reduceIte,hbegun]
    rw [show call (globalReturnStatus false) successStatus successStatus = successStatus by decide,
      show successStatus.failure = false from rfl]
    simp only [Bool.false_eq_true,↓reduceIte]
    cases pathKnown with
    | true =>
      obtain ⟨s'',hwrite,hwritten⟩ := write_works path hmoved.synced
        (s'.store.working.update file.db.ID (boundColumns file))
      simp only [↓reduceIte,dbUpdateTheRecordById,hdry,Bool.false_eq_true,hscript.statement,hwrite]
      exact ⟨rfl,hwritten.synced,hwritten.reports.trans hmoved.reports⟩
    | false =>
      have hnone : s'.store.working.find path = none := by
        rw [show s'.store.working = s.table from hmoved.table]
        exact hlink
      obtain ⟨t,ht⟩ := UniqueTable.insert_isSome (boundColumns file) hnone
      obtain ⟨s'',hwrite,hwritten⟩ := write_works path hmoved.synced t
      simp only [Bool.false_eq_true,↓reduceIte,dbInsertTheRecord,hdry,ht,hscript.statement,hwrite]
      exact ⟨rfl,hwritten.synced,hwritten.reports.trans hmoved.reports⟩

theorem commit_works (hsync : Synced s) :
    ∃ s', dbFileTransactionCommit false .done s = (successStatus,s') ∧ Moves s s' s.table ∧
      s'.fileTransactionActive = false := by
  unfold dbFileTransactionCommit
  cases hactive : s.fileTransactionActive with
  | false => exact ⟨s,rfl,moves_refl hsync,hactive⟩
  | true =>
    have hopen : s.store.autocommit = false := by
      have h := hsync
      rw [Synced,hactive] at h
      simpa using h.symm
    refine ⟨{ s.execute .commit with
      store := (s.execute .commit).store.commit, fileTransactionActive := false },?_,
      ⟨rfl,Session.execute_reports s .commit,rfl⟩,rfl⟩
    simp [execCommit,hopen]
    rfl

theorem check_works (hsync : Synced s) (nowNs : ℤ) :
    ∃ s', dbFileTransactionCheck false nowNs .done s = (successStatus,s') ∧ Moves s s' s.table := by
  obtain ⟨s',hcommit,hmoved,-⟩ := commit_works hsync
  unfold dbFileTransactionCheck
  split
  · rw [hcommit]
    exact ⟨s',rfl,hmoved⟩
  · exact ⟨s,rfl,moves_refl hsync⟩

end Precizer.Database
