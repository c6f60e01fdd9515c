import Precizer.Traversal.SaveBatches
import Precizer.Pipeline.Run

/-! # Transactional batches

However a pass goes, it ends outside a transaction with a prefix of its saves: all of
them when nothing failed, else those of the batches that were committed before.
-/
namespace Precizer.Guarantees
open General Rational Traversal Database Pipeline

/-- A session that was only opened: nothing was written and no batch was begun. -/
structure JustOpened (s : Session) : Prop where
  store : s.store = Store.opened s.table s.events
  inactive : s.fileTransactionActive = false

/-- The saves whose callers were told that they succeeded are the writes of the store, each made
inside a transaction; at the end none is open, and the table holds the committed ones: all of
them when nothing failed. -/
structure SavedInBatches (s s' : Session) (failed : Bool) (saves : List FileSave) : Prop where
  performed : Performed FileSave.write FileSave.Issued s.table saves s'.store.written
  ordered : OrderedSince s.events s'
  closed : s'.store.autocommit = true
  inactive : s'.fileTransactionActive = false
  committed : s'.store.committedWrites ≤ saves.length
  table : (saves.take s'.store.committedWrites).foldlM FileSave.write s.table = some s'.table
  complete : failed = false → s'.store.committedWrites = saves.length

/-- A pass ends with the committed ones of the saves it performed, and once the database has
rolled a batch back, no further save is performed. -/
def Transactional (c : Config) (script : PassScript) (s : Session) : Prop :=
  SavedInBatches s (fileList c script s).session (fileList c script s).status.failure
    (performedSaves c (fileListCalls c script s)) ∧
  ∀ q before after, SessionTrace c s before q → SessionTrace c q after (passWalked c script s).session → q.batchLost →
    (fileList c script s).session.store.written = q.store.written ∧ performedSaves c after = []

theorem savesBatched_start {s : Session} (h : JustOpened s) : SavesBatched s.table s.events [] s where
  batched := by
    rw [h.store]
    exact Store.batched_opened _ _ _ _
  idle := by
    intro _
    rw [h.store]
    exact ⟨rfl,rfl⟩
  ordered := ⟨[],by simp⟩

theorem finishPass_saves {start : FilesTable} {base : List Event} {saves : List FileSave} {p : Pass}
    (h : SavesBatched start base saves p.session) (f : FinishScript) (hrollback : f.rollback = true) :
    let p' := finishPass f p
    p'.session.store.Batched FileSave.write FileSave.Issued start saves ∧
      p'.session.store.autocommit = true ∧ p'.session.fileTransactionActive = false ∧
      OrderedSince base p'.session ∧ p'.session.store.written = p.session.store.written ∧
      (p'.status.failure = false → p'.session.store.committedWrites = saves.length) := by
  unfold finishPass
  dsimp only
  rw [hrollback]
  cases hfailed : p.status.failure with
  | true =>
    simp only [↓reduceIte]
    obtain ⟨hbatched,hclosed,hinactive,hordered,hwritten,-,hstatus⟩ := rollback_closes (p.halted || f.halted) h
    refine ⟨hbatched,hclosed,hinactive,hordered,hwritten,?_⟩
    intro hok
    have hmerged := failure_of_provide hok
    split at hmerged
    · rename_i hviolation
      have hcall := congrArg Return.failure hviolation.2
      rw [(failure_of_call hcall).1] at hfailed
      cases hfailed
    · rw [(failure_of_call hmerged).1] at hfailed
      cases hfailed
  | false =>
    simp only [Bool.false_eq_true,↓reduceIte]
    obtain ⟨hcommit,hinactive⟩ := h.commit (p.halted || f.halted) f.commit
    obtain ⟨hbatched,hclosed,hidle,hordered,hwritten,hcount,hstatus⟩ :=
      rollback_closes (p.halted || f.halted) hcommit
    refine ⟨hbatched,hclosed,hidle,hordered,hwritten.trans (commit_written _ _ _),?_⟩
    intro hok
    have hmerged := failure_of_provide hok
    have hcall : (call (globalReturnStatus (p.halted || f.halted)) p.status
        (dbFileTransactionCommit (p.halted || f.halted) f.commit p.session).1).failure = false := by
      split at hmerged
      · rename_i hviolation
        exact (failure_of_call (congrArg Return.failure hviolation.2)).1
      · exact (failure_of_call hmerged).1
    obtain ⟨ok,hstatus⟩ := commit_status (p.halted || f.halted) f.commit p.session
    have hdone := (failure_of_call hcall).2
    rw [hstatus,outcome_failure] at hdone
    rw [hcount]
    apply (hcommit.idle (hinactive ?_)).2
    rw [hstatus,outcome_success]
    simpa using hdone

/-- The saves of every pass are transactional. -/
theorem saving_transactional (c : Config) (script : PassScript) (s : Session) (hopened : JustOpened s)
    (hrollback : script.finish.rollback = true) : Transactional c script s := by
  have hbegun : SavesBatched s.table s.events (performedSaves c []) s := by
    rw [performedSaves_nil]
    exact savesBatched_start hopened
  have hwalked : SavesBatched s.table s.events (performedSaves c (fileListCalls c script s))
      (passWalked c script s).session :=
    (passWalked_trace c script s).keeps (P := fun calls t => SavesBatched s.table s.events (performedSaves c calls) t)
      (fun _ _ _ _ => savesBatched_step) hbegun
  have hlost (q : Session) (after : List SaveCall) (hrest : SessionTrace c q after (passWalked c script s).session)
      (hq : q.batchLost) :
      (passWalked c script s).session.store.written = q.store.written ∧ performedSaves c after = [] :=
    (hrest.keeps
      (P := fun calls t => t.batchLost ∧ t.store.written = q.store.written ∧ performedSaves c calls = [])
      (fun _ _ _ _ => batchLost_step) ⟨hq,rfl,performedSaves_nil c⟩).2
  rcases fileList_cases c script s with ⟨hcalls,hsession,hsame⟩ | hended
  · have h := savesBatched_start hopened
    obtain ⟨hclosed,hall⟩ := h.idle hopened.inactive
    constructor
    · rw [hcalls,hsession,performedSaves_nil]
      exact ⟨h.batched.performed,h.ordered,hclosed,hopened.inactive,h.batched.le,h.batched.closed hclosed,fun _ => hall⟩
    · intro q before after _ hrest hq
      rw [hsession,← hsame]
      exact hlost q after hrest hq
  · obtain ⟨hbatched,hclosed,hinactive,hordered,hwritten,hcomplete⟩ := finishPass_saves hwalked script.finish hrollback
    constructor
    · rw [hended]
      exact ⟨hbatched.performed,hordered,hclosed,hinactive,hbatched.le,hbatched.closed hclosed,hcomplete⟩
    · intro q before after _ hrest hq
      obtain ⟨hsame,hnone⟩ := hlost q after hrest hq
      rw [hended]
      exact ⟨hwritten.trans hsame,hnone⟩

/-- Two new files; the batch is lost while the first one is reported. -/
def lostBatch : PassScript := PassScript.plain
  [{ Visit.plain (FtsEntry.plain [97] 0 0) (DiskFile.plain []) with remember := .rolledBack },
    Visit.plain (FtsEntry.plain [98] 0 0) (DiskFile.plain [])]

theorem saving_transactional_lost : Transactional { update := true } lostBatch (openSession UniqueTable.empty []) ∧
    (fileList { update := true } lostBatch (openSession UniqueTable.empty [])).status.failure = true ∧
    (fileList { update := true } lostBatch (openSession UniqueTable.empty [])).session.table.rows = [] := by
  refine ⟨saving_transactional _ _ _ ⟨rfl,rfl⟩ rfl,?_,?_⟩
  · decide +kernel
  · decide +kernel

end Precizer.Guarantees
