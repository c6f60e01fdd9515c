import Precizer.General.WriteBatches
import Precizer.Traversal.SessionTrace

/-! # The batches of a traversal

The saves of a pass fill transactions that the pass itself begins and commits. An
automatic rollback leaves the session with an active batch and no transaction; then
neither `BEGIN` nor a save is issued any more.
-/
namespace Precizer.Traversal
open General Rational Digest Database

def FileSave.write (t : FilesTable) (x : FileSave) : Option FilesTable :=
  match x.ident with
  | some id => some (t.update id x.columns)
  | none => t.insert x.path x.columns

/-- The save was the last statement, and it was executed inside a transaction. -/
def FileSave.Issued (x : FileSave) (log : List Event) : Prop :=
  ∃ before, log = before ++ [.statement (.save x.path) false]

/-- `BEGIN` found no transaction and a save found one. -/
def Event.inOrder : Event → Bool
  | .statement .begin autocommit => autocommit
  | .statement (.save _) autocommit => !autocommit
  | _ => true

/-- The batch a session believes to be in was rolled back by the database. -/
def Session.batchLost (s : Session) : Prop := s.fileTransactionActive = true ∧ s.store.autocommit = true

def OrderedSince (base : List Event) (s : Session) : Prop :=
  ∃ extra, s.events = base ++ extra ∧ ∀ e ∈ extra, e.inOrder = true

structure SavesBatched (start : FilesTable) (base : List Event) (saves : List FileSave) (s : Session) :
    Prop where
  batched : s.store.Batched FileSave.write FileSave.Issued start saves
  idle : s.fileTransactionActive = false →
    s.store.autocommit = true ∧ s.store.committedWrites = saves.length
  ordered : OrderedSince base s

variable {c : Config} {start : FilesTable} {base : List Event} {saves : List FileSave} {s s' : Session}

theorem OrderedSince.emit (h : OrderedSince base s) {e : Event} (he : e.inOrder = true) :
    OrderedSince base (s.emit e) := by
  obtain ⟨extra,hlog,hextra⟩ := h
  refine ⟨extra ++ [e],?_,?_⟩
  · change s.events ++ [e] = _
    rw [hlog,List.append_assoc]
  · intro x hx
    rcases List.mem_append.mp hx with hx | hx
    · exact hextra x hx
    · rw [List.mem_singleton.mp hx]
      exact he

theorem inOrder_of_quiet {e : Event} (h : e.quiet = true) : e.inOrder = true := by
  cases e with
  | statement t autocommit => cases h
  | met => rfl
  | read => rfl
  | hashed => rfl
  | reported => rfl

namespace SavesBatched

theorem emit (h : SavesBatched start base saves s) {e : Event} (he : e.inOrder = true) :
    SavesBatched start base saves (s.emit e) :=
  ⟨h.batched.note e,h.idle,h.ordered.emit he⟩

theorem rollbackStore (h : SavesBatched start base saves s) : SavesBatched start base saves s.rollbackStore :=
  ⟨h.batched.rollback,fun hidle => ⟨rfl,(h.idle hidle).2⟩,h.ordered⟩

/-- After `BEGIN` the batch is open, or the status says that it is not. -/
theorem begin (h : SavesBatched start base saves s) (c : Config) (halted : Bool) (script : SaveScript) :
    SavesBatched start base saves (dbFileTransactionBegin c halted script s).2 ∧
      (c.dryRun = false → (dbFileTransactionBegin c halted script s).1.success = true →
        (dbFileTransactionBegin c halted script s).2.fileTransactionActive = true ∧
        (dbFileTransactionBegin c halted script s).2.store.autocommit = false) := by
  unfold dbFileTransactionBegin
  split
  · rename_i hdry
    exact ⟨h,fun hno => absurd (hdry.symm.trans hno) (by decide)⟩
  · split
    · rename_i hactive
      refine ⟨h,fun _ hok => ⟨hactive,?_⟩⟩
      simpa using hok
    · rename_i hactive
      obtain ⟨hclosed,hall⟩ := h.idle (by simpa using hactive)
      have hnoted := h.emit (e := .statement .begin s.store.autocommit) hclosed
      dsimp only
      unfold execBegin
      dsimp only
      split
      · refine ⟨⟨(hnoted.batched).begin hclosed hall,?_,hnoted.ordered⟩,fun _ _ => ⟨rfl,rfl⟩⟩
        intro hidle
        cases hidle
      · refine ⟨hnoted,fun _ hok => ?_⟩
        simp at hok

theorem execWrite (h : SavesBatched start base saves s) (hactive : s.fileTransactionActive = true)
    (hopen : s.store.autocommit = false) (x : FileSave) (o : SqlOutcome) :
    SavesBatched start base (saves ++ if (execWrite s x.path (x.write s.table) o).1 then [x] else [])
      (execWrite s x.path (x.write s.table) o).2 := by
  have hnoted := h.emit (e := .statement (.save x.path) s.store.autocommit) (by simp [Event.inOrder,hopen])
  have hnothing {s' : Session} (hs' : SavesBatched start base saves s') :
      SavesBatched start base (saves ++ if false then [x] else []) s' := by
    rwa [if_neg (by decide),List.append_nil]
  cases o with
  | failed => exact hnothing hnoted
  | rolledBack => exact hnothing hnoted.rollbackStore
  | done =>
    cases hwrite : x.write s.table with
    | none => exact hnothing hnoted
    | some t =>
      have hissued : x.Issued (s.store.log ++ [.statement (.save x.path) s.store.autocommit]) := by
        rw [hopen]
        exact ⟨s.store.log,rfl⟩
      obtain ⟨hbatched,-⟩ := h.batched.write_note hopen hwrite hissued
      refine ⟨hbatched,?_,?_⟩
      · intro hidle
        exact absurd (hactive.symm.trans hidle) (by decide)
      · obtain ⟨extra,hlog,hextra⟩ := hnoted.ordered
        exact ⟨extra,(Store.write_log _ _).trans hlog,hextra⟩

/-- What a save tells its caller is what it did: the row is written exactly when the status says
so, and in a dry run nothing is. -/
theorem save (h : SavesBatched start base saves s) (c : Config) (halted : Bool) (script : SaveScript)
    (path : RelativePath) (file : File) (pathKnown mark : Bool) :
    SavesBatched start base (saves ++ performedSaves c [saveCall c halted script path file pathKnown mark s])
      (dbSaveFileRecord c halted script path file pathKnown mark s).session := by
  cases hdry : c.dryRun with
  | true =>
    rw [save_dryRun hdry,performedSaves,if_pos hdry,List.append_nil]
    exact h
  | false =>
    obtain ⟨hbegun,hopened⟩ := h.begin c halted script
    obtain ⟨ok,hok⟩ := begin_status c halted script s
    rw [hok] at hopened
    rw [performedSaves_single hdry]
    unfold saveCall SaveCall.save dbSaveFileRecord
    simp only [hdry,Bool.false_eq_true,false_and,↓reduceIte,hok,successStatus_eq,call_outcome,
      outcome_failure,Bool.true_and]
    cases ok with
    | false => simpa using hbegun
    | true =>
      obtain ⟨hactive,hopen⟩ := hopened hdry rfl
      simp only [Bool.not_true,Bool.false_eq_true,↓reduceIte]
      cases pathKnown with
      | true =>
        simp only [↓reduceIte,dbUpdateTheRecordById,hdry,Bool.false_eq_true,leave_eq,outcome_success]
        exact hbegun.execWrite hactive hopen ⟨path,some file.db.ID,boundColumns file⟩ script.statement
      | false =>
        simp only [Bool.false_eq_true,↓reduceIte,dbInsertTheRecord,hdry]
        generalize (dbFileTransactionBegin c halted script s).2 = begun at hbegun hactive hopen ⊢
        have hwritten : SavesBatched start base
            (saves ++ if (Database.execWrite begun path (begun.store.working.insert path (boundColumns file))
              script.statement).1 then [⟨path,none,boundColumns file⟩] else [])
            (Database.execWrite begun path (begun.store.working.insert path (boundColumns file)) script.statement).2 :=
          hbegun.execWrite hactive hopen ⟨path,none,boundColumns file⟩ script.statement
        split at hwritten
        · rename_i hinserted
          rw [if_pos hinserted]
          simpa using hwritten
        · rename_i hrefused
          rw [if_neg hrefused]
          simpa using hwritten

theorem commit (h : SavesBatched start base saves s) (halted : Bool) (o : SqlOutcome) :
    SavesBatched start base saves (dbFileTransactionCommit halted o s).2 ∧
      ((dbFileTransactionCommit halted o s).1.success = true →
        (dbFileTransactionCommit halted o s).2.fileTransactionActive = false) := by
  unfold dbFileTransactionCommit
  split
  · rename_i hactive
    have hnoted := h.emit (e := .statement .commit s.store.autocommit) rfl
    unfold execCommit
    dsimp only
    cases hauto : s.store.autocommit with
    | true =>
      refine ⟨hnoted,fun hok => ?_⟩
      simp at hok
    | false =>
      cases o with
      | failed =>
        refine ⟨hnoted,fun hok => ?_⟩
        simp at hok
      | rolledBack =>
        refine ⟨hnoted.rollbackStore,fun hok => ?_⟩
        simp at hok
      | done =>
        obtain ⟨hcommitted,hall⟩ := hnoted.batched.commit hauto
        exact ⟨⟨hcommitted,fun _ => ⟨rfl,hall⟩,hnoted.ordered⟩,fun _ => rfl⟩
  · rename_i hactive
    exact ⟨h,fun _ => by simpa using hactive⟩

end SavesBatched

theorem savesBatched_step {before added : List SaveCall} (hstep : SessionStep c s added s')
    (h : SavesBatched start base (performedSaves c before) s) :
    SavesBatched start base (performedSaves c (before ++ added)) s' := by
  cases hstep with
  | save halted script path file pathKnown mark =>
    rw [performedSaves_append]
    exact h.save c halted script path file pathKnown mark
  | emit _ e he =>
    rw [List.append_nil]
    exact h.emit (inOrder_of_quiet he)
  | requestReplay =>
    rw [List.append_nil]
    exact ⟨h.batched,h.idle,h.ordered⟩
  | rolledBack =>
    rw [List.append_nil]
    exact h.rollbackStore
  | commit halted o =>
    rw [List.append_nil]
    exact (h.commit halted o).1

theorem batchLost_step {written : List (FilesTable × List Event)} {before added : List SaveCall}
    (hstep : SessionStep c s added s')
    (h : s.batchLost ∧ s.store.written = written ∧ performedSaves c before = []) :
    s'.batchLost ∧ s'.store.written = written ∧ performedSaves c (before ++ added) = [] := by
  obtain ⟨⟨hactive,hauto⟩,hwritten,hnone⟩ := h
  cases hstep with
  | emit _ e he => exact ⟨⟨hactive,hauto⟩,hwritten,by rwa [List.append_nil]⟩
  | requestReplay => exact ⟨⟨hactive,hauto⟩,hwritten,by rwa [List.append_nil]⟩
  | rolledBack => exact ⟨⟨hactive,rfl⟩,hwritten,by rwa [List.append_nil]⟩
  | commit halted o =>
    simp only [dbFileTransactionCommit,hactive,↓reduceIte,execCommit,hauto,Bool.false_eq_true,List.append_nil]
    exact ⟨⟨hactive,hauto⟩,hwritten,hnone⟩
  | save halted script path file pathKnown mark =>
    rw [performedSaves_append,hnone,List.nil_append]
    cases hdry : c.dryRun with
    | true =>
      rw [save_dryRun hdry,performedSaves,if_pos hdry]
      exact ⟨⟨hactive,hauto⟩,hwritten,rfl⟩
    | false =>
      have hrefused : dbFileTransactionBegin c halted script s = (outcome false halted,s) := by
        simp [dbFileTransactionBegin,hdry,hactive,hauto]
      have hsave : dbSaveFileRecord c halted script path file pathKnown mark s = ⟨outcome false halted,s,file,pathKnown⟩ := by
        simp [dbSaveFileRecord,hdry,hrefused,successStatus_eq]
      rw [performedSaves_single hdry,saveCall,hsave]
      exact ⟨⟨hactive,hauto⟩,hwritten,rfl⟩

theorem commit_written (halted : Bool) (o : SqlOutcome) (s : Session) :
    (dbFileTransactionCommit halted o s).2.store.written = s.store.written := by
  unfold dbFileTransactionCommit execCommit
  cases s.fileTransactionActive <;> cases s.store.autocommit <;> cases o <;> rfl

/-- After a rollback that does not fail no transaction is open. -/
theorem rollback_closes (halted : Bool) (h : SavesBatched start base saves s) :
    let s' := (dbFileTransactionRollback halted true s).2
    s'.store.Batched FileSave.write FileSave.Issued start saves ∧ s'.store.autocommit = true ∧
      s'.fileTransactionActive = false ∧ OrderedSince base s' ∧ s'.store.written = s.store.written ∧
      s'.store.committedWrites = s.store.committedWrites ∧
      (dbFileTransactionRollback halted true s).1 = outcome true halted := by
  unfold dbFileTransactionRollback
  cases hactive : s.fileTransactionActive with
  | false => exact ⟨h.batched,(h.idle hactive).1,hactive,h.ordered,rfl,rfl,by simp⟩
  | true =>
    cases hauto : s.store.autocommit with
    | true => exact ⟨h.batched,hauto,rfl,h.ordered,rfl,rfl,by simp⟩
    | false =>
      have hnoted := h.emit (e := .statement .rollback false) rfl
      simp only [↓reduceIte,execRollback,Session.execute,hauto,Bool.false_eq_true]
      exact ⟨hnoted.batched.rollback,rfl,trivial,hnoted.ordered,rfl,rfl,by simp⟩

end Precizer.Traversal
