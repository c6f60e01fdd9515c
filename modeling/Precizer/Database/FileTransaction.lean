import Precizer.Traversal.FileState

/-! # Batched saving of file records

The main traversal writes its rows inside one open transaction that is committed at
intervals. A save joins the open transaction or opens one, and writes the four columns
of one row.
-/
namespace Precizer.Database
open General Rational Digest Traversal

def dbCheckpointIntervalNs : ℤ := 14930016475

/-- The status a function leaves with, when only success or failure is its own. -/
def leave (halted ok : Bool) : Return := provide (globalReturnStatus halted) (outcome ok false)

@[simp] theorem leave_eq (halted ok : Bool) : leave halted ok = outcome ok halted := by
  simp [leave]

/-- `BEGIN IMMEDIATE` inside a transaction is an error. -/
def execBegin (s : Session) (o : SqlOutcome) : Bool × Session :=
  let s' := s.execute .begin
  if s.store.autocommit = true ∧ o = .done then (true,{ s' with store := s'.store.begin })
  else (false,s')

/-- `COMMIT` outside a transaction is an error. -/
def execCommit (s : Session) (o : SqlOutcome) : Bool × Session :=
  let s' := s.execute .commit
  if s.store.autocommit then (false,s')
  else match o with
    | .done => (true,{ s' with store := s'.store.commit })
    | .failed => (false,s')
    | .rolledBack => (false,s'.rollbackStore)

def execRollback (s : Session) (ok : Bool) : Bool × Session :=
  let s' := s.execute .rollback
  if ok then (true,s'.rollbackStore) else (false,s')

/-- A write gives the new table, or nothing when a constraint refuses it. -/
def execWrite (s : Session) (path : RelativePath) (t : Option FilesTable) (o : SqlOutcome) : Bool × Session :=
  let s' := s.execute (.save path)
  match o,t with
  | .done,some t => (true,{ s' with store := s'.store.write t, dbPrimaryFileModified := true })
  | .done,none => (false,s')
  | .failed,_ => (false,s')
  | .rolledBack,_ => (false,s'.rollbackStore)

def dbFileTransactionBegin (c : Config) (halted : Bool) (script : SaveScript) (s : Session) :
    Return × Session :=
  if c.dryRun then (leave halted true,s)
  else if s.fileTransactionActive then (leave halted !s.store.autocommit,s)
  else
    let r := execBegin s script.begin
    if r.1 then
      (leave halted true,
        { r.2 with fileTransactionActive := true, fileTransactionStartedNs := script.beginNs })
    else (leave halted false,r.2)

def dbFileTransactionCommit (halted : Bool) (o : SqlOutcome) (s : Session) : Return × Session :=
  if s.fileTransactionActive then
    let r := execCommit s o
    if r.1 then (leave halted true,{ r.2 with fileTransactionActive := false })
    else (leave halted false,r.2)
  else (leave halted true,s)

def dbFileTransactionCheck (halted : Bool) (nowNs : ℤ) (o : SqlOutcome) (s : Session) : Return × Session :=
  if s.fileTransactionActive = true ∧ nowNs - s.fileTransactionStartedNs ≥ dbCheckpointIntervalNs then
    let r := dbFileTransactionCommit halted o s
    (provide (globalReturnStatus halted) (call (globalReturnStatus halted) successStatus r.1),r.2)
  else (leave halted true,s)

/-- After an automatic rollback only the flag is cleared. -/
def dbFileTransactionRollback (halted ok : Bool) (s : Session) : Return × Session :=
  if s.fileTransactionActive then
    let r := if s.store.autocommit then (true,s) else execRollback s ok
    (leave halted r.1,if r.1 then { r.2 with fileTransactionActive := false } else r.2)
  else (leave halted true,s)

def boundColumns (file : File) : FileColumns where
  offset := if file.checksumOffset = 0 then none else some file.checksumOffset
  sha512 := if file.checksumOffset = 0 ∧ file.zeroSizeFile = false ∧ file.wrongFileType = false
    then some file.sha512 else none
  stat := some file.stat.toBytes
  mdContext := if file.checksumOffset = 0 then none else some file.mdContext

def dbUpdateTheRecordById (c : Config) (path : RelativePath) (o : SqlOutcome) (file : File) (s : Session) :
    Bool × Session :=
  if c.dryRun then (true,s)
  else execWrite s path (some (s.store.working.update file.db.ID (boundColumns file))) o

def dbInsertTheRecord (c : Config) (path : RelativePath) (o : SqlOutcome) (file : File) (s : Session) :
    Bool × Session :=
  if c.dryRun then (true,s) else execWrite s path (s.store.working.insert path (boundColumns file)) o

/-- What a save leaves behind: its status, the session, the file record and `path_known`. -/
structure SaveResult where
  status : Return
  session : Session
  file : File
  pathKnown : Bool

def markVisible (mark : Bool) (file : File) : File :=
  if mark then
    if file.db.relativePathWasInDbBeforeProcessing then { file with dbRecordUpdated := true }
    else { file with newDbRecordInserted := true }
  else file

def dbSaveFileRecord (c : Config) (halted : Bool) (script : SaveScript) (path : RelativePath)
    (file : File) (pathKnown mark : Bool) (s : Session) : SaveResult :=
  if c.dryRun = true ∧ mark = false then ⟨leave halted true,s,file,pathKnown⟩
  else
    let begun := dbFileTransactionBegin c halted script s
    let status := call (globalReturnStatus halted) successStatus begun.1
    if status.failure then ⟨provide (globalReturnStatus halted) status,begun.2,file,pathKnown⟩
    else if pathKnown then
      let r := dbUpdateTheRecordById c path script.statement file begun.2
      ⟨leave halted r.1,r.2,if r.1 then markVisible mark file else file,true⟩
    else
      let rowid := begun.2.store.working.nextIdent
      let r := dbInsertTheRecord c path script.statement file begun.2
      if r.1 then
        let file := if c.dryRun then file else { file with db := { file.db with ID := rowid } }
        ⟨leave halted true,r.2,markVisible mark file,!c.dryRun⟩
      else ⟨leave halted false,r.2,file,false⟩

/-- The table a save writes: the known row gets the columns, an unknown path a new row. -/
def SavedTable (path : RelativePath) (file : File) (pathKnown : Bool) (t t' : FilesTable) : Prop :=
  if pathKnown then t' = t.update file.db.ID (boundColumns file)
  else t.insert path (boundColumns file) = some t'

section Always

variable {P : List Event → FilesTable → Prop} (hP : Store.Stable P) {s : Session}
include hP

theorem always_execBegin (h : s.Always P) (o : SqlOutcome) : (execBegin s o).2.Always P := by
  unfold execBegin
  split
  · exact Store.Always.begin (h.execute hP _)
  · exact h.execute hP _

theorem always_execCommit (h : s.Always P) (o : SqlOutcome) : (execCommit s o).2.Always P := by
  unfold execCommit
  split
  · exact h.execute hP _
  · cases o with
    | done => exact Store.Always.commit (h.execute hP _)
    | failed => exact h.execute hP _
    | rolledBack => exact (h.execute hP _).rollbackStore

theorem always_execRollback (h : s.Always P) (ok : Bool) : (execRollback s ok).2.Always P := by
  unfold execRollback
  split
  · exact (h.execute hP _).rollbackStore
  · exact h.execute hP _

theorem always_execWrite (h : s.Always P) (path : RelativePath) (t : Option FilesTable) (o : SqlOutcome)
    (ht : o = .done → ∀ t', t = some t' → P s.events t') : (execWrite s path t o).2.Always P := by
  have hs := h.execute hP (.save path)
  unfold execWrite
  cases o with
  | done =>
    cases t with
    | none => exact hs
    | some t => exact Store.Always.write hs (hP _ _ _ (ht rfl t rfl))
  | failed => exact hs
  | rolledBack => exact hs.rollbackStore

theorem always_begin (c : Config) (halted : Bool) (script : SaveScript) (h : s.Always P) :
    (dbFileTransactionBegin c halted script s).2.Always P := by
  unfold dbFileTransactionBegin
  split
  · exact h
  · split
    · exact h
    · dsimp only
      split
      · exact always_execBegin hP h _
      · exact always_execBegin hP h _

theorem always_commit (halted : Bool) (o : SqlOutcome) (h : s.Always P) :
    (dbFileTransactionCommit halted o s).2.Always P := by
  unfold dbFileTransactionCommit
  split
  · dsimp only
    split
    · exact always_execCommit hP h o
    · exact always_execCommit hP h o
  · exact h

theorem always_check (halted : Bool) (nowNs : ℤ) (o : SqlOutcome) (h : s.Always P) :
    (dbFileTransactionCheck halted nowNs o s).2.Always P := by
  unfold dbFileTransactionCheck
  split
  · exact always_commit hP halted o h
  · exact h

theorem always_rollback (halted ok : Bool) (h : s.Always P) :
    (dbFileTransactionRollback halted ok s).2.Always P := by
  unfold dbFileTransactionRollback
  split
  · have hr : (if s.store.autocommit then (true,s) else execRollback s ok).2.Always P := by
      split
      · exact h
      · exact always_execRollback hP h ok
    dsimp only
    generalize (if s.store.autocommit then (true,s) else execRollback s ok) = r at hr ⊢
    cases r.1
    · exact hr
    · exact hr
  · exact h

theorem always_update (c : Config) (path : RelativePath) (o : SqlOutcome) (file : File) (h : s.Always P)
    (ht : c.dryRun = false → o = .done → P s.events (s.table.update file.db.ID (boundColumns file))) :
    (dbUpdateTheRecordById c path o file s).2.Always P := by
  unfold dbUpdateTheRecordById
  split
  · exact h
  · rename_i hdry
    refine always_execWrite hP h path _ o ?_
    rintro hdone t' ⟨⟩
    exact ht (by simpa using hdry) hdone

theorem always_insert (c : Config) (path : RelativePath) (o : SqlOutcome) (file : File) (h : s.Always P)
    (ht : c.dryRun = false → o = .done → ∀ t', s.table.insert path (boundColumns file) = some t' →
      P s.events t') :
    (dbInsertTheRecord c path o file s).2.Always P := by
  unfold dbInsertTheRecord
  split
  · exact h
  · rename_i hdry
    exact always_execWrite hP h path _ o (ht (by simpa using hdry))

end Always

/-- Opening a transaction changes neither the table nor, up to its own statement, the log. -/
theorem begin_frame (c : Config) (halted : Bool) (script : SaveScript) (s : Session) :
    (dbFileTransactionBegin c halted script s).2.table = s.table ∧
      ∃ extra, (dbFileTransactionBegin c halted script s).2.events = s.events ++ extra := by
  unfold dbFileTransactionBegin
  split
  · exact ⟨rfl,[],by simp⟩
  · split
    · exact ⟨rfl,[],by simp⟩
    · unfold execBegin
      split
      · exact ⟨rfl,_,rfl⟩
      · exact ⟨rfl,_,rfl⟩

theorem begin_status (c : Config) (halted : Bool) (script : SaveScript) (s : Session) :
    ∃ ok, (dbFileTransactionBegin c halted script s).1 = outcome ok halted := by
  unfold dbFileTransactionBegin
  split
  · exact ⟨true,leave_eq _ _⟩
  · split
    · exact ⟨_,leave_eq _ _⟩
    · dsimp only
      split
      · exact ⟨true,leave_eq _ _⟩
      · exact ⟨false,leave_eq _ _⟩

/-- Everything a save can do: nothing in a silent dry run, fail to open its transaction,
update the known row, insert a new row, or fail to insert it. -/
theorem save_cases (c : Config) (halted : Bool) (script : SaveScript) (path : RelativePath) (file : File)
    (pathKnown mark : Bool) (s : Session) :
    let result := dbSaveFileRecord c halted script path file pathKnown mark s
    let begun := (dbFileTransactionBegin c halted script s).2
    (c.dryRun = true ∧ result = ⟨outcome true halted,s,file,pathKnown⟩) ∨
    result = ⟨outcome false halted,begun,file,pathKnown⟩ ∨
    (∃ ok r, pathKnown = true ∧ (ok,r) = dbUpdateTheRecordById c path script.statement file begun ∧
      result = ⟨outcome ok halted,r,if ok then markVisible mark file else file,true⟩) ∨
    (∃ r, pathKnown = false ∧ (true,r) = dbInsertTheRecord c path script.statement file begun ∧
      result = ⟨outcome true halted,r,markVisible mark (if c.dryRun then file
        else { file with db := { file.db with ID := begun.table.nextIdent } }),!c.dryRun⟩) ∨
    ∃ r, pathKnown = false ∧ (false,r) = dbInsertTheRecord c path script.statement file begun ∧
      result = ⟨outcome false halted,r,file,false⟩ := by
  obtain ⟨ok,hok⟩ := begin_status c halted script s
  by_cases hsilent : c.dryRun = true ∧ mark = false
  · left
    simp only [dbSaveFileRecord,hsilent,and_self,↓reduceIte,leave_eq]
  · right
    simp only [dbSaveFileRecord,hsilent,↓reduceIte,hok,successStatus_eq,call_outcome,outcome_failure,
      provide_outcome,leave_eq]
    cases ok with
    | false =>
      left
      simp
    | true =>
      right
      cases pathKnown with
      | true =>
        left
        exact ⟨_,_,rfl,rfl,rfl⟩
      | false =>
        right
        cases hins : dbInsertTheRecord c path script.statement file
            (dbFileTransactionBegin c halted script s).2 with
        | mk inserted r =>
          cases inserted with
          | true => exact .inl ⟨r,rfl,rfl,rfl⟩
          | false => exact .inr ⟨r,rfl,rfl,rfl⟩

theorem commit_status (halted : Bool) (o : SqlOutcome) (s : Session) :
    ∃ ok, (dbFileTransactionCommit halted o s).1 = outcome ok halted := by
  unfold dbFileTransactionCommit
  split
  · dsimp only
    split
    · exact ⟨true,leave_eq _ _⟩
    · exact ⟨false,leave_eq _ _⟩
  · exact ⟨true,leave_eq _ _⟩

theorem stable_extend {P : List Event → FilesTable → Prop} (hP : Store.Stable P) {log : List Event}
    {t : FilesTable} (h : P log t) (extra : List Event) : P (log ++ extra) t := by
  induction extra generalizing log with
  | nil => simpa using h
  | cons e extra ih => simpa using ih (hP _ e _ h)

theorem always_save {P : List Event → FilesTable → Prop} (hP : Store.Stable P) (c : Config)
    (halted : Bool) (script : SaveScript) (path : RelativePath) (file : File) (pathKnown mark : Bool)
    {s : Session} (h : s.Always P)
    (hsaved : c.dryRun = false → script.statement = .done → ∀ t',
      SavedTable path file pathKnown s.table t' → P s.events t') :
    (dbSaveFileRecord c halted script path file pathKnown mark s).session.Always P := by
  have hbegun := always_begin hP c halted script h
  obtain ⟨htable,extra,hevents⟩ := begin_frame c halted script s
  unfold dbSaveFileRecord
  split
  · exact h
  · dsimp only
    split
    · exact hbegun
    · split
      · rename_i hknown
        refine always_update hP c path _ file hbegun ?_
        intro hdry hdone
        rw [hevents,htable]
        exact stable_extend hP (hsaved hdry hdone _ (by simp [SavedTable,hknown])) extra
      · rename_i hknown
        have hinsert := always_insert hP c path script.statement file hbegun <| by
          intro hdry hdone t' ht'
          rw [hevents]
          rw [htable] at ht'
          exact stable_extend hP (hsaved hdry hdone _ (by simpa [SavedTable,hknown] using ht')) extra
        split
        · exact hinsert
        · exact hinsert

/-- The record's identifier and `path_known` describe the path's row in the table. -/
def Linked (path : RelativePath) (file : File) (pathKnown : Bool) (t : FilesTable) : Prop :=
  if pathKnown then ∃ e, t.find path = some e ∧ e.ident = file.db.ID else t.find path = none

theorem linked_readRow (t : FilesTable) (path : RelativePath) {file : File} (h : file.db = readRow t path) :
    Linked path file file.db.relativePathWasInDbBeforeProcessing t := by
  cases hrow : t.find path with
  | none =>
    rw [h,readRow_none hrow]
    exact hrow
  | some e =>
    rw [h,readRow_some hrow]
    exact ⟨e,hrow,by rw [h,readRow_some hrow]; rfl⟩

theorem find_saved {path : RelativePath} {file : File} {pathKnown : Bool} {t t' : FilesTable}
    (hlink : Linked path file pathKnown t) (hsaved : SavedTable path file pathKnown t t') :
    (∃ id, t'.find path = some ⟨id,path,boundColumns file⟩) ∧ ∀ k, k ≠ path → t'.find k = t.find k := by
  cases pathKnown with
  | true =>
    simp only [SavedTable,↓reduceIte] at hsaved
    simp only [Linked,↓reduceIte] at hlink
    obtain ⟨e,he,hid⟩ := hlink
    subst hsaved
    refine ⟨⟨e.ident,?_⟩,?_⟩
    · rw [UniqueTable.find_update,he,Option.map_some,UniqueTable.assign_self hid]
      rw [← UniqueTable.key_of_find he]
    · intro k hk
      rw [UniqueTable.find_update]
      cases hfind : t.find k with
      | none => rfl
      | some e' =>
        rw [Option.map_some,UniqueTable.assign_other]
        intro hid'
        obtain rfl := UniqueTable.ident_inj hfind he (hid'.trans hid.symm)
        exact hk ((UniqueTable.key_of_find hfind).symm.trans (UniqueTable.key_of_find he))
  | false =>
    simp only [SavedTable,Bool.false_eq_true,↓reduceIte] at hsaved
    refine ⟨⟨t.nextIdent,?_⟩,?_⟩
    · rw [UniqueTable.find_insert hsaved,if_pos rfl]
    · intro k hk
      rw [UniqueTable.find_insert hsaved,if_neg hk]

/-- The keys of a table after writes of one path: the same, or that path appended. -/
def Grows (path : RelativePath) (t t' : FilesTable) : Prop := t'.keys = t.keys ∨ t'.keys = t.keys ++ [path]

theorem Grows.trans {path : RelativePath} {t t' t'' : FilesTable} (h : Grows path t t') (h' : Grows path t' t'') :
    Grows path t t'' := by
  rcases h with h | h <;> rcases h' with h' | h'
  · exact .inl (h'.trans h)
  · exact .inr (h'.trans (by rw [h]))
  · exact .inr (h'.trans h)
  · have hnodup : t''.keys.Nodup := t''.keysNodup
    rw [h',h,List.append_assoc] at hnodup
    exact absurd (List.nodup_append.mp hnodup).2.1 (by simp)

theorem grows_saved {path : RelativePath} {file : File} {pathKnown : Bool} {t t' : FilesTable}
    (hsaved : SavedTable path file pathKnown t t') : Grows path t t' := by
  cases pathKnown with
  | true =>
    simp only [SavedTable,↓reduceIte] at hsaved
    exact .inl (by rw [hsaved,UniqueTable.keys_update])
  | false =>
    simp only [SavedTable,Bool.false_eq_true,↓reduceIte] at hsaved
    exact .inr (UniqueTable.keys_insert hsaved)

theorem save_status (c : Config) (halted : Bool) (script : SaveScript) (path : RelativePath) (file : File)
    (pathKnown mark : Bool) (s : Session) :
    ∃ ok, (dbSaveFileRecord c halted script path file pathKnown mark s).status = outcome ok halted := by
  rcases save_cases c halted script path file pathKnown mark s with
    ⟨-,h⟩ | h | ⟨ok,r,-,-,h⟩ | ⟨r,-,-,h⟩ | ⟨r,-,-,h⟩ <;> rw [h]
  · exact ⟨true,rfl⟩
  · exact ⟨false,rfl⟩
  · exact ⟨ok,rfl⟩
  · exact ⟨true,rfl⟩
  · exact ⟨false,rfl⟩

theorem save_known {c : Config} {halted : Bool} {script : SaveScript} {path : RelativePath} {file : File}
    {pathKnown mark : Bool} {s : Session} (h : pathKnown = true) :
    (dbSaveFileRecord c halted script path file pathKnown mark s).pathKnown = true := by
  rcases save_cases c halted script path file pathKnown mark s with
    ⟨-,hr⟩ | hr | ⟨ok,r,-,-,hr⟩ | ⟨r,hunknown,-⟩ | ⟨r,hunknown,-⟩
  · rw [hr,h]
  · rw [hr,h]
  · rw [hr]
  · exact absurd (h.symm.trans hunknown) (by decide)
  · exact absurd (h.symm.trans hunknown) (by decide)

theorem save_dryRun {c : Config} (hdry : c.dryRun = true) (halted : Bool) (script : SaveScript)
    (path : RelativePath) (file : File) (pathKnown mark : Bool) (s : Session) :
    dbSaveFileRecord c halted script path file pathKnown mark s =
      ⟨outcome true halted,s,if mark then markVisible true file else file,pathKnown⟩ := by
  cases mark <;> cases pathKnown <;>
    simp [dbSaveFileRecord,dbFileTransactionBegin,dbUpdateTheRecordById,dbInsertTheRecord,hdry,
      successStatus_eq,markVisible]

theorem execWrite_success {s : Session} {path : RelativePath} {t : Option FilesTable} {o : SqlOutcome}
    (h : (execWrite s path t o).1 = true) : t = some (execWrite s path t o).2.table := by
  cases o with
  | done =>
    cases t with
    | none => cases h
    | some t => exact congrArg some (Store.write_working _ _).symm
  | failed => cases h
  | rolledBack => cases h

@[simp] theorem markVisible_ID (mark : Bool) (file : File) :
    (markVisible mark file).db.ID = file.db.ID := by
  unfold markVisible; repeat' split
  all_goals rfl

theorem linked_of_saved {path : RelativePath} {file file' : File} {pathKnown : Bool} {t t' : FilesTable}
    (hlink : Linked path file pathKnown t) (hsaved : SavedTable path file pathKnown t t')
    (hid : file'.db.ID = if pathKnown then file.db.ID else t.nextIdent) : Linked path file' true t' := by
  cases pathKnown with
  | true =>
    simp only [Linked,↓reduceIte] at hlink
    simp only [SavedTable,↓reduceIte] at hsaved hid
    obtain ⟨e,he,heid⟩ := hlink
    refine ⟨_,by rw [hsaved,UniqueTable.find_update,he]; rfl,?_⟩
    rw [UniqueTable.assign_ident,heid,hid]
  | false =>
    simp only [SavedTable,Bool.false_eq_true,↓reduceIte] at hsaved hid
    exact ⟨_,by rw [UniqueTable.find_insert hsaved,if_pos rfl],hid.symm⟩

theorem save_success {c : Config} (hdry : c.dryRun = false) {halted : Bool} {script : SaveScript}
    {path : RelativePath} {file : File} {pathKnown mark : Bool} {s : Session} {r : SaveResult}
    (hr : dbSaveFileRecord c halted script path file pathKnown mark s = r)
    (hok : r.status.success = true) :
    SavedTable path file pathKnown s.table r.session.table ∧ r.pathKnown = true ∧
      r.file = markVisible mark { file with
        db := { file.db with ID := if pathKnown then file.db.ID else s.table.nextIdent } } := by
  obtain ⟨begun,hbegun⟩ := begin_status c halted script s
  have htable := (begin_frame c halted script s).1
  unfold dbSaveFileRecord at hr
  simp only [hdry,Bool.false_eq_true,false_and,↓reduceIte,hbegun,successStatus_eq,call_outcome,
    outcome_failure,provide_outcome,leave_eq] at hr
  cases begun with
  | false =>
    simp only [Bool.and_false,Bool.not_false,↓reduceIte] at hr
    subst hr
    simp at hok
  | true =>
    cases pathKnown with
    | true =>
      simp only [Bool.and_self,Bool.not_true,Bool.false_eq_true,↓reduceIte,dbUpdateTheRecordById,hdry] at hr
      subst hr
      simp only [outcome_success] at hok
      have hwrite := execWrite_success hok
      refine ⟨?_,rfl,?_⟩
      · simp only [SavedTable,↓reduceIte]
        exact (Option.some.inj hwrite).symm.trans
          (congrArg (fun t => t.update file.db.ID (boundColumns file)) htable)
      · simp only [hok,↓reduceIte]
    | false =>
      simp only [Bool.and_self,Bool.not_true,Bool.false_eq_true,↓reduceIte,dbInsertTheRecord,hdry] at hr
      split at hr
      · rename_i hok'
        subst hr
        have hwrite := execWrite_success hok'
        refine ⟨?_,rfl,?_⟩
        · simp only [SavedTable,Bool.false_eq_true,↓reduceIte]
          rw [← htable]
          exact hwrite
        · simp only [Bool.false_eq_true,↓reduceIte]
          rw [← htable]
          rfl
      · subst hr
        simp at hok

theorem linked_congr {path : RelativePath} {file file' : File} (h : file'.db.ID = file.db.ID)
    {pathKnown : Bool} {t : FilesTable} : Linked path file' pathKnown t ↔ Linked path file pathKnown t := by
  unfold Linked
  rw [h]

theorem linked_save {c : Config} (hdry : c.dryRun = false) {halted : Bool} {script : SaveScript}
    {path : RelativePath} {file : File} {pathKnown mark : Bool} {s : Session} {r : SaveResult}
    (hr : dbSaveFileRecord c halted script path file pathKnown mark s = r) (hok : r.status.success = true)
    (hlink : Linked path file pathKnown s.table) : Linked path r.file r.pathKnown r.session.table := by
  obtain ⟨hsaved,hknown,hfile⟩ := save_success hdry hr hok
  rw [hknown]
  exact linked_of_saved hlink hsaved (by rw [hfile,markVisible_ID])

theorem execCommit_log (s : Session) (o : SqlOutcome) :
    ∃ extra, (execCommit s o).2.events = s.events ++ extra := by
  unfold execCommit
  split
  · exact ⟨_,rfl⟩
  · cases o <;> exact ⟨_,rfl⟩

theorem execWrite_log (s : Session) (path : RelativePath) (t : Option FilesTable) (o : SqlOutcome) :
    ∃ extra, (execWrite s path t o).2.events = s.events ++ extra := by
  cases o with
  | done =>
    cases t with
    | none => exact ⟨_,rfl⟩
    | some t => exact ⟨_,Store.write_log _ _⟩
  | failed => exact ⟨_,rfl⟩
  | rolledBack => exact ⟨_,rfl⟩

theorem commit_log (halted : Bool) (o : SqlOutcome) (s : Session) :
    ∃ extra, (dbFileTransactionCommit halted o s).2.events = s.events ++ extra := by
  unfold dbFileTransactionCommit
  split
  · dsimp only
    split
    · exact execCommit_log s o
    · exact execCommit_log s o
  · exact ⟨[],by simp⟩

theorem commit_table {halted : Bool} {o : SqlOutcome} {s : Session}
    (h : (dbFileTransactionCommit halted o s).1.success = true) :
    (dbFileTransactionCommit halted o s).2.table = s.table := by
  unfold dbFileTransactionCommit at h ⊢
  split
  · rename_i hactive
    rw [if_pos hactive] at h
    unfold execCommit at h ⊢
    split
    · rename_i hauto
      simp [hauto] at h
    · rename_i hauto
      cases o with
      | done => rfl
      | failed => simp [hauto] at h
      | rolledBack => simp [hauto] at h
  · rfl

theorem save_file (c : Config) (halted : Bool) (script : SaveScript) (path : RelativePath) (file : File)
    (pathKnown mark : Bool) (s : Session) :
    ∃ id marked, (dbSaveFileRecord c halted script path file pathKnown mark s).file =
      markVisible (marked && mark) { file with db := { file.db with ID := id } } := by
  rcases save_cases c halted script path file pathKnown mark s with
    ⟨-,h⟩ | h | ⟨ok,r,-,-,h⟩ | ⟨r,-,-,h⟩ | ⟨r,-,-,h⟩
  · exact ⟨file.db.ID,false,by rw [h]; rfl⟩
  · exact ⟨file.db.ID,false,by rw [h]; rfl⟩
  · refine ⟨file.db.ID,ok,?_⟩
    rw [h]
    cases ok
    · rfl
    · rfl
  · rw [h]
    cases c.dryRun with
    | true => exact ⟨file.db.ID,true,rfl⟩
    | false => exact ⟨_,true,rfl⟩
  · exact ⟨file.db.ID,false,by rw [h]; rfl⟩

theorem update_log (c : Config) (path : RelativePath) (o : SqlOutcome) (file : File) (s : Session) :
    ∃ extra, (dbUpdateTheRecordById c path o file s).2.events = s.events ++ extra := by
  unfold dbUpdateTheRecordById
  split
  · exact ⟨[],by simp⟩
  · exact execWrite_log s path _ o

theorem insert_log (c : Config) (path : RelativePath) (o : SqlOutcome) (file : File) (s : Session) :
    ∃ extra, (dbInsertTheRecord c path o file s).2.events = s.events ++ extra := by
  unfold dbInsertTheRecord
  split
  · exact ⟨[],by simp⟩
  · exact execWrite_log s path _ o

theorem save_log (c : Config) (halted : Bool) (script : SaveScript) (path : RelativePath) (file : File)
    (pathKnown mark : Bool) (s : Session) :
    ∃ extra, (dbSaveFileRecord c halted script path file pathKnown mark s).session.events =
      s.events ++ extra := by
  obtain ⟨x,hx⟩ := (begin_frame c halted script s).2
  obtain ⟨y,hy⟩ := update_log c path script.statement file (dbFileTransactionBegin c halted script s).2
  obtain ⟨z,hz⟩ := insert_log c path script.statement file (dbFileTransactionBegin c halted script s).2
  rcases save_cases c halted script path file pathKnown mark s with
    ⟨-,h⟩ | h | ⟨ok,r,-,hr,h⟩ | ⟨r,-,hr,h⟩ | ⟨r,-,hr,h⟩ <;> rw [h]
  · exact ⟨[],by simp⟩
  · exact ⟨x,hx⟩
  · rw [← hr,hx,List.append_assoc] at hy
    exact ⟨_,hy⟩
  · rw [← hr,hx,List.append_assoc] at hz
    exact ⟨_,hz⟩
  · rw [← hr,hx,List.append_assoc] at hz
    exact ⟨_,hz⟩

end Precizer.Database
