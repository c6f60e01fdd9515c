import Precizer.Database.PathsTable
import Precizer.Database.FileTransaction

/-! # Replacing the stored prefixes, statement by statement

The identifiers of stored prefixes that are no roots of the run go to a temporary helper
table. With `--force` the transaction that saves the roots first deletes their rows. Every
statement may fail, and a failing one may already have rolled the transaction back.
-/
namespace Precizer.Database.Prefixes
open General Rational Traversal

structure PathRow where
  ID : ℤ
  storedPrefix : RootPath
  deriving DecidableEq

/-- The rows of the paths table; identifiers and prefixes are unique. -/
structure Paths where
  rows : List PathRow
  idsNodup : (rows.map PathRow.ID).Nodup
  prefixesNodup : (rows.map PathRow.storedPrefix).Nodup

namespace Paths

def prefixes (t : Paths) : List RootPath := t.rows.map PathRow.storedPrefix

def empty : Paths := ⟨[],List.nodup_nil,List.nodup_nil⟩

def single (id : ℤ) (root : RootPath) : Paths := ⟨[⟨id,root⟩],List.nodup_singleton _,List.nodup_singleton _⟩

/-- `NOT IN` the roots. -/
def mismatched (t : Paths) (roots : List RootPath) : List ℤ :=
  (t.rows.filter fun r => r.storedPrefix ∉ roots).map PathRow.ID

/-- The rows that a deletion by identifier leaves. -/
def without (t : Paths) (ids : List ℤ) : Paths where
  rows := t.rows.filter fun r => r.ID ∉ ids
  idsNodup := t.idsNodup.sublist (List.filter_sublist.map _)
  prefixesNodup := t.prefixesNodup.sublist (List.filter_sublist.map _)

/-- One more than the largest identifier. -/
def nextID (t : Paths) : ℤ :=
  match t.rows.map PathRow.ID with
  | [] => 1
  | id :: rest => rest.foldr max id + 1

theorem le_foldr_max (id : ℤ) (rest : List ℤ) : ∀ k ∈ id :: rest, k ≤ rest.foldr max id := by
  induction rest with
  | nil =>
    intro k hk
    rw [List.mem_singleton.mp hk]
    exact le_refl id
  | cons j rest ih =>
    intro k hk
    rw [List.foldr_cons]
    rcases List.mem_cons.mp hk with rfl | hk
    · exact le_max_of_le_right (ih k List.mem_cons_self)
    · rcases List.mem_cons.mp hk with rfl | hk
      · exact le_max_left _ _
      · exact le_max_of_le_right (ih k (List.mem_cons_of_mem _ hk))

theorem nextID_fresh (t : Paths) : t.nextID ∉ t.rows.map PathRow.ID := by
  intro hmem
  unfold nextID at hmem
  cases hids : t.rows.map PathRow.ID with
  | nil =>
    rw [hids] at hmem
    cases hmem
  | cons id rest =>
    rw [hids] at hmem
    have hle := le_foldr_max id rest _ hmem
    dsimp only at hle
    omega

/-- `INSERT OR IGNORE`. -/
def insertOrIgnore (t : Paths) (root : RootPath) : Paths :=
  if h : root ∈ t.prefixes then t
  else {
    rows := t.rows ++ [⟨t.nextID,root⟩]
    idsNodup := by
      rw [List.map_append]
      refine t.idsNodup.append (List.nodup_singleton _) fun id hid hnew => ?_
      rw [List.mem_singleton.mp hnew] at hid
      exact t.nextID_fresh hid
    prefixesNodup := by
      rw [List.map_append]
      refine t.prefixesNodup.append (List.nodup_singleton _) fun p hp hnew => ?_
      rw [List.mem_singleton.mp hnew] at hp
      exact h hp }

theorem prefixes_insertOrIgnore (t : Paths) (root : RootPath) :
    (t.insertOrIgnore root).prefixes = insertPrefix t.prefixes root := by
  unfold insertOrIgnore insertPrefix
  split
  · rfl
  · exact List.map_append

end Paths

/-- The main database with its transaction, the helper table and the counters. -/
structure PathsState where
  store : Store Paths Unit
  pathIdDoesNotExist : List ℤ
  totalChanges : ℕ
  dbPrimaryFileModified : Bool

def PathsState.table (st : PathsState) : Paths := st.store.working

/-- The points at which the halt or the flag is read. -/
inductive PathsMoment where
  | enter
  | assembled
  | length (n : ℕ)
  | finish
  deriving DecidableEq

instance : Timeline PathsMoment where
  key
  | .enter => (0,0)
  | .assembled => (1,0)
  | .length n => (2,n)
  | .finish => (3,0)

/-- Recording one mismatch in the helper table. -/
structure RecordScript where
  prepared : Bool := true
  bound : Bool := true
  step : Bool := true

/-- The steps of the validation. A `SELECT` that does not end cleanly has delivered some
rows before. -/
structure ValidateScript where
  signal : Signal PathsMoment := {}
  assembled : Bool := true
  prepared : Bool := true
  length : ℕ → Bool := fun _ => true
  bound : ℕ → Bool := fun _ => true
  broken : Option ℕ := none
  recorded : ℕ → RecordScript := fun _ => {}
  silent : Bool := false
  listed : Bool := true

def bindRoots (script : ValidateScript) : ℕ → List RootPath → Return → Return
  | _,[],status => status
  | n,_ :: rest,status =>
    let status := if status = successStatus then leave (script.signal.halted (.length n)) (script.length n)
      else status
    let status := if status = successStatus ∧ script.bound n = false then failureStatus else status
    if status ≠ successStatus then status else bindRoots script (n + 1) rest status

/-- The variables of the loop over the mismatching rows. -/
structure Scan where
  status : Return
  pathIdDoesNotExist : List ℤ
  pathsAreEqual : Bool

/-- One row of the `SELECT`; the helper table refuses an identifier it already has. -/
def recordMismatch (script : RecordScript) (id : ℤ) (s : Scan) : Scan :=
  if id = -1 then s
  else if s.status = successStatus ∧ script.prepared = true ∧ script.bound = true then
    if script.step = true ∧ id ∉ s.pathIdDoesNotExist then
      ⟨successStatus,s.pathIdDoesNotExist ++ [id],false⟩
    else ⟨failureStatus,s.pathIdDoesNotExist,false⟩
  else
    -- a statement after a failure is prepared, but neither bound nor executed
    { s with
      status := if s.status = successStatus ∨ script.prepared = false then failureStatus else s.status
      pathsAreEqual := false }

def scanRows (script : ValidateScript) : ℕ → List ℤ → Scan → Scan
  | _,[],s => s
  | n,id :: rest,s => scanRows script (n + 1) rest (recordMismatch (script.recorded n) id s)

/-- The loop over the `SELECT`. Without roots the statement is empty and cannot be stepped. -/
def selectMismatches (script : ValidateScript) (roots : List RootPath) (t : Paths) (ids : List ℤ) : Scan :=
  if roots = [] then ⟨failureStatus,ids,true⟩
  else
    match script.broken with
    | none => scanRows script 0 (t.mismatched roots) ⟨successStatus,ids,true⟩
    | some n => { scanRows script 0 ((t.mismatched roots).take n) ⟨successStatus,ids,true⟩ with status := failureStatus }

/-- What a completed scan leads to. -/
def judgeScan (c : Config) (primaryFileExists : Bool) (script : ValidateScript) (scan : Scan) : Return :=
  if scan.status ≠ successStatus then scan.status
  else if !primaryFileExists || scan.pathsAreEqual then successStatus
  else
    let status := if script.silent || script.listed then successStatus else failureStatus
    if c.force then status else warningStatus

/-- The text of the `SELECT`, with one placeholder for every root. -/
def assembleSelect (script : ValidateScript) (roots : List RootPath) : Return :=
  if roots = [] then successStatus else leave (script.signal.halted .assembled) script.assembled

def prepareSelect (script : ValidateScript) (roots : List RootPath) : Return :=
  if script.prepared then bindRoots script 0 roots successStatus else failureStatus

def dbValidatePaths (c : Config) (primaryFileExists : Bool) (roots : List RootPath) (script : ValidateScript)
    (st : PathsState) : Return × PathsState :=
  let provided (status : Return) : Return := provide (globalReturnStatus (script.signal.halted .finish)) status
  if c.compare || script.signal.raised .enter then (provided successStatus,st)
  else if assembleSelect script roots ≠ successStatus then (provided (assembleSelect script roots),st)
  else if prepareSelect script roots ≠ successStatus then (provided (prepareSelect script roots),st)
  else
    let scan := selectMismatches script roots st.table st.pathIdDoesNotExist
    (provided (judgeScan c primaryFileExists script scan),
      { st with pathIdDoesNotExist := scan.pathIdDoesNotExist })

structure InsertScript where
  length : Bool := true
  prepared : Bool := true
  bound : Bool := true
  step : SqlOutcome := .done
  finalized : Bool := true

/-- The steps of the save. -/
structure PrefixesScript where
  signal : Signal PathsMoment := {}
  begin : Bool := true
  deletePrepared : Bool := true
  delete : SqlOutcome := .done
  deleteFinalized : Bool := true
  insert : ℕ → InsertScript := fun _ => {}
  commit : SqlOutcome := .done
  rollback : Bool := true

/-- A statement leaves the rows and the number of rows it has changed. -/
def execStep (o : SqlOutcome) (t : Paths) (changes : ℕ) (st : PathsState) : Bool × PathsState :=
  match o with
  | .done =>
    if changes = 0 then (true,st)
    else (true,{ st with store := st.store.write t, totalChanges := st.totalChanges + changes })
  | .failed => (false,st)
  | .rolledBack => (false,{ st with store := st.store.rollback })

def deleteObsolete (script : PrefixesScript) (st : PathsState) : Return × PathsState :=
  let kept := st.table.without st.pathIdDoesNotExist
  let r := if script.deletePrepared then execStep script.delete kept (st.table.rows.length - kept.rows.length) st
    else (false,st)
  (if r.1 && script.deleteFinalized then successStatus else failureStatus,r.2)

/-- One turn of the loop over the roots. -/
def insertRoot (script : PrefixesScript) (n : ℕ) (root : RootPath) (r : Return × PathsState) : Return × PathsState :=
  let insert := script.insert n
  let status := if r.1 = successStatus then leave (script.signal.halted (.length n)) insert.length else r.1
  if status ≠ successStatus then (status,r.2)
  else if insert.prepared = false ∨ insert.bound = false then (failureStatus,r.2)
  else
    let q := execStep insert.step (r.2.table.insertOrIgnore root) (if root ∈ r.2.table.prefixes then 0 else 1) r.2
    (if q.1 && insert.finalized then successStatus else failureStatus,q.2)

def insertRoots (script : PrefixesScript) : ℕ → List RootPath → Return × PathsState → Return × PathsState
  | _,[],r => r
  | n,root :: rest,r =>
    let r := insertRoot script n root r
    if r.1 ≠ successStatus then r else insertRoots script (n + 1) rest r

/-- `COMMIT` after success. -/
def commitPrefixes (script : PrefixesScript) (r : Return × PathsState) : Return × PathsState :=
  if r.1 ≠ successStatus then r
  else match script.commit with
    | .done => (successStatus,{ r.2 with store := r.2.store.commit })
    | .failed => (failureStatus,r.2)
    | .rolledBack => (failureStatus,{ r.2 with store := r.2.store.rollback })

/-- `ROLLBACK` after a failure, as long as the transaction is open. -/
def rollbackPrefixes (script : PrefixesScript) (r : Return × PathsState) : Return × PathsState :=
  if r.1 ≠ successStatus ∧ r.2.store.autocommit = false then
    if script.rollback then (r.1,{ r.2 with store := r.2.store.rollback }) else (failureStatus,r.2)
  else r

/-- The statements between `BEGIN` and the end of the transaction. -/
def writePrefixes (c : Config) (script : PrefixesScript) (roots : List RootPath) (st : PathsState) :
    Return × PathsState :=
  insertRoots script 0 roots (if c.force && !c.dryRun then deleteObsolete script st else (successStatus,st))

def dbSavePrefixes (c : Config) (primaryFileExists : Bool) (roots : List RootPath) (script : PrefixesScript)
    (st : PathsState) : Return × PathsState :=
  let provided (status : Return) : Return := provide (globalReturnStatus (script.signal.halted .finish)) status
  if script.signal.raised .enter || c.compare || (c.dryRun && primaryFileExists) then (provided successStatus,st)
  else if st.store.autocommit = false ∨ script.begin = false then (provided failureStatus,st)
  else
    let begun := { st with store := st.store.begin }
    let r := rollbackPrefixes script (commitPrefixes script (writePrefixes c script roots begun))
    (provided r.1,{ r.2 with dbPrimaryFileModified := r.2.dbPrimaryFileModified ||
      (r.1 = successStatus && !c.dryRun && st.totalChanges < r.2.totalChanges) })

end Precizer.Database.Prefixes
