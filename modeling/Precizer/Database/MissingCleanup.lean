import Precizer.Traversal.FileList

/-! # Cleanup of rows without a file

After the content pass every row is checked once more against the root stored in the
paths table. A row goes when its file is missing, inaccessible or ignored and the options
allow it; a locked row always stays and its unavailability is reported.
-/
namespace Precizer.Database
open General Rational Traversal

/-- The points of the cleanup at which the halt or the flag is read. -/
inductive CleanupMoment where
  | enter
  | rootPath
  | row (n : ℕ)
  | copied (n : ℕ)
  | scopeMatch (n : ℕ)
  | scope (n : ℕ)
  | lockMatch (n : ℕ)
  | lock (n : ℕ)
  | violationMatch (n : ℕ)
  | violation (n : ℕ)
  | preserved (n : ℕ)
  | deleted (n : ℕ)
  | finish
  deriving DecidableEq

instance : Timeline CleanupMoment where
  key
  | .enter => (0,0)
  | .rootPath => (1,0)
  | .row n => (2,10 * n)
  | .copied n => (2,10 * n + 1)
  | .scopeMatch n => (2,10 * n + 2)
  | .scope n => (2,10 * n + 3)
  | .lockMatch n => (2,10 * n + 4)
  | .lock n => (2,10 * n + 5)
  | .violationMatch n => (2,10 * n + 6)
  | .violation n => (2,10 * n + 7)
  | .preserved n => (2,10 * n + 8)
  | .deleted n => (2,10 * n + 9)
  | .finish => (3,0)

abbrev RootPath := List UInt8

/-- An order in which the rows are selected. The query asks for none. -/
structure RowOrder where
  arrange : List (Entry RelativePath FileColumns) → List (Entry RelativePath FileColumns)
  perm : ∀ rows, (arrange rows).Perm rows

/-- The order in which the table holds the rows. -/
def RowOrder.stored : RowOrder := ⟨id,List.Perm.refl⟩

/-- The results of the cleanup's file and database operations. -/
structure CleanupScript where
  signal : Signal CleanupMoment
  prefixRead : Bool
  openRoot : RootPath → Option (RelativePath → FileAccessStatus)
  begin : SqlOutcome
  prepared : Bool
  order : RowOrder
  copied : ℕ → Bool
  remember : ℕ → SqlOutcome
  delete : ℕ → SqlOutcome
  stepDone : Bool
  finalized : Bool
  closed : Bool
  commit : SqlOutcome
  rollback : Bool

/-- A cleanup in which no operation fails and no interrupt arrives. -/
def CleanupScript.plain (access : RelativePath → FileAccessStatus) : CleanupScript where
  signal := {}
  prefixRead := true
  openRoot := fun _ => some access
  begin := .done
  prepared := true
  order := .stored
  copied := fun _ => true
  remember := fun _ => .done
  delete := fun _ => .done
  stepDone := true
  finalized := true
  closed := true
  commit := .done
  rollback := true

/-- `SELECT ID,relative_path FROM files` -/
def CleanupScript.selected (script : CleanupScript) (t : FilesTable) : List (Entry RelativePath FileColumns) :=
  script.order.arrange t.rows

@[simp] theorem CleanupScript.mem_selected {script : CleanupScript} {t : FilesTable}
    {e : Entry RelativePath FileColumns} : e ∈ script.selected t ↔ e ∈ t.rows := (script.order.perm t.rows).mem_iff

structure CleanupState where
  session : Session
  status : Return
  violationDetected : Bool := false

section Row

variable (c : Config) (script : CleanupScript) (n : ℕ) (path : RelativePath)

def lockQuestion : Return :=
  pathCheckLockedChecksum c (script.signal.halted (.lockMatch n)) (script.signal.halted (.lock n)) path

def reportUnavailable (access : FileAccessStatus) (s : Session) : Session :=
  ((s.report (.lockedUnavailable path access)).sideWrite (script.remember n)).requestReplay

/-- Whether the unavailable path is locked; if it is, it has been reported. -/
def dbCheckLockedUnavailableViolation (access : FileAccessStatus) (s : Session) : Return × Session :=
  let global := globalReturnStatus (script.signal.halted (.violation n))
  let asked := ask global successStatus
    (pathCheckLockedChecksum c (script.signal.halted (.violationMatch n))
      (script.signal.halted (.violation n)) path)
  if asked.1 then
    (provide global ((leave (script.signal.halted (.violation n)) true).union { yes := true }),
      reportUnavailable script n path access s)
  else (provide global (asked.2.union { no := true }),s)

/-- Whether the ignored row has to stay because its path is locked. -/
def dbPreserveLockedIgnoredRecord (access : FileAccessStatus) (s : Session) : Return × Bool × Session :=
  let global := globalReturnStatus (script.signal.halted (.preserved n))
  let asked := ask (globalReturnStatus (script.signal.halted (.lock n))) successStatus
    (lockQuestion c script n path)
  if asked.1 then
    if asked.2 = successStatus ∧ access ≠ .accessAllowed then
      let r := dbCheckLockedUnavailableViolation c script n path access s
      let reported := ask (globalReturnStatus (script.signal.halted (.violation n))) asked.2 r.1
      (provide global (reported.2.union { yes := reported.2.triumph, no := !reported.2.triumph }),
        reported.1,r.2)
    else
      (provide global (asked.2.union { yes := asked.2.triumph, no := !asked.2.triumph }),false,s)
  else (provide global (asked.2.union { no := true }),false,s)

/-- Every dropped row but a missing one is remembered for the final report. -/
def rememberedReason (reason : DropReason) : Bool := reason ≠ .missing

/-- `DELETE` of one row, or in a dry run a `SELECT` of it. -/
def dbDeleteTheRecordById (id : ℕ) (s : Session) : Return × Session :=
  let halted := script.signal.halted (.deleted n)
  if c.dryRun then (leave halted (script.delete n = .done),s.sideWrite (script.delete n))
  else
    let s' := s.execute (.delete path)
    match script.delete n with
    | .done =>
      (leave halted true,
        { s' with store := s'.store.write (s.table.erase id), dbPrimaryFileModified := true })
    | .failed => (leave halted false,s')
    | .rolledBack => (leave halted false,s'.rollbackStore)

def deleteRow (id : ℕ) (reason : DropReason) (st : CleanupState) : CleanupState :=
  if c.dryRun = false ∧ st.session.store.autocommit = true then { st with status := failureStatus }
  else
    let r := dbDeleteTheRecordById c script n path id st.session
    if r.1 = successStatus then
      let session := r.2.report (.dropped path reason)
      { st with
        status := r.1
        session := if rememberedReason reason then session.sideWrite (script.remember n) else session }
    else { st with status := r.1, session := r.2 }

/-- A row outside the ignore scope: kept, reported, or deleted by its access result. -/
def cleanupVisible (id : ℕ) (access : FileAccessStatus) (st : CleanupState) : CleanupState :=
  if access = .accessAllowed then st
  else
    let r := dbCheckLockedUnavailableViolation c script n path access st.session
    let asked := ask (globalReturnStatus (script.signal.halted (.violation n))) st.status r.1
    let st := { st with session := r.2, status := asked.2 }
    if asked.1 then { st with violationDetected := true }
    else if asked.2 ≠ successStatus then st
    else if access = .notFound then deleteRow c script n path id .missing st
    else if c.dbDropInaccessible then deleteRow c script n path id .inaccessible st
    else { st with session := st.session.report (.keptInaccessible path) }

/-- An ignored row that may not be dropped: only its lock is still checked. -/
def cleanupIgnored (access : FileAccessStatus) (st : CleanupState) : CleanupState :=
  let asked := ask (globalReturnStatus (script.signal.halted (.lock n))) st.status
    (lockQuestion c script n path)
  let st := { st with status := asked.2 }
  if asked.1 = true ∧ access ≠ .accessAllowed then
    let r := dbCheckLockedUnavailableViolation c script n path access st.session
    let reported := ask (globalReturnStatus (script.signal.halted (.violation n))) st.status r.1
    { session := r.2
      status := reported.2
      violationDetected := st.violationDetected || reported.1 }
  else st

def cleanupDropIgnored (id : ℕ) (access : FileAccessStatus) (st : CleanupState) : CleanupState :=
  let r := dbPreserveLockedIgnoredRecord c script n path access st.session
  let asked := ask (globalReturnStatus (script.signal.halted (.preserved n))) st.status r.1
  let st := { st with session := r.2.2, status := asked.2 }
  if asked.1 then { st with violationDetected := st.violationDetected || r.2.1 }
  else if asked.2 ≠ successStatus then st
  else deleteRow c script n path id .ignored st

/-- The scope is only evaluated when an ignore pattern was given. -/
def cleanupRow (id : ℕ) (access : FileAccessStatus) (st : CleanupState) : CleanupState :=
  let status := run (globalReturnStatus (script.signal.halted (.copied n))) st.status
    (leave (script.signal.halted (.copied n)) (script.copied n))
  if status ≠ successStatus then { st with status := status }
  else
    let scope := if c.ignorePatterns.isEmpty then ⟨true,false,false⟩
      else matchIncludeIgnore c (script.signal.halted (.scopeMatch n)) path
    let status := if c.ignorePatterns.isEmpty then status
      else leave (script.signal.halted (.scope n)) scope.ok
    let st := { st with status := status }
    if status ≠ successStatus then st
    else if scope.ignored then
      if c.dbDropIgnored then cleanupDropIgnored c script n path id access st
      else cleanupIgnored c script n path access st
    else cleanupVisible c script n path id access st

end Row

/-- The loop over the selected rows; it ends with the first status other than success. -/
def cleanupRows (c : Config) (script : CleanupScript) (access : RelativePath → FileAccessStatus) :
    ℕ → List (Entry RelativePath FileColumns) → CleanupState → CleanupState
  | _,[],st =>
    if st.status = successStatus ∧ script.stepDone = false ∧ script.signal.raised .finish = false then
      { st with status := failureStatus }
    else st
  | n,e :: rest,st =>
    if st.status ≠ successStatus then st
    else if script.signal.raised (.row n) then st
    else cleanupRows c script access (n + 1) rest (cleanupRow c script n e.key e.ident (access e.key) st)

/-- Commit unless something failed, then roll back what is still open. -/
def cleanupEnd (c : Config) (script : CleanupScript) (st : CleanupState) : CleanupState :=
  let status := if st.status = successStatus ∧ script.finalized = false then failureStatus else st.status
  let status := if script.closed then status else failureStatus
  if c.dryRun then { st with status := status }
  else
    let committed := if status.failure then (status,st.session) else
      let r := execCommit st.session script.commit
      (if r.1 then status else failureStatus,r.2)
    if committed.2.store.autocommit then { st with status := committed.1, session := committed.2 }
    else
      let r := execRollback committed.2 script.rollback
      { st with status := if r.1 then committed.1 else failureStatus, session := r.2 }

def cleanupOpened (c : Config) (script : CleanupScript) (access : RelativePath → FileAccessStatus)
    (st : CleanupState) : CleanupState :=
  let begun := if c.dryRun then (true,st.session) else execBegin st.session script.begin
  let status := if begun.1 && script.prepared then st.status else failureStatus
  cleanupEnd c script
    (cleanupRows c script access 0 (script.selected begun.2.table) { st with session := begun.2, status := status })

/-- The cleanup of a single stored root: the first prefix of the paths table. -/
def dbDeleteMissingMetadata (c : Config) (script : CleanupScript) (prefixes : List RootPath)
    (interrupted : Bool) (s : Session) : Return × Session :=
  let entering := leave (script.signal.halted .enter) true
  if interrupted || script.signal.raised .enter || c.compare || !c.update then (entering,s)
  else
    let global := globalReturnStatus (script.signal.halted .rootPath)
    let root := prefixes.head?
    let status := run global successStatus
      (leave (script.signal.halted .rootPath) (script.prefixRead && (root.any fun r => !r.isEmpty)))
    if status ≠ successStatus then (provide global status,s)
    else
      match root.bind script.openRoot with
      | none => (provide global status,(s.report .rootUnavailable).requestReplay)
      | some access =>
        let st := cleanupOpened c script access { session := s, status := status }
        let global := globalReturnStatus (script.signal.halted .finish)
        let status := call global st.status (leave (script.signal.halted .finish) true)
        let status := if st.violationDetected = true ∧ status = successStatus then warningStatus
          else status
        (provide global status,st.session)

end Precizer.Database
