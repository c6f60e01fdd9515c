import Precizer.Traversal.FileDecision

/-! # The content pass

One step of the pass processes one delivered entry. The branch for a regular file is
split where the source can leave it: reading the row and the scope, checking the
access, deciding, hashing, and settling the result.
-/
namespace Precizer.Traversal
open General Rational Digest Database

/-- The variables of the pass that live across entries. -/
structure Pass where
  session : Session
  status : Return := successStatus
  continueTheLoop : Bool := true
  interrupted : Bool := false
  halted : Bool := false
  lockChecksumViolationDetected : Bool := false
  skipBelow : Option ℕ := none

def Pass.stop (p : Pass) (status : Return) (session : Session) : Pass :=
  { p with session := session, status := status, continueTheLoop := false }

def Pass.next (p : Pass) (status : Return) (session : Session) : Pass :=
  { p with session := session, status := status }

structure FileStage where
  status : Return
  session : Session
  file : File

/-- Build the path, load the row, and settle locking and visibility of the path. -/
def loadFile (c : Config) (v : Visit) (p : Pass) : Except Pass FileStage :=
  let global (q : Moment) : Return := globalReturnStatus (v.signal.halted q)
  let path := v.entry.path
  let status := run (global .path) p.status (leave (v.signal.halted .path) v.pathBuilt)
  if !status.triumph then .error (p.stop status p.session)
  else
    let session := if status.skip then p.session else p.session.sideWrite v.lookup
    let db := if status.skip || v.lookup ≠ .done then DBrow.zero else readRow p.session.table path
    let status := run (global .row) status (leave (v.signal.halted .row) (v.lookup = .done))
    if status ≠ successStatus then .error (p.stop status session)
    else
      let asked := ask (global .lock) status
        (pathCheckLockedChecksum c (v.signal.halted .lockMatch) (v.signal.halted .lock) path)
      if asked.2 ≠ successStatus then .error (p.stop asked.2 session)
      else
        let scope := matchIncludeIgnore c (v.signal.halted .scopeMatch) path
        let status := leave (v.signal.halted .scope) scope.ok
        if status ≠ successStatus then .error (p.stop status session)
        else .ok {
          status := status
          session := session
          file := {
            db := db
            lockedChecksumFile := asked.1
            included := scope.included
            ignore := scope.ignored && !asked.1 } }

/-- Check read access; an unavailable locked file is reported and left alone. -/
def accessFile (v : Visit) (p : Pass) (st : FileStage) : Except Pass FileStage :=
  if st.file.ignore then .ok st
  else if st.file.db.relativePathWasInDbBeforeProcessing = true ∧ st.file.lockedChecksumFile = true ∧
      v.access ≠ .accessAllowed then
    let session := ((st.session.report (.lockedUnavailable v.entry.path v.access)).sideWrite
      v.remember).requestReplay
    let status := leave (v.signal.halted .access) true
    if status ≠ successStatus then .error (p.stop status session)
    else .error { p.next status session with lockChecksumViolationDetected := true }
  else .ok { st with file := { st.file with isReadable := v.access = .accessAllowed } }

/-- Copy the metadata, decide, and leave early when nothing has to be done. -/
def decideStage (c : Config) (v : Visit) (p : Pass) (st : FileStage) : Except Pass FileStage :=
  let status := run (globalReturnStatus (v.signal.halted .stat)) st.status
    (leave (v.signal.halted .stat) true)
  let session := st.session.emit (.met v.entry.path (statCopy v.entry.statp) v.disk)
  let file := compareMetadata { st.file with stat := statCopy v.entry.statp }
  if leavesUnchanged c file then .error (p.next status session)
  else
    let file := decideFile c file
    if lockedTimestampDriftOnly c file then .error (p.next status session)
    else .ok ⟨status,session,file⟩

structure HashStage where
  status : Return
  session : Session
  file : File
  pathKnown : Bool
  hashFailed : Bool

/-- Hash the file or reuse the stored digest; an interrupted pass without state is dropped. -/
def hashStage (c : Config) (v : Visit) (p : Pass) (st : FileStage) : Except Pass HashStage :=
  let known := st.file.db.relativePathWasInDbBeforeProcessing
  if shouldProcess st.file then
    if st.file.rehash then
      let r := if st.status = successStatus then sha512sum c v v.entry.path st.file known st.session
        else ⟨st.status,st.session,st.file,known⟩
      if r.status.success then
        if v.signal.raised .checked then
          if r.file.checksumOffset = 0 then .error (p.next r.status r.session)
          else .ok ⟨r.status,r.session,{ r.file with hashInterrupted := true },r.pathKnown,false⟩
        else .ok ⟨r.status,r.session,r.file,r.pathKnown,false⟩
      else .ok ⟨r.status,r.session,r.file,r.pathKnown,true⟩
    else .ok ⟨st.status,st.session,{ st.file with sha512 := st.file.db.sha512 },known,false⟩
  else .ok ⟨st.status,st.session,st.file,known,false⟩

def HashStage.compared (c : Config) (st : HashStage) : HashStage :=
  if shouldProcess st.file && checksumMismatch c st.status st.hashFailed st.file then
    { st with file := { st.file with lockedChecksumMismatch := true } }
  else st

/-- The file is reported without being saved. -/
def HashStage.blocked (st : HashStage) : Bool :=
  !st.file.isReadable || st.file.ignore || st.file.lockChecksumViolation || st.hashFailed ||
    st.file.readError || st.file.lockedChecksumMismatch

def HashStage.violation (st : HashStage) : Bool :=
  (st.file.lockChecksumViolation || st.file.lockedChecksumMismatch) && !st.file.readError

def showStage (c : Config) (v : Visit) (file : File) (s : Session) : Session :=
  ((showFile c file).foldl (fun s label => s.report (.file v.entry.path label)) s).sideWrite v.remember

/-- Save the record or flag the violation, and print the outcome. -/
def settleFile (c : Config) (v : Visit) (p : Pass) (st : HashStage) : Pass :=
  let p := { p with continueTheLoop := p.continueTheLoop && !st.hashFailed }
  if st.blocked then
    let session := if st.violation then st.session.requestReplay else st.session
    { p.next st.status (showStage c v st.file session) with
      lockChecksumViolationDetected := p.lockChecksumViolationDetected || st.violation }
  else if (st.pathKnown && !shouldUpdateDb c st.file) || !st.status.success then
    p.next st.status (showStage c v st.file st.session)
  else
    let r := dbSaveFileRecord c (v.signal.halted .record) v.save v.entry.path st.file st.pathKnown true
      st.session
    if r.status.success then p.next r.status (showStage c v r.file r.session)
    else p.stop r.status r.session

def processFile (c : Config) (v : Visit) (p : Pass) : Pass :=
  match loadFile c v p with
  | .error p => p
  | .ok st =>
    match accessFile v p st with
    | .error p => p
    | .ok st =>
      match decideStage c v p st with
      | .error p => p
      | .ok st =>
        match hashStage c v p st with
        | .error p => p
        | .ok st => settleFile c v p (st.compared c)

def directoryShow (c : Config) (path : RelativePath) (scope : Scope) (s : Session) : Session :=
  if c.quietIgnored then s
  else if scope.ignored then s.report (.ignoredDirectory path)
  else if scope.included then s.report (.includedDirectory path)
  else s

/-- An ignored directory is pruned only without include and lock patterns, an inaccessible
one only without include patterns. -/
def processDirectory (c : Config) (v : Visit) (p : Pass) : Pass :=
  let global (q : Moment) : Return := globalReturnStatus (v.signal.halted q)
  let status := run (global .path) p.status (leave (v.signal.halted .path) v.pathBuilt)
  let path := if v.signal.halted .path then v.staleText else v.entry.path
  if !status.triumph then p.stop status p.session
  else
    let scope := matchIncludeIgnore c (v.signal.halted .scopeMatch) path
    let status := leave (v.signal.halted .scope) scope.ok
    if !status.triumph then p.stop status p.session
    else
      let session := directoryShow c path scope p.session
      if scope.ignored then
        { p.next status session with
          skipBelow := if c.includeSpecified || c.lockChecksumSpecified then none else some v.entry.level }
      else
        let status := leave (v.signal.halted .access) true
        if v.access = .accessAllowed then p.next status session
        else { p.next status ((session.report (.inaccessibleDirectory path)).sideWrite v.remember) with
          skipBelow := if c.includeSpecified then none else some v.entry.level }

/-- Entries the walk could not read are reported and otherwise left out. -/
def processUnreadable (v : Visit) (report : RelativePath → Report) (p : Pass) : Pass :=
  let status := run (globalReturnStatus (v.signal.halted .path)) p.status
    (leave (v.signal.halted .path) v.pathBuilt)
  let path := if v.signal.halted .path then v.staleText else v.entry.path
  if !status.triumph then p.stop status p.session
  else p.next status ((p.session.report (report path)).sideWrite v.remember)

def processEntry (c : Config) (v : Visit) (p : Pass) : Pass :=
  match v.entry.info with
  | .directory => processDirectory c v p
  | .file => processFile c v p
  | .unreadableDirectory => processUnreadable v .unreadableDirectory p
  | .error => processUnreadable v .ftsError p
  | .noStat => processUnreadable v .statError p
  | .other => p

/-- The walk delivers an entry unless it lies below a directory that was skipped. -/
def Pass.delivers (p : Pass) (e : FtsEntry) : Bool :=
  match p.skipBelow with
  | none => true
  | some level => e.level ≤ level

def beyondMaxdepth (c : Config) (e : FtsEntry) : Bool :=
  match c.maxdepth with
  | none => false
  | some depth => depth + 1 < e.level

/-- The timed commit of the open batch, before an entry is looked at. -/
def checkBatch (v : Visit) (p : Pass) : Pass :=
  if p.session.fileTransactionActive then
    let r := dbFileTransactionCheck (v.signal.halted .check) v.nowNs v.batchCommit p.session
    { p with
      session := r.2
      status := call (globalReturnStatus (v.signal.halted .check)) p.status r.1 }
  else p

/-- One turn of the traversal loop under the flag as the turn itself reads it. -/
def visitEntry (c : Config) (v : Visit) (p : Pass) : Pass :=
  if p.interrupted || v.signal.raised .top then { p with continueTheLoop := false }
  else
    let p := checkBatch v p
    if p.status.failure then { p with continueTheLoop := false }
    else if beyondMaxdepth c v.entry then
      if v.entry.info = .directory then { p with skipBelow := some v.entry.level } else p
    else processEntry c v p

/-- Afterwards an interrupt that arrived during the entry is pending. -/
def traverseStep (c : Config) (p : Pass) (v : Visit) : Pass :=
  if p.continueTheLoop && p.delivers v.entry then
    let p' := visitEntry c v { p with skipBelow := none }
    { p' with
      interrupted := p.interrupted || v.signal.arrived
      halted := p.halted || (v.signal.arrived && !v.signal.lost) }
  else p

/-- Roots are walked one after the other; an unavailable one is passed over. -/
def walkRoots (c : Config) : List RootScript → Pass → Pass
  | [],p => p
  | root :: rest,p =>
    if !root.opened then
      walkRoots c rest { p with session := (p.session.report .rootUnavailable).requestReplay }
    else if !root.ftsOpened then { p with status := failureStatus }
    else
      let p := root.visits.foldl (traverseStep c) { p with skipBelow := none }
      let p := if root.closed then p else { p with status := failureStatus }
      if p.interrupted || !p.status.success then p else walkRoots c rest p

/-- Commit what is pending unless the pass failed, roll back what is left, and turn a
detected violation into a warning. -/
def finishPass (f : FinishScript) (p : Pass) : Pass :=
  let halted := p.halted || f.halted
  let global := globalReturnStatus halted
  let committed := if p.status.failure then (p.status,p.session) else
    let r := dbFileTransactionCommit halted f.commit p.session
    (call global p.status r.1,r.2)
  let r := dbFileTransactionRollback halted f.rollback committed.2
  let status := call global committed.1 r.1
  let status := if p.lockChecksumViolationDetected = true ∧ status = successStatus then warningStatus
    else status
  { p with
    session := r.2
    status := provide global status
    interrupted := p.interrupted || f.raised
    halted := halted }

def fileList (c : Config) (script : PassScript) (s : Session) : Pass :=
  let start : Pass := { session := s, interrupted := script.raisedBefore, halted := script.haltedBefore }
  let ready := leave script.haltedBefore script.bufferReady
  if c.compare then { start with status := leave script.haltedBefore true }
  else if ready ≠ successStatus then { start with status := provide (globalReturnStatus script.haltedBefore) ready }
  else finishPass script.finish (walkRoots c script.roots start)

end Precizer.Traversal
