import Precizer.Database.MissingCleanup

/-! # A run of the program and the history of a database

Of the pipeline of `main` the content pass, the cleanup and the exit status are followed
in full. What comes before them is the status they start under, what comes after them
the status of closing the database. A history is any sequence of runs, each completed or
cut off by a crash at any commit.
-/
namespace Precizer.Pipeline
open General Rational Traversal Database

structure RunScript where
  config : Config
  before : Return
  prefixes : List RootPath
  pass : PassScript
  cleanup : CleanupScript
  closedOk : Bool
  closeRaised : Bool
  closeHalted : Bool

/-- A run over one root in which nothing but its visits can fail. -/
def RunScript.plain (c : Config) (visits : List Visit) (access : RelativePath → FileAccessStatus) :
    RunScript where
  config := c
  before := successStatus
  prefixes := [[47]]
  pass := PassScript.plain visits
  cleanup := CleanupScript.plain access
  closedOk := true
  closeRaised := false
  closeHalted := false

/-- The status of the pipeline and the session after the cleanup. -/
structure RunState where
  status : Return
  session : Session
  interrupted : Bool

/-- `run(file_list)` of the content pass. -/
def runFileList (r : RunScript) (s : Session) : RunState :=
  if r.before.skip then ⟨r.before,s,r.pass.raisedBefore⟩
  else
    let p := fileList r.config r.pass s
    ⟨call (globalReturnStatus p.halted) r.before p.status,p.session,p.interrupted⟩

/-- `run(db_delete_missing_metadata)` after it. -/
def runCleanup (r : RunScript) (st : RunState) : RunState :=
  if st.status.skip then st
  else
    let result := dbDeleteMissingMetadata r.config r.cleanup r.prefixes st.interrupted st.session
    ⟨call (globalReturnStatus (r.cleanup.signal.halted .finish)) st.status result.1,result.2,
      st.interrupted || r.cleanup.signal.arrived⟩

/-- The passes and the closing of the database. -/
def runProgram (r : RunScript) (s : Session) : RunState :=
  let st := runCleanup r (runFileList r s)
  { st with
    status := call (globalReturnStatus r.closeHalted) st.status (leave r.closeHalted r.closedOk)
    interrupted := st.interrupted || r.closeRaised }

def openSession (t : FilesTable) (log : List Event) : Session := { store := Store.opened t log }

def runFrom (r : RunScript) (t : FilesTable) (log : List Event) : RunState :=
  runProgram r (openSession t log)

/-- The files tables found on disk after any number of runs, each allowed in the state it
starts from, with the log that led there. -/
inductive History (allowed : RunScript → FilesTable → List Event → Prop) (start : FilesTable) :
    FilesTable → List Event → Prop where
  | start : History allowed start start []
  | run {t : FilesTable} {log : List Event} (h : History allowed start t log) (r : RunScript)
      (hallowed : allowed r t log) {t' : FilesTable} {log' : List Event}
      (hdisk : (t',log') ∈ (runFrom r t log).session.store.durable) : History allowed start t' log'

end Precizer.Pipeline
