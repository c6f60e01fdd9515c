import Precizer.General.LabelledTrace
import Precizer.Traversal.PassRules

/-! # The saves a pass issues

Every call of `db_save_file_record` of a pass, in order, with what it was to save and the status
it returned to its caller. The calls follow the control flow of the pass stage by stage; a save is
performed when its caller was told so, and none is in a dry run.
-/
namespace Precizer.Traversal
open General Rational Digest Database

structure SaveCall where
  path : RelativePath
  file : File
  pathKnown : Bool
  status : Return

/-- One save: the row it updates, or none for a new row, and the columns it writes. -/
structure FileSave where
  path : RelativePath
  ident : Option ℕ
  columns : FileColumns

def SaveCall.save (x : SaveCall) : FileSave :=
  ⟨x.path,if x.pathKnown then some x.file.db.ID else none,boundColumns x.file⟩

def saveCall (c : Config) (halted : Bool) (script : SaveScript) (path : RelativePath) (file : File)
    (pathKnown mark : Bool) (s : Session) : SaveCall :=
  ⟨path,file,pathKnown,(dbSaveFileRecord c halted script path file pathKnown mark s).status⟩

def performedSaves (c : Config) (calls : List SaveCall) : List FileSave :=
  if c.dryRun then [] else (calls.filter fun x => x.status.success).map SaveCall.save

def checkpointCalls (c : Config) (v : Visit) (path : RelativePath) (n : ℕ) (t : Turn) (h : HashState) : List SaveCall :=
  if periodicHashCheckpointIsAllowed c h.file then
    [saveCall c (v.signal.halted (.saved n)) t.save path h.file h.pathKnown false h.session]
  else []

def hashTurnCalls (c : Config) (v : Visit) (path : RelativePath) (n : ℕ) (t : Turn) (h : HashState) : List SaveCall :=
  if h.status = successStatus then
    match sha512Update h.file.mdContext t.bytes with
    | (.cryptOk,md) =>
      let h := h.absorbed path md t.bytes
      if h.checkpointDue t.nowNs then checkpointCalls c v path n t h else []
    | _ => []
  else []

def hashLoopCalls (c : Config) (v : Visit) (path : RelativePath) : ℕ → List Turn → HashState → List SaveCall
  | _,[],_ => []
  | n,t :: rest,h =>
    if v.signal.raised (.turn n) then []
    else
      let r := hashTurn c v path n t h
      hashTurnCalls c v path n t h ++ if r.2 then [] else hashLoopCalls c v path (n + 1) rest r.1

def sha512sumCalls (c : Config) (v : Visit) (path : RelativePath) (file : File) (pathKnown : Bool) (s : Session) :
    List SaveCall :=
  match v.disk.openErrno with
  | some _ => []
  | none =>
    if v.disk.seekable file.checksumOffset && performFileHashing c then
      hashLoopCalls c v path 0 (v.disk.turns file.checksumOffset) (hashStart v file pathKnown s)
    else []

def hashStageCalls (c : Config) (v : Visit) (st : FileStage) : List SaveCall :=
  if shouldProcess st.file && st.file.rehash && st.status = successStatus then
    sha512sumCalls c v v.entry.path st.file st.file.db.relativePathWasInDbBeforeProcessing st.session
  else []

def settleCalls (c : Config) (v : Visit) (st : HashStage) : List SaveCall :=
  if st.blocked || (st.pathKnown && !shouldUpdateDb c st.file) || !st.status.success then []
  else [saveCall c (v.signal.halted .record) v.save v.entry.path st.file st.pathKnown true st.session]

def decidedCalls (c : Config) (v : Visit) (p : Pass) (st : FileStage) : List SaveCall :=
  hashStageCalls c v st ++
    match hashStage c v p st with
    | .error _ => []
    | .ok st => settleCalls c v (st.compared c)

def processFileCalls (c : Config) (v : Visit) (p : Pass) : List SaveCall :=
  match loadFile c v p with
  | .error _ => []
  | .ok st =>
    match accessFile v p st with
    | .error _ => []
    | .ok st =>
      match decideStage c v p st with
      | .error _ => []
      | .ok st => decidedCalls c v p st

def visitCalls (c : Config) (v : Visit) (p : Pass) : List SaveCall :=
  if p.interrupted || v.signal.raised .top then []
  else
    let p := checkBatch v p
    if p.status.failure || beyondMaxdepth c v.entry then []
    else if v.entry.info = .file then processFileCalls c v p
    else []

def traverseCalls (c : Config) (p : Pass) (v : Visit) : List SaveCall :=
  if p.continueTheLoop && p.delivers v.entry then visitCalls c v { p with skipBelow := none } else []

def visitsCalls (c : Config) : List Visit → Pass → List SaveCall
  | [],_ => []
  | v :: rest,p => traverseCalls c p v ++ visitsCalls c rest (traverseStep c p v)

def walkCalls (c : Config) : List RootScript → Pass → List SaveCall
  | [],_ => []
  | root :: rest,p =>
    if !root.opened then walkCalls c rest p.reportRoot
    else if !root.ftsOpened then []
    else visitsCalls c root.visits { p with skipBelow := none } ++
      if (walkRoot c root p).interrupted || !(walkRoot c root p).status.success then []
      else walkCalls c rest (walkRoot c root p)

/-- The calls of a whole pass; what follows the walk saves nothing. -/
def fileListCalls (c : Config) (script : PassScript) (s : Session) : List SaveCall :=
  if c.compare || leave script.haltedBefore script.bufferReady ≠ successStatus then []
  else walkCalls c script.roots (passStart script s)

@[simp] theorem performedSaves_nil (c : Config) : performedSaves c [] = [] := by
  unfold performedSaves
  split <;> rfl

theorem performedSaves_append (c : Config) (calls more : List SaveCall) :
    performedSaves c (calls ++ more) = performedSaves c calls ++ performedSaves c more := by
  unfold performedSaves
  cases c.dryRun with
  | true => rfl
  | false => rw [if_neg (by decide),if_neg (by decide),if_neg (by decide),List.filter_append,List.map_append]

theorem performedSaves_single {c : Config} (hdry : c.dryRun = false) (x : SaveCall) :
    performedSaves c [x] = if x.status.success then [x.save] else [] := by
  rw [performedSaves,if_neg (by simp [hdry]),List.filter_cons]
  split <;> rfl

end Precizer.Traversal
