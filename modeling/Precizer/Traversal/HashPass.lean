import Precizer.Database.FileTransaction
import Precizer.Digest.Sha512Stream

/-! # Hashing one file

The reading loop absorbs one chunk a turn and may save a checkpoint after it. The pass
ends with a digest, with a state to resume from, or with an error flag in the file
record.
-/
namespace Precizer.Traversal
open General Rational Digest Database

/-- A checkpoint must not replace the digest of a sealed locked row. -/
def periodicHashCheckpointIsAllowed (c : Config) (file : File) : Bool :=
  if c.dryRun then false
  else if file.checksumOffset = 0 then false
  else if file.lockedChecksumFile = true ∧ file.db.relativePathWasInDbBeforeProcessing = true ∧
      file.db.savedOffset = 0 then false
  else true

structure HashState where
  session : Session
  file : File
  pathKnown : Bool
  status : Return
  nextCheckpointNs : ℤ
  bytes : List UInt8
  loopWasInterrupted : Bool
  atEnd : Bool

def HashState.absorbed (path : RelativePath) (h : HashState) (md : SHA512Context) (bytes : List UInt8) :
    HashState :=
  { h with
    session := h.session.emit (.read path h.file.checksumOffset bytes)
    file := { h.file with mdContext := md, checksumOffset := h.file.checksumOffset + bytes.length }
    bytes := h.bytes ++ bytes }

def HashState.checkpointDue (h : HashState) (nowNs : ℤ) : Bool :=
  nowNs ≥ h.nextCheckpointNs ∨ (h.session.fileTransactionActive = true ∧
    nowNs - h.session.fileTransactionStartedNs ≥ dbCheckpointIntervalNs)

/-- The save of a checkpoint, when it is allowed. -/
def HashState.checkpointSave (c : Config) (v : Visit) (path : RelativePath) (n : ℕ) (t : Turn)
    (h : HashState) : HashState :=
  if periodicHashCheckpointIsAllowed c h.file then
    let r := dbSaveFileRecord c (v.signal.halted (.saved n)) t.save path h.file h.pathKnown false h.session
    { h with session := r.session, file := r.file, pathKnown := r.pathKnown, status := r.status }
  else h

/-- The commit that ends a checkpoint window, also of a checkpoint that was not allowed. -/
def HashState.checkpointCommit (v : Visit) (n : ℕ) (t : Turn) (h : HashState) : HashState :=
  let r := dbFileTransactionCommit (v.signal.halted (.committed n)) t.commit h.session
  { h with
    session := r.2
    status := call (globalReturnStatus (v.signal.halted (.committed n))) h.status r.1 }

/-- One read chunk; the flag tells whether the loop is left. -/
def hashTurn (c : Config) (v : Visit) (path : RelativePath) (n : ℕ) (t : Turn) (h : HashState) :
    HashState × Bool :=
  if h.status = successStatus then
    match sha512Update h.file.mdContext t.bytes with
    | (.cryptOk,md) =>
      let h := h.absorbed path md t.bytes
      if h.checkpointDue t.nowNs then
        let h := h.checkpointSave c v path n t
        if h.status.failure then (h,true)
        else
          let h := h.checkpointCommit v n t
          if h.status.failure then (h,true)
          else ({ h with nextCheckpointNs := t.nowNs + dbCheckpointIntervalNs },false)
      else (h,false)
    | _ => ({ h with status := failureStatus },true)
  else (h,false)

/-- The read that delivers nothing is the end of the file or an error. -/
def HashState.readEnd (readErrno : Option ℕ) (h : HashState) : HashState :=
  match readErrno with
  | some errno => { h with file := { h.file with readError := true, readErrno := errno } }
  | none => { h with atEnd := true }

def hashLoop (c : Config) (v : Visit) (path : RelativePath) (readErrno : Option ℕ) :
    ℕ → List Turn → HashState → HashState
  | n,[],h =>
    if v.signal.raised (.turn n) then { h with loopWasInterrupted := true } else h.readEnd readErrno
  | n,t :: rest,h =>
    if v.signal.raised (.turn n) then { h with loopWasInterrupted := true }
    else
      let r := hashTurn c v path n t h
      if r.2 then r.1 else hashLoop c v path readErrno (n + 1) rest r.1

structure HashResult where
  status : Return
  session : Session
  file : File
  pathKnown : Bool

/-- The digest is taken only after a loop that was neither interrupted nor stopped. -/
def HashState.finalise (h : HashState) : HashState :=
  if h.status = successStatus ∧ h.loopWasInterrupted = false then
    match sha512Final h.file.mdContext with
    | (.cryptOk,md,digest) =>
      { h with file := { h.file with checksumOffset := 0, mdContext := md, sha512 := digest } }
    | (_,md,_) =>
      { h with file := { h.file with checksumOffset := 0, mdContext := md }, status := failureStatus }
  else h

def performFileHashing (c : Config) : Bool := !c.dryRun || c.dryRunWithChecksums

/-- Initialise a context that starts at offset zero; a resumed one is used as it is. -/
def preparedContext (file : File) : File :=
  if file.checksumOffset = 0 then { file with mdContext := sha512Init file.mdContext } else file

def hashStart (v : Visit) (file : File) (pathKnown : Bool) (s : Session) : HashState where
  session := s
  file := preparedContext file
  pathKnown := pathKnown
  status := successStatus
  nextCheckpointNs := v.hashStartNs + dbCheckpointIntervalNs
  bytes := []
  loopWasInterrupted := false
  atEnd := false

def sha512sum (c : Config) (v : Visit) (path : RelativePath) (file : File) (pathKnown : Bool)
    (s : Session) : HashResult :=
  let halted := v.signal.halted .hashed
  match v.disk.openErrno with
  | some errno => ⟨leave halted true,s,{ file with readError := true, readErrno := errno },pathKnown⟩
  | none =>
    if v.disk.seekable file.checksumOffset then
      if performFileHashing c then
        let h := hashLoop c v path (v.disk.readErrno file.checksumOffset) 0
          (v.disk.turns file.checksumOffset) (hashStart v file pathKnown s)
        let session := h.session.emit (.hashed path v.disk file.checksumOffset h.bytes h.atEnd)
        let h := h.finalise
        ⟨provide (globalReturnStatus halted) h.status,session,h.file,h.pathKnown⟩
      else ⟨leave halted true,s,preparedContext file,pathKnown⟩
    else ⟨leave halted true,s,{ file with wrongFileType := true },pathKnown⟩

/-- The part of the file record a hash pass never touches. -/
def File.frame (f : File) : File :=
  { f with
    db := { f.db with ID := 0 }
    mdContext := zeroContext
    checksumOffset := 0
    sha512 := zeroDigest
    readError := false
    readErrno := 0
    wrongFileType := false }

theorem frame_congr {α : Type*} (q : File → α) (hq : ∀ f : File, q f.frame = q f) {file file' : File}
    (h : file.frame = file'.frame) : q file = q file' := by
  rw [← hq file,h,hq file']

/-- The context reached from another one by accepted updates with the given bytes. -/
inductive Absorbs : SHA512Context → List UInt8 → SHA512Context → Prop where
  | refl (md : SHA512Context) : Absorbs md [] md
  | step {md md' md'' : SHA512Context} {m piece : List UInt8} (h : Absorbs md m md')
      (hupd : sha512Update md' piece = (.cryptOk,md'')) : Absorbs md (m ++ piece) md''

theorem Absorbs.trans {md md' md'' : SHA512Context} {m m' : List UInt8} (h : Absorbs md m md')
    (h' : Absorbs md' m' md'') : Absorbs md (m ++ m') md'' := by
  induction h' with
  | refl => simpa using h
  | step h' hupd ih =>
    rw [← List.append_assoc]
    exact ih.step hupd

theorem Absorbs.streamed {md md' : SHA512Context} {base m : List UInt8} (h : Absorbs md m md')
    (hs : Streamed md base) : Streamed md' (base ++ m) := by
  induction h with
  | refl => simpa using hs
  | step h hupd ih =>
    rw [← List.append_assoc]
    exact ih.update hupd

/-- What only the ends of the pass set. -/
def HashState.flags (h : HashState) : Bool × Bool × Bool × ℕ × Bool × Sha512Digest :=
  (h.loopWasInterrupted,h.atEnd,h.file.readError,h.file.readErrno,h.file.wrongFileType,h.file.sha512)

/-- A later state of the loop: some more bytes absorbed, nothing else of the file changed. -/
structure HashState.Extends (path : RelativePath) (h h' : HashState) (m : List UInt8) : Prop where
  frame : h'.file.frame = h.file.frame
  flags : h'.flags = h.flags
  bytes : h'.bytes = h.bytes ++ m
  offset : h'.file.checksumOffset = h.file.checksumOffset + m.length
  absorbs : Absorbs h.file.mdContext m h'.file.mdContext
  known : h.pathKnown = true → h'.pathKnown = true
  log : ∃ extra, h'.session.events = h.session.events ++ extra
  reads : ReadFrom path h'.session.events h.file.checksumOffset m

namespace HashState

variable {path : RelativePath}

theorem Extends.refl (h : HashState) : Extends path h h [] where
  frame := rfl
  flags := rfl
  bytes := by simp
  offset := rfl
  absorbs := .refl _
  known := id
  log := ⟨[],by simp⟩
  reads := .nothing

theorem Extends.trans {h h' h'' : HashState} {m m' : List UInt8} (a : Extends path h h' m)
    (b : Extends path h' h'' m') : Extends path h h'' (m ++ m') where
  frame := b.frame.trans a.frame
  flags := b.flags.trans a.flags
  bytes := by rw [b.bytes,a.bytes,List.append_assoc]
  offset := by rw [b.offset,a.offset,List.length_append,Nat.add_assoc]
  absorbs := a.absorbs.trans b.absorbs
  known := fun h => b.known (a.known h)
  log := by
    obtain ⟨x,hx⟩ := a.log
    obtain ⟨y,hy⟩ := b.log
    exact ⟨x ++ y,by rw [hy,hx,List.append_assoc]⟩
  reads := by
    obtain ⟨extra,hextra⟩ := b.log
    have hfirst := a.reads.extend extra
    have hsecond := b.reads
    rw [a.offset] at hsecond
    rw [← hextra] at hfirst
    exact hfirst.append hsecond

theorem absorbed_extends {h : HashState} {md : SHA512Context} {piece : List UInt8}
    (hupd : sha512Update h.file.mdContext piece = (.cryptOk,md)) :
    Extends path h (h.absorbed path md piece) piece where
  frame := rfl
  flags := rfl
  bytes := rfl
  offset := rfl
  absorbs := (Absorbs.refl h.file.mdContext).step hupd
  known := id
  log := ⟨_,rfl⟩
  reads := ReadFrom.nothing.chunk (List.mem_append_right _ (List.mem_singleton_self _))

section Checkpoint

variable (c : Config) (v : Visit) (path : RelativePath) (n : ℕ) (t : Turn) (h : HashState)

theorem checkpointSave_extends : Extends path h (h.checkpointSave c v path n t) [] := by
  unfold checkpointSave
  split
  · obtain ⟨id,marked,hfile⟩ := save_file c (v.signal.halted (.saved n)) t.save path h.file h.pathKnown
      false h.session
    simp only [Bool.and_false,markVisible,Bool.false_eq_true,↓reduceIte] at hfile
    dsimp only
    exact {
      frame := by rw [hfile]; rfl
      flags := by simp only [flags,hfile]
      bytes := by simp
      offset := by rw [hfile]; rfl
      absorbs := by rw [hfile]; exact .refl _
      known := save_known
      log := save_log c _ t.save path h.file h.pathKnown false h.session
      reads := .nothing }
  · exact .refl h

theorem checkpointCommit_extends : Extends path h (h.checkpointCommit v n t) [] where
  frame := rfl
  flags := rfl
  bytes := by simp [checkpointCommit]
  offset := rfl
  absorbs := .refl _
  known := id
  log := commit_log _ t.commit h.session
  reads := .nothing

theorem checkpointSave_status {ok halted : Bool} (hs : h.status = outcome ok halted) :
    ∃ ok' halted', (h.checkpointSave c v path n t).status = outcome ok' halted' ∧
      (halted' = true → halted = true ∨ v.signal.halted (.saved n) = true) := by
  unfold checkpointSave
  split
  · obtain ⟨ok',hok'⟩ := save_status c (v.signal.halted (.saved n)) t.save path h.file h.pathKnown false
      h.session
    exact ⟨ok',_,hok',.inr⟩
  · exact ⟨ok,halted,hs,.inl⟩

theorem checkpointCommit_status {ok halted : Bool} (hs : h.status = outcome ok halted) :
    ∃ ok' halted', (h.checkpointCommit v n t).status = outcome ok' halted' ∧
      (halted' = true → halted = true ∨ v.signal.halted (.committed n) = true) := by
  obtain ⟨ok',hok'⟩ := commit_status (v.signal.halted (.committed n)) t.commit h.session
  refine ⟨ok && ok',halted || v.signal.halted (.committed n),?_,?_⟩
  · simp only [checkpointCommit,hs,hok',call_outcome,Bool.or_assoc,Bool.or_self]
  · simp

end Checkpoint
end HashState

/-- A chunk is passed over, refused by the length check, or absorbed with its checkpoint. -/
theorem hashTurn_cases (c : Config) (v : Visit) (path : RelativePath) (n : ℕ) (t : Turn) (h : HashState) :
    (h.status ≠ successStatus ∧ hashTurn c v path n t h = (h,false)) ∨
    (h.status = successStatus ∧ hashTurn c v path n t h = ({ h with status := failureStatus },true)) ∨
    (h.status = successStatus ∧ ∃ md, sha512Update h.file.mdContext t.bytes = (.cryptOk,md) ∧
      let absorbed := h.absorbed path md t.bytes
      let saved := absorbed.checkpointSave c v path n t
      let committed := saved.checkpointCommit v n t
      (absorbed.checkpointDue t.nowNs = false ∧ hashTurn c v path n t h = (absorbed,false)) ∨
      (saved.status.failure = true ∧ hashTurn c v path n t h = (saved,true)) ∨
      (saved.status.failure = false ∧ committed.status.failure = true ∧
        hashTurn c v path n t h = (committed,true)) ∨
      (saved.status.failure = false ∧ committed.status.failure = false ∧ hashTurn c v path n t h =
        ({ committed with nextCheckpointNs := t.nowNs + dbCheckpointIntervalNs },false))) := by
  unfold hashTurn
  by_cases hs : h.status = successStatus
  · right
    rw [if_pos hs]
    split
    · rename_i md hupd
      right
      refine ⟨hs,md,hupd,?_⟩
      dsimp only
      split
      · split
        · rename_i hsaved
          exact .inr (.inl ⟨hsaved,rfl⟩)
        · rename_i hsaved
          split
          · rename_i hcommit
            exact .inr (.inr (.inl ⟨by simpa using hsaved,hcommit,rfl⟩))
          · rename_i hcommit
            exact .inr (.inr (.inr ⟨by simpa using hsaved,by simpa using hcommit,rfl⟩))
      · rename_i hdue
        exact .inl ⟨by simpa using hdue,rfl⟩
    · exact .inl ⟨hs,rfl⟩
  · exact .inl ⟨hs,if_neg hs⟩

end Precizer.Traversal
