import Precizer.Traversal.FileList
import Precizer.Traversal.HashExit

/-! # What the processing of one file can write

The stages of a file's processing are inverted one by one. Together they say which
columns a visit can write over a row, and under which readings of the file.
-/
namespace Precizer.Traversal
open General Rational Digest Database

section Records

variable (c : Config) (v : Visit) (row : DBrow)

/-- The file record after the row and the scope of its path were settled. -/
def loadedFile (path : RelativePath) : File where
  db := row
  lockedChecksumFile := c.locked path
  included := (matchIncludeIgnore c false path).included
  ignore := (matchIncludeIgnore c false path).ignored && !c.locked path

def accessedFile : File :=
  if (loadedFile c row v.entry.path).ignore then loadedFile c row v.entry.path
  else { loadedFile c row v.entry.path with isReadable := v.access = .accessAllowed }

def metFile : File := compareMetadata { accessedFile c v row with stat := statCopy v.entry.statp }

def decidedFile : File := decideFile c (metFile c v row)

@[simp] theorem accessedFile_db : (accessedFile c v row).db = row := by
  unfold accessedFile; split <;> rfl

@[simp] theorem accessedFile_locked : (accessedFile c v row).lockedChecksumFile = c.locked v.entry.path := by
  unfold accessedFile; split <;> rfl

@[simp] theorem decidedFile_db : (decidedFile c v row).db = row := accessedFile_db c v row

@[simp] theorem decidedFile_locked :
    (decidedFile c v row).lockedChecksumFile = c.locked v.entry.path := accessedFile_locked c v row

@[simp] theorem decidedFile_stat : (decidedFile c v row).stat = statCopy v.entry.statp := rfl

@[simp] theorem decidedFile_wrongFileType : (decidedFile c v row).wrongFileType = false := by
  change (accessedFile c v row).wrongFileType = false
  unfold accessedFile; split <;> rfl

@[simp] theorem decidedFile_readError : (decidedFile c v row).readError = false := by
  change (accessedFile c v row).readError = false
  unfold accessedFile; split <;> rfl

@[simp] theorem decidedFile_mismatch : (decidedFile c v row).lockedChecksumMismatch = false := by
  change (accessedFile c v row).lockedChecksumMismatch = false
  unfold accessedFile; split <;> rfl

theorem decidedFile_zeroSize : (decidedFile c v row).zeroSizeFile = emptyFile (decidedFile c v row) := rfl

theorem accessedFile_fresh : (accessedFile c v row).checksumOffset = 0 ∧
    (accessedFile c v row).mdContext = zeroContext := by
  unfold accessedFile; split <;> exact ⟨rfl,rfl⟩

theorem decidedFile_start :
    (canResumePartialHash (decidedFile c v row) = true ∧
      (decidedFile c v row).checksumOffset = row.savedOffset ∧
      (decidedFile c v row).mdContext = row.savedMdContext) ∨
    (canResumePartialHash (decidedFile c v row) = false ∧ (decidedFile c v row).checksumOffset = 0) := by
  have hdecided : canResumePartialHash (decidedFile c v row) = canResumePartialHash (metFile c v row) := rfl
  cases hresume : canResumePartialHash (metFile c v row) with
  | true =>
    left
    refine ⟨hdecided.trans hresume,?_,?_⟩
    · change (if canResumePartialHash (metFile c v row) then _ else _) = _
      rw [if_pos hresume]
      exact congrArg DBrow.savedOffset (accessedFile_db c v row)
    · change (if canResumePartialHash (metFile c v row) then _ else _) = _
      rw [if_pos hresume]
      exact congrArg DBrow.savedMdContext (accessedFile_db c v row)
  | false =>
    right
    refine ⟨hdecided.trans hresume,?_⟩
    change (if canResumePartialHash (metFile c v row) then _ else _) = _
    rw [hresume]
    exact (accessedFile_fresh c v row).1

theorem decidedFile_changes (hknown : row.relativePathWasInDbBeforeProcessing = true) :
    (decidedFile c v row).dbRecordVsFileMetadataChanges =
      fileCompareMetadataEquivalence row.savedStat (statCopy v.entry.statp) := by
  have hchanges : (decidedFile c v row).dbRecordVsFileMetadataChanges =
      if (accessedFile c v row).db.relativePathWasInDbBeforeProcessing then
        fileCompareMetadataEquivalence (accessedFile c v row).db.savedStat (statCopy v.entry.statp)
      else { notEqual := true } := rfl
  rw [accessedFile_db,hknown,if_pos rfl] at hchanges
  exact hchanges

end Records

/-- A file that the decisions let through to hashing and saving. -/
structure Ready (c : Config) (v : Visit) (row : DBrow) : Prop where
  process : shouldProcess (decidedFile c v row) = true
  changed : leavesUnchanged c (decidedFile c v row) = false
  watched : lockedTimestampDriftOnly c (decidedFile c v row) = false

theorem Ready.readable {c : Config} {v : Visit} {row : DBrow} (h : Ready c v row) :
    v.access = .accessAllowed := by
  have hprocess := h.process
  simp only [shouldProcess,Bool.and_eq_true] at hprocess
  have hreadable : (accessedFile c v row).isReadable = true := hprocess.1.1
  unfold accessedFile at hreadable
  split at hreadable
  · cases hreadable
  · simpa using hreadable

theorem Ready.visible {c : Config} {v : Visit} {row : DBrow} (h : Ready c v row)
    (hunlocked : c.locked v.entry.path = false) : (matchIncludeIgnore c false v.entry.path).ignored = false := by
  have hprocess := h.process
  simp only [shouldProcess,Bool.and_eq_true,Bool.not_eq_true'] at hprocess
  have hignore : (accessedFile c v row).ignore = false := hprocess.1.2
  have hloaded : (accessedFile c v row).ignore = (loadedFile c row v.entry.path).ignore := by
    unfold accessedFile
    split <;> rfl
  rw [hloaded] at hignore
  simpa [loadedFile,hunlocked] using hignore

/-- The columns a visit can write, with the reading of the file that led to them. -/
inductive SavedColumns (c : Config) (v : Visit) (row : DBrow) (log : List Event) : FileColumns → Prop
  | empty (hsize : emptyFile (decidedFile c v row) = true)
      (hchanged : row.relativePathWasInDbBeforeProcessing = true →
        fileMetadataIdentical (decidedFile c v row) = false)
      (hallowed : allowLockedUpdate c (decidedFile c v row) = true) (hdone : v.save.statement = .done) :
      SavedColumns c v row log ⟨none,none,some (statCopy v.entry.statp).toBytes,none⟩
  | reused (hsize : emptyFile (decidedFile c v row) = false)
      (hunwatched : unwatchedMetadataOnlyChanged c (decidedFile c v row) = true)
      (hunlocked : c.locked v.entry.path = false) (hdone : v.save.statement = .done) :
      SavedColumns c v row log ⟨none,some row.sha512,some (statCopy v.entry.statp).toBytes,none⟩
  | wrongType (hrehash : (decidedFile c v row).rehash = true)
      (hoffset : (decidedFile c v row).checksumOffset = 0) (hopen : v.disk.openErrno = none)
      (hseek : v.disk.seekable 0 = false) (hquiet : v.signal.raised .checked = false)
      (hchanged : row.relativePathWasInDbBeforeProcessing = true →
        fileMetadataIdentical (decidedFile c v row) = false)
      (hallowed : allowLockedUpdate c (decidedFile c v row) = true) (hdone : v.save.statement = .done) :
      SavedColumns c v row log ⟨none,none,some (statCopy v.entry.statp).toBytes,none⟩
  | partway (k : ℕ) (context : SHA512Context) (hrehash : (decidedFile c v row).rehash = true)
      (hruns : HashRuns c v (decidedFile c v row))
      (habsorbs : Absorbs (preparedContext (decidedFile c v row)).mdContext
        (readBytes v (decidedFile c v row) k) context)
      (hreads : ReadFrom v.entry.path log (decidedFile c v row).checksumOffset
        (readBytes v (decidedFile c v row) k))
      (hoffset : (decidedFile c v row).checksumOffset + (readBytes v (decidedFile c v row) k).length ≠ 0)
      (hwhy : lockChecksumReady (decidedFile c v row) = false ∨
        (c.rehashLocked = true ∧ v.save.statement = .done ∧ k ≤ (v.disk.turns (decidedFile c v row).checksumOffset).length ∧
          v.signal.raised (.turn k) = true ∧ ∀ j < k, v.signal.raised (.turn j) = false)) :
      SavedColumns c v row log
        ⟨some ((decidedFile c v row).checksumOffset + (readBytes v (decidedFile c v row) k).length),none,
          some (statCopy v.entry.statp).toBytes,some context⟩
  | complete (context : SHA512Context) (digest : Sha512Digest)
      (hrehash : (decidedFile c v row).rehash = true) (hruns : HashRuns c v (decidedFile c v row))
      (herrno : v.disk.readErrno (decidedFile c v row).checksumOffset = none)
      (habsorbs : Absorbs (preparedContext (decidedFile c v row)).mdContext
        (v.disk.delivered (decidedFile c v row).checksumOffset) context)
      (hfinal : ∃ md, sha512Final context = (.cryptOk,md,digest))
      (hreads : ReadFrom v.entry.path log (decidedFile c v row).checksumOffset
        (v.disk.delivered (decidedFile c v row).checksumOffset))
      (hlog : .hashed v.entry.path v.disk (decidedFile c v row).checksumOffset
        (v.disk.delivered (decidedFile c v row).checksumOffset) true ∈ log)
      (hsame : lockChecksumReady (decidedFile c v row) = true → digest = row.sha512)
      (hallowed : allowLockedUpdate c (decidedFile c v row) = true) :
      SavedColumns c v row log ⟨none,some digest,some (statCopy v.entry.statp).toBytes,none⟩

/-- A save of a visit: of a file let through, whose metadata is in the log. -/
structure SavePoint (c : Config) (v : Visit) (row : DBrow) (log : List Event) (columns : FileColumns) :
    Prop where
  ready : Ready c v row
  met : .met v.entry.path (statCopy v.entry.statp) v.disk ∈ log
  columns : SavedColumns c v row log columns

/-- The row of the path gets the columns and no other row changes. -/
def Replaces (path : RelativePath) (columns : FileColumns) (t t' : FilesTable) : Prop :=
  (∃ id, t'.find path = some ⟨id,path,columns⟩) ∧ ∀ k, k ≠ path → t'.find k = t.find k

section Stages

variable (c : Config) (v : Visit) (p : Pass)

theorem loadFile_cases :
    (∃ status session, loadFile c v p = .error (p.stop status session) ∧ status ≠ successStatus ∧
      (session = p.session ∨ session = p.session.rollbackStore)) ∨
    loadFile c v p =
      .ok ⟨successStatus,p.session,loadedFile c (readRow p.session.table v.entry.path) v.entry.path⟩ := by
  have hside : p.session.sideWrite v.lookup = p.session ∨
      p.session.sideWrite v.lookup = p.session.rollbackStore := by
    unfold Session.sideWrite
    split
    · exact .inr rfl
    · exact .inl rfl
  unfold loadFile
  dsimp only
  generalize hpath : run (globalReturnStatus (v.signal.halted .path)) p.status
    (leave (v.signal.halted .path) v.pathBuilt) = built
  split
  · rename_i hbuilt
    refine .inl ⟨built,p.session,rfl,?_,.inl rfl⟩
    rintro rfl
    cases hbuilt
  · generalize hrow : run (globalReturnStatus (v.signal.halted .row)) built
      (leave (v.signal.halted .row) (v.lookup = .done)) = loaded
    have hsession : (if built.skip then p.session else p.session.sideWrite v.lookup) = p.session ∨
        (if built.skip then p.session else p.session.sideWrite v.lookup) = p.session.rollbackStore := by
      split
      · exact .inl rfl
      · exact hside
    split
    · rename_i hne
      exact .inl ⟨loaded,_,rfl,hne,hsession⟩
    · rename_i hloaded
      have hdone : loaded = successStatus := by simpa using hloaded
      rw [hdone,leave_eq] at hrow
      obtain ⟨hskip,hlookup,-⟩ := run_success hrow
      have hlookup : v.lookup = .done := by simpa using hlookup
      have hsame : p.session.sideWrite v.lookup = p.session := by
        rw [Session.sideWrite,hlookup]
        rfl
      simp only [hskip,Bool.false_eq_true,↓reduceIte,hlookup,ne_eq,not_true_eq_false,Bool.false_or,
        decide_false,hdone,successStatus_eq,pathCheckLockedChecksum_eq,ask_answer,Bool.not_false,
        Bool.and_self,leave_eq]
      split
      · rename_i hne
        exact .inl ⟨_,p.session,rfl,hne,.inl rfl⟩
      · rename_i hlock
        split
        · rename_i hne
          exact .inl ⟨_,p.session,rfl,hne,.inl rfl⟩
        · rename_i hscope
          right
          have hlock := (outcome_eq_success.mp (not_not.mp hlock)).1
          obtain ⟨hscope,hhalted⟩ := outcome_eq_success.mp (not_not.mp hscope)
          have hmatched : matchChecksumLockPattern c (v.signal.halted .lockMatch) v.entry.path =
              matchChecksumLockPattern c false v.entry.path :=
            matchPatterns_of_ne_error (of_decide_eq_true hlock)
          have hlocked : decide (matchChecksumLockPattern c false v.entry.path = .regexpMatch) =
            c.locked v.entry.path := rfl
          have hdone : p.session.sideWrite .done = p.session := rfl
          rw [hmatched] at hlock
          simp only [hlock,hscope,hhalted,hmatched,hlocked,hdone,loadedFile,
            ← matchIncludeIgnore_of_ok hscope,Bool.true_and]

/-- The row of the visited path as the table has it when the file is met. -/
def Pass.row (p : Pass) (v : Visit) : DBrow := readRow p.session.table v.entry.path

/-- A locked row whose file cannot be read. -/
def unavailableLocked (c : Config) (v : Visit) (row : DBrow) : Bool :=
  row.relativePathWasInDbBeforeProcessing && c.locked v.entry.path && v.access ≠ .accessAllowed

def reportLockedUnavailable : Session :=
  ((p.session.report (.lockedUnavailable v.entry.path v.access)).sideWrite v.remember).requestReplay

def decidedStage : FileStage where
  status := outcome true (v.signal.halted .stat)
  session := p.session.emit (.met v.entry.path (statCopy v.entry.statp) v.disk)
  file := decidedFile c v (p.row v)

theorem accessFile_cases (st : FileStage) (hst : st.file = loadedFile c (p.row v) v.entry.path) :
    (unavailableLocked c v (p.row v) = true ∧ ((v.signal.halted .access = true ∧
      accessFile v p st = .error (p.stop (outcome true true)
        (reportLockedUnavailable v { p with session := st.session }))) ∨
      (v.signal.halted .access = false ∧ accessFile v p st = .error
        { p.next successStatus (reportLockedUnavailable v { p with session := st.session }) with
          lockChecksumViolationDetected := true }))) ∨
    (unavailableLocked c v (p.row v) = false ∧
      accessFile v p st = .ok { st with file := accessedFile c v (p.row v) }) := by
  have hignore : st.file.ignore = true → c.locked v.entry.path = false := by
    intro h
    rw [hst] at h
    simp only [loadedFile,Bool.and_eq_true,Bool.not_eq_true'] at h
    exact h.2
  unfold accessFile
  split
  · rename_i hign
    right
    refine ⟨by rw [unavailableLocked,hignore hign,Bool.and_false,Bool.false_and],?_⟩
    rw [accessedFile,← hst,if_pos hign]
  · rename_i hseen
    have hlock : (st.file.db.relativePathWasInDbBeforeProcessing = true ∧
        st.file.lockedChecksumFile = true ∧ v.access ≠ .accessAllowed) ↔
        unavailableLocked c v (p.row v) = true := by
      rw [hst]
      simp [unavailableLocked,loadedFile,and_assoc]
    split
    · rename_i hunavailable
      refine .inl ⟨hlock.mp hunavailable,?_⟩
      cases v.signal.halted .access with
      | true => exact .inl ⟨rfl,rfl⟩
      | false => exact .inr ⟨rfl,rfl⟩
    · rename_i havailable
      right
      refine ⟨by simpa using mt hlock.mpr havailable,?_⟩
      rw [accessedFile,← hst,if_neg hseen]

/-- Once the record is loaded, an unavailable locked file is reported, the file is left alone,
or the decided record is hashed and settled. -/
theorem processFile_loaded (hload : loadFile c v p =
    .ok ⟨successStatus,p.session,loadedFile c (readRow p.session.table v.entry.path) v.entry.path⟩) :
    (unavailableLocked c v (p.row v) = true ∧ ((v.signal.halted .access = true ∧
      processFile c v p = p.stop (outcome true true) (reportLockedUnavailable v p)) ∨
      (v.signal.halted .access = false ∧ processFile c v p =
        { p.next successStatus (reportLockedUnavailable v p) with lockChecksumViolationDetected := true }))) ∨
    (unavailableLocked c v (p.row v) = false ∧ (leavesUnchanged c (decidedFile c v (p.row v)) = true ∨
      lockedTimestampDriftOnly c (decidedFile c v (p.row v)) = true) ∧
      processFile c v p = p.next (decidedStage c v p).status (decidedStage c v p).session) ∨
    (unavailableLocked c v (p.row v) = false ∧ leavesUnchanged c (decidedFile c v (p.row v)) = false ∧
      lockedTimestampDriftOnly c (decidedFile c v (p.row v)) = false ∧
      processFile c v p =
        match hashStage c v p (decidedStage c v p) with
        | .error p => p
        | .ok st => settleFile c v p (st.compared c)) := by
  unfold processFile
  rw [hload]
  dsimp only
  rcases accessFile_cases c v p ⟨successStatus,p.session,
    loadedFile c (readRow p.session.table v.entry.path) v.entry.path⟩ rfl with
    ⟨hlocked,⟨hhalted,hstop⟩ | ⟨hhalted,hnext⟩⟩ | ⟨havailable,haccess⟩
  · exact .inl ⟨hlocked,.inl ⟨hhalted,by rw [hstop]⟩⟩
  · exact .inl ⟨hlocked,.inr ⟨hhalted,by rw [hnext]⟩⟩
  · right
    rw [haccess]
    have hstage : decideStage c v p
        ⟨successStatus,p.session,accessedFile c v (p.row v)⟩ =
        if leavesUnchanged c (decidedFile c v (p.row v)) ||
          lockedTimestampDriftOnly c (decidedFile c v (p.row v))
        then .error (p.next (decidedStage c v p).status (decidedStage c v p).session)
        else .ok (decidedStage c v p) := by
      have hstatus : run (globalReturnStatus (v.signal.halted .stat)) successStatus
          (leave (v.signal.halted .stat) true) = outcome true (v.signal.halted .stat) := by
        rw [successStatus_eq,leave_eq,run_outcome]
        simp
      have hmet : leavesUnchanged c (metFile c v (p.row v)) =
        leavesUnchanged c (decidedFile c v (p.row v)) := rfl
      unfold decideStage
      dsimp only
      rw [hstatus,← metFile,hmet,← decidedFile]
      cases leavesUnchanged c (decidedFile c v (p.row v)) with
      | true => rfl
      | false => cases lockedTimestampDriftOnly c (decidedFile c v (p.row v)) <;> rfl
    dsimp only
    rw [hstage]
    cases hleave : leavesUnchanged c (decidedFile c v (p.row v)) with
    | true => exact .inl ⟨havailable,.inl rfl,rfl⟩
    | false =>
      cases hdrift : lockedTimestampDriftOnly c (decidedFile c v (p.row v)) with
      | true => exact .inl ⟨havailable,.inr rfl,rfl⟩
      | false => exact .inr ⟨havailable,rfl,rfl,rfl⟩

/-- The processing stops while loading, or goes on with the loaded record. -/
theorem processFile_cases :
    (∃ status session, processFile c v p = p.stop status session ∧ status ≠ successStatus ∧
      (session = p.session ∨ session = p.session.rollbackStore)) ∨
    (unavailableLocked c v (p.row v) = true ∧ ((v.signal.halted .access = true ∧
      processFile c v p = p.stop (outcome true true) (reportLockedUnavailable v p)) ∨
      (v.signal.halted .access = false ∧ processFile c v p =
        { p.next successStatus (reportLockedUnavailable v p) with lockChecksumViolationDetected := true }))) ∨
    (unavailableLocked c v (p.row v) = false ∧ (leavesUnchanged c (decidedFile c v (p.row v)) = true ∨
      lockedTimestampDriftOnly c (decidedFile c v (p.row v)) = true) ∧
      processFile c v p = p.next (decidedStage c v p).status (decidedStage c v p).session) ∨
    (unavailableLocked c v (p.row v) = false ∧ leavesUnchanged c (decidedFile c v (p.row v)) = false ∧
      lockedTimestampDriftOnly c (decidedFile c v (p.row v)) = false ∧
      processFile c v p =
        match hashStage c v p (decidedStage c v p) with
        | .error p => p
        | .ok st => settleFile c v p (st.compared c)) := by
  rcases loadFile_cases c v p with ⟨status,session,hload,hne,hsession⟩ | hload
  · left
    exact ⟨status,session,by rw [processFile,hload],hne,hsession⟩
  · exact .inr (processFile_loaded c v p hload)

/-- The hash pass of the visit, when it is started. -/
def hashOf : HashResult :=
  sha512sum c v v.entry.path (decidedFile c v (p.row v)) (p.row v).relativePathWasInDbBeforeProcessing
    (decidedStage c v p).session

inductive HashStageCase : Except Pass HashStage → Prop
  | unprocessed (hprocess : shouldProcess (decidedFile c v (p.row v)) = false) :
      HashStageCase (.ok ⟨(decidedStage c v p).status,(decidedStage c v p).session,
        decidedFile c v (p.row v),(p.row v).relativePathWasInDbBeforeProcessing,false⟩)
  | reused (hprocess : shouldProcess (decidedFile c v (p.row v)) = true)
      (hrehash : (decidedFile c v (p.row v)).rehash = false) :
      HashStageCase (.ok ⟨(decidedStage c v p).status,(decidedStage c v p).session,
        { decidedFile c v (p.row v) with sha512 := (p.row v).sha512 },
        (p.row v).relativePathWasInDbBeforeProcessing,false⟩)
  | haltedEarly (hoffset : (decidedFile c v (p.row v)).checksumOffset = 0) :
      HashStageCase (.error (p.next (decidedStage c v p).status (decidedStage c v p).session))
  | haltedResume (hoffset : (decidedFile c v (p.row v)).checksumOffset ≠ 0) :
      HashStageCase (.ok ⟨(decidedStage c v p).status,(decidedStage c v p).session,
        { decidedFile c v (p.row v) with hashInterrupted := true },
        (p.row v).relativePathWasInDbBeforeProcessing,false⟩)
  | failed (hprocess : shouldProcess (decidedFile c v (p.row v)) = true)
      (hrehash : (decidedFile c v (p.row v)).rehash = true) (hfail : (hashOf c v p).status.success = false) :
      HashStageCase (.ok ⟨(hashOf c v p).status,(hashOf c v p).session,(hashOf c v p).file,
        (hashOf c v p).pathKnown,true⟩)
  | dropped (hprocess : shouldProcess (decidedFile c v (p.row v)) = true)
      (hrehash : (decidedFile c v (p.row v)).rehash = true)
      (hraised : v.signal.raised .checked = true) (hoffset : (hashOf c v p).file.checksumOffset = 0) :
      HashStageCase (.error (p.next (hashOf c v p).status (hashOf c v p).session))
  | interrupted (hprocess : shouldProcess (decidedFile c v (p.row v)) = true)
      (hrehash : (decidedFile c v (p.row v)).rehash = true) (hok : (hashOf c v p).status.success = true)
      (hraised : v.signal.raised .checked = true) (hoffset : (hashOf c v p).file.checksumOffset ≠ 0) :
      HashStageCase (.ok ⟨(hashOf c v p).status,(hashOf c v p).session,
        { (hashOf c v p).file with hashInterrupted := true },(hashOf c v p).pathKnown,false⟩)
  | hashed (hprocess : shouldProcess (decidedFile c v (p.row v)) = true)
      (hrehash : (decidedFile c v (p.row v)).rehash = true) (hok : (hashOf c v p).status.success = true)
      (hraised : v.signal.raised .checked = false) :
      HashStageCase (.ok ⟨(hashOf c v p).status,(hashOf c v p).session,(hashOf c v p).file,
        (hashOf c v p).pathKnown,false⟩)

theorem hashStage_cases : HashStageCase c v p (hashStage c v p (decidedStage c v p)) := by
  have hknown : (decidedStage c v p).file.db.relativePathWasInDbBeforeProcessing =
      (p.row v).relativePathWasInDbBeforeProcessing :=
    congrArg DBrow.relativePathWasInDbBeforeProcessing (decidedFile_db c v (p.row v))
  have hsha : (decidedStage c v p).file.db.sha512 = (p.row v).sha512 :=
    congrArg DBrow.sha512 (decidedFile_db c v (p.row v))
  unfold hashStage
  dsimp only
  rw [hknown,hsha]
  split
  · rename_i hprocess
    split
    · rename_i hrehash
      cases hhalted : v.signal.halted .stat with
      | true =>
        have hraised : v.signal.raised .checked = true :=
          Signal.raised_mono (Signal.raised_of_halted hhalted) rfl
        have hne : (decidedStage c v p).status ≠ successStatus := by
          rw [decidedStage,hhalted]
          change outcome true true ≠ successStatus
          decide
        rw [if_neg hne]
        dsimp only
        rw [hraised]
        by_cases hoffset : (decidedFile c v (p.row v)).checksumOffset = 0
        · have hcase := HashStageCase.haltedEarly (c := c) (v := v) (p := p) hoffset
          simpa [decidedStage,hoffset] using hcase
        · have hcase := HashStageCase.haltedResume (c := c) (v := v) (p := p) hoffset
          simpa [decidedStage,hoffset] using hcase
      | false =>
        have hstatus : (decidedStage c v p).status = successStatus := by
          rw [decidedStage,hhalted]
          rfl
        rw [if_pos hstatus,← show hashOf c v p = sha512sum c v v.entry.path (decidedStage c v p).file
          (p.row v).relativePathWasInDbBeforeProcessing (decidedStage c v p).session from rfl]
        split
        · rename_i hok
          split
          · rename_i hraised
            split
            · rename_i hoffset
              exact .dropped hprocess hrehash hraised hoffset
            · rename_i hoffset
              exact .interrupted hprocess hrehash hok hraised hoffset
          · rename_i hraised
            exact .hashed hprocess hrehash hok (by simpa using hraised)
        · rename_i hfail
          exact .failed hprocess hrehash (by simpa using hfail)
    · rename_i hrehash
      exact .reused hprocess (Bool.eq_false_iff.mpr hrehash)
  · rename_i hprocess
    exact .unprocessed (Bool.eq_false_iff.mpr hprocess)

end Stages
end Precizer.Traversal
