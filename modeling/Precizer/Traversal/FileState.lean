import Precizer.Traversal.Environment
import Precizer.Traversal.Config
import Precizer.General.TransactionStore

/-! # The state of one file and of the session

`File` is the per-file record with all of its flags. The session is what lives across
files: the database with its transaction, the settings a pass changes, and the literal
log of everything it executed, hashed and reported.
-/
namespace Precizer.Traversal
open General Digest Database

structure File where
  db : DBrow
  rehashingFromTheBeginning : Bool := false
  ignore : Bool := false
  included : Bool := false
  lockedChecksumFile : Bool := false
  lockChecksumViolation : Bool := false
  lockedChecksumMismatch : Bool := false
  hashInterrupted : Bool := false
  rehash : Bool := false
  isReadable : Bool := false
  zeroSizeFile : Bool := false
  newDbRecordInserted : Bool := false
  dbRecordUpdated : Bool := false
  readError : Bool := false
  dbRecordVsFileMetadataChanges : Changed := {}
  checksumOffset : ℕ := 0
  readErrno : ℕ := 0
  wrongFileType : Bool := false
  sha512 : Sha512Digest := zeroDigest
  mdContext : SHA512Context := zeroContext
  stat : CmpctStat := CmpctStat.zero
  deriving DecidableEq

/-- The lines `show_file` prints about one file. -/
inductive FileLabel where
  | ignoredNotAdded
  | ignoredNotUpdated
  | readError (errno : ℕ)
  | inaccessible
  | addedAsIncluded
  | lockedChecksum
  | addedAsEmpty
  | added
  | lockedChecksumMismatch
  | lockedChecksumViolation (changes : Changed)
  | updatedAsIncluded (changes : Changed)
  | updatedAsEmpty (changes : Changed)
  | rehashedFromTheBeginning (changes : Changed)
  | rehashResumed (offset : ℕ)
  | lockedChecksumMatched (changes : Changed)
  | rehashed (changes : Changed)
  | updatedMetadata (changes : Changed)
  | hashingInterrupted (offset : ℕ)
  deriving DecidableEq

inductive DropReason where
  | ignored
  | inaccessible
  | missing
  deriving DecidableEq

inductive Report where
  | file (path : RelativePath) (label : FileLabel)
  | lockedUnavailable (path : RelativePath) (status : FileAccessStatus)
  | ignoredDirectory (path : RelativePath)
  | includedDirectory (path : RelativePath)
  | inaccessibleDirectory (path : RelativePath)
  | unreadableDirectory (path : RelativePath)
  | statError (path : RelativePath)
  | ftsError (path : RelativePath)
  | rootUnavailable
  | dropped (path : RelativePath) (reason : DropReason)
  | keptInaccessible (path : RelativePath)
  deriving DecidableEq

inductive Statement where
  | begin
  | commit
  | rollback
  | save (path : RelativePath)
  | delete (path : RelativePath)
  deriving DecidableEq

/-- What a session records: the files it met with their metadata and disk state, the chunks
it read of them and how far it hashed them, the statements with the autocommit mode they
found, and the reports. -/
inductive Event where
  | met (path : RelativePath) (stat : CmpctStat) (disk : DiskFile)
  | read (path : RelativePath) (offset : ℕ) (bytes : List UInt8)
  | hashed (path : RelativePath) (disk : DiskFile) (start : ℕ) (bytes : List UInt8) (toEnd : Bool)
  | statement (s : Statement) (autocommit : Bool)
  | reported (r : Report)

/-- The bytes were read from the path, chunk after chunk from an offset on. -/
inductive ReadFrom (path : RelativePath) (log : List Event) (start : ℕ) : List UInt8 → Prop
  | nothing : ReadFrom path log start []
  | chunk {m piece : List UInt8} (h : ReadFrom path log start m)
      (hread : .read path (start + m.length) piece ∈ log) : ReadFrom path log start (m ++ piece)

theorem ReadFrom.extend {path : RelativePath} {log : List Event} {start : ℕ} {m : List UInt8}
    (h : ReadFrom path log start m) (extra : List Event) : ReadFrom path (log ++ extra) start m := by
  induction h with
  | nothing => exact .nothing
  | chunk h hread ih => exact ih.chunk (List.mem_append_left _ hread)

theorem ReadFrom.append {path : RelativePath} {log : List Event} {start : ℕ} {m m' : List UInt8}
    (h : ReadFrom path log start m) (h' : ReadFrom path log (start + m.length) m') :
    ReadFrom path log start (m ++ m') := by
  induction h' with
  | nothing => rwa [List.append_nil]
  | chunk _ hread ih =>
    rw [← List.append_assoc]
    refine ih.chunk ?_
    rwa [List.length_append,← Nat.add_assoc]

structure Session where
  store : Store FilesTable Event
  fileTransactionActive : Bool := false
  fileTransactionStartedNs : ℤ := 0
  dbPrimaryFileModified : Bool := false
  showRememberedMessagesAtExit : Bool := false

namespace Session

def table (s : Session) : FilesTable := s.store.working

def events (s : Session) : List Event := s.store.log

def emit (s : Session) (e : Event) : Session := { s with store := s.store.note e }

def report (s : Session) (r : Report) : Session := s.emit (.reported r)

def execute (s : Session) (t : Statement) : Session := s.emit (.statement t s.store.autocommit)

def rollbackStore (s : Session) : Session := { s with store := s.store.rollback }

/-- A write outside the files table may still end the transaction with its error. -/
def sideWrite (s : Session) (o : SqlOutcome) : Session :=
  if o = .rolledBack then s.rollbackStore else s

def requestReplay (s : Session) : Session := { s with showRememberedMessagesAtExit := true }

@[simp] theorem emit_store (s : Session) (e : Event) : (s.emit e).store = s.store.note e := rfl
@[simp] theorem emit_table (s : Session) (e : Event) : (s.emit e).table = s.table := rfl
@[simp] theorem report_table (s : Session) (r : Report) : (s.report r).table = s.table := rfl
@[simp] theorem execute_table (s : Session) (t : Statement) : (s.execute t).table = s.table := rfl
@[simp] theorem requestReplay_table (s : Session) : s.requestReplay.table = s.table := rfl

end Session

def Event.report? : Event → Option Report
  | .reported r => some r
  | _ => none

namespace Session

/-- Everything reported so far. -/
def reports (s : Session) : List Report := s.events.filterMap Event.report?

theorem emit_reports (s : Session) (e : Event) : (s.emit e).reports = s.reports ++ e.report?.toList := by
  unfold reports
  change (s.events ++ [e]).filterMap Event.report? = _
  rw [List.filterMap_append]
  cases e <;> rfl

@[simp] theorem report_reports (s : Session) (r : Report) : (s.report r).reports = s.reports ++ [r] :=
  emit_reports s (.reported r)

@[simp] theorem execute_reports (s : Session) (t : Statement) : (s.execute t).reports = s.reports := by
  rw [execute,emit_reports]
  exact List.append_nil _

theorem sideWrite_of_ne {s : Session} {o : SqlOutcome} (h : o ≠ .rolledBack) : s.sideWrite o = s := if_neg h

/-- The property holds of the table in use and of every table a crash has left or leaves. -/
def Always (P : List Event → FilesTable → Prop) (s : Session) : Prop := s.store.Always P

section Always

variable {P : List Event → FilesTable → Prop} {s : Session}

theorem Always.emit (hP : Store.Stable P) (h : s.Always P) (e : Event) : (s.emit e).Always P :=
  Store.Always.note hP h e

theorem Always.report (hP : Store.Stable P) (h : s.Always P) (r : Report) : (s.report r).Always P :=
  h.emit hP _

theorem Always.execute (hP : Store.Stable P) (h : s.Always P) (t : Statement) : (s.execute t).Always P :=
  h.emit hP _

theorem Always.rollbackStore (h : s.Always P) : s.rollbackStore.Always P := Store.Always.rollback h

theorem Always.requestReplay (h : s.Always P) : s.requestReplay.Always P := h

theorem Always.sideWrite (h : s.Always P) (o : SqlOutcome) : (s.sideWrite o).Always P := by
  unfold Session.sideWrite
  split
  · exact h.rollbackStore
  · exact h

end Always
end Session
end Precizer.Traversal
