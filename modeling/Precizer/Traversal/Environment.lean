import Precizer.Database.FilesTable

/-! # What a traversal meets

Everything a pass does not decide itself is written down before it runs: the entries
the walk delivers, the result of every file and database operation, the clock, and the
moment at which an interrupt arrives. A pass is then a function of its options, its
database and this script, and a statement about every script is a statement about
every file system, every failure and every interrupt.
-/
namespace Precizer.Traversal
open Database

/-- The result of a statement; an error may also have rolled the transaction back. -/
inductive SqlOutcome where
  | done
  | failed
  | rolledBack
  deriving DecidableEq

/-- Points of a computation in the order it passes them: a stage and a place inside it. -/
class Timeline (M : Type) where
  key : M → ℕ × ℕ

variable {M : Type} [Timeline M]

def notAfter (m q : M) : Bool :=
  (Timeline.key m).1 < (Timeline.key q).1 ∨
    ((Timeline.key m).1 = (Timeline.key q).1 ∧ (Timeline.key m).2 ≤ (Timeline.key q).2)

theorem notAfter_trans {m q r : M} (h : notAfter m q = true) (h' : notAfter q r = true) :
    notAfter m r = true := by
  simp only [notAfter,decide_eq_true_eq] at *
  omega

/-- An interrupt that arrives during a computation, if any. The flag is raised before the
process-wide status is stored, and a concurrent normalization may overwrite the latter:
then the halt is lost. -/
structure Signal (M : Type) where
  arrival : Option M := none
  lost : Bool := false
  deriving DecidableEq

/-- `global_interrupt_flag` as read at a point. -/
def Signal.raised (s : Signal M) (q : M) : Bool :=
  match s.arrival with
  | none => false
  | some m => notAfter m q

/-- The `HALTED` bit as a normalization at that point loads it. -/
def Signal.halted (s : Signal M) (q : M) : Bool := s.raised q && !s.lost

omit [Timeline M] in
def Signal.arrived (s : Signal M) : Bool := s.arrival.isSome

theorem Signal.raised_mono {s : Signal M} {q r : M} (h : s.raised q = true)
    (hqr : notAfter q r = true) : s.raised r = true := by
  unfold raised at *
  cases ha : s.arrival with
  | none => simp [ha] at h
  | some m =>
    simp only [ha] at h
    exact notAfter_trans h hqr

theorem Signal.raised_of_halted {s : Signal M} {q : M} (h : s.halted q = true) : s.raised q = true := by
  simp only [halted,Bool.and_eq_true] at h
  exact h.1

theorem Signal.raised_none {s : Signal M} (h : s.arrival = none) (q : M) : s.raised q = false := by
  rw [raised,h]

theorem Signal.halted_none {s : Signal M} (h : s.arrival = none) (q : M) : s.halted q = false := by
  rw [halted,raised_none h,Bool.false_and]

/-- The points of one entry's processing at which the halt or the flag is read. -/
inductive Moment where
  | top
  | check
  | path
  | row
  | lockMatch
  | lock
  | scopeMatch
  | scope
  | access
  | stat
  | turn (n : ℕ)
  | saved (n : ℕ)
  | committed (n : ℕ)
  | hashed
  | checked
  | record
  deriving DecidableEq

instance : Timeline Moment where
  key
  | .top => (0,0)
  | .check => (1,0)
  | .path => (2,0)
  | .row => (3,0)
  | .lockMatch => (4,0)
  | .lock => (5,0)
  | .scopeMatch => (6,0)
  | .scope => (7,0)
  | .access => (8,0)
  | .stat => (9,0)
  | .turn n => (10,3 * n)
  | .saved n => (10,3 * n + 1)
  | .committed n => (10,3 * n + 2)
  | .hashed => (11,0)
  | .checked => (12,0)
  | .record => (13,0)

inductive FileAccessStatus where
  | accessAllowed
  | accessDenied
  | notFound
  | accessError
  deriving DecidableEq

inductive FtsInfo where
  | directory
  | file
  | unreadableDirectory
  | error
  | noStat
  | other
  deriving DecidableEq

/-- One entry of the walk with the fields the traversal reads. -/
structure FtsEntry where
  level : ℕ
  info : FtsInfo
  path : RelativePath
  statp : Stat
  deriving DecidableEq

/-- The statements of one save: the transaction it may open and the write itself. -/
structure SaveScript where
  begin : SqlOutcome := .done
  beginNs : ℤ := 0
  statement : SqlOutcome := .done
  deriving DecidableEq

/-- One successful `fread`, the clock after it, and the checkpoint that may follow. -/
structure Turn where
  bytes : List UInt8
  nonempty : bytes ≠ []
  nowNs : ℤ
  save : SaveScript
  commit : SqlOutcome
  deriving DecidableEq

/-- A regular file as its processing can meet it: the chunks `fread` delivers from a start
offset, and the error after the last chunk, if there is one. -/
structure DiskFile where
  content : List UInt8
  openErrno : Option ℕ
  seekable : ℕ → Bool
  turns : ℕ → List Turn
  readErrno : ℕ → Option ℕ

def DiskFile.delivered (d : DiskFile) (start : ℕ) : List UInt8 := (d.turns start).flatMap Turn.bytes

/-- The file does not change while it is read: every start delivers a piece of the content,
and all the rest of it when no error ends the reading. -/
structure DiskFile.Constant (d : DiskFile) : Prop where
  delivered_prefix : ∀ start ≤ d.content.length, d.delivered start <+: d.content.drop start
  delivered_all : ∀ start ≤ d.content.length, d.readErrno start = none →
    d.delivered start = d.content.drop start

/-- Everything that decides the processing of one entry. -/
structure Visit where
  entry : FtsEntry
  pathBuilt : Bool
  staleText : RelativePath
  access : FileAccessStatus
  disk : DiskFile
  lookup : SqlOutcome
  nowNs : ℤ
  batchCommit : SqlOutcome
  hashStartNs : ℤ
  save : SaveScript
  remember : SqlOutcome
  signal : Signal Moment

/-- A readable file delivered in one chunk. -/
def DiskFile.plain (content : List UInt8) : DiskFile where
  content := content
  openErrno := none
  seekable := fun _ => true
  turns := fun start => if h : content.drop start = [] then [] else [⟨content.drop start,h,0,{},.done⟩]
  readErrno := fun _ => none

theorem DiskFile.plain_constant (content : List UInt8) : (DiskFile.plain content).Constant := by
  have hall : ∀ start, (DiskFile.plain content).delivered start = content.drop start := by
    intro start
    unfold delivered plain
    dsimp only
    split
    · rename_i hnil
      rw [hnil]
      rfl
    · exact List.append_nil _
  exact ⟨fun start _ => by rw [hall]; exact List.prefix_refl _,fun start _ _ => hall start⟩

/-- A regular file of the root directory, last modified and changed at one time. -/
def FtsEntry.plain (path : RelativePath) (size time : BitVec 64) : FtsEntry where
  level := 1
  info := .file
  path := path
  statp := ⟨size,8,1,1,⟨time,0⟩,⟨time,0⟩⟩

/-- A visit in which no operation fails and no interrupt arrives. -/
def Visit.plain (entry : FtsEntry) (disk : DiskFile) : Visit where
  entry := entry
  pathBuilt := true
  staleText := []
  access := .accessAllowed
  disk := disk
  lookup := .done
  nowNs := 0
  batchCommit := .done
  hashStartNs := 0
  save := {}
  remember := .done
  signal := {}

/-- One configured root: whether it and its walk can be opened, and what the walk delivers. -/
structure RootScript where
  opened : Bool
  ftsOpened : Bool
  visits : List Visit
  closed : Bool

/-- The end of a pass: the last commit, the rollback and a late interrupt. -/
structure FinishScript where
  commit : SqlOutcome
  rollback : Bool
  raised : Bool
  halted : Bool

/-- A whole pass: the state of the interrupt before it, the read buffer, the roots, the end. -/
structure PassScript where
  raisedBefore : Bool
  haltedBefore : Bool
  bufferReady : Bool
  roots : List RootScript
  finish : FinishScript

/-- A pass over one root in which nothing but its visits can fail. -/
def PassScript.plain (visits : List Visit) : PassScript where
  raisedBefore := false
  haltedBefore := false
  bufferReady := true
  roots := [⟨true,true,visits,true⟩]
  finish := ⟨.done,true,false,false⟩

end Precizer.Traversal
