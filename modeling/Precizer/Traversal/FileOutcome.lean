import Precizer.Traversal.FilePass
import Precizer.Digest.Sha512Resume

/-! # What an undisturbed visit comes to

When no interrupt arrives and every statement works, a visit is a function of the options,
the entry, the file and the columns stored for its path: what is written, what is reported,
and whether the pass goes on.
-/
namespace Precizer.Traversal
open General Rational Digest Database

/-- The loaded row of a path, but for its identifier. -/
def storedRow : Option FileColumns → DBrow
  | none => DBrow.zero
  | some columns => DBrow.ofEntry ⟨0,[],columns⟩

/-- The columns written, the reports, a locked violation, a failure that stops the pass, and
the level below which the walk delivers nothing. -/
structure VisitOutcome where
  columns : Option FileColumns := none
  reports : List Report := []
  violation : Bool := false
  failed : Bool := false
  skipBelow : Option ℕ := none

def readRecord (v : Visit) (file : File) : File :=
  match v.disk.readErrno file.checksumOffset with
  | some errno => { file with readError := true, readErrno := errno }
  | none => file

def hashPass (c : Config) (v : Visit) (file : File) : File × Bool :=
  match v.disk.openErrno with
  | some errno => ({ file with readError := true, readErrno := errno },false)
  | none =>
    if v.disk.seekable file.checksumOffset then
      if performFileHashing c then
        match sha512From (preparedContext file).mdContext (v.disk.delivered file.checksumOffset) with
        | some digest => ({ readRecord v file with checksumOffset := 0, sha512 := digest },false)
        | none => (if v.disk.turns file.checksumOffset = [] then readRecord v file else file,true)
      else (preparedContext file,false)
    else ({ file with wrongFileType := true },false)

def comparedRecord (c : Config) (failed : Bool) (file : File) : File :=
  if shouldProcess file && checksumMismatch c successStatus failed file then
    { file with lockedChecksumMismatch := true }
  else file

def blockedRecord (failed : Bool) (file : File) : Bool :=
  !file.isReadable || file.ignore || file.lockChecksumViolation || failed || file.readError ||
    file.lockedChecksumMismatch

def violatingRecord (file : File) : Bool :=
  (file.lockChecksumViolation || file.lockedChecksumMismatch) && !file.readError

/-- The test of the record, its save unless the row needs none, and the printed lines. -/
def settledOutcome (c : Config) (path : RelativePath) (failed : Bool) (file : File) : VisitOutcome :=
  let file := comparedRecord c failed file
  if blockedRecord failed file then
    { reports := (showFile c file).map (.file path)
      violation := violatingRecord file
      failed := failed }
  else if !shouldUpdateDb c file then { reports := (showFile c file).map (.file path) }
  else
    { columns := some (boundColumns file)
      reports := (showFile c (markVisible true file)).map (.file path) }

def processedOutcome (c : Config) (v : Visit) (row : DBrow) : VisitOutcome :=
  let file := decidedFile c v row
  if shouldProcess file then
    if file.rehash then settledOutcome c v.entry.path (hashPass c v file).2 (hashPass c v file).1
    else settledOutcome c v.entry.path false { file with sha512 := row.sha512 }
  else settledOutcome c v.entry.path false file

/-- The patterns that decide about a file can be matched. -/
def patternsMatch (c : Config) (path : RelativePath) : Bool :=
  matchChecksumLockPattern c false path ≠ .regexpError && (matchIncludeIgnore c false path).ok

def fileOutcome (c : Config) (v : Visit) (stored : Option FileColumns) : VisitOutcome :=
  let row := storedRow stored
  let file := decidedFile c v row
  if !patternsMatch c v.entry.path then { failed := true }
  else if unavailableLocked c v row then
    { reports := [.lockedUnavailable v.entry.path v.access], violation := true }
  else if leavesUnchanged c file || lockedTimestampDriftOnly c file then {}
  else processedOutcome c v row

def directoryReports (c : Config) (path : RelativePath) (scope : Scope) : List Report :=
  if c.quietIgnored then []
  else if scope.ignored then [.ignoredDirectory path]
  else if scope.included then [.includedDirectory path]
  else []

def directoryOutcome (c : Config) (v : Visit) : VisitOutcome :=
  let scope := matchIncludeIgnore c false v.entry.path
  if !scope.ok then { failed := true }
  else if scope.ignored then
    { reports := directoryReports c v.entry.path scope
      skipBelow := if c.includeSpecified || c.lockChecksumSpecified then none else some v.entry.level }
  else if v.access = .accessAllowed then { reports := directoryReports c v.entry.path scope }
  else
    { reports := directoryReports c v.entry.path scope ++ [.inaccessibleDirectory v.entry.path]
      skipBelow := if c.includeSpecified then none else some v.entry.level }

def entryOutcome (c : Config) (v : Visit) (stored : Option FileColumns) : VisitOutcome :=
  match v.entry.info with
  | .directory => directoryOutcome c v
  | .file => fileOutcome c v stored
  | .unreadableDirectory => { reports := [.unreadableDirectory v.entry.path] }
  | .error => { reports := [.ftsError v.entry.path] }
  | .noStat => { reports := [.statError v.entry.path] }
  | .other => {}

def visitOutcome (c : Config) (v : Visit) (stored : Option FileColumns) : VisitOutcome :=
  if beyondMaxdepth c v.entry then
    { skipBelow := if v.entry.info = .directory then some v.entry.level else none }
  else entryOutcome c v stored

end Precizer.Traversal
