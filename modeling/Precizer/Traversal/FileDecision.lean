import Precizer.Traversal.HashPass

/-! # The decisions about one file

All decisions are taken from the stored row, the current metadata and the options,
before the file is opened. Each intermediate flag keeps its own definition.
-/
namespace Precizer.Traversal
open Rational Digest Database

/-- Without a stored row the mask is `NOT_EQUAL`. -/
def compareMetadata (file : File) : File :=
  { file with
    dbRecordVsFileMetadataChanges :=
      if file.db.relativePathWasInDbBeforeProcessing then
        fileCompareMetadataEquivalence file.db.savedStat file.stat
      else { notEqual := true } }

def fileMetadataIdentical (file : File) : Bool := file.dbRecordVsFileMetadataChanges = Changed.identical

def hasSavedOffset (file : File) : Bool := 0 < file.db.savedOffset

/-- The checksum-locked file has already been fully hashed and recorded. -/
def lockChecksumReady (file : File) : Bool :=
  file.lockedChecksumFile && file.db.relativePathWasInDbBeforeProcessing && !hasSavedOffset file

def unchangedAndComplete (file : File) : Bool :=
  file.db.relativePathWasInDbBeforeProcessing && fileMetadataIdentical file && !hasSavedOffset file

/-- The file needs no further processing. -/
def leavesUnchanged (c : Config) (file : File) : Bool :=
  unchangedAndComplete file && !(c.rehashLocked && lockChecksumReady file)

def sizeChanged (file : File) : Bool := file.dbRecordVsFileMetadataChanges.sizeChanged

def modificationTimeChanged (file : File) : Bool :=
  file.dbRecordVsFileMetadataChanges.modificationTimeChanged

def timestampsChanged (file : File) : Bool :=
  file.dbRecordVsFileMetadataChanges.statusChangedTime ||
    file.dbRecordVsFileMetadataChanges.modificationTimeChanged

def unwatchedMetadataOnlyChanged (c : Config) (file : File) : Bool :=
  file.db.relativePathWasInDbBeforeProcessing && !fileMetadataIdentical file && !c.watchTimestamps &&
    !sizeChanged file && !modificationTimeChanged file && !hasSavedOffset file

def rehashDecision (c : Config) (file : File) : Bool :=
  if lockChecksumReady file && c.rehashLocked then true else !unwatchedMetadataOnlyChanged c file

def canResumePartialHash (file : File) : Bool := hasSavedOffset file && fileMetadataIdentical file

def partialHashInvalidated (file : File) : Bool := hasSavedOffset file && !fileMetadataIdentical file

def emptyFile (file : File) : Bool := file.stat.stSize = 0

/-- The locked row disagrees with the file in its size or in watched timestamps. -/
def lockViolation (c : Config) (file : File) : Bool :=
  lockChecksumReady file &&
    (sizeChanged file || (c.watchTimestamps && !c.rehashLocked && timestampsChanged file))

def lockedTimestampDriftOnly (c : Config) (file : File) : Bool :=
  lockChecksumReady file && !c.watchTimestamps && !c.rehashLocked && timestampsChanged file &&
    !sizeChanged file

/-- The file record with every flag the decisions set. -/
def decideFile (c : Config) (file : File) : File :=
  { file with
    checksumOffset := if canResumePartialHash file then file.db.savedOffset else file.checksumOffset
    mdContext := if canResumePartialHash file then file.db.savedMdContext else file.mdContext
    rehashingFromTheBeginning := partialHashInvalidated file
    zeroSizeFile := emptyFile file
    rehash := if emptyFile file then false else rehashDecision c file
    lockChecksumViolation := lockViolation c file }

def shouldProcess (file : File) : Bool :=
  file.isReadable && !file.ignore && !file.lockChecksumViolation

def allowLockedUpdate (c : Config) (file : File) : Bool :=
  !file.db.relativePathWasInDbBeforeProcessing || !file.lockedChecksumFile || c.rehashLocked ||
    hasSavedOffset file

def shouldUpdateDb (c : Config) (file : File) : Bool :=
  allowLockedUpdate c file &&
    (!file.db.relativePathWasInDbBeforeProcessing || file.db.savedOffset < file.checksumOffset ||
      (hasSavedOffset file && file.checksumOffset = 0) || !fileMetadataIdentical file)

/-- The digest of a locked file disagrees with the stored one after a full pass. -/
def checksumMismatch (c : Config) (status : Return) (hashFailed : Bool) (file : File) : Bool :=
  !hashFailed && !file.readError && c.rehashLocked && lockChecksumReady file && file.rehash &&
    status.triumph && !file.wrongFileType && !file.zeroSizeFile && file.checksumOffset = 0 &&
    file.sha512 ≠ file.db.sha512

/-- The line printed about a file, chosen in the order the source tests its flags. -/
def mainLabel (c : Config) (file : File) : List FileLabel :=
  let changes := file.dbRecordVsFileMetadataChanges
  let unlessQuiet (label : FileLabel) : List FileLabel := if c.quietIgnored then [] else [label]
  let unlessInterrupted (label : FileLabel) : List FileLabel :=
    if file.hashInterrupted then [] else [label]
  if file.ignore then
    if file.db.relativePathWasInDbBeforeProcessing then unlessQuiet .ignoredNotUpdated
    else unlessQuiet .ignoredNotAdded
  else if file.readError then [.readError file.readErrno]
  else if !file.isReadable then [.inaccessible]
  else if !file.db.relativePathWasInDbBeforeProcessing then
    if file.newDbRecordInserted then
      if file.included then unlessQuiet .addedAsIncluded
      else if file.lockedChecksumFile then [.lockedChecksum]
      else if file.zeroSizeFile then [.addedAsEmpty]
      else [.added]
    else []
  else if file.lockedChecksumMismatch then [.lockedChecksumMismatch]
  else if file.lockChecksumViolation then [.lockedChecksumViolation changes]
  else if file.dbRecordUpdated && file.included then unlessQuiet (.updatedAsIncluded changes)
  else if file.dbRecordUpdated && file.zeroSizeFile then [.updatedAsEmpty changes]
  else if file.rehash then
    if file.rehashingFromTheBeginning then unlessInterrupted (.rehashedFromTheBeginning changes)
    else if 0 < file.db.savedOffset then [.rehashResumed file.db.savedOffset]
    else if file.lockedChecksumFile then unlessInterrupted (.lockedChecksumMatched changes)
    else if file.dbRecordUpdated then unlessInterrupted (.rehashed changes)
    else []
  else if file.dbRecordUpdated then [.updatedMetadata changes]
  else []

def showFile (c : Config) (file : File) : List FileLabel :=
  mainLabel c file ++ if file.hashInterrupted then [.hashingInterrupted file.checksumOffset] else []

end Precizer.Traversal
