import Precizer.Traversal.Tree

/-! # Outcomes of constant files

What a visit comes to when its file can be read and does not change: the digest of a file
that is hashed, the columns of one that is not, and silence about a current row. From these
follow the states of a row between the visits of interrupted runs.
-/
namespace Precizer.Traversal
open General Rational Digest Database

def recorded (v : Visit) (digest : Option Sha512Digest) : FileColumns :=
  ⟨none,digest,some (statCopy v.entry.statp).toBytes,none⟩

/-- The record after a reading to the end of the file. -/
def hashedRecord (file : File) (digest : Sha512Digest) : File :=
  { file with checksumOffset := 0, sha512 := digest }

section Outcome

variable {c : Config} {v : Visit} {row : DBrow} {stored : Option FileColumns} {digest : Sha512Digest}

theorem fileOutcome_ready (hpatterns : patternsMatch c v.entry.path = true) (h : Ready c v (storedRow stored)) :
    fileOutcome c v stored = processedOutcome c v (storedRow stored) := by
  have havailable : unavailableLocked c v (storedRow stored) = false := by
    simp [unavailableLocked,h.readable]
  unfold fileOutcome
  dsimp only
  rw [hpatterns,havailable,h.changed,h.watched]
  rfl

theorem known_of_identical (h : fileMetadataIdentical (decidedFile c v row) = true) :
    row.relativePathWasInDbBeforeProcessing = true := by
  cases hknown : row.relativePathWasInDbBeforeProcessing with
  | true => rfl
  | false =>
    have hchanges : (decidedFile c v row).dbRecordVsFileMetadataChanges =
        if (accessedFile c v row).db.relativePathWasInDbBeforeProcessing then
          fileCompareMetadataEquivalence (accessedFile c v row).db.savedStat (statCopy v.entry.statp)
        else { notEqual := true } := rfl
    rw [accessedFile_db,hknown,if_neg (by decide)] at hchanges
    rw [fileMetadataIdentical,hchanges] at h
    exact absurd h (by decide)

theorem offset_of_changed (h : row.relativePathWasInDbBeforeProcessing = true →
    fileMetadataIdentical (decidedFile c v row) = false) :
    fileMetadataIdentical (decidedFile c v row) = false ∧ (decidedFile c v row).checksumOffset = 0 := by
  have hdiffers : fileMetadataIdentical (decidedFile c v row) = false := by
    by_contra hidentical
    have hidentical : fileMetadataIdentical (decidedFile c v row) = true := by simpa using hidentical
    rw [h (known_of_identical hidentical)] at hidentical
    cases hidentical
  refine ⟨hdiffers,?_⟩
  rcases decidedFile_start c v row with ⟨hresume,-,-⟩ | ⟨-,hoffset⟩
  · rw [canResumePartialHash,hdiffers,Bool.and_false] at hresume
    cases hresume
  · exact hoffset

theorem update_of_changed (file : File) (hallowed : allowLockedUpdate c file = true)
    (hdiffers : fileMetadataIdentical file = false) : shouldUpdateDb c file = true := by
  rw [shouldUpdateDb,hallowed,hdiffers]
  simp

theorem open_of_process (file : File) (hprocess : shouldProcess file = true) (hread : file.readError = false)
    (hmismatch : file.lockedChecksumMismatch = false) : blockedRecord false file = false := by
  simp only [shouldProcess,Bool.and_eq_true,Bool.not_eq_true'] at hprocess
  simp [blockedRecord,hprocess,hread,hmismatch]

theorem settledOutcome_saved (path : RelativePath) {file : File} (hcompared : comparedRecord c false file = file)
    (hopen : blockedRecord false file = false) (hupdate : shouldUpdateDb c file = true) :
    (settledOutcome c path false file).columns = some (boundColumns file) ∧
      (settledOutcome c path false file).violation = false := by
  unfold settledOutcome
  rw [hcompared]
  dsimp only
  rw [hopen,hupdate]
  exact ⟨rfl,rfl⟩

/-- A record that needs no save is not saved. -/
theorem settledOutcome_kept {path : RelativePath} {failed : Bool} {file : File}
    (hupdate : shouldUpdateDb c file = false) : (settledOutcome c path failed file).columns = none := by
  have hcompared : shouldUpdateDb c (comparedRecord c failed file) = false := by
    unfold comparedRecord
    split
    · exact hupdate
    · exact hupdate
  unfold settledOutcome
  dsimp only
  split
  · rfl
  · rw [hcompared]
    rfl

theorem compared_of_unsealed (file : File) (h : lockChecksumReady file = false) :
    comparedRecord c false file = file := by
  unfold comparedRecord
  rw [if_neg]
  simp [checksumMismatch,h]

/-- A file that is saved without having been hashed. -/
theorem reused_outcome (hready : Ready c v row) (hrehash : (decidedFile c v row).rehash = false)
    (hallowed : allowLockedUpdate c (decidedFile c v row) = true)
    (hchanged : row.relativePathWasInDbBeforeProcessing = true →
      fileMetadataIdentical (decidedFile c v row) = false) :
    (processedOutcome c v row).columns = some (recorded v
        (if emptyFile (decidedFile c v row) then none else some row.sha512)) ∧
      (processedOutcome c v row).violation = false := by
  obtain ⟨hdiffers,hoffset⟩ := offset_of_changed hchanged
  have hzero := decidedFile_zeroSize c v row
  have hreused : ∀ file : File, file = { decidedFile c v row with sha512 := row.sha512 } →
      blockedRecord false file = false ∧ shouldUpdateDb c file = true ∧ comparedRecord c false file = file ∧
        boundColumns file = recorded v (if emptyFile (decidedFile c v row) then none else some row.sha512) := by
    rintro file rfl
    refine ⟨open_of_process _ hready.process (decidedFile_readError c v row) (decidedFile_mismatch c v row),
      update_of_changed _ hallowed hdiffers,?_,?_⟩
    · unfold comparedRecord
      rw [if_neg]
      simp [checksumMismatch,hrehash]
    · unfold boundColumns recorded
      cases hempty : emptyFile (decidedFile c v row) <;> simp [hoffset,hzero,hempty]
  obtain ⟨hopen,hupdate,hcompared,hbound⟩ := hreused _ rfl
  dsimp only at hopen hupdate hcompared hbound
  unfold processedOutcome
  dsimp only
  rw [if_pos hready.process,if_neg (by rw [hrehash]; decide),← hbound]
  exact settledOutcome_saved _ hcompared hopen hupdate

theorem hashPass_read {file : File} (hlegible : v.Legible) (hruns : HashRuns c v file) : hashPass c v file =
    match sha512From (preparedContext file).mdContext (v.disk.delivered file.checksumOffset) with
    | some digest => ({ file with checksumOffset := 0, sha512 := digest },false)
    | none => (file,true) := by
  have hread : readRecord v file = file := by
    unfold readRecord
    rw [hlegible.readable]
  unfold hashPass
  rw [hruns.openable,hread]
  dsimp only
  rw [if_pos hruns.seekable,if_pos hruns.performed]
  cases sha512From (preparedContext file).mdContext (v.disk.delivered file.checksumOffset) with
  | some digest => rfl
  | none =>
    dsimp only
    split <;> rfl

theorem hashedRecord_mismatch (hrehash : (decidedFile c v row).rehash = true) (digest : Sha512Digest) :
    checksumMismatch c successStatus false (hashedRecord (decidedFile c v row) digest) =
      (c.rehashLocked && lockChecksumReady (decidedFile c v row) && decide (digest ≠ row.sha512)) := by
  have hsealed : lockChecksumReady (hashedRecord (decidedFile c v row) digest) =
      lockChecksumReady (decidedFile c v row) := rfl
  have hempty : emptyFile (decidedFile c v row) = false := not_empty_of_rehash hrehash
  unfold checksumMismatch
  rw [hsealed]
  simp [hashedRecord,hrehash,hempty,decidedFile_zeroSize,successStatus,Return.triumph]

theorem hashedRecord_settled (hready : Ready c v row) (hlegible : v.Legible) (hruns : HashRuns c v (decidedFile c v row))
    (hrehash : (decidedFile c v row).rehash = true)
    (hdigest : sha512From (preparedContext (decidedFile c v row)).mdContext
      (v.disk.delivered (decidedFile c v row).checksumOffset) = some digest) :
    processedOutcome c v row =
      settledOutcome c v.entry.path false (hashedRecord (decidedFile c v row) digest) := by
  have hpass := hashPass_read hlegible hruns
  rw [hdigest] at hpass
  unfold processedOutcome
  dsimp only
  rw [if_pos hready.process,if_pos hrehash,hpass]
  rfl

theorem hashedRecord_columns (hready : Ready c v row) (hlegible : v.Legible)
    (hruns : HashRuns c v (decidedFile c v row)) (hrehash : (decidedFile c v row).rehash = true)
    (hdigest : sha512From (preparedContext (decidedFile c v row)).mdContext
      (v.disk.delivered (decidedFile c v row).checksumOffset) = some digest) :
    (processedOutcome c v row).columns =
      if c.rehashLocked && lockChecksumReady (decidedFile c v row) && decide (digest ≠ row.sha512) then none
      else if shouldUpdateDb c (hashedRecord (decidedFile c v row) digest) then some (recorded v (some digest))
      else none := by
  have hprocess : shouldProcess (hashedRecord (decidedFile c v row) digest) = true := hready.process
  have hbound : boundColumns (hashedRecord (decidedFile c v row) digest) = recorded v (some digest) := by
    simp [boundColumns,recorded,hashedRecord,decidedFile_zeroSize,not_empty_of_rehash hrehash]
  rw [hashedRecord_settled hready hlegible hruns hrehash hdigest]
  unfold settledOutcome comparedRecord
  rw [hprocess,hashedRecord_mismatch hrehash,Bool.true_and]
  dsimp only
  split
  · simp [blockedRecord]
  · have hopen : blockedRecord false (hashedRecord (decidedFile c v row) digest) = false :=
      open_of_process _ hprocess (decidedFile_readError c v row) (decidedFile_mismatch c v row)
    rw [hopen,← hbound]
    cases shouldUpdateDb c (hashedRecord (decidedFile c v row) digest) <;> rfl

theorem hashedRecord_failed (hready : Ready c v row) (hlegible : v.Legible)
    (hruns : HashRuns c v (decidedFile c v row)) (hrehash : (decidedFile c v row).rehash = true)
    (hdigest : sha512From (preparedContext (decidedFile c v row)).mdContext
      (v.disk.delivered (decidedFile c v row).checksumOffset) = none) :
    (processedOutcome c v row).failed = true := by
  have hpass := hashPass_read hlegible hruns
  rw [hdigest] at hpass
  unfold processedOutcome
  dsimp only
  rw [if_pos hready.process,if_pos hrehash,hpass]
  exact settledOutcome_failed _ _ _

theorem hashedRecord_update (hknown : row.relativePathWasInDbBeforeProcessing = true) (digest : Sha512Digest) :
    shouldUpdateDb c (hashedRecord (decidedFile c v row) digest) =
      (allowLockedUpdate c (decidedFile c v row) &&
        (hasSavedOffset (decidedFile c v row) || !fileMetadataIdentical (decidedFile c v row))) := by
  have hallowed : allowLockedUpdate c (hashedRecord (decidedFile c v row) digest) =
      allowLockedUpdate c (decidedFile c v row) := rfl
  have hsaved : hasSavedOffset (hashedRecord (decidedFile c v row) digest) =
      hasSavedOffset (decidedFile c v row) := rfl
  have hsame : fileMetadataIdentical (hashedRecord (decidedFile c v row) digest) =
      fileMetadataIdentical (decidedFile c v row) := rfl
  rw [shouldUpdateDb,hallowed,hsaved,hsame]
  simp [hashedRecord,hknown]

theorem read_outcome (hready : Ready c v row) (hlegible : v.Legible) (hruns : HashRuns c v (decidedFile c v row))
    (hrehash : (decidedFile c v row).rehash = true) (hfree : lockChecksumReady (decidedFile c v row) = false) :
    match sha512From (preparedContext (decidedFile c v row)).mdContext
        (v.disk.delivered (decidedFile c v row).checksumOffset) with
    | none => (processedOutcome c v row).failed = true
    | some digest => (processedOutcome c v row).failed = false ∧ (processedOutcome c v row).violation = false ∧
        (processedOutcome c v row).columns = some (recorded v (some digest)) := by
  cases hdigest : sha512From (preparedContext (decidedFile c v row)).mdContext
      (v.disk.delivered (decidedFile c v row).checksumOffset) with
  | none => exact hashedRecord_failed hready hlegible hruns hrehash hdigest
  | some digest =>
    have hsettled := hashedRecord_settled hready hlegible hruns hrehash hdigest
    have hcolumns := hashedRecord_columns hready hlegible hruns hrehash hdigest
    rw [hfree,Bool.and_false,Bool.false_and,if_neg (by decide)] at hcolumns
    have hupdate : shouldUpdateDb c (hashedRecord (decidedFile c v row) digest) = true := by
      by_contra hno
      rw [if_neg hno] at hcolumns
      have hpass : hashPass c v (decidedFile c v row) = (hashedRecord (decidedFile c v row) digest,false) := by
        rw [hashPass_read hlegible hruns,hdigest]
        rfl
      rw [hsettled] at hcolumns
      have hsealed := sealed_of_unsaved hready (hlegible.readable _) hruns (by rw [hpass])
        (by rw [hpass]; exact hcolumns)
      rw [hfree] at hsealed
      cases hsealed
    rw [if_pos hupdate] at hcolumns
    have hopen : blockedRecord false (hashedRecord (decidedFile c v row) digest) = false :=
      open_of_process _ hready.process (decidedFile_readError c v row) (decidedFile_mismatch c v row)
    have hcompared : comparedRecord c false (hashedRecord (decidedFile c v row) digest) =
        hashedRecord (decidedFile c v row) digest := compared_of_unsealed _ hfree
    dsimp only
    refine ⟨?_,?_,hcolumns⟩
    · rw [hsettled]
      exact settledOutcome_failed _ _ _
    · rw [hsettled]
      exact (settledOutcome_saved v.entry.path hcompared hopen hupdate).2

theorem hashed_outcome (hready : Ready c v row) (hconstant : v.disk.reading.Constant)
    (hrehash : (decidedFile c v row).rehash = true) (hperform : performFileHashing c = true)
    (hfree : lockChecksumReady (decidedFile c v row) = false) :
    match sha512From (preparedContext (decidedFile c v row)).mdContext
        (v.disk.content.drop (decidedFile c v row).checksumOffset) with
    | none => (processedOutcome c v row).failed = true
    | some digest => (processedOutcome c v row).failed = false ∧ (processedOutcome c v row).violation = false ∧
        (processedOutcome c v row).columns = some (recorded v (some digest)) := by
  have hruns : HashRuns c v (decidedFile c v row) := ⟨hconstant.openable,hconstant.seekable _,hperform⟩
  have houtcome := read_outcome hready ⟨hconstant.openable,hconstant.readable⟩ hruns hrehash hfree
  rwa [show v.disk.delivered (decidedFile c v row).checksumOffset =
    v.disk.content.drop (decidedFile c v row).checksumOffset from hconstant.delivered _] at houtcome

end Outcome

section Current

variable {c : Config} {v : Visit} {columns : FileColumns}

/-- The columns have the metadata of the file and nothing to resume. -/
structure Current (v : Visit) (columns : FileColumns) : Prop where
  offset : columns.offset = none
  stat : columns.stat = some (statCopy v.entry.statp).toBytes

theorem recorded_current (v : Visit) (digest : Option Sha512Digest) : Current v (recorded v digest) := ⟨rfl,rfl⟩

theorem identical_of_stat (columns : FileColumns) (hstat : columns.stat = some (statCopy v.entry.statp).toBytes) :
    fileMetadataIdentical (decidedFile c v (storedRow (some columns))) = true := by
  have hsaved : (storedRow (some columns)).savedStat = statCopy v.entry.statp := by
    simp [storedRow,DBrow.ofEntry,hstat]
  rw [fileMetadataIdentical,decidedFile_changes c v _ rfl,hsaved,compare_self]
  rfl

theorem Current.unchanged (h : Current v columns) :
    unchangedAndComplete (decidedFile c v (storedRow (some columns))) = true := by
  have hnone : (storedRow (some columns)).savedOffset = 0 := by
    simp [storedRow,DBrow.ofEntry,h.offset]
  rw [unchangedAndComplete,identical_of_stat columns h.stat,hasSavedOffset,decidedFile_db,hnone]
  rfl

theorem Current.silent (h : Current v columns) (hpatterns : patternsMatch c v.entry.path = true)
    (haccess : v.access = .accessAllowed) (hrehash : c.rehashLocked = false) :
    fileOutcome c v (some columns) = {} := by
  have havailable : unavailableLocked c v (storedRow (some columns)) = false := by
    simp [unavailableLocked,haccess]
  have hleft : leavesUnchanged c (decidedFile c v (storedRow (some columns))) = true := by
    rw [leavesUnchanged,h.unchanged,hrehash]
    rfl
  unfold fileOutcome
  dsimp only
  rw [hpatterns,havailable,hleft]
  rfl

theorem hashPass_frame (file : File) : (hashPass c v file).1.frame = file.frame ∧
    (file.checksumOffset = 0 → (hashPass c v file).1.checksumOffset = 0) := by
  have hread : (readRecord v file).frame = file.frame ∧ (readRecord v file).checksumOffset = file.checksumOffset := by
    unfold readRecord
    cases v.disk.readErrno file.checksumOffset <;> exact ⟨rfl,rfl⟩
  have hprepared : (preparedContext file).frame = file.frame ∧
      (preparedContext file).checksumOffset = file.checksumOffset := by
    unfold preparedContext
    split <;> exact ⟨rfl,rfl⟩
  unfold hashPass
  cases v.disk.openErrno with
  | some errno => exact ⟨rfl,id⟩
  | none =>
    dsimp only
    split
    · split
      · cases sha512From (preparedContext file).mdContext (v.disk.delivered file.checksumOffset) with
        | some digest => exact ⟨hread.1,fun _ => rfl⟩
        | none =>
          dsimp only
          split
          · exact ⟨hread.1,fun hzero => hread.2.trans hzero⟩
          · exact ⟨rfl,id⟩
      · exact ⟨hprepared.1,fun hzero => hprepared.2.trans hzero⟩
    · exact ⟨rfl,id⟩

theorem settledOutcome_unsaved {path : RelativePath} {failed : Bool} {file : File}
    (hunchanged : unchangedAndComplete file = true) (hoffset : file.checksumOffset = 0) :
    (settledOutcome c path failed file).columns = none := by
  simp only [unchangedAndComplete,Bool.and_eq_true,Bool.not_eq_true'] at hunchanged
  exact settledOutcome_kept (by simp [shouldUpdateDb,hunchanged,hoffset])

/-- A visit never writes over a current row. -/
theorem Current.kept (h : Current v columns) : (fileOutcome c v (some columns)).columns = none := by
  have hunchanged : unchangedAndComplete (decidedFile c v (storedRow (some columns))) = true := h.unchanged
  have hoffset : (decidedFile c v (storedRow (some columns))).checksumOffset = 0 := by
    rcases decidedFile_start c v (storedRow (some columns)) with ⟨-,hoffset,-⟩ | ⟨-,hoffset⟩
    · rw [hoffset]
      simp [storedRow,DBrow.ofEntry,h.offset]
    · exact hoffset
  unfold fileOutcome
  dsimp only
  split
  · rfl
  · split
    · rfl
    · split
      · rfl
      · unfold processedOutcome
        dsimp only
        split
        · split
          · obtain ⟨hframe,hzero⟩ := hashPass_frame (c := c) (v := v) (decidedFile c v (storedRow (some columns)))
            exact settledOutcome_unsaved ((frame_congr unchangedAndComplete (fun _ => rfl) hframe).trans hunchanged)
              (hzero hoffset)
          · exact settledOutcome_unsaved hunchanged hoffset
        · exact settledOutcome_unsaved hunchanged hoffset

end Current

end Precizer.Traversal
