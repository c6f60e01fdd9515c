import Precizer.Traversal.PlanRules

/-! # Rows that are right after a visit

An undisturbed visit of a file that can be read and does not change leaves the row as it is
or writes it anew. The row is right afterwards if there was none, if it was right before, or
if it is renewed: what the visit writes is then the digest of the file.
-/
namespace Precizer.Traversal
open General Rational Digest Database

/-- The columns of a constant file that is recorded by itself. -/
def TreeEntry.columns (e : TreeEntry) : FileColumns where
  offset := none
  sha512 := if e.entry.statp.stSize = 0 then none else some (sha512 e.reading.content)
  stat := some (statCopy e.entry.statp).toBytes
  mdContext := none

section First

variable {c : Config} {v : Visit}

theorem ready_new (haccess : v.access = .accessAllowed)
    (hvisible : (loadedFile c DBrow.zero v.entry.path).ignore = false) : Ready c v DBrow.zero := by
  have haccessed : accessedFile c v DBrow.zero =
      { loadedFile c DBrow.zero v.entry.path with isReadable := true } := by
    unfold accessedFile
    rw [hvisible,haccess]
    rfl
  have hunknown : lockChecksumReady (decidedFile c v DBrow.zero) = false := by
    simp [lockChecksumReady,DBrow.zero]
  refine ⟨?_,?_,?_⟩
  · have hreadable : (decidedFile c v DBrow.zero).isReadable = true := congrArg File.isReadable haccessed
    have hignore : (decidedFile c v DBrow.zero).ignore = false := (congrArg File.ignore haccessed).trans hvisible
    have hviolation : (decidedFile c v DBrow.zero).lockChecksumViolation =
        lockViolation c (decidedFile c v DBrow.zero) := rfl
    rw [shouldProcess,hreadable,hignore,hviolation,lockViolation,hunknown]
    rfl
  · rw [leavesUnchanged,unchangedAndComplete,decidedFile_db]
    rfl
  · rw [lockedTimestampDriftOnly,hunknown]
    rfl

/-- An unknown file is recorded with its own digest and metadata. -/
theorem fileOutcome_first (hconstant : v.disk.reading.Constant) (haccess : v.access = .accessAllowed)
    (hperform : performFileHashing c = true) (hvisible : (loadedFile c DBrow.zero v.entry.path).ignore = false)
    (hok : (fileOutcome c v none).failed = false) : (fileOutcome c v none).columns = some v.found.columns := by
  have hready := ready_new haccess hvisible
  have hprocessed : fileOutcome c v none = processedOutcome c v DBrow.zero :=
    fileOutcome_ready (patternsMatch_of_goes hok) hready
  rw [hprocessed] at hok ⊢
  have hsize : emptyFile (decidedFile c v DBrow.zero) = decide (v.entry.statp.stSize = 0) := rfl
  have hrehash : (decidedFile c v DBrow.zero).rehash = if emptyFile (decidedFile c v DBrow.zero) then false
      else rehashDecision c (decidedFile c v DBrow.zero) := rfl
  have hunknown : lockChecksumReady (decidedFile c v DBrow.zero) = false := by
    simp [lockChecksumReady,DBrow.zero]
  have hstart : (decidedFile c v DBrow.zero).checksumOffset = 0 := by
    rcases decidedFile_start c v DBrow.zero with ⟨-,hoffset,-⟩ | ⟨-,hoffset⟩
    · exact hoffset
    · exact hoffset
  by_cases hempty : v.entry.statp.stSize = 0
  · have hunhashed : (decidedFile c v DBrow.zero).rehash = false := by
      rw [hrehash,hsize,decide_eq_true hempty]
      rfl
    have hallowed : allowLockedUpdate c (decidedFile c v DBrow.zero) = true := by
      simp [allowLockedUpdate,DBrow.zero]
    have hcolumns := (reused_outcome hready hunhashed hallowed fun hno => by cases hno).1
    rw [hsize,decide_eq_true hempty,if_pos rfl] at hcolumns
    refine hcolumns.trans ?_
    rw [TreeEntry.columns,recorded,if_pos (show v.found.entry.statp.stSize = 0 from hempty)]
    rfl
  · have hhashed : (decidedFile c v DBrow.zero).rehash = true := by
      rw [hrehash,hsize,decide_eq_false hempty,rehashDecision,hunknown,unwatchedMetadataOnlyChanged,decidedFile_db]
      rfl
    have houtcome := hashed_outcome hready hconstant hhashed hperform hunknown
    have hdigest : sha512From (preparedContext (decidedFile c v DBrow.zero)).mdContext
        (v.disk.content.drop (decidedFile c v DBrow.zero).checksumOffset) =
        if 8 * v.disk.content.length < 2 ^ 64 then some (sha512 v.disk.content) else none := by
      rw [preparedContext,if_pos hstart,hstart,List.drop_zero]
      exact sha512From_init _ _
    rw [hdigest] at houtcome
    by_cases hlength : 8 * v.disk.content.length < 2 ^ 64
    · rw [if_pos hlength] at houtcome
      have hcolumns : v.found.columns = recorded v (some (sha512 v.disk.content)) := by
        rw [TreeEntry.columns,recorded,if_neg (show ¬ v.found.entry.statp.stSize = 0 from hempty)]
        rfl
      rw [hcolumns]
      exact houtcome.2.2
    · rw [if_neg hlength] at houtcome
      rw [show (processedOutcome c v DBrow.zero).failed = true from houtcome] at hok
      cases hok

end First

/-- The columns of a row after an undisturbed visit of its file. -/
def settledRow (c : Config) (v : Visit) (stored : Option FileColumns) : Option FileColumns :=
  (fileOutcome c v stored).columns.or stored

/-- The row is written anew, with the digest of its own file: of the whole file, of the rest of
it after a saved context that suits its head, or the one the row has already. -/
structure Renews (c : Config) (v : Visit) (row : DBrow) : Prop where
  ready : Ready c v row
  allowed : allowLockedUpdate c (decidedFile c v row) = true
  due : fileMetadataIdentical (decidedFile c v row) = false ∨
    (hasSavedOffset (decidedFile c v row) = true ∧ emptyFile (decidedFile c v row) = false)
  resumed : canResumePartialHash (decidedFile c v row) = true →
    sha512From row.savedMdContext (v.disk.content.drop row.savedOffset) = some (sha512 v.disk.content)
  agreed : (decidedFile c v row).rehash = false ∨ lockChecksumReady (decidedFile c v row) = true →
    emptyFile (decidedFile c v row) = false → row.sha512 = sha512 v.disk.content

/-- A visit leaves the file with its own row: there is none, it is right already, or it is renewed. -/
def Owned (c : Config) (v : Visit) (stored : Option FileColumns) : Prop :=
  stored = none ∨ stored = some v.found.columns ∨ Renews c v (storedRow stored)

section Known

variable {c : Config} {v : Visit} {row : DBrow}

theorem unready_kept {stored : Option FileColumns} (hready : ¬ Ready c v (storedRow stored)) :
    (fileOutcome c v stored).columns = none := by
  unfold fileOutcome
  dsimp only
  split
  · rfl
  · split
    · rfl
    · split
      · rfl
      · rename_i hgoes
        have hgoes : leavesUnchanged c (decidedFile c v (storedRow stored)) = false ∧
            lockedTimestampDriftOnly c (decidedFile c v (storedRow stored)) = false := by simpa using hgoes
        have hprocess : shouldProcess (decidedFile c v (storedRow stored)) = false :=
          Bool.eq_false_of_not_eq_true fun hprocess => hready ⟨hprocess,hgoes.1,hgoes.2⟩
        have hcompared : comparedRecord c false (decidedFile c v (storedRow stored)) =
            decidedFile c v (storedRow stored) := by
          rw [comparedRecord,hprocess]
          rfl
        have hblocked : blockedRecord false (decidedFile c v (storedRow stored)) = true := by
          rw [shouldProcess] at hprocess
          rw [blockedRecord]
          revert hprocess
          cases (decidedFile c v (storedRow stored)).isReadable <;>
            cases (decidedFile c v (storedRow stored)).ignore <;>
            cases (decidedFile c v (storedRow stored)).lockChecksumViolation <;> simp
        unfold processedOutcome settledOutcome
        rw [if_neg (by rw [hprocess]; decide)]
        dsimp only
        rw [hcompared,hblocked]
        rfl

/-- A known record that was not hashed is saved for its metadata only. -/
theorem reused_update (hknown : row.relativePathWasInDbBeforeProcessing = true) :
    shouldUpdateDb c (decidedFile c v row) =
      (allowLockedUpdate c (decidedFile c v row) && !fileMetadataIdentical (decidedFile c v row)) := by
  rcases decidedFile_start c v row with ⟨hresume,hoffset,-⟩ | ⟨hfresh,hoffset⟩
  · obtain ⟨hsaved,hsame⟩ : hasSavedOffset (decidedFile c v row) = true ∧
        fileMetadataIdentical (decidedFile c v row) = true := by simpa [canResumePartialHash] using hresume
    have hpositive : row.savedOffset ≠ 0 := by
      rw [hasSavedOffset,decidedFile_db] at hsaved
      simpa [Nat.pos_iff_ne_zero] using hsaved
    simp [shouldUpdateDb,decidedFile_db,hknown,hoffset,hpositive,hsame]
  · have hchanged : hasSavedOffset (decidedFile c v row) = true →
        fileMetadataIdentical (decidedFile c v row) = false := by
      intro hsaved
      simpa [canResumePartialHash,hsaved] using hfresh
    rw [shouldUpdateDb,decidedFile_db,hknown,hoffset]
    cases hsaved : hasSavedOffset (decidedFile c v row) with
    | true => simp [hchanged hsaved]
    | false => simp

theorem found_columns (c : Config) (v : Visit) (row : DBrow) : v.found.columns =
    recorded v (if emptyFile (decidedFile c v row) then none else some (sha512 v.disk.content)) := by
  have hsize : emptyFile (decidedFile c v row) = decide (v.entry.statp.stSize = 0) := rfl
  rw [hsize,TreeEntry.columns,recorded]
  by_cases hempty : v.entry.statp.stSize = 0
  · rw [if_pos (show v.found.entry.statp.stSize = 0 from hempty),decide_eq_true hempty]
    rfl
  · rw [if_neg (show ¬ v.found.entry.statp.stSize = 0 from hempty),decide_eq_false hempty]
    rfl

theorem rehash_of_saved (hsaved : hasSavedOffset (decidedFile c v row) = true) :
    (decidedFile c v row).rehash = !emptyFile (decidedFile c v row) := by
  have hdecided : (decidedFile c v row).rehash = if emptyFile (decidedFile c v row) then false
      else rehashDecision c (decidedFile c v row) := rfl
  rw [hdecided,rehashDecision,unwatchedMetadataOnlyChanged,hsaved]
  cases emptyFile (decidedFile c v row) <;> simp

/-- What is written about a known file that is not hashed. -/
theorem unhashed_columns (hready : Ready c v row) (hknown : row.relativePathWasInDbBeforeProcessing = true)
    (hrehash : (decidedFile c v row).rehash = false) : (processedOutcome c v row).columns =
      if allowLockedUpdate c (decidedFile c v row) && !fileMetadataIdentical (decidedFile c v row) then
        some (recorded v (if emptyFile (decidedFile c v row) then none else some row.sha512)) else none := by
  split
  · rename_i hwritten
    obtain ⟨hallowed,hdiffers⟩ : allowLockedUpdate c (decidedFile c v row) = true ∧
        fileMetadataIdentical (decidedFile c v row) = false := by simpa using hwritten
    exact (reused_outcome hready hrehash hallowed fun _ => hdiffers).1
  · rename_i hwritten
    have hupdate : shouldUpdateDb c (decidedFile c v row) = false := by
      rw [reused_update hknown]
      exact Bool.eq_false_of_not_eq_true hwritten
    unfold processedOutcome
    dsimp only
    rw [if_pos hready.process,if_neg (by rw [hrehash]; decide)]
    exact settledOutcome_kept hupdate

/-- A record that is not hashed is written with the digest of its row. -/
theorem unhashed_renews (hready : Ready c v row) (hknown : row.relativePathWasInDbBeforeProcessing = true)
    (hrehash : (decidedFile c v row).rehash = false) :
    (processedOutcome c v row).columns = some v.found.columns ↔ Renews c v row := by
  have hsame : some (recorded v (if emptyFile (decidedFile c v row) then none else some row.sha512)) =
      some (recorded v (if emptyFile (decidedFile c v row) then none else some (sha512 v.disk.content))) ↔
      (emptyFile (decidedFile c v row) = false → row.sha512 = sha512 v.disk.content) := by
    cases emptyFile (decidedFile c v row) <;> simp [recorded]
  rw [found_columns c v row,unhashed_columns hready hknown hrehash]
  constructor
  · intro hcolumns
    split at hcolumns
    · rename_i hwritten
      obtain ⟨hallowed,hdiffers⟩ : allowLockedUpdate c (decidedFile c v row) = true ∧
          fileMetadataIdentical (decidedFile c v row) = false := by simpa using hwritten
      refine ⟨hready,hallowed,.inl hdiffers,fun hresume => ?_,fun _ => hsame.mp hcolumns⟩
      rw [canResumePartialHash,hdiffers,Bool.and_false] at hresume
      cases hresume
    · cases hcolumns
  · intro h
    have hdiffers : fileMetadataIdentical (decidedFile c v row) = false := by
      rcases h.due with hdiffers | ⟨hsaved,hnonempty⟩
      · exact hdiffers
      · rw [rehash_of_saved hsaved,hnonempty] at hrehash
        cases hrehash
    rw [h.allowed,hdiffers]
    exact hsame.mpr (h.agreed (.inl hrehash))

/-- The digest a hash pass comes to is that of a fresh pass over the whole content, or of a
pass resumed with the context of the row. -/
theorem digest_cases {digest : Sha512Digest} (hdigest : sha512From (preparedContext (decidedFile c v row)).mdContext
      (v.disk.content.drop (decidedFile c v row).checksumOffset) = some digest) :
    (canResumePartialHash (decidedFile c v row) = false → digest = sha512 v.disk.content) ∧
      (canResumePartialHash (decidedFile c v row) = true →
        sha512From row.savedMdContext (v.disk.content.drop row.savedOffset) = some digest) := by
  rcases decidedFile_start c v row with ⟨hresume,hoffset,hcontext⟩ | ⟨hfresh,hoffset⟩
  · refine ⟨fun hfresh => ?_,fun _ => ?_⟩
    · rw [hresume] at hfresh
      cases hfresh
    · have hsaved : hasSavedOffset (decidedFile c v row) = true := (Bool.and_eq_true_iff.mp hresume).1
      have hpositive : ¬ row.savedOffset = 0 := by
        rw [hasSavedOffset,decidedFile_db] at hsaved
        simpa [Nat.pos_iff_ne_zero] using hsaved
      rw [preparedContext,if_neg (by rw [hoffset]; exact hpositive),hoffset,hcontext] at hdigest
      exact hdigest
  · refine ⟨fun _ => ?_,fun hresume => ?_⟩
    · rw [preparedContext,if_pos hoffset,hoffset,List.drop_zero,sha512From_init] at hdigest
      split at hdigest
      · exact (Option.some.inj hdigest).symm
      · cases hdigest
    · rw [hfresh] at hresume
      cases hresume

theorem rehashed_columns (hready : Ready c v row) (hknown : row.relativePathWasInDbBeforeProcessing = true)
    (hconstant : v.disk.reading.Constant) (hperform : performFileHashing c = true)
    (hrehash : (decidedFile c v row).rehash = true) (hok : (processedOutcome c v row).failed = false) :
    ∃ digest, sha512From (preparedContext (decidedFile c v row)).mdContext
        (v.disk.content.drop (decidedFile c v row).checksumOffset) = some digest ∧
      (processedOutcome c v row).columns =
        if c.rehashLocked && lockChecksumReady (decidedFile c v row) && decide (digest ≠ row.sha512) then none
        else if allowLockedUpdate c (decidedFile c v row) &&
          (hasSavedOffset (decidedFile c v row) || !fileMetadataIdentical (decidedFile c v row)) then
          some (recorded v (some digest)) else none := by
  have hlegible : v.Legible := ⟨hconstant.openable,hconstant.readable⟩
  have hruns : HashRuns c v (decidedFile c v row) := ⟨hconstant.openable,hconstant.seekable _,hperform⟩
  have hdelivered : v.disk.delivered (decidedFile c v row).checksumOffset =
      v.disk.content.drop (decidedFile c v row).checksumOffset := hconstant.delivered _
  cases hdigest : sha512From (preparedContext (decidedFile c v row)).mdContext
      (v.disk.delivered (decidedFile c v row).checksumOffset) with
  | none =>
    rw [hashedRecord_failed hready hlegible hruns hrehash hdigest] at hok
    cases hok
  | some digest =>
    refine ⟨digest,by rw [← hdelivered,hdigest],?_⟩
    rw [hashedRecord_columns hready hlegible hruns hrehash hdigest,hashedRecord_update hknown]

theorem rehashes_of_sealed (hknown : row.relativePathWasInDbBeforeProcessing = true)
    (hlocked : lockChecksumReady (decidedFile c v row) = true)
    (hallowed : allowLockedUpdate c (decidedFile c v row) = true) : c.rehashLocked = true := by
  simp only [lockChecksumReady,Bool.and_eq_true,Bool.not_eq_true',decidedFile_locked] at hlocked
  simpa [allowLockedUpdate,hlocked,hknown] using hallowed

theorem hashed_renews (hready : Ready c v row) (hknown : row.relativePathWasInDbBeforeProcessing = true)
    (hconstant : v.disk.reading.Constant) (hperform : performFileHashing c = true)
    (hrehash : (decidedFile c v row).rehash = true) (hok : (processedOutcome c v row).failed = false) :
    (processedOutcome c v row).columns = some v.found.columns ↔ Renews c v row := by
  have hnonempty : emptyFile (decidedFile c v row) = false := not_empty_of_rehash hrehash
  obtain ⟨digest,hdigest,hcolumns⟩ := rehashed_columns hready hknown hconstant hperform hrehash hok
  obtain ⟨hfresh,hresumes⟩ := digest_cases hdigest
  rw [found_columns c v row,hnonempty,if_neg (by decide),hcolumns]
  constructor
  · intro hwritten
    split at hwritten
    · cases hwritten
    · rename_i hmatches
      split at hwritten
      · rename_i hsaved
        have hown : digest = sha512 v.disk.content := by simpa [recorded] using hwritten
        obtain ⟨hallowed,hdue⟩ := Bool.and_eq_true_iff.mp hsaved
        refine ⟨hready,hallowed,?_,fun hresume => ?_,fun hkept _ => ?_⟩
        · rcases Bool.or_eq_true_iff.mp hdue with hsaved | hdiffers
          · exact .inr ⟨hsaved,hnonempty⟩
          · exact .inl (by simpa using hdiffers)
        · rw [hresumes hresume,hown]
        · have hlocked := hkept.resolve_left (by rw [hrehash]; decide)
          rw [rehashes_of_sealed hknown hlocked hallowed,hlocked] at hmatches
          by_contra hno
          exact hmatches (decide_eq_true fun hsame => hno (hsame.symm.trans hown))
      · cases hwritten
  · intro h
    have hown : digest = sha512 v.disk.content := by
      cases hresume : canResumePartialHash (decidedFile c v row) with
      | true => exact Option.some.inj ((hresumes hresume).symm.trans (h.resumed hresume))
      | false => exact hfresh hresume
    have hmatches : (c.rehashLocked && lockChecksumReady (decidedFile c v row) &&
        decide (digest ≠ row.sha512)) = false := by
      cases hlocked : lockChecksumReady (decidedFile c v row) with
      | true => simp [hown,h.agreed (.inr hlocked) hnonempty]
      | false => simp
    have hdue : (hasSavedOffset (decidedFile c v row) || !fileMetadataIdentical (decidedFile c v row)) = true := by
      rcases h.due with hdiffers | ⟨hsaved,-⟩
      · simp [hdiffers]
      · simp [hsaved]
    rw [hmatches,h.allowed,hdue,hown]
    rfl

/-- The row of a known file that can be read and does not change is right afterwards exactly
when it was right before or is renewed. -/
theorem settledRow_known {columns : FileColumns} (hconstant : v.disk.reading.Constant)
    (hperform : performFileHashing c = true) (hok : (fileOutcome c v (some columns)).failed = false) :
    settledRow c v (some columns) = some v.found.columns ↔
      columns = v.found.columns ∨ Renews c v (storedRow (some columns)) := by
  have hwritten : (fileOutcome c v (some columns)).columns = some v.found.columns ↔
      Renews c v (storedRow (some columns)) := by
    by_cases hready : Ready c v (storedRow (some columns))
    · have houtcome := fileOutcome_ready (patternsMatch_of_goes hok) hready
      rw [houtcome] at hok ⊢
      cases hrehash : (decidedFile c v (storedRow (some columns))).rehash with
      | true => exact hashed_renews hready rfl hconstant hperform hrehash hok
      | false => exact unhashed_renews hready rfl hrehash
    · rw [unready_kept hready]
      exact iff_of_false (fun h => by cases h) fun h => hready h.ready
  rw [settledRow,← hwritten]
  cases hcolumns : (fileOutcome c v (some columns)).columns with
  | none => simp
  | some columns' =>
    have hmoved : columns ≠ v.found.columns := by
      rintro rfl
      have hcurrent : Current v v.found.columns := ⟨rfl,rfl⟩
      rw [hcurrent.kept] at hcolumns
      cases hcolumns
    simp [hmoved]

theorem settledRow_iff {stored : Option FileColumns} (hconstant : v.disk.reading.Constant)
    (haccess : v.access = .accessAllowed) (hperform : performFileHashing c = true)
    (hvisible : (loadedFile c DBrow.zero v.entry.path).ignore = false)
    (hok : (fileOutcome c v stored).failed = false) :
    settledRow c v stored = some v.found.columns ↔ Owned c v stored := by
  cases stored with
  | none =>
    rw [settledRow,fileOutcome_first hconstant haccess hperform hvisible hok]
    exact iff_of_true rfl (.inl rfl)
  | some columns =>
    rw [settledRow_known hconstant hperform hok,Owned]
    simp

theorem written_current {stored : Option FileColumns} {columns : FileColumns} (hconstant : v.disk.reading.Constant)
    (haccess : v.access = .accessAllowed) (hperform : performFileHashing c = true)
    (hvisible : (loadedFile c DBrow.zero v.entry.path).ignore = false)
    (hok : (fileOutcome c v stored).failed = false) (hcolumns : (fileOutcome c v stored).columns = some columns) :
    Current v columns := by
  cases stored with
  | none =>
    rw [fileOutcome_first hconstant haccess hperform hvisible hok] at hcolumns
    cases hcolumns
    exact ⟨rfl,rfl⟩
  | some before =>
    by_cases hready : Ready c v (storedRow (some before))
    · have houtcome := fileOutcome_ready (patternsMatch_of_goes hok) hready
      rw [houtcome] at hok hcolumns
      cases hrehash : (decidedFile c v (storedRow (some before))).rehash with
      | true =>
        obtain ⟨digest,-,hwritten⟩ := rehashed_columns hready rfl hconstant hperform hrehash hok
        rw [hwritten] at hcolumns
        split at hcolumns
        · cases hcolumns
        · split at hcolumns
          · cases hcolumns
            exact recorded_current v _
          · cases hcolumns
      | false =>
        rw [unhashed_columns hready rfl hrehash] at hcolumns
        split at hcolumns
        · cases hcolumns
          exact recorded_current v _
        · cases hcolumns
    · rw [unready_kept hready] at hcolumns
      cases hcolumns

theorem settledOutcome_unwritten {path : RelativePath} {failed : Bool} {file : File}
    (hfailed : (settledOutcome c path failed file).failed = true) : (settledOutcome c path failed file).columns = none := by
  unfold settledOutcome at hfailed ⊢
  dsimp only at hfailed ⊢
  split
  · rfl
  · rename_i hopen
    rw [if_neg hopen] at hfailed
    split
    · rfl
    · rename_i hsaves
      rw [if_neg hsaves] at hfailed
      cases hfailed

/-- A visit that fails writes nothing. -/
theorem fileOutcome_unwritten {stored : Option FileColumns} (hfailed : (fileOutcome c v stored).failed = true) :
    (fileOutcome c v stored).columns = none := by
  by_cases hready : Ready c v (storedRow stored)
  · cases hpatterns : patternsMatch c v.entry.path with
    | false =>
      unfold fileOutcome
      rw [hpatterns]
      rfl
    | true =>
      rw [fileOutcome_ready hpatterns hready] at hfailed ⊢
      unfold processedOutcome at hfailed ⊢
      dsimp only at hfailed ⊢
      rw [if_pos hready.process] at hfailed ⊢
      split at hfailed
      · rename_i hrehash
        rw [if_pos hrehash]
        exact settledOutcome_unwritten hfailed
      · rename_i hrehash
        rw [if_neg hrehash]
        exact settledOutcome_unwritten hfailed
  · exact unready_kept hready

/-- A second visit of the file leaves the row as the first one left it. -/
theorem settledRow_again (stored : Option FileColumns) (hconstant : v.disk.reading.Constant)
    (haccess : v.access = .accessAllowed) (hperform : performFileHashing c = true)
    (hvisible : (loadedFile c DBrow.zero v.entry.path).ignore = false) :
    settledRow c v (settledRow c v stored) = settledRow c v stored := by
  cases hcolumns : (fileOutcome c v stored).columns with
  | none =>
    have hkept : settledRow c v stored = stored := by
      rw [settledRow,hcolumns]
      rfl
    rw [hkept,hkept]
  | some columns =>
    have hok : (fileOutcome c v stored).failed = false := by
      by_contra hfailed
      rw [fileOutcome_unwritten (by simpa using hfailed)] at hcolumns
      cases hcolumns
    have hcurrent := written_current hconstant haccess hperform hvisible hok hcolumns
    have hwritten : settledRow c v stored = some columns := by
      rw [settledRow,hcolumns]
      rfl
    rw [hwritten,settledRow,hcurrent.kept]
    rfl

theorem settledRow_found {v' : Visit} (h : v.found = v'.found) (stored : Option FileColumns) :
    settledRow c v stored = settledRow c v' stored := by
  rw [settledRow,fileOutcome_found h,settledRow]

end Known

end Precizer.Traversal
