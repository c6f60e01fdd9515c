import Precizer.Traversal.MetFiles
import Precizer.Database.SmoothCleanup

/-! # Visits that write nothing

A visit either leaves its row as it is or leaves the metadata of the file in it with nothing
to resume. Met again, neither row is written. Only a reading that breaks off after it has
delivered something can leave a checkpoint behind.
-/
namespace Precizer.Traversal
open General Rational Digest Database

/-- A readable file from which some reading delivers a part before it ends with an error. -/
def TreeEntry.BreaksOff (e : TreeEntry) : Prop :=
  e.access = .accessAllowed ∧ e.reading.openErrno = none ∧
    ∃ start, e.reading.seekable start = true ∧ e.reading.delivered start ≠ [] ∧ e.reading.readErrno start ≠ none

/-- Met with these columns the file is not written, neither at the end nor by a checkpoint. -/
structure Idle (c : Config) (v : Visit) (stored : Option FileColumns) : Prop where
  unsaved : (fileOutcome c v stored).columns = none
  unchecked : Ready c v (storedRow stored) → (decidedFile c v (storedRow stored)).rehash = true →
    lockChecksumReady (decidedFile c v (storedRow stored)) = false →
    HashRuns c v (decidedFile c v (storedRow stored)) →
    v.disk.turns (decidedFile c v (storedRow stored)).checksumOffset = []

section Cut

variable {c : Config} {v v' : Visit} {row : DBrow}

theorem breaksOff_of_cut (h : ¬ Uncut c v row) : v.found.BreaksOff := by
  unfold Uncut at h
  push Not at h
  obtain ⟨hready,-,-,hruns,hreading,hturns⟩ := h
  refine ⟨hready.readable,hruns.openable,_,hruns.seekable,?_,hreading⟩
  intro hnothing
  exact hturns (DiskFile.turns_eq_nil_iff.mpr hnothing)

theorem Uncut.found (h : v.found = v'.found) (huncut : Uncut c v row) : Uncut c v' row := by
  have hreading : v.disk.reading = v'.disk.reading := congrArg TreeEntry.reading h
  have hopen : v.disk.openErrno = v'.disk.openErrno := congrArg Reading.openErrno hreading
  have hseek : v.disk.seekable = v'.disk.seekable := congrArg Reading.seekable hreading
  have hdelivered : v.disk.delivered = v'.disk.delivered := congrArg Reading.delivered hreading
  have herrno : v.disk.readErrno = v'.disk.readErrno := congrArg Reading.readErrno hreading
  have hdecided := decidedFile_found (c := c) h row
  intro hready hrehash hfree hruns
  have hready := hready.found h.symm
  rw [← hdecided] at hrehash hfree hruns ⊢
  rcases huncut hready hrehash hfree ⟨hopen.trans hruns.openable,by rw [hseek]; exact hruns.seekable,hruns.performed⟩
    with hreadable | hnothing
  · left
    rw [← herrno]
    exact hreadable
  · right
    rw [DiskFile.turns_eq_nil_iff] at hnothing ⊢
    rw [← hdelivered]
    exact hnothing

end Cut

section Outcome

variable {c : Config} {v : Visit} {stored : Option FileColumns} {columns : FileColumns}

/-- Only a file that is let through is written. -/
theorem ready_of_columns (h : (fileOutcome c v stored).columns = some columns) :
    Ready c v (storedRow stored) ∧ fileOutcome c v stored = processedOutcome c v (storedRow stored) := by
  have houtcome := h
  unfold fileOutcome at houtcome ⊢
  dsimp only at houtcome ⊢
  split
  · rename_i hpatterns
    rw [if_pos hpatterns] at houtcome
    cases houtcome
  · rename_i hpatterns
    rw [if_neg hpatterns] at houtcome
    split
    · rename_i hunavailable
      rw [if_pos hunavailable] at houtcome
      cases houtcome
    · rename_i havailable
      rw [if_neg havailable] at houtcome
      split
      · rename_i hleft
        rw [if_pos hleft] at houtcome
        cases houtcome
      · rename_i hchanged
        rw [if_neg hchanged] at houtcome
        obtain ⟨hchanged,hwatched⟩ := Bool.or_eq_false_iff.mp (by simpa using hchanged)
        refine ⟨⟨?_,hchanged,hwatched⟩,rfl⟩
        by_contra hno
        have hno : shouldProcess (decidedFile c v (storedRow stored)) = false := by simpa using hno
        unfold processedOutcome at houtcome
        dsimp only at houtcome
        rw [hno,if_neg (by decide),unprocessed_columns hno] at houtcome
        cases houtcome

theorem hashPass_offset (file : File) :
    (hashPass c v file).1.checksumOffset = file.checksumOffset ∨ (hashPass c v file).1.checksumOffset = 0 := by
  have hread : (readRecord v file).checksumOffset = file.checksumOffset := by
    unfold readRecord
    cases v.disk.readErrno file.checksumOffset <;> rfl
  have hprepared : (preparedContext file).checksumOffset = file.checksumOffset := by
    unfold preparedContext
    split <;> rfl
  unfold hashPass
  cases v.disk.openErrno with
  | some errno => exact .inl rfl
  | none =>
    dsimp only
    split
    · split
      · cases sha512From (preparedContext file).mdContext (v.disk.delivered file.checksumOffset) with
        | some digest => exact .inr rfl
        | none =>
          dsimp only
          split
          · exact .inl hread
          · exact .inl rfl
      · exact .inl hprepared
    · exact .inl rfl

theorem update_restarted {row : DBrow} {file : File} (hframe : file.frame = (decidedFile c v row).frame)
    (hoffset : file.checksumOffset = (decidedFile c v row).checksumOffset ∨ file.checksumOffset = 0)
    (hupdate : shouldUpdateDb c file = true) : file.checksumOffset = 0 := by
  rcases hoffset with hsame | hzero
  · rcases decidedFile_start c v row with ⟨hresume,hstart,-⟩ | ⟨-,hstart⟩
    · have hsaved : file.db.savedOffset = row.savedOffset := by
        have hframed := frame_congr (fun f => f.db.savedOffset) (fun _ => rfl) hframe
        rw [hframed,decidedFile_db]
      have hresumed : canResumePartialHash file = true :=
        (frame_congr canResumePartialHash (fun _ => rfl) hframe).trans hresume
      have hknown : file.db.relativePathWasInDbBeforeProcessing = true := by
        have hframed := frame_congr (fun f => f.db.relativePathWasInDbBeforeProcessing) (fun _ => rfl) hframe
        rw [hframed,decidedFile_db]
        simp only [canResumePartialHash,Bool.and_eq_true] at hresume
        exact known_of_identical hresume.2
      simp only [canResumePartialHash,Bool.and_eq_true] at hresumed
      have hoffset : file.checksumOffset = file.db.savedOffset := hsame.trans (hstart.trans hsaved.symm)
      have hpositive : 0 < file.db.savedOffset := by simpa [hasSavedOffset] using hresumed.1
      simp only [shouldUpdateDb,hknown,hresumed.2,hoffset,Bool.and_eq_true,Bool.or_eq_true,Bool.not_true,
        Bool.false_eq_true,decide_eq_true_eq,lt_irrefl,false_or,or_false] at hupdate
      exact hoffset.trans hupdate.2.2
    · exact hsame.trans hstart
  · exact hzero

theorem settledOutcome_columns {path : RelativePath} {failed : Bool} {file : File}
    (h : (settledOutcome c path failed file).columns = some columns) :
    columns = boundColumns (comparedRecord c failed file) ∧ shouldUpdateDb c (comparedRecord c failed file) = true := by
  unfold settledOutcome at h
  dsimp only at h
  split at h
  · cases h
  · split at h
    · cases h
    · rename_i hupdate
      exact ⟨(Option.some.inj h).symm,by simpa using hupdate⟩

theorem comparedRecord_frame (failed : Bool) (file : File) :
    shouldUpdateDb c (comparedRecord c failed file) = shouldUpdateDb c file ∧
      (comparedRecord c failed file).checksumOffset = file.checksumOffset ∧
      (comparedRecord c failed file).stat = file.stat := by
  unfold comparedRecord
  split <;> exact ⟨rfl,rfl,rfl⟩

/-- What a visit writes has the metadata of the file and nothing to resume. -/
theorem fileOutcome_current (h : (fileOutcome c v stored).columns = some columns) : Current v columns := by
  obtain ⟨hready,houtcome⟩ := ready_of_columns h
  rw [houtcome] at h
  have hsettled : ∃ failed file, (settledOutcome c v.entry.path failed file).columns = some columns ∧
      file.frame = (decidedFile c v (storedRow stored)).frame ∧
      (file.checksumOffset = (decidedFile c v (storedRow stored)).checksumOffset ∨ file.checksumOffset = 0) := by
    unfold processedOutcome at h
    dsimp only at h
    rw [if_pos hready.process] at h
    split at h
    · exact ⟨_,_,h,(hashPass_frame _).1,hashPass_offset _⟩
    · exact ⟨_,_,h,rfl,.inl rfl⟩
  obtain ⟨failed,file,hsettled,hframe,hoffset⟩ := hsettled
  obtain ⟨rfl,hupdate⟩ := settledOutcome_columns hsettled
  obtain ⟨hcompared,hsameOffset,hsameStat⟩ := comparedRecord_frame (c := c) failed file
  have hzero : (comparedRecord c failed file).checksumOffset = 0 :=
    hsameOffset.trans (update_restarted hframe hoffset (hcompared.symm.trans hupdate))
  have hstat : (comparedRecord c failed file).stat = statCopy v.entry.statp :=
    hsameStat.trans (frame_congr File.stat (fun _ => rfl) hframe)
  refine ⟨?_,?_⟩
  · simp [boundColumns,hzero]
  · simp [boundColumns,hstat]

theorem idle_current (h : Current v columns) : Idle c v (some columns) where
  unsaved := h.kept
  unchecked := by
    intro hready _ hfree _
    have hleft := hready.changed
    rw [leavesUnchanged,h.unchanged,hfree,Bool.and_false] at hleft
    cases hleft

theorem idle_unready (h : ¬ Ready c v (storedRow stored)) : Idle c v stored where
  unsaved := by
    cases hcolumns : (fileOutcome c v stored).columns with
    | none => rfl
    | some columns => exact absurd (ready_of_columns hcolumns).1 h
  unchecked := fun hready => absurd hready h

/-- What a visit has left as it was, the next one leaves as well. -/
theorem idle_again (hok : (fileOutcome c v stored).failed = false)
    (hnone : (fileOutcome c v stored).columns = none) (huncut : Uncut c v (storedRow stored)) : Idle c v stored where
  unsaved := hnone
  unchecked := by
    intro hready hrehash hfree hruns
    rcases huncut hready hrehash hfree hruns with hreadable | hnothing
    · have houtcome := fileOutcome_ready (patternsMatch_of_goes hok) hready
      rw [houtcome] at hok hnone
      unfold processedOutcome at hok hnone
      dsimp only at hok hnone
      rw [if_pos hready.process,if_pos hrehash] at hok hnone
      rw [settledOutcome_failed] at hok
      rw [hok] at hnone
      have hsealed := sealed_of_unsaved hready hreadable hruns hok hnone
      rw [hfree] at hsealed
      cases hsealed
    · exact hnothing

theorem unready_of_dropped {access : RelativePath → FileAccessStatus} (haccess : access v.entry.path = v.access)
    (h : droppedPath c access v.entry.path = true) (row : DBrow) : ¬ Ready c v row := by
  intro hready
  obtain ⟨hignored,hunlocked⟩ := dropped_accessible (haccess.trans hready.readable) h
  have hvisible := hready.visible hunlocked
  rw [hignored] at hvisible
  cases hvisible

theorem settledOutcome_violation {path : RelativePath} {failed : Bool} {file : File}
    (h : (settledOutcome c path failed file).violation = true) :
    (settledOutcome c path failed file).columns = none ∧ violatingRecord (comparedRecord c failed file) = true := by
  unfold settledOutcome at h ⊢
  dsimp only at h ⊢
  split at h
  · rename_i hblocked
    rw [if_pos hblocked]
    exact ⟨rfl,h⟩
  · split at h
    · cases h
    · cases h

theorem sealed_of_violating {row : DBrow} {failed : Bool} {file : File}
    (hframe : file.frame = (decidedFile c v row).frame)
    (h : violatingRecord (comparedRecord c failed file) = true) : lockChecksumReady (decidedFile c v row) = true := by
  rw [← frame_congr lockChecksumReady (fun _ => rfl) hframe]
  unfold comparedRecord at h
  split at h
  · rename_i hmismatch
    simp only [checksumMismatch,Bool.and_eq_true] at hmismatch
    tauto
  · have hviolation : file.lockChecksumViolation = lockViolation c (decidedFile c v row) :=
      frame_congr File.lockChecksumViolation (fun _ => rfl) hframe
    have hmatched : file.lockedChecksumMismatch = false :=
      (frame_congr File.lockedChecksumMismatch (fun _ => rfl) hframe).trans (decidedFile_mismatch c v row)
    rw [frame_congr lockChecksumReady (fun _ => rfl) hframe]
    simp only [violatingRecord,hviolation,hmatched,lockViolation,Bool.or_false,Bool.and_eq_true] at h
    exact h.1.1

theorem violation_kept (h : (fileOutcome c v stored).violation = true) :
    (fileOutcome c v stored).columns = none ∧ Uncut c v (storedRow stored) := by
  unfold fileOutcome at h ⊢
  dsimp only at h ⊢
  split at h
  · cases h
  · rename_i hpatterns
    rw [if_neg hpatterns]
    split at h
    · rename_i hunavailable
      rw [if_pos hunavailable]
      refine ⟨rfl,fun hready => ?_⟩
      simp [unavailableLocked,hready.readable] at hunavailable
    · rename_i havailable
      rw [if_neg havailable]
      split at h
      · cases h
      · rename_i hchanged
        rw [if_neg hchanged]
        have hsettled : ∃ failed file, processedOutcome c v (storedRow stored) =
            settledOutcome c v.entry.path failed file ∧ file.frame = (decidedFile c v (storedRow stored)).frame := by
          unfold processedOutcome
          dsimp only
          split
          · split
            · exact ⟨_,_,rfl,(hashPass_frame _).1⟩
            · exact ⟨_,_,rfl,rfl⟩
          · exact ⟨_,_,rfl,rfl⟩
        obtain ⟨failed,file,houtcome,hframe⟩ := hsettled
        rw [houtcome] at h ⊢
        obtain ⟨hnone,hviolating⟩ := settledOutcome_violation h
        refine ⟨hnone,fun _ _ hfree => ?_⟩
        rw [sealed_of_violating hframe hviolating] at hfree
        cases hfree

end Outcome

section Events

variable {c : Config} {v : Visit} {p : Pass}

/-- A file whose row needs nothing is processed without a statement that writes it. -/
theorem adds_processFile_idle (hmet : MetSmooth c (v,p)) (h : Idle c v (contents p.session.table v.entry.path)) :
    Adds Event.Harmless p.session (processFile c v p).session := by
  obtain ⟨i,hrow⟩ : ∃ i, p.row v = { storedRow (contents p.session.table v.entry.path) with ID := i } :=
    readRow_stored p.session.table v.entry.path
  have hdecided : decidedFile c v (p.row v) =
      (decidedFile c v (storedRow (contents p.session.table v.entry.path))).withID i := by
    rw [hrow,decidedFile_withID]
  refine adds_processFile_unsaved hmet.smooth hmet.status hmet.synced ?_ h.unsaved
  refine ⟨fun e he => harmless_of_bookkeeping he,fun _ _ => ⟨fun _ _ => trivial,fun _ _ _ _ => trivial⟩,?_⟩
  intro hready hrehash hfree hruns hturns
  rw [hrow] at hready
  rw [hdecided] at hrehash hfree hruns hturns
  exact absurd (h.unchecked hready.withoutID hrehash hfree ⟨hruns.openable,hruns.seekable,hruns.performed⟩) hturns

end Events

end Precizer.Traversal
