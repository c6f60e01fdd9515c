import Precizer.Traversal.SmoothVisit

/-! # An undisturbed visit of a regular file

The record decided for a file depends on the columns stored for its path; the identifier of
the row only finds its way back into the save. Settling such a record has the outcome its
pure counterpart computes.
-/
namespace Precizer.Traversal
open General Rational Digest Database

def File.withID (i : ℕ) (f : File) : File := { f with db := { f.db with ID := i } }

/-- What is known of a pass that has settled a record with the given outcome. -/
structure Settled (c : Config) (path : RelativePath) (o : VisitOutcome) (p : Pass) (s : Session) (p' : Pass) :
    Prop where
  synced : Synced p'.session
  reports : p'.session.reports = s.reports ++ o.reports
  violation : p'.lockChecksumViolationDetected = (p.lockChecksumViolationDetected || o.violation)
  skipBelow : p'.skipBelow = p.skipBelow
  interrupted : p'.interrupted = p.interrupted
  halted : p'.halted = p.halted
  goes : o.failed = false → p'.status = successStatus ∧ p'.continueTheLoop = p.continueTheLoop
  stops : o.failed = true → p'.status = failureStatus ∧ p'.continueTheLoop = false
  others : ∀ k, k ≠ path → contents p'.session.table k = contents s.table k
  grows : Grows path s.table p'.session.table
  dry : c.dryRun = true → p'.session.table = s.table
  written : c.dryRun = false → ∀ columns, o.columns = some columns →
    contents p'.session.table path = some columns
  unwritten : o.columns = none → p'.session.table = s.table

section Alike

variable {c : Config} {f f' : File}

theorem comparedRecord_alike (failed : Bool) (h : f.Alike f') :
    (comparedRecord c failed f).Alike (comparedRecord c failed f') := by
  have hprocess : shouldProcess f' = shouldProcess f := shown_congr shouldProcess (fun _ => rfl) h.shown
  have hmismatch : checksumMismatch c successStatus failed f' = checksumMismatch c successStatus failed f := by
    have hsha : f'.db.sha512 = f.db.sha512 := shown_congr (fun f => f.db.sha512) (fun _ => rfl) h.shown
    have hrest := shown_congr (fun f : File => !failed && !f.readError && c.rehashLocked && lockChecksumReady f &&
      f.rehash && successStatus.triumph && !f.wrongFileType && !f.zeroSizeFile) (fun _ => rfl) h.shown
    unfold checksumMismatch
    rw [h.offset,h.sha512,hsha]
    rw [hrest]
  unfold comparedRecord
  rw [hprocess,hmismatch]
  split
  · have hwith (f : File) : ({ f with lockedChecksumMismatch := true } : File).shown =
        { f.shown with lockedChecksumMismatch := true } := rfl
    exact ⟨by rw [hwith,hwith,h.shown],h.offset,h.sha512,h.context⟩
  · exact h

theorem comparedRecord_failed (f : File) : comparedRecord c true f = f := by
  unfold comparedRecord
  rw [if_neg (by simp [checksumMismatch])]

theorem showFile_shown (hf : f.hashInterrupted = false) (h : f'.shown = f.shown) : showFile c f' = showFile c f := by
  have hf' : f'.hashInterrupted = f.hashInterrupted := shown_congr File.hashInterrupted (fun _ => rfl) h
  unfold showFile
  rw [hf',hf]
  simp only [Bool.false_eq_true,↓reduceIte]
  rw [shown_congr (mainLabel c) (fun _ => rfl) h]

theorem shouldUpdateDb_alike (h : f.Alike f') : shouldUpdateDb c f' = shouldUpdateDb c f := by
  have hallow : allowLockedUpdate c f' = allowLockedUpdate c f :=
    shown_congr (allowLockedUpdate c) (fun _ => rfl) h.shown
  have hknown : f'.db.relativePathWasInDbBeforeProcessing = f.db.relativePathWasInDbBeforeProcessing :=
    shown_congr (fun f => f.db.relativePathWasInDbBeforeProcessing) (fun _ => rfl) h.shown
  have hsaved : f'.db.savedOffset = f.db.savedOffset := shown_congr (fun f => f.db.savedOffset) (fun _ => rfl) h.shown
  have hidentical : fileMetadataIdentical f' = fileMetadataIdentical f :=
    shown_congr fileMetadataIdentical (fun _ => rfl) h.shown
  unfold shouldUpdateDb hasSavedOffset
  rw [hallow,hknown,hsaved,hidentical,h.offset]

theorem boundColumns_alike (h : f.Alike f') : boundColumns f' = boundColumns f := by
  have hzero : f'.zeroSizeFile = f.zeroSizeFile := shown_congr File.zeroSizeFile (fun _ => rfl) h.shown
  have htype : f'.wrongFileType = f.wrongFileType := shown_congr File.wrongFileType (fun _ => rfl) h.shown
  have hstat : f'.stat = f.stat := shown_congr File.stat (fun _ => rfl) h.shown
  unfold boundColumns
  rw [h.offset,h.sha512,hzero,htype,hstat]
  by_cases hoffset : f.checksumOffset = 0
  · simp only [hoffset,↓reduceIte]
  · simp only [hoffset,↓reduceIte,h.context hoffset]

theorem markVisible_alike (h : f.Alike f') : (markVisible true f').shown = (markVisible true f).shown := by
  have hknown : f'.db.relativePathWasInDbBeforeProcessing = f.db.relativePathWasInDbBeforeProcessing :=
    shown_congr (fun f => f.db.relativePathWasInDbBeforeProcessing) (fun _ => rfl) h.shown
  have hupdated (f : File) : ({ f with dbRecordUpdated := true } : File).shown =
      { f.shown with dbRecordUpdated := true } := rfl
  have hinserted (f : File) : ({ f with newDbRecordInserted := true } : File).shown =
      { f.shown with newDbRecordInserted := true } := rfl
  unfold markVisible
  rw [hknown]
  simp only [↓reduceIte]
  split
  · rw [hupdated,hupdated,h.shown]
  · rw [hinserted,hinserted,h.shown]

end Alike

section Settle

variable {c : Config} {v : Visit} {p : Pass} {s : Session}

theorem showStage_smooth (hv : v.Smooth) (hs : Synced s) (file : File) :
    Synced (showStage c v file s) ∧ (showStage c v file s).table = s.table ∧
      (showStage c v file s).reports = s.reports ++ (showFile c file).map (.file v.entry.path) := by
  have hfold : ∀ (labels : List FileLabel) (s : Session), Synced s →
      let s' := labels.foldl (fun s label => s.report (.file v.entry.path label)) s
      Synced s' ∧ s'.table = s.table ∧ s'.reports = s.reports ++ labels.map (.file v.entry.path) := by
    intro labels
    induction labels with
    | nil => exact fun s hs => ⟨hs,rfl,(List.append_nil _).symm⟩
    | cons label rest ih =>
      intro s hs
      obtain ⟨hsynced,htable,hreports⟩ := ih (s.report (.file v.entry.path label)) hs
      refine ⟨hsynced,htable,?_⟩
      rw [List.foldl_cons,hreports,Session.report_reports,List.append_assoc]
      rfl
  unfold showStage
  rw [Session.sideWrite_of_ne hv.remember]
  exact hfold _ s hs

/-- What the hash stage hands over, beside the record of its pure counterpart. -/
structure StageReady (c : Config) (path : RelativePath) (failed : Bool) (file : File) (st : HashStage) : Prop where
  synced : Synced st.session
  hashFailed : st.hashFailed = failed
  shown : st.file.shown = file.shown
  plain : file.hashInterrupted = false
  failing : failed = true → st.status = failureStatus
  succeeding : failed = false → st.status = successStatus ∧ file.Alike st.file ∧
    (c.dryRun = false → Linked path st.file st.pathKnown st.session.table)
  known : st.file.db.relativePathWasInDbBeforeProcessing = true → st.pathKnown = true

/-- The comparison of a locked record with its row goes on beside that of its pure counterpart. -/
theorem StageReady.compared {path : RelativePath} {file : File} {st : HashStage} (h : StageReady c path false file st) :
    StageReady c path false (comparedRecord c false file) (st.compared c) := by
  obtain ⟨hstatus,halike,hlink⟩ := h.succeeding rfl
  obtain ⟨status,session,decided,pathKnown,hashFailed⟩ := st
  obtain rfl : status = successStatus := hstatus
  obtain rfl : hashFailed = false := h.hashFailed
  have hcompared : HashStage.compared c ⟨successStatus,session,decided,pathKnown,false⟩ =
      ⟨successStatus,session,comparedRecord c false decided,pathKnown,false⟩ := by
    unfold HashStage.compared comparedRecord
    dsimp only
    split <;> rfl
  have hboth := comparedRecord_alike (c := c) false halike
  have hplain : (comparedRecord c false file).hashInterrupted = false := by
    unfold comparedRecord
    split <;> exact h.plain
  have hid : (comparedRecord c false decided).db.ID = decided.db.ID := by
    unfold comparedRecord
    split <;> rfl
  have hknown : (comparedRecord c false decided).db.relativePathWasInDbBeforeProcessing = true →
      pathKnown = true := by
    intro hk
    apply h.known
    rw [← hk]
    unfold comparedRecord
    split <;> rfl
  rw [hcompared]
  exact ⟨h.synced,rfl,hboth.shown,hplain,(fun hno => by cases hno),
    fun _ => ⟨rfl,hboth,fun hdry => linked_transfer (hlink hdry) hid rfl rfl⟩,hknown⟩

/-- The printed lines of a session that is otherwise settled. -/
theorem showStage_ready (hv : v.Smooth) {failed : Bool} {file : File} {st : HashStage}
    (h : StageReady c v.entry.path failed file st) (replay : Bool) :
    Synced (showStage c v st.file (if replay then st.session.requestReplay else st.session)) ∧
      (showStage c v st.file (if replay then st.session.requestReplay else st.session)).table = st.session.table ∧
      (showStage c v st.file (if replay then st.session.requestReplay else st.session)).reports =
        st.session.reports ++ (showFile c file).map (.file v.entry.path) := by
  have hsession : ∀ s', s' = (if replay then st.session.requestReplay else st.session) →
      Synced s' ∧ s'.table = st.session.table ∧ s'.reports = st.session.reports := by
    rintro s' rfl
    split
    · exact ⟨h.synced,rfl,rfl⟩
    · exact ⟨h.synced,rfl,rfl⟩
  obtain ⟨hs,htable,hreports⟩ := hsession _ rfl
  obtain ⟨hsynced,hshownTable,hshownReports⟩ := showStage_smooth (c := c) hv hs st.file
  rw [hreports,showFile_shown h.plain h.shown] at hshownReports
  exact ⟨hsynced,hshownTable.trans htable,hshownReports⟩

theorem settleFile_blocked (hv : v.Smooth) {failed : Bool} {file : File} {st : HashStage}
    (h : StageReady c v.entry.path failed file st) (hblock : blockedRecord failed file = true) :
    Settled c v.entry.path
      { reports := (showFile c file).map (.file v.entry.path), violation := violatingRecord file, failed := failed }
      p st.session (settleFile c v p st) := by
  have hblocked : st.blocked = true := by
    have hsame : st.blocked = blockedRecord st.hashFailed file :=
      shown_congr (blockedRecord st.hashFailed) (fun _ => rfl) h.shown
    rw [hsame,h.hashFailed]
    exact hblock
  have hviolation : st.violation = violatingRecord file := shown_congr violatingRecord (fun _ => rfl) h.shown
  obtain ⟨hsynced,htable,hreports⟩ := showStage_ready hv h (violatingRecord file)
  unfold settleFile
  dsimp only
  rw [if_pos hblocked,h.hashFailed,hviolation]
  refine ⟨hsynced,hreports,rfl,rfl,rfl,rfl,fun hgoes => ⟨(h.succeeding hgoes).1,?_⟩,
    fun hstops => ⟨h.failing hstops,?_⟩,?_,.inl ?_,?_,(fun _ columns hno => by cases hno),?_⟩
  · rw [show failed = false from hgoes]
    exact Bool.and_true _
  · rw [show failed = true from hstops]
    exact Bool.and_false _
  · exact fun k _ => congrArg (contents · k) htable
  · exact congrArg UniqueTable.keys htable
  · exact fun _ => htable
  · exact fun _ => htable

/-- Settling a failed record prints its line and stops the pass. -/
theorem settleFile_failed (hv : v.Smooth) {file : File} {st : HashStage}
    (h : StageReady c v.entry.path true file st) :
    Settled c v.entry.path (settledOutcome c v.entry.path true file) p st.session (settleFile c v p (st.compared c)) := by
  have hcompared : st.compared c = st := by
    unfold HashStage.compared
    rw [if_neg (by simp [checksumMismatch,h.hashFailed])]
  have hblock : blockedRecord true file = true := by simp [blockedRecord]
  unfold settledOutcome
  rw [comparedRecord_failed]
  dsimp only
  rw [if_pos hblock,hcompared]
  exact settleFile_blocked hv h hblock

theorem unknown_update {file : File} (h : file.db.relativePathWasInDbBeforeProcessing = false) :
    shouldUpdateDb c file = true := by
  simp [shouldUpdateDb,allowLockedUpdate,h]

theorem saved_shown {file : File} {pathKnown : Bool} (hs : Synced s) (hv : v.Smooth)
    (hlink : c.dryRun = false → Linked v.entry.path file pathKnown s.table) :
    (dbSaveFileRecord c false v.save v.entry.path file pathKnown true s).file.shown =
      (markVisible true file).shown := by
  have hwith (i : ℕ) : (markVisible true (file.withID i)).shown = (markVisible true file).shown := by
    unfold markVisible File.withID
    simp only [↓reduceIte]
    split <;> rfl
  cases hdry : c.dryRun with
  | true => rw [save_dryRun hdry]; rfl
  | false =>
    have hok : (dbSaveFileRecord c false v.save v.entry.path file pathKnown true s).status.success = true := by
      rw [(save_works true hs hv.save hlink).1]
      rfl
    rw [(save_success hdry rfl hok).2.2]
    exact hwith _

section Open

variable {file : File} {st : HashStage} (hv : v.Smooth) (h : StageReady c v.entry.path false file st)
  (hopen : blockedRecord false file = false)
include hv h hopen

theorem settleFile_open : settleFile c v p st =
    if st.pathKnown && !shouldUpdateDb c file then p.next successStatus (showStage c v st.file st.session)
    else if (dbSaveFileRecord c false v.save v.entry.path st.file st.pathKnown true st.session).status.success then
      p.next (dbSaveFileRecord c false v.save v.entry.path st.file st.pathKnown true st.session).status
        (showStage c v (dbSaveFileRecord c false v.save v.entry.path st.file st.pathKnown true st.session).file
          (dbSaveFileRecord c false v.save v.entry.path st.file st.pathKnown true st.session).session)
    else p.stop (dbSaveFileRecord c false v.save v.entry.path st.file st.pathKnown true st.session).status
      (dbSaveFileRecord c false v.save v.entry.path st.file st.pathKnown true st.session).session := by
  obtain ⟨hstatus,halike,-⟩ := h.succeeding rfl
  have hblocked : st.blocked = false := by
    have hsame : st.blocked = blockedRecord st.hashFailed file :=
      shown_congr (blockedRecord st.hashFailed) (fun _ => rfl) h.shown
    rw [hsame,h.hashFailed]
    exact hopen
  have hgoes : ({ p with continueTheLoop := p.continueTheLoop && !st.hashFailed } : Pass) = p := by
    rw [h.hashFailed,Bool.not_false,Bool.and_true]
  unfold settleFile
  dsimp only
  rw [hgoes,if_neg (by rw [hblocked]; decide),shouldUpdateDb_alike halike,hstatus,Signal.halted_none hv.quiet]
  simp only [show successStatus.success = true from rfl,Bool.not_true,Bool.or_false]

/-- A record that needs no save is only printed. -/
theorem settleFile_unsaved (hneeded : shouldUpdateDb c file = false) :
    Settled c v.entry.path { reports := (showFile c file).map (.file v.entry.path) } p st.session
      (settleFile c v p st) := by
  obtain ⟨-,halike,-⟩ := h.succeeding rfl
  have hpathKnown : st.pathKnown = true := by
    cases hk : st.file.db.relativePathWasInDbBeforeProcessing with
    | true => exact h.known hk
    | false =>
      have hupdate := shouldUpdateDb_alike (c := c) halike
      rw [unknown_update (c := c) hk,hneeded] at hupdate
      cases hupdate
  obtain ⟨hsynced,htable,hreports⟩ := showStage_ready hv h false
  rw [settleFile_open hv h hopen,hpathKnown,hneeded]
  refine ⟨hsynced,hreports,(Bool.or_false _).symm,rfl,rfl,rfl,fun _ => ⟨rfl,rfl⟩,(fun hno => by cases hno),?_,
    .inl ?_,?_,(fun _ columns hno => by cases hno),?_⟩
  · exact fun k _ => congrArg (contents · k) htable
  · exact congrArg UniqueTable.keys htable
  · exact fun _ => htable
  · exact fun _ => htable

/-- A record that needs its save is written and printed. -/
theorem settleFile_saved (hneeded : shouldUpdateDb c file = true) :
    Settled c v.entry.path
      { columns := some (boundColumns file), reports := (showFile c (markVisible true file)).map (.file v.entry.path) }
      p st.session (settleFile c v p st) := by
  obtain ⟨-,halike,hlink⟩ := h.succeeding rfl
  obtain ⟨hsaved,hsyncedSaved,hreportsSaved⟩ := save_works true h.synced hv.save hlink
  have hshown := (saved_shown h.synced hv hlink).trans (markVisible_alike halike)
  have hplainMarked : (markVisible true file).hashInterrupted = false := by
    unfold markVisible
    repeat' split
    all_goals exact h.plain
  have hdryTable : c.dryRun = true → (dbSaveFileRecord c false v.save v.entry.path st.file st.pathKnown true
      st.session).session.table = st.session.table := by
    intro hdry
    rw [save_dryRun hdry]
  have hsavedTable : c.dryRun = false → SavedTable v.entry.path st.file st.pathKnown st.session.table
      (dbSaveFileRecord c false v.save v.entry.path st.file st.pathKnown true st.session).session.table := by
    intro hdry
    exact (save_success hdry rfl (by rw [hsaved]; rfl)).1
  rw [settleFile_open hv h hopen,hneeded,Bool.not_true,Bool.and_false,if_neg (by decide)]
  generalize dbSaveFileRecord c false v.save v.entry.path st.file st.pathKnown true st.session = r at *
  obtain ⟨hsynced,hshownTable,hshownReports⟩ := showStage_smooth (c := c) hv hsyncedSaved r.file
  rw [hsaved,if_pos (show successStatus.success = true from rfl)]
  refine ⟨hsynced,?_,(Bool.or_false _).symm,rfl,rfl,rfl,fun _ => ⟨rfl,rfl⟩,(fun hno => by cases hno),?_,?_,?_,
    ?_,(fun hno => by cases hno)⟩
  · exact hshownReports.trans (by rw [hreportsSaved,showFile_shown hplainMarked hshown])
  · intro k hk
    rw [Pass.next,hshownTable]
    cases hdry : c.dryRun with
    | true => rw [hdryTable hdry]
    | false => exact (contents_saved (hlink hdry) (hsavedTable hdry)).2 k hk
  · rw [Pass.next,hshownTable]
    cases hdry : c.dryRun with
    | true => exact .inl (by rw [hdryTable hdry])
    | false => exact grows_saved (hsavedTable hdry)
  · exact fun hdry => hshownTable.trans (hdryTable hdry)
  · intro hdry columns hcolumns
    rw [Pass.next,hshownTable,(contents_saved (hlink hdry) (hsavedTable hdry)).1,boundColumns_alike halike]
    exact hcolumns

end Open

theorem settleFile_settled (hv : v.Smooth) {file : File} {st : HashStage}
    (h : StageReady c v.entry.path false file st) :
    Settled c v.entry.path (settledOutcome c v.entry.path false file) p st.session
      (settleFile c v p (st.compared c)) := by
  have hsession : (st.compared c).session = st.session := by
    unfold HashStage.compared
    split <;> rfl
  rw [← hsession]
  unfold settledOutcome
  dsimp only
  cases hblock : blockedRecord false (comparedRecord c false file) with
  | true => exact settleFile_blocked hv h.compared hblock
  | false =>
    cases hneeded : shouldUpdateDb c (comparedRecord c false file) with
    | false => exact settleFile_unsaved hv h.compared hblock hneeded
    | true => exact settleFile_saved hv h.compared hblock hneeded

end Settle

/-- The file can be opened and every reading of it goes on to its end. -/
structure Visit.Legible (v : Visit) : Prop where
  openable : v.disk.openErrno = none
  readable : ∀ start, v.disk.readErrno start = none

/-- When the row leaves checkpoints to a hash pass, no error cuts the reading off after it has
delivered something. -/
def Uncut (c : Config) (v : Visit) (row : DBrow) : Prop :=
  Ready c v row → (decidedFile c v row).rehash = true → lockChecksumReady (decidedFile c v row) = false →
    HashRuns c v (decidedFile c v row) → v.disk.readErrno (decidedFile c v row).checksumOffset = none ∨
      v.disk.turns (decidedFile c v row).checksumOffset = []

theorem Visit.Legible.uncut {v : Visit} (h : v.Legible) (c : Config) (row : DBrow) : Uncut c v row :=
  fun _ _ _ _ => .inl (h.readable _)

structure VisitSettled (c : Config) (v : Visit) (o : VisitOutcome) (p p' : Pass) : Prop where
  synced : Synced p'.session
  reports : p'.session.reports = p.session.reports ++ o.reports
  violation : p'.lockChecksumViolationDetected = (p.lockChecksumViolationDetected || o.violation)
  skipBelow : p.skipBelow = none → p'.skipBelow = o.skipBelow
  interrupted : p'.interrupted = p.interrupted
  halted : p'.halted = p.halted
  goes : o.failed = false → p'.status = successStatus ∧ p'.continueTheLoop = p.continueTheLoop
  stops : o.failed = true → p'.status = failureStatus ∧ p'.continueTheLoop = false
  others : ∀ k, k ≠ v.entry.path → contents p'.session.table k = contents p.session.table k
  grows : Grows v.entry.path p.session.table p'.session.table
  grown : p'.session.table.keys ≠ p.session.table.keys →
    v.entry.info = .file ∧ patternsMatch c v.entry.path = true ∧ Ready c v (p.row v)
  dry : c.dryRun = true → p'.session.table = p.session.table
  written : c.dryRun = false → ∀ columns, o.columns = some columns →
    contents p'.session.table v.entry.path = some columns
  unwritten : o.columns = none → o.failed = false →
    (v.entry.info = .file → Uncut c v (storedRow (contents p.session.table v.entry.path))) →
    p'.session.table = p.session.table

section Row

variable {c : Config} {v : Visit}

theorem readRow_stored (t : FilesTable) (path : RelativePath) :
    ∃ i, readRow t path = { storedRow (contents t path) with ID := i } := by
  unfold contents
  cases hfind : t.find path with
  | none => exact ⟨0,readRow_none hfind⟩
  | some e => exact ⟨e.ident,readRow_some hfind⟩

theorem decidedFile_withID (row : DBrow) (i : ℕ) :
    decidedFile c v { row with ID := i } = (decidedFile c v row).withID i := by
  have hignore : (loadedFile c { row with ID := i } v.entry.path).ignore =
      (loadedFile c row v.entry.path).ignore := rfl
  unfold decidedFile metFile accessedFile
  rw [hignore]
  split <;> rfl

theorem hashPass_withID (file : File) (i : ℕ) :
    hashPass c v (file.withID i) = ((hashPass c v file).1.withID i,(hashPass c v file).2) := by
  have hprepared : preparedContext (file.withID i) = (preparedContext file).withID i := by
    have hoffset : (file.withID i).checksumOffset = file.checksumOffset := rfl
    unfold preparedContext
    rw [hoffset]
    split <;> rfl
  have hread : readRecord v (file.withID i) = (readRecord v file).withID i := by
    have hoffset : (file.withID i).checksumOffset = file.checksumOffset := rfl
    unfold readRecord
    rw [hoffset]
    cases v.disk.readErrno file.checksumOffset <;> rfl
  have hoffset : (file.withID i).checksumOffset = file.checksumOffset := rfl
  have hcontext : ((preparedContext file).withID i).mdContext = (preparedContext file).mdContext := rfl
  unfold hashPass
  rw [hprepared,hread,hoffset,hcontext]
  cases v.disk.openErrno with
  | some errno => rfl
  | none =>
    dsimp only
    split
    · split
      · cases sha512From (preparedContext file).mdContext (v.disk.delivered file.checksumOffset) with
        | some digest => rfl
        | none =>
          dsimp only
          split <;> rfl
      · rfl
    · rfl

theorem hashPass_plain {file : File} (h : file.hashInterrupted = false) :
    (hashPass c v file).1.hashInterrupted = false := by
  have hread : (readRecord v file).hashInterrupted = false := by
    unfold readRecord
    cases v.disk.readErrno file.checksumOffset <;> exact h
  unfold hashPass
  cases v.disk.openErrno with
  | some errno => exact h
  | none =>
    dsimp only
    split
    · split
      · cases sha512From (preparedContext file).mdContext (v.disk.delivered file.checksumOffset) with
        | some digest => exact hread
        | none =>
          dsimp only
          split
          · exact hread
          · exact h
      · unfold preparedContext
        split <;> exact h
    · exact h

theorem decidedFile_plain (row : DBrow) : (decidedFile c v row).hashInterrupted = false := by
  change (accessedFile c v row).hashInterrupted = false
  unfold accessedFile
  split <;> rfl

theorem sealed_of_unsaved {row : DBrow} (hready : Ready c v row)
    (hreadable : v.disk.readErrno (decidedFile c v row).checksumOffset = none)
    (hruns : HashRuns c v (decidedFile c v row)) (hok : (hashPass c v (decidedFile c v row)).2 = false)
    (hcolumns : (settledOutcome c v.entry.path false (hashPass c v (decidedFile c v row)).1).columns = none) :
    lockChecksumReady (decidedFile c v row) = true := by
  have hread : readRecord v (decidedFile c v row) = decidedFile c v row := by
    unfold readRecord
    rw [hreadable]
  unfold hashPass at hok hcolumns
  rw [hruns.openable,if_pos hruns.seekable,if_pos hruns.performed] at hok hcolumns
  dsimp only at hok hcolumns
  cases hdigest : sha512From (preparedContext (decidedFile c v row)).mdContext
      (v.disk.delivered (decidedFile c v row).checksumOffset) with
  | none =>
    rw [hdigest] at hok
    cases hok
  | some digest =>
    rw [hdigest,hread] at hcolumns
    dsimp only at hcolumns
    have hreadError := decidedFile_readError c v row
    have hmismatch := decidedFile_mismatch c v row
    have hprocess := hready.process
    have hchanged := hready.changed
    have hoffset : ({ decidedFile c v row with checksumOffset := 0, sha512 := digest } : File).checksumOffset = 0 := rfl
    generalize hfile : ({ decidedFile c v row with checksumOffset := 0, sha512 := digest } : File) = file at *
    have hshown : file.shown = (decidedFile c v row).shown := by rw [← hfile]; rfl
    have hsealed : lockChecksumReady (decidedFile c v row) = lockChecksumReady file :=
      (shown_congr lockChecksumReady (fun _ => rfl) hshown).symm
    rw [← shown_congr shouldProcess (fun _ => rfl) hshown] at hprocess
    rw [← shown_congr (leavesUnchanged c) (fun _ => rfl) hshown] at hchanged
    rw [← shown_congr File.readError (fun _ => rfl) hshown] at hreadError
    rw [← shown_congr File.lockedChecksumMismatch (fun _ => rfl) hshown] at hmismatch
    rw [hsealed]
    by_contra hfree
    have hfree : lockChecksumReady file = false := by simpa using hfree
    have hcompared : comparedRecord c false file = file := by
      unfold comparedRecord
      rw [if_neg]
      simp [checksumMismatch,hfree]
    have hopen : blockedRecord false file = false := by
      simp only [shouldProcess,Bool.and_eq_true,Bool.not_eq_true'] at hprocess
      simp [blockedRecord,hprocess,hreadError,hmismatch]
    have hupdate : shouldUpdateDb c file = true := by
      have hallowed : allowLockedUpdate c file = true := by
        simp only [lockChecksumReady,Bool.and_eq_false_iff,Bool.not_eq_false'] at hfree
        simp only [allowLockedUpdate,Bool.or_eq_true,Bool.not_eq_true']
        tauto
      have hneeded : unchangedAndComplete file = false := by
        simpa [leavesUnchanged,hfree] using hchanged
      simp only [unchangedAndComplete,Bool.and_eq_false_iff,Bool.not_eq_false'] at hneeded
      simp only [shouldUpdateDb,hallowed,hoffset,Bool.true_and,Bool.or_eq_true,Bool.not_eq_true',
        Bool.and_eq_true,decide_true,decide_eq_true_eq,and_true]
      tauto
    unfold settledOutcome at hcolumns
    rw [hcompared] at hcolumns
    dsimp only at hcolumns
    rw [hopen,hupdate] at hcolumns
    cases hcolumns

end Row

section Visit

variable {c : Config} {v : Visit} {p : Pass}

theorem loadFile_smooth (hv : v.Smooth) (hp : p.status = successStatus) :
    loadFile c v p = if patternsMatch c v.entry.path then
      .ok ⟨successStatus,p.session,loadedFile c (readRow p.session.table v.entry.path) v.entry.path⟩
      else .error (p.stop failureStatus p.session) := by
  have hbuilt : run (globalReturnStatus false) successStatus (leave false v.pathBuilt) = successStatus := by
    rw [hv.pathBuilt]
    decide
  have hside : p.session.sideWrite .done = p.session := rfl
  have hlocked : decide (matchChecksumLockPattern c false v.entry.path = .regexpMatch) =
    c.locked v.entry.path := rfl
  unfold loadFile
  dsimp only
  simp only [Signal.halted_none hv.quiet,hp,hbuilt,hv.lookup,hside]
  rw [show successStatus.triumph = true from rfl,show successStatus.skip = false from rfl,
    show run (globalReturnStatus false) successStatus (leave false (decide True)) = successStatus by decide]
  simp only [Bool.not_true,Bool.false_eq_true,↓reduceIte,ne_eq,not_true_eq_false,Bool.false_or,decide_false,
    pathCheckLockedChecksum_eq,leave_eq]
  rw [successStatus_eq,ask_answer]
  simp only [Bool.not_false,Bool.and_self,↓reduceIte,Bool.or_self,← successStatus_eq]
  unfold patternsMatch
  cases hmatch : matchChecksumLockPattern c false v.entry.path with
  | regexpError => rfl
  | regexpMatch =>
    cases hok : (matchIncludeIgnore c false v.entry.path).ok with
    | false => rfl
    | true => simp [loadedFile,Config.locked,hmatch,← successStatus_eq]
  | notMatch =>
    cases hok : (matchIncludeIgnore c false v.entry.path).ok with
    | false => rfl
    | true => simp [loadedFile,Config.locked,hmatch,← successStatus_eq]

theorem VisitSettled.of_settled {o : VisitOutcome} {s : Session} {p' : Pass}
    (h : Settled c v.entry.path o p s p') (hreports : s.reports = p.session.reports)
    (hothers : ∀ k, k ≠ v.entry.path → contents s.table k = contents p.session.table k)
    (hgrows : Grows v.entry.path p.session.table s.table)
    (hgrown : p'.session.table.keys ≠ p.session.table.keys →
      v.entry.info = .file ∧ patternsMatch c v.entry.path = true ∧ Ready c v (p.row v))
    (hskip : o.skipBelow = none) (hdry : c.dryRun = true → s.table = p.session.table)
    (hkept : o.columns = none → o.failed = false →
      (v.entry.info = .file → Uncut c v (storedRow (contents p.session.table v.entry.path))) →
      s.table = p.session.table) :
    VisitSettled c v o p p' where
  synced := h.synced
  reports := by rw [h.reports,hreports]
  violation := h.violation
  skipBelow := fun hnone => h.skipBelow.trans (hnone.trans hskip.symm)
  interrupted := h.interrupted
  halted := h.halted
  goes := h.goes
  stops := h.stops
  others := fun k hk => (h.others k hk).trans (hothers k hk)
  grows := hgrows.trans h.grows
  grown := hgrown
  dry := fun hd => (h.dry hd).trans (hdry hd)
  written := h.written
  unwritten := fun hnone hok huncut => (h.unwritten hnone).trans (hkept hnone hok huncut)

theorem VisitSettled.of_quiet {o : VisitOutcome} {p' : Pass} (hsync : Synced p'.session)
    (hreports : p'.session.reports = p.session.reports ++ o.reports)
    (hviolation : p'.lockChecksumViolationDetected = (p.lockChecksumViolationDetected || o.violation))
    (hskip : p.skipBelow = none → p'.skipBelow = o.skipBelow) (hint : p'.interrupted = p.interrupted)
    (hhalt : p'.halted = p.halted) (htable : p'.session.table = p.session.table) (hcolumns : o.columns = none)
    (hgoes : o.failed = false → p'.status = successStatus ∧ p'.continueTheLoop = p.continueTheLoop)
    (hstops : o.failed = true → p'.status = failureStatus ∧ p'.continueTheLoop = false) :
    VisitSettled c v o p p' where
  synced := hsync
  reports := hreports
  violation := hviolation
  skipBelow := hskip
  interrupted := hint
  halted := hhalt
  goes := hgoes
  stops := hstops
  others := fun k _ => by rw [htable]
  grows := .inl (by rw [htable])
  grown := fun hne => absurd (by rw [htable]) hne
  dry := fun _ => htable
  written := fun _ columns hsome => by rw [hcolumns] at hsome; cases hsome
  unwritten := fun _ _ _ => htable

theorem settledOutcome_skipBelow (path : RelativePath) (failed : Bool) (file : File) :
    (settledOutcome c path failed file).skipBelow = none := by
  unfold settledOutcome
  dsimp only
  split
  · rfl
  · split <;> rfl

theorem settledOutcome_failed (path : RelativePath) (file : File) (failed : Bool) :
    (settledOutcome c path failed file).failed = failed := by
  have hblocked (file : File) : blockedRecord true file = true := by simp [blockedRecord]
  unfold settledOutcome
  dsimp only
  cases failed with
  | true => rw [if_pos (hblocked _)]
  | false =>
    split
    · rfl
    · split <;> rfl

/-- A hash pass that gets nothing to read writes nothing. -/
theorem sha512sum_empty (path : RelativePath) (file : File) (known : Bool) (s : Session)
    (h : v.disk.turns file.checksumOffset = []) : (sha512sum c v path file known s).session.table = s.table := by
  unfold sha512sum
  dsimp only
  split
  · rfl
  · split
    · split
      · rw [h]
        unfold hashLoop HashState.readEnd
        split
        · rfl
        · split <;> rfl
      · rfl
    · rfl

/-- A record that is not processed is not saved. -/
theorem unprocessed_columns {path : RelativePath} {file : File} (h : shouldProcess file = false) :
    (settledOutcome c path false file).columns = none := by
  have hcompared : comparedRecord c false file = file := by
    unfold comparedRecord
    rw [h]
    rfl
  have hblocked : blockedRecord false file = true := by
    unfold shouldProcess at h
    unfold blockedRecord
    revert h
    cases file.isReadable <;> cases file.ignore <;> cases file.lockChecksumViolation <;> simp
  unfold settledOutcome
  rw [hcompared]
  dsimp only
  rw [if_pos hblocked]

/-- The hash stage of an undisturbed visit, beside the record of its pure counterpart. -/
structure StageSettled (c : Config) (v : Visit) (row : DBrow) (p : Pass) (st : HashStage) : Prop where
  record : ∃ failed file, StageReady c v.entry.path failed file st ∧
    processedOutcome c v row = settledOutcome c v.entry.path failed file
  reports : st.session.reports = p.session.reports
  others : ∀ k, k ≠ v.entry.path → contents st.session.table k = contents p.session.table k
  grows : Grows v.entry.path p.session.table st.session.table
  dry : c.dryRun = true → st.session.table = p.session.table
  kept : (processedOutcome c v row).columns = none → (processedOutcome c v row).failed = false →
    Uncut c v row → st.session.table = p.session.table
  unprocessed : shouldProcess (decidedFile c v row) = false → st.session.table = p.session.table

theorem StageSettled.unread {row : DBrow} {st : HashStage} {failed : Bool} {file : File}
    (hready : StageReady c v.entry.path failed file st)
    (houtcome : processedOutcome c v row = settledOutcome c v.entry.path failed file)
    (hsession : st.session = (decidedStage c v p).session) : StageSettled c v row p st := by
  have hmetReports : (decidedStage c v p).session.reports = p.session.reports :=
    (Session.emit_reports _ _).trans (List.append_nil _)
  refine ⟨⟨failed,file,hready,houtcome⟩,?_,?_,?_,?_,?_,?_⟩
  · rw [hsession,hmetReports]
  · intro k _
    rw [hsession]
    rfl
  · rw [hsession]
    exact .inl rfl
  · intro _
    rw [hsession]
    rfl
  · intro _ _ _
    rw [hsession]
    rfl
  · intro _
    rw [hsession]
    rfl

section Stage

variable {row : DBrow} {i : ℕ}

theorem decidedFile_row (hrow : p.row v = { row with ID := i }) :
    decidedFile c v (p.row v) = (decidedFile c v row).withID i := by
  rw [hrow,decidedFile_withID]

theorem decidedStage_link : Linked v.entry.path (decidedFile c v (p.row v))
    (decidedFile c v (p.row v)).db.relativePathWasInDbBeforeProcessing (decidedStage c v p).session.table :=
  linked_readRow p.session.table v.entry.path (decidedFile_db c v (p.row v))

theorem decidedStage_status (hv : v.Smooth) : (decidedStage c v p).status = successStatus := by
  change outcome true (v.signal.halted .stat) = successStatus
  rw [Signal.halted_none hv.quiet]
  rfl

/-- A file that is not processed. -/
theorem hashStage_unprocessed (hv : v.Smooth) (hs : Synced p.session) (hrow : p.row v = { row with ID := i })
    (hprocess : shouldProcess (decidedFile c v (p.row v)) = false) :
    ∃ st, hashStage c v p (decidedStage c v p) = .ok st ∧ StageSettled c v row p st := by
  have hdecided := decidedFile_row (c := c) hrow
  have hfile : (decidedStage c v p).file = decidedFile c v (p.row v) := rfl
  have hstage : StageReady c v.entry.path false (decidedFile c v row)
      ⟨successStatus,(decidedStage c v p).session,decidedFile c v (p.row v),
        (decidedFile c v (p.row v)).db.relativePathWasInDbBeforeProcessing,false⟩ := by
    refine ⟨hs,rfl,?_,decidedFile_plain row,(fun hno => by cases hno),fun _ => ⟨rfl,?_,fun _ => decidedStage_link⟩,id⟩
    · rw [hdecided]
      rfl
    · rw [hdecided]
      exact ⟨rfl,rfl,rfl,fun _ => rfl⟩
  unfold hashStage
  dsimp only
  rw [hfile,decidedStage_status hv,hprocess]
  simp only [Bool.false_eq_true,↓reduceIte]
  refine ⟨_,rfl,.unread hstage ?_ rfl⟩
  rw [hdecided] at hprocess
  unfold processedOutcome
  dsimp only
  rw [show shouldProcess (decidedFile c v row) = false from hprocess]
  rfl

/-- A file that is not hashed again keeps the digest of its row. -/
theorem hashStage_reused (hv : v.Smooth) (hs : Synced p.session) (hrow : p.row v = { row with ID := i })
    (hprocess : shouldProcess (decidedFile c v (p.row v)) = true)
    (hrehash : (decidedFile c v (p.row v)).rehash = false) :
    ∃ st, hashStage c v p (decidedStage c v p) = .ok st ∧ StageSettled c v row p st := by
  have hdecided := decidedFile_row (c := c) hrow
  have hfile : (decidedStage c v p).file = decidedFile c v (p.row v) := rfl
  have hsha : (decidedFile c v (p.row v)).db.sha512 = row.sha512 := by
    rw [decidedFile_db,hrow]
  have hstage : StageReady c v.entry.path false { decidedFile c v row with sha512 := row.sha512 }
      ⟨successStatus,(decidedStage c v p).session,
        { decidedFile c v (p.row v) with sha512 := (decidedFile c v (p.row v)).db.sha512 },
        (decidedFile c v (p.row v)).db.relativePathWasInDbBeforeProcessing,false⟩ := by
    refine ⟨hs,rfl,?_,decidedFile_plain row,(fun hno => by cases hno),fun _ => ⟨rfl,?_,fun _ => decidedStage_link⟩,id⟩
    · rw [hdecided]
      rfl
    · rw [hsha,hdecided]
      exact ⟨rfl,rfl,rfl,fun _ => rfl⟩
  unfold hashStage
  dsimp only
  rw [hfile,decidedStage_status hv,if_pos hprocess,if_neg (by rw [hrehash]; decide)]
  refine ⟨_,rfl,.unread hstage ?_ rfl⟩
  rw [hdecided] at hprocess hrehash
  unfold processedOutcome
  dsimp only
  rw [if_pos (show shouldProcess (decidedFile c v row) = true from hprocess),
    if_neg (show ¬ (decidedFile c v row).rehash = true by rw [show (decidedFile c v row).rehash = false from hrehash]; decide)]

theorem hashEnds_kept {r : HashResult} (hready : Ready c v row) (hrehash : (decidedFile c v row).rehash = true)
    (hends : HashEnds c v v.entry.path ((decidedFile c v row).withID i) (decidedStage c v p).session
      ((hashPass c v (decidedFile c v row)).1.withID i,(hashPass c v (decidedFile c v row)).2) r)
    (hempty : v.disk.turns (decidedFile c v row).checksumOffset = [] →
      r.session.table = (decidedStage c v p).session.table)
    (hcolumns : (settledOutcome c v.entry.path (hashPass c v (decidedFile c v row)).2
      (hashPass c v (decidedFile c v row)).1).columns = none)
    (hok : (hashPass c v (decidedFile c v row)).2 = false) (huncut : Uncut c v row) :
    r.session.table = p.session.table := by
  by_cases hruns : HashRuns c v (decidedFile c v row)
  · rw [hok] at hcolumns
    cases hfree : lockChecksumReady (decidedFile c v row) with
    | true => exact hends.table (.inr (.inl hfree))
    | false =>
      rcases huncut hready hrehash hfree hruns with hreadable | hnothing
      · have hsealed := sealed_of_unsaved hready hreadable hruns hok hcolumns
        rw [hfree] at hsealed
        cases hsealed
      · exact hempty hnothing
  · exact hends.table (.inr (.inr fun h => hruns ⟨h.openable,h.seekable,h.performed⟩))

/-- What a hash pass that has ended leaves to be saved. -/
theorem hashEnds_settled {r : HashResult} {record : File} {failed : Bool}
    (hends : HashEnds c v v.entry.path (decidedFile c v (p.row v)) (decidedStage c v p).session (record.withID i,failed) r)
    (hplain : record.hashInterrupted = false)
    (hknown : r.file.db.relativePathWasInDbBeforeProcessing = true → r.pathKnown = true)
    (hprocess : shouldProcess (decidedFile c v row) = true)
    (houtcome : processedOutcome c v row = settledOutcome c v.entry.path failed record)
    (hkept : (processedOutcome c v row).columns = none → (processedOutcome c v row).failed = false →
      Uncut c v row → r.session.table = p.session.table) :
    StageSettled c v row p ⟨r.status,r.session,r.file,r.pathKnown,failed⟩ ∧ (r.status.success = !failed) := by
  have hmetReports : (decidedStage c v p).session.reports = p.session.reports :=
    (Session.emit_reports _ _).trans (List.append_nil _)
  have hunprocessed : shouldProcess (decidedFile c v row) = false → r.session.table = p.session.table := by
    intro hno
    rw [hprocess] at hno
    cases hno
  obtain ⟨hsynced,hreports,hothers,hgrows,htable,hshown,hfailed,hsucceeded⟩ := hends
  cases failed with
  | true =>
    have hstage : StageReady c v.entry.path true record ⟨r.status,r.session,r.file,r.pathKnown,true⟩ :=
      ⟨hsynced,rfl,hshown,hplain,hfailed,(fun hno => by cases hno),hknown⟩
    refine ⟨⟨⟨true,record,hstage,houtcome⟩,hreports.trans hmetReports,hothers,hgrows,
      fun hdry => htable (.inl hdry),hkept,hunprocessed⟩,?_⟩
    rw [hfailed rfl]
    rfl
  | false =>
    obtain ⟨hrstatus,halike,hrlink⟩ := hsucceeded rfl
    have hstage : StageReady c v.entry.path false record ⟨r.status,r.session,r.file,r.pathKnown,false⟩ :=
      ⟨hsynced,rfl,hshown,hplain,(fun hno => by cases hno),
        fun _ => ⟨hrstatus,⟨halike.shown,halike.offset,halike.sha512,halike.context⟩,hrlink⟩,hknown⟩
    refine ⟨⟨⟨false,record,hstage,houtcome⟩,hreports.trans hmetReports,hothers,hgrows,
      fun hdry => htable (.inl hdry),hkept,hunprocessed⟩,?_⟩
    rw [hrstatus]
    rfl

theorem hashStage_hashed (hv : v.Smooth) (hs : Synced p.session) (hrow : p.row v = { row with ID := i })
    (hready : Ready c v row) (hrehash : (decidedFile c v row).rehash = true) :
    ∃ st, hashStage c v p (decidedStage c v p) = .ok st ∧ StageSettled c v row p st := by
  have hdecided := decidedFile_row (c := c) hrow
  have hfile : (decidedStage c v p).file = decidedFile c v (p.row v) := rfl
  have hprocess : shouldProcess (decidedFile c v (p.row v)) = true := by
    rw [hdecided]
    exact hready.process
  have hrehashed : (decidedFile c v (p.row v)).rehash = true := by
    rw [hdecided]
    exact hrehash
  have hends := sha512sum_smooth (c := c) hv (show Synced (decidedStage c v p).session from hs) fun _ => decidedStage_link
  have hknown := sha512sum_known c v v.entry.path (decidedFile c v (p.row v)) (decidedStage c v p).session
  have hframe := (sha512sum_cases c v v.entry.path (decidedFile c v (p.row v))
    (decidedFile c v (p.row v)).db.relativePathWasInDbBeforeProcessing (decidedStage c v p).session).frame
  have hempty := sha512sum_empty (c := c) (v := v) v.entry.path (decidedFile c v (p.row v))
    (decidedFile c v (p.row v)).db.relativePathWasInDbBeforeProcessing (decidedStage c v p).session
  have hknown : ∀ known, (decidedFile c v (p.row v)).db.relativePathWasInDbBeforeProcessing = known →
      known = true → (sha512sum c v v.entry.path (decidedFile c v (p.row v)) known
        (decidedStage c v p).session).pathKnown = true := by
    rintro known - rfl
    exact hknown
  have hknown := hknown _ rfl
  rw [hdecided,hashPass_withID,← hdecided] at hends
  unfold hashStage
  dsimp only
  rw [hfile,decidedStage_status hv,if_pos hprocess,if_pos hrehashed,if_pos rfl]
  generalize sha512sum c v v.entry.path (decidedFile c v (p.row v))
    (decidedFile c v (p.row v)).db.relativePathWasInDbBeforeProcessing (decidedStage c v p).session = r at *
  have hknownFile : r.file.db.relativePathWasInDbBeforeProcessing = true → r.pathKnown = true := by
    intro hk
    apply hknown
    rw [← hk]
    exact (frame_congr (fun f => f.db.relativePathWasInDbBeforeProcessing) (fun _ => rfl) hframe).symm
  have houtcome : processedOutcome c v row =
      settledOutcome c v.entry.path (hashPass c v (decidedFile c v row)).2 (hashPass c v (decidedFile c v row)).1 := by
    unfold processedOutcome
    dsimp only
    rw [if_pos hready.process,if_pos hrehash]
  have hkept : (processedOutcome c v row).columns = none → (processedOutcome c v row).failed = false →
      Uncut c v row → r.session.table = p.session.table := by
    intro hcolumns hok huncut
    rw [houtcome] at hcolumns hok
    rw [settledOutcome_failed] at hok
    rw [hdecided] at hends hempty
    exact hashEnds_kept hready hrehash hends hempty hcolumns hok huncut
  obtain ⟨hsettled,hstatus⟩ := hashEnds_settled hends (hashPass_plain (decidedFile_plain row)) hknownFile
    hready.process houtcome hkept
  rw [hstatus,Signal.raised_none hv.quiet]
  cases hfailed : (hashPass c v (decidedFile c v row)).2 with
  | true =>
    rw [hfailed] at hsettled
    exact ⟨_,rfl,hsettled⟩
  | false =>
    rw [hfailed] at hsettled
    exact ⟨_,rfl,hsettled⟩

theorem hashStage_smooth (hv : v.Smooth) (hs : Synced p.session)
    (hrow : p.row v = { row with ID := i }) (hchanged : leavesUnchanged c (decidedFile c v (p.row v)) = false)
    (hwatched : lockedTimestampDriftOnly c (decidedFile c v (p.row v)) = false) :
    ∃ st, hashStage c v p (decidedStage c v p) = .ok st ∧ StageSettled c v row p st := by
  cases hprocess : shouldProcess (decidedFile c v (p.row v)) with
  | false => exact hashStage_unprocessed hv hs hrow hprocess
  | true =>
    cases hrehash : (decidedFile c v (p.row v)).rehash with
    | false => exact hashStage_reused hv hs hrow hprocess hrehash
    | true =>
      rw [decidedFile_row hrow] at hchanged hwatched hprocess hrehash
      exact hashStage_hashed hv hs hrow ⟨hprocess,hchanged,hwatched⟩ hrehash

end Stage

/-- The identifier of a row decides nothing about the file. -/
theorem ready_withID {row : DBrow} {i : ℕ} : Ready c v { row with ID := i } ↔ Ready c v row := by
  constructor
  · rintro ⟨hprocess,hchanged,hwatched⟩
    rw [decidedFile_withID] at hprocess hchanged hwatched
    exact ⟨hprocess,hchanged,hwatched⟩
  · rintro ⟨hprocess,hchanged,hwatched⟩
    refine ⟨?_,?_,?_⟩
    · rw [decidedFile_withID]
      exact hprocess
    · rw [decidedFile_withID]
      exact hchanged
    · rw [decidedFile_withID]
      exact hwatched

theorem uncut_withID {row : DBrow} {i : ℕ} : Uncut c v { row with ID := i } ↔ Uncut c v row := by
  have hruns : HashRuns c v ((decidedFile c v row).withID i) ↔ HashRuns c v (decidedFile c v row) :=
    ⟨fun h => ⟨h.openable,h.seekable,h.performed⟩,fun h => ⟨h.openable,h.seekable,h.performed⟩⟩
  unfold Uncut
  rw [ready_withID,decidedFile_withID,hruns]
  exact Iff.rfl

/-- A file that goes on to hashing and saving. -/
theorem processed_smooth (hv : v.Smooth) (hinfo : v.entry.info = .file)
    (hpatterns : patternsMatch c v.entry.path = true) (hs : Synced p.session) {row : DBrow} {i : ℕ}
    (hrow : p.row v = { row with ID := i }) (hchanged : leavesUnchanged c (decidedFile c v (p.row v)) = false)
    (hwatched : lockedTimestampDriftOnly c (decidedFile c v (p.row v)) = false)
    (hrun : processFile c v p =
      match hashStage c v p (decidedStage c v p) with
      | .error p => p
      | .ok st => settleFile c v p (st.compared c)) :
    VisitSettled c v (processedOutcome c v row) p (processFile c v p) := by
  have hdecided : decidedFile c v (p.row v) = (decidedFile c v row).withID i := by
    rw [hrow,decidedFile_withID]
  obtain ⟨st,hst,hstage⟩ := hashStage_smooth hv hs hrow hchanged hwatched
  obtain ⟨failed,file,hready,houtcome⟩ := hstage.record
  rw [hrun,hst]
  dsimp only
  have hsettled : Settled c v.entry.path (processedOutcome c v row) p st.session
      (settleFile c v p (st.compared c)) := by
    rw [houtcome]
    cases failed with
    | true => exact settleFile_failed hv hready
    | false => exact settleFile_settled hv hready
  have huncut : Uncut c v (storedRow (contents p.session.table v.entry.path)) → Uncut c v row := by
    intro huncut
    obtain ⟨j,hj⟩ := readRow_stored p.session.table v.entry.path
    rw [← uncut_withID (i := i),← hrow]
    exact (congrArg (Uncut c v) hj).mpr (uncut_withID.mpr huncut)
  refine .of_settled hsettled hstage.reports hstage.others hstage.grows ?_
    (by rw [houtcome]; exact settledOutcome_skipBelow _ _ _) hstage.dry
    fun hnone hok hvisit => hstage.kept hnone hok (huncut (hvisit hinfo))
  intro hkeys
  cases hprocess : shouldProcess (decidedFile c v row) with
  | false =>
    have hcolumns : (processedOutcome c v row).columns = none := by
      unfold processedOutcome
      dsimp only
      rw [hprocess]
      exact unprocessed_columns hprocess
    exact absurd (congrArg UniqueTable.keys ((hsettled.unwritten hcolumns).trans (hstage.unprocessed hprocess))) hkeys
  | true =>
    refine ⟨hinfo,hpatterns,?_,hchanged,hwatched⟩
    rw [hdecided]
    exact hprocess

theorem processFile_smooth (hv : v.Smooth) (hinfo : v.entry.info = .file) (hp : p.status = successStatus)
    (hs : Synced p.session) :
    VisitSettled c v (fileOutcome c v (contents p.session.table v.entry.path)) p (processFile c v p) := by
  have hload := loadFile_smooth (c := c) hv hp
  obtain ⟨i,hrow⟩ : ∃ i, p.row v = { storedRow (contents p.session.table v.entry.path) with ID := i } :=
    readRow_stored p.session.table v.entry.path
  generalize hstored : storedRow (contents p.session.table v.entry.path) = row at hrow
  have hdecided : decidedFile c v (p.row v) = (decidedFile c v row).withID i := by
    rw [hrow,decidedFile_withID]
  unfold fileOutcome
  rw [hstored]
  dsimp only
  cases hpatterns : patternsMatch c v.entry.path with
  | false =>
    rw [hpatterns] at hload
    have hstop : processFile c v p = p.stop failureStatus p.session := by
      unfold processFile
      rw [hload]
      rfl
    rw [hstop]
    simp only [Bool.not_false,↓reduceIte]
    exact VisitSettled.of_quiet hs (List.append_nil _).symm (Bool.or_false _).symm id rfl rfl rfl rfl
      (fun hno => by cases hno) fun _ => ⟨rfl,rfl⟩
  | true =>
    rw [hpatterns,if_pos rfl] at hload
    simp only [Bool.not_true,Bool.false_eq_true,↓reduceIte]
    have hunavailable : unavailableLocked c v (p.row v) = unavailableLocked c v row := by
      rw [hrow]
      rfl
    have hleaves : leavesUnchanged c (decidedFile c v (p.row v)) = leavesUnchanged c (decidedFile c v row) := by
      rw [hdecided]
      rfl
    have hdrift : lockedTimestampDriftOnly c (decidedFile c v (p.row v)) =
        lockedTimestampDriftOnly c (decidedFile c v row) := by
      rw [hdecided]
      rfl
    have hmetReports : (decidedStage c v p).session.reports = p.session.reports :=
      (Session.emit_reports _ _).trans (List.append_nil _)
    rcases processFile_loaded c v p hload with ⟨hlocked,hcase⟩ | ⟨havailable,hleft,hrun⟩ |
      ⟨havailable,hchanged,hwatched,hrun⟩
    · have hnext : processFile c v p = { p.next successStatus (reportLockedUnavailable v p) with
          lockChecksumViolationDetected := true } := by
        rcases hcase with ⟨hhalted,-⟩ | ⟨-,hnext⟩
        · rw [Signal.halted_none hv.quiet] at hhalted
          cases hhalted
        · exact hnext
      rw [hnext,← hunavailable,if_pos hlocked]
      have hside : reportLockedUnavailable v p =
          (p.session.report (.lockedUnavailable v.entry.path v.access)).requestReplay := by
        unfold reportLockedUnavailable
        rw [Session.sideWrite_of_ne hv.remember]
      rw [hside]
      exact VisitSettled.of_quiet hs (Session.report_reports _ _) (Bool.or_true _).symm id rfl rfl rfl rfl
        (fun _ => ⟨rfl,rfl⟩) fun hno => by cases hno
    · rw [hrun,← hunavailable,havailable,← hleaves,← hdrift]
      have hcond : (leavesUnchanged c (decidedFile c v (p.row v)) ||
          lockedTimestampDriftOnly c (decidedFile c v (p.row v))) = true := by simpa using hleft
      rw [if_neg (by decide),if_pos hcond]
      refine VisitSettled.of_quiet hs (hmetReports.trans (List.append_nil _).symm) (Bool.or_false _).symm id rfl rfl rfl
        rfl (fun _ => ⟨?_,rfl⟩) fun hno => by cases hno
      change outcome true (v.signal.halted .stat) = successStatus
      rw [Signal.halted_none hv.quiet]
      rfl
    · rw [hrun,← hunavailable,havailable,← hleaves,hchanged,← hdrift,hwatched]
      simp only [Bool.false_eq_true,↓reduceIte,Bool.or_self]
      rw [← hrun]
      exact processed_smooth hv hinfo hpatterns hs hrow hchanged hwatched hrun

end Visit

end Precizer.Traversal
