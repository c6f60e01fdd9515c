import Precizer.Traversal.FilePass

/-! # The writes of a visit

Every save of a visit, at a checkpoint or at the end, is a save point. A stable property
of the table that survives every save point therefore survives the whole visit.
-/
namespace Precizer.Traversal
open General Rational Digest Database

variable {c : Config} {v : Visit} {p : Pass}

theorem no_update_of_resume {file : File} (hresume : canResumePartialHash file = true)
    (hknown : file.db.relativePathWasInDbBeforeProcessing = true)
    (hoffset : file.checksumOffset = file.db.savedOffset) : shouldUpdateDb c file = false := by
  simp only [canResumePartialHash,hasSavedOffset,Bool.and_eq_true,decide_eq_true_eq] at hresume
  obtain ⟨hsaved,hidentical⟩ := hresume
  have hne : file.checksumOffset ≠ 0 := by omega
  simp [shouldUpdateDb,hknown,hidentical,hoffset,Nat.ne_of_gt hsaved]

theorem known_of_savedOffset {t : FilesTable} {path : RelativePath} (h : (readRow t path).savedOffset ≠ 0) :
    (readRow t path).relativePathWasInDbBeforeProcessing = true := by
  cases hfind : t.find path with
  | none =>
    rw [readRow_none hfind] at h
    exact absurd rfl h
  | some e =>
    rw [readRow_some hfind]
    rfl

theorem start_of_update (file : File) (hfile : file.frame = (decidedFile c v (p.row v)).frame)
    (hoffset : file.checksumOffset = (decidedFile c v (p.row v)).checksumOffset)
    (hupdate : shouldUpdateDb c file = true) :
    (decidedFile c v (p.row v)).checksumOffset = 0 ∧
      ((p.row v).relativePathWasInDbBeforeProcessing = true →
        fileMetadataIdentical (decidedFile c v (p.row v)) = false) ∧
      allowLockedUpdate c (decidedFile c v (p.row v)) = true := by
  have hidentical : fileMetadataIdentical file = fileMetadataIdentical (decidedFile c v (p.row v)) :=
    frame_congr fileMetadataIdentical (fun _ => rfl) hfile
  have hresume : canResumePartialHash file = canResumePartialHash (decidedFile c v (p.row v)) :=
    frame_congr canResumePartialHash (fun _ => rfl) hfile
  have hallow : allowLockedUpdate c file = allowLockedUpdate c (decidedFile c v (p.row v)) :=
    frame_congr (allowLockedUpdate c) (fun _ => rfl) hfile
  have hsaved : file.db.savedOffset = (p.row v).savedOffset :=
    (frame_congr (fun f => f.db.savedOffset) (fun _ => rfl) hfile).trans
      (congrArg DBrow.savedOffset (decidedFile_db c v (p.row v)))
  have hknown : file.db.relativePathWasInDbBeforeProcessing =
      (p.row v).relativePathWasInDbBeforeProcessing :=
    (frame_congr (fun f => f.db.relativePathWasInDbBeforeProcessing) (fun _ => rfl) hfile).trans
      (congrArg DBrow.relativePathWasInDbBeforeProcessing (decidedFile_db c v (p.row v)))
  rcases decidedFile_start c v (p.row v) with ⟨hcan,hstart,-⟩ | ⟨hcannot,hstart⟩
  · have hcan' : canResumePartialHash file = true := hresume.trans hcan
    have hpositive : (p.row v).savedOffset ≠ 0 := by
      simp only [canResumePartialHash,hasSavedOffset,decidedFile_db,Bool.and_eq_true,decide_eq_true_eq]
        at hcan
      omega
    have hno := no_update_of_resume (c := c) hcan' (hknown.trans (known_of_savedOffset hpositive))
      (hoffset.trans (hstart.trans hsaved.symm))
    rw [hno] at hupdate
    cases hupdate
  · refine ⟨hstart,?_,?_⟩
    · intro hk
      cases hid : fileMetadataIdentical (decidedFile c v (p.row v)) with
      | false => rfl
      | true =>
        have hnone : hasSavedOffset file = false := by
          have hcannot' : canResumePartialHash file = false := hresume.trans hcannot
          simpa [canResumePartialHash,hidentical.trans hid] using hcannot'
        have hzero : file.checksumOffset = 0 := hoffset.trans hstart
        simp [shouldUpdateDb,hknown.trans hk,hidentical.trans hid,hnone,hzero] at hupdate
    · rw [← hallow]
      simp only [shouldUpdateDb,Bool.and_eq_true] at hupdate
      exact hupdate.1

theorem blocked_eq_false {st : HashStage} (h : st.blocked = false) :
    shouldProcess st.file = true ∧ st.hashFailed = false ∧ st.file.readError = false ∧
      st.file.lockedChecksumMismatch = false := by
  simp only [HashStage.blocked,Bool.or_eq_false_iff,Bool.not_eq_false'] at h
  obtain ⟨⟨⟨⟨⟨hreadable,hignore⟩,hviolation⟩,hfailed⟩,hread⟩,hmismatch⟩ := h
  exact ⟨by simp [shouldProcess,hreadable,hignore,hviolation],hfailed,hread,hmismatch⟩

theorem compared_of_open {st : HashStage} (h : (st.compared c).blocked = false) :
    st.compared c = st ∧ checksumMismatch c st.status st.hashFailed st.file = false := by
  have hmismatch := (blocked_eq_false h).2.2.2
  unfold HashStage.compared at h hmismatch ⊢
  split
  · rename_i hfound
    rw [if_pos hfound] at hmismatch
    cases hmismatch
  · rename_i hpassed
    rw [if_neg hpassed] at h
    refine ⟨rfl,?_⟩
    simpa [(blocked_eq_false h).1] using hpassed

theorem not_empty_of_rehash {row : DBrow} (h : (decidedFile c v row).rehash = true) :
    emptyFile (decidedFile c v row) = false := by
  have hrehash : (decidedFile c v row).rehash =
      if emptyFile (metFile c v row) then false else rehashDecision c (metFile c v row) := rfl
  have hsame : emptyFile (decidedFile c v row) = emptyFile (metFile c v row) := rfl
  rw [hsame]
  cases hempty : emptyFile (metFile c v row) with
  | false => rfl
  | true => simp [hrehash,hempty] at h

theorem frame_db {file : File} (h : file.frame = (decidedFile c v (p.row v)).frame) :
    file.db.sha512 = (p.row v).sha512 ∧ file.db.savedOffset = (p.row v).savedOffset ∧
      file.db.relativePathWasInDbBeforeProcessing = (p.row v).relativePathWasInDbBeforeProcessing := by
  have hdb := decidedFile_db c v (p.row v)
  refine ⟨?_,?_,?_⟩
  · exact (frame_congr (fun f => f.db.sha512) (fun _ => rfl) h).trans (congrArg DBrow.sha512 hdb)
  · exact (frame_congr (fun f => f.db.savedOffset) (fun _ => rfl) h).trans (congrArg DBrow.savedOffset hdb)
  · exact (frame_congr (fun f => f.db.relativePathWasInDbBeforeProcessing) (fun _ => rfl) h).trans
      (congrArg DBrow.relativePathWasInDbBeforeProcessing hdb)

theorem frame_stat {file : File} (h : file.frame = (decidedFile c v (p.row v)).frame) :
    file.stat = statCopy v.entry.statp := frame_congr File.stat (fun _ => rfl) h

theorem reused_columns (hrehash : (decidedFile c v (p.row v)).rehash = false) {log : List Event}
    (hdone : v.save.statement = .done)
    (hupdate : shouldUpdateDb c { decidedFile c v (p.row v) with sha512 := (p.row v).sha512 } = true) :
    SavedColumns c v (p.row v) log
      (boundColumns { decidedFile c v (p.row v) with sha512 := (p.row v).sha512 }) := by
  obtain ⟨hstart,hdiffers,hallowed⟩ := start_of_update (p := p)
    { decidedFile c v (p.row v) with sha512 := (p.row v).sha512 } rfl rfl hupdate
  have hzero := decidedFile_zeroSize c v (p.row v)
  cases hempty : emptyFile (decidedFile c v (p.row v)) with
  | true =>
    have hcolumns : boundColumns { decidedFile c v (p.row v) with sha512 := (p.row v).sha512 } =
        ⟨none,none,some (statCopy v.entry.statp).toBytes,none⟩ := by
      simp [boundColumns,hstart,hzero,hempty]
    rw [hcolumns]
    exact .empty hempty hdiffers hallowed hdone
  | false =>
    have hcolumns : boundColumns { decidedFile c v (p.row v) with sha512 := (p.row v).sha512 } =
        ⟨none,some (p.row v).sha512,some (statCopy v.entry.statp).toBytes,none⟩ := by
      simp [boundColumns,hstart,hzero,hempty]
    have hdecision : rehashDecision c (decidedFile c v (p.row v)) = false := by
      have hmet : (decidedFile c v (p.row v)).rehash = if emptyFile (decidedFile c v (p.row v)) then false
        else rehashDecision c (decidedFile c v (p.row v)) := rfl
      rw [hrehash,hempty] at hmet
      exact hmet.symm
    unfold rehashDecision at hdecision
    split at hdecision
    · cases hdecision
    · rename_i hfree
      have hunwatched : unwatchedMetadataOnlyChanged c (decidedFile c v (p.row v)) = true := by
        simpa using hdecision
      rw [hcolumns]
      refine .reused hempty hunwatched ?_ hdone
      cases hlocked : c.locked v.entry.path with
      | false => rfl
      | true =>
        simp only [unwatchedMetadataOnlyChanged,decidedFile_db,Bool.and_eq_true,Bool.not_eq_true'] at hunwatched
        simp [allowLockedUpdate,lockChecksumReady,hlocked,hunwatched] at hallowed hfree
        rw [hfree] at hallowed
        cases hallowed

theorem allowed_of_update {file : File} (h : shouldUpdateDb c file = true) :
    allowLockedUpdate c file = true := by
  simp only [shouldUpdateDb,Bool.and_eq_true] at h
  exact h.1

theorem rehashLocked_of_allowed {file : File} (hallowed : allowLockedUpdate c file = true)
    (hready : lockChecksumReady file = true) : c.rehashLocked = true := by
  simp only [lockChecksumReady,Bool.and_eq_true,Bool.not_eq_true'] at hready
  simpa [allowLockedUpdate,hready] using hallowed

theorem boundColumns_of_offset {file : File} (h : file.checksumOffset ≠ 0) : boundColumns file =
    ⟨some file.checksumOffset,none,some file.stat.toBytes,some file.mdContext⟩ := by
  simp [boundColumns,h]

theorem hashed_columns (hdry : c.dryRun = false) (hdone : v.save.statement = .done)
    (hrehash : (decidedFile c v (p.row v)).rehash = true)
    (hread : (hashOf c v p).file.readError = false) (hok : (hashOf c v p).status.success = true)
    (hkept : v.signal.raised .checked = true → (hashOf c v p).file.checksumOffset ≠ 0)
    (hmatch : checksumMismatch c (hashOf c v p).status false (hashOf c v p).file = false)
    (hupdate : shouldUpdateDb c (hashOf c v p).file = true) :
    SavedColumns c v (p.row v) (hashOf c v p).session.events (boundColumns (hashOf c v p).file) := by
  have hzero := decidedFile_zeroSize c v (p.row v)
  have hempty := not_empty_of_rehash hrehash
  have hnotEmpty {file : File} (hframe : file.frame = (decidedFile c v (p.row v)).frame) :
      file.zeroSizeFile = false :=
    (frame_congr File.zeroSizeFile (fun _ => rfl) hframe).trans (hzero.trans hempty)
  have hallowedOf {file : File} (hframe : file.frame = (decidedFile c v (p.row v)).frame)
      (h : shouldUpdateDb c file = true) : allowLockedUpdate c (decidedFile c v (p.row v)) = true := by
    rw [← frame_congr (allowLockedUpdate c) (fun _ => rfl) hframe]
    exact allowed_of_update h
  have hcase := sha512sum_cases c v v.entry.path (decidedFile c v (p.row v))
    (p.row v).relativePathWasInDbBeforeProcessing (decidedStage c v p).session
  change HashCase c v v.entry.path (decidedFile c v (p.row v)) (hashOf c v p) at hcase
  generalize hashOf c v p = r at *
  cases hcase with
  | openError errno hopen halted hstatus hfile =>
    rw [hfile] at hread
    cases hread
  | wrongType hopen hseek halted hstatus hfile =>
    rw [hfile] at hupdate hkept ⊢
    obtain ⟨hstart,hdiffers,hallowed⟩ := start_of_update (p := p)
      { decidedFile c v (p.row v) with wrongFileType := true } rfl rfl hupdate
    have hcolumns : boundColumns { decidedFile c v (p.row v) with wrongFileType := true } =
        ⟨none,none,some (statCopy v.entry.statp).toBytes,none⟩ := by
      simp [boundColumns,hstart]
    rw [hcolumns]
    rw [hstart] at hseek
    refine .wrongType hrehash hstart hopen hseek ?_ hdiffers hallowed hdone
    cases hraised : v.signal.raised .checked with
    | false => rfl
    | true => exact absurd hstart (hkept hraised)
  | notHashed hopen hseek hperform halted hstatus hfile =>
    rw [performFileHashing,hdry] at hperform
    cases hperform
  | failed hruns halted hstatus hframe =>
    rw [hstatus] at hok
    cases hok
  | readError hruns errno herrno halted hstatus hframe herror =>
    rw [hread] at herror
    cases herror
  | interrupted hruns k hk hraised hbefore halted hstatus hframe hread' hwrong hoffset habsorbs hreads hsha =>
    have hchecked : v.signal.raised .checked = true := Signal.raised_mono hraised (by simp [notAfter,Timeline.key])
    have hne := hkept hchecked
    have hcolumns : boundColumns r.file = ⟨some ((decidedFile c v (p.row v)).checksumOffset +
        (readBytes v (decidedFile c v (p.row v)) k).length),none,some (statCopy v.entry.statp).toBytes,
        some r.file.mdContext⟩ := by
      rw [boundColumns_of_offset hne,frame_stat hframe,hoffset]
    rw [hcolumns]
    refine .partway k r.file.mdContext hrehash hruns habsorbs hreads (by rwa [hoffset] at hne) ?_
    cases hready : lockChecksumReady (decidedFile c v (p.row v)) with
    | false => exact .inl rfl
    | true =>
      exact .inr ⟨rehashLocked_of_allowed (hallowedOf hframe hupdate) hready,hdone,hk,hraised,hbefore⟩
  | complete hruns herrno halted hstatus hframe hread' hwrong hoffset context habsorbs hfinal hreads hlog =>
    have hcolumns : boundColumns r.file =
        ⟨none,some r.file.sha512,some (statCopy v.entry.statp).toBytes,none⟩ := by
      have hw : r.file.wrongFileType = false := hwrong.trans (decidedFile_wrongFileType c v (p.row v))
      simp only [boundColumns,hoffset,hnotEmpty hframe,hw,and_self,↓reduceIte,frame_stat hframe]
    rw [hcolumns]
    refine .complete context r.file.sha512 hrehash hruns herrno habsorbs hfinal hreads hlog ?_
      (hallowedOf hframe hupdate)
    intro hready
    have hlocked := rehashLocked_of_allowed (hallowedOf hframe hupdate) hready
    have hready' : lockChecksumReady r.file = true :=
      (frame_congr lockChecksumReady (fun _ => rfl) hframe).trans hready
    have hrehash' : r.file.rehash = true := (frame_congr File.rehash (fun _ => rfl) hframe).trans hrehash
    have hw : r.file.wrongFileType = false := hwrong.trans (decidedFile_wrongFileType c v (p.row v))
    have hsame : r.file.sha512 = r.file.db.sha512 := by
      simpa [checksumMismatch,hread,hlocked,hready',hrehash',hstatus,hw,hnotEmpty hframe,hoffset]
        using hmatch
    rw [hsame]
    exact (frame_db hframe).1

theorem checkpoint_columns {file : File} {k : ℕ} {log : List Event}
    (hrehash : (decidedFile c v (p.row v)).rehash = true)
    (hpoint : Checkpointed c v v.entry.path log (decidedFile c v (p.row v)) file k) :
    SavedColumns c v (p.row v) log (boundColumns file) := by
  have hallowed := hpoint.allowed
  unfold periodicHashCheckpointIsAllowed at hallowed
  split at hallowed
  · cases hallowed
  · split at hallowed
    · cases hallowed
    · rename_i hne
      split at hallowed
      · cases hallowed
      · rename_i hsealed
        rw [boundColumns_of_offset hne,frame_stat hpoint.frame,hpoint.offset]
        rw [hpoint.offset] at hne
        refine .partway k file.mdContext hrehash hpoint.runs hpoint.absorbs hpoint.reads hne (.inl ?_)
        rw [← frame_congr lockChecksumReady (fun _ => rfl) hpoint.frame]
        simpa [lockChecksumReady,hasSavedOffset,Nat.pos_iff_ne_zero] using hsealed

theorem settled_columns (hdry : c.dryRun = false) (hdone : v.save.statement = .done) {st : HashStage} (hcase : HashStageCase c v p (.ok st))
    (hopen : st.blocked = false) (hmatch : checksumMismatch c st.status st.hashFailed st.file = false)
    (hupdate : shouldUpdateDb c st.file = true) :
    shouldProcess (decidedFile c v (p.row v)) = true ∧
      SavedColumns c v (p.row v) st.session.events (boundColumns st.file) := by
  obtain ⟨hprocess,hfailed,hread,-⟩ := blocked_eq_false hopen
  cases hcase with
  | unprocessed hno =>
    rw [hno] at hprocess
    cases hprocess
  | reused hready hrehash => exact ⟨hready,reused_columns hrehash hdone hupdate⟩
  | haltedResume hoffset =>
    have hsame : shouldUpdateDb c (decidedFile c v (p.row v)) = true := hupdate
    exact absurd (start_of_update (p := p) _ rfl rfl hsame).1 hoffset
  | failed => cases hfailed
  | interrupted hready hrehash hok hraised hoffset =>
    exact ⟨hready,hashed_columns hdry hdone hrehash hread hok (fun _ => hoffset) hmatch hupdate⟩
  | hashed hready hrehash hok hraised =>
    refine ⟨hready,hashed_columns hdry hdone hrehash hread hok ?_ hmatch hupdate⟩
    intro h
    rw [hraised] at h
    cases h

def SavesKeep (P : List Event → FilesTable → Prop) (c : Config) (v : Visit) (p : Pass) : Prop :=
  ∀ log columns t t', c.dryRun = false → (∃ extra, log = p.session.events ++ extra) →
    SavePoint c v (p.row v) log columns → Replaces v.entry.path columns t t' → P log t → P log t'

theorem met_mem {log extra : List Event} (h : log =
    (p.session.emit (.met v.entry.path (statCopy v.entry.statp) v.disk)).events ++ extra) :
    .met v.entry.path (statCopy v.entry.statp) v.disk ∈ log ∧ ∃ more, log = p.session.events ++ more := by
  constructor
  · rw [h]
    exact List.mem_append_left _ (List.mem_append_right _ (List.mem_singleton_self _))
  · refine ⟨[.met v.entry.path (statCopy v.entry.statp) v.disk] ++ extra,?_⟩
    rw [h,← List.append_assoc]
    rfl

theorem hashOf_case : HashCase c v v.entry.path (decidedFile c v (p.row v)) (hashOf c v p) :=
  sha512sum_cases c v v.entry.path (decidedFile c v (p.row v))
    (p.row v).relativePathWasInDbBeforeProcessing (decidedStage c v p).session

theorem hashStage_row {st : HashStage} (hcase : HashStageCase c v p (.ok st)) :
    st.file.db.relativePathWasInDbBeforeProcessing = (p.row v).relativePathWasInDbBeforeProcessing := by
  have hdb : (decidedFile c v (p.row v)).db.relativePathWasInDbBeforeProcessing =
      (p.row v).relativePathWasInDbBeforeProcessing :=
    congrArg DBrow.relativePathWasInDbBeforeProcessing (decidedFile_db c v (p.row v))
  have hhashed := (frame_db (hashOf_case (c := c) (v := v) (p := p)).frame).2.2
  cases hcase with
  | unprocessed => exact hdb
  | reused => exact hdb
  | haltedResume => exact hdb
  | failed => exact hhashed
  | interrupted => exact hhashed
  | hashed => exact hhashed

theorem hashOf_log : ∃ extra, (hashOf c v p).session.events = (decidedStage c v p).session.events ++ extra :=
  sha512sum_log c v v.entry.path (decidedFile c v (p.row v)) _ _

theorem hashOf_known (h : (p.row v).relativePathWasInDbBeforeProcessing = true) :
    (hashOf c v p).pathKnown = true := by
  unfold hashOf
  rw [h]
  exact sha512sum_known c v v.entry.path _ _

/-- What the stages before the save leave behind. -/
structure StageSound (P : List Event → FilesTable → Prop) (c : Config) (v : Visit) (p : Pass)
    (st : HashStage) : Prop where
  always : st.session.Always P
  known : (p.row v).relativePathWasInDbBeforeProcessing = true → st.pathKnown = true
  log : ∃ extra, st.session.events = (decidedStage c v p).session.events ++ extra
  linked : st.hashFailed = false → Linked v.entry.path st.file st.pathKnown st.session.table

section Always

variable {P : List Event → FilesTable → Prop} (hP : Store.Stable P)
include hP

theorem hashOf_sound (h : p.session.Always P) (hready : Ready c v (p.row v))
    (hrehash : (decidedFile c v (p.row v)).rehash = true) (hkeep : SavesKeep P c v p) :
    (hashOf c v p).session.Always P ∧ ((hashOf c v p).status.success = true →
      Linked v.entry.path (hashOf c v p).file (hashOf c v p).pathKnown (hashOf c v p).session.table) := by
  have hlink : Linked v.entry.path (decidedFile c v (p.row v))
      (decidedFile c v (p.row v)).db.relativePathWasInDbBeforeProcessing p.session.table :=
    linked_readRow p.session.table v.entry.path (decidedFile_db c v (p.row v))
  rw [decidedFile_db] at hlink
  have hsound := sha512sum_sound hP c v (h.emit hP _) hlink <| by
    rintro k file' known' log t t' hdry hpoint ⟨extra,hlog⟩ hlink' hPt hsaved
    obtain ⟨hmet,hextra⟩ := met_mem hlog
    exact hkeep log (boundColumns file') t t' hdry hextra
      ⟨hready,hmet,checkpoint_columns hrehash hpoint⟩ (find_saved hlink' hsaved) hPt
  refine ⟨hsound.1,?_⟩
  intro hok
  obtain ⟨ok,halted,hstatus⟩ := (hashOf_case (c := c) (v := v) (p := p)).status
  rw [hstatus,outcome_success] at hok
  apply hsound.2
  change (hashOf c v p).status.failure = false
  rw [hstatus,hok]
  rfl

theorem always_show (file : File) {s : Session} (h : s.Always P) : (showStage c v file s).Always P := by
  have hfold : ∀ (labels : List FileLabel) (s : Session), s.Always P →
      (labels.foldl (fun s label => s.report (.file v.entry.path label)) s).Always P := by
    intro labels
    induction labels with
    | nil => exact fun s h => h
    | cons label rest ih => exact fun s h => ih _ (h.report hP _)
  exact (hfold _ s h).sideWrite _

theorem hashStage_sound (h : p.session.Always P)
    (hready : shouldProcess (decidedFile c v (p.row v)) = true → Ready c v (p.row v))
    (hkeep : SavesKeep P c v p) {r : Except Pass HashStage} (hcase : HashStageCase c v p r) :
    (∀ p', r = .error p' → p'.session.Always P) ∧ ∀ st, r = .ok st → StageSound P c v p st := by
  have hmet : (decidedStage c v p).session.Always P := h.emit hP _
  have hlink : Linked v.entry.path (decidedFile c v (p.row v))
      (p.row v).relativePathWasInDbBeforeProcessing p.session.table := by
    have hrow := linked_readRow p.session.table v.entry.path (decidedFile_db c v (p.row v))
    rwa [decidedFile_db] at hrow
  cases hcase with
  | unprocessed hprocess =>
    refine ⟨(fun p' hp' => by cases hp'),?_⟩
    rintro st ⟨⟩
    exact ⟨hmet,id,⟨[],by simp⟩,fun _ => hlink⟩
  | reused hprocess hrehash =>
    refine ⟨(fun p' hp' => by cases hp'),?_⟩
    rintro st ⟨⟩
    exact ⟨hmet,id,⟨[],by simp⟩,fun _ => linked_transfer hlink rfl rfl rfl⟩
  | haltedEarly hoffset =>
    refine ⟨?_,(fun st hst => by cases hst)⟩
    rintro p' ⟨⟩
    exact hmet
  | haltedResume hoffset =>
    refine ⟨(fun p' hp' => by cases hp'),?_⟩
    rintro st ⟨⟩
    exact ⟨hmet,id,⟨[],by simp⟩,fun _ => linked_transfer hlink rfl rfl rfl⟩
  | failed hprocess hrehash hfail =>
    have hsound := hashOf_sound hP h (hready hprocess) hrehash hkeep
    refine ⟨(fun p' hp' => by cases hp'),?_⟩
    rintro st ⟨⟩
    exact ⟨hsound.1,hashOf_known,hashOf_log,fun hno => by cases hno⟩
  | dropped hprocess hrehash hraised hoffset =>
    have hsound := hashOf_sound hP h (hready hprocess) hrehash hkeep
    refine ⟨?_,(fun st hst => by cases hst)⟩
    rintro p' ⟨⟩
    exact hsound.1
  | interrupted hprocess hrehash hok hraised hoffset =>
    have hsound := hashOf_sound hP h (hready hprocess) hrehash hkeep
    refine ⟨(fun p' hp' => by cases hp'),?_⟩
    rintro st ⟨⟩
    exact ⟨hsound.1,hashOf_known,hashOf_log,fun _ => linked_transfer (hsound.2 hok) rfl rfl rfl⟩
  | hashed hprocess hrehash hok hraised =>
    have hsound := hashOf_sound hP h (hready hprocess) hrehash hkeep
    refine ⟨(fun p' hp' => by cases hp'),?_⟩
    rintro st ⟨⟩
    exact ⟨hsound.1,hashOf_known,hashOf_log,fun _ => hsound.2 hok⟩

theorem settleFile_always {st : HashStage} (hsound : StageSound P c v p st)
    (hcase : HashStageCase c v p (.ok st))
    (hready : shouldProcess (decidedFile c v (p.row v)) = true → Ready c v (p.row v))
    (hkeep : SavesKeep P c v p) : (settleFile c v p (st.compared c)).session.Always P := by
  have hsession : (st.compared c).session = st.session := by
    unfold HashStage.compared; split <;> rfl
  unfold settleFile
  dsimp only
  split
  · rw [hsession]
    split
    · exact always_show hP _ hsound.always.requestReplay
    · exact always_show hP _ hsound.always
  · rename_i hopen
    have hopen : (st.compared c).blocked = false := by simpa using hopen
    obtain ⟨hcompared,hmatch⟩ := compared_of_open hopen
    rw [hcompared] at hopen ⊢
    split
    · exact always_show hP _ hsound.always
    · rename_i hsaves
      have hupdate : shouldUpdateDb c st.file = true ∨ st.pathKnown = false := by
        cases hknown : st.pathKnown with
        | false => exact .inr rfl
        | true =>
          simp only [hknown,Bool.true_and,Bool.or_eq_true,not_or,Bool.not_eq_true,Bool.not_eq_false'] at hsaves
          exact .inl hsaves.1
      have hsaved := always_save hP c (v.signal.halted .record) v.save v.entry.path st.file st.pathKnown
        true hsound.always <| by
          intro hdry hdone t' ht'
          have hupdate : shouldUpdateDb c st.file = true := by
            rcases hupdate with hu | hunknown
            · exact hu
            · have hnew : st.file.db.relativePathWasInDbBeforeProcessing = false := by
                rw [hashStage_row hcase]
                by_contra hk
                rw [hsound.known (by simpa using hk)] at hunknown
                cases hunknown
              simp [shouldUpdateDb,allowLockedUpdate,hnew]
          obtain ⟨hprocess,hcolumns⟩ := settled_columns hdry hdone hcase hopen hmatch hupdate
          obtain ⟨extra,hlog⟩ := hsound.log
          obtain ⟨hmet,hextra⟩ := met_mem hlog
          exact hkeep st.session.events (boundColumns st.file) st.session.table t' hdry hextra
            ⟨hready hprocess,hmet,hcolumns⟩
            (find_saved (hsound.linked (blocked_eq_false hopen).2.1) ht') hsound.always.working
      split
      · exact always_show hP _ hsaved
      · exact hsaved

theorem processFile_always (h : p.session.Always P) (hkeep : SavesKeep P c v p) :
    (processFile c v p).session.Always P := by
  rcases processFile_cases c v p with ⟨status,session,hstop,-,hsession⟩ |
    ⟨-,⟨-,hstop⟩ | ⟨-,hnext⟩⟩ | ⟨-,-,hleft⟩ | ⟨-,hchanged,hwatched,hrun⟩
  · rw [hstop]
    rcases hsession with rfl | rfl
    · exact h
    · exact h.rollbackStore
  · rw [hstop]
    exact ((h.report hP _).sideWrite _).requestReplay
  · rw [hnext]
    exact ((h.report hP _).sideWrite _).requestReplay
  · rw [hleft]
    exact h.emit hP _
  · have hready : shouldProcess (decidedFile c v (p.row v)) = true → Ready c v (p.row v) :=
      fun hprocess => ⟨hprocess,hchanged,hwatched⟩
    have hcase := hashStage_cases c v p
    have hsound := hashStage_sound hP h hready hkeep hcase
    rw [hrun]
    cases hstage : hashStage c v p (decidedStage c v p) with
    | error p' => exact hsound.1 p' hstage
    | ok st =>
      rw [hstage] at hcase
      exact settleFile_always hP (hsound.2 st hstage) hcase hready hkeep

end Always
end Precizer.Traversal
