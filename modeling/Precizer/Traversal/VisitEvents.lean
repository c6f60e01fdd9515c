import Precizer.Traversal.SmoothWalk

/-! # What a visit adds to the log

A pass only appends to the log. Which kinds of events a visit may append depends on its
decisions: reading needs a file that is let through and rehashed, a checkpoint in addition
one whose row is not sealed, and the last save a record that has to be written.
-/
namespace Precizer.Traversal
open General Rational Digest Database

/-- Events of every visit: what it met, its reports and the statements around a batch. -/
def Event.bookkeeping : Event → Bool
  | .met _ _ _ => true
  | .reported _ => true
  | .statement .begin _ => true
  | .statement .commit _ => true
  | .statement .rollback _ => true
  | _ => false

/-- No statement that writes a row. -/
def Event.Harmless : Event → Prop
  | .statement (.save _) _ => False
  | .statement (.delete _) _ => False
  | _ => True

theorem harmless_of_bookkeeping {e : Event} (h : e.bookkeeping = true) : e.Harmless := by
  cases e with
  | statement s autocommit =>
    cases s with
    | save => cases h
    | delete => cases h
    | begin | commit | rollback => trivial
  | met | read | hashed | reported => trivial

/-- The log has grown, and only by such events. -/
def Adds (Q : Event → Prop) (s s' : Session) : Prop :=
  ∃ extra, s'.events = s.events ++ extra ∧ ∀ e ∈ extra, Q e

section Log

variable {Q : Event → Prop} {s s' s'' : Session}

theorem Adds.same (h : s'.events = s.events) : Adds Q s s' := ⟨[],by rw [h,List.append_nil],fun e he => by cases he⟩

theorem Adds.refl (s : Session) : Adds Q s s := .same rfl

theorem Adds.trans (h : Adds Q s s') (h' : Adds Q s' s'') : Adds Q s s'' := by
  obtain ⟨x,hx,hQ⟩ := h
  obtain ⟨y,hy,hQ'⟩ := h'
  refine ⟨x ++ y,by rw [hy,hx,List.append_assoc],?_⟩
  intro e he
  rcases List.mem_append.mp he with he | he
  · exact hQ e he
  · exact hQ' e he

theorem Adds.mono {Q' : Event → Prop} (h : Adds Q s s') (hQ : ∀ e, Q e → Q' e) : Adds Q' s s' := by
  obtain ⟨extra,hextra,hmem⟩ := h
  exact ⟨extra,hextra,fun e he => hQ e (hmem e he)⟩

theorem adds_emit (s : Session) {e : Event} (he : Q e) : Adds Q s (s.emit e) := by
  refine ⟨[e],rfl,?_⟩
  intro e' he'
  rwa [List.mem_singleton.mp he']

theorem adds_sideWrite (s : Session) (o : SqlOutcome) : Adds Q s (s.sideWrite o) := by
  unfold Session.sideWrite
  split
  · exact .same rfl
  · exact .same rfl

def Session.since (s s' : Session) : List Event := s'.events.drop s.events.length

theorem Adds.since (h : Adds Q s s') : ∀ e ∈ s.since s', Q e := by
  obtain ⟨extra,hextra,hQ⟩ := h
  unfold Session.since
  rw [hextra,List.drop_left]
  exact hQ

/-- An event emitted on the way is among the added ones. -/
theorem mem_since {Q' : Event → Prop} {e : Event} (h : Adds Q s s') (h' : Adds Q' (s'.emit e) s'') :
    e ∈ s.since s'' := by
  obtain ⟨extra,hextra,-⟩ := h
  obtain ⟨later,hlater,-⟩ := h'
  have hall : s''.events = s.events ++ (extra ++ [e] ++ later) := by
    rw [hlater,show (s'.emit e).events = s'.events ++ [e] from rfl,hextra]
    simp
  unfold Session.since
  rw [hall,List.drop_left]
  simp

end Log

section Statements

variable {Q : Event → Prop} (hplain : ∀ e : Event, e.bookkeeping = true → Q e) (c : Config) (halted : Bool)
  (path : RelativePath) (s : Session)

include hplain in
theorem adds_report (r : Report) : Adds Q s (s.report r) := adds_emit s (hplain _ rfl)

include hplain in
theorem adds_execBegin (o : SqlOutcome) : Adds Q s (execBegin s o).2 := by
  have hadded : Adds Q s (s.execute .begin) := adds_emit s (hplain _ rfl)
  unfold execBegin
  dsimp only
  split
  · exact hadded
  · exact hadded

include hplain in
theorem adds_execCommit (o : SqlOutcome) : Adds Q s (execCommit s o).2 := by
  have hadded : Adds Q s (s.execute .commit) := adds_emit s (hplain _ rfl)
  unfold execCommit
  split
  · exact hadded
  · cases o <;> exact hadded

include hplain in
theorem adds_execRollback (ok : Bool) : Adds Q s (execRollback s ok).2 := by
  have hadded : Adds Q s (s.execute .rollback) := adds_emit s (hplain _ rfl)
  unfold execRollback
  dsimp only
  split
  · exact hadded
  · exact hadded

include hplain in
theorem adds_begin (script : SaveScript) : Adds Q s (dbFileTransactionBegin c halted script s).2 := by
  have hexec := adds_execBegin hplain s script.begin
  unfold dbFileTransactionBegin
  split
  · exact .refl s
  · split
    · exact .refl s
    · dsimp only
      split
      · exact hexec
      · exact hexec

include hplain in
theorem adds_commit (o : SqlOutcome) : Adds Q s (dbFileTransactionCommit halted o s).2 := by
  have hexec := adds_execCommit hplain s o
  unfold dbFileTransactionCommit
  split
  · dsimp only
    split
    · exact hexec
    · exact hexec
  · exact .refl s

include hplain in
theorem adds_check (nowNs : ℤ) (o : SqlOutcome) : Adds Q s (dbFileTransactionCheck halted nowNs o s).2 := by
  unfold dbFileTransactionCheck
  split
  · exact adds_commit hplain halted s o
  · exact .refl s

theorem adds_write (hsave : ∀ autocommit, Q (.statement (.save path) autocommit)) (t : Option FilesTable)
    (o : SqlOutcome) : Adds Q s (execWrite s path t o).2 := by
  have hadded : Adds Q s (s.execute (.save path)) := adds_emit s (hsave _)
  cases o with
  | done =>
    cases t with
    | none => exact hadded
    | some t => exact hadded.trans (.same (Store.write_log _ _))
  | failed => exact hadded
  | rolledBack => exact hadded

include hplain in
theorem adds_save (hsave : c.dryRun = false → ∀ autocommit, Q (.statement (.save path) autocommit))
    (script : SaveScript) (file : File) (pathKnown mark : Bool) : Adds Q s (dbSaveFileRecord c halted script path file pathKnown mark s).session := by
  have hbegun := adds_begin hplain c halted s script
  have hupdate (hdry : c.dryRun = false) := adds_write path (dbFileTransactionBegin c halted script s).2 (hsave hdry)
  unfold dbSaveFileRecord dbUpdateTheRecordById dbInsertTheRecord
  split
  · exact .refl s
  · dsimp only
    split
    · exact hbegun
    · cases hdry : c.dryRun with
      | true =>
        split
        · exact hbegun
        · exact hbegun
      | false =>
        split
        · exact hbegun.trans (hupdate hdry _ _)
        · simp only [Bool.false_eq_true,↓reduceIte]
          split
          · exact hbegun.trans (hupdate hdry _ _)
          · exact hbegun.trans (hupdate hdry _ _)

end Statements

/-- The kinds of events the processing of one file may add, but for its last save. -/
structure Permits (Q : Event → Prop) (c : Config) (v : Visit) (row : DBrow) : Prop where
  plain : ∀ e : Event, e.bookkeeping = true → Q e
  hashes : Ready c v row → (decidedFile c v row).rehash = true →
    (∀ offset bytes, Q (.read v.entry.path offset bytes)) ∧
      ∀ disk start bytes toEnd, Q (.hashed v.entry.path disk start bytes toEnd)
  checkpoints : Ready c v row → (decidedFile c v row).rehash = true →
    lockChecksumReady (decidedFile c v row) = false → HashRuns c v (decidedFile c v row) →
    v.disk.turns (decidedFile c v row).checksumOffset ≠ [] → c.dryRun = false →
    ∀ autocommit, Q (.statement (.save v.entry.path) autocommit)

section Hash

variable {Q : Event → Prop} {c : Config} {v : Visit} {path : RelativePath}

/-- A sealed row gets no checkpoint. -/
theorem checkpoint_unsealed {file : File} (h : periodicHashCheckpointIsAllowed c file = true) :
    lockChecksumReady file = false := by
  unfold periodicHashCheckpointIsAllowed at h
  split at h
  · cases h
  · split at h
    · cases h
    · split at h
      · cases h
      · rename_i hno
        simpa [lockChecksumReady,hasSavedOffset,Nat.pos_iff_ne_zero] using hno

theorem adds_hashTurn (hplain : ∀ e : Event, e.bookkeeping = true → Q e)
    (hread : ∀ offset bytes, Q (.read path offset bytes)) (n : ℕ) (t : Turn) {h : HashState}
    (hsave : lockChecksumReady h.file = false → c.dryRun = false → ∀ autocommit, Q (.statement (.save path) autocommit)) :
    Adds Q h.session (hashTurn c v path n t h).1.session ∧
      (hashTurn c v path n t h).1.file.frame = h.file.frame := by
  rcases hashTurn_cases c v path n t h with ⟨-,hr⟩ | ⟨-,hr⟩ | ⟨-,md,hupd,hcase⟩
  · rw [hr]
    exact ⟨.refl _,rfl⟩
  · rw [hr]
    exact ⟨.refl _,rfl⟩
  · have habsorbed : Adds Q h.session (h.absorbed path md t.bytes).session := adds_emit _ (hread _ _)
    have hsaved : Adds Q h.session ((h.absorbed path md t.bytes).checkpointSave c v path n t).session := by
      refine habsorbed.trans ?_
      unfold HashState.checkpointSave
      split
      · rename_i hallowed
        have hunsealed : lockChecksumReady (h.absorbed path md t.bytes).file = false := checkpoint_unsealed hallowed
        exact adds_save hplain c _ path _ (hsave hunsealed) _ _ _ _
      · exact .refl _
    have hcommitted := hsaved.trans (adds_commit hplain (v.signal.halted (.committed n))
      ((h.absorbed path md t.bytes).checkpointSave c v path n t).session t.commit)
    have hframe : ((h.absorbed path md t.bytes).checkpointSave c v path n t).file.frame = h.file.frame :=
      (HashState.checkpointSave_extends c v path n t (h.absorbed path md t.bytes)).frame.trans
        (HashState.absorbed_extends hupd).frame
    dsimp only at hcase
    rcases hcase with ⟨-,hr⟩ | ⟨-,hr⟩ | ⟨-,-,hr⟩ | ⟨-,-,hr⟩
    · rw [hr]
      exact ⟨habsorbed,rfl⟩
    · rw [hr]
      exact ⟨hsaved,hframe⟩
    · rw [hr]
      exact ⟨hcommitted,hframe⟩
    · rw [hr]
      exact ⟨hcommitted,hframe⟩

theorem adds_hashLoop (hplain : ∀ e : Event, e.bookkeeping = true → Q e)
    (hread : ∀ offset bytes, Q (.read path offset bytes)) (readErrno : Option ℕ) (turns : List Turn) (n : ℕ)
    {h : HashState}
    (hsave : turns ≠ [] → lockChecksumReady h.file = false → c.dryRun = false →
      ∀ autocommit, Q (.statement (.save path) autocommit)) :
    Adds Q h.session (hashLoop c v path readErrno n turns h).session := by
  induction turns generalizing n h with
  | nil =>
    unfold hashLoop HashState.readEnd
    split
    · exact .refl _
    · split <;> exact .refl _
  | cons t rest ih =>
    obtain ⟨hturn,hframe⟩ := adds_hashTurn (c := c) (v := v) hplain hread n t (hsave (List.cons_ne_nil t rest))
    unfold hashLoop
    split
    · exact .refl _
    · dsimp only
      split
      · exact hturn
      · refine hturn.trans (ih (n + 1) fun _ => ?_)
        rw [frame_congr lockChecksumReady (fun _ => rfl) hframe]
        exact hsave (List.cons_ne_nil t rest)

theorem adds_sha512sum (hplain : ∀ e : Event, e.bookkeeping = true → Q e)
    (hread : ∀ offset bytes, Q (.read path offset bytes))
    (hhashed : ∀ disk start bytes toEnd, Q (.hashed path disk start bytes toEnd)) (file : File) (pathKnown : Bool)
    (s : Session) (hsave : lockChecksumReady file = false → HashRuns c v file →
      v.disk.turns file.checksumOffset ≠ [] → c.dryRun = false → ∀ autocommit, Q (.statement (.save path) autocommit)) :
    Adds Q s (sha512sum c v path file pathKnown s).session := by
  unfold sha512sum
  dsimp only
  split
  · exact .refl s
  · rename_i hopen
    split
    · rename_i hseek
      split
      · rename_i hperform
        refine (adds_hashLoop (h := hashStart v file pathKnown s) hplain hread _ _ 0 ?_).trans (adds_emit _ (hhashed _ _ _ _))
        rw [show lockChecksumReady (hashStart v file pathKnown s).file = lockChecksumReady file from
          frame_congr lockChecksumReady (fun _ => rfl) (preparedContext_frame file)]
        exact fun hturns hfree => hsave hfree ⟨hopen,hseek,hperform⟩ hturns
      · exact .refl s
    · exact .refl s

end Hash

section File

variable {Q : Event → Prop} {c : Config} {v : Visit} {p : Pass}

theorem adds_showStage (hplain : ∀ e : Event, e.bookkeeping = true → Q e) (file : File) (s : Session) :
    Adds Q s (showStage c v file s) := by
  have hfold : ∀ (labels : List FileLabel) (s : Session),
      Adds Q s (labels.foldl (fun s label => s.report (.file v.entry.path label)) s) := by
    intro labels
    induction labels with
    | nil => exact fun s => .refl s
    | cons label rest ih => exact fun s => (adds_report hplain s _).trans (ih _)
  exact (hfold _ s).trans (adds_sideWrite _ _)

theorem adds_hashStage (h : Permits Q c v (p.row v)) {r : Except Pass HashStage}
    (hchanged : leavesUnchanged c (decidedFile c v (p.row v)) = false)
    (hwatched : lockedTimestampDriftOnly c (decidedFile c v (p.row v)) = false) (hcase : HashStageCase c v p r) :
    (∀ p', r = .error p' → Adds Q p.session p'.session) ∧ ∀ st, r = .ok st → Adds Q p.session st.session := by
  have hmet : Adds Q p.session (decidedStage c v p).session := adds_emit _ (h.plain _ rfl)
  have hhashed (hprocess : shouldProcess (decidedFile c v (p.row v)) = true)
      (hrehash : (decidedFile c v (p.row v)).rehash = true) : Adds Q p.session (hashOf c v p).session := by
    have hready : Ready c v (p.row v) := ⟨hprocess,hchanged,hwatched⟩
    obtain ⟨hread,hhashed⟩ := h.hashes hready hrehash
    exact hmet.trans (adds_sha512sum h.plain hread hhashed _ _ _ (h.checkpoints hready hrehash))
  cases hcase with
  | unprocessed | reused | haltedResume =>
    refine ⟨(fun p' hp' => by cases hp'),?_⟩
    rintro st ⟨⟩
    exact hmet
  | failed hprocess hrehash | interrupted hprocess hrehash | hashed hprocess hrehash =>
    refine ⟨(fun p' hp' => by cases hp'),?_⟩
    rintro st ⟨⟩
    exact hhashed hprocess hrehash
  | haltedEarly =>
    refine ⟨?_,(fun st hst => by cases hst)⟩
    rintro p' ⟨⟩
    exact hmet
  | dropped hprocess hrehash =>
    refine ⟨?_,(fun st hst => by cases hst)⟩
    rintro p' ⟨⟩
    exact hhashed hprocess hrehash

theorem adds_settleFile (hplain : ∀ e : Event, e.bookkeeping = true → Q e)
    (hsave : c.dryRun = false → ∀ autocommit, Q (.statement (.save v.entry.path) autocommit)) (st : HashStage) :
    Adds Q st.session (settleFile c v p st).session := by
  unfold settleFile
  dsimp only
  split
  · split
    · exact (Adds.same rfl).trans (adds_showStage hplain _ _)
    · exact adds_showStage hplain _ _
  · split
    · exact adds_showStage hplain _ _
    · have hsaved := adds_save hplain c (v.signal.halted .record) v.entry.path st.session hsave v.save st.file
        st.pathKnown true
      split
      · exact hsaved.trans (adds_showStage hplain _ _)
      · exact hsaved

/-- After the mismatch test the stage carries the tested record. -/
theorem compared_stage {file : File} {st : HashStage} (h : StageReady c v.entry.path false file st) :
    (st.compared c).hashFailed = false ∧ (st.compared c).session = st.session ∧
      (st.compared c).pathKnown = st.pathKnown ∧
      (comparedRecord c false file).Alike (st.compared c).file ∧
      (st.compared c).file.db = st.file.db := by
  obtain ⟨hstatus,halike,-⟩ := h.succeeding rfl
  have hcompared : (st.compared c).file = comparedRecord c false st.file := by
    unfold HashStage.compared comparedRecord
    rw [h.hashFailed,hstatus]
    split <;> rfl
  have hdb : (comparedRecord c false st.file).db = st.file.db := by
    unfold comparedRecord
    split <;> rfl
  rw [hcompared]
  refine ⟨?_,?_,?_,comparedRecord_alike (c := c) false halike,hdb⟩
  · unfold HashStage.compared
    split <;> exact h.hashFailed
  · unfold HashStage.compared
    split <;> rfl
  · unfold HashStage.compared
    split <;> rfl

/-- A record that is not written adds no save. -/
theorem adds_settleFile_unsaved (hplain : ∀ e : Event, e.bookkeeping = true → Q e) {failed : Bool} {file : File}
    {st : HashStage} (h : StageReady c v.entry.path failed file st)
    (hnone : (settledOutcome c v.entry.path failed file).columns = none) :
    Adds Q st.session (settleFile c v p (st.compared c)).session := by
  have hshown (s : Session) (file : File) (hs : s.events = st.session.events) :
      Adds Q st.session (showStage c v file s) := (Adds.same hs).trans (adds_showStage hplain file s)
  cases failed with
  | true =>
    have hcompared : st.compared c = st := by
      unfold HashStage.compared
      rw [if_neg (by simp [checksumMismatch,h.hashFailed])]
    rw [hcompared]
    unfold settleFile
    dsimp only
    rw [if_pos (by simp [HashStage.blocked,h.hashFailed])]
    split
    · exact hshown _ _ rfl
    · exact hshown _ _ rfl
  | false =>
    obtain ⟨hfailed,hsession,hknown,halike,hdb⟩ := compared_stage h
    have hknownRow := h.known
    rw [← hknown,← hdb] at hknownRow
    generalize st.compared c = st' at *
    have hblocked : st'.blocked = blockedRecord false (comparedRecord c false file) := by
      unfold HashStage.blocked
      rw [hfailed]
      exact shown_congr (blockedRecord false) (fun _ => rfl) halike.shown
    have hupdate : shouldUpdateDb c st'.file = shouldUpdateDb c (comparedRecord c false file) :=
      shouldUpdateDb_alike halike
    unfold settledOutcome at hnone
    dsimp only at hnone
    unfold settleFile
    dsimp only
    rw [hblocked]
    split
    · split
      · exact hshown st'.session.requestReplay _ (congrArg Session.events hsession :)
      · exact hshown _ _ (congrArg Session.events hsession)
    · rename_i hopen
      rw [if_neg hopen] at hnone
      have hunneeded : shouldUpdateDb c (comparedRecord c false file) = false := by
        by_contra hneeded
        rw [if_neg (by simpa using hneeded)] at hnone
        cases hnone
      have hpathKnown : st'.pathKnown = true := by
        apply hknownRow
        by_contra hunknown
        rw [unknown_update (c := c) (by simpa using hunknown),hunneeded] at hupdate
        cases hupdate
      rw [hupdate,hunneeded,hpathKnown,if_pos (by simp)]
      exact hshown _ _ (congrArg Session.events hsession)

theorem adds_processFile (h : Permits Q c v (p.row v))
    (hsave : c.dryRun = false → ∀ autocommit, Q (.statement (.save v.entry.path) autocommit)) :
    Adds Q p.session (processFile c v p).session := by
  have hlocked : Adds Q p.session (reportLockedUnavailable v p) :=
    ((adds_report h.plain _ _).trans (adds_sideWrite _ _)).trans (.same rfl)
  rcases processFile_cases c v p with ⟨status,session,hstop,-,hsession⟩ |
    ⟨-,⟨-,hstop⟩ | ⟨-,hnext⟩⟩ | ⟨-,-,hleft⟩ | ⟨-,hchanged,hwatched,hrun⟩
  · rw [hstop]
    rcases hsession with rfl | rfl
    · exact .refl _
    · exact .same rfl
  · rw [hstop]
    exact hlocked
  · rw [hnext]
    exact hlocked
  · rw [hleft]
    exact adds_emit _ (h.plain _ rfl)
  · obtain ⟨herror,hok⟩ := adds_hashStage h hchanged hwatched (hashStage_cases c v p)
    rw [hrun]
    cases hcase : hashStage c v p (decidedStage c v p) with
    | error p' => exact herror p' hcase
    | ok st =>
      have hcompared : (st.compared c).session = st.session := by
        unfold HashStage.compared; split <;> rfl
      exact (hcompared ▸ hok st hcase).trans (adds_settleFile h.plain hsave _)

/-- An undisturbed visit whose outcome writes nothing adds no save. -/
theorem adds_processFile_unsaved (hv : v.Smooth) (hp : p.status = successStatus)
    (hs : Synced p.session) (h : Permits Q c v (p.row v))
    (hnone : (fileOutcome c v (contents p.session.table v.entry.path)).columns = none) :
    Adds Q p.session (processFile c v p).session := by
  have hload := loadFile_smooth (c := c) hv hp
  have hlocked : Adds Q p.session (reportLockedUnavailable v p) :=
    ((adds_report h.plain _ _).trans (adds_sideWrite _ _)).trans (.same rfl)
  obtain ⟨i,hrow⟩ : ∃ i, p.row v = { storedRow (contents p.session.table v.entry.path) with ID := i } :=
    readRow_stored p.session.table v.entry.path
  unfold fileOutcome at hnone
  generalize storedRow (contents p.session.table v.entry.path) = row at hrow hnone
  dsimp only at hnone
  cases hpatterns : patternsMatch c v.entry.path with
  | false =>
    rw [hpatterns,if_neg (by decide)] at hload
    have hstop : processFile c v p = p.stop failureStatus p.session := by
      unfold processFile
      rw [hload]
    rw [hstop]
    exact .refl _
  | true =>
    rw [hpatterns,if_pos rfl] at hload
    rcases processFile_loaded c v p hload with ⟨-,⟨-,hstop⟩ | ⟨-,hnext⟩⟩ | ⟨-,-,hleft⟩ |
      ⟨havailable,hchanged,hwatched,hrun⟩
    · rw [hstop]
      exact hlocked
    · rw [hnext]
      exact hlocked
    · rw [hleft]
      exact adds_emit _ (h.plain _ rfl)
    · obtain ⟨-,hok⟩ := adds_hashStage h hchanged hwatched (hashStage_cases c v p)
      obtain ⟨st,hst,hstage⟩ := hashStage_smooth hv hs hrow hchanged hwatched
      obtain ⟨failed,file,hready,houtcome⟩ := hstage.record
      rw [hrun,hst]
      refine (hok st hst).trans (adds_settleFile_unsaved h.plain hready ?_)
      have hdecided : decidedFile c v (p.row v) = (decidedFile c v row).withID i := by
        rw [hrow,decidedFile_withID]
      have hsame : unavailableLocked c v row = false ∧ leavesUnchanged c (decidedFile c v row) = false ∧
          lockedTimestampDriftOnly c (decidedFile c v row) = false := by
        rw [hdecided] at hchanged hwatched
        rw [hrow] at havailable
        exact ⟨havailable,hchanged,hwatched⟩
      rw [hpatterns,hsame.1,hsame.2.1,hsame.2.2] at hnone
      rw [← houtcome]
      exact hnone

/-- A hash pass that reads the file leaves its summary behind. -/
theorem sha512sum_event {path : RelativePath} {file : File} (hruns : HashRuns c v file) (pathKnown : Bool) (s : Session) :
    ∃ s' bytes toEnd, Adds (fun _ => True) s s' ∧ (sha512sum c v path file pathKnown s).session =
      s'.emit (.hashed path v.disk file.checksumOffset bytes toEnd) := by
  have hloop : Adds (fun _ => True) (hashStart v file pathKnown s).session
      (hashLoop c v path (v.disk.readErrno file.checksumOffset) 0 (v.disk.turns file.checksumOffset)
        (hashStart v file pathKnown s)).session :=
    adds_hashLoop (fun _ _ => trivial) (fun _ _ => trivial) _ _ 0 (fun _ _ _ _ => trivial)
  unfold sha512sum
  rw [hruns.openable]
  dsimp only
  rw [if_pos hruns.seekable,if_pos hruns.performed]
  exact ⟨_,_,_,hloop,rfl⟩

theorem hashed_since (hv : v.Smooth) (hp : p.status = successStatus)
    (hs : Synced p.session) (hpatterns : patternsMatch c v.entry.path = true) (hready : Ready c v (p.row v))
    (hrehash : (decidedFile c v (p.row v)).rehash = true) (hruns : HashRuns c v (decidedFile c v (p.row v))) :
    ∃ bytes toEnd, .hashed v.entry.path v.disk (decidedFile c v (p.row v)).checksumOffset bytes toEnd ∈
      p.session.since (processFile c v p).session := by
  have hload := loadFile_smooth (c := c) hv hp
  rw [hpatterns,if_pos rfl] at hload
  have hmet : Adds (fun _ => True) p.session (decidedStage c v p).session := adds_emit _ trivial
  obtain ⟨s',bytes,toEnd,hadds,hemitted⟩ := @sha512sum_event c v v.entry.path _ hruns
    (p.row v).relativePathWasInDbBeforeProcessing (decidedStage c v p).session
  refine ⟨bytes,toEnd,?_⟩
  rcases processFile_loaded c v p hload with ⟨hlocked,-⟩ | ⟨-,hleft,-⟩ | ⟨-,hchanged,hwatched,hrun⟩
  · simp [unavailableLocked,hready.readable] at hlocked
  · rw [hready.changed,hready.watched] at hleft
    rcases hleft with hno | hno
    · cases hno
    · cases hno
  · obtain ⟨i,hrow⟩ : ∃ i, p.row v = { storedRow (contents p.session.table v.entry.path) with ID := i } :=
      readRow_stored p.session.table v.entry.path
    obtain ⟨st,hst,-⟩ := hashStage_smooth hv hs hrow hchanged hwatched
    have hsession : st.session = (hashOf c v p).session := by
      have hstatus : (decidedStage c v p).status = successStatus := by
        change outcome true (v.signal.halted .stat) = successStatus
        rw [Signal.halted_none hv.quiet]
        rfl
      have hfile : (decidedStage c v p).file = decidedFile c v (p.row v) := rfl
      have hhashOf : sha512sum c v v.entry.path (decidedFile c v (p.row v))
          (decidedFile c v (p.row v)).db.relativePathWasInDbBeforeProcessing (decidedStage c v p).session =
          hashOf c v p := by
        rw [decidedFile_db]
        rfl
      unfold hashStage at hst
      dsimp only at hst
      rw [hfile,if_pos hready.process,if_pos hrehash,if_pos hstatus,hhashOf,Signal.raised_none hv.quiet] at hst
      split at hst
      · cases hst
        rfl
      · cases hst
        rfl
    have hsettled : Adds (fun _ => True) (st.compared c).session (settleFile c v p (st.compared c)).session :=
      adds_settleFile (fun _ _ => trivial) (fun _ _ => trivial) _
    have hcompared : (st.compared c).session = st.session := by
      unfold HashStage.compared
      split <;> rfl
    rw [hrun,hst]
    rw [hcompared,hsession,show (hashOf c v p).session = _ from hemitted] at hsettled
    exact mem_since (hmet.trans hadds) hsettled

end File

end Precizer.Traversal
