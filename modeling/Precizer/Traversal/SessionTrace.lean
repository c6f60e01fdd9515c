import Precizer.Traversal.IssuedSaves

/-! # What a traversal does to its session

Between two sessions of one pass there are only notes, automatic rollbacks, commits and
saves; a trace is labelled with its saves. An invariant of the session is proved once for each
of these steps, and the labels of a pass are the saves it issues.
-/
namespace Precizer.Traversal
open General Rational Digest Database

def Event.quiet : Event → Bool
  | .statement _ _ => false
  | _ => true

inductive SessionStep (c : Config) : Session → List SaveCall → Session → Prop where
  | emit (s : Session) (e : Event) (h : e.quiet = true) : SessionStep c s [] (s.emit e)
  | requestReplay (s : Session) : SessionStep c s [] s.requestReplay
  | rolledBack (s : Session) : SessionStep c s [] s.rollbackStore
  | commit (halted : Bool) (o : SqlOutcome) (s : Session) :
      SessionStep c s [] (dbFileTransactionCommit halted o s).2
  | save (halted : Bool) (script : SaveScript) (path : RelativePath) (file : File) (pathKnown mark : Bool)
      (s : Session) : SessionStep c s [saveCall c halted script path file pathKnown mark s]
        (dbSaveFileRecord c halted script path file pathKnown mark s).session

abbrev SessionTrace (c : Config) : Session → List SaveCall → Session → Prop := LabelledTrace (SessionStep c)

variable {c : Config} {v : Visit} {p : Pass} {s s₀ : Session} {calls : List SaveCall}

theorem SessionTrace.report (h : SessionTrace c s₀ calls s) (r : Report) : SessionTrace c s₀ calls (s.report r) :=
  h.silent (.emit s (.reported r) rfl)

theorem SessionTrace.emit (h : SessionTrace c s₀ calls s) {e : Event} (he : e.quiet = true) :
    SessionTrace c s₀ calls (s.emit e) := h.silent (.emit s e he)

theorem SessionTrace.requestReplay (h : SessionTrace c s₀ calls s) : SessionTrace c s₀ calls s.requestReplay :=
  h.silent (.requestReplay s)

theorem SessionTrace.sideWrite (h : SessionTrace c s₀ calls s) (o : SqlOutcome) :
    SessionTrace c s₀ calls (s.sideWrite o) := by
  unfold Session.sideWrite
  split
  · exact h.silent (.rolledBack s)
  · exact h

theorem SessionTrace.commit (h : SessionTrace c s₀ calls s) (halted : Bool) (o : SqlOutcome) :
    SessionTrace c s₀ calls (dbFileTransactionCommit halted o s).2 := h.silent (.commit halted o s)

theorem SessionTrace.save (h : SessionTrace c s₀ calls s) (halted : Bool) (script : SaveScript) (path : RelativePath)
    (file : File) (pathKnown mark : Bool) :
    SessionTrace c s₀ (calls ++ [saveCall c halted script path file pathKnown mark s])
      (dbSaveFileRecord c halted script path file pathKnown mark s).session :=
  h.tail (.save halted script path file pathKnown mark s)

theorem checkBatch_trace (v : Visit) (p : Pass) : SessionTrace c p.session [] (checkBatch v p).session := by
  unfold checkBatch dbFileTransactionCheck
  split
  · dsimp only
    split
    · exact SessionTrace.commit .refl _ _
    · exact .refl
  · exact .refl

/-! ## Hashing -/

theorem checkpointSave_trace (c : Config) (v : Visit) (path : RelativePath) (n : ℕ) (t : Turn) {h : HashState}
    (hs : SessionTrace c s₀ calls h.session) :
    SessionTrace c s₀ (calls ++ checkpointCalls c v path n t h) (h.checkpointSave c v path n t).session := by
  unfold HashState.checkpointSave checkpointCalls
  split
  · exact hs.save _ _ _ _ _ _
  · rwa [List.append_nil]

theorem hashTurn_trace (c : Config) (v : Visit) (path : RelativePath) (n : ℕ) (t : Turn) {h : HashState}
    (hs : SessionTrace c s₀ calls h.session) :
    SessionTrace c s₀ (calls ++ hashTurnCalls c v path n t h) (hashTurn c v path n t h).1.session := by
  unfold hashTurn hashTurnCalls
  by_cases hgoes : h.status = successStatus
  · rw [if_pos hgoes,if_pos hgoes]
    rcases hupd : sha512Update h.file.mdContext t.bytes with ⟨status,md⟩
    cases status with
    | cryptOk =>
      have habsorbed : SessionTrace c s₀ calls (h.absorbed path md t.bytes).session := hs.emit rfl
      have hsaved := checkpointSave_trace c v path n t habsorbed
      dsimp only
      cases (h.absorbed path md t.bytes).checkpointDue t.nowNs with
      | false => simpa using habsorbed
      | true =>
        rw [if_pos rfl,if_pos rfl]
        split
        · exact hsaved
        · split
          · exact hsaved.commit _ _
          · exact hsaved.commit _ _
    | _ => simpa using hs
  · rw [if_neg hgoes,if_neg hgoes,List.append_nil]
    exact hs

theorem hashLoop_trace (c : Config) (v : Visit) (path : RelativePath) (readErrno : Option ℕ) (n : ℕ)
    (turns : List Turn) {h : HashState} {calls : List SaveCall} (hs : SessionTrace c s₀ calls h.session) :
    SessionTrace c s₀ (calls ++ hashLoopCalls c v path n turns h) (hashLoop c v path readErrno n turns h).session := by
  induction turns generalizing n h calls with
  | nil =>
    rw [hashLoopCalls,List.append_nil]
    unfold hashLoop
    split
    · exact hs
    · unfold HashState.readEnd
      split <;> exact hs
  | cons t rest ih =>
    have hturn := hashTurn_trace c v path n t hs
    unfold hashLoop hashLoopCalls
    split
    · rwa [List.append_nil]
    · dsimp only
      split
      · rwa [List.append_nil]
      · rw [← List.append_assoc]
        exact ih (n + 1) hturn

theorem sha512sum_trace (c : Config) (v : Visit) (path : RelativePath) (file : File) (pathKnown : Bool)
    (hs : SessionTrace c s₀ calls s) :
    SessionTrace c s₀ (calls ++ sha512sumCalls c v path file pathKnown s)
      (sha512sum c v path file pathKnown s).session := by
  unfold sha512sum sha512sumCalls
  cases v.disk.openErrno with
  | some errno => rwa [List.append_nil]
  | none =>
    cases v.disk.seekable file.checksumOffset with
    | false => simpa using hs
    | true =>
      cases performFileHashing c with
      | false => simpa using hs
      | true => exact (hashLoop_trace c v path _ _ _ (h := hashStart v file pathKnown s) hs).emit rfl

/-! ## The stages of a file -/

/-- The session a stage ends with, whether or not it leaves the processing. -/
def stageSession {α : Type} (session : α → Session) : Except Pass α → Session
  | .error p => p.session
  | .ok st => session st

theorem loadFile_trace (c : Config) (v : Visit) (p : Pass) :
    SessionTrace c p.session [] (stageSession FileStage.session (loadFile c v p)) := by
  have hlooked (b : Prop) [Decidable b] :
      SessionTrace c p.session [] (if b then p.session else p.session.sideWrite v.lookup) := by
    split
    · exact .refl
    · exact SessionTrace.sideWrite .refl _
  unfold loadFile
  dsimp only
  split
  · exact .refl
  · split
    · exact hlooked _
    · split
      · exact hlooked _
      · split
        · exact hlooked _
        · exact hlooked _

theorem accessFile_trace (v : Visit) (p : Pass) (st : FileStage) (hs : SessionTrace c s₀ calls st.session) :
    SessionTrace c s₀ calls (stageSession FileStage.session (accessFile v p st)) := by
  unfold accessFile
  split
  · exact hs
  · split
    · have hreported := ((hs.report (.lockedUnavailable v.entry.path v.access)).sideWrite v.remember).requestReplay
      dsimp only
      split
      · exact hreported
      · exact hreported
    · exact hs

theorem decideStage_trace (c : Config) (v : Visit) (p : Pass) (st : FileStage)
    (hs : SessionTrace c s₀ calls st.session) :
    SessionTrace c s₀ calls (stageSession FileStage.session (decideStage c v p st)) := by
  have hmet : SessionTrace c s₀ calls (st.session.emit (.met v.entry.path (statCopy v.entry.statp) v.disk)) :=
    hs.emit rfl
  unfold decideStage
  dsimp only
  split
  · exact hmet
  · split
    · exact hmet
    · exact hmet

theorem hashStage_trace (c : Config) (v : Visit) (p : Pass) (st : FileStage) (hs : SessionTrace c s₀ calls st.session) :
    SessionTrace c s₀ (calls ++ hashStageCalls c v st) (stageSession HashStage.session (hashStage c v p st)) := by
  unfold hashStage hashStageCalls
  cases shouldProcess st.file with
  | false => simpa [stageSession] using hs
  | true =>
    cases st.file.rehash with
    | false => simpa [stageSession] using hs
    | true =>
      by_cases hgoes : st.status = successStatus
      · have hhashed := sha512sum_trace c v v.entry.path st.file st.file.db.relativePathWasInDbBeforeProcessing hs
        simp only [hgoes,Bool.and_self,decide_true,↓reduceIte]
        split
        · split
          · split
            · exact hhashed
            · exact hhashed
          · exact hhashed
        · exact hhashed
      · simp only [hgoes,decide_false,Bool.and_false,Bool.false_eq_true,↓reduceIte,List.append_nil]
        split
        · split
          · split
            · exact hs
            · exact hs
          · exact hs
        · exact hs

theorem showStage_trace (c : Config) (v : Visit) (file : File) (hs : SessionTrace c s₀ calls s) :
    SessionTrace c s₀ calls (showStage c v file s) := by
  have hfold : ∀ (labels : List FileLabel) (s : Session), SessionTrace c s₀ calls s →
      SessionTrace c s₀ calls (labels.foldl (fun s label => s.report (.file v.entry.path label)) s) := by
    intro labels
    induction labels with
    | nil => exact fun s h => h
    | cons label rest ih => exact fun s h => ih _ (h.report _)
  exact (hfold _ s hs).sideWrite _

theorem settleFile_trace (st : HashStage) (hs : SessionTrace c s₀ calls st.session) :
    SessionTrace c s₀ (calls ++ settleCalls c v st) (settleFile c v p st).session := by
  unfold settleFile settleCalls
  dsimp only
  cases st.blocked with
  | true =>
    rw [Bool.true_or,Bool.true_or,if_pos rfl,if_pos rfl,List.append_nil]
    split
    · exact showStage_trace c v _ hs.requestReplay
    · exact showStage_trace c v _ hs
  | false =>
    simp only [Bool.false_or,Bool.false_eq_true,↓reduceIte]
    split
    · rw [List.append_nil]
      exact showStage_trace c v _ hs
    · have hsaved := hs.save (v.signal.halted .record) v.save v.entry.path st.file st.pathKnown true
      split
      · exact showStage_trace c v _ hsaved
      · exact hsaved

theorem decidedStages_trace (c : Config) (v : Visit) (p : Pass) (st : FileStage)
    (hs : SessionTrace c s₀ calls st.session) :
    SessionTrace c s₀ (calls ++ decidedCalls c v p st) (match hashStage c v p st with
      | .error p => p
      | .ok st => settleFile c v p (st.compared c)).session := by
  have hstage := hashStage_trace c v p st hs
  unfold decidedCalls
  cases hcase : hashStage c v p st with
  | error p' =>
    rw [hcase] at hstage
    rwa [List.append_nil]
  | ok st' =>
    rw [hcase] at hstage
    have hcompared : (st'.compared c).session = st'.session := by
      unfold HashStage.compared
      split <;> rfl
    rw [← List.append_assoc]
    exact settleFile_trace (st'.compared c) (hcompared ▸ hstage)

theorem processFile_trace (c : Config) (v : Visit) (p : Pass) :
    SessionTrace c p.session (processFileCalls c v p) (processFile c v p).session := by
  have hloaded := loadFile_trace c v p
  unfold processFile processFileCalls
  cases hload : loadFile c v p with
  | error p' =>
    rw [hload] at hloaded
    exact hloaded
  | ok loaded =>
    rw [hload] at hloaded
    have haccessed := accessFile_trace v p loaded hloaded
    dsimp only
    cases haccess : accessFile v p loaded with
    | error p' =>
      rw [haccess] at haccessed
      exact haccessed
    | ok accessed =>
      rw [haccess] at haccessed
      have hdecided := decideStage_trace c v p accessed haccessed
      dsimp only
      cases hdecide : decideStage c v p accessed with
      | error p' =>
        rw [hdecide] at hdecided
        exact hdecided
      | ok decided =>
        rw [hdecide] at hdecided
        have hstages := decidedStages_trace c v p decided hdecided
        rwa [List.nil_append] at hstages

theorem processDirectory_trace (c : Config) (v : Visit) (p : Pass) :
    SessionTrace c p.session [] (processDirectory c v p).session := by
  have hshow (path : RelativePath) (scope : Scope) :
      SessionTrace c p.session [] (directoryShow c path scope p.session) := by
    unfold directoryShow
    split
    · exact .refl
    · split
      · exact SessionTrace.report .refl _
      · split
        · exact SessionTrace.report .refl _
        · exact .refl
  unfold processDirectory
  dsimp only
  generalize (if v.signal.halted .path then v.staleText else v.entry.path) = path
  split
  · exact .refl
  · split
    · exact .refl
    · split
      · exact hshow _ _
      · split
        · exact hshow _ _
        · exact ((hshow _ _).report _).sideWrite _

theorem processUnreadable_trace (v : Visit) (report : RelativePath → Report) (p : Pass) :
    SessionTrace c p.session [] (processUnreadable v report p).session := by
  unfold processUnreadable
  dsimp only
  split
  · exact .refl
  · exact (SessionTrace.report .refl _).sideWrite _

theorem processEntry_trace (c : Config) (v : Visit) (p : Pass) :
    SessionTrace c p.session (if v.entry.info = .file then processFileCalls c v p else [])
      (processEntry c v p).session := by
  unfold processEntry
  cases v.entry.info with
  | directory => exact processDirectory_trace c v p
  | file => exact processFile_trace c v p
  | unreadableDirectory => exact processUnreadable_trace v _ p
  | error => exact processUnreadable_trace v _ p
  | noStat => exact processUnreadable_trace v _ p
  | other => exact .refl

/-! ## The walk -/

theorem traverseStep_trace (c : Config) (v : Visit) (p : Pass) :
    SessionTrace c p.session (traverseCalls c p v) (traverseStep c p v).session := by
  have hmet : SessionTrace c p.session [] (metState v p).session :=
    checkBatch_trace v { p with skipBelow := none }
  unfold traverseStep traverseCalls
  split
  · unfold visitEntry visitCalls
    split
    · exact .refl
    · rw [show checkBatch v { p with skipBelow := none } = metState v p from rfl]
      dsimp only
      cases (metState v p).status.failure with
      | true => exact hmet
      | false =>
        cases beyondMaxdepth c v.entry with
        | true =>
          simp only [Bool.false_eq_true,↓reduceIte,Bool.or_true]
          split
          · exact hmet
          · exact hmet
        | false => exact hmet.trans (processEntry_trace c v (metState v p))
  · exact .refl

theorem visits_trace (c : Config) (visits : List Visit) {p : Pass} {calls : List SaveCall}
    (hs : SessionTrace c s₀ calls p.session) :
    SessionTrace c s₀ (calls ++ visitsCalls c visits p) (visits.foldl (traverseStep c) p).session := by
  induction visits generalizing p calls with
  | nil => rwa [visitsCalls,List.append_nil]
  | cons v rest ih =>
    rw [visitsCalls,← List.append_assoc,List.foldl_cons]
    exact ih (hs.trans (traverseStep_trace c v p))

theorem walkRoot_trace (c : Config) (root : RootScript) {p : Pass} (hs : SessionTrace c s₀ calls p.session) :
    SessionTrace c s₀ (calls ++ visitsCalls c root.visits { p with skipBelow := none }) (walkRoot c root p).session := by
  have hvisits := visits_trace c root.visits (p := { p with skipBelow := none }) hs
  unfold walkRoot
  dsimp only
  split
  · exact hvisits
  · exact hvisits

theorem walkRoots_trace (c : Config) (roots : List RootScript) {p : Pass} {calls : List SaveCall}
    (hs : SessionTrace c s₀ calls p.session) :
    SessionTrace c s₀ (calls ++ walkCalls c roots p) (walkRoots c roots p).session := by
  induction roots generalizing p calls with
  | nil => rwa [walkCalls,List.append_nil]
  | cons root rest ih =>
    unfold walkCalls
    cases hopened : root.opened with
    | false =>
      have hreported : SessionTrace c s₀ calls p.reportRoot.session := (hs.report _).requestReplay
      rw [walkRoots,hopened]
      exact ih hreported
    | true =>
      cases hfts : root.ftsOpened with
      | false =>
        rw [walkRoots,hopened,hfts]
        simpa using hs
      | true =>
        have hroot := walkRoot_trace c root hs
        rw [walkRoots_cons root rest p hopened hfts]
        simp only [Bool.not_true,Bool.false_eq_true,↓reduceIte]
        rw [← List.append_assoc]
        split
        · rwa [List.append_nil]
        · exact ih hroot

/-- The pass as it is handed to its end, whether or not it was started. -/
def passWalked (c : Config) (script : PassScript) (s : Session) : Pass :=
  if c.compare then passStart script s
  else if leave script.haltedBefore script.bufferReady ≠ successStatus then passStart script s
  else walkRoots c script.roots (passStart script s)

theorem passWalked_trace (c : Config) (script : PassScript) (s : Session) :
    SessionTrace c s (fileListCalls c script s) (passWalked c script s).session := by
  unfold passWalked fileListCalls
  cases c.compare with
  | true => exact .refl
  | false =>
    rw [Bool.false_or]
    by_cases hready : leave script.haltedBefore script.bufferReady ≠ successStatus
    · rw [decide_eq_true hready]
      simp only [Bool.false_eq_true,↓reduceIte,if_pos hready]
      exact .refl
    · rw [decide_eq_false hready]
      simp only [Bool.false_eq_true,↓reduceIte,if_neg hready]
      have hstart : SessionTrace c s [] (passStart script s).session := .refl
      have hwalked := walkRoots_trace c script.roots hstart
      rwa [List.nil_append] at hwalked

theorem fileList_cases (c : Config) (script : PassScript) (s : Session) :
    (fileListCalls c script s = [] ∧ (fileList c script s).session = s ∧ (passWalked c script s).session = s) ∨
      fileList c script s = finishPass script.finish (passWalked c script s) := by
  unfold fileListCalls fileList passWalked
  cases c.compare with
  | true => exact .inl ⟨rfl,rfl,rfl⟩
  | false =>
    dsimp only
    by_cases hready : leave script.haltedBefore script.bufferReady ≠ successStatus
    · rw [decide_eq_true hready]
      simp only [Bool.or_true,Bool.false_eq_true,↓reduceIte,if_pos hready]
      exact .inl ⟨trivial,trivial,rfl⟩
    · simp only [Bool.false_eq_true,↓reduceIte,if_neg hready]
      exact .inr rfl

end Precizer.Traversal
