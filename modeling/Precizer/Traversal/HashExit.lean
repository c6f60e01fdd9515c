import Precizer.Traversal.HashPass

/-! # How the reading loop ends and what it keeps

The loop ends interrupted, failed or at the last read. In each case the state extends
the initial one by the chunks of a prefix of the reads. A property of the session
survives the loop as soon as every permitted checkpoint keeps it.
-/
namespace Precizer.Traversal
open General Rational Digest Database

namespace HashState

theorem Extends.restatus {path : RelativePath} {h h' : HashState} {m : List UInt8} (e : Extends path h h' m)
    (status : Return) (next : ℤ) : Extends path h { h' with status := status, nextCheckpointNs := next } m :=
  ⟨e.frame,e.flags,e.bytes,e.offset,e.absorbs,e.known,e.log,e.reads⟩

theorem turn_extends (c : Config) (v : Visit) (path : RelativePath) (n : ℕ) (t : Turn) {h : HashState}
    {md : SHA512Context} (hupd : sha512Update h.file.mdContext t.bytes = (.cryptOk,md)) :
    Extends path h ((h.absorbed path md t.bytes).checkpointSave c v path n t) t.bytes ∧
    Extends path h (((h.absorbed path md t.bytes).checkpointSave c v path n t).checkpointCommit v n t) t.bytes := by
  have hsave := (absorbed_extends hupd).trans (checkpointSave_extends c v path n t _)
  have hcommit := hsave.trans (checkpointCommit_extends v path n t _)
  simp only [List.append_nil] at hsave hcommit
  exact ⟨hsave,hcommit⟩

end HashState

/-- The three ways out of the reading loop after `k` chunks. -/
structure LoopExit (v : Visit) (path : RelativePath) (readErrno : Option ℕ) (n : ℕ) (turns : List Turn) (h result : HashState)
    (last : HashState) (k : ℕ) : Prop where
  le : k ≤ turns.length
  before : ∀ j < k, v.signal.raised (.turn (n + j)) = false
  ext : HashState.Extends path h last ((turns.take k).flatMap Turn.bytes)
  cases :
    (v.signal.raised (.turn (n + k)) = true ∧ (∃ halted, last.status = outcome true halted) ∧
      result = { last with loopWasInterrupted := true }) ∨
    ((∃ halted, last.status = outcome false halted) ∧ result = last) ∨
    (k = turns.length ∧ v.signal.raised (.turn (n + k)) = false ∧ last.status = successStatus ∧
      result = last.readEnd readErrno)

theorem raised_next {v : Visit} {n : ℕ}
    (h : v.signal.halted (.saved n) = true ∨ v.signal.halted (.committed n) = true) :
    v.signal.raised (.turn (n + 1)) = true := by
  rcases h with h | h
  · apply Signal.raised_mono (Signal.raised_of_halted h)
    rw [notAfter,decide_eq_true_eq]
    refine .inr ⟨rfl,?_⟩
    show 3 * n + 1 ≤ 3 * (n + 1)
    omega
  · apply Signal.raised_mono (Signal.raised_of_halted h)
    rw [notAfter,decide_eq_true_eq]
    refine .inr ⟨rfl,?_⟩
    show 3 * n + 2 ≤ 3 * (n + 1)
    omega

private theorem exit_step {v : Visit} {path : RelativePath} {readErrno : Option ℕ} {n : ℕ} {t : Turn} {rest : List Turn}
    {h h' result last : HashState} {k : ℕ} (hraised : v.signal.raised (.turn n) = false)
    (hext : HashState.Extends path h h' t.bytes)
    (hexit : LoopExit v path readErrno (n + 1) rest h' result last k) :
    LoopExit v path readErrno n (t :: rest) h result last (k + 1) where
  le := by simpa using hexit.le
  before := by
    intro j hj
    cases j with
    | zero => exact hraised
    | succ j =>
      rw [← Nat.add_assoc,Nat.add_right_comm]
      exact hexit.before j (Nat.lt_of_succ_lt_succ hj)
  ext := by simpa using hext.trans hexit.ext
  cases := by simpa [Nat.add_assoc,Nat.add_comm 1 k] using hexit.cases

theorem hashLoop_exit (c : Config) (v : Visit) (path : RelativePath) (readErrno : Option ℕ)
    (turns : List Turn) (n : ℕ) (h : HashState) {halted : Bool} (hs : h.status = outcome true halted)
    (hhalt : halted = true → v.signal.raised (.turn n) = true) :
    ∃ last k, LoopExit v path readErrno n turns h (hashLoop c v path readErrno n turns h) last k := by
  induction turns generalizing n h halted with
  | nil =>
    refine ⟨h,0,le_rfl,(fun j hj => absurd hj (Nat.not_lt_zero j)),.refl h,?_⟩
    unfold hashLoop
    by_cases hraised : v.signal.raised (.turn n) = true
    · exact .inl ⟨hraised,⟨halted,hs⟩,if_pos hraised⟩
    · have hfalse : halted = false := by
        cases halted with
        | false => rfl
        | true => exact absurd (hhalt rfl) hraised
      exact .inr (.inr ⟨rfl,by simpa using hraised,by rw [hs,hfalse]; rfl,if_neg hraised⟩)
  | cons t rest ih =>
    unfold hashLoop
    by_cases hraised : v.signal.raised (.turn n) = true
    · exact ⟨h,0,Nat.zero_le _,(fun j hj => absurd hj (Nat.not_lt_zero j)),.refl h,.inl ⟨hraised,⟨halted,hs⟩,if_pos hraised⟩⟩
    · rw [if_neg hraised]
      have hquiet : v.signal.raised (.turn n) = false := by simpa using hraised
      have hone : ∀ j < 1, v.signal.raised (.turn (n + j)) = false := by
        intro j hj
        obtain rfl : j = 0 := by omega
        exact hquiet
      rcases hashTurn_cases c v path n t h with ⟨hne,-⟩ | ⟨-,hturn⟩ | ⟨-,md,hupd,hcases⟩
      · cases halted with
        | false => exact absurd hs hne
        | true => exact absurd (hhalt rfl) hraised
      · refine ⟨{ h with status := failureStatus },0,Nat.zero_le _,
          (fun j hj => absurd hj (Nat.not_lt_zero j)),(HashState.Extends.refl h).restatus _ _,?_⟩
        exact .inr (.inl ⟨⟨false,rfl⟩,by simp [hturn]⟩)
      · obtain ⟨hsaveExt,hcommitExt⟩ := HashState.turn_extends c v path n t hupd
        have hfirst {last : HashState} (hext : HashState.Extends path h last t.bytes) :
            HashState.Extends path h last (((t :: rest).take 1).flatMap Turn.bytes) := by simpa using hext
        obtain ⟨ok,halted',hsaved,hsaveHalt⟩ :=
          HashState.checkpointSave_status c v path n t (h.absorbed path md t.bytes) hs
        obtain ⟨ok',halted'',hcommitted,hcommitHalt⟩ := HashState.checkpointCommit_status v n t _ hsaved
        rcases hcases with ⟨-,hturn⟩ | ⟨hfail,hturn⟩ | ⟨-,hfail,hturn⟩ | ⟨-,hgoes,hturn⟩
        · simp only [hturn,Bool.false_eq_true,↓reduceIte]
          obtain ⟨last,k,hexit⟩ := ih (n + 1) (h.absorbed path md t.bytes) hs
            (fun hh => absurd (hhalt hh) hraised)
          exact ⟨last,k + 1,exit_step hquiet (HashState.absorbed_extends hupd) hexit⟩
        · refine ⟨_,1,by simp,hone,hfirst hsaveExt,.inr (.inl ⟨⟨halted',?_⟩,by simp [hturn]⟩)⟩
          rw [hsaved] at hfail ⊢
          cases ok
          · rfl
          · cases hfail
        · refine ⟨_,1,by simp,hone,hfirst hcommitExt,.inr (.inl ⟨⟨halted'',?_⟩,by simp [hturn]⟩)⟩
          rw [hcommitted] at hfail ⊢
          cases ok'
          · rfl
          · cases hfail
        · simp only [hturn,Bool.false_eq_true,↓reduceIte]
          have hok : ok' = true := by
            rw [hcommitted] at hgoes
            simpa using hgoes
          rw [hok] at hcommitted
          have hstatus : ({ ((h.absorbed path md t.bytes).checkpointSave c v path n t).checkpointCommit v n t with
              nextCheckpointNs := t.nowNs + dbCheckpointIntervalNs } : HashState).status =
              outcome true halted'' := hcommitted
          obtain ⟨last,k,hexit⟩ := ih (n + 1) _ hstatus <| by
              intro hh
              rcases hcommitHalt hh with hh | hh
              · rcases hsaveHalt hh with hh | hh
                · exact absurd (hhalt hh) hraised
                · exact raised_next (.inl hh)
              · exact raised_next (.inr hh)
          exact ⟨last,k + 1,exit_step hquiet (hcommitExt.restatus _ _) hexit⟩

/-- The property holds of the session, and a state that has not failed knows its row. -/
structure HashState.Sound (path : RelativePath) (P : List Event → FilesTable → Prop) (h : HashState) :
    Prop where
  always : h.session.Always P
  linked : h.status.failure = false → Linked path h.file h.pathKnown h.session.table

section Sound

variable {path : RelativePath} {P : List Event → FilesTable → Prop}

theorem linked_transfer {file file' : File} {known known' : Bool} {t t' : FilesTable}
    (h : Linked path file known t) (hid : file'.db.ID = file.db.ID) (hknown : known' = known)
    (ht : t' = t) : Linked path file' known' t' := by
  subst hknown ht
  exact (linked_congr hid).mpr h

theorem checkpointSave_sound (hP : Store.Stable P) (c : Config) (v : Visit) (n : ℕ) (t : Turn)
    {h : HashState} (hs : h.Sound path P) (hok : h.status.failure = false)
    (hsave : c.dryRun = false → periodicHashCheckpointIsAllowed c h.file = true →
      Linked path h.file h.pathKnown h.session.table → P h.session.events h.session.table →
      ∀ t', SavedTable path h.file h.pathKnown h.session.table t' → P h.session.events t') :
    (h.checkpointSave c v path n t).Sound path P := by
  have hlink := hs.linked hok
  unfold HashState.checkpointSave
  split
  · rename_i hallowed
    have hdry : c.dryRun = false := by
      cases hd : c.dryRun with
      | false => rfl
      | true => simp [periodicHashCheckpointIsAllowed,hd] at hallowed
    refine ⟨always_save hP c _ _ path h.file h.pathKnown false hs.always
      (fun hd _ => hsave hd hallowed hlink hs.always.working),?_⟩
    intro hnofail
    obtain ⟨ok,hstatus⟩ := save_status c (v.signal.halted (.saved n)) t.save path h.file h.pathKnown false
      h.session
    refine linked_save hdry rfl ?_ hlink
    dsimp only at hnofail
    rw [hstatus] at hnofail ⊢
    simpa using hnofail
  · exact hs

theorem checkpointCommit_sound (hP : Store.Stable P) (v : Visit) (n : ℕ) (t : Turn) {h : HashState}
    (hs : h.Sound path P) {ok halted : Bool} (hstatus : h.status = outcome ok halted)
    (hok : h.status.failure = false) : (h.checkpointCommit v n t).Sound path P := by
  refine ⟨always_commit hP _ _ hs.always,?_⟩
  intro hnofail
  obtain ⟨ok',hcommit⟩ := commit_status (v.signal.halted (.committed n)) t.commit h.session
  simp only [HashState.checkpointCommit,hstatus,hcommit,call_outcome,outcome_failure,Bool.not_eq_false',
    Bool.and_eq_true] at hnofail
  refine linked_transfer (hs.linked hok) rfl rfl (commit_table ?_)
  rw [hcommit]
  exact hnofail.2

theorem hashLoop_sound (hP : Store.Stable P) (c : Config) (v : Visit) (readErrno : Option ℕ)
    (turns : List Turn) (n : ℕ) {h : HashState} (hs : h.Sound path P) {halted : Bool}
    (hstatus : h.status = outcome true halted) (hhalt : halted = true → v.signal.raised (.turn n) = true)
    (hsave : ∀ h' k, HashState.Extends path h h' ((turns.take k).flatMap Turn.bytes) → c.dryRun = false →
      periodicHashCheckpointIsAllowed c h'.file = true → Linked path h'.file h'.pathKnown h'.session.table →
      P h'.session.events h'.session.table →
      ∀ t', SavedTable path h'.file h'.pathKnown h'.session.table t' → P h'.session.events t') :
    (hashLoop c v path readErrno n turns h).Sound path P := by
  induction turns generalizing n h halted with
  | nil =>
    unfold hashLoop
    split
    · exact ⟨hs.always,hs.linked⟩
    · cases readErrno with
      | none => exact ⟨hs.always,hs.linked⟩
      | some errno => exact ⟨hs.always,fun hf => linked_transfer (hs.linked hf) rfl rfl rfl⟩
  | cons t rest ih =>
    unfold hashLoop
    by_cases hraised : v.signal.raised (.turn n) = true
    · rw [if_pos hraised]
      exact ⟨hs.always,hs.linked⟩
    · rw [if_neg hraised]
      have hnofail : h.status.failure = false := by rw [hstatus]; rfl
      have hlater {h' : HashState} (hext : HashState.Extends path h h' t.bytes) : ∀ h'' k,
          HashState.Extends path h' h'' ((rest.take k).flatMap Turn.bytes) → c.dryRun = false →
          periodicHashCheckpointIsAllowed c h''.file = true →
          Linked path h''.file h''.pathKnown h''.session.table →
          P h''.session.events h''.session.table → ∀ t',
          SavedTable path h''.file h''.pathKnown h''.session.table t' → P h''.session.events t' := by
        intro h'' k hext'
        exact hsave h'' (k + 1) (by simpa using hext.trans hext')
      rcases hashTurn_cases c v path n t h with ⟨hne,-⟩ | ⟨-,hturn⟩ | ⟨-,md,hupd,hcases⟩
      · cases halted with
        | false => exact absurd hstatus hne
        | true => exact absurd (hhalt rfl) hraised
      · simp only [hturn,↓reduceIte]
        exact ⟨hs.always,fun hf => by cases hf⟩
      · have habs : (h.absorbed path md t.bytes).Sound path P :=
          ⟨hs.always.emit hP _,fun hf => linked_transfer (hs.linked hf) rfl rfl rfl⟩
        have hsaved := checkpointSave_sound hP c v n t habs hnofail
          (hsave _ 1 (by simpa using HashState.absorbed_extends hupd))
        obtain ⟨hsaveExt,hcommitExt⟩ := HashState.turn_extends c v path n t hupd
        obtain ⟨ok,halted',hsaveStatus,hsaveHalt⟩ :=
          HashState.checkpointSave_status c v path n t (h.absorbed path md t.bytes) hstatus
        obtain ⟨ok',halted'',hcommitStatus,hcommitHalt⟩ :=
          HashState.checkpointCommit_status v n t _ hsaveStatus
        rcases hcases with ⟨-,hturn⟩ | ⟨-,hturn⟩ | ⟨hgoes,-,hturn⟩ | ⟨hgoes,hgoes',hturn⟩
        · simp only [hturn,Bool.false_eq_true,↓reduceIte]
          exact ih (n + 1) habs hstatus (fun hh => absurd (hhalt hh) hraised)
            (hlater (HashState.absorbed_extends hupd))
        · simp only [hturn,↓reduceIte]
          exact hsaved
        · simp only [hturn,↓reduceIte]
          exact checkpointCommit_sound hP v n t hsaved hsaveStatus hgoes
        · simp only [hturn,Bool.false_eq_true,↓reduceIte]
          have hcommitted := checkpointCommit_sound hP v n t hsaved hsaveStatus hgoes
          have hok : ok' = true := by
            rw [hcommitStatus] at hgoes'
            simpa using hgoes'
          rw [hok] at hcommitStatus
          have hnext : ({ ((h.absorbed path md t.bytes).checkpointSave c v path n t).checkpointCommit v n t with
              nextCheckpointNs := t.nowNs + dbCheckpointIntervalNs } : HashState).Sound path P :=
            ⟨hcommitted.always,hcommitted.linked⟩
          refine ih (n + 1) hnext hcommitStatus ?_ (hlater (hcommitExt.restatus _ _))
          intro hh
          rcases hcommitHalt hh with hh | hh
          · rcases hsaveHalt hh with hh | hh
            · exact absurd (hhalt hh) hraised
            · exact raised_next (.inl hh)
          · exact raised_next (.inr hh)

end Sound

theorem preparedContext_frame (file : File) : (preparedContext file).frame = file.frame := by
  unfold preparedContext
  split <;> rfl

@[simp] theorem preparedContext_offset (file : File) :
    (preparedContext file).checksumOffset = file.checksumOffset := by
  unfold preparedContext
  split <;> rfl

@[simp] theorem preparedContext_ID (file : File) : (preparedContext file).db.ID = file.db.ID := by
  unfold preparedContext
  split <;> rfl

theorem preparedContext_flags (file : File) :
    (preparedContext file).readError = file.readError ∧
      (preparedContext file).wrongFileType = file.wrongFileType ∧
      (preparedContext file).sha512 = file.sha512 := by
  unfold preparedContext
  split <;> exact ⟨rfl,rfl,rfl⟩

/-- A hash pass was opened, positioned and allowed to read. -/
structure HashRuns (c : Config) (v : Visit) (file : File) : Prop where
  openable : v.disk.openErrno = none
  seekable : v.disk.seekable file.checksumOffset = true
  performed : performFileHashing c = true

/-- The bytes of the first `k` chunks read from the file's start offset. -/
def readBytes (v : Visit) (file : File) (k : ℕ) : List UInt8 :=
  ((v.disk.turns file.checksumOffset).take k).flatMap Turn.bytes

/-- Everything a hash pass can do to the file record. -/
inductive HashCase (c : Config) (v : Visit) (path : RelativePath) (file : File) (r : HashResult) : Prop where
  | openError (errno : ℕ) (hopen : v.disk.openErrno = some errno) (halted : Bool)
      (hstatus : r.status = outcome true halted)
      (hfile : r.file = { file with readError := true, readErrno := errno })
  | wrongType (hopen : v.disk.openErrno = none) (hseek : v.disk.seekable file.checksumOffset = false)
      (halted : Bool) (hstatus : r.status = outcome true halted)
      (hfile : r.file = { file with wrongFileType := true })
  | notHashed (hopen : v.disk.openErrno = none) (hseek : v.disk.seekable file.checksumOffset = true)
      (hperform : performFileHashing c = false) (halted : Bool) (hstatus : r.status = outcome true halted)
      (hfile : r.file = preparedContext file)
  | failed (hruns : HashRuns c v file) (halted : Bool) (hstatus : r.status = outcome false halted)
      (hframe : r.file.frame = file.frame)
  | readError (hruns : HashRuns c v file) (errno : ℕ)
      (herrno : v.disk.readErrno file.checksumOffset = some errno) (halted : Bool)
      (hstatus : r.status = outcome true halted) (hframe : r.file.frame = file.frame)
      (herror : r.file.readError = true)
  | interrupted (hruns : HashRuns c v file) (k : ℕ) (hk : k ≤ (v.disk.turns file.checksumOffset).length)
      (hraised : v.signal.raised (.turn k) = true) (hbefore : ∀ j < k, v.signal.raised (.turn j) = false)
      (halted : Bool) (hstatus : r.status = outcome true halted)
      (hframe : r.file.frame = file.frame) (hread : r.file.readError = file.readError)
      (hwrong : r.file.wrongFileType = file.wrongFileType)
      (hoffset : r.file.checksumOffset = file.checksumOffset + (readBytes v file k).length)
      (habsorbs : Absorbs (preparedContext file).mdContext (readBytes v file k) r.file.mdContext)
      (hreads : ReadFrom path r.session.events file.checksumOffset (readBytes v file k))
      (hsha : r.file.sha512 = file.sha512)
  | complete (hruns : HashRuns c v file) (herrno : v.disk.readErrno file.checksumOffset = none)
      (halted : Bool) (hstatus : r.status = outcome true halted)
      (hframe : r.file.frame = file.frame) (hread : r.file.readError = file.readError)
      (hwrong : r.file.wrongFileType = file.wrongFileType) (hoffset : r.file.checksumOffset = 0)
      (context : SHA512Context)
      (habsorbs : Absorbs (preparedContext file).mdContext (v.disk.delivered file.checksumOffset) context)
      (hfinal : ∃ md, sha512Final context = (.cryptOk,md,r.file.sha512))
      (hreads : ReadFrom path r.session.events file.checksumOffset
        (v.disk.delivered file.checksumOffset))
      (hlog : .hashed path v.disk file.checksumOffset (v.disk.delivered file.checksumOffset) true ∈
        r.session.events)

theorem finalise_cases (h : HashState) :
    ((h.status ≠ successStatus ∨ h.loopWasInterrupted = true) ∧ h.finalise = h) ∨
    ∃ ok md digest, h.status = successStatus ∧ (ok = true → sha512Final h.file.mdContext = (.cryptOk,md,digest)) ∧
      h.finalise = { h with
        status := outcome ok false
        file := { h.file with checksumOffset := 0, mdContext := md, sha512 := digest } } := by
  unfold HashState.finalise
  by_cases hrun : h.status = successStatus ∧ h.loopWasInterrupted = false
  · right
    rw [if_pos hrun]
    split
    · rename_i md digest hfin
      exact ⟨true,md,digest,hrun.1,fun _ => hfin,by rw [← successStatus_eq,← hrun.1]⟩
    · rename_i md digest hne hfin
      exact ⟨false,md,h.file.sha512,hrun.1,(fun h => by cases h),rfl⟩
  · left
    rw [if_neg hrun]
    refine ⟨?_,rfl⟩
    by_cases hs : h.status = successStatus
    · exact .inr (by simpa [hs] using hrun)
    · exact .inl hs

/-- The pass that has started to read ends in one of four ways. -/
theorem finalised_case {c : Config} {v : Visit} {path : RelativePath} {file : File} {pathKnown : Bool}
    {s : Session} {halted : Bool} {result last : HashState} {k : ℕ} (hruns : HashRuns c v file)
    (hexit : LoopExit v path (v.disk.readErrno file.checksumOffset) 0 (v.disk.turns file.checksumOffset)
      (hashStart v file pathKnown s) result last k) :
    HashCase c v path file ⟨provide (globalReturnStatus halted) result.finalise.status,
      result.session.emit (.hashed path v.disk file.checksumOffset result.bytes result.atEnd),
      result.finalise.file,result.finalise.pathKnown⟩ := by
  have hframe : last.file.frame = file.frame := hexit.ext.frame.trans (preparedContext_frame file)
  obtain ⟨hread0,hwrong0,hsha0⟩ := preparedContext_flags file
  have hflags := hexit.ext.flags
  simp only [HashState.flags,hashStart,Prod.mk.injEq] at hflags
  obtain ⟨hloop,-,hread,-,hwrong,hsha⟩ := hflags
  have hreads := hexit.ext.reads
  simp only [hashStart,preparedContext_offset] at hreads
  rcases hexit.cases with ⟨hraised,⟨halt,hstatus⟩,hres⟩ | ⟨⟨halt,hstatus⟩,hres⟩ | ⟨hk,-,hstatus,hres⟩
  · have hfin : result.finalise = result := by
      rcases finalise_cases result with ⟨-,h⟩ | ⟨-,-,-,-,-,h⟩
      · exact h
      · rw [hres]
        simp [HashState.finalise]
    rw [hfin,hres]
    rw [Nat.zero_add] at hraised
    refine .interrupted hruns k hexit.le hraised ?_ (halt || halted) ?_ hframe (hread.trans hread0)
      (hwrong.trans hwrong0) ?_ ?_ (hreads.extend _) (hsha.trans hsha0)
    · intro j hj
      simpa using hexit.before j hj
    · dsimp only
      rw [hstatus,provide_outcome]
    · exact hexit.ext.offset.trans (by rw [hashStart,preparedContext_offset]; rfl)
    · exact hexit.ext.absorbs
  · have hfin : result.finalise = result := by
      rcases finalise_cases result with ⟨-,h⟩ | ⟨-,-,-,hs,-,-⟩
      · exact h
      · rw [hres,hstatus] at hs
        cases halt <;> cases hs
    rw [hfin,hres]
    refine .failed hruns (halt || halted) ?_ hframe
    dsimp only
    rw [hstatus,provide_outcome]
  · cases herrno : v.disk.readErrno file.checksumOffset with
    | some errno =>
      have hresult : result = { last with file := { last.file with readError := true, readErrno := errno } } := by
        rw [hres,herrno]
        rfl
      rcases finalise_cases result with ⟨hstop,-⟩ | ⟨ok,md,digest,-,-,hfin⟩
      · rw [hresult] at hstop
        rcases hstop with hstop | hstop
        · exact absurd hstatus hstop
        · exact absurd (hloop.symm.trans hstop) (by decide)
      · rw [hfin,hresult]
        cases ok with
        | false => exact .failed hruns halted (by simp) hframe
        | true => exact .readError hruns errno herrno halted (by simp) hframe rfl
    | none =>
      have hresult : result = { last with atEnd := true } := by
        rw [hres,herrno]
        rfl
      rcases finalise_cases result with ⟨hstop,-⟩ | ⟨ok,md,digest,-,hok,hfin⟩
      · rw [hresult] at hstop
        rcases hstop with hstop | hstop
        · exact absurd hstatus hstop
        · exact absurd (hloop.symm.trans hstop) (by decide)
      · rw [hresult] at hok
        rw [hfin,hresult]
        cases ok with
        | false => exact .failed hruns halted (by simp) hframe
        | true =>
          refine .complete hruns herrno halted (by simp) hframe (hread.trans hread0)
            (hwrong.trans hwrong0) rfl last.file.mdContext ?_ ⟨md,hok rfl⟩ ?_ ?_
          · have habsorbs := hexit.ext.absorbs
            rw [hk,List.take_length] at habsorbs
            exact habsorbs
          · rw [hk,List.take_length] at hreads
            exact hreads.extend _
          · have hbytes := hexit.ext.bytes
            rw [hk,List.take_length] at hbytes
            rw [hbytes]
            exact List.mem_append_right _ (List.mem_singleton_self _)

theorem sha512sum_cases (c : Config) (v : Visit) (path : RelativePath) (file : File) (pathKnown : Bool)
    (s : Session) : HashCase c v path file (sha512sum c v path file pathKnown s) := by
  unfold sha512sum
  cases hopen : v.disk.openErrno with
  | some errno => exact .openError errno hopen _ (leave_eq _ _) rfl
  | none =>
    cases hseek : v.disk.seekable file.checksumOffset with
    | false => exact .wrongType hopen hseek _ (leave_eq _ _) rfl
    | true =>
      cases hperform : performFileHashing c with
      | false => exact .notHashed hopen hseek hperform _ (leave_eq _ _) rfl
      | true =>
        have hstart : (hashStart v file pathKnown s).status = outcome true false := rfl
        obtain ⟨last,k,hexit⟩ := hashLoop_exit c v path (v.disk.readErrno file.checksumOffset)
          (v.disk.turns file.checksumOffset) 0 (hashStart v file pathKnown s) hstart
          (fun h => by cases h)
        exact finalised_case ⟨hopen,hseek,hperform⟩ hexit

theorem HashCase.status {c : Config} {v : Visit} {path : RelativePath} {file : File} {r : HashResult}
    (h : HashCase c v path file r) : ∃ ok halted, r.status = outcome ok halted := by
  cases h with
  | openError _ _ halted hstatus => exact ⟨true,halted,hstatus⟩
  | wrongType _ _ halted hstatus => exact ⟨true,halted,hstatus⟩
  | notHashed _ _ _ halted hstatus => exact ⟨true,halted,hstatus⟩
  | failed _ halted hstatus => exact ⟨false,halted,hstatus⟩
  | readError _ _ _ halted hstatus => exact ⟨true,halted,hstatus⟩
  | interrupted _ _ _ _ _ halted hstatus => exact ⟨true,halted,hstatus⟩
  | complete _ _ halted hstatus => exact ⟨true,halted,hstatus⟩

/-- A hash pass never touches the frame of the record. -/
theorem HashCase.frame {c : Config} {v : Visit} {path : RelativePath} {file : File} {r : HashResult}
    (h : HashCase c v path file r) : r.file.frame = file.frame := by
  cases h with
  | openError errno hopen halted hstatus hfile => rw [hfile]; rfl
  | wrongType hopen hseek halted hstatus hfile => rw [hfile]; rfl
  | notHashed hopen hseek hperform halted hstatus hfile => rw [hfile,preparedContext_frame]
  | failed hruns halted hstatus hframe => exact hframe
  | readError hruns errno herrno halted hstatus hframe => exact hframe
  | interrupted hruns k hk hraised hbefore halted hstatus hframe => exact hframe
  | complete hruns herrno halted hstatus hframe => exact hframe

/-- A partial state the reading loop may save. -/
structure Checkpointed (c : Config) (v : Visit) (path : RelativePath) (log : List Event) (file file' : File)
    (k : ℕ) : Prop where
  runs : HashRuns c v file
  frame : file'.frame = file.frame
  offset : file'.checksumOffset = file.checksumOffset + (readBytes v file k).length
  absorbs : Absorbs (preparedContext file).mdContext (readBytes v file k) file'.mdContext
  reads : ReadFrom path log file.checksumOffset (readBytes v file k)
  allowed : periodicHashCheckpointIsAllowed c file' = true

theorem LoopExit.log {v : Visit} {path : RelativePath} {readErrno : Option ℕ} {n : ℕ} {turns : List Turn}
    {h result last : HashState} {k : ℕ} (e : LoopExit v path readErrno n turns h result last k) :
    ∃ extra, result.session.events = h.session.events ++ extra := by
  obtain ⟨extra,hextra⟩ := e.ext.log
  refine ⟨extra,?_⟩
  rcases e.cases with ⟨-,-,hres⟩ | ⟨-,hres⟩ | ⟨-,-,-,hres⟩
  · rw [hres,← hextra]
  · rw [hres,← hextra]
  · rw [hres,← hextra]
    cases readErrno <;> rfl

theorem finalise_session (h : HashState) :
    h.finalise.session = h.session ∧ h.finalise.pathKnown = h.pathKnown ∧
      h.finalise.file.db = h.file.db ∧ (h.finalise.status.failure = false → h.status.failure = false) := by
  rcases finalise_cases h with ⟨-,hfin⟩ | ⟨ok,md,digest,hs,-,hfin⟩
  · rw [hfin]
    exact ⟨rfl,rfl,rfl,id⟩
  · rw [hfin,hs]
    exact ⟨rfl,rfl,rfl,fun _ => rfl⟩

theorem sha512sum_known (c : Config) (v : Visit) (path : RelativePath) (file : File) (s : Session) :
    (sha512sum c v path file true s).pathKnown = true := by
  unfold sha512sum
  cases v.disk.openErrno with
  | some errno => rfl
  | none =>
    dsimp only
    split
    · split
      · have hstart : (hashStart v file true s).status = outcome true false := rfl
        obtain ⟨last,k,hexit⟩ := hashLoop_exit c v path (v.disk.readErrno file.checksumOffset)
          (v.disk.turns file.checksumOffset) 0 (hashStart v file true s) hstart (fun h => by cases h)
        have hlast : last.pathKnown = true := hexit.ext.known rfl
        dsimp only
        rw [(finalise_session _).2.1]
        rcases hexit.cases with ⟨-,-,hres⟩ | ⟨-,hres⟩ | ⟨-,-,-,hres⟩
        · rw [hres,hlast]
        · rw [hres,hlast]
        · rw [hres,← hlast]
          cases v.disk.readErrno file.checksumOffset <;> rfl
      · rfl
    · rfl

theorem sha512sum_log (c : Config) (v : Visit) (path : RelativePath) (file : File) (pathKnown : Bool)
    (s : Session) : ∃ extra, (sha512sum c v path file pathKnown s).session.events = s.events ++ extra := by
  unfold sha512sum
  cases v.disk.openErrno with
  | some errno => exact ⟨[],by simp⟩
  | none =>
    dsimp only
    split
    · split
      · have hstart : (hashStart v file pathKnown s).status = outcome true false := rfl
        obtain ⟨last,k,hexit⟩ := hashLoop_exit c v path (v.disk.readErrno file.checksumOffset)
          (v.disk.turns file.checksumOffset) 0 (hashStart v file pathKnown s) hstart
          (fun h => by cases h)
        obtain ⟨extra,hextra⟩ := hexit.log
        exact ⟨extra ++ [_],by rw [← List.append_assoc]; exact congrArg (· ++ [_]) hextra⟩
      · exact ⟨[],by simp⟩
    · exact ⟨[],by simp⟩

/-- A hash pass keeps what its permitted checkpoints keep, and without a failure it still
knows the row. -/
theorem sha512sum_sound {path : RelativePath} {P : List Event → FilesTable → Prop} (hP : Store.Stable P)
    (c : Config) (v : Visit) {file : File} {pathKnown : Bool} {s : Session} (hs : s.Always P)
    (hlink : Linked path file pathKnown s.table)
    (hsave : ∀ k file' known' log t t', c.dryRun = false → Checkpointed c v path log file file' k →
      (∃ extra, log = s.events ++ extra) → Linked path file' known' t → P log t →
      SavedTable path file' known' t t' → P log t') :
    (sha512sum c v path file pathKnown s).session.Always P ∧
      ((sha512sum c v path file pathKnown s).status.failure = false →
        Linked path (sha512sum c v path file pathKnown s).file
          (sha512sum c v path file pathKnown s).pathKnown
          (sha512sum c v path file pathKnown s).session.table) := by
  unfold sha512sum
  cases hopen : v.disk.openErrno with
  | some errno => exact ⟨hs,fun _ => linked_transfer hlink rfl rfl rfl⟩
  | none =>
    cases hseek : v.disk.seekable file.checksumOffset with
    | false => exact ⟨hs,fun _ => linked_transfer hlink rfl rfl rfl⟩
    | true =>
      cases hperform : performFileHashing c with
      | false => exact ⟨hs,fun _ => linked_transfer hlink (preparedContext_ID file) rfl rfl⟩
      | true =>
        have hstart : (hashStart v file pathKnown s).Sound path P :=
          ⟨hs,fun _ => linked_transfer hlink (preparedContext_ID file) rfl rfl⟩
        have hstatus : (hashStart v file pathKnown s).status = outcome true false := rfl
        have hloop := hashLoop_sound hP c v (v.disk.readErrno file.checksumOffset)
          (v.disk.turns file.checksumOffset) 0 hstart hstatus (fun h => by cases h) <| by
            intro h' k hext hdry hallowed hlink' hP' t' hsaved
            refine hsave k h'.file h'.pathKnown h'.session.events h'.session.table t' hdry ?_ hext.log hlink'
              hP' hsaved
            exact {
              runs := ⟨hopen,hseek,hperform⟩
              frame := hext.frame.trans (preparedContext_frame file)
              offset := hext.offset.trans (by rw [hashStart,preparedContext_offset]; rfl)
              absorbs := hext.absorbs
              reads := by
                have hreads := hext.reads
                rwa [hashStart,preparedContext_offset] at hreads
              allowed := hallowed }
        generalize hashLoop c v path (v.disk.readErrno file.checksumOffset) 0
          (v.disk.turns file.checksumOffset) (hashStart v file pathKnown s) = h at hloop
        obtain ⟨hsession,hknown,hdb,hfail⟩ := finalise_session h
        refine ⟨hloop.always.emit hP _,?_⟩
        intro hnofail
        exact linked_transfer (hloop.linked (hfail (failure_of_provide hnofail))) (congrArg DBrow.ID hdb) hknown rfl

end Precizer.Traversal
