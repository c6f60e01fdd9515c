import Precizer.Database.SmoothCleanup

/-! # A cleanup in which a step fails

The deletions of a cleanup are inside one transaction that is only committed under a status
without a failure. A step that fails either sets that status or loses the transaction, and
then neither a later deletion nor the commit can succeed.
-/
namespace Precizer.Database
open General Rational Traversal

variable {c : Config} {script : CleanupScript} {access : RelativePath → FileAccessStatus}
  {rows : List (Entry RelativePath FileColumns)} {base : FilesTable} {st : CleanupState}

/-- A step of the row at a place of the loop does not work. -/
inductive RowFails (c : Config) (script : CleanupScript) (access : RelativePath → FileAccessStatus) (n : ℕ)
    (path : RelativePath) : Prop where
  | copy (h : script.copied n = false)
  | pattern (h : rowFate c (access path) path = none)
  | write (fate : RowFate) (hfate : rowFate c (access path) path = some fate) (h : fate.Fails script n)

inductive StepFails (c : Config) (script : CleanupScript) (access : RelativePath → FileAccessStatus)
    (rows : List (Entry RelativePath FileColumns)) : Prop where
  | rootPath (h : script.prefixRead = false)
  | begin (h : script.begin ≠ .done)
  | prepare (h : script.prepared = false)
  | row (n : ℕ) (e : Entry RelativePath FileColumns) (hrow : rows[n]? = some e)
      (h : RowFails c script access n e.key)
  | step (h : script.stepDone = false)
  | finalize (h : script.finalized = false)
  | close (h : script.closed = false)
  | commit (h : script.commit ≠ .done)

theorem rowWorks_of_not_fails {n : ℕ} {path : RelativePath} (h : ¬RowFails c script access n path) :
    RowWorks c script access n path := by
  constructor
  · by_contra hcopied
    exact h (.copy (by simpa using hcopied))
  · intro fate hfate hfails
    exact h (.write fate hfate hfails)

theorem stepsWork_of_not_fails (h : ¬StepFails c script access rows) :
    script.prefixRead = true ∧ StepsWork c script access rows ∧ (cleanupPlan c access rows).failed = false := by
  have hbool {b : Bool} (hb : b = false → StepFails c script access rows) : b = true := by
    by_contra hno
    exact h (hb (by simpa using hno))
  refine ⟨hbool .rootPath,?_,?_⟩
  · constructor
    · exact not_not.mp fun hbegin => h (.begin hbegin)
    · exact hbool .prepare
    · intro n e he
      exact rowWorks_of_not_fails fun hfails => h (.row n e he hfails)
    · exact hbool .step
    · exact hbool .finalize
    · exact hbool .close
    · exact not_not.mp fun hcommit => h (.commit hcommit)
  · apply cleanupPlan_goes
    intro e he
    obtain ⟨n,hn⟩ := List.getElem?_of_mem he
    rw [Option.isSome_iff_ne_none]
    intro hnone
    exact h (.row n e hn (.pattern hnone))

theorem not_stepFails_of_works (h : script.Works) (hplan : (cleanupPlan c access rows).failed = false) :
    ¬StepFails c script access rows := by
  intro hfails
  cases hfails with
  | rootPath hno => exact absurd (h.prefixRead.symm.trans hno) (by decide)
  | begin hno => exact hno h.begin
  | prepare hno => exact absurd (h.prepared.symm.trans hno) (by decide)
  | row n e hrow hno =>
    cases hno with
    | copy hno => exact absurd ((h.copied n).symm.trans hno) (by decide)
    | pattern hno =>
      obtain ⟨fate,hfate⟩ := rowFate_isSome hplan e (List.mem_of_getElem? hrow)
      rw [hfate] at hno
      cases hno
    | write fate _ hno => exact fate.not_fails h n hno
  | step hno => exact absurd (h.stepDone.symm.trans hno) (by decide)
  | finalize hno => exact absurd (h.finalized.symm.trans hno) (by decide)
  | close hno => exact absurd (h.closed.symm.trans hno) (by decide)
  | commit hno => exact hno h.commit

/-- Nothing of the loop's work is durable yet, and its status is a plain one. -/
structure Held (base : FilesTable) (st : CleanupState) : Prop where
  committed : st.session.store.committed = base
  status : st.status = successStatus ∨ st.status = failureStatus

/-- The loop cannot end in a commit any more. -/
def Lost (st : CleanupState) : Prop := st.status = failureStatus ∨ st.session.store.autocommit = true

theorem held_fail (h : Held base st) : Held base st.fail := ⟨h.committed,.inr rfl⟩

theorem lost_fail (st : CleanupState) : Lost st.fail := .inl rfl

theorem sideWrite_held (s : Session) (o : SqlOutcome) :
    (s.sideWrite o).store.committed = s.store.committed ∧
      (s.store.autocommit = true ∨ o = .rolledBack → (s.sideWrite o).store.autocommit = true) := by
  unfold Session.sideWrite
  split
  · exact ⟨rfl,fun _ => rfl⟩
  · rename_i ho
    exact ⟨rfl,fun h => h.resolve_right ho⟩

/-- The deletion itself: it works, or it fails and may take the transaction with it. -/
theorem delete_cases (hdry : c.dryRun = false) (hquiet : script.signal.arrival = none) (n : ℕ)
    (path : RelativePath) (id : ℕ) {s : Session} (hopen : s.store.autocommit = false) :
    (dbDeleteTheRecordById c script n path id s).2.store.committed = s.store.committed ∧
      (dbDeleteTheRecordById c script n path id s).1 =
        (if script.delete n = .done then successStatus else failureStatus) := by
  have hcommitted (t : FilesTable) : ((s.execute (.delete path)).store.write t).committed = s.store.committed :=
    Store.write_committed (s := (s.execute (.delete path)).store) hopen t
  unfold dbDeleteTheRecordById
  rw [hdry,Signal.halted_none hquiet]
  cases script.delete n with
  | done => exact ⟨hcommitted _,show leave false true = successStatus by decide⟩
  | failed => exact ⟨rfl,show leave false false = failureStatus by decide⟩
  | rolledBack => exact ⟨rfl,show leave false false = failureStatus by decide⟩

theorem deleteRow_held (hdry : c.dryRun = false) (hquiet : script.signal.arrival = none) (n : ℕ)
    (path : RelativePath) (id : ℕ) (reason : DropReason) (h : Held base st) (hst : st.status = successStatus) :
    Held base (deleteRow c script n path id reason st) ∧
      (Lost st ∨ (RowFate.dropped reason).Fails script n → Lost (deleteRow c script n path id reason st)) := by
  unfold deleteRow
  split
  · exact ⟨held_fail h,fun _ => lost_fail st⟩
  · rename_i hopen
    have hauto : st.session.store.autocommit = false := by simpa [hdry] using hopen
    obtain ⟨hcommitted,hstatus⟩ := delete_cases hdry hquiet n path id hauto
    dsimp only
    rw [hstatus]
    by_cases hdelete : script.delete n = .done
    · rw [if_pos hdelete,if_pos rfl]
      generalize (dbDeleteTheRecordById c script n path id st.session).2 = s at hcommitted ⊢
      obtain ⟨hsame,hside⟩ := sideWrite_held (s.report (.dropped path reason)) (script.remember n)
      cases hreason : rememberedReason reason with
      | true =>
        refine ⟨⟨(hsame.trans hcommitted).trans h.committed,.inl rfl⟩,?_⟩
        rintro (hlost | hfails)
        · exact absurd hlost (by simp [Lost,hst,hauto,show successStatus ≠ failureStatus by decide])
        · rcases hfails with hfails | ⟨-,hrolled⟩
          · exact absurd hdelete hfails
          · exact .inr (hside (.inr hrolled))
      | false =>
        refine ⟨⟨hcommitted.trans h.committed,.inl rfl⟩,?_⟩
        rintro (hlost | hfails)
        · exact absurd hlost (by simp [Lost,hst,hauto,show successStatus ≠ failureStatus by decide])
        · rcases hfails with hfails | ⟨hremembered,-⟩
          · exact absurd hdelete hfails
          · rw [hreason] at hremembered
            cases hremembered
    · rw [if_neg hdelete,if_neg (by decide)]
      exact ⟨⟨hcommitted.trans h.committed,.inr rfl⟩,fun _ => .inl rfl⟩

theorem settleRow_held (hdry : c.dryRun = false) (hquiet : script.signal.arrival = none) (n : ℕ)
    (path : RelativePath) (id : ℕ) (fate : RowFate) (h : Held base st) (hst : st.status = successStatus) :
    Held base (settleRow c script n path id st fate) ∧
      (Lost st ∨ fate.Fails script n → Lost (settleRow c script n path id st fate)) := by
  match fate with
  | .kept => exact ⟨h,fun hlost => hlost.resolve_right fun hno => hno⟩
  | .reported r false => exact ⟨⟨h.committed,h.status⟩,fun hlost => hlost.resolve_right fun hno => by cases hno.1⟩
  | .reported r true =>
    obtain ⟨hsame,hside⟩ := sideWrite_held (st.session.report r) (script.remember n)
    refine ⟨⟨hsame.trans h.committed,h.status⟩,?_⟩
    rintro ((hfailed | hclosed) | hfails)
    · exact .inl hfailed
    · exact .inr (hside (.inl hclosed))
    · exact .inr (hside (.inr hfails.2))
  | .dropped reason => exact deleteRow_held hdry hquiet n path id reason h hst

/-- One row of the loop: a failing step of it loses the loop. -/
theorem cleanupRow_held (hdry : c.dryRun = false) (hquiet : script.signal.arrival = none) (n : ℕ)
    (e : Entry RelativePath FileColumns) (h : Held base st) (hst : st.status = successStatus) :
    Held base (cleanupRow c script n e.key e.ident (access e.key) st) ∧
      (Lost st ∨ RowFails c script access n e.key →
        Lost (cleanupRow c script n e.key e.ident (access e.key) st)) := by
  cases hcopied : script.copied n with
  | false =>
    rw [cleanupRow_uncopied n e.key e.ident (access e.key) hquiet hst hcopied]
    exact ⟨held_fail h,fun _ => lost_fail st⟩
  | true =>
    rw [cleanupRow_quiet n e.key e.ident (access e.key) hquiet hst hcopied]
    cases hfate : rowFate c (access e.key) e.key with
    | none => exact ⟨held_fail h,fun _ => lost_fail st⟩
    | some fate =>
      obtain ⟨hheld,hlost⟩ := settleRow_held hdry hquiet n e.key e.ident fate h hst
      refine ⟨hheld,?_⟩
      rintro (hgone | hfails)
      · exact hlost (.inl hgone)
      · refine hlost (.inr ?_)
        cases hfails with
        | copy hno =>
          rw [hcopied] at hno
          cases hno
        | pattern hno =>
          rw [hfate] at hno
          cases hno
        | write fate' hfate' hfails =>
          rw [hfate] at hfate'
          cases hfate'
          exact hfails

theorem cleanupRows_held (hdry : c.dryRun = false) (hquiet : script.signal.arrival = none)
    (rows : List (Entry RelativePath FileColumns)) (n : ℕ) (st : CleanupState) (h : Held base st) :
    Held base (cleanupRows c script access n rows st) ∧
      (Lost st ∨ script.stepDone = false ∨
          (∃ i e, rows[i]? = some e ∧ RowFails c script access (n + i) e.key) →
        Lost (cleanupRows c script access n rows st)) := by
  induction rows generalizing n st with
  | nil =>
    rw [cleanupRows,Signal.raised_none hquiet]
    split
    · exact ⟨held_fail h,fun _ => lost_fail st⟩
    · rename_i hstep
      refine ⟨h,?_⟩
      rintro (hlost | hstopped | ⟨i,e,hrow,-⟩)
      · exact hlost
      · rcases h.status with hst | hst
        · exact absurd ⟨hst,hstopped,rfl⟩ hstep
        · exact .inl hst
      · cases hrow
  | cons e rest ih =>
    rcases h.status with hst | hst
    · have hnext : cleanupRows c script access n (e :: rest) st =
          cleanupRows c script access (n + 1) rest (cleanupRow c script n e.key e.ident (access e.key) st) := by
        rw [cleanupRows,if_neg (by simpa using hst),Signal.raised_none hquiet]
        rfl
      obtain ⟨hheld,hrow⟩ : Held base (cleanupRow c script n e.key e.ident (access e.key) st) ∧
          (Lost st ∨ RowFails c script access n e.key →
            Lost (cleanupRow c script n e.key e.ident (access e.key) st)) :=
        cleanupRow_held hdry hquiet n e h hst
      obtain ⟨hheld',hrest⟩ := ih (n + 1) _ hheld
      rw [hnext]
      refine ⟨hheld',?_⟩
      rintro (hlost | hstopped | ⟨i,e',hget,hfails⟩)
      · exact hrest (.inl (hrow (.inl hlost)))
      · exact hrest (.inr (.inl hstopped))
      · cases i with
        | zero =>
          obtain rfl : e = e' := by simpa using hget
          exact hrest (.inl (hrow (.inr hfails)))
        | succ i =>
          refine hrest (.inr (.inr ⟨i,e',by simpa using hget,?_⟩))
          rwa [Nat.add_assoc,Nat.add_comm 1]
    · rw [cleanupRows_stopped (e :: rest) n hst]
      exact ⟨h,fun _ => .inl hst⟩

theorem failed_closes (hrollback : script.rollback = true) {s : Session} (hs : s.store.committed = base) :
    (if s.store.autocommit then s else (execRollback s script.rollback).2).table = base := by
  split
  · rename_i hclosed
    exact (s.store.settled hclosed).trans hs
  · rw [hrollback]
    exact hs

theorem commit_fails {s : Session} (hs : s.store.committed = base)
    (h : s.store.autocommit = true ∨ script.commit ≠ .done) :
    (execCommit s script.commit).1 = false ∧ (execCommit s script.commit).2.store.committed = base := by
  unfold execCommit
  dsimp only
  split
  · exact ⟨rfl,hs⟩
  · rename_i hopen
    cases hcommit : script.commit with
    | done => exact absurd hcommit (h.resolve_left hopen)
    | failed => exact ⟨rfl,hs⟩
    | rolledBack => exact ⟨rfl,hs⟩

theorem cleanupEnd_failed (hdry : c.dryRun = false) (hrollback : script.rollback = true) (h : Held base st)
    (hfails : Lost st ∨ script.finalized = false ∨ script.closed = false ∨ script.commit ≠ .done) :
    (cleanupEnd c script st).status = failureStatus ∧ (cleanupEnd c script st).session.table = base := by
  have hfinal : ∀ s : Session, s.store.committed = base →
      (if s.store.autocommit then { st with status := failureStatus, session := s }
        else
          let r := execRollback s script.rollback
          { st with status := if r.1 then failureStatus else failureStatus, session := r.2 }).status = failureStatus ∧
      (if s.store.autocommit then { st with status := failureStatus, session := s }
        else
          let r := execRollback s script.rollback
          { st with status := if r.1 then failureStatus else failureStatus, session := r.2 }).session.table = base := by
    intro s hs
    have hclosed := failed_closes hrollback hs
    split
    · rename_i hauto
      rw [if_pos hauto] at hclosed
      exact ⟨rfl,hclosed⟩
    · rename_i hauto
      rw [if_neg hauto] at hclosed
      exact ⟨ite_self _,hclosed⟩
  have hstatus : ∀ status, (if script.closed then
      (if st.status = successStatus ∧ script.finalized = false then failureStatus else st.status)
      else failureStatus) = status →
      status = failureStatus ∨ status = successStatus ∧ (st.session.store.autocommit = true ∨ script.commit ≠ .done) := by
    intro status hstatus
    cases hclosed : script.closed with
    | false =>
      rw [hclosed] at hstatus
      exact .inl hstatus.symm
    | true =>
      rw [hclosed,if_pos rfl] at hstatus
      rcases h.status with hst | hst
      · cases hfinalized : script.finalized with
        | false =>
          rw [if_pos ⟨hst,hfinalized⟩] at hstatus
          exact .inl hstatus.symm
        | true =>
          rw [if_neg (by simp [hfinalized]),hst] at hstatus
          refine .inr ⟨hstatus.symm,?_⟩
          rcases hfails with (hfailed | hlost) | hno | hno | hcommit
          · rw [hst] at hfailed
            cases hfailed
          · exact .inl hlost
          · exact absurd (hfinalized.symm.trans hno) (by decide)
          · exact absurd (hclosed.symm.trans hno) (by decide)
          · exact .inr hcommit
      · rw [hst,ite_self] at hstatus
        exact .inl hstatus.symm
  unfold cleanupEnd
  dsimp only
  generalize (if script.closed then
      (if st.status = successStatus ∧ script.finalized = false then failureStatus else st.status)
      else failureStatus) = status at hstatus ⊢
  rw [hdry]
  simp only [Bool.false_eq_true,↓reduceIte]
  rcases hstatus status rfl with rfl | ⟨rfl,hcommit⟩
  · rw [if_pos (show failureStatus.failure = true from rfl)]
    exact hfinal st.session h.committed
  · rw [if_neg (show ¬successStatus.failure = true by decide)]
    obtain ⟨hno,hcommitted⟩ := commit_fails h.committed hcommit
    dsimp only
    rw [hno]
    simp only [Bool.false_eq_true,↓reduceIte]
    exact hfinal _ hcommitted

theorem cleanupOpened_failed (hdry : c.dryRun = false) (hquiet : script.signal.arrival = none)
    (hrollback : script.rollback = true) {s : Session} (hidle : s.store.autocommit = true)
    (hread : script.prefixRead = true) (hfails : StepFails c script access (script.selected s.table)) :
    (cleanupOpened c script access { session := s, status := successStatus }).status = failureStatus ∧
      (cleanupOpened c script access { session := s, status := successStatus }).session.table = s.table := by
  have hbase : s.store.committed = s.table := (s.store.settled hidle).symm
  have hbegun : (execBegin s script.begin).2.store.committed = s.table ∧
      (execBegin s script.begin).2.table = s.table ∧
      ((execBegin s script.begin).1 = true → script.begin = .done) := by
    unfold execBegin
    dsimp only
    split
    · rename_i hdone
      exact ⟨hbase,rfl,fun _ => hdone.2⟩
    · exact ⟨hbase,rfl,fun hno => by cases hno⟩
  obtain ⟨hcommitted,htable,hdone⟩ := hbegun
  unfold cleanupOpened
  dsimp only
  rw [hdry]
  simp only [Bool.false_eq_true,↓reduceIte]
  rw [htable]
  generalize execBegin s script.begin = begun at hcommitted hdone ⊢
  have hheld (status : Return) (hstatus : status = successStatus ∨ status = failureStatus) :
      Held s.table { session := begun.2, status := status } := ⟨hcommitted,hstatus⟩
  cases hstarted : begun.1 && script.prepared with
  | false =>
    simp only [Bool.false_eq_true,↓reduceIte]
    obtain ⟨hheld',hlost⟩ := @cleanupRows_held c script access s.table hdry hquiet (script.selected s.table) 0 _
      (hheld failureStatus (.inr rfl))
    exact cleanupEnd_failed hdry hrollback hheld' (.inl (hlost (.inl (.inl rfl))))
  | true =>
    simp only [↓reduceIte]
    obtain ⟨hbegin,hprepared⟩ := Bool.and_eq_true_iff.mp hstarted
    obtain ⟨hheld',hlost⟩ := @cleanupRows_held c script access s.table hdry hquiet (script.selected s.table) 0 _
      (hheld successStatus (.inl rfl))
    apply cleanupEnd_failed hdry hrollback hheld'
    cases hfails with
    | rootPath h => exact absurd (hread.symm.trans h) (by decide)
    | begin h => exact absurd (hdone hbegin) h
    | prepare h => exact absurd (hprepared.symm.trans h) (by decide)
    | row n e hrow h => exact .inl (hlost (.inr (.inr ⟨n,e,hrow,by rwa [Nat.zero_add]⟩)))
    | step h => exact .inl (hlost (.inr (.inl h)))
    | finalize h => exact .inr (.inl h)
    | close h => exact .inr (.inr (.inl h))
    | commit h => exact .inr (.inr (.inr h))

/-- A cleanup in which a step fails says so and changes no row. -/
theorem dbDeleteMissingMetadata_failed (hdry : c.dryRun = false) (hquiet : script.signal.arrival = none)
    (hrollback : script.rollback = true) {prefixes : List RootPath} {s : Session}
    (hidle : s.store.autocommit = true) (hcompare : c.compare = false) (hupdate : c.update = true)
    (hstored : ∀ root, prefixes.head? = some root → root ≠ []) (hroot : script.root prefixes = some access)
    (hfails : StepFails c script access (script.selected s.table)) :
    (dbDeleteMissingMetadata c script prefixes false s).1 = failureStatus ∧
      (dbDeleteMissingMetadata c script prefixes false s).2.table = s.table := by
  obtain ⟨root,hhead,-⟩ := Option.bind_eq_some_iff.mp hroot
  unfold dbDeleteMissingMetadata
  dsimp only
  rw [Signal.raised_none hquiet]
  simp only [hcompare,hupdate,Bool.or_self,Bool.not_true,Bool.false_eq_true,↓reduceIte]
  cases hread : script.prefixRead with
  | false =>
    have hstatus : run (globalReturnStatus (script.signal.halted .rootPath)) successStatus
        (leave (script.signal.halted .rootPath) (false && (prefixes.head?.any fun r => !r.isEmpty))) =
        failureStatus := by
      rw [Signal.halted_none hquiet,Bool.false_and]
      decide
    rw [hstatus,if_pos (by decide),Signal.halted_none hquiet]
    exact ⟨show provide (globalReturnStatus false) failureStatus = failureStatus by decide,rfl⟩
  | true =>
    have hstatus := rootPath_works hquiet hread hhead (hstored root hhead)
    rw [hread] at hstatus
    obtain ⟨hfailed,htable⟩ := cleanupOpened_failed hdry hquiet hrollback hidle hread hfails
    rw [hstatus,show prefixes.head?.bind script.openRoot = some access from hroot,Signal.halted_none hquiet]
    simp only [ne_eq,not_true_eq_false,↓reduceIte]
    generalize cleanupOpened c script access { session := s, status := successStatus } = st at hfailed htable ⊢
    rw [hfailed,Signal.halted_none hquiet]
    refine ⟨?_,htable⟩
    cases st.violationDetected <;> decide

/-- Under a root that cannot be opened no row changes. -/
theorem dbDeleteMissingMetadata_rootless {prefixes : List RootPath} (interrupted : Bool) (s : Session)
    (hroot : script.root prefixes = none) :
    (dbDeleteMissingMetadata c script prefixes interrupted s).2.table = s.table := by
  unfold dbDeleteMissingMetadata
  dsimp only
  rw [show prefixes.head?.bind script.openRoot = none from hroot]
  split
  · rfl
  · split
    · rfl
    · rfl

end Precizer.Database
