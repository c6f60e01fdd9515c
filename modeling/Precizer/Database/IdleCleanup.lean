import Precizer.Traversal.VisitEvents
import Precizer.Database.SmoothCleanup

/-! # Cleanups that delete nothing

In a dry run, and over rows none of which is to be dropped, an undisturbed cleanup adds
nothing but its reports and its transaction to the log. It leaves no transaction open.
-/
namespace Precizer.Database
open General Rational Traversal

section Events

variable {Q : Event → Prop} (hplain : ∀ e : Event, e.bookkeeping = true → Q e) {c : Config} {script : CleanupScript}
include hplain

theorem adds_settleRow (n : ℕ) (path : RelativePath) (id : ℕ) (st : CleanupState) {fate : RowFate}
    (hkept : c.dryRun = true ∨ fate.drops = false) :
    Adds Q st.session (settleRow c script n path id st fate).session := by
  cases fate with
  | kept => exact .refl _
  | reported r violation =>
    cases violation with
    | true => exact ((adds_report hplain _ _).trans (adds_sideWrite _ _)).trans (.same rfl)
    | false => exact adds_report hplain _ _
  | dropped reason =>
    rcases hkept with hdry | hno
    · have hlookup : Adds Q st.session (dbDeleteTheRecordById c script n path id st.session).2 := by
        unfold dbDeleteTheRecordById
        rw [hdry]
        exact adds_sideWrite _ _
      rw [settleRow]
      unfold deleteRow
      rw [hdry,if_neg (by rintro ⟨hno,-⟩; cases hno)]
      dsimp only
      split
      · dsimp only
        split
        · exact (hlookup.trans (adds_report hplain _ _)).trans (adds_sideWrite _ _)
        · exact hlookup.trans (adds_report hplain _ _)
      · exact hlookup
    · cases hno

/-- The loop over rows that are kept. -/
theorem adds_cleanupRows (access : RelativePath → FileAccessStatus) (h : script.Smooth)
    (rows : List (Entry RelativePath FileColumns)) (n : ℕ) (st : CleanupState)
    (hkept : c.dryRun = true ∨ ∀ e ∈ rows, droppedPath c access e.key = false) :
    Adds Q st.session (cleanupRows c script access n rows st).session := by
  induction rows generalizing n st with
  | nil =>
    unfold cleanupRows
    split <;> exact .refl _
  | cons e rest ih =>
    unfold cleanupRows
    split
    · exact .refl _
    · rename_i hst
      split
      · exact .refl _
      · refine Adds.trans ?_ (ih (n + 1) _ (hkept.imp_right fun hrows e' he' => hrows e' (List.mem_cons_of_mem _ he')))
        rw [cleanupRow_quiet n e.key e.ident (access e.key) h.quiet (not_not.mp hst) (h.copied n)]
        cases hfate : rowFate c (access e.key) e.key with
        | none => exact .same rfl
        | some fate =>
          refine adds_settleRow hplain n e.key e.ident st (hkept.imp_right fun hrows => ?_)
          have hrow := hrows e List.mem_cons_self
          rw [droppedPath,hfate] at hrow
          exact hrow

theorem adds_cleanupEnd (st : CleanupState) : Adds Q st.session (cleanupEnd c script st).session := by
  unfold cleanupEnd
  dsimp only
  generalize (if script.closed then
    (if st.status = successStatus ∧ script.finalized = false then failureStatus else st.status) else failureStatus) = status
  split
  · exact .refl _
  · have hcommitted : Adds Q st.session (if status.failure = true then (status,st.session) else
        (if (execCommit st.session script.commit).1 = true then status else failureStatus,
          (execCommit st.session script.commit).2)).2 := by
      split
      · exact .refl _
      · exact adds_execCommit hplain _ _
    have hended : ∀ committed : Return × Session, Adds Q st.session committed.2 →
        Adds Q st.session (if committed.2.store.autocommit then
            { st with status := committed.1, session := committed.2 }
          else
            { st with
              status := if (execRollback committed.2 script.rollback).1 then committed.1 else failureStatus
              session := (execRollback committed.2 script.rollback).2 }).session := by
      intro committed hadded
      split
      · exact hadded
      · exact hadded.trans (adds_execRollback hplain _ _)
    exact hended _ hcommitted

theorem adds_cleanup (h : script.Smooth) {prefixes : List RootPath} (s : Session)
    (hkept : c.dryRun = true ∨ ∀ access, script.root prefixes = some access →
      ∀ e ∈ s.table.rows, droppedPath c access e.key = false) :
    Adds Q s (dbDeleteMissingMetadata c script prefixes false s).2 := by
  unfold dbDeleteMissingMetadata
  dsimp only
  split
  · exact .refl s
  · split
    · exact .refl s
    · cases hroot : prefixes.head?.bind script.openRoot with
      | none => exact (adds_report hplain _ _).trans (.same rfl)
      | some access =>
        dsimp only
        unfold cleanupOpened
        dsimp only
        refine Adds.trans ?_ (adds_cleanupEnd hplain _)
        have hbegun : Adds Q s (if c.dryRun = true then (true,s) else execBegin s script.begin).2 ∧
            (if c.dryRun = true then (true,s) else execBegin s script.begin).2.table = s.table := by
          split
          · exact ⟨.refl s,rfl⟩
          · refine ⟨adds_execBegin hplain s _,?_⟩
            unfold execBegin
            dsimp only
            split <;> rfl
        obtain ⟨hbegin,htable⟩ := hbegun
        refine Adds.trans hbegin (adds_cleanupRows hplain access h _ 0 _ (hkept.imp_right fun hrows => ?_))
        rw [htable]
        exact fun e he => hrows access hroot e (CleanupScript.mem_selected.mp he)

end Events

section Transaction

variable {c : Config} {script : CleanupScript}

theorem cleanupEnd_idle (hrollback : script.rollback = true) (st : CleanupState)
    (hdry : c.dryRun = true → st.session.store.autocommit = true) :
    (cleanupEnd c script st).session.store.autocommit = true := by
  unfold cleanupEnd
  dsimp only
  split
  · rename_i hno
    exact hdry hno
  · have hended : ∀ (committed : Return × Session) (status : Return),
        (if committed.2.store.autocommit then { st with status := committed.1, session := committed.2 }
          else { st with status := status, session := (execRollback committed.2 script.rollback).2 }).session.store.autocommit =
            true := by
      intro committed status
      split
      · assumption
      · rw [hrollback]
        rfl
    exact hended _ _

/-- An undisturbed cleanup leaves no transaction open. -/
theorem cleanup_idle (h : script.Smooth) (prefixes : List RootPath) {s : Session}
    (hidle : s.store.autocommit = true) :
    (dbDeleteMissingMetadata c script prefixes false s).2.store.autocommit = true := by
  unfold dbDeleteMissingMetadata
  dsimp only
  split
  · exact hidle
  · split
    · exact hidle
    · rename_i hstatus
      cases prefixes.head?.bind script.openRoot with
      | none => exact hidle
      | some access =>
        refine cleanupEnd_idle h.rollback _ fun hdry => ?_
        rw [hdry,h.prepared,not_not.mp hstatus]
        dsimp only
        exact (cleanupRows_works c access h.quiet h.stepDone (script.selected s.table) 0 { session := s, status := successStatus }
          (fun i e he => by rw [Nat.zero_add]; exact (h.steps (script.selected s.table)).row i e he) rfl
          (fun hno => by rw [hdry] at hno; cases hno)).autocommit.trans hidle

end Transaction

end Precizer.Database
