import Precizer.Database.MissingCleanup
import Precizer.Traversal.PassRules

/-! # What the cleanup can delete

A deleted row is never locked, and its file was unavailable or its path ignored. The
tables of a cleanup are parts of the table it started from, so an identifier keeps
naming one row.
-/
namespace Precizer.Database
open General Rational Traversal

/-- The scope of a row's path; it is only evaluated when an ignore pattern was given. -/
def rowScope (c : Config) (path : RelativePath) : Scope :=
  if c.ignorePatterns.isEmpty then ⟨true,false,false⟩ else matchIncludeIgnore c false path

theorem rowScope_ignored (c : Config) (path : RelativePath) :
    (rowScope c path).ignored = (matchIncludeIgnore c false path).ignored := by
  unfold rowScope
  split
  · rename_i hnone
    have hnone : c.ignorePatterns = [] := by simpa using hnone
    unfold matchIncludeIgnore matchIgnorePattern
    rw [hnone]
    cases matchIncludePattern c false path with
    | regexpMatch => rfl
    | regexpError => rfl
    | notMatch => rfl
  · rfl

/-- Rows the cleanup may delete. -/
structure Deletable (c : Config) (access : FileAccessStatus) (path : RelativePath) : Prop where
  writes : c.dryRun = false
  unmatched : matchChecksumLockPattern c false path = .notMatch
  scope : (rowScope c path).ok = true
  cause : ((rowScope c path).ignored = true ∧ c.dbDropIgnored = true) ∨
    ((rowScope c path).ignored = false ∧ access ≠ .accessAllowed ∧
      (access = .notFound ∨ c.dbDropInaccessible = true))

theorem Deletable.unlocked {c : Config} {access : FileAccessStatus} {path : RelativePath}
    (h : Deletable c access path) : c.locked path = false := by
  rw [Config.locked,h.unmatched]
  rfl

/-- The property holds throughout, and both tables in use are parts of the first one. -/
structure Cleaned (P : List Event → FilesTable → Prop) (start : List (Entry RelativePath FileColumns))
    (s : Session) : Prop where
  always : s.Always P
  working : s.store.working.rows ⊆ start
  committed : s.store.committed.rows ⊆ start

theorem find_erase_part {start t : FilesTable} {path : RelativePath} {e e' : Entry RelativePath FileColumns}
    (hsub : t.rows ⊆ start.rows) (he : e ∈ start.rows) (hkey : e.key ≠ path)
    (hfind : t.find path = some e') : (t.erase e.ident).find path = some e' := by
  apply UniqueTable.find_erase_of_ne hfind
  intro hid
  obtain ⟨hmem,hpath⟩ := UniqueTable.find_eq_some_iff.mp hfind
  obtain rfl := List.inj_on_of_nodup_map start.identsNodup (hsub hmem) he hid
  exact hkey hpath

section Answers

variable (c : Config) (script : CleanupScript) (n : ℕ) (path : RelativePath)

theorem locked_of_match {halted : Bool} (h : matchChecksumLockPattern c halted path ≠ .regexpError) :
    (decide (matchChecksumLockPattern c halted path = .regexpMatch)) = c.locked path := by
  rw [show matchChecksumLockPattern c halted path = matchChecksumLockPattern c false path from
    matchPatterns_of_ne_error h]
  rfl

theorem unmatched_of_unlocked {halted : Bool} (h : matchChecksumLockPattern c halted path ≠ .regexpError)
    (hunlocked : c.locked path = false) : matchChecksumLockPattern c false path = .notMatch := by
  rw [show matchChecksumLockPattern c halted path = matchChecksumLockPattern c false path from
    matchPatterns_of_ne_error h] at h
  unfold Config.locked at hunlocked
  cases hmatch : matchChecksumLockPattern c false path with
  | regexpMatch =>
    rw [hmatch] at hunlocked
    cases hunlocked
  | regexpError => exact absurd hmatch h
  | notMatch => rfl

theorem lockQuestion_cases :
    (lockQuestion c script n path = answer true (c.locked path) (script.signal.halted (.lock n)) ∧
      (c.locked path = false → matchChecksumLockPattern c false path = .notMatch)) ∨
    (lockQuestion c script n path = answer false false (script.signal.halted (.lock n))) := by
  unfold lockQuestion
  rw [pathCheckLockedChecksum_eq]
  by_cases herror : matchChecksumLockPattern c (script.signal.halted (.lockMatch n)) path = .regexpError
  · right
    simp [herror]
  · left
    refine ⟨?_,unmatched_of_unlocked c path herror⟩
    rw [locked_of_match c path herror]
    simp [herror]

theorem violation_cases (access : FileAccessStatus) (s : Session) :
    (c.locked path = true ∧ dbCheckLockedUnavailableViolation c script n path access s =
      (answer true true (script.signal.halted (.violation n)),reportUnavailable script n path access s)) ∨
    (matchChecksumLockPattern c false path = .notMatch ∧
      dbCheckLockedUnavailableViolation c script n path access s =
        (answer true false (script.signal.halted (.violation n)),s)) ∨
    dbCheckLockedUnavailableViolation c script n path access s =
      (answer false false (script.signal.halted (.violation n)),s) := by
  unfold dbCheckLockedUnavailableViolation
  dsimp only
  rw [pathCheckLockedChecksum_eq,successStatus_eq,ask_answer]
  by_cases herror : matchChecksumLockPattern c (script.signal.halted (.violationMatch n)) path = .regexpError
  · right
    right
    cases script.signal.halted (.violation n) <;> simp [herror] <;> rfl
  · rw [locked_of_match c path herror]
    cases hlocked : c.locked path with
    | true =>
      left
      refine ⟨rfl,?_⟩
      cases script.signal.halted (.violation n) <;> simp [herror] <;> rfl
    | false =>
      right
      left
      refine ⟨unmatched_of_unlocked c path herror hlocked,?_⟩
      cases script.signal.halted (.violation n) <;> simp [herror] <;> rfl

/-- An ignored row is only given up when its path is not locked. -/
theorem preserve_cases (access : FileAccessStatus) (s : Session) :
    let r := dbPreserveLockedIgnoredRecord c script n path access s
    let asked := ask (globalReturnStatus (script.signal.halted (.preserved n))) successStatus r.1
    (r.2.2 = s ∨ r.2.2 = reportUnavailable script n path access s) ∧
      (asked.1 = false → asked.2 = successStatus → matchChecksumLockPattern c false path = .notMatch) := by
  dsimp only
  unfold dbPreserveLockedIgnoredRecord
  dsimp only
  rcases lockQuestion_cases c script n path with ⟨hlock,hunmatched⟩ | hlock
  · rw [hlock,successStatus_eq,ask_answer,← successStatus_eq]
    cases hlocked : c.locked path with
    | false =>
      simp only [Bool.not_false,Bool.and_self,Bool.and_false,Bool.false_eq_true,↓reduceIte]
      exact ⟨.inl trivial,fun _ _ => hunmatched hlocked⟩
    | true =>
      simp only [Bool.not_false,Bool.and_self,↓reduceIte,Bool.or_self]
      split
      · rename_i hreport
        rw [hreport.1]
        rcases violation_cases c script n path access s with ⟨-,hviolation⟩ | ⟨hunmatched,-⟩ | hviolation
        · rw [hviolation,successStatus_eq,ask_answer,← successStatus_eq]
          simp only [Bool.not_false,Bool.and_self,↓reduceIte,ask_triumph]
          exact ⟨.inr trivial,fun hno => by cases hno⟩
        · rw [Config.locked,hunmatched] at hlocked
          cases hlocked
        · rw [hviolation,successStatus_eq,ask_answer,← successStatus_eq]
          simp only [Bool.not_false,Bool.and_self,↓reduceIte,ask_triumph]
          exact ⟨.inl trivial,fun _ hok => absurd (outcome_eq_success.mp hok).1 (by decide)⟩
      · simp only [ask_triumph]
        exact ⟨.inl trivial,fun hno => by cases hno⟩
  · rw [hlock,successStatus_eq,ask_answer,← successStatus_eq]
    simp only [Bool.not_false,Bool.and_self,↓reduceIte,Bool.false_eq_true,ask_no]
    exact ⟨.inl trivial,fun _ hok => absurd (outcome_eq_success.mp hok).1 (by decide)⟩

end Answers
section Cleaned

variable {P : List Event → FilesTable → Prop} (hP : Store.Stable P) {start : List (Entry RelativePath FileColumns)}
  {s : Session}

namespace Cleaned

include hP in
theorem emit (h : Cleaned P start s) (e : Event) : Cleaned P start (s.emit e) :=
  ⟨h.always.emit hP e,h.working,h.committed⟩

include hP in
theorem report (h : Cleaned P start s) (r : Report) : Cleaned P start (s.report r) := h.emit hP _

theorem rollbackStore (h : Cleaned P start s) : Cleaned P start s.rollbackStore :=
  ⟨h.always.rollbackStore,h.committed,h.committed⟩

theorem sideWrite (h : Cleaned P start s) (o : SqlOutcome) : Cleaned P start (s.sideWrite o) := by
  unfold Session.sideWrite
  split
  · exact h.rollbackStore
  · exact h

include hP in
theorem unavailable (h : Cleaned P start s) (script : CleanupScript) (n : ℕ) (path : RelativePath)
    (access : FileAccessStatus) : Cleaned P start (reportUnavailable script n path access s) := by
  have hreported := (h.report hP (.lockedUnavailable path access)).sideWrite (script.remember n)
  exact ⟨hreported.always,hreported.working,hreported.committed⟩

end Cleaned

include hP

variable {c : Config} {script : CleanupScript} {n : ℕ} {e : Entry RelativePath FileColumns}
  {access : FileAccessStatus}

theorem deleteRow_cleaned {st : CleanupState} (h : Cleaned P start st.session) (reason : DropReason)
    (hdelete : c.dryRun = false → ∀ log t, t.rows ⊆ start → P log t → P log (t.erase e.ident)) :
    Cleaned P start (deleteRow c script n e.key e.ident reason st).session := by
  unfold deleteRow
  split
  · exact h
  · rename_i hopen
    have hdeleted : Cleaned P start (dbDeleteTheRecordById c script n e.key e.ident st.session).2 := by
      unfold dbDeleteTheRecordById
      dsimp only
      split
      · exact h.sideWrite _
      · rename_i hdry
        have hdry : c.dryRun = false := by simpa using hdry
        have hauto : st.session.store.autocommit = false := by simpa [hdry] using hopen
        have hnoted := h.emit hP (.statement (.delete e.key) st.session.store.autocommit)
        cases script.delete n with
        | failed => exact hnoted
        | rolledBack => exact hnoted.rollbackStore
        | done =>
          have htable := hdelete hdry _ _ hnoted.working hnoted.always.working
          have hwrite : Store.Always P
              ((st.session.execute (.delete e.key)).store.write (st.session.table.erase e.ident)) :=
            Store.Always.write hnoted.always htable
          refine ⟨hwrite,?_,?_⟩
          · dsimp only
            rw [Store.write_working]
            intro e' he'
            exact h.working (List.mem_of_mem_filter he')
          · have hkept : ((st.session.execute (.delete e.key)).store.write
                (st.session.table.erase e.ident)).committed = st.session.store.committed := by
              unfold Store.write
              rw [if_neg (by simp [Session.execute,hauto])]
              rfl
            dsimp only
            rw [hkept]
            exact h.committed
    dsimp only
    split
    · have hreported := hdeleted.report hP (.dropped e.key reason)
      dsimp only
      split
      · exact hreported.sideWrite _
      · exact hreported
    · exact hdeleted

theorem cleanupVisible_cleaned {st : CleanupState} (h : Cleaned P start st.session)
    (hst : st.status = successStatus) (hscope : (rowScope c e.key).ok = true)
    (hvisible : (rowScope c e.key).ignored = false)
    (hdelete : Deletable c access e.key → ∀ log t, t.rows ⊆ start → P log t →
      P log (t.erase e.ident)) :
    Cleaned P start (cleanupVisible c script n e.key e.ident access st).session := by
  unfold cleanupVisible
  split
  · exact h
  · rename_i haccess
    dsimp only
    rw [hst]
    rcases violation_cases c script n e.key access st.session with ⟨-,hr⟩ | ⟨hunmatched,hr⟩ | hr
    · rw [hr,successStatus_eq,ask_answer]
      exact h.unavailable hP script n e.key access
    · rw [hr,successStatus_eq,ask_answer]
      simp only [Bool.not_false,Bool.and_self,Bool.and_false,↓reduceIte,Bool.false_eq_true]
      have hdeletable (hcause : access = .notFound ∨ c.dbDropInaccessible = true) (hdry : c.dryRun = false) :
          ∀ log t, t.rows ⊆ start → P log t → P log (t.erase e.ident) :=
        hdelete ⟨hdry,hunmatched,hscope,.inr ⟨hvisible,haccess,hcause⟩⟩
      split
      · exact h
      · split
        · rename_i hmissing
          exact deleteRow_cleaned hP h _ (hdeletable (.inl hmissing))
        · split
          · rename_i hdrop
            exact deleteRow_cleaned hP h _ (hdeletable (.inr hdrop))
          · exact h.report hP _
    · rw [hr,successStatus_eq,ask_answer]
      simp only [Bool.not_false,Bool.and_self,↓reduceIte,Bool.false_eq_true]
      split
      · exact h
      · rename_i hok
        exact absurd (outcome_inj.mp (not_not.mp hok)).1 (by decide)

theorem cleanupIgnored_cleaned {st : CleanupState} (h : Cleaned P start st.session) :
    Cleaned P start (cleanupIgnored c script n e.key access st).session := by
  unfold cleanupIgnored
  dsimp only
  split
  · rcases violation_cases c script n e.key access st.session with ⟨-,hr⟩ | ⟨-,hr⟩ | hr
    · rw [hr]
      exact h.unavailable hP script n e.key access
    · rw [hr]
      exact h
    · rw [hr]
      exact h
  · exact h

theorem cleanupDropIgnored_cleaned {st : CleanupState} (h : Cleaned P start st.session)
    (hst : st.status = successStatus) (hscope : (rowScope c e.key).ok = true)
    (hignored : (rowScope c e.key).ignored = true) (hdrop : c.dbDropIgnored = true)
    (hdelete : Deletable c access e.key → ∀ log t, t.rows ⊆ start → P log t →
      P log (t.erase e.ident)) :
    Cleaned P start (cleanupDropIgnored c script n e.key e.ident access st).session := by
  obtain ⟨hsession,hunmatched⟩ := preserve_cases c script n e.key access st.session
  have hkept : Cleaned P start (dbPreserveLockedIgnoredRecord c script n e.key access st.session).2.2 := by
    rcases hsession with hsame | hreported
    · rw [hsame]
      exact h
    · rw [hreported]
      exact h.unavailable hP script n e.key access
  unfold cleanupDropIgnored
  dsimp only
  rw [hst]
  split
  · exact hkept
  · rename_i hno
    split
    · exact hkept
    · rename_i hok
      refine deleteRow_cleaned hP hkept _ ?_
      intro hdry
      exact hdelete ⟨hdry,hunmatched (by simpa using hno) (by simpa using hok),hscope,.inl ⟨hignored,hdrop⟩⟩

theorem cleanupRow_cleaned {st : CleanupState} (h : Cleaned P start st.session)
    (hst : st.status = successStatus)
    (hdelete : Deletable c access e.key → ∀ log t, t.rows ⊆ start → P log t →
      P log (t.erase e.ident)) :
    Cleaned P start (cleanupRow c script n e.key e.ident access st).session := by
  unfold cleanupRow
  dsimp only
  rw [hst]
  split
  · exact h
  · rename_i hcopied
    have hcopied := not_not.mp hcopied
    cases hpatterns : c.ignorePatterns.isEmpty with
    | true =>
      have hscope : rowScope c e.key = ⟨true,false,false⟩ := by
        rw [rowScope,hpatterns]
        rfl
      simp only [↓reduceIte,hcopied,ne_eq,not_true_eq_false,Bool.false_eq_true]
      exact cleanupVisible_cleaned hP h rfl (by rw [hscope]) (by rw [hscope]) hdelete
    | false =>
      simp only [↓reduceIte,Bool.false_eq_true,leave_eq]
      split
      · exact h
      · rename_i hok
        have hok := not_not.mp hok
        have hmatched := (outcome_eq_success.mp hok).1
        have hrow : rowScope c e.key = matchIncludeIgnore c false e.key := by
          rw [rowScope,hpatterns]
          rfl
        have hscope : matchIncludeIgnore c (script.signal.halted (.scopeMatch n)) e.key = rowScope c e.key :=
          (matchIncludeIgnore_of_ok hmatched).trans hrow.symm
        rw [hscope] at hmatched
        split
        · rename_i hignored
          rw [hscope] at hignored
          split
          · rename_i hdrop
            exact cleanupDropIgnored_cleaned hP h hok hmatched hignored hdrop hdelete
          · exact cleanupIgnored_cleaned hP h
        · rename_i hvisible
          rw [hscope] at hvisible
          exact cleanupVisible_cleaned hP h hok hmatched (by simpa using hvisible) hdelete

theorem cleanupRows_cleaned {accessOf : RelativePath → FileAccessStatus}
    (rows : List (Entry RelativePath FileColumns)) (n : ℕ) {st : CleanupState}
    (h : Cleaned P start st.session)
    (hdelete : ∀ e ∈ rows, Deletable c (accessOf e.key) e.key → ∀ log t, t.rows ⊆ start → P log t →
      P log (t.erase e.ident)) :
    Cleaned P start (cleanupRows c script accessOf n rows st).session := by
  induction rows generalizing n st with
  | nil =>
    unfold cleanupRows
    split <;> exact h
  | cons e rest ih =>
    unfold cleanupRows
    split
    · exact h
    · rename_i hst
      split
      · exact h
      · have hrow : Cleaned P start (cleanupRow c script n e.key e.ident (accessOf e.key) st).session :=
          cleanupRow_cleaned hP h (by simpa using hst) (hdelete e (List.mem_cons_self ..))
        exact ih (n + 1) hrow (fun e' he' => hdelete e' (List.mem_cons_of_mem _ he'))

omit hP in
theorem cleanupRows_failed (accessOf : RelativePath → FileAccessStatus)
    (rows : List (Entry RelativePath FileColumns)) (s : Session) (detected : Bool) :
    cleanupRows c script accessOf 0 rows ⟨s,failureStatus,detected⟩ = ⟨s,failureStatus,detected⟩ := by
  cases rows <;> rfl

theorem cleanupEnd_always {st : CleanupState} (h : st.session.Always P) :
    (cleanupEnd c script st).session.Always P := by
  unfold cleanupEnd
  dsimp only
  split
  · exact h
  · generalize (if script.closed then _ else _ : Return) = status
    have hcommitted : (if status.failure then (status,st.session) else
        let r := execCommit st.session script.commit
        (if r.1 then status else failureStatus,r.2)).2.Always P := by
      split
      · exact h
      · exact always_execCommit hP h _
    generalize (if status.failure then (status,st.session) else
        let r := execCommit st.session script.commit
        (if r.1 then status else failureStatus,r.2)) = committed at hcommitted ⊢
    split
    · exact hcommitted
    · exact always_execRollback hP hcommitted _

/-- Before the loop the table is the durable one, or no row is looked at. -/
theorem cleanupOpened_always {accessOf : RelativePath → FileAccessStatus} {st : CleanupState}
    (h : st.session.Always P)
    (hdelete : ∀ e ∈ st.session.table.rows, Deletable c (accessOf e.key) e.key → ∀ log t,
      t.rows ⊆ st.session.table.rows → P log t → P log (t.erase e.ident)) :
    (cleanupOpened c script accessOf st).session.Always P := by
  unfold cleanupOpened
  dsimp only
  apply cleanupEnd_always hP
  cases hdry : c.dryRun with
  | true =>
    have hstart : Cleaned P (st.session.store.working.rows ++ st.session.store.committed.rows) st.session :=
      ⟨h,List.subset_append_left _ _,List.subset_append_right _ _⟩
    simp only [↓reduceIte]
    refine Cleaned.always (cleanupRows_cleaned hP _ 0 hstart ?_)
    intro e _ hdeletable
    exact absurd (hdry.symm.trans hdeletable.writes) (by decide)
  | false =>
    simp only [Bool.false_eq_true,↓reduceIte]
    unfold execBegin
    dsimp only
    have hnoted := h.execute hP .begin
    split
    · rename_i hbegun
      have hsettled := st.session.store.settled hbegun.1
      have hstart : Cleaned P st.session.table.rows
          { st.session.execute .begin with store := (st.session.execute .begin).store.begin } := by
        refine ⟨Store.Always.begin hnoted,List.Subset.refl _,?_⟩
        change st.session.store.committed.rows ⊆ st.session.store.working.rows
        rw [hsettled]
        exact List.Subset.refl _
      exact (cleanupRows_cleaned hP _ 0 hstart fun e he => hdelete e (CleanupScript.mem_selected.mp he)).always
    · simp only [Bool.false_and,Bool.false_eq_true,↓reduceIte]
      rw [cleanupRows_failed]
      exact hnoted

/-- The cleanup keeps a property that the deletions of unlocked rows keep. -/
theorem dbDeleteMissingMetadata_always {prefixes : List RootPath} {interrupted : Bool} (h : s.Always P)
    (hdelete : ∀ accessOf e, prefixes.head?.bind script.openRoot = some accessOf → e ∈ s.table.rows →
      Deletable c (accessOf e.key) e.key → ∀ log t, t.rows ⊆ s.table.rows → P log t →
      P log (t.erase e.ident)) :
    (dbDeleteMissingMetadata c script prefixes interrupted s).2.Always P := by
  unfold dbDeleteMissingMetadata
  dsimp only
  split
  · exact h
  · split
    · exact h
    · cases hroot : prefixes.head?.bind script.openRoot with
      | none => exact (h.report hP _).requestReplay
      | some accessOf => exact cleanupOpened_always hP h (fun e he => hdelete accessOf e hroot he)

end Cleaned
end Precizer.Database
