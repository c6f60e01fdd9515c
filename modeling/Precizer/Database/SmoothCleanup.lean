import Precizer.Database.CleanupRules

/-! # A cleanup in which every operation works

Without an interrupt and without a failing operation the cleanup decides every row by its
path alone: the patterns, the options and the access result. The loop ends early only at
a path whose patterns cannot be matched.
-/
namespace Precizer.Database
open General Rational Traversal

/-- No operation fails; a message may be lost. -/
structure CleanupScript.Works (script : CleanupScript) : Prop where
  prefixRead : script.prefixRead = true
  begin : script.begin = .done
  prepared : script.prepared = true
  copied : ∀ n, script.copied n = true
  remember : ∀ n, script.remember n ≠ .rolledBack
  delete : ∀ n, script.delete n = .done
  stepDone : script.stepDone = true
  finalized : script.finalized = true
  closed : script.closed = true
  commit : script.commit = .done
  rollback : script.rollback = true

/-- Besides, no interrupt arrives. -/
structure CleanupScript.Smooth (script : CleanupScript) : Prop extends script.Works where
  quiet : script.signal.arrival = none

inductive RowFate where
  | kept
  | reported (r : Report) (violation : Bool)
  | dropped (reason : DropReason)
  deriving DecidableEq

namespace RowFate

def reports (path : RelativePath) : RowFate → List Report
  | .kept => []
  | .reported r _ => [r]
  | .dropped reason => [.dropped path reason]

def violation : RowFate → Bool
  | .reported _ violation => violation
  | _ => false

def drops : RowFate → Bool
  | .dropped _ => true
  | _ => false

end RowFate

/-- A locked path stays; an unavailable one is reported. -/
def lockedFate (access : FileAccessStatus) (path : RelativePath) : RowFate :=
  if access = .accessAllowed then .kept else .reported (.lockedUnavailable path access) true

/-- What happens to a row that is not locked and not ignored. -/
def visibleFate (c : Config) (access : FileAccessStatus) (path : RelativePath) : RowFate :=
  if access = .accessAllowed then .kept
  else if access = .notFound then .dropped .missing
  else if c.dbDropInaccessible then .dropped .inaccessible
  else .reported (.keptInaccessible path) false

def unlockedFate (c : Config) (access : FileAccessStatus) (path : RelativePath) (ignored : Bool) : RowFate :=
  if ignored then (if c.dbDropIgnored then .dropped .ignored else .kept) else visibleFate c access path

/-- The fate of a row, unless a pattern cannot be matched. The lock of an accessible row
in scope is never asked for. -/
def rowFate (c : Config) (access : FileAccessStatus) (path : RelativePath) : Option RowFate :=
  if !(rowScope c path).ok then none
  else if access = .accessAllowed ∧ (rowScope c path).ignored = false then some .kept
  else match matchChecksumLockPattern c false path with
    | .regexpError => none
    | .regexpMatch => some (lockedFate access path)
    | .notMatch => some (unlockedFate c access path (rowScope c path).ignored)

/-- What the loop does over a list of rows: its reports, the identifiers it deletes, whether
it finds an unavailable locked row and whether it fails. -/
structure CleanupPlan where
  reports : List Report
  dropped : List ℕ
  violation : Bool
  failed : Bool
  deriving DecidableEq

def cleanupPlan (c : Config) (access : RelativePath → FileAccessStatus) :
    List (Entry RelativePath FileColumns) → CleanupPlan
  | [] => ⟨[],[],false,false⟩
  | e :: rest =>
    match rowFate c (access e.key) e.key with
    | none => ⟨[],[],false,true⟩
    | some fate =>
      let plan := cleanupPlan c access rest
      ⟨fate.reports e.key ++ plan.reports,(if fate.drops then [e.ident] else []) ++ plan.dropped,
        fate.violation || plan.violation,plan.failed⟩

def eraseRows (t : FilesTable) (ids : List ℕ) : FilesTable := ids.foldl UniqueTable.erase t

def droppedPath (c : Config) (access : RelativePath → FileAccessStatus) (path : RelativePath) : Bool :=
  (rowFate c (access path) path).any RowFate.drops

theorem rowFate_isSome {c : Config} {access : RelativePath → FileAccessStatus}
    {rows : List (Entry RelativePath FileColumns)} (h : (cleanupPlan c access rows).failed = false) :
    ∀ e ∈ rows, ∃ fate, rowFate c (access e.key) e.key = some fate := by
  induction rows with
  | nil => simp
  | cons e rest ih =>
    rw [cleanupPlan] at h
    cases hfate : rowFate c (access e.key) e.key with
    | none =>
      rw [hfate] at h
      cases h
    | some fate =>
      rw [hfate] at h
      intro e' he'
      rcases List.mem_cons.mp he' with rfl | he'
      · exact ⟨fate,hfate⟩
      · exact ih h e' he'

theorem cleanupPlan_goes {c : Config} {access : RelativePath → FileAccessStatus}
    {rows : List (Entry RelativePath FileColumns)}
    (h : ∀ e ∈ rows, (rowFate c (access e.key) e.key).isSome = true) : (cleanupPlan c access rows).failed = false := by
  induction rows with
  | nil => rfl
  | cons e rest ih =>
    obtain ⟨fate,hfate⟩ := Option.isSome_iff_exists.mp (h e List.mem_cons_self)
    rw [cleanupPlan,hfate]
    exact ih fun e' he' => h e' (List.mem_cons_of_mem _ he')

theorem mem_plan_dropped {c : Config} {access : RelativePath → FileAccessStatus}
    {rows : List (Entry RelativePath FileColumns)} (h : (cleanupPlan c access rows).failed = false) (i : ℕ) :
    i ∈ (cleanupPlan c access rows).dropped ↔ ∃ e ∈ rows, e.ident = i ∧ droppedPath c access e.key = true := by
  induction rows with
  | nil => simp [cleanupPlan]
  | cons e rest ih =>
    obtain ⟨fate,hfate⟩ := rowFate_isSome h e List.mem_cons_self
    rw [cleanupPlan,hfate] at h ⊢
    have hdropped : droppedPath c access e.key = fate.drops := by rw [droppedPath,hfate]; rfl
    simp only [List.mem_append,ih h,List.exists_mem_cons_iff,hdropped]
    cases fate.drops with
    | true => simp only [↓reduceIte,List.mem_singleton,and_true,eq_comm (a := i)]
    | false => simp

/-- A completed cleanup leaves exactly the rows of the paths it does not drop, in whatever order it
looks at them. -/
theorem eraseRows_dropped {c : Config} {script : CleanupScript} {access : RelativePath → FileAccessStatus}
    {t : FilesTable} (h : (cleanupPlan c access (script.selected t)).failed = false) :
    (eraseRows t (cleanupPlan c access (script.selected t)).dropped).rows =
      t.rows.filter fun e => !droppedPath c access e.key := by
  rw [eraseRows,UniqueTable.foldl_erase_rows]
  apply List.filter_congr
  intro e he
  rw [Bool.eq_iff_iff]
  simp only [decide_eq_true_eq,Bool.not_eq_true',mem_plan_dropped h,CleanupScript.mem_selected]
  constructor
  · intro hno
    by_contra hdrop
    exact hno ⟨e,he,rfl,by simpa using hdrop⟩
  · rintro hkept ⟨e',he',hid,hdrop⟩
    obtain rfl := List.inj_on_of_nodup_map t.identsNodup he' he hid
    rw [hkept] at hdrop
    cases hdrop

theorem drops_iff {c : Config} {access : FileAccessStatus} {path : RelativePath} {fate : RowFate}
    (hfate : rowFate c access path = some fate) (hvisible : (rowScope c path).ignored = false) :
    fate.drops = true ↔ access ≠ .accessAllowed ∧ c.locked path = false ∧
      (access = .notFound ∨ c.dbDropInaccessible = true) := by
  unfold rowFate at hfate
  rw [hvisible] at hfate
  have hlocked : c.locked path = decide (matchChecksumLockPattern c false path = .regexpMatch) := rfl
  rw [hlocked]
  split at hfate
  · cases hfate
  · split at hfate
    · rename_i haccess
      cases hfate
      simp [RowFate.drops,haccess]
    · rename_i haccess
      simp only [and_true] at haccess
      cases hlock : matchChecksumLockPattern c false path with
      | regexpError =>
        rw [hlock] at hfate
        cases hfate
      | regexpMatch =>
        rw [hlock] at hfate
        cases hfate
        simp [RowFate.drops,lockedFate,haccess]
      | notMatch =>
        rw [hlock] at hfate
        cases hfate
        simp only [unlockedFate,visibleFate,haccess,↓reduceIte,Bool.false_eq_true,reduceCtorEq,decide_false]
        by_cases hfound : access = .notFound
        · simp [hfound,RowFate.drops]
        · cases c.dbDropInaccessible with
          | true => simp [hfound,haccess,RowFate.drops]
          | false => simp [hfound,RowFate.drops]

theorem rowScope_of_ignored {c : Config} {path : RelativePath} (h : (rowScope c path).ignored = true) :
    (matchIncludeIgnore c false path).ignored = true := by
  unfold rowScope at h
  split at h
  · cases h
  · exact h

theorem dropped_accessible {c : Config} {access : RelativePath → FileAccessStatus} {path : RelativePath}
    (hallowed : access path = .accessAllowed) (h : droppedPath c access path = true) :
    (matchIncludeIgnore c false path).ignored = true ∧ c.locked path = false := by
  unfold droppedPath rowFate at h
  rw [hallowed] at h
  split at h
  · cases h
  · split at h
    · cases h
    · rename_i hignored
      have hignored : (rowScope c path).ignored = true := by simpa using hignored
      cases hlock : matchChecksumLockPattern c false path with
      | regexpError =>
        rw [hlock] at h
        cases h
      | regexpMatch =>
        rw [hlock] at h
        cases h
      | notMatch =>
        refine ⟨rowScope_of_ignored hignored,?_⟩
        rw [Config.locked,hlock]
        rfl

theorem Deletable.dropped {c : Config} {access : RelativePath → FileAccessStatus} {path : RelativePath}
    (h : Deletable c (access path) path) : droppedPath c access path = true := by
  have hfate : rowFate c (access path) path = some (unlockedFate c (access path) path (rowScope c path).ignored) := by
    unfold rowFate
    rw [h.scope,h.unmatched]
    rcases h.cause with ⟨hignored,-⟩ | ⟨-,hallowed,-⟩
    · simp [hignored]
    · simp [hallowed]
  rw [droppedPath,hfate,Option.any_some]
  rcases h.cause with ⟨hignored,hdrop⟩ | ⟨hvisible,hallowed,hcause⟩
  · rw [unlockedFate,if_pos hignored,if_pos hdrop]
    rfl
  · rw [unlockedFate,hvisible,if_neg (by decide),visibleFate,if_neg hallowed]
    split
    · rfl
    · rename_i hfound
      rw [if_pos (hcause.resolve_left hfound)]
      rfl

section Row

variable (c : Config) (script : CleanupScript) (n : ℕ) (path : RelativePath) (id : ℕ)

def settleRow (st : CleanupState) : RowFate → CleanupState
  | .kept => st
  | .reported r true =>
    { st with
      session := ((st.session.report r).sideWrite (script.remember n)).requestReplay
      violationDetected := true }
  | .reported r false => { st with session := st.session.report r }
  | .dropped reason => deleteRow c script n path id reason st

/-- A pattern could not be matched, or a step failed. -/
def CleanupState.fail (st : CleanupState) : CleanupState := { st with status := failureStatus }

variable {c script n path id} {access : FileAccessStatus} {st : CleanupState} {s : Session}

theorem status_settled (hst : st.status = successStatus) : { st with status := successStatus } = st := by
  rw [← hst]

theorem lockQuestion_quiet (hquiet : script.signal.arrival = none) : lockQuestion c script n path =
    answer (matchChecksumLockPattern c false path ≠ .regexpError)
      (matchChecksumLockPattern c false path = .regexpMatch) false := by
  rw [lockQuestion,pathCheckLockedChecksum_eq,Signal.halted_none hquiet,Signal.halted_none hquiet]

theorem violation_quiet (hquiet : script.signal.arrival = none) :
    dbCheckLockedUnavailableViolation c script n path access s =
      match matchChecksumLockPattern c false path with
      | .regexpError => (answer false false false,s)
      | .regexpMatch => (answer true true false,reportUnavailable script n path access s)
      | .notMatch => (answer true false false,s) := by
  unfold dbCheckLockedUnavailableViolation
  dsimp only
  rw [pathCheckLockedChecksum_eq,successStatus_eq,ask_answer,Signal.halted_none hquiet,
    Signal.halted_none hquiet]
  cases matchChecksumLockPattern c false path with
  | regexpError => rfl
  | regexpMatch => rfl
  | notMatch => rfl

/-- A row outside the ignore scope whose file is not accessible. -/
theorem cleanupVisible_quiet (hquiet : script.signal.arrival = none) (hst : st.status = successStatus)
    (haccess : access ≠ .accessAllowed) : cleanupVisible c script n path id access st =
      match matchChecksumLockPattern c false path with
      | .regexpError => st.fail
      | .regexpMatch => settleRow c script n path id st (lockedFate access path)
      | .notMatch => settleRow c script n path id st (visibleFate c access path) := by
  have hsame := status_settled hst
  rw [successStatus_eq] at hsame
  unfold cleanupVisible
  rw [if_neg haccess]
  dsimp only
  rw [violation_quiet hquiet,hst,Signal.halted_none hquiet,successStatus_eq]
  cases matchChecksumLockPattern c false path with
  | regexpError =>
    dsimp only
    rw [ask_answer]
    rfl
  | regexpMatch =>
    dsimp only
    rw [ask_answer,lockedFate,if_neg haccess]
    simp only [Bool.not_false,Bool.and_self,↓reduceIte,Bool.or_self]
    exact congrArg (CleanupState.mk (reportUnavailable script n path access st.session) · true) hst.symm
  | notMatch =>
    dsimp only
    rw [ask_answer,visibleFate,if_neg haccess]
    simp only [Bool.not_false,Bool.and_self,Bool.and_false,↓reduceIte,Bool.false_eq_true,Bool.or_self,
      ne_eq,not_true_eq_false,hsame]
    split
    · rfl
    · split
      · rfl
      · rw [← successStatus_eq,← hst]
        rfl

theorem cleanupIgnored_quiet (hquiet : script.signal.arrival = none) (hst : st.status = successStatus) :
    cleanupIgnored c script n path access st =
      match matchChecksumLockPattern c false path with
      | .regexpError => st.fail
      | .regexpMatch => settleRow c script n path id st (lockedFate access path)
      | .notMatch => st := by
  have hsame := status_settled hst
  unfold cleanupIgnored
  dsimp only
  rw [lockQuestion_quiet hquiet,violation_quiet hquiet,hst,Signal.halted_none hquiet,
    Signal.halted_none hquiet,successStatus_eq,ask_answer]
  cases matchChecksumLockPattern c false path with
  | regexpError => rfl
  | notMatch =>
    simp only [ne_eq,reduceCtorEq,not_false_eq_true,decide_true,decide_false,Bool.not_false,Bool.and_self,
      Bool.and_false,↓reduceIte,Bool.false_eq_true,false_and,Bool.or_self,← successStatus_eq]
    exact hsame
  | regexpMatch =>
    by_cases haccess : access = .accessAllowed
    · simp only [ne_eq,reduceCtorEq,not_false_eq_true,decide_true,Bool.not_false,Bool.and_self,↓reduceIte,
        haccess,not_true_eq_false,and_false,Bool.or_self,← successStatus_eq,lockedFate,settleRow]
      exact hsame
    · simp only [ne_eq,reduceCtorEq,not_false_eq_true,decide_true,Bool.not_false,Bool.and_self,↓reduceIte,
        haccess,and_self,Bool.or_self,lockedFate,ask_answer,Bool.or_true]
      exact congrArg (CleanupState.mk (reportUnavailable script n path access st.session) · true) hst.symm

theorem cleanupDropIgnored_quiet (hquiet : script.signal.arrival = none) (hst : st.status = successStatus) :
    cleanupDropIgnored c script n path id access st =
      match matchChecksumLockPattern c false path with
      | .regexpError => st.fail
      | .regexpMatch => settleRow c script n path id st (lockedFate access path)
      | .notMatch => deleteRow c script n path id .ignored st := by
  have hsame := status_settled hst
  unfold cleanupDropIgnored dbPreserveLockedIgnoredRecord
  dsimp only
  rw [lockQuestion_quiet hquiet,violation_quiet hquiet,hst,Signal.halted_none hquiet,
    Signal.halted_none hquiet,Signal.halted_none hquiet,successStatus_eq,ask_answer]
  cases matchChecksumLockPattern c false path with
  | regexpError =>
    simp only [ne_eq,not_true_eq_false,decide_false,reduceCtorEq,Bool.not_false,Bool.and_self,
      ↓reduceIte,Bool.false_eq_true,Bool.or_self,← successStatus_eq,ask_no]
    rfl
  | notMatch =>
    simp only [ne_eq,reduceCtorEq,not_false_eq_true,decide_true,decide_false,Bool.not_false,Bool.and_self,
      Bool.and_false,↓reduceIte,Bool.false_eq_true,Bool.or_self,← successStatus_eq]
    rw [show successStatus.union { no := true } = (outcome true false).union { no := true } from rfl,ask_no]
    simp only [Bool.false_eq_true,↓reduceIte,Bool.or_self,← successStatus_eq,not_true_eq_false]
    rw [hsame]
  | regexpMatch =>
    have hreported : ask (globalReturnStatus false) successStatus (answer true true false) =
        (true,successStatus) := by decide
    have hkept : ask (globalReturnStatus false) successStatus (provide (globalReturnStatus false)
        (successStatus.union { yes := successStatus.triumph, no := !successStatus.triumph })) =
        (true,successStatus) := by decide
    by_cases haccess : access = .accessAllowed
    · simp only [ne_eq,reduceCtorEq,not_false_eq_true,decide_true,Bool.not_false,Bool.and_self,↓reduceIte,
        haccess,not_true_eq_false,and_false,Bool.or_self,Bool.or_false,lockedFate,← successStatus_eq,hkept,
        settleRow]
      exact hsame
    · simp only [ne_eq,reduceCtorEq,not_false_eq_true,decide_true,Bool.not_false,Bool.and_self,↓reduceIte,
        haccess,and_self,Bool.or_self,Bool.or_true,lockedFate,← successStatus_eq,hreported,hkept]
      exact congrArg (CleanupState.mk (reportUnavailable script n path access st.session) · true) hst.symm

variable (n path id access) in
theorem cleanupRow_uncopied (hquiet : script.signal.arrival = none) (hst : st.status = successStatus)
    (hcopied : script.copied n = false) : cleanupRow c script n path id access st = st.fail := by
  have hrun : run (globalReturnStatus false) successStatus (leave false false) = failureStatus := by decide
  unfold cleanupRow
  dsimp only
  rw [hst,hcopied,Signal.halted_none hquiet,hrun,if_pos (by decide)]
  rfl

variable (n path id access) in
theorem cleanupRow_quiet (hquiet : script.signal.arrival = none) (hst : st.status = successStatus)
    (hcopied : script.copied n = true) : cleanupRow c script n path id access st =
      match rowFate c access path with
      | none => st.fail
      | some fate => settleRow c script n path id st fate := by
  have hrun : run (globalReturnStatus (script.signal.halted (.copied n))) successStatus
      (leave (script.signal.halted (.copied n)) (script.copied n)) = successStatus := by
    rw [Signal.halted_none hquiet,hcopied]
    decide
  have hscope : (if c.ignorePatterns.isEmpty then ⟨true,false,false⟩
      else matchIncludeIgnore c (script.signal.halted (.scopeMatch n)) path) = rowScope c path := by
    rw [Signal.halted_none hquiet]
    rfl
  have hchecked : (if c.ignorePatterns.isEmpty then successStatus
      else leave (script.signal.halted (.scope n)) (rowScope c path).ok) = outcome (rowScope c path).ok false := by
    rw [Signal.halted_none hquiet]
    unfold rowScope
    split
    · rfl
    · exact leave_eq _ _
  have hsame := status_settled hst
  unfold cleanupRow
  dsimp only
  rw [hst,hrun]
  simp only [ne_eq,not_true_eq_false,↓reduceIte]
  rw [hscope,hchecked]
  unfold rowFate
  cases hok : (rowScope c path).ok with
  | false => rfl
  | true =>
    rw [← successStatus_eq,hsame]
    simp only [not_true_eq_false,↓reduceIte,Bool.not_true,Bool.false_eq_true]
    cases hignored : (rowScope c path).ignored with
    | false =>
      simp only [Bool.false_eq_true,↓reduceIte,and_true]
      by_cases haccess : access = .accessAllowed
      · rw [if_pos haccess,cleanupVisible,if_pos haccess]
        rfl
      · rw [if_neg haccess,cleanupVisible_quiet hquiet hst haccess]
        cases matchChecksumLockPattern c false path with
        | regexpError => rfl
        | regexpMatch => rfl
        | notMatch => rfl
    | true =>
      simp only [↓reduceIte,and_false,Bool.true_eq_false]
      cases hdrop : c.dbDropIgnored with
      | false =>
        simp only [Bool.false_eq_true,↓reduceIte]
        rw [@cleanupIgnored_quiet c script n path id access st hquiet hst]
        cases matchChecksumLockPattern c false path with
        | regexpError => rfl
        | regexpMatch => rfl
        | notMatch => simp [unlockedFate,hdrop,settleRow]
      | true =>
        simp only [↓reduceIte]
        rw [cleanupDropIgnored_quiet hquiet hst]
        cases matchChecksumLockPattern c false path with
        | regexpError => rfl
        | regexpMatch => rfl
        | notMatch => simp [unlockedFate,hdrop,settleRow]

variable (c id path) in
/-- A row was decided: what of the loop's state changed, and what did not. -/
structure RowSettled (fate : RowFate) (st st' : CleanupState) : Prop where
  status : st'.status = successStatus
  reports : st'.session.reports = st.session.reports ++ fate.reports path
  table : st'.session.table =
    if c.dryRun = false ∧ fate.drops = true then st.session.table.erase id else st.session.table
  autocommit : st'.session.store.autocommit = st.session.store.autocommit
  committed : st'.session.store.committed = st.session.store.committed
  violation : st'.violationDetected = (st.violationDetected || fate.violation)

variable (n path id) in
theorem delete_done (hquiet : script.signal.arrival = none) (hdelete : script.delete n = .done)
    (hopen : c.dryRun = false → s.store.autocommit = false) :
    ∃ s', dbDeleteTheRecordById c script n path id s = (successStatus,s') ∧ s'.reports = s.reports ∧
      s'.table = (if c.dryRun = false then s.table.erase id else s.table) ∧
      s'.store.autocommit = s.store.autocommit ∧ s'.store.committed = s.store.committed := by
  unfold dbDeleteTheRecordById
  dsimp only
  rw [hdelete,Signal.halted_none hquiet]
  cases hdry : c.dryRun with
  | true => exact ⟨s,rfl,rfl,rfl,rfl,rfl⟩
  | false =>
    refine ⟨_,rfl,?_,?_,?_,?_⟩
    · rw [← Session.execute_reports s (.delete path)]
      exact congrArg (List.filterMap Event.report?) (Store.write_log _ _)
    · exact Store.write_working _ _
    · exact Store.write_autocommit _ _
    · exact Store.write_committed (s := (s.execute (.delete path)).store) (hopen hdry) _

/-- A step the row of this fate needs does not work. A lost message is no such step, unless
it takes the transaction with it. -/
def RowFate.Fails (script : CleanupScript) (n : ℕ) : RowFate → Prop
  | .kept => False
  | .reported _ violation => violation = true ∧ script.remember n = .rolledBack
  | .dropped reason => script.delete n ≠ .done ∨ (rememberedReason reason = true ∧ script.remember n = .rolledBack)

theorem deleteRow_done (hquiet : script.signal.arrival = none)
    (hopen : c.dryRun = false → st.session.store.autocommit = false) {reason : DropReason}
    (hworks : ¬(RowFate.dropped reason).Fails script n) :
    RowSettled c path id (.dropped reason) st (deleteRow c script n path id reason st) := by
  obtain ⟨hdelete,hremember⟩ := not_or.mp hworks
  obtain ⟨s',hs',hreports,htable,hauto,hcommitted⟩ :=
    delete_done n path id (s := st.session) hquiet (not_not.mp hdelete) hopen
  have hkept : (if rememberedReason reason then (s'.report (.dropped path reason)).sideWrite (script.remember n)
      else s'.report (.dropped path reason)) = s'.report (.dropped path reason) := by
    split
    · rename_i hreason
      exact Session.sideWrite_of_ne fun hrolled => hremember ⟨hreason,hrolled⟩
    · rfl
  have hrow : deleteRow c script n path id reason st =
      { st with status := successStatus, session := s'.report (.dropped path reason) } := by
    unfold deleteRow
    rw [if_neg (by rintro ⟨hdry,hclosed⟩; rw [hopen hdry] at hclosed; cases hclosed)]
    dsimp only
    rw [hs']
    dsimp only
    rw [if_pos rfl,hkept]
  rw [hrow]
  refine ⟨rfl,?_,?_,hauto,hcommitted,(Bool.or_false _).symm⟩
  · rw [Session.report_reports,hreports]
    rfl
  · rw [Session.report_table,htable]
    simp [RowFate.drops]

theorem settleRow_done (hquiet : script.signal.arrival = none) (hst : st.status = successStatus)
    (hopen : c.dryRun = false → st.session.store.autocommit = false) {fate : RowFate}
    (hworks : ¬fate.Fails script n) : RowSettled c path id fate st (settleRow c script n path id st fate) := by
  have hundropped (r : Report) (violation : Bool) :
      st.session.table = if c.dryRun = false ∧ (RowFate.reported r violation).drops = true
        then st.session.table.erase id else st.session.table := (if_neg fun hdrop => by cases hdrop.2).symm
  match fate,hworks with
  | .kept,_ => exact ⟨hst,by simp [RowFate.reports,settleRow],by simp [RowFate.drops,settleRow],rfl,rfl,
      by simp [RowFate.violation,settleRow]⟩
  | .reported r false,_ => exact ⟨hst,Session.report_reports _ _,hundropped r false,rfl,rfl,(Bool.or_false _).symm⟩
  | .reported r true,hworks =>
    have hrecorded : script.remember n ≠ .rolledBack := fun hrolled => hworks ⟨rfl,hrolled⟩
    rw [settleRow,Session.sideWrite_of_ne hrecorded]
    exact ⟨hst,Session.report_reports _ _,hundropped r true,rfl,rfl,(Bool.or_true _).symm⟩
  | .dropped reason,hworks => exact deleteRow_done hquiet hopen hworks

end Row

section Loop

variable {c : Config} {script : CleanupScript} {access : RelativePath → FileAccessStatus}

/-- The steps that the row at a place of the loop needs work. -/
def RowWorks (c : Config) (script : CleanupScript) (access : RelativePath → FileAccessStatus) (n : ℕ)
    (path : RelativePath) : Prop :=
  script.copied n = true ∧ ∀ fate, rowFate c (access path) path = some fate → ¬fate.Fails script n

/-- The steps a cleanup of these rows takes inside its transaction work. -/
structure StepsWork (c : Config) (script : CleanupScript) (access : RelativePath → FileAccessStatus)
    (rows : List (Entry RelativePath FileColumns)) : Prop where
  begin : script.begin = .done
  prepared : script.prepared = true
  row : ∀ n e, rows[n]? = some e → RowWorks c script access n e.key
  stepDone : script.stepDone = true
  finalized : script.finalized = true
  closed : script.closed = true
  commit : script.commit = .done

theorem RowFate.not_fails (h : script.Works) (n : ℕ) (fate : RowFate) : ¬fate.Fails script n := by
  cases fate with
  | kept => exact id
  | reported r violation => exact fun hfails => h.remember n hfails.2
  | dropped reason =>
    rintro (hdelete | hremember)
    · exact hdelete (h.delete n)
    · exact h.remember n hremember.2

theorem CleanupScript.Works.steps (h : script.Works) (rows : List (Entry RelativePath FileColumns)) :
    StepsWork c script access rows where
  begin := h.begin
  prepared := h.prepared
  row n _ _ := ⟨h.copied n,fun fate _ => fate.not_fails h n⟩
  stepDone := h.stepDone
  finalized := h.finalized
  closed := h.closed
  commit := h.commit

structure LoopFollows (c : Config) (plan : CleanupPlan) (st st' : CleanupState) : Prop where
  status : st'.status = if plan.failed then failureStatus else successStatus
  reports : st'.session.reports = st.session.reports ++ plan.reports
  table : st'.session.table =
    if c.dryRun then st.session.table else eraseRows st.session.table plan.dropped
  autocommit : st'.session.store.autocommit = st.session.store.autocommit
  committed : st'.session.store.committed = st.session.store.committed
  violation : st'.violationDetected = (st.violationDetected || plan.violation) ∨ plan.failed = true

theorem cleanupRows_stopped (rows : List (Entry RelativePath FileColumns)) (n : ℕ) {st : CleanupState}
    (hst : st.status = failureStatus) : cleanupRows c script access n rows st = st := by
  cases rows with
  | nil =>
    rw [cleanupRows,if_neg]
    rintro ⟨hok,-⟩
    rw [hst] at hok
    cases hok
  | cons e rest =>
    rw [cleanupRows,if_pos]
    rw [hst]
    decide

variable (c access) in
theorem cleanupRows_works (hquiet : script.signal.arrival = none) (hstep : script.stepDone = true)
    (rows : List (Entry RelativePath FileColumns)) (n : ℕ) (st : CleanupState)
    (hrows : ∀ i e, rows[i]? = some e → RowWorks c script access (n + i) e.key)
    (hst : st.status = successStatus) (hopen : c.dryRun = false → st.session.store.autocommit = false) :
    LoopFollows c (cleanupPlan c access rows) st (cleanupRows c script access n rows st) := by
  induction rows generalizing n st with
  | nil =>
    have hdone : cleanupRows c script access n [] st = st := by
      rw [cleanupRows,hstep]
      simp
    rw [hdone]
    exact ⟨hst,(List.append_nil _).symm,(ite_self _).symm,rfl,rfl,.inl (Bool.or_false _).symm⟩
  | cons e rest ih =>
    obtain ⟨hcopied,hworks⟩ : RowWorks c script access n e.key := hrows 0 e rfl
    have hnext : cleanupRows c script access n (e :: rest) st =
        cleanupRows c script access (n + 1) rest (cleanupRow c script n e.key e.ident (access e.key) st) := by
      rw [cleanupRows,if_neg (by simpa using hst),Signal.raised_none hquiet]
      rfl
    rw [hnext,cleanupPlan,cleanupRow_quiet n e.key e.ident (access e.key) hquiet hst hcopied]
    cases hfate : rowFate c (access e.key) e.key with
    | none =>
      dsimp only
      rw [cleanupRows_stopped rest (n + 1) rfl]
      exact ⟨rfl,(List.append_nil _).symm,(ite_self _).symm,rfl,rfl,.inr rfl⟩
    | some fate =>
      obtain ⟨hstatus,hreports,htable,hauto,hcommitted,hviolation⟩ :=
        @settleRow_done c script n e.key e.ident st hquiet hst hopen fate (hworks fate hfate)
      have hrest := ih (n + 1) _ (fun i e' he' => by simpa [Nat.add_assoc,Nat.add_comm 1] using hrows (i + 1) e' he')
        hstatus (fun hdry => hauto.trans (hopen hdry))
      dsimp only
      refine ⟨hrest.status,?_,?_,hrest.autocommit.trans hauto,hrest.committed.trans hcommitted,?_⟩
      · rw [hrest.reports,hreports,List.append_assoc]
      · rw [hrest.table,htable]
        cases c.dryRun with
        | true => simp
        | false => cases fate.drops <;> simp [eraseRows]
      · rcases hrest.violation with hsame | hfailed
        · left
          rw [hsame,hviolation,Bool.or_assoc]
        · exact .inr hfailed

/-- The end of a cleanup inside its transaction: deletions are kept unless the loop failed. -/
theorem cleanupEnd_works (hfinalized : script.finalized = true) (hclosed : script.closed = true)
    (hcommit : script.commit = .done) (hrollback : script.rollback = true) {st : CleanupState}
    (hst : st.status = successStatus ∨ st.status = failureStatus)
    (hopen : c.dryRun = false → st.session.store.autocommit = false) :
    (cleanupEnd c script st).status = st.status ∧
      (cleanupEnd c script st).session.reports = st.session.reports ∧
      (cleanupEnd c script st).session.table = (if c.dryRun = false ∧ st.status = failureStatus
        then st.session.store.committed else st.session.table) ∧
      (cleanupEnd c script st).violationDetected = st.violationDetected := by
  unfold cleanupEnd
  simp only [hfinalized,hclosed,Bool.true_eq_false,and_false,↓reduceIte]
  cases hdry : c.dryRun with
  | true => exact ⟨rfl,rfl,by simp,rfl⟩
  | false =>
    have hauto := hopen hdry
    rcases hst with hst | hst
    · have hcommitted : execCommit st.session script.commit =
          (true,{ st.session.execute .commit with store := (st.session.execute .commit).store.commit }) := by
        unfold execCommit
        dsimp only
        rw [hauto,hcommit]
        rfl
      simp only [hst,hcommitted]
      refine ⟨rfl,Session.execute_reports _ _,?_,rfl⟩
      rw [if_neg (by decide)]
      rfl
    · have hundone : execRollback st.session script.rollback =
          (true,(st.session.execute .rollback).rollbackStore) := by
        unfold execRollback
        rw [hrollback]
        rfl
      have hfailed : failureStatus.failure = true := rfl
      simp only [hst,hfailed,↓reduceIte,hauto,Bool.false_eq_true,hundone]
      exact ⟨trivial,Session.execute_reports _ _,by simp; rfl,trivial⟩

variable (c access) in
theorem cleanupOpened_works (hquiet : script.signal.arrival = none) (hrollback : script.rollback = true)
    (st : CleanupState) (h : StepsWork c script access (script.selected st.session.table)) (hst : st.status = successStatus)
    (hidle : c.dryRun = false → st.session.store.autocommit = true) :
    let plan := cleanupPlan c access (script.selected st.session.table)
    let st' := cleanupOpened c script access st
    st'.status = (if plan.failed then failureStatus else successStatus) ∧
      st'.session.reports = st.session.reports ++ plan.reports ∧
      st'.session.table = (if c.dryRun || plan.failed then st.session.table
        else eraseRows st.session.table plan.dropped) ∧
      (st'.violationDetected = (st.violationDetected || plan.violation) ∨ plan.failed = true) := by
  have hbegun : ∃ s', (if c.dryRun then (true,st.session) else execBegin st.session script.begin) = (true,s') ∧
      s'.reports = st.session.reports ∧ s'.table = st.session.table ∧
      (c.dryRun = false → s'.store.autocommit = false ∧ s'.store.committed = st.session.table) := by
    cases hdry : c.dryRun with
    | true => exact ⟨st.session,rfl,rfl,rfl,fun hno => by cases hno⟩
    | false =>
      have hclosed := hidle hdry
      refine ⟨{ st.session.execute .begin with store := (st.session.execute .begin).store.begin },?_,
        Session.execute_reports _ _,rfl,fun _ => ⟨rfl,(st.session.store.settled hclosed).symm⟩⟩
      simp [execBegin,hclosed,h.begin]
  obtain ⟨s',hs',hreports,htable,hopen⟩ := hbegun
  unfold cleanupOpened
  dsimp only
  rw [hs',h.prepared]
  dsimp only
  simp only [Bool.and_self,↓reduceIte,hst]
  rw [← htable]
  have hloop := cleanupRows_works c access hquiet h.stepDone (script.selected s'.table) 0
    { st with session := s', status := successStatus }
    (fun i e he => by rw [Nat.zero_add]; exact h.row i e (htable ▸ he)) rfl (fun hdry => (hopen hdry).1)
  generalize cleanupPlan c access (script.selected s'.table) = plan at hloop ⊢
  generalize cleanupRows c script access 0 (script.selected s'.table)
    { st with session := s', status := successStatus } = st' at hloop ⊢
  have hstatus : st'.status = successStatus ∨ st'.status = failureStatus := by
    rw [hloop.status]
    cases plan.failed
    · exact .inl rfl
    · exact .inr rfl
  obtain ⟨hend,hendReports,hendTable,hendViolation⟩ := cleanupEnd_works h.finalized h.closed h.commit
    hrollback hstatus
    (fun hdry => hloop.autocommit.trans (hopen hdry).1)
  refine ⟨hend.trans hloop.status,?_,?_,?_⟩
  · rw [hendReports,hloop.reports,hreports]
  · rw [hendTable,hloop.table,hloop.status,hloop.committed]
    cases hdry : c.dryRun with
    | true => simp
    | false =>
      cases hfailed : plan.failed with
      | false => simp [show successStatus ≠ failureStatus by decide]
      | true => simpa using (hopen hdry).2.trans htable.symm
  · rw [hendViolation]
    exact hloop.violation

/-- The root a cleanup works under: the first stored prefix, when it can be opened. -/
def CleanupScript.root (script : CleanupScript) (prefixes : List RootPath) :
    Option (RelativePath → FileAccessStatus) :=
  prefixes.head?.bind script.openRoot

theorem rootPath_works (hquiet : script.signal.arrival = none) (hread : script.prefixRead = true) {prefixes : List RootPath} {root : RootPath}
    (hhead : prefixes.head? = some root) (hstored : root ≠ []) :
    run (globalReturnStatus (script.signal.halted .rootPath)) successStatus
      (leave (script.signal.halted .rootPath)
        (script.prefixRead && (prefixes.head?.any fun r => !r.isEmpty))) = successStatus := by
  have hnonempty : root.isEmpty = false := by simpa using hstored
  rw [Signal.halted_none hquiet,hread,hhead]
  simp only [Option.any_some,hnonempty,Bool.not_false,Bool.and_self]
  decide

theorem dbDeleteMissingMetadata_works (hquiet : script.signal.arrival = none) (hread : script.prefixRead = true)
    (hrollback : script.rollback = true) {prefixes : List RootPath} {s : Session}
    (h : StepsWork c script access (script.selected s.table)) (hcompare : c.compare = false) (hupdate : c.update = true)
    (hidle : c.dryRun = false → s.store.autocommit = true)
    (hstored : ∀ root, prefixes.head? = some root → root ≠ [])
    (hroot : script.root prefixes = some access) :
    let plan := cleanupPlan c access (script.selected s.table)
    let r := dbDeleteMissingMetadata c script prefixes false s
    r.1 = (if plan.failed then failureStatus else if plan.violation then warningStatus else successStatus) ∧
      r.2.reports = s.reports ++ plan.reports ∧
      r.2.table = (if c.dryRun || plan.failed then s.table else eraseRows s.table plan.dropped) := by
  obtain ⟨root,hhead,hopen⟩ := Option.bind_eq_some_iff.mp hroot
  have hstatus := rootPath_works hquiet hread hhead (hstored root hhead)
  have hopened := cleanupOpened_works c access hquiet hrollback { session := s, status := successStatus }
    h rfl hidle
  unfold dbDeleteMissingMetadata
  dsimp only
  rw [hstatus,Signal.raised_none hquiet,Signal.halted_none hquiet]
  simp only [hcompare,hupdate,Bool.or_self,Bool.not_true,Bool.false_eq_true,↓reduceIte,ne_eq,
    not_true_eq_false]
  rw [show prefixes.head?.bind script.openRoot = some access from hroot]
  dsimp only
  dsimp only at hopened
  generalize cleanupOpened c script access { session := s, status := successStatus } = st at hopened ⊢
  obtain ⟨hend,hreports,htable,hviolation⟩ := hopened
  refine ⟨?_,hreports,htable⟩
  rw [hend,Signal.halted_none hquiet]
  cases hfailed : (cleanupPlan c access (script.selected s.table)).failed with
  | true =>
    simp only [↓reduceIte]
    cases st.violationDetected <;> decide
  | false =>
    have hdetected : st.violationDetected = (cleanupPlan c access (script.selected s.table)).violation := by
      rcases hviolation with hsame | hno
      · exact hsame.trans (Bool.false_or _)
      · rw [hfailed] at hno
        cases hno
    rw [hdetected]
    cases (cleanupPlan c access (script.selected s.table)).violation <;> decide

theorem dbDeleteMissingMetadata_smooth (h : script.Smooth) {prefixes : List RootPath} {s : Session}
    (hcompare : c.compare = false) (hupdate : c.update = true)
    (hidle : c.dryRun = false → s.store.autocommit = true)
    (hstored : ∀ root, prefixes.head? = some root → root ≠ [])
    (hroot : script.root prefixes = some access) :
    let plan := cleanupPlan c access (script.selected s.table)
    let r := dbDeleteMissingMetadata c script prefixes false s
    r.1 = (if plan.failed then failureStatus else if plan.violation then warningStatus else successStatus) ∧
      r.2.reports = s.reports ++ plan.reports ∧
      r.2.table = (if c.dryRun || plan.failed then s.table else eraseRows s.table plan.dropped) :=
  dbDeleteMissingMetadata_works h.quiet h.prefixRead h.rollback (h.steps _) hcompare hupdate hidle hstored hroot

/-- A cleanup whose root cannot be opened only says so. -/
theorem dbDeleteMissingMetadata_unopened (h : script.Smooth) {prefixes : List RootPath} {s : Session}
    (hcompare : c.compare = false) (hupdate : c.update = true) {root : RootPath}
    (hhead : prefixes.head? = some root) (hstored : root ≠ []) (hopen : script.openRoot root = none) :
    dbDeleteMissingMetadata c script prefixes false s =
      (successStatus,(s.report .rootUnavailable).requestReplay) := by
  have hstatus := rootPath_works h.quiet h.prefixRead hhead hstored
  have hnone : prefixes.head?.bind script.openRoot = none := by
    rw [hhead]
    exact hopen
  unfold dbDeleteMissingMetadata
  dsimp only
  rw [hstatus,hnone,Signal.raised_none h.quiet,Signal.halted_none h.quiet]
  simp only [hcompare,hupdate,Bool.or_self,Bool.not_true,Bool.false_eq_true,↓reduceIte,ne_eq,
    not_true_eq_false]
  rw [Signal.halted_none h.quiet]
  rfl

variable (c script access) in
theorem cleanupOpened_busy (st : CleanupState) (hdry : c.dryRun = false)
    (hopen : st.session.store.autocommit = false) : (cleanupOpened c script access st).status.failure = true := by
  have hbegun : (execBegin st.session script.begin).1 = false := by
    unfold execBegin
    dsimp only
    rw [hopen]
    rfl
  unfold cleanupOpened
  dsimp only
  rw [hdry]
  simp only [Bool.false_eq_true,↓reduceIte,hbegun,Bool.false_and]
  rw [cleanupRows_stopped _ _ rfl]
  unfold cleanupEnd
  dsimp only
  have hstatus : (if script.closed then
      (if failureStatus = successStatus ∧ script.finalized = false then failureStatus else failureStatus)
      else failureStatus) = failureStatus := by
    rw [ite_self,ite_self]
  rw [hstatus,hdry,show failureStatus.failure = true from rfl]
  simp only [Bool.false_eq_true,↓reduceIte]
  split
  · rfl
  · dsimp only
    rw [ite_self]
    rfl

end Loop

end Precizer.Database
