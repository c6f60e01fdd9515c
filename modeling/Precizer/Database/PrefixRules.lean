import Precizer.Database.PrefixUpdate

/-! # What the prefix statements leave

A validation only touches the helper table. A save either commits the kept prefixes followed
by the missing roots, or leaves the paths table as it was.
-/
namespace Precizer.Database.Prefixes
open General Rational Traversal

section Scan

/-- The helper table after a successful step has the identifier, and nothing else is new. -/
theorem recordMismatch_spec (script : RecordScript) (id : ℤ) (s : Scan) :
    let s' := recordMismatch script id s
    (s'.status = successStatus → s.status = successStatus ∧ (id ≠ -1 → id ∈ s'.pathIdDoesNotExist)) ∧
      (∀ k ∈ s.pathIdDoesNotExist, k ∈ s'.pathIdDoesNotExist) ∧
      (∀ k ∈ s'.pathIdDoesNotExist, k ∈ s.pathIdDoesNotExist ∨ k = id) ∧
      (s'.pathsAreEqual = false ↔ s.pathsAreEqual = false ∨ id ≠ -1) := by
  intro s'
  by_cases hid : id = -1
  · have hsame : s' = s := if_pos hid
    rw [hsame]
    exact ⟨fun h => ⟨h,fun hno => absurd hid hno⟩,fun k hk => hk,fun k hk => .inl hk,by simp [hid]⟩
  · by_cases hready : s.status = successStatus ∧ script.prepared = true ∧ script.bound = true
    · by_cases hstep : script.step = true ∧ id ∉ s.pathIdDoesNotExist
      · have hs' : s' = ⟨successStatus,s.pathIdDoesNotExist ++ [id],false⟩ :=
          (if_neg hid).trans ((if_pos hready).trans (if_pos hstep))
        rw [hs']
        refine ⟨fun _ => ⟨hready.1,fun _ => List.mem_append_right _ (List.mem_singleton_self _)⟩,
          fun k hk => List.mem_append_left _ hk,fun k hk => ?_,by simp [hid]⟩
        rcases List.mem_append.mp hk with hk | hk
        · exact .inl hk
        · exact .inr (List.mem_singleton.mp hk)
      · have hs' : s' = ⟨failureStatus,s.pathIdDoesNotExist,false⟩ :=
          (if_neg hid).trans ((if_pos hready).trans (if_neg hstep))
        rw [hs']
        exact ⟨fun hno => (by cases hno),fun k hk => hk,fun k hk => .inl hk,by simp [hid]⟩
    · have hs' : s' = { s with
          status := if s.status = successStatus ∨ script.prepared = false then failureStatus else s.status
          pathsAreEqual := false } := (if_neg hid).trans (if_neg hready)
      rw [hs']
      refine ⟨fun hsuccess => ?_,fun k hk => hk,fun k hk => .inl hk,by simp [hid]⟩
      dsimp only at hsuccess
      split at hsuccess
      · cases hsuccess
      · rename_i hother
        exact absurd (.inl hsuccess) hother

theorem scanRows_spec (script : ValidateScript) (ids : List ℤ) (n : ℕ) (s : Scan) :
    let s' := scanRows script n ids s
    (s'.status = successStatus → s.status = successStatus ∧ ∀ id ∈ ids, id ≠ -1 → id ∈ s'.pathIdDoesNotExist) ∧
      (∀ k ∈ s.pathIdDoesNotExist, k ∈ s'.pathIdDoesNotExist) ∧
      (∀ k ∈ s'.pathIdDoesNotExist, k ∈ s.pathIdDoesNotExist ∨ k ∈ ids) ∧
      (s'.pathsAreEqual = false ↔ s.pathsAreEqual = false ∨ ∃ id ∈ ids, id ≠ -1) := by
  induction ids generalizing n s with
  | nil => exact ⟨fun h => ⟨h,fun id hid => by cases hid⟩,fun k hk => hk,fun k hk => .inl hk,by simp [scanRows]⟩
  | cons id rest ih =>
    obtain ⟨hgoes,hkeeps,hadds,hequal⟩ := recordMismatch_spec (script.recorded n) id s
    obtain ⟨hgoes',hkeeps',hadds',hequal'⟩ := ih (n + 1) (recordMismatch (script.recorded n) id s)
    refine ⟨?_,fun k hk => hkeeps' k (hkeeps k hk),?_,?_⟩
    · intro h
      obtain ⟨hmid,hrest⟩ := hgoes' h
      obtain ⟨hfirst,hstored⟩ := hgoes hmid
      refine ⟨hfirst,fun k hk hne => ?_⟩
      rcases List.mem_cons.mp hk with rfl | hk
      · exact hkeeps' k (hstored hne)
      · exact hrest k hk hne
    · intro k hk
      rcases hadds' k hk with hk | hk
      · rcases hadds k hk with hk | rfl
        · exact .inl hk
        · exact .inr List.mem_cons_self
      · exact .inr (List.mem_cons_of_mem _ hk)
    · change (scanRows script (n + 1) rest (recordMismatch (script.recorded n) id s)).pathsAreEqual = false ↔ _
      rw [hequal',hequal,List.exists_mem_cons_iff,or_assoc]

theorem mem_mismatched {t : Paths} {roots : List RootPath} {id : ℤ} :
    id ∈ t.mismatched roots ↔ ∃ r ∈ t.rows, r.storedPrefix ∉ roots ∧ r.ID = id := by
  simp [Paths.mismatched,and_assoc]

end Scan

section Validate

variable {c : Config} {existed : Bool} {roots : List RootPath} {script : ValidateScript} {st : PathsState}

theorem dbValidatePaths_store : (dbValidatePaths c existed roots script st).2.store = st.store ∧
    (dbValidatePaths c existed roots script st).2.totalChanges = st.totalChanges := by
  unfold dbValidatePaths
  dsimp only
  split
  · exact ⟨rfl,rfl⟩
  · split
    · exact ⟨rfl,rfl⟩
    · split <;> exact ⟨rfl,rfl⟩

/-- No stored prefix outside the roots hides behind the identifier that the code takes for none. -/
def Identified (t : Paths) (roots : List RootPath) : Prop := ∀ r ∈ t.rows, r.storedPrefix ∉ roots → r.ID ≠ -1

/-- A validation that succeeds has recorded every mismatch, and only a new database or `--force`
lets a mismatch pass. -/
theorem dbValidatePaths_success (hcompare : c.compare = false) (hentered : script.signal.raised .enter = false)
    (hids : Identified st.table roots)
    (hsuccess : (dbValidatePaths c existed roots script st).1 = successStatus) :
    let helper := (dbValidatePaths c existed roots script st).2.pathIdDoesNotExist
    roots ≠ [] ∧ (∀ r ∈ st.table.rows, r.storedPrefix ∉ roots → r.ID ∈ helper) ∧
      (c.force = false → existed = true → ∀ r ∈ st.table.rows, r.storedPrefix ∈ roots) := by
  unfold dbValidatePaths at hsuccess ⊢
  dsimp only at hsuccess ⊢
  rw [hcompare,hentered,if_neg (by decide)] at hsuccess ⊢
  split at hsuccess
  · rename_i hbuilt
    exact absurd (success_of_provide hsuccess) hbuilt
  · rename_i hbuilt
    rw [if_neg hbuilt]
    split at hsuccess
    · rename_i hbound
      exact absurd (success_of_provide hsuccess) hbound
    · rename_i hbound
      rw [if_neg hbound]
      have hjudged := success_of_provide hsuccess
      have hscan : (selectMismatches script roots st.table st.pathIdDoesNotExist).status = successStatus := by
        by_contra hno
        rw [judgeScan,if_pos hno] at hjudged
        exact hno hjudged
      dsimp only at hjudged ⊢
      have hselected : roots ≠ [] ∧ selectMismatches script roots st.table st.pathIdDoesNotExist =
          scanRows script 0 (st.table.mismatched roots) ⟨successStatus,st.pathIdDoesNotExist,true⟩ := by
        unfold selectMismatches at hscan ⊢
        split at hscan
        · cases hscan
        · rename_i hroots
          refine ⟨hroots,?_⟩
          rw [if_neg hroots]
          cases hbroken : script.broken with
          | none => rfl
          | some n =>
            rw [hbroken] at hscan
            cases hscan
      obtain ⟨hroots,hselected⟩ := hselected
      rw [hselected] at hscan hjudged ⊢
      obtain ⟨hgoes,-,-,hequal⟩ := scanRows_spec script (st.table.mismatched roots) 0
        ⟨successStatus,st.pathIdDoesNotExist,true⟩
      refine ⟨hroots,?_,?_⟩
      · intro r hr hout
        exact (hgoes hscan).2 r.ID (mem_mismatched.mpr ⟨r,hr,hout,rfl⟩) (hids r hr hout)
      · intro hforce hexisted r hr
        by_contra hout
        have hunequal := hequal.mpr (.inr ⟨r.ID,mem_mismatched.mpr ⟨r,hr,hout,rfl⟩,hids r hr hout⟩)
        rw [judgeScan,if_neg (by simpa using hscan),hexisted,hunequal,hforce] at hjudged
        cases hjudged

end Validate

section Save

/-- The transaction is open as long as nothing has failed, and nothing has become durable. -/
structure Uncommitted (base : Store Paths Unit) (r : Return × PathsState) : Prop where
  durable : r.2.store.durable = base.durable
  opened : r.1 = successStatus → r.2.store.autocommit = false

variable {c : Config} {existed : Bool} {roots : List RootPath} {script : PrefixesScript} {st : PathsState}
  {base : Store Paths Unit} {r : Return × PathsState}

theorem Uncommitted.failed (h : Uncommitted base r) {status : Return} (hfailed : status ≠ successStatus) :
    Uncommitted base (status,r.2) := ⟨h.durable,fun hno => absurd hno hfailed⟩

theorem of_success {ok : Bool} (h : (if ok then successStatus else failureStatus) = successStatus) : ok = true := by
  cases ok with
  | true => rfl
  | false => cases h

/-- A statement in an open transaction. -/
theorem execStep_spec (hopen : st.store.autocommit = false) (hdurable : st.store.durable = base.durable)
    (o : SqlOutcome) (t : Paths) (changes : ℕ) :
    (execStep o t changes st).2.store.durable = base.durable ∧
      ((execStep o t changes st).1 = true → (execStep o t changes st).2.store.autocommit = false ∧
        (execStep o t changes st).2.table = if changes = 0 then st.table else t) ∧
      (execStep o t changes st).2.pathIdDoesNotExist = st.pathIdDoesNotExist := by
  cases o with
  | done =>
    unfold execStep
    dsimp only
    split
    · exact ⟨hdurable,fun _ => ⟨hopen,rfl⟩,rfl⟩
    · have hwithin : Store.Within base (st.store.write t) ∨ (st.store.write t).durable = base.durable :=
        .inr ((Store.Within.write ⟨rfl,rfl,hopen⟩ t).durable.trans hdurable)
      refine ⟨?_,fun _ => ⟨(Store.write_autocommit _ _).trans hopen,Store.write_working _ _⟩,rfl⟩
      exact hwithin.elim (fun h => h.durable) id
  | failed => exact ⟨hdurable,(fun hno => by cases hno),rfl⟩
  | rolledBack => exact ⟨hdurable,(fun hno => by cases hno),rfl⟩

theorem insertRoot_spec (n : ℕ) (root : RootPath) (h : Uncommitted base r) :
    Uncommitted base (insertRoot script n root r) ∧
      ((insertRoot script n root r).1 = successStatus → r.1 = successStatus ∧
        (insertRoot script n root r).2.table.prefixes = insertPrefix r.2.table.prefixes root) := by
  unfold insertRoot
  dsimp only
  by_cases hr : r.1 = successStatus
  · rw [if_pos hr]
    split
    · rename_i hlength
      exact ⟨h.failed hlength,fun hno => absurd hno hlength⟩
    · split
      · exact ⟨h.failed (by decide),fun hno => by cases hno⟩
      · obtain ⟨hdurable,hdone,-⟩ := execStep_spec (h.opened hr) h.durable (script.insert n).step
          (r.2.table.insertOrIgnore root) (if root ∈ r.2.table.prefixes then 0 else 1)
        refine ⟨⟨hdurable,fun hsuccess => ?_⟩,fun hsuccess => ⟨hr,?_⟩⟩
        · exact (hdone (Bool.and_eq_true_iff.mp (of_success hsuccess)).1).1
        rw [(hdone (Bool.and_eq_true_iff.mp (of_success hsuccess)).1).2]
        by_cases hmem : root ∈ r.2.table.prefixes
        · rw [if_pos hmem,if_pos rfl,insertPrefix,if_pos hmem]
        · rw [if_neg hmem,if_neg (by decide)]
          exact Paths.prefixes_insertOrIgnore _ _
  · rw [if_neg hr,if_pos hr]
    exact ⟨h,fun hno => absurd hno hr⟩

theorem insertRoots_spec (roots : List RootPath) (n : ℕ) (h : Uncommitted base r) :
    Uncommitted base (insertRoots script n roots r) ∧
      ((insertRoots script n roots r).1 = successStatus → r.1 = successStatus ∧
        (insertRoots script n roots r).2.table.prefixes = roots.foldl insertPrefix r.2.table.prefixes) := by
  induction roots generalizing n r with
  | nil => exact ⟨h,fun hsuccess => ⟨hsuccess,rfl⟩⟩
  | cons root rest ih =>
    obtain ⟨hinserted,hsaved⟩ := @insertRoot_spec script base r n root h
    unfold insertRoots
    dsimp only
    split
    · rename_i hfailed
      exact ⟨hinserted,fun hno => absurd hno hfailed⟩
    · obtain ⟨hrest,hall⟩ := ih (n + 1) hinserted
      refine ⟨hrest,fun hsuccess => ?_⟩
      obtain ⟨hmid,hprefixes⟩ := hall hsuccess
      obtain ⟨hfirst,hone⟩ := hsaved hmid
      exact ⟨hfirst,by rw [hprefixes,hone,List.foldl_cons]⟩

/-- The prefixes that stay before the roots are saved. -/
def keptPrefixes (c : Config) (st : PathsState) : List RootPath :=
  if c.force && !c.dryRun then (st.table.without st.pathIdDoesNotExist).prefixes else st.table.prefixes

theorem deleteObsolete_spec (hopen : st.store.autocommit = false) (hdurable : st.store.durable = base.durable) :
    Uncommitted base (deleteObsolete script st) ∧ ((deleteObsolete script st).1 = successStatus →
      (deleteObsolete script st).2.table.prefixes = (st.table.without st.pathIdDoesNotExist).prefixes) := by
  obtain ⟨hkept,hdone,-⟩ := execStep_spec hopen hdurable script.delete (st.table.without st.pathIdDoesNotExist)
    (st.table.rows.length - (st.table.without st.pathIdDoesNotExist).rows.length)
  unfold deleteObsolete
  dsimp only
  cases script.deletePrepared with
  | false => exact ⟨⟨hdurable,fun hno => by cases hno⟩,fun hno => by cases hno⟩
  | true =>
    simp only [↓reduceIte]
    refine ⟨⟨hkept,fun hsuccess => ?_⟩,fun hsuccess => ?_⟩
    · exact (hdone (Bool.and_eq_true_iff.mp (of_success hsuccess)).1).1
    rw [(hdone (Bool.and_eq_true_iff.mp (of_success hsuccess)).1).2]
    split
    · rename_i hnone
      -- nothing was deleted, so the statement has left the table alone
      have hsub : (st.table.without st.pathIdDoesNotExist).rows.Sublist st.table.rows := List.filter_sublist
      have hrows := hsub.eq_of_length_le (by omega)
      rw [Paths.prefixes,Paths.prefixes,hrows]
    · rfl

theorem writePrefixes_spec (hopen : st.store.autocommit = false) (hdurable : st.store.durable = base.durable) :
    Uncommitted base (writePrefixes c script roots st) ∧ ((writePrefixes c script roots st).1 = successStatus →
      (writePrefixes c script roots st).2.table.prefixes = roots.foldl insertPrefix (keptPrefixes c st)) := by
  unfold writePrefixes keptPrefixes
  split
  · obtain ⟨hdeleted,hkept⟩ := @deleteObsolete_spec script st base hopen hdurable
    obtain ⟨hinserted,hall⟩ := @insertRoots_spec script base _ roots 0 hdeleted
    refine ⟨hinserted,fun hsuccess => ?_⟩
    obtain ⟨hmid,hprefixes⟩ := hall hsuccess
    rw [hprefixes,hkept hmid]
  · have hstart : Uncommitted base (successStatus,st) := ⟨hdurable,fun _ => hopen⟩
    obtain ⟨hinserted,hall⟩ := @insertRoots_spec script base _ roots 0 hstart
    exact ⟨hinserted,fun hsuccess => (hall hsuccess).2⟩

/-- The end of the transaction: after success the rows are durable, otherwise nothing is. -/
theorem endTransaction_spec (h : Uncommitted base r) (hrollback : script.rollback = true) :
    let q := rollbackPrefixes script (commitPrefixes script r)
    q.2.store.autocommit = true ∧ (q.1 = successStatus → r.1 = successStatus ∧ q.2.table = r.2.table) ∧
      (q.1 ≠ successStatus → q.2.store.durable = base.durable) := by
  have hundone (q : Return × PathsState) (hdurable : q.2.store.durable = base.durable) (hfailed : q.1 ≠ successStatus) :
      (rollbackPrefixes script q).2.store.autocommit = true ∧
        ((rollbackPrefixes script q).1 = successStatus → r.1 = successStatus ∧
          (rollbackPrefixes script q).2.table = r.2.table) ∧
        ((rollbackPrefixes script q).1 ≠ successStatus → (rollbackPrefixes script q).2.store.durable = base.durable) := by
    unfold rollbackPrefixes
    by_cases hopen : q.2.store.autocommit = false
    · rw [if_pos ⟨hfailed,hopen⟩,if_pos hrollback]
      exact ⟨rfl,fun hno => absurd hno hfailed,fun _ => hdurable⟩
    · rw [if_neg fun hboth => hopen hboth.2]
      exact ⟨by simpa using hopen,fun hno => absurd hno hfailed,fun _ => hdurable⟩
  have hfailure : failureStatus ≠ successStatus := by decide
  intro q
  by_cases hr : r.1 = successStatus
  · have hgoes : ¬r.1 ≠ successStatus := fun hno => hno hr
    cases hoc : script.commit with
    | done =>
      have hcommit : commitPrefixes script r = (successStatus,{ r.2 with store := r.2.store.commit }) := by
        rw [commitPrefixes,if_neg hgoes,hoc]
      have hq : q = (successStatus,{ r.2 with store := r.2.store.commit }) := by
        change rollbackPrefixes script (commitPrefixes script r) = _
        rw [hcommit]
        exact if_neg fun hboth => hboth.1 rfl
      rw [hq]
      exact ⟨rfl,fun _ => ⟨hr,rfl⟩,fun hno => absurd rfl hno⟩
    | failed =>
      have hcommit : commitPrefixes script r = (failureStatus,r.2) := by
        rw [commitPrefixes,if_neg hgoes,hoc]
      exact hundone (commitPrefixes script r) (by rw [hcommit]; exact h.durable) (by rw [hcommit]; exact hfailure)
    | rolledBack =>
      have hcommit : commitPrefixes script r = (failureStatus,{ r.2 with store := r.2.store.rollback }) := by
        rw [commitPrefixes,if_neg hgoes,hoc]
      exact hundone (commitPrefixes script r) (by rw [hcommit]; exact h.durable) (by rw [hcommit]; exact hfailure)
  · exact hundone (commitPrefixes script r) (by rw [show commitPrefixes script r = r from if_pos hr]; exact h.durable)
      (by rw [show commitPrefixes script r = r from if_pos hr]; exact hr)

theorem table_of_durable {s s' : PathsState} (hopen : s.store.autocommit = true) (hopen' : s'.store.autocommit = true)
    (hdurable : s'.store.durable = s.store.durable) : s'.table = s.table := by
  have hhead : s'.store.committed = s.store.committed := congrArg Prod.fst (List.cons.inj hdurable).1
  rw [PathsState.table,PathsState.table,s'.store.settled hopen',s.store.settled hopen,hhead]

/-- A save that returns success without a pending interrupt has replaced the prefixes, a failed
one leaves the paths table as it was. No transaction stays open. -/
theorem dbSavePrefixes_spec (hidle : st.store.autocommit = true) (hrollback : script.rollback = true) :
    let q := dbSavePrefixes c existed roots script st
    q.2.store.autocommit = true ∧
      (q.1 = successStatus → script.signal.raised .enter = false → c.compare = false → c.dryRun = false →
        q.2.table.prefixes = roots.foldl insertPrefix (keptPrefixes c st)) ∧
      (q.1.critical = true → q.2.store.durable = st.store.durable ∧ q.2.table = st.table) := by
  intro q
  by_cases hleft : (script.signal.raised .enter || c.compare || (c.dryRun && existed)) = true
  · have hq : q = (provide (globalReturnStatus (script.signal.halted .finish)) successStatus,st) := if_pos hleft
    rw [hq]
    refine ⟨hidle,fun _ hentered hcompare hdry => ?_,fun _ => ⟨rfl,rfl⟩⟩
    rw [hentered,hcompare,hdry] at hleft
    cases hleft
  · by_cases hbegin : st.store.autocommit = false ∨ script.begin = false
    · have hq : q = (provide (globalReturnStatus (script.signal.halted .finish)) failureStatus,st) :=
        (if_neg hleft).trans (if_pos hbegin)
      rw [hq]
      refine ⟨hidle,fun hsuccess => ?_,fun _ => ⟨rfl,rfl⟩⟩
      have hfailed : failureStatus = successStatus := success_of_provide hsuccess
      cases hfailed
    · have hq : q = _ := (if_neg hleft).trans (if_neg hbegin)
      obtain ⟨hwritten,hprefixes⟩ := @writePrefixes_spec c roots script { st with store := st.store.begin } st.store rfl rfl
      obtain ⟨hclosed,hdone,hfailed⟩ := @endTransaction_spec script st.store _ hwritten hrollback
      rw [hq]
      refine ⟨hclosed,fun hsuccess _ _ _ => ?_,fun hno => ?_⟩
      · obtain ⟨hstatus,htable⟩ := hdone (success_of_provide hsuccess)
        refine Eq.trans ?_ (hprefixes hstatus)
        rw [← htable]
        rfl
      · have hfailure : (rollbackPrefixes script (commitPrefixes script (writePrefixes c script roots
            { st with store := st.store.begin }))).1 ≠ successStatus := by
          intro hsuccess
          have hcritical : (provide (globalReturnStatus (script.signal.halted .finish)) successStatus).critical = true := by
            rw [← hsuccess]
            exact hno
          rw [successStatus_eq,provide_outcome] at hcritical
          cases hcritical
        have hdurable := hfailed hfailure
        exact ⟨hdurable,@table_of_durable st _ hidle hclosed hdurable⟩

end Save

section Unchanged

variable {c : Config} {existed : Bool} {roots : List RootPath} {script : PrefixesScript} {st : PathsState}

/-- Neither the rows of the connection nor those on disk have changed. -/
structure Same (st q : PathsState) : Prop where
  table : q.table = st.table
  committed : q.store.committed = st.table
  totalChanges : q.totalChanges = st.totalChanges
  pathIdDoesNotExist : q.pathIdDoesNotExist = st.pathIdDoesNotExist

theorem execStep_same {q : PathsState} (h : Same st q) (o : SqlOutcome) (t : Paths) : Same st (execStep o t 0 q).2 := by
  cases o with
  | done => exact h
  | failed => exact h
  | rolledBack => exact ⟨h.committed,h.committed,h.totalChanges,h.pathIdDoesNotExist⟩

/-- Without recorded mismatches the deletion finds no row. -/
theorem deleteObsolete_same {q : PathsState} (h : Same st q) (hhelper : st.pathIdDoesNotExist = []) :
    Same st (deleteObsolete script q).2 := by
  have hrows : q.table.rows.length - (q.table.without q.pathIdDoesNotExist).rows.length = 0 := by
    rw [h.pathIdDoesNotExist,hhelper,Paths.without]
    simp
  unfold deleteObsolete
  dsimp only
  split
  · rw [hrows]
    exact execStep_same h _ _
  · exact h

theorem insertRoot_same {root : RootPath} (hstored : root ∈ st.table.prefixes) (n : ℕ) {r : Return × PathsState}
    (h : Same st r.2) : Same st (insertRoot script n root r).2 := by
  unfold insertRoot
  dsimp only
  rw [h.table,if_pos hstored]
  generalize (if r.1 = successStatus then leave (script.signal.halted (.length n)) (script.insert n).length
    else r.1) = status
  split
  · exact h
  · split
    · exact h
    · exact execStep_same h _ _

theorem insertRoots_same (roots : List RootPath) (hstored : ∀ root ∈ roots, root ∈ st.table.prefixes) (n : ℕ)
    {r : Return × PathsState} (h : Same st r.2) : Same st (insertRoots script n roots r).2 := by
  induction roots generalizing n r with
  | nil => exact h
  | cons root rest ih =>
    have hone := @insertRoot_same script st root (hstored root List.mem_cons_self) n r h
    unfold insertRoots
    dsimp only
    split
    · exact hone
    · exact ih (fun p hp => hstored p (List.mem_cons_of_mem _ hp)) (n + 1) hone

theorem dbSavePrefixes_same (hidle : st.store.autocommit = true) (hhelper : st.pathIdDoesNotExist = [])
    (hstored : ∀ root ∈ roots, root ∈ st.table.prefixes) : Same st (dbSavePrefixes c existed roots script st).2 := by
  have hrefl : Same st st := ⟨rfl,(st.store.settled hidle).symm,rfl,rfl⟩
  unfold dbSavePrefixes
  dsimp only
  split
  · exact hrefl
  · split
    · exact hrefl
    · have hbegun : Same st { st with store := st.store.begin } := ⟨rfl,hrefl.committed,rfl,rfl⟩
      have hwritten : Same st (writePrefixes c script roots { st with store := st.store.begin }).2 := by
        unfold writePrefixes
        refine insertRoots_same roots hstored 0 ?_
        split
        · exact deleteObsolete_same hbegun hhelper
        · exact hbegun
      have hcommitted : Same st (commitPrefixes script (writePrefixes c script roots
          { st with store := st.store.begin })).2 := by
        unfold commitPrefixes
        split
        · exact hwritten
        · cases script.commit with
          | done => exact ⟨hwritten.table,hwritten.table,hwritten.totalChanges,hwritten.pathIdDoesNotExist⟩
          | failed => exact hwritten
          | rolledBack => exact ⟨hwritten.committed,hwritten.committed,hwritten.totalChanges,hwritten.pathIdDoesNotExist⟩
      have hended : Same st (rollbackPrefixes script (commitPrefixes script (writePrefixes c script roots
          { st with store := st.store.begin }))).2 := by
        unfold rollbackPrefixes
        split
        · split
          · exact ⟨hcommitted.committed,hcommitted.committed,hcommitted.totalChanges,hcommitted.pathIdDoesNotExist⟩
          · exact hcommitted
        · exact hcommitted
      exact ⟨hended.table,hended.committed,hended.totalChanges,hended.pathIdDoesNotExist⟩

end Unchanged

section Undisturbed

variable {c : Config} {existed : Bool} {roots : List RootPath} {st : PathsState}

structure ValidateScript.Works (script : ValidateScript) : Prop where
  quiet : script.signal.arrival = none
  assembled : script.assembled = true
  prepared : script.prepared = true
  length : ∀ n, script.length n = true
  bound : ∀ n, script.bound n = true
  whole : script.broken = none
  recorded : ∀ n, (script.recorded n).prepared = true ∧ (script.recorded n).bound = true ∧
    (script.recorded n).step = true
  listed : script.listed = true

theorem scanRows_works {script : ValidateScript} (h : script.Works) (ids : List ℤ) (n : ℕ) (s : Scan)
    (hs : s.status = successStatus) (hvalid : ∀ id ∈ ids, id ≠ -1) (hnodup : (s.pathIdDoesNotExist ++ ids).Nodup) :
    scanRows script n ids s =
      ⟨successStatus,s.pathIdDoesNotExist ++ ids,s.pathsAreEqual && ids.isEmpty⟩ := by
  induction ids generalizing n s with
  | nil =>
    rw [scanRows,List.append_nil,← hs,List.isEmpty_nil,Bool.and_true]
  | cons id rest ih =>
    have hfresh : id ∉ s.pathIdDoesNotExist := fun hmem =>
      (List.nodup_append.mp hnodup).2.2 id hmem id List.mem_cons_self rfl
    have hone : recordMismatch (script.recorded n) id s = ⟨successStatus,s.pathIdDoesNotExist ++ [id],false⟩ :=
      (if_neg (hvalid id List.mem_cons_self)).trans
        ((if_pos ⟨hs,(h.recorded n).1,(h.recorded n).2.1⟩).trans (if_pos ⟨(h.recorded n).2.2,hfresh⟩))
    rw [scanRows,hone,ih (n + 1) _ rfl (fun k hk => hvalid k (List.mem_cons_of_mem _ hk))
      (by rw [List.append_assoc]; exact hnodup)]
    simp

theorem bindRoots_works {script : ValidateScript} (h : script.Works) (roots : List RootPath) (n : ℕ) :
    bindRoots script n roots successStatus = successStatus := by
  induction roots generalizing n with
  | nil => rfl
  | cons root rest ih =>
    rw [bindRoots,if_pos rfl,Signal.halted_none h.quiet,h.length,h.bound]
    exact ih (n + 1)

theorem mismatched_eq_nil {t : Paths} : t.mismatched roots = [] ↔ t.prefixes.all (fun p => p ∈ roots) = true := by
  rw [Paths.mismatched,List.map_eq_nil_iff,List.filter_eq_nil_iff,Paths.prefixes,List.all_map,List.all_eq_true]
  simp

theorem dbValidatePaths_works {script : ValidateScript} (h : script.Works) (hcompare : c.compare = false)
    (hroots : roots ≠ []) (hids : Identified st.table roots) (hfresh : st.pathIdDoesNotExist = [])
    (hnew : existed = false → st.table.rows = []) :
    (dbValidatePaths c existed roots script st).1 = Database.dbValidatePaths c roots st.table.prefixes ∧
      (dbValidatePaths c existed roots script st).2.pathIdDoesNotExist = st.table.mismatched roots := by
  have hleft : ¬ (c.compare || script.signal.raised .enter) = true := by
    rw [hcompare,Signal.raised_none h.quiet]
    decide
  have hbuilt : assembleSelect script roots = successStatus := by
    rw [assembleSelect,if_neg hroots,Signal.halted_none h.quiet,h.assembled]
    rfl
  have hbound : prepareSelect script roots = successStatus := by
    rw [prepareSelect,h.prepared,if_pos rfl]
    exact bindRoots_works h roots 0
  have hvalid : ∀ id ∈ st.table.mismatched roots, id ≠ -1 := by
    intro id hid
    obtain ⟨r,hr,hout,rfl⟩ := mem_mismatched.mp hid
    exact hids r hr hout
  have hnodup : (st.table.mismatched roots).Nodup := st.table.idsNodup.sublist (List.filter_sublist.map _)
  have hscan : selectMismatches script roots st.table st.pathIdDoesNotExist =
      ⟨successStatus,st.table.mismatched roots,(st.table.mismatched roots).isEmpty⟩ := by
    rw [selectMismatches,if_neg hroots,h.whole,hfresh]
    exact scanRows_works h _ 0 _ rfl hvalid hnodup
  unfold dbValidatePaths
  dsimp only
  rw [if_neg hleft,if_neg (by simpa using hbuilt),if_neg (by simpa using hbound),hscan]
  refine ⟨?_,rfl⟩
  dsimp only
  have hjudge : judgeScan c existed script ⟨successStatus,st.table.mismatched roots,(st.table.mismatched roots).isEmpty⟩ =
      if !existed || (st.table.mismatched roots).isEmpty then successStatus
      else if c.force then successStatus else warningStatus := by
    unfold judgeScan
    rw [if_neg fun hno => hno rfl,h.listed,Bool.or_true]
    rfl
  rw [hjudge,Signal.halted_none h.quiet,Database.dbValidatePaths,hcompare,if_neg (show ¬ false = true by decide)]
  by_cases hequal : st.table.mismatched roots = []
  · have hempty : (!existed || (st.table.mismatched roots).isEmpty) = true := by
      rw [hequal]
      exact Bool.or_true _
    rw [if_pos hempty,if_pos (mismatched_eq_nil.mp hequal)]
    decide
  · have hexisted : existed = true := by
      by_contra hno
      rw [Paths.mismatched,hnew (by simpa using hno)] at hequal
      exact hequal rfl
    rw [if_neg (by simp [hexisted,hequal]),if_neg (mt mismatched_eq_nil.mpr hequal)]
    cases c.force <;> decide

end Undisturbed

end Precizer.Database.Prefixes
