import Precizer.Database.Upgrade

/-! # What an upgrade commits

An upgrade commits a prefix of a fixed list of transactions, whatever fails and whenever
it is interrupted. Each content it makes durable is the original one after the
transactions committed so far.
-/
namespace Precizer.Database
open General Rational Traversal

def Migration.apply (m : Migration) (d : DatabaseFile) : DatabaseFile where
  metadata := m.metadata d.metadata
  files := d.files.mapValues m.columns

def UpgradeCommit.apply (d : DatabaseFile) : UpgradeCommit → DatabaseFile
  | .migrated m => m.apply d
  | .stored version => { d with metadata := some [version] }

def DatabaseFile.after (d : DatabaseFile) (commits : List UpgradeCommit) : DatabaseFile :=
  commits.foldl UpgradeCommit.apply d

theorem DatabaseFile.after_append (d : DatabaseFile) (commits : List UpgradeCommit) (e : UpgradeCommit) :
    d.after (commits ++ [e]) = e.apply (d.after commits) := by
  rw [DatabaseFile.after,List.foldl_append]
  rfl

/-- The transactions of a link of the chain. -/
def Migration.link (m : Migration) : List UpgradeCommit := [.migrated m,.stored m.target]

def upgradePlan (version : ℤ) : List UpgradeCommit :=
  if version < 1 then Migration.from0To1.link ++ Migration.toVersion4.link
  else if version < 4 then Migration.toVersion4.link
  else []

section Migrate

variable (c : Config) (u : UpgradeScript) (m : Migration)

theorem processRow_status (n : ℕ) (e : Entry RelativePath FileColumns) (s : UpgradeStore) :
    ∃ ok halted, (processRow u m n e s).1 = outcome ok halted := by
  unfold processRow
  split
  · exact ⟨true,_,leave_eq _ _⟩
  · exact ⟨false,_,leave_eq _ _⟩

theorem processRow_within {n : ℕ} {e : Entry RelativePath FileColumns} {s s' : UpgradeStore}
    (h : Store.Within s s') : Store.Within s (processRow u m n e s').2 := by
  unfold processRow
  split
  · exact h.write _
  · exact h

theorem processRow_working {n : ℕ} {e : Entry RelativePath FileColumns} {s : UpgradeStore}
    (h : (processRow u m n e s).1 = successStatus) : (processRow u m n e s).2.working =
      { s.working with files := s.working.files.update e.ident (m.columns e.value) } := by
  unfold processRow at h ⊢
  split
  · exact Store.write_working _ _
  · rename_i hfail
    rw [if_neg hfail,leave_eq,outcome_eq_success] at h
    cases h.1

theorem processRows_status (entries : List (Entry RelativePath FileColumns)) (n : ℕ) (s : UpgradeStore) :
    ∃ ok halted, (processRows u m n entries s).1 = outcome ok halted := by
  induction entries generalizing n s with
  | nil =>
    unfold processRows
    split <;> exact ⟨true,false,rfl⟩
  | cons e rest ih =>
    unfold processRows
    split
    · exact ⟨true,false,rfl⟩
    · dsimp only
      split
      · exact ⟨true,false,rfl⟩
      · split
        · exact ih _ _
        · exact processRow_status u m n e s

theorem processRows_within (entries : List (Entry RelativePath FileColumns)) {n : ℕ} {s s' : UpgradeStore}
    (h : Store.Within s s') : Store.Within s (processRows u m n entries s').2.2 := by
  induction entries generalizing n s' with
  | nil =>
    unfold processRows
    split <;> exact h
  | cons e rest ih =>
    unfold processRows
    split
    · exact h
    · dsimp only
      split
      · exact h
      · split
        · exact ih (processRow_within u m h)
        · exact processRow_within u m h

/-- A loop that came to its end has rewritten every row. -/
theorem processRows_complete (entries : List (Entry RelativePath FileColumns)) {n : ℕ} {s : UpgradeStore}
    (before : List (Entry RelativePath FileColumns)) (hrows : s.working.files.rows = before ++ entries)
    (hend : (processRows u m n entries s).2.1 = true) :
    (processRows u m n entries s).2.2.working.metadata = s.working.metadata ∧
      (processRows u m n entries s).2.2.working.files.rows =
        before ++ entries.map fun e => { e with value := m.columns e.value } := by
  induction entries generalizing n s before with
  | nil =>
    unfold processRows at hend ⊢
    split
    · rename_i hstep
      simp [hstep] at hend
    · exact ⟨rfl,hrows⟩
  | cons e rest ih =>
    unfold processRows at hend ⊢
    split
    · rename_i hstep
      simp [hstep] at hend
    · rename_i hstep
      rw [if_neg hstep] at hend
      dsimp only at hend ⊢
      split
      · rename_i hraised
        simp [hraised] at hend
      · rename_i hraised
        rw [if_neg hraised] at hend
        split
        · rename_i hok
          rw [if_pos hok] at hend
          have hworking := processRow_working u m hok
          have hnext : (processRow u m n e s).2.working.files.rows =
              (before ++ [{ e with value := m.columns e.value }]) ++ rest := by
            rw [hworking]
            dsimp only
            rw [UniqueTable.update_rows_append hrows,List.append_assoc]
            rfl
          obtain ⟨hmetadata,hfiles⟩ := ih _ hnext hend
          refine ⟨hmetadata.trans (by rw [hworking]),?_⟩
          rw [hfiles,List.append_assoc]
          rfl
        · rename_i hfail
          simp [hfail] at hend

theorem processDatabase_status (s : UpgradeStore) :
    ∃ ok halted, (processDatabase u m s).1 = outcome ok halted := by
  unfold processDatabase
  dsimp only
  split
  · split
    · exact ⟨_,_,leave_eq _ _⟩
    · obtain ⟨ok,halted,hstatus⟩ := processRows_status u m s.working.files.rows 0 s
      rw [hstatus,provide_outcome]
      exact ⟨_,_,rfl⟩
  · exact ⟨_,_,leave_eq _ _⟩

theorem processDatabase_within {s s' : UpgradeStore} (h : Store.Within s s') :
    Store.Within s (processDatabase u m s').2 := by
  unfold processDatabase
  dsimp only
  split
  · split
    · exact processRows_within u m _ h
    · exact processRows_within u m _ h
  · exact h

theorem processDatabase_complete {s : UpgradeStore} (h : (processDatabase u m s).1 = successStatus)
    (hquiet : u.signal.raised (.drained m) = false) : (processDatabase u m s).2.working =
      { s.working with files := s.working.files.mapValues m.columns } := by
  unfold processDatabase at h ⊢
  dsimp only at h ⊢
  split
  · rename_i hselected
    rw [if_pos hselected] at h
    split
    · rename_i hok
      rw [if_pos hok,leave_eq,outcome_eq_success,hquiet,Bool.false_or] at h
      obtain ⟨hmetadata,hrows⟩ := processRows_complete u m s.working.files.rows [] rfl h.1
      generalize (processRows u m 0 s.working.files.rows s).2.2.working = d at hmetadata hrows
      have hfiles : d.files = s.working.files.mapValues m.columns := UniqueTable.ext hrows
      cases d
      dsimp only at hmetadata hfiles
      rw [hmetadata,hfiles]
    · rename_i hfail
      obtain ⟨ok,halted,hstatus⟩ := processRows_status u m s.working.files.rows 0 s
      rw [if_neg hfail] at h
      dsimp only at h
      rw [hstatus,provide_outcome,outcome_eq_success,Bool.or_eq_false_iff] at h
      exact absurd (hstatus.trans (outcome_eq_success.mpr ⟨h.1,h.2.1⟩)) hfail
  · rename_i hselected
    rw [if_neg hselected,leave_eq,outcome_eq_success] at h
    cases h.1

theorem migrateRows_status (s : UpgradeStore) : ∃ ok halted, (migrateRows u m s).1 = outcome ok halted := by
  unfold migrateRows
  split
  · exact ⟨false,false,rfl⟩
  · exact processDatabase_status u m _

theorem migrateRows_within {s s' : UpgradeStore} (h : Store.Within s s') :
    Store.Within s (migrateRows u m s').2 := by
  unfold migrateRows
  split
  · exact h
  · exact processDatabase_within u m (h.write _)

theorem migrateRows_complete {s : UpgradeStore} (h : (migrateRows u m s).1 = successStatus)
    (hquiet : u.signal.raised (.drained m) = false) :
    (migrateRows u m s).2.working = m.apply s.working := by
  unfold migrateRows at h ⊢
  split
  · rename_i hcreated
    rw [if_pos hcreated] at h
    cases h
  · rename_i hcreated
    rw [if_neg hcreated] at h
    rw [processDatabase_complete u m h hquiet,Store.write_working]
    rfl

theorem quiet_drained (h : u.signal.raised (.ended m) = false) : u.signal.raised (.drained m) = false := by
  by_contra hraised
  have hraised : u.signal.raised (.drained m) = true := by simpa using hraised
  have hended := u.signal.raised_mono hraised (r := .ended m) (by cases m <;> decide)
  rw [h] at hended
  cases hended

theorem endMigration_cases {s : UpgradeStore} :
    (Store.Unmoved s (endMigration u m (migrateRows u m s.begin)).2 ∧
      ((endMigration u m (migrateRows u m s.begin)).1 = warningStatus ∨
        ∃ ok halted, (endMigration u m (migrateRows u m s.begin)).1 = outcome ok halted ∧
          outcome ok halted ≠ successStatus)) ∨
    (Store.Moved s (endMigration u m (migrateRows u m s.begin)).2 (.migrated m) (m.apply s.working) ∧
      u.signal.raised (.ended m) = false) := by
  have hwithin := migrateRows_within u m (Store.within_begin s)
  obtain ⟨ok,halted,hstatus⟩ := migrateRows_status u m s.begin
  have hcomplete := migrateRows_complete u m (s := s.begin)
  generalize migrateRows u m s.begin = r at hwithin hstatus hcomplete
  unfold endMigration
  dsimp only
  split
  · left
    split
    · refine ⟨hwithin.rollback,?_⟩
      split
      · exact .inl rfl
      · rename_i hfail
        exact .inr ⟨ok,halted,hstatus,fun h => hfail (hstatus.trans h)⟩
    · exact ⟨hwithin.rollback,.inr ⟨false,false,rfl,by decide⟩⟩
  · rename_i hraised
    have hraised : u.signal.raised (.ended m) = false := by simpa using hraised
    split
    · rename_i hfail
      left
      refine ⟨hwithin.rollback,.inr ?_⟩
      split
      · exact ⟨ok,halted,hstatus,fun h => hfail (hstatus.trans h)⟩
      · exact ⟨false,false,rfl,by decide⟩
    · rename_i hok
      have hok : r.1 = successStatus := by simpa using hok
      split
      · right
        refine ⟨?_,hraised⟩
        have hworking := hcomplete hok (quiet_drained u m hraised)
        rw [Store.begin_working] at hworking
        rw [← hworking]
        exact hwithin.commit _
      · exact .inl ⟨hwithin.rollback,.inr ⟨false,false,rfl,by decide⟩⟩

theorem warning_sticks (h h' ok halted : Bool) :
    provide (globalReturnStatus h) (call (globalReturnStatus h) warningStatus (outcome ok halted)) ≠
      successStatus ∧
    provide (globalReturnStatus h) (call (globalReturnStatus h') warningStatus (outcome ok halted)) ≠
      successStatus := by
  cases h <;> cases h' <;> cases ok <;> cases halted <;> decide

/-- A migration commits nothing, or all its rows at once; in the first case it only succeeds
when it does nothing. -/
theorem migrate_cases {s : UpgradeStore} (hclosed : s.autocommit = true) :
    (Store.Unmoved s (migrate c u m s).2 ∧ ((migrate c u m s).1 = successStatus → c.dryRun = true)) ∨
    (Store.Moved s (migrate c u m s).2 (.migrated m) (m.apply s.working) ∧ c.dryRun = false ∧
      u.signal.raised (.ended m) = false) := by
  unfold migrate
  dsimp only
  split
  · rename_i hdry
    exact .inl ⟨.refl hclosed,fun _ => hdry⟩
  · rename_i hdry
    have hdry : c.dryRun = false := by simpa using hdry
    split
    · rcases endMigration_cases u m (s := s) with ⟨hunmoved,hstatus⟩ | ⟨hmoved,hquiet⟩
      · left
        refine ⟨hunmoved,fun hok => ?_⟩
        rcases hstatus with hwarning | ⟨ok,halted,houtcome,hfail⟩
        · rw [hwarning,leave_eq] at hok
          exact absurd hok (warning_sticks _ false _ _).1
        · rw [houtcome,leave_eq,call_outcome,provide_outcome,outcome_eq_success] at hok
          simp only [Bool.and_eq_true,Bool.or_eq_false_iff] at hok
          exact absurd (outcome_eq_success.mpr ⟨hok.1.1,hok.2.1.1.1⟩) hfail
      · exact .inr ⟨hmoved,hdry,hquiet⟩
    · left
      refine ⟨.refl hclosed,fun hok => ?_⟩
      dsimp only at hok
      rw [failureStatus_eq,leave_eq,call_outcome,provide_outcome,outcome_eq_success] at hok
      cases hok.1

/-- Storing the version commits it, or nothing; in the second case it only succeeds when it
does nothing. -/
theorem dbSpecifyVersion_cases {s : UpgradeStore} (hclosed : s.autocommit = true) :
    (Store.Unmoved s (dbSpecifyVersion c u m s).2 ∧ ((dbSpecifyVersion c u m s).1 = successStatus →
      u.signal.raised (.store m) = true ∨ c.dryRun = true)) ∨
    Store.Moved s (dbSpecifyVersion c u m s).2 (.stored m.target)
      (UpgradeCommit.apply s.working (.stored m.target)) := by
  unfold dbSpecifyVersion
  dsimp only
  split
  · rename_i hskip
    exact .inl ⟨.refl hclosed,fun _ => by simpa using hskip⟩
  · split
    · right
      have hwithin := (Store.within_begin s).write { s.working with metadata := some [m.target] }
      have hmoved := hwithin.commit (.stored m.target)
      rwa [Store.write_working] at hmoved
    · left
      refine ⟨.refl hclosed,fun hok => ?_⟩
      rw [leave_eq,call_outcome,provide_outcome,outcome_eq_success] at hok
      cases hok.1

end Migrate

/-- A store reached from a file by the transactions in its log, a prefix of a plan. Every
content ever durable is the file after the transactions before it. -/
structure Planned (d : DatabaseFile) (plan : List UpgradeCommit) (s : UpgradeStore) : Prop where
  closed : s.autocommit = true
  planned : s.log <+: plan
  working : s.working = d.after s.log
  durable : ∀ x ∈ s.durable, x.2 <+: plan ∧ x.1 = d.after x.2

section Planned

variable {d : DatabaseFile} {plan : List UpgradeCommit} {s s' : UpgradeStore}

theorem planned_opened (d : DatabaseFile) (plan : List UpgradeCommit) : Planned d plan (.opened d []) := by
  refine ⟨rfl,List.nil_prefix,rfl,?_⟩
  intro x hx
  have hx : x = (d,[]) := by simpa [Store.durable,Store.opened] using hx
  rw [hx]
  exact ⟨List.nil_prefix,rfl⟩

theorem Planned.unmoved (h : Planned d plan s) (h' : Store.Unmoved s s') : Planned d plan s' := by
  refine ⟨h'.closed,?_,?_,?_⟩
  · rw [h'.log]
    exact h.planned
  · rw [h'.working h.closed,h'.log]
    exact h.working
  · rw [h'.durable]
    exact h.durable

theorem Planned.moved (h : Planned d plan s) {e : UpgradeCommit}
    (h' : Store.Moved s s' e (e.apply s.working)) (hnext : s.log ++ [e] <+: plan) : Planned d plan s' := by
  have hafter : UpgradeCommit.apply s.working e = d.after (s.log ++ [e]) := by
    rw [d.after_append,h.working]
  refine ⟨h'.closed,?_,?_,?_⟩
  · rw [h'.log]
    exact hnext
  · rw [h'.working,h'.log]
    exact hafter
  · rw [h'.durable]
    intro x hx
    rcases List.mem_cons.mp hx with rfl | hx
    · exact ⟨hnext,hafter⟩
    · exact h.durable x hx

variable (c : Config) (u : UpgradeScript) (m : Migration)

theorem upgradeStep_dry (hdry : c.dryRun = true) : (upgradeStep c u m s).2 = s := by
  simp only [upgradeStep,migrate,dbSpecifyVersion,hdry,if_true,Bool.or_true]
  split <;> rfl

/-- Outside the dry run a link of the chain keeps to the plan. When it succeeds and no
interrupt is pending where the version is stored, both transactions were committed. -/
theorem upgradeStep_planned (hwrites : c.dryRun = false) (h : Planned d plan s)
    (hnext : s.log ++ m.link <+: plan) :
    Planned d plan (upgradeStep c u m s).2 ∧ ((upgradeStep c u m s).1 = successStatus →
      u.signal.raised (.store m) = true ∨ (upgradeStep c u m s).2.log = s.log ++ m.link) := by
  have hfirst : s.log ++ [.migrated m] <+: plan := by
    refine (List.prefix_append_right_inj s.log).mpr ?_ |>.trans hnext
    exact ⟨[.stored m.target],rfl⟩
  unfold upgradeStep
  dsimp only
  rcases migrate_cases c u m h.closed with ⟨hunmoved,hdry⟩ | ⟨hmoved,-,-⟩
  · have hplanned := h.unmoved hunmoved
    have hfail : (migrate c u m s).1 ≠ successStatus := by
      intro hok
      rw [hdry hok] at hwrites
      cases hwrites
    rw [if_neg hfail]
    exact ⟨hplanned,fun hok => absurd hok hfail⟩
  · have hplanned := h.moved hmoved hfirst
    split
    · rcases dbSpecifyVersion_cases c u m hplanned.closed with ⟨hunmoved,hsuccess⟩ | hstored
      · refine ⟨hplanned.unmoved hunmoved,fun hok => ?_⟩
        rcases hsuccess hok with hraised | hdry
        · exact .inl hraised
        · rw [hwrites] at hdry
          cases hdry
      · have hlog : (migrate c u m s).2.log ++ [.stored m.target] = s.log ++ m.link := by
          rw [hmoved.log,List.append_assoc]
          rfl
        refine ⟨hplanned.moved hstored ?_,fun _ => .inr ?_⟩
        · rw [hlog]
          exact hnext
        · rw [hstored.log,hlog]
    · rename_i hfail
      exact ⟨hplanned,fun hok => absurd hok hfail⟩

/-- Under a pending interrupt a link of the chain commits nothing. -/
theorem upgradeStep_raised (hwrites : c.dryRun = false) (hclosed : s.autocommit = true)
    (hraised : u.signal.raised (.ended m) = true) : Store.Unmoved s (upgradeStep c u m s).2 ∧
      (upgradeStep c u m s).1 ≠ successStatus := by
  unfold upgradeStep
  dsimp only
  rcases migrate_cases c u m hclosed with ⟨hunmoved,hdry⟩ | ⟨-,-,hquiet⟩
  · have hfail : (migrate c u m s).1 ≠ successStatus := by
      intro hok
      rw [hdry hok] at hwrites
      cases hwrites
    rw [if_neg hfail]
    exact ⟨hunmoved,hfail⟩
  · rw [hraised] at hquiet
    cases hquiet

end Planned

theorem raised_arrival {u : UpgradeScript} {q : UpgradeMoment} (h : u.signal.raised q = true) :
    u.signal.arrival ≠ none := by
  intro hnone
  rw [Signal.raised_none hnone] at h
  cases h

section Upgrade

variable (c : Config) (u : UpgradeScript) (d : DatabaseFile)

theorem upgradePlan_old {version : ℤ} (h : version < 1) :
    upgradePlan version = Migration.from0To1.link ++ Migration.toVersion4.link := by
  simp [upgradePlan,h]

theorem upgradePlan_compact {version : ℤ} (h : ¬ version < 1) (hold : version < 4) :
    upgradePlan version = Migration.toVersion4.link := by
  simp [upgradePlan,h,hold]

theorem upgradePlan_current {version : ℤ} (hold : ¬ version < 4) : upgradePlan version = [] := by
  have h : ¬ version < 1 := by omega
  simp [upgradePlan,h,hold]

theorem dbUpgrade_dry {version : ℤ} {s : UpgradeStore} (hdry : c.dryRun = true) :
    (dbUpgrade c u version s).2 = s := by
  have hstep := fun m s => upgradeStep_dry c u m (s := s) hdry
  have hchain : ∀ (r : Return × UpgradeStore) (p : Prop) [Decidable p],
      (if p then upgradeStep c u .toVersion4 r.2 else r).2 = r.2 := by
    intro r p _
    split
    · exact hstep _ _
    · rfl
  unfold dbUpgrade
  dsimp only
  split
  · rfl
  · rw [hchain]
    split
    · exact hstep _ _
    · rfl

theorem dbUpgrade_forbidden (version : ℤ) {s : UpgradeStore} (hupdate : c.update = false) :
    (dbUpgrade c u version s).2 = s ∧ (dbUpgrade c u version s).1 ≠ successStatus := by
  simp only [dbUpgrade,hupdate,if_true,true_and]
  intro hok
  cases success_of_provide hok

/-- An upgrade keeps to its plan. When it succeeds without an interrupt it committed the
whole plan. -/
theorem dbUpgrade_planned (hwrites : c.dryRun = false) (version : ℤ) :
    Planned d (upgradePlan version) (dbUpgrade c u version (.opened d [])).2 ∧
      ((dbUpgrade c u version (.opened d [])).1 = successStatus → u.signal.arrival ≠ none ∨
        (dbUpgrade c u version (.opened d [])).2.log = upgradePlan version) := by
  have hopened := planned_opened d (upgradePlan version)
  cases hupdate : c.update with
  | false =>
    obtain ⟨hstore,hfail⟩ := dbUpgrade_forbidden c u version (s := .opened d []) hupdate
    rw [hstore]
    exact ⟨hopened,fun hok => absurd hok hfail⟩
  | true =>
    simp only [dbUpgrade,hupdate,Bool.true_eq_false,if_false]
    by_cases hfirst : version < 1
    · have hplan := upgradePlan_old hfirst
      have hnext : (Store.opened d []).log ++ Migration.from0To1.link <+: upgradePlan version := by
        rw [hplan]
        exact List.prefix_append _ _
      obtain ⟨hplanned,hlink⟩ := upgradeStep_planned c u .from0To1 hwrites hopened hnext
      simp only [hfirst,if_true,true_and]
      generalize upgradeStep c u .from0To1 (.opened d []) = r at hplanned hlink
      by_cases hok : r.1 = successStatus
      · simp only [hok,if_true,true_and]
        rw [if_pos (by decide)]
        rcases hlink hok with hraised | hlog
        · have hended := u.signal.raised_mono hraised (r := .ended .toVersion4) (by decide)
          obtain ⟨hunmoved,-⟩ := upgradeStep_raised c u .toVersion4 hwrites hplanned.closed hended
          exact ⟨hplanned.unmoved hunmoved,fun _ => .inl (raised_arrival hraised)⟩
        · have hlog : r.2.log = Migration.from0To1.link := hlog
          have hnext : r.2.log ++ Migration.toVersion4.link <+: upgradePlan version :=
            ⟨[],by rw [List.append_nil,hlog,hplan]⟩
          obtain ⟨hplanned',hlink'⟩ := upgradeStep_planned c u .toVersion4 hwrites hplanned hnext
          refine ⟨hplanned',fun hok' => ?_⟩
          rcases hlink' (success_of_provide hok') with hraised | hlog'
          · exact .inl (raised_arrival hraised)
          · exact .inr (by rw [hlog',hlog,hplan])
      · simp only [hok,if_false,false_and]
        exact ⟨hplanned,fun hok' => absurd (success_of_provide hok') hok⟩
    · simp only [hfirst,if_false,false_and,true_and]
      by_cases hold : version < 4
      · have hplan := upgradePlan_compact hfirst hold
        have hnext : (Store.opened d []).log ++ Migration.toVersion4.link <+: upgradePlan version := by
          rw [hplan]
          exact List.prefix_refl _
        rw [if_pos hold]
        obtain ⟨hplanned,hlink⟩ := upgradeStep_planned c u .toVersion4 hwrites hopened hnext
        refine ⟨hplanned,fun hok => ?_⟩
        rcases hlink (success_of_provide hok) with hraised | hlog
        · exact .inl (raised_arrival hraised)
        · exact .inr (by rw [hlog,hplan]; rfl)
      · rw [if_neg hold]
        exact ⟨hopened,fun _ => .inr (upgradePlan_current hold).symm⟩

end Upgrade

section Plain

variable (m : Migration)

theorem processRows_plain (entries : List (Entry RelativePath FileColumns)) (n : ℕ) (s : UpgradeStore) :
    (processRows {} m n entries s).1 = successStatus ∧ (processRows {} m n entries s).2.1 = true := by
  induction entries generalizing n s with
  | nil => exact ⟨rfl,rfl⟩
  | cons e rest ih => exact ih (n + 1) _

theorem processDatabase_plain (s : UpgradeStore) : (processDatabase {} m s).1 = successStatus := by
  obtain ⟨hok,hend⟩ := processRows_plain m s.working.files.rows 0 s
  unfold processDatabase
  dsimp only
  rw [if_pos rfl,if_pos hok,hend,Bool.or_true]
  rfl

theorem migrate_plain {c : Config} (hwrites : c.dryRun = false) (s : UpgradeStore) :
    (migrate c {} m s).1 = successStatus := by
  have hrows : (migrateRows {} m s.begin).1 = successStatus := by
    rw [migrateRows,if_neg (by simp)]
    exact processDatabase_plain m _
  have hend : (endMigration {} m (migrateRows {} m s.begin)).1 = successStatus := by
    simp only [endMigration,hrows]
    rfl
  simp only [migrate,hwrites,Bool.false_eq_true,Bool.and_self,if_false,if_true]
  rw [hend]
  rfl

theorem dbSpecifyVersion_plain {c : Config} (hwrites : c.dryRun = false) {s : UpgradeStore}
    (htable : s.working.metadata.isSome = true) : (dbSpecifyVersion c {} m s).1 = successStatus := by
  unfold dbSpecifyVersion
  dsimp only
  rw [hwrites,htable]
  rfl

/-- A link of the chain succeeds when nothing fails and there is a metadata table. -/
theorem upgradeStep_plain {c : Config} (hwrites : c.dryRun = false) {s : UpgradeStore}
    (hclosed : s.autocommit = true) (htable : (m.apply s.working).metadata.isSome = true) :
    (upgradeStep c {} m s).1 = successStatus := by
  have hok := migrate_plain m hwrites s
  unfold upgradeStep
  dsimp only
  rw [if_pos hok]
  rcases migrate_cases c {} m hclosed with ⟨-,hdry⟩ | ⟨hmoved,-,-⟩
  · rw [hdry hok] at hwrites
    cases hwrites
  · apply dbSpecifyVersion_plain m hwrites
    rw [hmoved.working]
    exact htable

theorem dbUpgrade_plain {c : Config} (hupdate : c.update = true) (hwrites : c.dryRun = false)
    (d : DatabaseFile) : (dbUpgrade c {} d.version (.opened d [])).1 = successStatus := by
  simp only [dbUpgrade,hupdate,Bool.true_eq_false,if_false]
  by_cases hfirst : d.version < 1
  · have hok := upgradeStep_plain .from0To1 hwrites (s := .opened d []) rfl rfl
    have hnext : (Store.opened d []).log ++ Migration.from0To1.link <+: upgradePlan d.version := by
      rw [upgradePlan_old hfirst]
      exact List.prefix_append _ _
    obtain ⟨hplanned,hlink⟩ := upgradeStep_planned c {} .from0To1 hwrites
      (planned_opened d (upgradePlan d.version)) hnext
    have hlog := (hlink hok).resolve_left (by decide)
    have htable : (Migration.toVersion4.apply (upgradeStep c {} .from0To1 (.opened d [])).2.working).metadata.isSome =
        true := by
      rw [hplanned.working,hlog]
      rfl
    have hok' := upgradeStep_plain .toVersion4 hwrites hplanned.closed htable
    simp only [hfirst,hok,if_true,true_and]
    rw [if_pos (by decide),hok']
    rfl
  · simp only [hfirst,if_false,false_and,true_and]
    by_cases hold : d.version < 4
    · rw [if_pos hold]
      have htable : (Migration.toVersion4.apply d).metadata.isSome = true := by
        cases hmetadata : d.metadata with
        | none =>
          have hzero : d.version = 0 := by rw [DatabaseFile.version,hmetadata]; rfl
          exact absurd (hzero ▸ (by decide : (0 : ℤ) < 1)) hfirst
        | some versions =>
          change d.metadata.isSome = true
          rw [hmetadata]
          rfl
      rw [upgradeStep_plain .toVersion4 hwrites rfl htable]
      rfl
    · rw [if_neg hold]
      rfl

end Plain

section Conclusive

variable (c : Config) (u : UpgradeScript)

theorem endMigration_conclusive (m : Migration) {r : Return × UpgradeStore} (h : r.1.conclusive = true) :
    (endMigration u m r).1.conclusive = true := by
  unfold endMigration
  dsimp only
  split
  · split
    · split
      · rfl
      · exact h
    · rfl
  · split
    · split
      · exact h
      · rfl
    · split <;> rfl

theorem upgradeStep_conclusive (m : Migration) (s : UpgradeStore) :
    (upgradeStep c u m s).1.conclusive = true := by
  have hmigrate : (migrate c u m s).1.conclusive = true := by
    unfold migrate
    dsimp only
    split
    · rw [leave_eq]
      exact conclusive_outcome _ _
    · rw [leave_eq]
      apply conclusive_provide
      apply conclusive_call
      split
      · apply endMigration_conclusive
        obtain ⟨ok,halted,hstatus⟩ := migrateRows_status u m s.begin
        rw [hstatus]
        exact conclusive_outcome _ _
      · rfl
  unfold upgradeStep
  dsimp only
  split
  · unfold dbSpecifyVersion
    dsimp only
    split
    · rw [leave_eq]
      exact conclusive_outcome _ _
    · rw [leave_eq]
      exact conclusive_provide (conclusive_call (conclusive_outcome _ _))
  · exact hmigrate

theorem dbUpgrade_conclusive (version : ℤ) (s : UpgradeStore) :
    (dbUpgrade c u version s).1.conclusive = true := by
  have hchain : ∀ (r : Return × UpgradeStore) (p : Prop) [Decidable p], r.1.conclusive = true →
      (if p then upgradeStep c u .toVersion4 r.2 else r).1.conclusive = true := by
    intro r p _ hr
    split
    · exact upgradeStep_conclusive c u _ _
    · exact hr
  unfold dbUpgrade
  dsimp only
  split
  · have hwarning : warningStatus.conclusive = true := by decide
    exact conclusive_provide hwarning
  · apply conclusive_provide
    apply hchain
    split
    · exact upgradeStep_conclusive c u _ _
    · rfl

/-- The check ends in success or stops the pipeline. -/
theorem dbIntegrityCheck_conclusive (s : UpgradeStore) : (dbIntegrityCheck c u s).1.conclusive = true := by
  have hcheck : (dbCheckVersion c u s).1.conclusive = true := by
    unfold dbCheckVersion
    dsimp only
    split
    · rw [leave_eq]
      exact conclusive_outcome _ _
    · split
      · split
        · split
          · rw [leave_eq]
            exact conclusive_provide (conclusive_outcome _ _)
          · exact conclusive_provide (dbUpgrade_conclusive c u _ _)
        · split
          · have hwarning : warningStatus.conclusive = true := by decide
            exact conclusive_provide hwarning
          · have hsuccess : successStatus.conclusive = true := by decide
            exact conclusive_provide hsuccess
      · rw [dbRetrieveVersion,leave_eq]
        exact conclusive_provide (conclusive_outcome _ _)
  unfold dbIntegrityCheck
  split
  · exact conclusive_provide hcheck
  · rw [leave_eq]
    exact conclusive_outcome _ _

end Conclusive

/-- A blob in the present layout. -/
def CurrentBlob (blob : List UInt8) : Prop := ∃ s : CmpctStat, blob = s.toBytes

/-- Every metadata blob of the files table is in the present layout. -/
def CurrentTable (t : FilesTable) : Prop :=
  ∀ path e blob, t.find path = some e → e.value.stat = some blob → CurrentBlob blob

theorem CurrentBlob.size {blob : List UInt8} (h : CurrentBlob blob) : blob.length = 64 := by
  obtain ⟨s,rfl⟩ := h
  exact toBytes_length s

theorem currentTable_toVersion4 (t : FilesTable) : CurrentTable (t.mapValues Migration.toVersion4.columns) := by
  intro path e blob hfind hblob
  obtain ⟨e',-,rfl⟩ := List.mem_map.mp (UniqueTable.find_eq_some_iff.mp hfind).1
  have hblob : some (Migration.toVersion4.stat e'.value.stat) = some blob := hblob
  exact ⟨_,(Option.some.inj hblob).symm⟩

section Check

variable (c : Config) (u : UpgradeScript) (d : DatabaseFile)

theorem dbIntegrityCheck_dry (hdry : c.dryRun = true) (s : UpgradeStore) : (dbIntegrityCheck c u s).2 = s := by
  unfold dbIntegrityCheck
  split
  · unfold dbCheckVersion
    dsimp only
    split
    · rfl
    · split
      · split
        · split <;> exact dbUpgrade_dry c u hdry
        · split <;> rfl
      · rfl
  · rfl

/-- After a successful check without an interrupt the file was at the current version, or an
upgrade has brought every blob to the present layout. -/
theorem dbIntegrityCheck_current (hwrites : c.dryRun = false) (hquiet : u.signal.arrival = none)
    (hok : (dbIntegrityCheck c u (.opened d [])).1 = successStatus) :
    ((dbIntegrityCheck c u (.opened d [])).2.working = d ∧ d.version = 4) ∨
      CurrentTable (dbIntegrityCheck c u (.opened d [])).2.working.files := by
  unfold dbIntegrityCheck at hok ⊢
  split
  · rename_i hintegrity
    rw [if_pos hintegrity] at hok
    have hok := success_of_provide hok
    unfold dbCheckVersion at hok ⊢
    dsimp only at hok ⊢
    rw [Signal.raised_none hquiet] at hok ⊢
    simp only [Bool.false_eq_true,if_false] at hok ⊢
    split
    · rename_i hretrieved
      rw [if_pos hretrieved] at hok
      split
      · rename_i hold
        rw [if_pos hold] at hok
        right
        have hupgraded : (dbUpgrade c u (dbRetrieveVersion u d).2 (.opened d [])).1 = successStatus := by
          split at hok
          · rename_i hprimary
            exact hprimary.1
          · exact success_of_provide hok
        obtain ⟨hplanned,hlog⟩ := dbUpgrade_planned c u d hwrites (dbRetrieveVersion u d).2
        have hlog := (hlog hupgraded).resolve_left (fun harrival => harrival hquiet)
        have hfiles : CurrentTable (dbUpgrade c u (dbRetrieveVersion u d).2 (.opened d [])).2.working.files := by
          rw [hplanned.working,hlog]
          by_cases hfirst : (dbRetrieveVersion u d).2 < 1
          · rw [upgradePlan_old hfirst]
            exact currentTable_toVersion4 (d.after Migration.from0To1.link).files
          · rw [upgradePlan_compact hfirst hold]
            exact currentTable_toVersion4 d.files
        split <;> exact hfiles
      · rename_i hold
        rw [if_neg hold] at hok
        left
        split
        · rename_i hnewer
          rw [if_pos hnewer] at hok
          dsimp only at hok
          cases success_of_provide hok
        · rename_i hnewer
          refine ⟨rfl,?_⟩
          have hread : (dbRetrieveVersion u d).2 = 4 := le_antisymm (not_lt.mp hnewer) (not_lt.mp hold)
          unfold dbRetrieveVersion at hread
          dsimp only at hread
          split at hread
          · exact hread
          · cases hread
    · rename_i hretrieved
      rw [if_neg hretrieved] at hok
      exact absurd (success_of_provide hok) hretrieved
  · rename_i hintegrity
    rw [if_neg hintegrity,leave_eq,outcome_eq_success] at hok
    cases hok.1

end Check

end Precizer.Database
