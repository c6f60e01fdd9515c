import Precizer.Database.UpgradeRules

/-! # Restarting an upgrade

An upgrade may stop after any of its transactions. Run again to its end, it gives what
an upgrade without the stop gives, except where it stopped between a migration and the
version number of that migration: the second run finds the new layout under the old
number, takes every blob for an invalid one and replaces it by zeros.
-/
namespace Precizer.Guarantees
open General Rational Traversal Database

/-- An upgrade that ran to its end: allowed to write, not interrupted, and successful. -/
def Upgraded (d d' : DatabaseFile) : Prop :=
  ∃ c u, c.update = true ∧ c.dryRun = false ∧ u.signal.arrival = none ∧
    (dbUpgrade c u d.version (.opened d [])).1 = successStatus ∧
    (dbUpgrade c u d.version (.opened d [])).2.working = d'

/-- From what a stopped upgrade left, an upgrade leads to the files and the version it
leads to from the original. -/
def Restartable (d left : DatabaseFile) : Prop :=
  ∃ d₁ d₂, Upgraded left d₁ ∧ Upgraded d d₂ ∧ d₁.files = d₂.files ∧ d₁.version = d₂.version

/-- The last transaction before the stop is a migration whose number was not stored. -/
def stranded (commits : List UpgradeCommit) : Bool :=
  match commits.getLast? with
  | some (.migrated _) => true
  | _ => false

/-- The metadata a complete upgrade stores for an old blob. -/
def upgradedStat (version : ℤ) (stat : Option (List UInt8)) : CmpctStat :=
  if version < 1 then statToVersion4 (some (statToVersion1 stat).toBytes) else statToVersion4 stat

def upgradedFile (d : DatabaseFile) : DatabaseFile := d.after (upgradePlan d.version)

theorem upgraded_iff {d d' : DatabaseFile} : Upgraded d d' ↔ d' = upgradedFile d := by
  constructor
  · rintro ⟨c,u,-,hwrites,hquiet,hok,rfl⟩
    obtain ⟨hplanned,hlog⟩ := dbUpgrade_planned c u d hwrites d.version
    rcases hlog hok with harrival | hlog
    · exact absurd hquiet harrival
    · rw [hplanned.working,hlog,upgradedFile]
  · rintro rfl
    have hok := dbUpgrade_plain (c := { update := true }) rfl rfl d
    obtain ⟨hplanned,hlog⟩ := dbUpgrade_planned { update := true } {} d rfl d.version
    refine ⟨{ update := true },{},rfl,rfl,rfl,hok,?_⟩
    rw [hplanned.working,(hlog hok).resolve_left (by decide),upgradedFile]

theorem restartable_iff_upgradedFile {d left : DatabaseFile} : Restartable d left ↔
    (upgradedFile left).files = (upgradedFile d).files ∧
      (upgradedFile left).version = (upgradedFile d).version := by
  simp only [Restartable,upgraded_iff]
  constructor
  · rintro ⟨d₁,d₂,rfl,rfl,hsame⟩
    exact hsame
  · intro hsame
    exact ⟨_,_,rfl,rfl,hsame⟩

section Columns

theorem columns_eq_iff {columns : FileColumns} {a b : CmpctStat} :
    ({ columns with stat := some a.toBytes } : FileColumns) = { columns with stat := some b.toBytes } ↔
      a = b := by
  constructor
  · intro h
    have hbytes : a.toBytes = b.toBytes := Option.some.inj (congrArg FileColumns.stat h)
    rw [← ofBytes_toBytes a,hbytes,ofBytes_toBytes]
  · rintro rfl
    rfl

theorem unknown_iff {files : FilesTable} {f : FileColumns → CmpctStat} :
    files.mapValues (fun columns => { columns with stat := some unknownStat.toBytes }) =
        files.mapValues (fun columns => { columns with stat := some (f columns).toBytes }) ↔
      ∀ e ∈ files.rows, f e.value = unknownStat := by
  rw [UniqueTable.mapValues_eq_iff]
  constructor
  · intro h e he
    exact (columns_eq_iff.mp (h e he)).symm
  · intro h e he
    exact columns_eq_iff.mpr (h e he).symm

end Columns

theorem upgradedFile_old {d : DatabaseFile} (h : d.version < 1) : (upgradedFile d).files =
    d.files.mapValues (fun columns => { columns with
      stat := some (statToVersion4 (some (statToVersion1 columns.stat).toBytes)).toBytes }) ∧
    (upgradedFile d).version = 4 := by
  rw [upgradedFile,upgradePlan_old h]
  exact ⟨UniqueTable.mapValues_mapValues _ _ _,rfl⟩

theorem upgradedFile_compact {d : DatabaseFile} (h : ¬ d.version < 1) (hold : d.version < 4) :
    (upgradedFile d).files =
      d.files.mapValues (fun columns => { columns with stat := some (statToVersion4 columns.stat).toBytes }) ∧
    (upgradedFile d).version = 4 := by
  rw [upgradedFile,upgradePlan_compact h hold]
  exact ⟨rfl,rfl⟩

theorem upgradedFile_current {d : DatabaseFile} (h : ¬ d.version < 4) : upgradedFile d = d := by
  rw [upgradedFile,upgradePlan_current h]
  rfl

theorem prefix_link_append {m : Migration} {commits rest : List UpgradeCommit}
    (h : commits <+: m.link ++ rest) :
    commits = [] ∨ commits = [.migrated m] ∨ ∃ more, commits = m.link ++ more ∧ more <+: rest := by
  rcases List.prefix_cons_iff.mp h with hnil | ⟨tail,rfl,htail⟩
  · exact .inl hnil
  · rcases List.prefix_cons_iff.mp htail with rfl | ⟨more,rfl,hmore⟩
    · exact .inr (.inl rfl)
    · exact .inr (.inr ⟨more,rfl,hmore⟩)

/-- Before the first migration to the present layout a stop strands the blobs there. -/
theorem restartable_toVersion4 {d : DatabaseFile} (h : ¬ d.version < 1) (hold : d.version < 4)
    {commits : List UpgradeCommit} (hpart : commits <+: Migration.toVersion4.link) :
    ((upgradedFile (d.after commits)).files = (upgradedFile d).files ∧
      (upgradedFile (d.after commits)).version = (upgradedFile d).version) ↔
      stranded commits = false ∨ ∀ e ∈ d.files.rows, statToVersion4 e.value.stat = unknownStat := by
  obtain ⟨hfiles,hversion⟩ := upgradedFile_compact h hold
  rw [← List.append_nil Migration.toVersion4.link] at hpart
  rcases prefix_link_append hpart with rfl | rfl | ⟨more,rfl,hmore⟩
  · exact ⟨fun _ => .inl rfl,fun _ => ⟨rfl,rfl⟩⟩
  · obtain ⟨hfiles',hversion'⟩ := upgradedFile_compact (d := d.after [.migrated .toVersion4]) h hold
    have hagain : (d.after [.migrated .toVersion4]).files.mapValues (fun columns => { columns with
          stat := some (statToVersion4 columns.stat).toBytes }) =
        d.files.mapValues (fun columns => { columns with stat := some unknownStat.toBytes }) := by
      refine (UniqueTable.mapValues_mapValues _ _ _).trans ?_
      simp only [Migration.columns,Migration.stat,statToVersion4_again]
    rw [hfiles',hfiles,hversion',hversion,hagain,unknown_iff]
    simp [stranded]
  · have hmore : more = [] := List.prefix_nil.mp hmore
    subst hmore
    have hdone : ¬ (d.after (Migration.toVersion4.link ++ [])).version < 4 := by
      change ¬ (4 : ℤ) < 4
      decide
    rw [upgradedFile_current hdone,upgradedFile,upgradePlan_compact h hold,List.append_nil]
    exact ⟨fun _ => .inl rfl,fun _ => ⟨rfl,rfl⟩⟩

/-- A stop leaves a restartable file exactly when it does not strand the new layout under
the old number, or when every row's metadata is given up anyway. -/
theorem restartable_iff {d left : DatabaseFile} {commits : List UpgradeCommit} (c : Config) (u : UpgradeScript)
    (hleft : (left,commits) ∈ (dbUpgrade c u d.version (.opened d [])).2.durable) :
    Restartable d left ↔ stranded commits = false ∨
      ∀ e ∈ d.files.rows, upgradedStat d.version e.value.stat = unknownStat := by
  have hstopped : commits <+: upgradePlan d.version ∧ left = d.after commits := by
    cases hdry : c.dryRun with
    | true =>
      rw [dbUpgrade_dry c u hdry] at hleft
      exact (planned_opened d (upgradePlan d.version)).durable _ hleft
    | false => exact (dbUpgrade_planned c u d hdry d.version).1.durable _ hleft
  obtain ⟨hpart,rfl⟩ := hstopped
  rw [restartable_iff_upgradedFile]
  by_cases hfirst : d.version < 1
  · obtain ⟨hfiles,hversion⟩ := upgradedFile_old hfirst
    have hstat : ∀ stat, upgradedStat d.version stat = statToVersion4 (some (statToVersion1 stat).toBytes) :=
      fun stat => if_pos hfirst
    simp only [hstat]
    rw [upgradePlan_old hfirst] at hpart
    rcases prefix_link_append hpart with rfl | rfl | ⟨more,rfl,hmore⟩
    · exact ⟨fun _ => .inl rfl,fun _ => ⟨rfl,rfl⟩⟩
    · obtain ⟨hfiles',hversion'⟩ := upgradedFile_old (d := d.after [.migrated .from0To1]) hfirst
      have hagain : (d.after [.migrated .from0To1]).files.mapValues (fun columns => { columns with
            stat := some (statToVersion4 (some (statToVersion1 columns.stat).toBytes)).toBytes }) =
          d.files.mapValues (fun columns => { columns with stat := some unknownStat.toBytes }) := by
        refine (UniqueTable.mapValues_mapValues _ _ _).trans ?_
        simp only [Migration.columns,Migration.stat,statToVersion1_again,statToVersion4_of_version1]
        rfl
      rw [hfiles',hfiles,hversion',hversion,hagain,unknown_iff]
      simp [stranded]
    · have hafter : d.after (Migration.from0To1.link ++ more) = (d.after Migration.from0To1.link).after more :=
        List.foldl_append
      have hnumber : (d.after Migration.from0To1.link).version = 1 := rfl
      have hwhole : upgradedFile (d.after Migration.from0To1.link) = upgradedFile d := by
        rw [upgradedFile,hnumber,upgradePlan_compact (by decide) (by decide),upgradedFile,
          upgradePlan_old hfirst]
        exact List.foldl_append.symm
      have hcompact : ¬ (d.after Migration.from0To1.link).version < 1 := by rw [hnumber]; decide
      have hold : (d.after Migration.from0To1.link).version < 4 := by rw [hnumber]; decide
      have hrest := restartable_toVersion4 hcompact hold hmore
      have hstranded : stranded (Migration.from0To1.link ++ more) = stranded more := by
        cases more <;> simp [stranded,Migration.link]
      have hrows : (∀ e ∈ (d.after Migration.from0To1.link).files.rows,
          statToVersion4 e.value.stat = unknownStat) ↔
          ∀ e ∈ d.files.rows, statToVersion4 (some (statToVersion1 e.value.stat).toBytes) = unknownStat :=
        List.forall_mem_map
      rw [hafter,hstranded,← hwhole,hrest,hrows]
  · have hstat : ∀ stat, upgradedStat d.version stat = statToVersion4 stat := fun stat => if_neg hfirst
    simp only [hstat]
    by_cases hold : d.version < 4
    · rw [upgradePlan_compact hfirst hold] at hpart
      exact restartable_toVersion4 hfirst hold hpart
    · rw [upgradePlan_current hold] at hpart
      have hnil : commits = [] := List.prefix_nil.mp hpart
      subst hnil
      exact ⟨fun _ => .inl rfl,fun _ => ⟨rfl,rfl⟩⟩

/-- A database of version 3 with one row, of a file of one byte modified in second 1. -/
def compactFile : DatabaseFile where
  metadata := some [3]
  files := .singleton 1 [97] ⟨none,none,some (CmpctStatV1.mk 1 1 0 1 0).toBytes,none⟩

/-- The stop: the migration was committed, the connection for the version number fails. -/
def stoppedUpgrade : UpgradeStore :=
  (dbUpgrade { update := true } { version := fun _ => { opened := false } } compactFile.version
    (.opened compactFile [])).2

theorem restartable_iff_stopped :
    (stoppedUpgrade.committed,stoppedUpgrade.stamp) ∈ stoppedUpgrade.durable ∧
      (Restartable compactFile stoppedUpgrade.committed ↔ stranded stoppedUpgrade.stamp = false ∨
        ∀ e ∈ compactFile.files.rows, upgradedStat compactFile.version e.value.stat = unknownStat) :=
  ⟨List.mem_cons_self,restartable_iff { update := true } { version := fun _ => { opened := false } }
    List.mem_cons_self⟩

/-- After that stop the second run gives the row up. -/
theorem not_restartable : compactFile.version = 3 ∧
    (stoppedUpgrade.committed,stoppedUpgrade.stamp) ∈ stoppedUpgrade.durable ∧
    ¬ Restartable compactFile stoppedUpgrade.committed := by
  refine ⟨rfl,List.mem_cons_self,?_⟩
  rw [restartable_iff_upgradedFile]
  rintro ⟨hfiles,-⟩
  have hrows : (upgradedFile stoppedUpgrade.committed).files.rows ≠ (upgradedFile compactFile).files.rows := by
    decide +kernel
  exact hrows (congrArg UniqueTable.rows hfiles)

end Precizer.Guarantees
