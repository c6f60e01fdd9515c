import Precizer.Database.FailedCleanup

/-! # The drop policy

Which rows a cleanup deletes is a rule over the patterns, two options and the access
result of each path. A cleanup that meets no failing step deletes the rows the rule names,
one that meets a failing step deletes none.
-/
namespace Precizer.Guarantees
open General Rational Traversal Database

/-- The rule: a row that is not locked goes when it is ignored and ignored rows are dropped,
or when it is visible and its file is missing, or visible, inaccessible and dropped as such. -/
def PolicyDrops (c : Config) (access : RelativePath → FileAccessStatus) (path : RelativePath) : Prop :=
  c.locked path = false ∧
    ((matchIncludeIgnore c false path).ignored = true ∧ c.dbDropIgnored = true ∨
      (matchIncludeIgnore c false path).ignored = false ∧ access path = .notFound ∨
      (matchIncludeIgnore c false path).ignored = false ∧
        (access path = .accessDenied ∨ access path = .accessError) ∧ c.dbDropInaccessible = true)

instance (c : Config) (access : RelativePath → FileAccessStatus) (path : RelativePath) :
    Decidable (PolicyDrops c access path) := by
  unfold PolicyDrops
  infer_instance

def LockedUnavailable (c : Config) (access : RelativePath → FileAccessStatus) (path : RelativePath) : Prop :=
  c.locked path = true ∧ access path ≠ .accessAllowed

/-- An update that may write reaches the cleanup, no interrupt arrives during it, and a
rollback works. -/
structure CleanupReached (c : Config) (script : CleanupScript) (s : Session) : Prop where
  compare : c.compare = false
  update : c.update = true
  writes : c.dryRun = false
  quiet : script.signal.arrival = none
  rollback : script.rollback = true
  idle : s.store.autocommit = true

theorem unlockedFate_drops {c : Config} {access : RelativePath → FileAccessStatus} {path : RelativePath}
    (hlocked : c.locked path = false) :
    (unlockedFate c (access path) path (matchIncludeIgnore c false path).ignored).drops = true ↔
      PolicyDrops c access path := by
  unfold PolicyDrops unlockedFate visibleFate
  cases (matchIncludeIgnore c false path).ignored with
  | true => cases c.dbDropIgnored <;> simp [RowFate.drops,hlocked]
  | false => cases access path <;> cases c.dbDropInaccessible <;> simp [RowFate.drops,hlocked]

theorem fate_policy {c : Config} {access : RelativePath → FileAccessStatus} {path : RelativePath} {fate : RowFate}
    (hfate : rowFate c (access path) path = some fate) :
    (fate.drops = true ↔ PolicyDrops c access path) ∧
      (fate.violation = true ↔ LockedUnavailable c access path) := by
  have hlocked : c.locked path = decide (matchChecksumLockPattern c false path = .regexpMatch) := rfl
  unfold rowFate at hfate
  split at hfate
  · cases hfate
  · split at hfate
    · rename_i hseen
      obtain ⟨haccess,hvisible⟩ := hseen
      cases hfate
      rw [rowScope_ignored] at hvisible
      simp [PolicyDrops,LockedUnavailable,RowFate.drops,RowFate.violation,haccess,hvisible]
    · rename_i hseen
      cases hlock : matchChecksumLockPattern c false path with
      | regexpError =>
        rw [hlock] at hfate
        cases hfate
      | regexpMatch =>
        rw [hlock] at hfate hlocked
        cases hfate
        unfold lockedFate
        split
        · rename_i haccess
          simp [PolicyDrops,LockedUnavailable,RowFate.drops,RowFate.violation,haccess,hlocked]
        · rename_i haccess
          simp [PolicyDrops,LockedUnavailable,RowFate.drops,RowFate.violation,haccess,hlocked]
      | notMatch =>
        rw [hlock] at hfate hlocked
        cases hfate
        have hunlocked : c.locked path = false := hlocked
        rw [rowScope_ignored]
        refine ⟨unlockedFate_drops hunlocked,?_⟩
        have hnone : (unlockedFate c (access path) path (matchIncludeIgnore c false path).ignored).violation =
            false := by
          unfold unlockedFate visibleFate
          repeat' split
          all_goals rfl
        rw [hnone,LockedUnavailable,hunlocked]
        simp

theorem plan_violation {c : Config} {access : RelativePath → FileAccessStatus}
    {rows : List (Entry RelativePath FileColumns)} (h : (cleanupPlan c access rows).failed = false) :
    (cleanupPlan c access rows).violation = true ↔ ∃ e ∈ rows, LockedUnavailable c access e.key := by
  induction rows with
  | nil => simp [cleanupPlan]
  | cons e rest ih =>
    obtain ⟨fate,hfate⟩ := rowFate_isSome h e List.mem_cons_self
    rw [cleanupPlan,hfate] at h ⊢
    simp only [Bool.or_eq_true,(fate_policy hfate).2,ih h,List.exists_mem_cons_iff]

/-- The cleanup of an update under one stored root: without a failing step it deletes the
rows the rule names and warns of the unavailable locked ones, with a failing step it fails
and deletes nothing, and without the root it deletes nothing. -/
theorem drop_policy {c : Config} {script : CleanupScript} {s : Session} (h : CleanupReached c script s)
    {root : RootPath} (hroot : root ≠ []) :
    let r := dbDeleteMissingMetadata c script [root] false s
    (∀ access, script.openRoot root = some access →
      (¬StepFails c script access (script.selected s.table) →
        (r.2.table.rows = s.table.rows.filter fun e => ¬PolicyDrops c access e.key) ∧
        (r.1 = warningStatus ↔ ∃ e ∈ s.table.rows, LockedUnavailable c access e.key) ∧
        (r.1 = warningStatus ∨ r.1 = successStatus)) ∧
      (StepFails c script access (script.selected s.table) → r.1 = failureStatus ∧ r.2.table = s.table)) ∧
    (script.openRoot root = none → r.2.table = s.table) := by
  have hstored : ∀ stored, [root].head? = some stored → stored ≠ [] := by
    rintro stored ⟨⟩
    exact hroot
  refine ⟨?_,fun hnone => dbDeleteMissingMetadata_rootless false s hnone⟩
  intro access hopen
  have hopened : script.root [root] = some access := hopen
  constructor
  · intro hworks
    obtain ⟨hread,hsteps,hplan⟩ := stepsWork_of_not_fails hworks
    obtain ⟨hstatus,-,htable⟩ := dbDeleteMissingMetadata_works h.quiet hread h.rollback hsteps h.compare h.update
      (fun _ => h.idle) hstored hopened
    rw [hplan,if_neg (by decide)] at hstatus
    rw [hplan,h.writes,if_neg (by decide)] at htable
    refine ⟨?_,?_,?_⟩
    · rw [htable,eraseRows_dropped hplan]
      apply List.filter_congr
      intro e he
      obtain ⟨fate,hfate⟩ := rowFate_isSome hplan e (CleanupScript.mem_selected.mpr he)
      have hdrops := (fate_policy hfate).1
      rw [droppedPath,hfate,Option.any_some]
      cases hfateDrops : fate.drops with
      | true => simp [hdrops.mp hfateDrops]
      | false =>
        have hkept : ¬PolicyDrops c access e.key := by
          rw [← hdrops,hfateDrops]
          decide
        simp [hkept]
    · have hviolation := plan_violation hplan
      simp only [CleanupScript.mem_selected] at hviolation
      rw [hstatus,← hviolation]
      cases (cleanupPlan c access (script.selected s.table)).violation <;> decide
    · rw [hstatus]
      cases (cleanupPlan c access (script.selected s.table)).violation
      · exact .inr rfl
      · exact .inl rfl
  · intro hfails
    exact dbDeleteMissingMetadata_failed h.writes h.quiet h.rollback h.idle h.compare h.update hstored hopened hfails

def missingRow : Session := { store := .opened (.singleton 1 [97] ⟨none,none,none,none⟩) [] }

theorem cleanupReached_plain (access : RelativePath → FileAccessStatus) (s : Session)
    (hidle : s.store.autocommit = true) : CleanupReached { update := true } (.plain access) s :=
  ⟨rfl,rfl,rfl,rfl,rfl,hidle⟩

theorem drop_policy_missing :
    (dbDeleteMissingMetadata { update := true } (.plain fun _ => .notFound) [[47]] false missingRow).2.table.rows =
      [] := by
  have hworks : ¬StepFails { update := true } (.plain fun _ => .notFound) (fun _ => .notFound)
      ((CleanupScript.plain fun _ => .notFound).selected missingRow.table) :=
    not_stepFails_of_works ⟨rfl,rfl,rfl,fun _ => rfl,fun _ hno => (by cases hno),fun _ => rfl,rfl,rfl,rfl,rfl,rfl⟩
      (by decide)
  have hpolicy := @drop_policy _ _ _ (cleanupReached_plain (fun _ => .notFound) missingRow rfl) [47] (by decide)
  rw [((hpolicy.1 _ rfl).1 hworks).1]
  decide

end Precizer.Guarantees
