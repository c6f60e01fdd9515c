import Precizer.Database.SmoothCleanup
import Precizer.Database.PathsTable
import Precizer.Pipeline.Run

/-! # Cleanup under several roots

A row holds a path relative to some root, and the cleanup looks it up under one: the
first prefix of the paths table. A row of a file below another root survives exactly when
the first root, or the options, happen to let it.
-/
namespace Precizer.Guarantees
open General Rational Traversal Database Pipeline

/-- The directories as a run finds them: what the access check of an opened root answers,
and which of its paths name regular files. -/
structure FileSystem where
  openRoot : RootPath → Option (RelativePath → FileAccessStatus)
  regular : RootPath → RelativePath → Bool

def FileSystem.Readable (fs : FileSystem) (root : RootPath) (path : RelativePath) : Prop :=
  fs.regular root path = true ∧ ∃ access, fs.openRoot root = some access ∧ access path = .accessAllowed

def runStart (r : RunScript) (t : FilesTable) (log : List Event) : RunState :=
  runFileList r (openSession t log)

/-- An update over the given roots that is not interrupted and ends without an error. -/
structure RootsRun (fs : FileSystem) (roots stored : List RootPath) (existed : Bool) (r : RunScript)
    (t : FilesTable) (log : List Event) : Prop where
  prefixes : r.prefixes = dbSavePrefixes r.config existed roots stored
  roots_ne_nil : ∀ root ∈ roots, root ≠ []
  stored_ne_nil : ∀ root ∈ stored, root ≠ []
  openRoot : r.cleanup.openRoot = fs.openRoot
  smooth : r.cleanup.Smooth
  compare : r.config.compare = false
  update : r.config.update = true
  uninterrupted : (runStart r t log).interrupted = false
  succeeded : (runFrom r t log).status.failure = false

/-- A row that names a readable regular file under one of the roots, out of the reach of the
ignore patterns. -/
def Named (fs : FileSystem) (roots : List RootPath) (c : Config) (path : RelativePath) : Prop :=
  (∃ root ∈ roots, fs.Readable root path) ∧ matchIgnorePattern c false path ≠ .regexpMatch

/-- The cleanup of the run deletes no row of such a file. -/
def RootsRespected (fs : FileSystem) (roots : List RootPath) (r : RunScript) (t : FilesTable)
    (log : List Event) : Prop :=
  ∀ e ∈ (runStart r t log).session.table.rows, Named fs roots r.config e.key →
    e ∈ (runCleanup r (runStart r t log)).session.table.rows

/-- The cleanup is not reached, may not write, or has no root to look under. -/
def CleanupIdle (r : RunScript) (t : FilesTable) (log : List Event) : Prop :=
  (runStart r t log).status.skip = true ∨ r.config.dryRun = true ∨ r.cleanup.root r.prefixes = none

/-- The options keep the row of a path with this access result. -/
def Retained (c : Config) (access : FileAccessStatus) (path : RelativePath) : Prop :=
  access = .accessAllowed ∨ c.locked path = true ∨ (access ≠ .notFound ∧ c.dbDropInaccessible = false)

theorem visible_of_unmatched {c : Config} {path : RelativePath}
    (h : matchIgnorePattern c false path ≠ .regexpMatch) : (rowScope c path).ignored = false := by
  unfold rowScope
  split
  · rfl
  · unfold matchIncludeIgnore
    cases matchIncludePattern c false path with
    | regexpMatch => rfl
    | regexpError => rfl
    | notMatch =>
      cases hmatch : matchIgnorePattern c false path with
      | regexpMatch => exact absurd hmatch h
      | regexpError => rfl
      | notMatch => rfl

theorem retained_iff {c : Config} {access : FileAccessStatus} {path : RelativePath} {fate : RowFate}
    (hfate : rowFate c access path = some fate) (hvisible : (rowScope c path).ignored = false) :
    Retained c access path ↔ fate.drops = false := by
  rw [← Bool.not_eq_true,drops_iff hfate hvisible]
  unfold Retained
  by_cases haccess : access = .accessAllowed
  · simp [haccess]
  · cases c.locked path with
    | true => simp
    | false =>
      cases c.dbDropInaccessible with
      | true => simp [haccess]
      | false => simp [haccess]

section Run

variable {fs : FileSystem} {roots stored : List RootPath} {existed : Bool} {r : RunScript} {t : FilesTable}
  {log : List Event}

theorem RootsRun.head_ne_nil (h : RootsRun fs roots stored existed r t log) :
    ∀ root, r.prefixes.head? = some root → root ≠ [] := by
  intro root hroot
  rw [h.prefixes] at hroot
  exact dbSavePrefixes_ne_nil r.config existed h.roots_ne_nil h.stored_ne_nil root (List.mem_of_mem_head? hroot)

theorem RootsRun.cleanup (h : RootsRun fs roots stored existed r t log)
    (hreached : (runStart r t log).status.skip = false) :
    (dbDeleteMissingMetadata r.config r.cleanup r.prefixes false (runStart r t log).session).1.failure = false ∧
      (runCleanup r (runStart r t log)).session =
        (dbDeleteMissingMetadata r.config r.cleanup r.prefixes false (runStart r t log).session).2 := by
  have hsucceeded : (runCleanup r (runStart r t log)).status.failure = false :=
    (failure_of_call h.succeeded).1
  unfold runCleanup at hsucceeded ⊢
  rw [if_neg (by simp [hreached]),h.uninterrupted] at hsucceeded ⊢
  exact ⟨(failure_of_call hsucceeded).2,rfl⟩

/-- Outside a dry run the content pass has left no transaction open. -/
theorem RootsRun.idle (h : RootsRun fs roots stored existed r t log)
    (hreached : (runStart r t log).status.skip = false) {access : RelativePath → FileAccessStatus}
    (hroot : r.cleanup.root r.prefixes = some access) (hdry : r.config.dryRun = false) :
    (runStart r t log).session.store.autocommit = true := by
  by_contra hopen
  obtain ⟨root,hhead,hopened⟩ := Option.bind_eq_some_iff.mp hroot
  have hbusy := cleanupOpened_busy r.config r.cleanup access
    { session := (runStart r t log).session, status := successStatus } hdry (by simpa using hopen)
  have hfailed := (h.cleanup hreached).1
  unfold dbDeleteMissingMetadata at hfailed
  dsimp only at hfailed
  rw [rootPath_works h.smooth.quiet h.smooth.prefixRead hhead (h.head_ne_nil root hhead),Signal.raised_none h.smooth.quiet,
    show r.prefixes.head?.bind r.cleanup.openRoot = some access from hroot] at hfailed
  simp only [h.compare,h.update,Bool.or_self,Bool.not_true,Bool.false_eq_true,↓reduceIte,ne_eq,
    not_true_eq_false] at hfailed
  have hmerged := failure_of_provide hfailed
  split at hmerged
  · rename_i hviolation
    have hcall := congrArg Return.failure hviolation.2
    rw [(failure_of_call hcall).1] at hbusy
    cases hbusy
  · rw [(failure_of_call hmerged).1] at hbusy
    cases hbusy

theorem RootsRun.remaining (h : RootsRun fs roots stored existed r t log)
    (hreached : (runStart r t log).status.skip = false) {access : RelativePath → FileAccessStatus}
    (hroot : r.cleanup.root r.prefixes = some access) (hdry : r.config.dryRun = false) :
    (cleanupPlan r.config access (r.cleanup.selected (runStart r t log).session.table)).failed = false ∧
      (runCleanup r (runStart r t log)).session.table.rows =
        (runStart r t log).session.table.rows.filter fun e => !droppedPath r.config access e.key := by
  obtain ⟨hok,hsession⟩ := h.cleanup hreached
  obtain ⟨hstatus,-,htable⟩ := dbDeleteMissingMetadata_smooth h.smooth h.compare h.update
    (h.idle hreached hroot) h.head_ne_nil hroot
  have hplan : (cleanupPlan r.config access (r.cleanup.selected (runStart r t log).session.table)).failed = false := by
    by_contra hfailed
    rw [hstatus,if_pos (by simpa using hfailed)] at hok
    cases hok
  refine ⟨hplan,?_⟩
  rw [hsession,htable,hdry,hplan]
  exact eraseRows_dropped hplan

/-- The cleanup respects every root exactly when the first stored one lets it. -/
theorem rootsRespected_iff (h : RootsRun fs roots stored existed r t log) :
    RootsRespected fs roots r t log ↔ CleanupIdle r t log ∨
      ∀ access, r.cleanup.root r.prefixes = some access →
        ∀ e ∈ (runStart r t log).session.table.rows, Named fs roots r.config e.key →
          Retained r.config (access e.key) e.key := by
  by_cases hskip : (runStart r t log).status.skip = true
  · refine iff_of_true ?_ (.inl (.inl hskip))
    intro e he _
    rw [runCleanup,if_pos hskip]
    exact he
  have hreached : (runStart r t log).status.skip = false := by simpa using hskip
  cases hroot : r.cleanup.root r.prefixes with
  | none =>
    refine iff_of_true ?_ (.inr fun access hno => by cases hno)
    intro e he _
    obtain ⟨hok,hsession⟩ := h.cleanup hreached
    cases hhead : r.prefixes.head? with
    | none =>
      have hfailed : (dbDeleteMissingMetadata r.config r.cleanup r.prefixes false
          (runStart r t log).session).2 = (runStart r t log).session := by
        unfold dbDeleteMissingMetadata
        dsimp only
        rw [hhead,Option.any_none,Bool.and_false,Signal.halted_none h.smooth.quiet]
        simp only [Bool.false_or]
        split
        · rfl
        · rfl
      rw [hsession,hfailed]
      exact he
    | some root =>
      have hopen : r.cleanup.openRoot root = none := by
        rw [CleanupScript.root,hhead] at hroot
        exact hroot
      rw [hsession,dbDeleteMissingMetadata_unopened h.smooth h.compare h.update hhead
        (h.head_ne_nil root hhead) hopen]
      exact he
  | some access =>
    by_cases hdry : r.config.dryRun = true
    · refine iff_of_true ?_ (.inl (.inr (.inl hdry)))
      intro e he _
      obtain ⟨-,hsession⟩ := h.cleanup hreached
      obtain ⟨-,-,htable⟩ := dbDeleteMissingMetadata_smooth h.smooth h.compare h.update
        (fun hno => by rw [hdry] at hno; cases hno) h.head_ne_nil hroot
      rw [hsession,htable,hdry]
      exact he
    have hdry : r.config.dryRun = false := by simpa using hdry
    obtain ⟨hplan,hremaining⟩ := h.remaining hreached hroot hdry
    have hkept : ∀ e ∈ (runStart r t log).session.table.rows, Named fs roots r.config e.key →
        (e ∈ (runCleanup r (runStart r t log)).session.table.rows ↔
          Retained r.config (access e.key) e.key) := by
      intro e he hnamed
      obtain ⟨fate,hfate⟩ := rowFate_isSome hplan e (CleanupScript.mem_selected.mpr he)
      rw [hremaining,retained_iff hfate (visible_of_unmatched hnamed.2),List.mem_filter,droppedPath,hfate]
      simp [he]
    constructor
    · intro hrespected
      refine .inr fun access' haccess e he hnamed => ?_
      cases haccess
      exact (hkept e he hnamed).mp (hrespected e he hnamed)
    · rintro (hidle | hretained)
      · rcases hidle with hidle | hidle | hidle
        · exact absurd hidle hskip
        · rw [hdry] at hidle
          cases hidle
        · rw [hroot] at hidle
          cases hidle
      · intro e he hnamed
        exact (hkept e he hnamed).mpr (hretained access rfl e he hnamed)

end Run

/-- Two roots, `/a` without a file and `/b` with the empty file `x`. -/
def twoDirectories : FileSystem where
  openRoot root :=
    if root = [47,97] then some fun _ => .notFound
    else if root = [47,98] then some fun path => if path = [120] then .accessAllowed else .notFound
    else none
  regular root path := root = [47,98] && path = [120]

def twoRoots : RunScript :=
  { RunScript.plain { update := true } [] fun _ => .notFound with
    prefixes := [[47,97],[47,98]]
    pass := { PassScript.plain [] with
      roots := [⟨true,true,[],true⟩,⟨true,true,[.plain (.plain [120] 0 0) (.plain [])],true⟩] }
    cleanup := { CleanupScript.plain fun _ => .notFound with openRoot := twoDirectories.openRoot } }

theorem rootsRun_twoRoots : RootsRun twoDirectories [[47,97],[47,98]] [] true twoRoots UniqueTable.empty [] where
  prefixes := rfl
  roots_ne_nil := by decide
  stored_ne_nil := by decide
  openRoot := rfl
  smooth := ⟨⟨rfl,rfl,rfl,fun _ => rfl,fun _ hno => (by cases hno),fun _ => rfl,rfl,rfl,rfl,rfl,rfl⟩,rfl⟩
  compare := rfl
  update := rfl
  uninterrupted := rfl
  succeeded := by decide +kernel

theorem rootsRespected_twoRoots : RootsRespected twoDirectories [[47,97],[47,98]] twoRoots UniqueTable.empty [] ↔
    CleanupIdle twoRoots UniqueTable.empty [] ∨ ∀ access, twoRoots.cleanup.root twoRoots.prefixes = some access →
      ∀ e ∈ (runStart twoRoots UniqueTable.empty []).session.table.rows,
        Named twoDirectories [[47,97],[47,98]] twoRoots.config e.key →
          Retained twoRoots.config (access e.key) e.key :=
  rootsRespected_iff rootsRun_twoRoots

/-- The first update over both roots adds `x` and deletes it again. -/
theorem row_of_second_root_deleted :
    RootsRun twoDirectories [[47,97],[47,98]] [] true twoRoots UniqueTable.empty [] ∧
    twoDirectories.Readable [47,98] [120] ∧
    (runStart twoRoots UniqueTable.empty []).session.table.rows.map Entry.key = [[120]] ∧
    (runCleanup twoRoots (runStart twoRoots UniqueTable.empty [])).session.table.rows = [] ∧
    ¬ RootsRespected twoDirectories [[47,97],[47,98]] twoRoots UniqueTable.empty [] := by
  have hreadable : twoDirectories.Readable [47,98] [120] := ⟨rfl,_,rfl,rfl⟩
  have hadded : (runStart twoRoots UniqueTable.empty []).session.table.rows.map Entry.key = [[120]] := by
    decide +kernel
  have hdeleted : (runCleanup twoRoots (runStart twoRoots UniqueTable.empty [])).session.table.rows = [] := by
    decide +kernel
  refine ⟨rootsRun_twoRoots,hreadable,hadded,hdeleted,?_⟩
  intro hrespected
  obtain ⟨e,he,hkey⟩ : ∃ e ∈ (runStart twoRoots UniqueTable.empty []).session.table.rows, e.key = [120] :=
    List.mem_map.mp (hadded ▸ List.mem_cons_self)
  have hnamed : Named twoDirectories [[47,97],[47,98]] twoRoots.config e.key := by
    rw [hkey]
    exact ⟨⟨[47,98],by decide,hreadable⟩,by decide⟩
  have hkept := hrespected e he hnamed
  rw [hdeleted] at hkept
  cases hkept

end Precizer.Guarantees
