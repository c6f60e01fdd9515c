import Precizer.Pipeline.TreeRun

/-! # The table and the tree after an update

A row is added for what the walk delivers as a regular file, and removed by an access
check of its path. The two agree on every path but one that still answers the check
without naming a regular file.
-/
namespace Precizer.Guarantees
open General Rational Traversal Database Pipeline

/-- The table has one row for every regular file of the tree and no other row. -/
def Mirrors (tree : Tree) (t : FilesTable) : Prop :=
  t.keys.Nodup ∧ ∀ path, path ∈ t.keys ↔ path ∈ tree.files

/-- An update of the whole tree that is not interrupted and ends without failure or warning. -/
structure MirrorRun (tree : Tree) (stored : List RootPath) (existed : Bool) (r : RunScript) (t : FilesTable)
    (log : List Event) : Prop extends TreeRun tree stored existed r where
  sound : tree.Sound
  stored_ne_nil : ∀ p ∈ stored, p ≠ []
  readable : ∀ e ∈ tree.entries, e.access = .accessAllowed ∧ e.reading.openErrno = none ∧
    ∀ start, e.reading.readErrno start = none
  writes : r.config.dryRun = false
  unignored : r.config.ignorePatterns = []
  unlocked : r.config.lockChecksumPatterns = []
  unlimited : r.config.maxdepth = none
  uninterrupted : (runFrom r t log).interrupted = false
  succeeded : (runFrom r t log).status = successStatus

/-- The access check lets the row of a path go. -/
def Vanished (c : Config) (access : FileAccessStatus) : Prop :=
  access = .notFound ∨ (access ≠ .accessAllowed ∧ c.dbDropInaccessible = true)

section Run

variable {tree : Tree} {stored : List RootPath} {existed : Bool} {r : RunScript} {t : FilesTable} {log : List Event}
  {access : RelativePath → FileAccessStatus}

theorem MirrorRun.before_success (h : MirrorRun tree stored existed r t log) : r.before = successStatus := by
  rcases dbValidatePaths_cases r.config [tree.root] stored with hvalid | hwarned
  · exact h.before.trans hvalid
  · have hbefore : r.before = warningStatus := h.before.trans hwarned
    have hpass : runFileList r (openSession t log) = ⟨warningStatus,openSession t log,r.pass.raisedBefore⟩ := by
      unfold runFileList
      rw [hbefore]
      rfl
    have hcleanup : (runCleanup r (runFileList r (openSession t log))).status = warningStatus := by
      rw [hpass]
      rfl
    have hstatus : call (globalReturnStatus r.closeHalted) warningStatus (leave r.closeHalted r.closedOk) =
        successStatus := by
      rw [← hcleanup]
      exact h.succeeded
    rw [h.closedOk,leave_eq] at hstatus
    cases hhalted : r.closeHalted with
    | false =>
      rw [hhalted] at hstatus
      exact absurd hstatus (by decide)
    | true =>
      rw [hhalted] at hstatus
      exact absurd hstatus (by decide)

theorem MirrorRun.plan_success (h : MirrorRun tree stored existed r t log) :
    planStatus (r.plan t) = successStatus := by
  by_contra hplan
  have hstatus := (h.ends_early h.sound h.before_success h.uninterrupted hplan).1
  rw [h.succeeded] at hstatus
  exact hplan hstatus.symm

theorem MirrorRun.plan_goes (h : MirrorRun tree stored existed r t log) : planFailed (r.plan t) = false := by
  have hplan := h.plan_success
  unfold planStatus at hplan
  cases hfailed : planFailed (r.plan t) with
  | false => rfl
  | true =>
    rw [hfailed] at hplan
    cases hplan

theorem MirrorRun.entry_readable (h : MirrorRun tree stored existed r t log) {v : Visit} (hv : v ∈ r.pass.visits) :
    v.access = .accessAllowed ∧ v.Legible := by
  have hmem : v.found ∈ tree.entries := by
    rw [← h.entries]
    exact List.mem_map_of_mem hv
  obtain ⟨haccess,hopen,hread⟩ := h.readable _ hmem
  exact ⟨haccess,hopen,hread⟩

theorem MirrorRun.plan_complete (h : MirrorRun tree stored existed r t log) :
    r.plan t = r.pass.visits.map fun v => (v,visitOutcome r.config v (contents t v.entry.path)) := by
  have hok := h.plan_goes
  rw [h.plan_eq] at hok ⊢
  refine walkPlan_complete ?_ hok
  intro v hv
  exact visitOutcome_skipBelow h.unlimited h.unignored (h.entry_readable hv).1 _

/-- After the content pass the old rows are still there, with one row for every regular file. -/
theorem MirrorRun.passed_keys (h : MirrorRun tree stored existed r t log) (path : RelativePath) :
    path ∈ (passState r t log).session.table.keys ↔ path ∈ t.keys ∨ path ∈ tree.files := by
  obtain ⟨hfollowed,-,hsession⟩ := h.pass_follows h.sound h.before_success (h.toTreeRun.uninterrupted h.uninterrupted).1
  obtain ⟨start,p,hstart,hwalked,htable⟩ := hfollowed.walked
  have hok := h.plan_goes
  have htable : (passState r t log).session.table = p.session.table := by
    rw [hsession]
    exact htable hok
  have hfirst : start.session.table = t := by
    rw [hstart]
    rfl
  rw [mem_keys_contents,mem_keys_contents,htable,files_found h.entries]
  by_cases hfile : path ∈ filePaths r.pass.visits
  · refine iff_of_true ?_ (.inr hfile)
    obtain ⟨v,hv,hinfo,hpath⟩ := mem_filePaths.mp hfile
    have hmem : (v,visitOutcome r.config v (contents t v.entry.path)) ∈ r.plan t := by
      rw [h.plan_complete]
      exact List.mem_map_of_mem hv
    obtain ⟨haccess,hlegible⟩ := h.entry_readable hv
    subst hpath
    cases hcolumns : (visitOutcome r.config v (contents t v.entry.path)).columns with
    | some columns =>
      rw [hwalked.written h.writes hok _ hmem columns hcolumns]
      rfl
    | none =>
      rw [hwalked.unwritten hok _ hmem hinfo (hlegible.uncut _ _) hcolumns,hfirst]
      cases hold : contents t v.entry.path with
      | some columns => rfl
      | none =>
        have houtcome : visitOutcome r.config v (contents t v.entry.path) = fileOutcome r.config v none := by
          unfold visitOutcome entryOutcome
          rw [beyondMaxdepth,h.unlimited,hinfo,hold]
          rfl
        have hgoes : (fileOutcome r.config v none).failed = false := by
          rw [← houtcome]
          by_contra hfailed
          have hany : planFailed (r.plan t) = true :=
            List.any_eq_true.mpr ⟨_,hmem,by simpa using hfailed⟩
          rw [hok] at hany
          cases hany
        have hvisible : (loadedFile r.config DBrow.zero v.entry.path).ignore = false := by
          change ((matchIncludeIgnore r.config false v.entry.path).ignored && _) = false
          rw [matchIncludeIgnore_unignored h.unignored]
          rfl
        obtain ⟨columns,hsome⟩ := fileOutcome_new hlegible haccess hvisible hgoes
        rw [houtcome,hsome] at hcolumns
        cases hcolumns
  · have hunvisited : ¬ Visits (r.plan t) path := fun hvisits => hfile (visits_rootsPlan hvisits)
    rw [hwalked.others hok path hunvisited,hfirst]
    simp [hfile]

theorem droppedPath_plain {c : Config} (hignore : c.ignorePatterns = []) (hlock : c.lockChecksumPatterns = [])
    (path : RelativePath) : droppedPath c access path = true ↔ Vanished c (access path) := by
  have hscope : rowScope c path = ⟨true,false,false⟩ := by
    rw [rowScope,hignore]
    rfl
  have hunmatched : matchChecksumLockPattern c false path = .notMatch := by
    rw [matchChecksumLockPattern,hlock]
    rfl
  have hfate : rowFate c (access path) path = some (visibleFate c (access path) path) := by
    unfold rowFate
    rw [hscope,hunmatched]
    simp only [Bool.not_true,Bool.false_eq_true,↓reduceIte,and_true]
    split
    · rename_i hallowed
      rw [visibleFate,if_pos hallowed]
    · rfl
  rw [droppedPath,hfate,Option.any_some]
  unfold visibleFate Vanished
  by_cases hallowed : access path = .accessAllowed
  · rw [if_pos hallowed]
    simp [hallowed,RowFate.drops]
  · rw [if_neg hallowed]
    by_cases hmissing : access path = .notFound
    · rw [if_pos hmissing]
      simp [hmissing,RowFate.drops]
    · rw [if_neg hmissing]
      cases c.dbDropInaccessible with
      | true => simp [hallowed,RowFate.drops]
      | false => simp [hmissing,RowFate.drops]

/-- What the update leaves of the rows. -/
theorem MirrorRun.final_keys (h : MirrorRun tree stored existed r t log) (hopen : tree.openRoot tree.root = some access)
    (path : RelativePath) : path ∈ (runFrom r t log).session.table.keys ↔
      (path ∈ t.keys ∨ path ∈ tree.files) ∧ ¬ Vanished r.config (access path) := by
  have hok : (runFrom r t log).status.failure = false := by
    rw [h.succeeded]
    rfl
  rw [← h.passed_keys path,UniqueTable.keys,
    h.toTreeRun.cleaned_rows h.sound h.writes h.before_success h.uninterrupted h.plan_success hok hopen]
  constructor
  · intro hmem
    obtain ⟨e,he,hkey⟩ := List.mem_map.mp hmem
    obtain ⟨hrow,hkept⟩ := List.mem_filter.mp he
    subst hkey
    refine ⟨List.mem_map_of_mem hrow,?_⟩
    intro hvanished
    rw [(droppedPath_plain h.unignored h.unlocked e.key).mpr hvanished] at hkept
    cases hkept
  · rintro ⟨hmem,hkept⟩
    obtain ⟨e,he,hkey⟩ := List.mem_map.mp hmem
    subst hkey
    refine List.mem_map_of_mem (List.mem_filter.mpr ⟨he,?_⟩)
    rw [Bool.not_eq_true']
    by_contra hdropped
    exact hkept ((droppedPath_plain h.unignored h.unlocked e.key).mp (by simpa using hdropped))

/-- An update mirrors the tree exactly when the access check lets every old row go whose
path names no regular file any more. -/
theorem mirrors_iff (h : MirrorRun tree stored existed r t log) (hopen : tree.openRoot tree.root = some access) :
    Mirrors tree (runFrom r t log).session.table ↔
      ∀ path ∈ t.keys, path ∉ tree.files → Vanished r.config (access path) := by
  have hpresent : ∀ path ∈ tree.files, ¬ Vanished r.config (access path) := by
    intro path hpath
    obtain ⟨e,he,hkey⟩ := List.mem_map.mp hpath
    obtain ⟨hmem,hinfo⟩ := List.mem_filter.mp he
    obtain ⟨access',hopen',hagrees⟩ := h.sound.access
    rw [hopen] at hopen'
    cases hopen'
    subst hkey
    rw [hagrees e hmem (by simpa using hinfo),(h.readable e hmem).1]
    simp [Vanished]
  constructor
  · rintro ⟨-,hmirrors⟩ path hold hgone
    by_contra hkept
    exact hgone ((hmirrors path).mp ((h.final_keys hopen path).mpr ⟨.inl hold,hkept⟩))
  · intro hvanished
    refine ⟨(runFrom r t log).session.table.keysNodup,?_⟩
    intro path
    rw [h.final_keys hopen path]
    constructor
    · rintro ⟨hold | hfile,hkept⟩
      · by_contra hgone
        exact hkept (hvanished path hold hgone)
      · exact hfile
    · exact fun hfile => ⟨.inr hfile,hpresent path hfile⟩

end Run

/-- The directory `x`. -/
def directoryVisit : Visit := .plain { FtsEntry.plain [120] 0 0 with info := .directory } (.plain [])

/-- An update of a tree whose only entry is the directory `x`. -/
def directoryRun : RunScript := .plain { update := true } [directoryVisit] fun _ => .accessAllowed

/-- The row of an empty file `x`. -/
def formerFile : FilesTable :=
  .singleton 1 [120] ⟨none,none,some (statCopy (FtsEntry.plain [120] 0 0).statp).toBytes,none⟩

theorem mirrorRun_directory : MirrorRun (.plain [directoryVisit] fun _ => .accessAllowed) [[47]] true directoryRun
    formerFile [] where
  toTreeRun := TreeRun.plain _ rfl rfl fun v hv => by
    rw [List.mem_singleton.mp hv]
    exact Visit.plain_works _ _
  sound := ⟨by decide,by decide,_,rfl,fun e he hinfo => by
    rw [List.mem_singleton.mp he] at hinfo
    cases hinfo⟩
  stored_ne_nil := by decide
  readable := fun e he => by
    rw [List.mem_singleton.mp he]
    exact ⟨rfl,rfl,fun _ => rfl⟩
  writes := rfl
  unignored := rfl
  unlocked := rfl
  unlimited := rfl
  uninterrupted := by decide +kernel
  succeeded := by decide +kernel

theorem mirrors_directory : Mirrors (.plain [directoryVisit] fun _ => .accessAllowed)
      (runFrom directoryRun formerFile []).session.table ↔
    ∀ path ∈ formerFile.keys, path ∉ (Tree.plain [directoryVisit] fun _ => .accessAllowed).files →
      Vanished directoryRun.config .accessAllowed :=
  mirrors_iff mirrorRun_directory rfl

/-- A directory in the place of a file keeps the row of the file. -/
theorem former_file_kept : MirrorRun (.plain [directoryVisit] fun _ => .accessAllowed) [[47]] true directoryRun
      formerFile [] ∧
    (Tree.plain [directoryVisit] fun _ => .accessAllowed).files = [] ∧
    (runFrom directoryRun formerFile []).session.table.keys = [[120]] ∧
    ¬ Mirrors (.plain [directoryVisit] fun _ => .accessAllowed) (runFrom directoryRun formerFile []).session.table := by
  have hnone : (Tree.plain [directoryVisit] fun _ => .accessAllowed).files = [] := rfl
  have hkept : (runFrom directoryRun formerFile []).session.table.keys = [[120]] := by decide +kernel
  refine ⟨mirrorRun_directory,hnone,hkept,?_⟩
  rintro ⟨-,hmirrors⟩
  have hfile := (hmirrors [120]).mp (hkept ▸ List.mem_cons_self)
  rw [hnone] at hfile
  cases hfile

end Precizer.Guarantees
