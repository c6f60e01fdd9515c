import Precizer.Pipeline.RepeatedRun
import Precizer.Guarantees.ReplacedPrefixes

/-! # A second update is a no-op

Repeating an update of a constant tree issues no statement that writes a row. The clock
decides about one thing only: whether a reading that breaks off with an error has come to a
checkpoint before.
-/
namespace Precizer.Guarantees
open General Rational Digest Traversal Database Prefixes Pipeline

/-- A statement on the files table that may come with any update: none that writes a row, but
for the save of a file of the tree whose reading breaks off. -/
def Excused (tree : Tree) (e : Event) : Prop :=
  e.Harmless ∨ ∃ x ∈ tree.entries, x.entry.info = .file ∧ x.BreaksOff ∧
    ∃ autocommit, e = .statement (.save x.entry.path) autocommit

theorem excused_of_bookkeeping {tree : Tree} (e : Event) (h : e.bookkeeping = true) : Excused tree e :=
  .inl (harmless_of_bookkeeping h)

/-- The paths table as the pipeline leaves it: a warning of the validation skips the save. -/
def PrefixRun.ended (x : PrefixRun) : PathsState :=
  if x.validated.1.skip then x.validated.2 else x.saved.2

/-- The second run works on the paths table of the database that the first one has left. -/
structure PrefixesAgain (x : PrefixRun) (c : Config) (root : RootPath) (stored : List RootPath) : Prop where
  config : x.c = c
  existed : x.primaryFileExists = true
  roots : x.roots = [root]
  validation : x.validation.Works
  idle : x.start.store.autocommit = true
  fresh : x.start.pathIdDoesNotExist = []
  identified : Identified x.start.table [root]
  prefixes : x.start.table.prefixes = stored

section Again

variable {tree : Tree} {stored : List RootPath} {existed : Bool} {r r' : RunScript} {t : FilesTable} {log : List Event}

theorem excused_file (h : RepeatedUpdate tree stored existed r r' t log) (hbefore : r'.before = successStatus)
    {m : Visit × Pass} (hmet : m ∈ passMet r'.config r'.pass (openSession (runFrom r t log).session.store.committed
      (runFrom r t log).session.store.stamp)) :
    Adds (Excused tree) m.2.session (processFile r'.config m.1 m.2).session := by
  have hfirst := h.before_first hbefore
  have hsynced := synced_open (runFrom r t log).session.store.committed (runFrom r t log).session.store.stamp
  obtain ⟨-,hok⟩ := h.plan_goes hfirst
  rw [h.options] at hmet ⊢
  obtain ⟨hmem,hprocessed⟩ := passMet_processed (contents t) h.second.pass h.second.root (h.options ▸ h.second.compare)
    hsynced hok m hmet
  have hpermits (hsave : r.config.dryRun = false → ∀ autocommit,
      Excused tree (.statement (.save m.1.entry.path) autocommit)) : Permits (Excused tree) r.config m.1 (m.2.row m.1) :=
    ⟨excused_of_bookkeeping,fun _ _ => ⟨fun _ _ => .inl trivial,fun _ _ _ _ => .inl trivial⟩,
      fun _ _ _ _ _ => hsave⟩
  cases hdry : r.config.dryRun with
  | true =>
    have hsave : r.config.dryRun = false → ∀ autocommit,
        Excused tree (.statement (.save m.1.entry.path) autocommit) := by
      intro hno
      rw [hdry] at hno
      cases hno
    exact adds_processFile (hpermits hsave) hsave
  | false =>
    by_cases hbreaks : m.1.found.BreaksOff
    · have hsave : ∀ autocommit, Excused tree (.statement (.save m.1.entry.path) autocommit) := fun autocommit =>
        .inr ⟨m.1.found,h.second.entries ▸ List.mem_map_of_mem hmem,hprocessed.2.1,hbreaks,autocommit,rfl⟩
      exact adds_processFile (hpermits fun _ => hsave) fun _ => hsave
    · have hpass : (fileList r.config r'.pass (openSession (runFrom r t log).session.store.committed
          (runFrom r t log).session.store.stamp)).interrupted = false := by
        have hquiet := (h.second.uninterrupted h.undisturbed).1
        rw [passState_run hbefore,h.options] at hquiet
        exact hquiet
      have hcompare : r.config.compare = false := h.first.compare
      have hnodup : (filePaths r'.pass.visits).Nodup := by
        rw [← files_found h.second.entries]
        exact h.sound.nodup
      have hquiet := passMet_quiet h.second.pass h.second.root hcompare hpass m hmet
      have hsmooth := passMet_smooth h.second.pass hsynced m hmet hquiet
      have hrow := passMet_stored h.second.pass h.second.root hnodup hsynced m hmet hquiet
      have hidle := h.idle hfirst hdry hmem hprocessed hbreaks
      refine (adds_processFile_idle hsmooth ?_).mono fun e he => .inl he
      rw [hrow]
      exact hidle

theorem excused_run (h : RepeatedUpdate tree stored existed r r' t log) :
    Adds (Excused tree) (openSession (runFrom r t log).session.store.committed (runFrom r t log).session.store.stamp)
      (runAgain r r' t log).session := by
  by_cases hbefore : r'.before = successStatus
  · obtain ⟨hquiet,-,-⟩ := h.second.uninterrupted h.undisturbed
    obtain ⟨hfollowed,hstatus,hsession⟩ := h.second.pass_follows h.sound hbefore hquiet
    have hpass : Adds (Excused tree)
        (openSession (runFrom r t log).session.store.committed (runFrom r t log).session.store.stamp)
        (passState r' (runFrom r t log).session.store.committed (runFrom r t log).session.store.stamp).session := by
      rw [hsession]
      exact adds_fileList excused_of_bookkeeping fun m hm => excused_file h hbefore hm
    rcases h.second.cleanup_session h.undisturbed with ⟨-,hfinal⟩ | ⟨hgoes,hsmooth,hfinal⟩
    · rw [runAgain,hfinal]
      exact hpass
    · rw [runAgain,hfinal]
      refine hpass.trans (adds_cleanup excused_of_bookkeeping hsmooth _ ?_)
      rw [h.options]
      cases hdry : r.config.dryRun with
      | true => exact .inl rfl
      | false =>
        right
        have hclean : planStatus (r'.plan (runFrom r t log).session.store.committed) = successStatus := by
          rw [hstatus] at hgoes
          unfold planStatus at hgoes ⊢
          split
          · rename_i hfailed
            rw [if_pos hfailed] at hgoes
            cases hgoes
          · rename_i hfine
            rw [if_neg hfine] at hgoes
            split
            · rename_i hviolated
              rw [if_pos hviolated] at hgoes
              cases hgoes
            · rfl
        intro access hroot
        have hhead := h.second.head (h.options ▸ hdry) hbefore
        rw [CleanupScript.root,hhead,h.second.openRoot] at hroot
        exact h.kept hbefore hdry hclean hquiet hroot
  · rw [runAgain,h.second.stopped hbefore]
    exact .refl _

theorem prefixes_again (h : RepeatedUpdate tree stored existed r r' t log) {x : PrefixRun}
    (hx : PrefixesAgain x r'.config tree.root (r.storedAfter stored)) :
    x.ended.table = x.start.table ∧ x.ended.totalChanges = x.start.totalChanges := by
  obtain ⟨hstore,hchanges⟩ : x.validated.2.store = x.start.store ∧ x.validated.2.totalChanges = x.start.totalChanges :=
    dbValidatePaths_store
  have hcompare : x.c.compare = false := by
    rw [hx.config]
    exact h.second.compare
  obtain ⟨hstatus,hhelper⟩ : x.validated.1 = Database.dbValidatePaths x.c x.roots x.start.table.prefixes ∧
      x.validated.2.pathIdDoesNotExist = x.start.table.mismatched x.roots := by
    refine dbValidatePaths_works hx.validation hcompare ?_ ?_ hx.fresh fun hno => ?_
    · rw [hx.roots]
      exact List.cons_ne_nil _ _
    · rw [hx.roots]
      exact hx.identified
    · rw [hx.existed] at hno
      cases hno
  unfold PrefixRun.ended
  split
  · exact ⟨congrArg Store.working hstore,hchanges⟩
  · rename_i hgoes
    rw [hx.config,hx.roots,hx.prefixes,← h.second.before] at hstatus
    have hbefore : r'.before = successStatus := h.second.before_success (hstatus ▸ hgoes)
    have hfirst := h.before_first hbefore
    have hstored : r.storedAfter stored = dbSavePrefixes r.config existed [tree.root] stored := by
      rw [RunScript.storedAfter,hfirst,h.first.prefixes]
      rfl
    cases hdry : r.config.dryRun with
    | true =>
      have hleft : x.saved.2 = x.validated.2 := by
        unfold PrefixRun.saved Prefixes.dbSavePrefixes
        rw [if_pos]
        rw [hx.config,h.options,hdry,hx.existed]
        simp
      rw [hleft]
      exact ⟨congrArg Store.working hstore,hchanges⟩
    | false =>
      have hvalid := dbValidatePaths_saved existed h.first.compare hdry (h.first.before.symm.trans hfirst)
      obtain ⟨kept,hkept,hsaved⟩ := dbSavePrefixes_roots existed h.first.compare hdry (h.first.before.symm.trans hfirst)
      have htable : x.validated.2.table = x.start.table := congrArg Store.working hstore
      have hroots : ∀ p ∈ x.start.table.prefixes, p ∈ [tree.root] := by
        rw [hx.prefixes,hstored,hsaved]
        exact foldl_insertPrefix_subset (fun p hp => hp) hkept
      have hfresh : x.validated.2.pathIdDoesNotExist = [] := by
        rw [hhelper,hx.roots,mismatched_eq_nil]
        simpa using hroots
      have hpresent : ∀ root ∈ x.roots, root ∈ x.validated.2.table.prefixes := by
        rw [hx.roots,htable,hx.prefixes,hstored,hsaved]
        exact fun root hroot => mem_foldl_insertPrefix.mpr (.inr hroot)
      have hsame : Same x.validated.2 x.saved.2 :=
        dbSavePrefixes_same (by rw [hstore]; exact hx.idle) hfresh hpresent
      exact ⟨hsame.table.trans htable,hsame.totalChanges.trans hchanges⟩

/-- Repeating an update of a constant tree writes nothing, but for checkpoints of files whose
reading breaks off. -/
theorem second_update_idle (h : RepeatedUpdate tree stored existed r r' t log) :
    (∀ e ∈ (openSession (runFrom r t log).session.store.committed (runFrom r t log).session.store.stamp).since
      (runAgain r r' t log).session, Excused tree e) ∧
    ∀ x : PrefixRun, PrefixesAgain x r'.config tree.root (r.storedAfter stored) →
      x.ended.table = x.start.table ∧ x.ended.totalChanges = x.start.totalChanges :=
  ⟨(excused_run h).since,fun _ hx => prefixes_again h hx⟩

end Again

theorem repeatedUpdate_plain {v w : Visit} (hv : v.Works) (hw : w.Works) (hfound : w.found = v.found)
    (haccess : v.access = .accessAllowed)
    (hfirst : (runFrom (.plain { update := true } [v] fun _ => .accessAllowed) .empty []).interrupted = false)
    (hok : (runFrom (.plain { update := true } [v] fun _ => .accessAllowed) .empty []).status.failure = false)
    (hagain : (runAgain (.plain { update := true } [v] fun _ => .accessAllowed)
      (.plain { update := true } [w] fun _ => .accessAllowed) .empty []).interrupted = false) :
    RepeatedUpdate (.plain [v] fun _ => .accessAllowed) [[47]] true
      (.plain { update := true } [v] fun _ => .accessAllowed) (.plain { update := true } [w] fun _ => .accessAllowed)
      .empty [] where
  sound := {
    root_ne_nil := List.cons_ne_nil _ _
    nodup := by
      rw [@files_found _ [v] rfl,filePaths]
      exact (List.filter_sublist.map _).nodup (List.nodup_singleton _)
    access := ⟨_,rfl,fun e he _ => by
      rw [List.mem_singleton.mp he]
      exact haccess.symm⟩ }
  first := TreeRun.plain _ rfl rfl fun u hu => by
    rw [List.mem_singleton.mp hu]
    exact hv
  second := by
    have htree : Tree.plain [v] (fun _ => .accessAllowed) = .plain [w] fun _ => .accessAllowed := by
      unfold Tree.plain
      rw [List.map_singleton,List.map_singleton,hfound]
    rw [htree]
    exact TreeRun.plain _ rfl rfl fun u hu => by
      rw [List.mem_singleton.mp hu]
      exact hw
  options := rfl
  database := fun _ => rfl
  uninterrupted := hfirst
  unfailed := hok
  undisturbed := hagain

/-- The file `a` with one byte. -/
def smallFile : Visit := .plain (.plain [97] 1 1) (.plain [7])

theorem second_update_idle_small :
    let r : RunScript := .plain { update := true } [smallFile] fun _ => .accessAllowed
    ∀ e ∈ (openSession (runFrom r .empty []).session.store.committed (runFrom r .empty []).session.store.stamp).since
      (runAgain r r .empty []).session, Excused (.plain [smallFile] fun _ => .accessAllowed) e :=
  (second_update_idle (repeatedUpdate_plain (Visit.plain_works _ _) (Visit.plain_works _ _) rfl rfl
    (by decide +kernel) (by decide +kernel) (by decide +kernel))).1

/-- A file of two bytes whose second one cannot be read, with the clock after the first. -/
def brokenDisk (nowNs : ℤ) : DiskFile where
  content := [7,7]
  openErrno := none
  seekable := fun _ => true
  turns := fun start => if start = 0 then [⟨[7],by decide,nowNs,{},.done⟩] else []
  readErrno := fun _ => some 5

theorem brokenDisk_constant (nowNs : ℤ) : (brokenDisk nowNs).Constant where
  delivered_prefix := by
    intro start _
    unfold DiskFile.delivered brokenDisk
    dsimp only
    split
    · rename_i hzero
      rw [hzero]
      exact ⟨[7],rfl⟩
    · exact List.nil_prefix
  delivered_all := fun _ _ hno => by cases hno

theorem brokenDisk_reading (nowNs nowNs' : ℤ) : (brokenDisk nowNs).reading = (brokenDisk nowNs').reading := by
  have hdelivered : (brokenDisk nowNs).delivered = (brokenDisk nowNs').delivered := by
    funext start
    unfold DiskFile.delivered brokenDisk
    dsimp only
    split <;> rfl
  unfold DiskFile.reading
  rw [hdelivered]
  rfl

theorem brokenVisit_works (nowNs : ℤ) : (Visit.plain (.plain [97] 2 1) (brokenDisk nowNs)).Works where
  pathBuilt := rfl
  lookup := rfl
  batchCommit := rfl
  save := ⟨rfl,rfl⟩
  remember := show SqlOutcome.done ≠ .rolledBack by decide
  turns := by
    intro start t ht
    change t ∈ (if start = 0 then [⟨[7],by decide,nowNs,{},.done⟩] else []) at ht
    split at ht
    · rw [List.mem_singleton.mp ht]
      exact ⟨⟨rfl,rfl⟩,rfl⟩
    · cases ht

def brokenRun (nowNs : ℤ) : RunScript :=
  .plain { update := true } [.plain (.plain [97] 2 1) (brokenDisk nowNs)] fun _ => .accessAllowed

/-- The second run reads slowly enough to save a checkpoint, which inserts a row. -/
theorem second_update_writes :
    RepeatedUpdate (.plain [.plain (.plain [97] 2 1) (brokenDisk 0)] fun _ => .accessAllowed) [[47]] true (brokenRun 0)
      (brokenRun dbCheckpointIntervalNs) .empty [] ∧
    (brokenDisk 0).Constant ∧ (brokenDisk dbCheckpointIntervalNs).Constant ∧
    (runFrom (brokenRun 0) .empty []).session.store.committed.keys = [] ∧
    (runAgain (brokenRun 0) (brokenRun dbCheckpointIntervalNs) .empty []).session.store.committed.keys = [[97]] :=
  ⟨repeatedUpdate_plain (brokenVisit_works _) (brokenVisit_works _)
    (congrArg (fun reading => (⟨.plain [97] 2 1,.accessAllowed,reading⟩ : TreeEntry)) (brokenDisk_reading _ _)) rfl
    (by decide +kernel) (by decide +kernel) (by decide +kernel),brokenDisk_constant _,brokenDisk_constant _,
    by decide +kernel,by decide +kernel⟩

end Precizer.Guarantees
