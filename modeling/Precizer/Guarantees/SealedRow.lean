import Precizer.Pipeline.RunRules

/-! # Sealed rows of locked files

A row without an offset and with a digest is sealed. What a run can do to the sealed row
of a locked path is decided by three kinds of visits: an empty file whose timestamps or
blocks changed, a file that cannot be positioned, and a hash pass that is interrupted
after its first chunk.
-/
namespace Precizer.Guarantees
open General Rational Digest Database Traversal Pipeline

def Sealed (path : RelativePath) (digest : Sha512Digest) (t : FilesTable) : Prop :=
  ∃ e, t.find path = some e ∧ e.value.offset = none ∧ e.value.sha512 = some digest

/-- The interrupt arrives after the first chunk was asked for and before the pass ends. -/
def interruptsHashing (v : Visit) : Bool :=
  !v.signal.raised (.turn 0) && v.signal.raised (.turn (v.disk.turns 0).length)

/-- The metadata differs although the size does not. -/
def touched (v : Visit) (row : DBrow) : Bool :=
  fileCompareMetadataEquivalence row.savedStat (statCopy v.entry.statp) ≠ Changed.identical

/-- A rehash of the sealed row by a saved visit that replaces its digest by nothing. -/
def losesDigest (c : Config) (v : Visit) (row : DBrow) : Bool :=
  !c.dryRun && c.rehashLocked && v.access = .accessAllowed && v.save.statement = .done &&
    row.savedStat.stSize = v.entry.statp.stSize &&
    if v.entry.statp.stSize = 0 then touched v row
    else v.disk.openErrno = none && if v.disk.seekable 0 then interruptsHashing v
      else touched v row && !v.signal.raised .checked

theorem sealed_readRow {path : RelativePath} {digest : Sha512Digest} {t : FilesTable}
    (h : Sealed path digest t) : (readRow t path).relativePathWasInDbBeforeProcessing = true ∧
      (readRow t path).savedOffset = 0 ∧ (readRow t path).sha512 = digest := by
  obtain ⟨e,hfind,hoffset,hsha⟩ := h
  rw [readRow_some hfind]
  exact ⟨rfl,by simp [DBrow.ofEntry,hoffset],by simp [DBrow.ofEntry,hsha]⟩

section Visit

variable {c : Config} {v : Visit} {row : DBrow}

theorem identical_iff (hknown : row.relativePathWasInDbBeforeProcessing = true) :
    fileMetadataIdentical (decidedFile c v row) = !touched v row := by
  simp [fileMetadataIdentical,touched,decidedFile_changes c v row hknown]

theorem sizeChanged_eq (hknown : row.relativePathWasInDbBeforeProcessing = true) :
    sizeChanged (decidedFile c v row) = decide (row.savedStat.stSize ≠ v.entry.statp.stSize) := by
  rw [sizeChanged,decidedFile_changes c v row hknown]
  rfl

theorem ready_size (h : Ready c v row) (hready : lockChecksumReady (decidedFile c v row) = true)
    (hknown : row.relativePathWasInDbBeforeProcessing = true) :
    row.savedStat.stSize = v.entry.statp.stSize := by
  have hprocess := h.process
  have hviolation : (decidedFile c v row).lockChecksumViolation = lockViolation c (decidedFile c v row) := rfl
  simp only [shouldProcess,Bool.and_eq_true,Bool.not_eq_true'] at hprocess
  rw [hviolation,lockViolation,hready,sizeChanged_eq hknown] at hprocess
  simp only [Bool.true_and,Bool.or_eq_false_iff] at hprocess
  simpa using hprocess.2.1

end Visit

/-- A save point on the sealed row of a locked path keeps the digest, unless the visit is
one of those that lose it. -/
theorem sealed_keeps {c : Config} {path : RelativePath} {digest : Sha512Digest} (hlocked : c.locked path = true)
    {v : Visit} {p : Pass} (hsafe : v.entry.path = path → losesDigest c v (p.row v) = false)
    (h : p.session.Always fun _ t => Sealed path digest t) :
    SavesKeep (fun _ t => Sealed path digest t) c v p := by
  intro log columns t t' hdry _ hpoint hreplaces hsealed
  obtain ⟨⟨id,hrow⟩,hother⟩ := hreplaces
  by_cases hpath : v.entry.path = path
  · have hsafe := hsafe hpath
    obtain ⟨hknown,hsaved,hsha⟩ := sealed_readRow h.working
    change (readRow p.session.table path).relativePathWasInDbBeforeProcessing = true at hknown
    rw [← hpath] at hknown hsaved hsha
    change (p.row v).relativePathWasInDbBeforeProcessing = true at hknown
    change (p.row v).savedOffset = 0 at hsaved
    change (p.row v).sha512 = digest at hsha
    have hready : lockChecksumReady (decidedFile c v (p.row v)) = true := by
      simp [lockChecksumReady,hasSavedOffset,hknown,hsaved,hpath,hlocked]
    have haccess := hpoint.ready.readable
    have hsize := ready_size hpoint.ready hready hknown
    have hstart : (decidedFile c v (p.row v)).checksumOffset = 0 := by
      rcases decidedFile_start c v (p.row v) with ⟨-,hstart,-⟩ | ⟨-,hstart⟩
      · rw [hstart,hsaved]
      · exact hstart
    have hzero : emptyFile (decidedFile c v (p.row v)) = decide (v.entry.statp.stSize = 0) := rfl
    rw [← hpath]
    cases hpoint.columns with
    | empty hempty hchanged hallowed hdone =>
      have hrehash := rehashLocked_of_allowed hallowed hready
      have htouched := hchanged hknown
      rw [identical_iff hknown] at htouched
      simp only [hzero,decide_eq_true_eq,BitVec.ofNat_eq_ofNat] at hempty
      have hlose : losesDigest c v (p.row v) = true := by
        rw [Bool.not_eq_false'] at htouched
        simp [losesDigest,hdry,hrehash,haccess,hdone,hsize,hempty,htouched]
      rw [hlose] at hsafe
      cases hsafe
    | reused _ _ hunlocked _ =>
      rw [hpath,hlocked] at hunlocked
      cases hunlocked
    | wrongType hrehash hoffset hopen hseek hquiet hchanged hallowed hdone =>
      have hrehash' := rehashLocked_of_allowed hallowed hready
      have htouched := hchanged hknown
      have hempty := not_empty_of_rehash hrehash
      rw [identical_iff hknown,Bool.not_eq_false'] at htouched
      simp only [hzero,decide_eq_false_iff_not,BitVec.ofNat_eq_ofNat] at hempty
      have hlose : losesDigest c v (p.row v) = true := by
        simp [losesDigest,hdry,hrehash',haccess,hdone,hsize,hempty,hopen,hseek,htouched,hquiet]
      rw [hlose] at hsafe
      cases hsafe
    | partway k context hrehash hruns habsorbs hreads hoffset hwhy =>
      rcases hwhy with hunready | ⟨hrehash',hdone,hk,hraised,hbefore⟩
      · rw [hready] at hunready
        cases hunready
      · have hempty := not_empty_of_rehash hrehash
        simp only [hzero,decide_eq_false_iff_not,BitVec.ofNat_eq_ofNat] at hempty
        have hseek := hruns.seekable
        rw [hstart] at hseek hk
        have hpositive : 0 < k := by
          rcases Nat.eq_zero_or_pos k with rfl | hpositive
          · simp [readBytes,hstart] at hoffset
          · exact hpositive
        have hfirst := hbefore 0 hpositive
        have hlast : v.signal.raised (.turn (v.disk.turns 0).length) = true :=
          Signal.raised_mono hraised (by simp [notAfter,Timeline.key,hk])
        have hlose : losesDigest c v (p.row v) = true := by
          simp [losesDigest,interruptsHashing,hdry,hrehash',haccess,hdone,hsize,hempty,hruns.openable,hseek,
            hfirst,hlast]
        rw [hlose] at hsafe
        cases hsafe
    | complete context digest' hrehash hruns herrno habsorbs hfinal hreads hlog hsame =>
      exact ⟨_,hrow,rfl,by rw [hsame hready,hsha]⟩
  · obtain ⟨e,hfind,hcolumns⟩ := hsealed
    exact ⟨e,by rw [hother path (fun heq => hpath heq.symm)]; exact hfind,hcolumns⟩

theorem sealed_stable (path : RelativePath) (digest : Sha512Digest) :
    Store.Stable fun (_ : List Event) t => Sealed path digest t := fun _ _ _ h => h

theorem sealed_deletions {c : Config} {path : RelativePath} (digest : Sha512Digest)
    (hlocked : c.locked path = true) : DeletionsKeep (fun _ t => Sealed path digest t) c := by
  intro access e start t log hdeletable he hsub hsealed
  obtain ⟨e',hfind,hcolumns⟩ := hsealed
  refine ⟨e',find_erase_part hsub he ?_ hfind,hcolumns⟩
  rintro rfl
  have hunlocked := hdeletable.unlocked
  rw [hlocked] at hunlocked
  cases hunlocked

/-- Runs that lock the path and never meet its file in a visit that loses the digest. -/
def KeepsSeal (path : RelativePath) (r : RunScript) (t : FilesTable) (log : List Event) : Prop :=
  r.config.locked path = true ∧
    ∀ m ∈ runMet r (openSession t log), m.1.entry.path = path → losesDigest r.config m.1 (m.2.row m.1) = false

/-- Every table of a history of such runs, and every table one more of them uses, has the
sealed row with its digest. -/
theorem sealed_of_history {path : RelativePath} {digest : Sha512Digest} {start t : FilesTable}
    {log : List Event} (hstart : Sealed path digest start) (h : History (KeepsSeal path) start t log) :
    Sealed path digest t ∧ ∀ r, KeepsSeal path r t log →
      (runFrom r t log).session.Always fun _ t => Sealed path digest t := by
  have hrun : ∀ r t log, KeepsSeal path r t log → Sealed path digest t →
      (runFrom r t log).session.Always fun _ t => Sealed path digest t := by
    intro r t log hkeeps hsealed
    refine runProgram_always (sealed_stable path digest) ?_ (sealed_deletions digest hkeeps.1)
      (openSession_always hsealed)
    intro m hm hp
    exact sealed_keeps hkeeps.1 (hkeeps.2 m hm) hp
  have hsealed : Sealed path digest t :=
    History.always (P := fun _ t => Sealed path digest t) hstart hrun h
  exact ⟨hsealed,fun r hkeeps => hrun r t log hkeeps hsealed⟩

/-- One file of one byte, unchanged since it was sealed. -/
def sealedTable : FilesTable :=
  .singleton 1 [97] ⟨none,some (.replicate 64 1),some (statCopy (FtsEntry.plain [97] 1 1).statp).toBytes,none⟩

/-- An update without a deep audit. -/
def plainUpdate : RunScript :=
  .plain { update := true, lockChecksumPatterns := [fun _ => .regexpMatch] }
    [.plain (.plain [97] 1 1) (.plain [7])] fun _ => .accessAllowed

theorem sealed_after_plainUpdate :
    Sealed [97] (.replicate 64 1) (runFrom plainUpdate sealedTable []).session.store.committed := by
  have hstart : Sealed [97] (.replicate 64 1) sealedTable := ⟨_,rfl,rfl,rfl⟩
  have hkeeps : KeepsSeal [97] plainUpdate sealedTable [] := by
    refine ⟨rfl,?_⟩
    intro m _ _
    simp [losesDigest,plainUpdate,RunScript.plain]
  have hrun : History (KeepsSeal [97]) sealedTable (runFrom plainUpdate sealedTable []).session.store.committed
      (runFrom plainUpdate sealedTable []).session.store.stamp :=
    .run .start plainUpdate hkeeps (List.mem_cons_self ..)
  exact (sealed_of_history hstart hrun).1

/-- A deep audit of the file that is interrupted after its only chunk. -/
def interruptedAudit : RunScript :=
  .plain { update := true, rehashLocked := true, lockChecksumPatterns := [fun _ => .regexpMatch] }
    [{ Visit.plain (.plain [97] 1 1) (.plain [7]) with signal := { arrival := some (.saved 0) } }]
    fun _ => .accessAllowed

theorem not_sealed_of_interrupt : ¬ ∀ (r : RunScript) (t : FilesTable) (log : List Event) (path : RelativePath)
    (digest : Sha512Digest), r.config.locked path = true → Sealed path digest t →
    Sealed path digest (runFrom r t log).session.table := by
  intro h
  have hlost : ((runFrom interruptedAudit sealedTable []).session.table.find [97]).map
      (fun e => e.value.sha512) = some none := by decide +kernel
  obtain ⟨e,hfind,-,hsha⟩ := h interruptedAudit sealedTable [] [97] (.replicate 64 1) rfl ⟨_,rfl,rfl,rfl⟩
  rw [hfind,Option.map_some,hsha] at hlost
  cases hlost

end Precizer.Guarantees
