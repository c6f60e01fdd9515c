import Precizer.Traversal.MetFiles

/-! # Visits of complete rows

A row without an offset and with a digest is complete. What a visit of a file that can be
read makes of a complete row follows from the stored and the current metadata: whether the
file is hashed, which columns are written, and what is printed.
-/
namespace Precizer.Database

def CmpctStat.SameMtime (s d : CmpctStat) : Prop := s.mtimTvSec = d.mtimTvSec ∧ s.mtimTvNsec = d.mtimTvNsec

def CmpctStat.SameCtime (s d : CmpctStat) : Prop := s.ctimTvSec = d.ctimTvSec ∧ s.ctimTvNsec = d.ctimTvNsec

/-- The stored number of blocks is known and is not the current one. -/
def CmpctStat.BlocksDiffer (s d : CmpctStat) : Prop := s.stBlocks ≠ blkcntUnknown ∧ s.stBlocks ≠ d.stBlocks

/-- All compared fields agree. -/
structure CmpctStat.Matches (s d : CmpctStat) : Prop where
  size : s.stSize = d.stSize
  mtime : s.SameMtime d
  ctime : s.SameCtime d
  blocks : ¬ s.BlocksDiffer d

section Mask

variable {s d : CmpctStat}

theorem sizeChanged_iff : (fileCompareMetadataEquivalence s d).sizeChanged = true ↔ s.stSize ≠ d.stSize := by
  simp only [fileCompareMetadataEquivalence,decide_eq_true_eq]

theorem modificationTimeChanged_iff :
    (fileCompareMetadataEquivalence s d).modificationTimeChanged = true ↔ ¬ s.SameMtime d := by
  simp only [fileCompareMetadataEquivalence,CmpctStat.SameMtime,decide_eq_true_eq]

theorem statusChangedTime_iff :
    (fileCompareMetadataEquivalence s d).statusChangedTime = true ↔ ¬ s.SameCtime d := by
  simp only [fileCompareMetadataEquivalence,CmpctStat.SameCtime,decide_eq_true_eq]

theorem allocatedSizeChanged_iff :
    (fileCompareMetadataEquivalence s d).allocatedSizeChanged = true ↔ s.BlocksDiffer d := by
  simp only [fileCompareMetadataEquivalence,CmpctStat.BlocksDiffer,decide_eq_true_eq]

theorem compare_identical : fileCompareMetadataEquivalence s d = Changed.identical ↔ s.Matches d := by
  constructor
  · intro h
    refine ⟨?_,?_,?_,?_⟩
    · by_contra hno
      rw [← ne_eq,← sizeChanged_iff,h] at hno
      cases hno
    · by_contra hno
      rw [← modificationTimeChanged_iff,h] at hno
      cases hno
    · by_contra hno
      rw [← statusChangedTime_iff,h] at hno
      cases hno
    · intro hno
      rw [← allocatedSizeChanged_iff,h] at hno
      cases hno
  · rintro ⟨hsize,hmtime,hctime,hblocks⟩
    unfold fileCompareMetadataEquivalence Changed.identical
    rw [Changed.mk.injEq]
    refine ⟨rfl,?_,?_,?_,?_⟩
    · exact decide_eq_false (not_not_intro hsize)
    · exact decide_eq_false (not_not_intro hctime)
    · exact decide_eq_false (not_not_intro hmtime)
    · exact decide_eq_false hblocks

instance : Decidable (s.SameMtime d) := inferInstanceAs (Decidable (_ ∧ _))

instance : Decidable (s.SameCtime d) := inferInstanceAs (Decidable (_ ∧ _))

instance : Decidable (s.BlocksDiffer d) := inferInstanceAs (Decidable (_ ∧ _))

instance : Decidable (s.Matches d) := decidable_of_iff _ compare_identical

end Mask

end Precizer.Database

namespace Precizer.Traversal
open General Rational Digest Database

structure Complete (columns : FileColumns) (digest : Sha512Digest) : Prop where
  offset : columns.offset = none
  hashed : columns.sha512 = some digest

def storedStat (columns : FileColumns) : CmpctStat := (storedRow (some columns)).savedStat

/-- The file is not empty, can be opened and positioned, and every reading goes on to its end. -/
structure Visit.Readable (v : Visit) : Prop extends v.Legible where
  access : v.access = .accessAllowed
  seekable : v.disk.seekable 0 = true
  nonempty : v.entry.statp.stSize ≠ 0

section Decisions

variable {c : Config} {v : Visit} {columns : FileColumns} {digest : Sha512Digest}

theorem Complete.savedOffset (h : Complete columns digest) :
    hasSavedOffset (decidedFile c v (storedRow (some columns))) = false := by
  rw [hasSavedOffset,decidedFile_db]
  simp [storedRow,DBrow.ofEntry,h.offset]

theorem Complete.checksumOffset (h : Complete columns digest) :
    (decidedFile c v (storedRow (some columns))).checksumOffset = 0 := by
  rcases decidedFile_start c v (storedRow (some columns)) with ⟨hresume,-,-⟩ | ⟨-,hoffset⟩
  · rw [canResumePartialHash,h.savedOffset] at hresume
    cases hresume
  · exact hoffset

theorem Complete.digest_eq (h : Complete columns digest) : (storedRow (some columns)).sha512 = digest := by
  simp [storedRow,DBrow.ofEntry,h.hashed]

theorem Complete.lockReady (h : Complete columns digest) :
    lockChecksumReady (decidedFile c v (storedRow (some columns))) = c.locked v.entry.path := by
  rw [lockChecksumReady,h.savedOffset,decidedFile_locked,decidedFile_db]
  simp [storedRow,DBrow.ofEntry]

theorem stored_changes (columns : FileColumns) :
    (decidedFile c v (storedRow (some columns))).dbRecordVsFileMetadataChanges =
      fileCompareMetadataEquivalence (storedStat columns) (statCopy v.entry.statp) := decidedFile_changes c v _ rfl

theorem stored_identical (columns : FileColumns) :
    fileMetadataIdentical (decidedFile c v (storedRow (some columns))) = true ↔
      (storedStat columns).Matches (statCopy v.entry.statp) := by
  rw [fileMetadataIdentical,stored_changes,decide_eq_true_eq]
  exact compare_identical

theorem Complete.unchanged_iff (h : Complete columns digest) :
    unchangedAndComplete (decidedFile c v (storedRow (some columns))) = true ↔
      (storedStat columns).Matches (statCopy v.entry.statp) := by
  rw [← stored_identical (c := c),unchangedAndComplete,h.savedOffset,decidedFile_db]
  simp [storedRow,DBrow.ofEntry]

theorem stored_sizeChanged (columns : FileColumns) :
    sizeChanged (decidedFile c v (storedRow (some columns))) = true ↔
      (storedStat columns).stSize ≠ v.entry.statp.stSize := by
  rw [sizeChanged,stored_changes]
  exact sizeChanged_iff

theorem stored_modificationTimeChanged (columns : FileColumns) :
    modificationTimeChanged (decidedFile c v (storedRow (some columns))) = true ↔
      ¬ (storedStat columns).SameMtime (statCopy v.entry.statp) := by
  rw [modificationTimeChanged,stored_changes]
  exact modificationTimeChanged_iff

theorem stored_timestampsChanged (columns : FileColumns) :
    timestampsChanged (decidedFile c v (storedRow (some columns))) = true ↔
      ¬ ((storedStat columns).SameMtime (statCopy v.entry.statp) ∧
        (storedStat columns).SameCtime (statCopy v.entry.statp)) := by
  rw [timestampsChanged,stored_changes,Bool.or_eq_true,statusChangedTime_iff,modificationTimeChanged_iff]
  tauto

/-- The file is hashed unless only its change time or its blocks differ and go unwatched. -/
theorem Complete.rehash_iff (h : Complete columns digest) (hnonempty : v.entry.statp.stSize ≠ 0) :
    (decidedFile c v (storedRow (some columns))).rehash = true ↔
      (c.locked v.entry.path = true ∧ c.rehashLocked = true) ∨ c.watchTimestamps = true ∨
        (storedStat columns).stSize ≠ v.entry.statp.stSize ∨
        ¬ (storedStat columns).SameMtime (statCopy v.entry.statp) ∨
        (storedStat columns).Matches (statCopy v.entry.statp) := by
  have hempty : emptyFile (metFile c v (storedRow (some columns))) = false := decide_eq_false hnonempty
  have hdecided : (decidedFile c v (storedRow (some columns))).rehash =
      if emptyFile (metFile c v (storedRow (some columns))) then false
      else rehashDecision c (decidedFile c v (storedRow (some columns))) := rfl
  have hknown : (decidedFile c v (storedRow (some columns))).db.relativePathWasInDbBeforeProcessing = true := by
    rw [decidedFile_db]
    rfl
  have hsame := stored_identical (c := c) (v := v) columns
  have hsize := stored_sizeChanged (c := c) (v := v) columns
  have hmtime := stored_modificationTimeChanged (c := c) (v := v) columns
  rw [hdecided,hempty,if_neg (by decide),rehashDecision,h.lockReady,unwatchedMetadataOnlyChanged,hknown,
    h.savedOffset,← hsame,← hsize,← hmtime]
  generalize fileMetadataIdentical (decidedFile c v (storedRow (some columns))) = same
  generalize sizeChanged (decidedFile c v (storedRow (some columns))) = size
  generalize modificationTimeChanged (decidedFile c v (storedRow (some columns))) = mtime
  cases c.locked v.entry.path <;> cases c.rehashLocked <;> cases c.watchTimestamps <;> cases same <;> cases size <;>
    cases mtime <;> decide

end Decisions

/-- The patterns can be matched and let the file through. -/
structure Shown (c : Config) (path : RelativePath) : Prop where
  patterns : patternsMatch c path = true
  visible : (matchIncludeIgnore c false path).ignored = false ∨ c.locked path = true

section Outcomes

variable {c : Config} {v : Visit} {columns : FileColumns} {digest : Sha512Digest}

theorem accessible_process (hshown : Shown c v.entry.path) (haccess : v.access = .accessAllowed) (row : DBrow) :
    shouldProcess (decidedFile c v row) = !lockViolation c (decidedFile c v row) ∧
      (decidedFile c v row).isReadable = true ∧ (decidedFile c v row).ignore = false := by
  have hignore : (loadedFile c row v.entry.path).ignore = false := by
    rcases hshown.visible with hvisible | hlocked
    · simp [loadedFile,hvisible]
    · simp [loadedFile,hlocked]
  have haccessed : accessedFile c v row = { loadedFile c row v.entry.path with isReadable := true } := by
    unfold accessedFile
    rw [hignore,haccess]
    rfl
  have hreadable : (decidedFile c v row).isReadable = true := congrArg File.isReadable haccessed
  have hvisible : (decidedFile c v row).ignore = false := (congrArg File.ignore haccessed).trans hignore
  refine ⟨?_,hreadable,hvisible⟩
  rw [shouldProcess,hreadable,hvisible]
  rfl

theorem shown_outcome (hshown : Shown c v.entry.path) (haccess : v.access = .accessAllowed)
    (stored : Option FileColumns) : fileOutcome c v stored =
      if leavesUnchanged c (decidedFile c v (storedRow stored)) ||
        lockedTimestampDriftOnly c (decidedFile c v (storedRow stored)) then {}
      else processedOutcome c v (storedRow stored) := by
  have havailable : unavailableLocked c v (storedRow stored) = false := by
    simp [unavailableLocked,haccess]
  unfold fileOutcome
  dsimp only
  rw [hshown.patterns,havailable]
  rfl

theorem Complete.leaves_iff (h : Complete columns digest) :
    leavesUnchanged c (decidedFile c v (storedRow (some columns))) = true ↔
      (storedStat columns).Matches (statCopy v.entry.statp) ∧ ¬ (c.rehashLocked = true ∧ c.locked v.entry.path = true) := by
  rw [leavesUnchanged,h.lockReady,Bool.and_eq_true,h.unchanged_iff]
  cases c.rehashLocked <;> cases c.locked v.entry.path <;> simp

theorem Complete.digest_of (h : Complete columns digest) :
    sha512From (preparedContext (decidedFile c v (storedRow (some columns)))).mdContext
        (v.disk.delivered (decidedFile c v (storedRow (some columns))).checksumOffset) =
      if 8 * (v.disk.delivered 0).length < 2 ^ 64 then some (sha512 (v.disk.delivered 0)) else none := by
  rw [preparedContext,if_pos h.checksumOffset,h.checksumOffset]
  exact sha512From_init _ _

theorem Complete.runs (h : Complete columns digest) (hv : v.Readable) (hperform : performFileHashing c = true) :
    HashRuns c v (decidedFile c v (storedRow (some columns))) := by
  refine ⟨hv.openable,?_,hperform⟩
  rw [h.checksumOffset]
  exact hv.seekable

section Unlocked

variable (hcomplete : Complete columns digest) (hv : v.Readable) (hshown : Shown c v.entry.path)
  (hunlocked : c.locked v.entry.path = false)
include hcomplete hv hshown hunlocked

theorem unlocked_silent (hsame : (storedStat columns).Matches (statCopy v.entry.statp)) :
    fileOutcome c v (some columns) = {} := by
  have hleft := (hcomplete.leaves_iff (c := c)).mpr ⟨hsame,by simp [hunlocked]⟩
  rw [shown_outcome hshown hv.access,hleft]
  rfl

theorem unlocked_ready (hdiffers : ¬ (storedStat columns).Matches (statCopy v.entry.statp)) :
    Ready c v (storedRow (some columns)) := by
  have hready := hcomplete.lockReady (c := c) (v := v)
  rw [hunlocked] at hready
  refine ⟨?_,?_,?_⟩
  · rw [(accessible_process hshown hv.access _).1,lockViolation,hready]
    rfl
  · have hleft := mt (hcomplete.leaves_iff (c := c)).mp fun hleft => hdiffers hleft.1
    simpa using hleft
  · rw [lockedTimestampDriftOnly,hready]
    rfl

/-- An unlocked file with a complete row keeps its digest when only its change time or its blocks
differ and go unwatched. -/
theorem unlocked_reused (hdiffers : ¬ (storedStat columns).Matches (statCopy v.entry.statp))
    (hrehash : (decidedFile c v (storedRow (some columns))).rehash = false) :
    (fileOutcome c v (some columns)).columns = some (recorded v (some digest)) := by
  have hready := unlocked_ready hcomplete hv hshown hunlocked hdiffers
  have hdifferent : fileMetadataIdentical (decidedFile c v (storedRow (some columns))) = false := by
    simpa using mt (stored_identical columns).mp hdiffers
  have hallowed : allowLockedUpdate c (decidedFile c v (storedRow (some columns))) = true := by
    simp [allowLockedUpdate,hunlocked]
  have hnonempty : emptyFile (decidedFile c v (storedRow (some columns))) = false := decide_eq_false hv.nonempty
  have hreused := (reused_outcome hready hrehash hallowed fun _ => hdifferent).1
  rw [fileOutcome_ready hshown.patterns hready,hreused,hnonempty,hcomplete.digest_eq]
  rfl

/-- Otherwise it is hashed; a content the hash cannot count stops the pass. -/
theorem unlocked_hashed (hperform : performFileHashing c = true)
    (hdiffers : ¬ (storedStat columns).Matches (statCopy v.entry.statp))
    (hrehash : (decidedFile c v (storedRow (some columns))).rehash = true) :
    if 8 * (v.disk.delivered 0).length < 2 ^ 64 then (fileOutcome c v (some columns)).columns =
      some (recorded v (some (sha512 (v.disk.delivered 0)))) else (fileOutcome c v (some columns)).failed = true := by
  have hready := unlocked_ready hcomplete hv hshown hunlocked hdiffers
  have hfree := hcomplete.lockReady (c := c) (v := v)
  rw [hunlocked] at hfree
  have houtcome := read_outcome hready hv.toLegible (hcomplete.runs hv hperform) hrehash hfree
  rw [hcomplete.digest_of] at houtcome
  rw [fileOutcome_ready hshown.patterns hready]
  split
  · rename_i hcounts
    rw [if_pos hcounts] at houtcome
    exact houtcome.2.2
  · rename_i hcounts
    rw [if_neg hcounts] at houtcome
    exact houtcome

end Unlocked

section Locked

variable (hcomplete : Complete columns digest) (hv : v.Readable) (hshown : Shown c v.entry.path)
  (hlocked : c.locked v.entry.path = true)

/-- The rules for a locked file disagree with its row: in its size, or in watched timestamps. -/
def Violates (c : Config) (stored current : CmpctStat) : Prop :=
  stored.stSize ≠ current.stSize ∨
    c.watchTimestamps = true ∧ c.rehashLocked = false ∧ ¬ (stored.SameMtime current ∧ stored.SameCtime current)

include hcomplete hlocked in
theorem locked_violates : lockViolation c (decidedFile c v (storedRow (some columns))) = true ↔
    Violates c (storedStat columns) (statCopy v.entry.statp) := by
  rw [lockViolation,hcomplete.lockReady,hlocked,Bool.true_and,Bool.or_eq_true,stored_sizeChanged,Bool.and_eq_true,
    Bool.and_eq_true,stored_timestampsChanged,Bool.not_eq_true']
  exact or_congr Iff.rfl and_assoc

include hcomplete hlocked in
theorem locked_drifts : lockedTimestampDriftOnly c (decidedFile c v (storedRow (some columns))) = true ↔
    c.watchTimestamps = false ∧ c.rehashLocked = false ∧
      ¬ ((storedStat columns).SameMtime (statCopy v.entry.statp) ∧
        (storedStat columns).SameCtime (statCopy v.entry.statp)) ∧
      (storedStat columns).stSize = v.entry.statp.stSize := by
  have hsize := stored_sizeChanged (c := c) (v := v) columns
  rw [lockedTimestampDriftOnly,hcomplete.lockReady,hlocked]
  simp only [Bool.true_and,Bool.and_eq_true,Bool.not_eq_true',stored_timestampsChanged]
  rw [← Bool.not_eq_true (sizeChanged _),hsize,not_not]
  tauto

/-- The line printed about a known, readable file that nothing was written about. -/
theorem unwritten_label {file : File} (hknown : file.db.relativePathWasInDbBeforeProcessing = true)
    (hreadable : file.isReadable = true) (hvisible : file.ignore = false) (hread : file.readError = false)
    (hupdated : file.dbRecordUpdated = false) (hplain : file.hashInterrupted = false) :
    showFile c file = if file.lockedChecksumMismatch then [.lockedChecksumMismatch]
      else if file.lockChecksumViolation then [.lockedChecksumViolation file.dbRecordVsFileMetadataChanges]
      else if file.rehash then
        if file.rehashingFromTheBeginning then [.rehashedFromTheBeginning file.dbRecordVsFileMetadataChanges]
        else if 0 < file.db.savedOffset then [.rehashResumed file.db.savedOffset]
        else if file.lockedChecksumFile then [.lockedChecksumMatched file.dbRecordVsFileMetadataChanges] else []
      else [] := by
  simp [showFile,mainLabel,hknown,hreadable,hvisible,hread,hupdated,hplain]

theorem decidedFile_unwritten (row : DBrow) : (decidedFile c v row).dbRecordUpdated = false := by
  change (accessedFile c v row).dbRecordUpdated = false
  unfold accessedFile
  split <;> rfl

def FileLabel.isViolation : FileLabel → Bool
  | .lockedChecksumMismatch => true
  | .lockedChecksumViolation _ => true
  | _ => false

def ViolationReport (path : RelativePath) (r : Report) : Prop := ∃ label, r = .file path label ∧ label.isViolation = true

theorem harmless_nil : ∀ l ∈ ([] : List FileLabel), l.isViolation = false := by
  intro l hl
  cases hl

theorem harmless_single {label : FileLabel} (h : label.isViolation = false) : ∀ l ∈ [label], l.isViolation = false := by
  intro l hl
  rwa [List.mem_singleton.mp hl]

theorem harmless_ite {p : Prop} [Decidable p] {labels labels' : List FileLabel}
    (h : ∀ l ∈ labels, l.isViolation = false) (h' : ∀ l ∈ labels', l.isViolation = false) :
    ∀ l ∈ (if p then labels else labels'), l.isViolation = false := by
  split
  · exact h
  · exact h'

theorem harmless_append {labels labels' : List FileLabel} (h : ∀ l ∈ labels, l.isViolation = false)
    (h' : ∀ l ∈ labels', l.isViolation = false) : ∀ l ∈ labels ++ labels', l.isViolation = false := by
  intro l hl
  exact (List.mem_append.mp hl).elim (h l) (h' l)

theorem violation_flagged {file : File} {label : FileLabel} (hlabel : label ∈ showFile c file)
    (hviolation : label.isViolation = true) : file.lockedChecksumMismatch = true ∨ file.lockChecksumViolation = true := by
  by_contra hclean
  obtain ⟨hmismatch,hkept⟩ : file.lockedChecksumMismatch = false ∧ file.lockChecksumViolation = false := by
    simpa using hclean
  have hlabels : ∀ l ∈ showFile c file, l.isViolation = false := by
    unfold showFile mainLabel
    dsimp only
    rw [hmismatch,hkept,if_neg (by decide : ¬ false = true),if_neg (by decide : ¬ false = true)]
    apply harmless_append
    · repeat' apply harmless_ite
      all_goals first
        | exact harmless_nil
        | exact harmless_single rfl
    · exact harmless_ite (harmless_single rfl) harmless_nil
  rw [hlabels label hlabel] at hviolation
  cases hviolation

theorem settledOutcome_clean {path : RelativePath} {file : File} (hcompared : comparedRecord c false file = file)
    (hmismatch : file.lockedChecksumMismatch = false) (hviolation : file.lockChecksumViolation = false) :
    ∀ r ∈ (settledOutcome c path false file).reports, ¬ ViolationReport path r := by
  have hclean (f : File) (hf : f.lockedChecksumMismatch = false ∧ f.lockChecksumViolation = false) :
      ∀ r ∈ (showFile c f).map (.file path), ¬ ViolationReport path r := by
    rintro r hr ⟨label,rfl,hlabel⟩
    obtain ⟨label',hmem,hsame⟩ := List.mem_map.mp hr
    cases hsame
    rcases violation_flagged hmem hlabel with hflag | hflag
    · rw [hf.1] at hflag
      cases hflag
    · rw [hf.2] at hflag
      cases hflag
  have hmarked : (markVisible true file).lockedChecksumMismatch = false ∧
      (markVisible true file).lockChecksumViolation = false := by
    rw [markVisible,if_pos rfl]
    split
    · exact ⟨hmismatch,hviolation⟩
    · exact ⟨hmismatch,hviolation⟩
  unfold settledOutcome
  rw [hcompared]
  dsimp only
  split
  · exact hclean file ⟨hmismatch,hviolation⟩
  · split
    · exact hclean file ⟨hmismatch,hviolation⟩
    · exact hclean _ hmarked

/-- A mismatch is reported as a violation and nothing is written. -/
theorem settledOutcome_mismatched {path : RelativePath} {file : File} (hprocess : shouldProcess file = true)
    (hmismatch : checksumMismatch c successStatus false file = true) (hread : file.readError = false)
    (hlabel : showFile c { file with lockedChecksumMismatch := true } = [.lockedChecksumMismatch]) :
    settledOutcome c path false file = { reports := [.file path .lockedChecksumMismatch], violation := true } := by
  have hcompared : comparedRecord c false file = { file with lockedChecksumMismatch := true } := by
    rw [comparedRecord,hprocess,hmismatch]
    rfl
  have hblocked : blockedRecord false ({ file with lockedChecksumMismatch := true } : File) = true := by
    simp [blockedRecord]
  have hviolating : violatingRecord ({ file with lockedChecksumMismatch := true } : File) = true := by
    simp [violatingRecord,hread]
  unfold settledOutcome
  rw [hcompared]
  dsimp only
  rw [hblocked,hviolating,hlabel]
  rfl

include hcomplete hv hshown hlocked

theorem locked_ready (hkept : ¬ Violates c (storedStat columns) (statCopy v.entry.statp))
    (hread : c.rehashLocked = true ∨
      ¬ (storedStat columns).Matches (statCopy v.entry.statp) ∧ c.watchTimestamps = true) :
    Ready c v (storedRow (some columns)) := by
  have hviolation := mt (locked_violates hcomplete hlocked).mp hkept
  refine ⟨?_,?_,?_⟩
  · rw [(accessible_process hshown hv.access _).1,Bool.eq_false_of_not_eq_true hviolation]
    rfl
  · by_contra hleft
    obtain ⟨hsame,hunhashed⟩ := (hcomplete.leaves_iff (c := c)).mp (by simpa using hleft)
    rcases hread with hrehash | ⟨hdiffers,-⟩
    · exact hunhashed ⟨hrehash,hlocked⟩
    · exact hdiffers hsame
  · by_contra hdrift
    obtain ⟨hwatch,hrehash,-⟩ := (locked_drifts hcomplete hlocked).mp (by simpa using hdrift)
    rcases hread with h | ⟨-,h⟩
    · rw [hrehash] at h
      cases h
    · rw [hwatch] at h
      cases h

theorem locked_violation (hviolates : Violates c (storedStat columns) (statCopy v.entry.statp)) :
    fileOutcome c v (some columns) = { reports := [.file v.entry.path (.lockedChecksumViolation
      (fileCompareMetadataEquivalence (storedStat columns) (statCopy v.entry.statp)))], violation := true } := by
  have hviolation := (locked_violates hcomplete hlocked).mpr hviolates
  obtain ⟨hprocess,hreadable,hvisible⟩ := accessible_process hshown hv.access (storedRow (some columns))
  rw [hviolation] at hprocess
  have hleft : leavesUnchanged c (decidedFile c v (storedRow (some columns))) = false := by
    by_contra hleft
    obtain ⟨⟨hsize,hmtime,hctime,-⟩,-⟩ := (hcomplete.leaves_iff (c := c)).mp (by simpa using hleft)
    rcases hviolates with hdiffers | ⟨-,-,hdiffers⟩
    · exact hdiffers hsize
    · exact hdiffers ⟨hmtime,hctime⟩
  have hdrift : lockedTimestampDriftOnly c (decidedFile c v (storedRow (some columns))) = false := by
    by_contra hdrift
    obtain ⟨hwatch,-,-,hsize⟩ := (locked_drifts hcomplete hlocked).mp (by simpa using hdrift)
    rcases hviolates with hdiffers | ⟨hwatched,-⟩
    · exact hdiffers hsize
    · rw [hwatch] at hwatched
      cases hwatched
  have hlabel := @unwritten_label c (decidedFile c v (storedRow (some columns))) (by rw [decidedFile_db]; rfl)
    hreadable hvisible (decidedFile_readError c v _) (decidedFile_unwritten _) (decidedFile_plain _)
  have hmismatch := decidedFile_mismatch c v (storedRow (some columns))
  have hset : (decidedFile c v (storedRow (some columns))).lockChecksumViolation = true := hviolation
  rw [hmismatch,hset,stored_changes] at hlabel
  have hcompared : comparedRecord c false (decidedFile c v (storedRow (some columns))) =
      decidedFile c v (storedRow (some columns)) := by
    rw [comparedRecord,hprocess]
    rfl
  have hblocked : blockedRecord false (decidedFile c v (storedRow (some columns))) = true := by
    simp [blockedRecord,hset]
  have hviolating : violatingRecord (decidedFile c v (storedRow (some columns))) = true := by
    simp [violatingRecord,hset]
  rw [shown_outcome hshown hv.access,hleft,hdrift]
  unfold processedOutcome settledOutcome
  dsimp only
  rw [hprocess,hcompared,hblocked,hviolating,hlabel]
  rfl

/-- Without a violation and without a rehash of locked files, a locked file is read only when
timestamps are watched. -/
theorem locked_unread (hkept : ¬ Violates c (storedStat columns) (statCopy v.entry.statp))
    (hrehash : c.rehashLocked = false)
    (hunread : (storedStat columns).Matches (statCopy v.entry.statp) ∨ c.watchTimestamps = false) :
    fileOutcome c v (some columns) = {} := by
  rw [shown_outcome hshown hv.access]
  by_cases hleft : leavesUnchanged c (decidedFile c v (storedRow (some columns))) = true
  · rw [hleft]
    rfl
  by_cases hdrift : lockedTimestampDriftOnly c (decidedFile c v (storedRow (some columns))) = true
  · rw [hdrift,Bool.or_true]
    rfl
  have hdiffers : ¬ (storedStat columns).Matches (statCopy v.entry.statp) := fun hsame =>
    hleft ((hcomplete.leaves_iff (c := c)).mpr ⟨hsame,by simp [hrehash]⟩)
  have hwatch := hunread.resolve_left hdiffers
  have hsize : (storedStat columns).stSize = v.entry.statp.stSize := by
    by_contra hno
    exact hkept (.inl hno)
  have htimes : (storedStat columns).SameMtime (statCopy v.entry.statp) ∧
      (storedStat columns).SameCtime (statCopy v.entry.statp) := by
    by_contra hno
    exact hdrift ((locked_drifts hcomplete hlocked).mpr ⟨hwatch,hrehash,hno,hsize⟩)
  have hunhashed : (decidedFile c v (storedRow (some columns))).rehash = false := by
    by_contra hno
    rcases (hcomplete.rehash_iff hv.nonempty).mp (by simpa using hno) with ⟨-,h⟩ | h | h | h | h
    · rw [hrehash] at h
      cases h
    · rw [hwatch] at h
      cases h
    · exact h hsize
    · exact h htimes.1
    · exact hdiffers h
  obtain ⟨hprocess,hreadable,hvisible⟩ := accessible_process hshown hv.access (storedRow (some columns))
  have hviolation : (decidedFile c v (storedRow (some columns))).lockChecksumViolation = false := by
    have hno := mt (locked_violates hcomplete hlocked).mp hkept
    exact Bool.eq_false_of_not_eq_true hno
  have hprocess : shouldProcess (decidedFile c v (storedRow (some columns))) = true := by
    rw [hprocess,show lockViolation c (decidedFile c v (storedRow (some columns))) = false from hviolation]
    rfl
  have hsettled : ∀ file : File,
      file = { decidedFile c v (storedRow (some columns)) with sha512 := (storedRow (some columns)).sha512 } →
      settledOutcome c v.entry.path false file = {} := by
    intro file hfile
    have hcompared : comparedRecord c false file = file := by
      rw [comparedRecord,if_neg]
      simp [checksumMismatch,hrehash]
    have hopen : blockedRecord false file = false := by
      rw [hfile]
      exact open_of_process _ hprocess (decidedFile_readError c v _) (decidedFile_mismatch c v _)
    have hupdate : shouldUpdateDb c file = false := by
      have hallowed : allowLockedUpdate c file = false := by
        have hoffset := hcomplete.savedOffset (c := c) (v := v)
        rw [hfile]
        simp only [hasSavedOffset,allowLockedUpdate] at hoffset ⊢
        rw [hoffset,decidedFile_locked,hlocked,hrehash,decidedFile_db]
        rfl
      rw [shouldUpdateDb,hallowed]
      rfl
    have hlabel := @unwritten_label c file (by rw [hfile,decidedFile_db]; rfl)
      (by rw [hfile]; exact hreadable) (by rw [hfile]; exact hvisible)
      (by rw [hfile]; exact decidedFile_readError c v _) (by rw [hfile]; exact decidedFile_unwritten _)
      (by rw [hfile]; exact decidedFile_plain _)
    have hquiet : showFile c file = [] := by
      rw [hlabel,hfile]
      dsimp only
      rw [decidedFile_mismatch,hviolation,hunhashed]
      rfl
    unfold settledOutcome
    dsimp only
    rw [hcompared,hopen,hupdate,hquiet]
    rfl
  rw [Bool.eq_false_of_not_eq_true hleft,Bool.eq_false_of_not_eq_true hdrift,Bool.or_self,if_neg (by decide)]
  unfold processedOutcome
  dsimp only
  rw [if_pos hprocess,if_neg (by rw [hunhashed]; decide)]
  exact hsettled _ rfl

omit hv hshown in
theorem locked_update (digest' : Sha512Digest) :
    shouldUpdateDb c (hashedRecord (decidedFile c v (storedRow (some columns))) digest') =
      (c.rehashLocked && !fileMetadataIdentical (decidedFile c v (storedRow (some columns)))) := by
  have hallowed : allowLockedUpdate c (decidedFile c v (storedRow (some columns))) = c.rehashLocked := by
    rw [allowLockedUpdate,hcomplete.savedOffset,decidedFile_locked,hlocked,decidedFile_db]
    simp [storedRow,DBrow.ofEntry]
  rw [hashedRecord_update rfl,hallowed,hcomplete.savedOffset]
  rfl

omit hcomplete hlocked in
theorem locked_mismatchLabel (digest' : Sha512Digest) :
    showFile c { hashedRecord (decidedFile c v (storedRow (some columns))) digest' with
      lockedChecksumMismatch := true } = [.lockedChecksumMismatch] := by
  obtain ⟨-,hreadable,hvisible⟩ := accessible_process hshown hv.access (storedRow (some columns))
  have hknown : (decidedFile c v (storedRow (some columns))).db.relativePathWasInDbBeforeProcessing = true := by
    rw [decidedFile_db]
    rfl
  rw [@unwritten_label c { hashedRecord (decidedFile c v (storedRow (some columns))) digest' with
    lockedChecksumMismatch := true } hknown hreadable hvisible (decidedFile_readError c v _) (decidedFile_unwritten _)
    (decidedFile_plain _)]
  rfl

/-- A locked file that is read: a mismatch counts only when locked files are rehashed, and
only then new metadata is stored. -/
theorem locked_read (hperform : performFileHashing c = true)
    (hkept : ¬ Violates c (storedStat columns) (statCopy v.entry.statp))
    (hread : c.rehashLocked = true ∨
      ¬ (storedStat columns).Matches (statCopy v.entry.statp) ∧ c.watchTimestamps = true)
    (hcounts : 8 * (v.disk.delivered 0).length < 2 ^ 64) :
    (fileOutcome c v (some columns)).failed = false ∧
      if c.rehashLocked = true ∧ sha512 (v.disk.delivered 0) ≠ digest then
        (fileOutcome c v (some columns)).reports = [.file v.entry.path .lockedChecksumMismatch] ∧
          (fileOutcome c v (some columns)).violation = true ∧ (fileOutcome c v (some columns)).columns = none
      else (∀ r ∈ (fileOutcome c v (some columns)).reports, ¬ ViolationReport v.entry.path r) ∧
        (fileOutcome c v (some columns)).columns =
          if c.rehashLocked = true ∧ ¬ (storedStat columns).Matches (statCopy v.entry.statp) then
            some (recorded v (some (sha512 (v.disk.delivered 0)))) else none := by
  have hready := locked_ready hcomplete hv hshown hlocked hkept hread
  have hrehash := (hcomplete.rehash_iff (c := c) hv.nonempty).mpr
    (hread.elim (fun h => .inl ⟨hlocked,h⟩) fun h => .inr (.inl h.2))
  have hruns := hcomplete.runs hv hperform
  have hdigest := hcomplete.digest_of (c := c) (v := v)
  rw [if_pos hcounts] at hdigest
  have hsettled := hashedRecord_settled hready hv.toLegible hruns hrehash hdigest
  have hcolumns := hashedRecord_columns hready hv.toLegible hruns hrehash hdigest
  have hmismatch := hashedRecord_mismatch hrehash (sha512 (v.disk.delivered 0))
  rw [hcomplete.lockReady,hlocked,Bool.and_true,hcomplete.digest_eq] at hcolumns hmismatch
  rw [locked_update hcomplete hlocked] at hcolumns
  rw [fileOutcome_ready hshown.patterns hready,hcolumns,hsettled]
  refine ⟨settledOutcome_failed _ _ _,?_⟩
  split
  · rename_i hfound
    have hdiffers : (c.rehashLocked && decide (sha512 (v.disk.delivered 0) ≠ digest)) = true := by simpa using hfound
    rw [hdiffers] at hmismatch
    have hprocess : shouldProcess (hashedRecord (decidedFile c v (storedRow (some columns)))
        (sha512 (v.disk.delivered 0))) = true := hready.process
    rw [settledOutcome_mismatched hprocess hmismatch (decidedFile_readError c v _)
      (locked_mismatchLabel hv hshown _),if_pos hdiffers]
    exact ⟨rfl,rfl,rfl⟩
  · rename_i hmatched
    have hsame : (c.rehashLocked && decide (sha512 (v.disk.delivered 0) ≠ digest)) = false := by
      by_contra hno
      exact hmatched (by simpa using hno)
    rw [hsame] at hmismatch
    have hcompared : comparedRecord c false (hashedRecord (decidedFile c v (storedRow (some columns)))
        (sha512 (v.disk.delivered 0))) = hashedRecord (decidedFile c v (storedRow (some columns)))
        (sha512 (v.disk.delivered 0)) := by
      rw [comparedRecord,hmismatch,Bool.and_false]
      rfl
    have hviolation : (decidedFile c v (storedRow (some columns))).lockChecksumViolation = false :=
      Bool.eq_false_of_not_eq_true (mt (locked_violates hcomplete hlocked).mp hkept)
    refine ⟨settledOutcome_clean hcompared (decidedFile_mismatch c v _) hviolation,?_⟩
    have hidentical := stored_identical (c := c) (v := v) columns
    rw [hsame,if_neg (by decide)]
    simp only [Bool.and_eq_true,Bool.not_eq_true',← Bool.not_eq_true (fileMetadataIdentical _),hidentical]

end Locked

end Outcomes

end Precizer.Traversal
