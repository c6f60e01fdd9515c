import Precizer.Guarantees.RestartableUpgrade

/-! # Preserved metadata

A completed upgrade keeps every row and the meaning of every valid metadata blob.
-/
namespace Precizer.Guarantees
open General Traversal Database

/-- The stored structure has the old size and times, so that a file differs from it in a
compared field exactly when it differs from the old metadata, and never in its blocks. -/
structure MeaningKept (old : CmpctStatV1) (migrated : CmpctStat) : Prop where
  size : migrated.stSize = old.stSize
  mtime : (migrated.mtimTvSec,migrated.mtimTvNsec) = (old.mtimTvSec,old.mtimTvNsec)
  ctime : (migrated.ctimTvSec,migrated.ctimTvNsec) = (old.ctimTvSec,old.ctimTvNsec)
  sizeChanged : ∀ file : CmpctStat,
    (fileCompareMetadataEquivalence migrated file).sizeChanged = true ↔ old.stSize ≠ file.stSize
  mtimeChanged : ∀ file : CmpctStat,
    (fileCompareMetadataEquivalence migrated file).modificationTimeChanged = true ↔
      (old.mtimTvSec,old.mtimTvNsec) ≠ (file.mtimTvSec,file.mtimTvNsec)
  ctimeChanged : ∀ file : CmpctStat,
    (fileCompareMetadataEquivalence migrated file).statusChangedTime = true ↔
      (old.ctimTvSec,old.ctimTvNsec) ≠ (file.ctimTvSec,file.ctimTvNsec)
  blocks : ∀ file : CmpctStat, (fileCompareMetadataEquivalence migrated file).allocatedSizeChanged = false

theorem meaningKept_convert (old : CmpctStatV1) : MeaningKept old (convertBlobToV4Stat old) := by
  constructor
  · rfl
  · rfl
  · rfl
  · intro file
    exact decide_eq_true_iff
  · intro file
    simp [fileCompareMetadataEquivalence,convertBlobToV4Stat,imp_iff_not_or]
  · intro file
    simp [fileCompareMetadataEquivalence,convertBlobToV4Stat,imp_iff_not_or]
  · intro file
    simp [fileCompareMetadataEquivalence,convertBlobToV4Stat]

/-- A valid blob is read as what it holds, through one or two migrations. -/
theorem upgradedStat_valid {version : ℤ} {blob : List UInt8} {old : CmpctStatV1} (h : OldMetadata version blob old) :
    upgradedStat version (some blob) = convertBlobToV4Stat old := by
  unfold OldMetadata at h
  rw [upgradedStat]
  split at h
  · rename_i hzero
    obtain ⟨s,more,rfl,rfl,hsane⟩ := h
    rw [if_pos hzero,statToVersion4_of_version1,statToVersion1,Stat64.populate_toBytes hsane]
    rfl
  · rename_i hcompact
    rw [if_neg hcompact,h,statToVersion4_of_version1]

theorem upgradedFile_rows {d : DatabaseFile} (hold : d.version < 4) : (upgradedFile d).version = 4 ∧
    (upgradedFile d).files.rows = d.files.rows.map fun e =>
      { e with value := { e.value with stat := some (upgradedStat d.version e.value.stat).toBytes } } := by
  by_cases hzero : d.version < 1
  · obtain ⟨hfiles,hversion⟩ := upgradedFile_old hzero
    refine ⟨hversion,?_⟩
    simp only [hfiles,upgradedStat,hzero,if_true]
    rfl
  · obtain ⟨hfiles,hversion⟩ := upgradedFile_compact hzero hold
    refine ⟨hversion,?_⟩
    simp only [hfiles,upgradedStat,hzero,if_false]
    rfl

/-- For every database of an older version and every completed uninterrupted upgrade: each row
keeps its identifier, its path and its other columns, and a valid metadata blob its meaning. -/
theorem preserved_metadata {d d' : DatabaseFile} (hold : d.version < 4) (hupgraded : Upgraded d d') :
    d'.version = 4 ∧ ∃ migrated : Entry RelativePath FileColumns → CmpctStat,
      d'.files.rows = d.files.rows.map (fun e =>
        { e with value := { e.value with stat := some (migrated e).toBytes } }) ∧
      ∀ e ∈ d.files.rows, ∀ blob old, e.value.stat = some blob → OldMetadata d.version blob old →
        MeaningKept old (migrated e) := by
  rw [upgraded_iff.mp hupgraded]
  obtain ⟨hversion,hrows⟩ := upgradedFile_rows hold
  refine ⟨hversion,fun e => upgradedStat d.version e.value.stat,hrows,?_⟩
  intro e _ blob old hblob hmetadata
  dsimp only
  rw [hblob,upgradedStat_valid hmetadata]
  exact meaningKept_convert old

/-- A database of version 2 with one row, whose file has a size of ten bytes and two times. -/
def secondVersionStat : CmpctStatV1 := ⟨10,1700000000,5,1700000001,6⟩

def secondVersionFile : DatabaseFile :=
  ⟨some [2],.singleton 7 [97] ⟨some 3,none,some secondVersionStat.toBytes,none⟩⟩

theorem preserved_metadata_one : ∃ migrated : CmpctStat,
    (upgradedFile secondVersionFile).files.rows = [⟨7,[97],⟨some 3,none,some migrated.toBytes,none⟩⟩] ∧
      MeaningKept secondVersionStat migrated := by
  have hold : secondVersionFile.version < 4 := by decide
  obtain ⟨-,migrated,hrows,hkept⟩ := preserved_metadata hold (upgraded_iff.mpr rfl)
  exact ⟨_,hrows,hkept _ (List.mem_singleton.mpr rfl) _ _ rfl rfl⟩

end Precizer.Guarantees
