import Precizer.General.ByteOrder
import Mathlib.Tactic.Common

/-! # Compact file metadata and its stored layout

Of the metadata the traversal reports, eight 64-bit fields are kept. They are stored
as the 64 bytes of the structure and compared field by field.
-/
namespace Precizer.Database
open General

structure Timespec where
  tvSec : BitVec 64
  tvNsec : BitVec 64
  deriving DecidableEq

/-- The fields of `struct stat` the program reads. -/
structure Stat where
  stSize : BitVec 64
  stBlocks : BitVec 64
  stDev : BitVec 64
  stIno : BitVec 64
  stMtim : Timespec
  stCtim : Timespec
  deriving DecidableEq

structure CmpctStat where
  stSize : BitVec 64
  stBlocks : BitVec 64
  stDev : BitVec 64
  stIno : BitVec 64
  mtimTvSec : BitVec 64
  mtimTvNsec : BitVec 64
  ctimTvSec : BitVec 64
  ctimTvNsec : BitVec 64
  deriving DecidableEq

def CmpctStat.zero : CmpctStat := ⟨0,0,0,0,0,0,0,0⟩

/-- The number of blocks a migrated row carries; as the stored side it is never compared. -/
def blkcntUnknown : BitVec 64 := -1

def statCopy (source : Stat) : CmpctStat where
  stSize := source.stSize
  stBlocks := source.stBlocks
  stDev := source.stDev
  stIno := source.stIno
  mtimTvSec := source.stMtim.tvSec
  mtimTvNsec := source.stMtim.tvNsec
  ctimTvSec := source.stCtim.tvSec
  ctimTvNsec := source.stCtim.tvNsec

/-- The mask of differences; no flag set is `IDENTICAL`. -/
structure Changed where
  notEqual : Bool := false
  sizeChanged : Bool := false
  statusChangedTime : Bool := false
  modificationTimeChanged : Bool := false
  allocatedSizeChanged : Bool := false
  deriving DecidableEq

def Changed.identical : Changed := {}

def fileCompareMetadataEquivalence (source destination : CmpctStat) : Changed where
  sizeChanged := source.stSize ≠ destination.stSize
  allocatedSizeChanged := source.stBlocks ≠ blkcntUnknown ∧ source.stBlocks ≠ destination.stBlocks
  modificationTimeChanged := ¬ (source.mtimTvSec = destination.mtimTvSec ∧
    source.mtimTvNsec = destination.mtimTvNsec)
  statusChangedTime := ¬ (source.ctimTvSec = destination.ctimTvSec ∧
    source.ctimTvNsec = destination.ctimTvNsec)

/-- Size and modification time, the fields that stand for the content. -/
def CmpctStat.contentKey (s : CmpctStat) : BitVec 64 × BitVec 64 × BitVec 64 :=
  (s.stSize,s.mtimTvSec,s.mtimTvNsec)

theorem contentKey_eq_iff {s d : CmpctStat} :
    s.contentKey = d.contentKey ↔ (fileCompareMetadataEquivalence s d).sizeChanged = false ∧
      (fileCompareMetadataEquivalence s d).modificationTimeChanged = false := by
  simp [CmpctStat.contentKey,fileCompareMetadataEquivalence]

theorem contentKey_of_identical {s d : CmpctStat}
    (h : fileCompareMetadataEquivalence s d = Changed.identical) : s.contentKey = d.contentKey := by
  rw [contentKey_eq_iff,h]
  exact ⟨rfl,rfl⟩

theorem compare_self (s : CmpctStat) : fileCompareMetadataEquivalence s s = Changed.identical := by
  simp [fileCompareMetadataEquivalence,Changed.identical]

def CmpctStat.toBytes (s : CmpctStat) : List UInt8 :=
  [s.stSize,s.stBlocks,s.stDev,s.stIno,s.mtimTvSec,s.mtimTvNsec,s.ctimTvSec,s.ctimTvNsec].flatMap
    fun v => leBytes 8 v.toNat

def wordAt (blob : List UInt8) (offset : ℕ) : BitVec 64 :=
  BitVec.ofNat 64 (leValue ((blob.drop offset).take 8))

/-- A copy of `sizeof(CmpctStat)` bytes, whatever the length of the blob. -/
def CmpctStat.ofBytes (blob : List UInt8) : CmpctStat where
  stSize := wordAt blob 0
  stBlocks := wordAt blob 8
  stDev := wordAt blob 16
  stIno := wordAt blob 24
  mtimTvSec := wordAt blob 32
  mtimTvNsec := wordAt blob 40
  ctimTvSec := wordAt blob 48
  ctimTvNsec := wordAt blob 56

@[simp] theorem toBytes_length (s : CmpctStat) : s.toBytes.length = 64 := by
  simp [CmpctStat.toBytes]

theorem wordAt_append_right (a b : List UInt8) (offset : ℕ) :
    wordAt (a ++ b) (a.length + offset) = wordAt b offset := by
  rw [wordAt,wordAt,List.drop_append,List.drop_eq_nil_of_le (Nat.le_add_right _ _)]
  simp

theorem wordAt_leBytes (v : BitVec 64) (rest : List UInt8) :
    wordAt (leBytes 8 v.toNat ++ rest) 0 = v := by
  have hlt : v.toNat < 256 ^ 8 := v.isLt
  rw [wordAt,List.drop_zero,List.take_left' (leBytes_length 8 _),leValue_leBytes_of_lt hlt]
  simp

theorem wordAt_leBytes_self (v : BitVec 64) : wordAt (leBytes 8 v.toNat) 0 = v := by
  simpa using wordAt_leBytes v []

theorem wordAt_leBytes_add (v : BitVec 64) (rest : List UInt8) (offset : ℕ) :
    wordAt (leBytes 8 v.toNat ++ rest) (offset + 8) = wordAt rest offset := by
  rw [Nat.add_comm]
  simpa using wordAt_append_right (leBytes 8 v.toNat) rest offset

@[simp] theorem ofBytes_toBytes (s : CmpctStat) : CmpctStat.ofBytes s.toBytes = s := by
  cases s
  simp [CmpctStat.ofBytes,CmpctStat.toBytes,List.flatMap_cons,wordAt_leBytes,wordAt_leBytes_add,
    wordAt_leBytes_self]

end Precizer.Database
