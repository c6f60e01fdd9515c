import Precizer.Database.FilesTable

/-! # Older layouts of the stored metadata

Version 0 stored the whole `struct stat` of one platform, versions 1 to 3 a structure of
five fields, version 4 the present one. A migration reads the old layout out of a blob
of any length; what it cannot read it replaces by zeros.
-/
namespace Precizer.Database
open General

/-- The compact layout of versions 1 to 3. -/
structure CmpctStatV1 where
  stSize : BitVec 64
  mtimTvSec : BitVec 64
  mtimTvNsec : BitVec 64
  ctimTvSec : BitVec 64
  ctimTvNsec : BitVec 64
  deriving DecidableEq

namespace CmpctStatV1

def zero : CmpctStatV1 := ⟨0,0,0,0,0⟩

def toBytes (s : CmpctStatV1) : List UInt8 :=
  [s.stSize,s.mtimTvSec,s.mtimTvNsec,s.ctimTvSec,s.ctimTvNsec].flatMap fun v => leBytes 8 v.toNat

def ofBytes (blob : List UInt8) : CmpctStatV1 where
  stSize := wordAt blob 0
  mtimTvSec := wordAt blob 8
  mtimTvNsec := wordAt blob 16
  ctimTvSec := wordAt blob 24
  ctimTvNsec := wordAt blob 32

@[simp] theorem toBytes_length (s : CmpctStatV1) : s.toBytes.length = 40 := by
  simp [toBytes]

@[simp] theorem ofBytes_toBytes (s : CmpctStatV1) : ofBytes s.toBytes = s := by
  cases s
  simp [ofBytes,toBytes,List.flatMap_cons,wordAt_leBytes,wordAt_leBytes_add,wordAt_leBytes_self]

end CmpctStatV1

def nsecIsSane (nsec : BitVec 64) : Bool := 0 ≤ nsec.toInt ∧ nsec.toInt ≤ 999999999

/-- The upper bound is the year 3000. -/
def secIsSane (sec : BitVec 64) : Bool := 0 ≤ sec.toInt ∧ sec.toInt ≤ 32503680000

def cmpctStatIsSane (stat : CmpctStatV1) : Bool :=
  nsecIsSane stat.mtimTvNsec && nsecIsSane stat.ctimTvNsec && secIsSane stat.mtimTvSec &&
    secIsSane stat.ctimTvSec

def stat64Size : ℕ := 144

/-- The five fields at their offsets in the platform's `struct stat`, when they look sane. -/
def populateFromGlibcStatBlob (blob : List UInt8) : Option CmpctStatV1 :=
  if blob.length < stat64Size then none
  else
    let newStat : CmpctStatV1 := ⟨wordAt blob 48,wordAt blob 88,wordAt blob 96,wordAt blob 104,wordAt blob 112⟩
    if cmpctStatIsSane newStat then some newStat else none

/-- What the migration to version 1 stores; a `NULL` blob is an invalid one. -/
def statToVersion1 (stat : Option (List UInt8)) : CmpctStatV1 :=
  match stat with
  | none => CmpctStatV1.zero
  | some blob => (populateFromGlibcStatBlob blob).getD CmpctStatV1.zero

def convertBlobToV4Stat (source : CmpctStatV1) : CmpctStat where
  stSize := source.stSize
  stBlocks := blkcntUnknown
  stDev := 0
  stIno := 0
  mtimTvSec := source.mtimTvSec
  mtimTvNsec := source.mtimTvNsec
  ctimTvSec := source.ctimTvSec
  ctimTvNsec := source.ctimTvNsec

/-- What the migration to version 4 reads: a blob of exactly the older size. -/
def statToVersion4 (stat : Option (List UInt8)) : CmpctStat :=
  match stat with
  | none => convertBlobToV4Stat CmpctStatV1.zero
  | some blob =>
    if blob.length = 40 then convertBlobToV4Stat (CmpctStatV1.ofBytes blob)
    else convertBlobToV4Stat CmpctStatV1.zero

/-- The structure a row ends with when its old metadata is given up. -/
def unknownStat : CmpctStat := convertBlobToV4Stat CmpctStatV1.zero

theorem statToVersion1_short {blob : List UInt8} (h : blob.length < 144) :
    statToVersion1 (some blob) = CmpctStatV1.zero := by
  simp [statToVersion1,populateFromGlibcStatBlob,stat64Size,h]

theorem statToVersion1_again (s : CmpctStatV1) : statToVersion1 (some s.toBytes) = CmpctStatV1.zero :=
  statToVersion1_short (by simp)

theorem statToVersion4_of_version1 (s : CmpctStatV1) :
    statToVersion4 (some s.toBytes) = convertBlobToV4Stat s := by
  simp [statToVersion4]

theorem statToVersion4_again (s : CmpctStat) : statToVersion4 (some s.toBytes) = unknownStat := by
  simp [statToVersion4,unknownStat]

/-- The 64-bit `struct stat` a database of version 0 stores, word by word. -/
structure Stat64 where
  stDev : BitVec 64
  stIno : BitVec 64
  stNlink : BitVec 64
  stModeUid : BitVec 64
  stGid : BitVec 64
  stRdev : BitVec 64
  stSize : BitVec 64
  stBlksize : BitVec 64
  stBlocks : BitVec 64
  stAtim : Timespec
  stMtim : Timespec
  stCtim : Timespec
  reserved₀ : BitVec 64
  reserved₁ : BitVec 64
  reserved₂ : BitVec 64

namespace Stat64

def toBytes (s : Stat64) : List UInt8 :=
  [s.stDev,s.stIno,s.stNlink,s.stModeUid,s.stGid,s.stRdev,s.stSize,s.stBlksize,s.stBlocks,s.stAtim.tvSec,
    s.stAtim.tvNsec,s.stMtim.tvSec,s.stMtim.tvNsec,s.stCtim.tvSec,s.stCtim.tvNsec,s.reserved₀,s.reserved₁,
    s.reserved₂].flatMap fun v => leBytes 8 v.toNat

/-- The fields the later layouts keep. -/
def compact (s : Stat64) : CmpctStatV1 := ⟨s.stSize,s.stMtim.tvSec,s.stMtim.tvNsec,s.stCtim.tvSec,s.stCtim.tvNsec⟩

theorem toBytes_length (s : Stat64) : s.toBytes.length = stat64Size := by
  simp [toBytes,stat64Size]

/-- The offsets of the decoder are those of the fields. -/
theorem populate_toBytes {s : Stat64} (hsane : cmpctStatIsSane s.compact = true) (more : List UInt8) :
    populateFromGlibcStatBlob (s.toBytes ++ more) = some s.compact := by
  have hlong : ¬ (s.toBytes ++ more).length < stat64Size := by
    simp [toBytes_length]
  have hfields : (⟨wordAt (s.toBytes ++ more) 48,wordAt (s.toBytes ++ more) 88,wordAt (s.toBytes ++ more) 96,
      wordAt (s.toBytes ++ more) 104,wordAt (s.toBytes ++ more) 112⟩ : CmpctStatV1) = s.compact := by
    simp [toBytes,compact,List.flatMap_cons,wordAt_leBytes,wordAt_leBytes_add]
  rw [populateFromGlibcStatBlob,if_neg hlong]
  dsimp only
  rw [hfields,if_pos hsane]

end Stat64

/-- A valid blob of an older version with the metadata it holds: a sane `struct stat` in version
0, the compact structure in the versions 1 to 3. -/
def OldMetadata (version : ℤ) (blob : List UInt8) (old : CmpctStatV1) : Prop :=
  if version < 1 then
    ∃ (s : Stat64) (more : List UInt8), blob = s.toBytes ++ more ∧ old = s.compact ∧ cmpctStatIsSane old = true
  else blob = old.toBytes

end Precizer.Database
