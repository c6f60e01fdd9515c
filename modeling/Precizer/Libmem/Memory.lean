import Mathlib.Data.UInt
import Precizer.General.Elements

/-! # Memory descriptors

A descriptor owns one block and says how many elements of it are in use. In string mode the
visible string ends at a zero element. What is in the block behind the elements in use is left
from earlier contents.
-/
namespace Precizer.Libmem
open General

def sizeMax : ℕ := 2 ^ 64 - 1

/-- `MEMORY_BLOCK_BYTES` -/
def memoryBlockBytes : ℕ := 4096

structure Memory where
  singleElementSize : ℕ
  actuallyAllocatedBytes : ℕ
  length : ℕ
  stringLength : ℕ
  isString : Bool
  data : Option (List UInt8)
  deriving DecidableEq

namespace Memory
variable (m : Memory)

def block : List UInt8 := m.data.getD []

/-- The bytes of the elements in use. -/
def payload : List UInt8 := m.block.take (m.singleElementSize * m.length)

def visibleString : List UInt8 := m.block.take (m.singleElementSize * m.stringLength)

def written (offset : ℕ) (bytes : List UInt8) : Memory :=
  { m with data := m.data.map fun block => overwrite block offset bytes }

def zeroAt (index : ℕ) : Memory := m.written (m.singleElementSize * index) (zeroElement UInt8 m.singleElementSize)

end Memory

/-- `mem_init` -/
def memInit (singleElementSize : ℕ) (isString : Bool) : Memory := ⟨singleElementSize,0,0,0,isString,none⟩

def memGuardedByteSize (m : Memory) (elementCount : ℕ) : Option ℕ :=
  if m.singleElementSize = 0 then none
  else if sizeMax / m.singleElementSize < elementCount then none
  else some (m.singleElementSize * elementCount)

/-- The source tests `left > SIZE_MAX - right`, which does not wrap. -/
def memGuardedAdd (left right : ℕ) : Option ℕ := if sizeMax < left + right then none else some (left + right)

def memIsZeroElement (elementView : List UInt8) (singleElementSize : ℕ) : Bool :=
  singleElementSize ≠ 0 ∧ elementView.take singleElementSize = zeroElement UInt8 singleElementSize

/-- The scanning loop over elements wider than a byte; a limit allows as many turns as it holds
whole elements. -/
def measureElements (singleElementSize : ℕ) : ℕ → List UInt8 → ℕ
  | 0,_ => 0
  | turns + 1,view =>
    if memIsZeroElement view singleElementSize then 0
    else measureElements singleElementSize turns (view.drop singleElementSize) + 1

/-- Without a limit the source has to be terminated, and the scan ends within it. -/
def memStringMeasureLength (source : List UInt8) (limit : Option ℕ) (singleElementSize : ℕ) : Option ℕ :=
  if singleElementSize = 0 then none
  else if singleElementSize = 1 then
    match limit with
    | some limit => some (((source.take limit).findIdx? (· = 0)).getD limit)
    | none => some (source.findIdx (· = 0))
  else
    match limit with
    | some limit => some (measureElements singleElementSize (limit / singleElementSize) source)
    | none => some (measureElements singleElementSize (source.length / singleElementSize) source)

def memFindZeroTerminator (m : Memory) : Option ℕ :=
  if m.singleElementSize = 0 then none
  else if 0 < m.length ∧ m.data = none then none
  else if m.length = 0 then some 0
  else (memGuardedByteSize m m.length).bind fun bytes => memStringMeasureLength m.block (some bytes) m.singleElementSize

def memStringLength (m : Memory) : Option ℕ :=
  if 0 < m.length ∧ m.data = none then none
  else if m.singleElementSize = 0 then none
  else if m.isString then some m.stringLength
  else memFindZeroTerminator m

/-- The block of a descriptor with elements of the expected size; `NULL` is `none`. -/
def memDataWritable (m : Memory) (expectedSingleElementSize : ℕ) : Option (List UInt8) :=
  if m.singleElementSize = 0 then none
  else if m.data = none ∧ 0 < m.actuallyAllocatedBytes then none
  else if 0 < m.length ∧ m.data = none then none
  else
    match memGuardedByteSize m m.length with
    | none => none
    | some payloadBytes =>
      if 0 < m.length ∧ m.actuallyAllocatedBytes < payloadBytes then none
      else if m.singleElementSize ≠ expectedSingleElementSize then none
      else m.data

def memWriteZeroTerminator (m : Memory) (terminatorIndex : ℕ) : Option Memory :=
  if m.singleElementSize = 0 then none
  else if m.data = none then none
  else
    match memGuardedByteSize m terminatorIndex with
    | none => none
    | some offset =>
      match memGuardedAdd offset m.singleElementSize with
      | none => none
      | some required =>
        if m.actuallyAllocatedBytes < required then none
        else some (m.written offset (zeroElement UInt8 m.singleElementSize))

def memStringTruncate (m : Memory) (newVisibleLength : ℕ) : Option Memory :=
  if m.singleElementSize = 0 then none
  else if 0 < m.length ∧ m.data = none then none
  else if 0 < m.actuallyAllocatedBytes ∧ m.data = none then none
  else if m.isString = false then none
  else if m.length = 0 then some m
  else
    match memGuardedByteSize m m.length with
    | none => none
    | some payloadBytes =>
      if m.actuallyAllocatedBytes < payloadBytes then none
      else if m.length ≤ m.stringLength then none
      else if m.stringLength < newVisibleLength then some m
      else if newVisibleLength = m.stringLength ∧
          memIsZeroElement (m.block.drop (m.singleElementSize * m.stringLength)) m.singleElementSize then some m
      else (memWriteZeroTerminator m newVisibleLength).map fun m => { m with stringLength := newVisibleLength }

inductive TerminatorWriteMode | writeTerminatorIfMissing | writeTerminatorAlways | unknown
  deriving DecidableEq

def memFinalizeString (m : Memory) (writtenLength : ℕ) (flags : TerminatorWriteMode) : Option Memory :=
  if m.singleElementSize = 0 then none
  else if 0 < m.length ∧ m.data = none then none
  else if 0 < m.actuallyAllocatedBytes ∧ m.data = none then none
  else if m.isString = false then none
  else if flags = .unknown then none
  else if m.length = 0 then none
  else if m.length ≤ writtenLength then none
  else
    match memGuardedByteSize m writtenLength with
    | none => none
    | some offset =>
      match memGuardedAdd offset m.singleElementSize with
      | none => none
      | some required =>
        if m.actuallyAllocatedBytes < required then none
        else if flags = .writeTerminatorIfMissing ∧ memIsZeroElement (m.block.drop offset) m.singleElementSize then
          some { m with stringLength := writtenLength }
        else (memWriteZeroTerminator m writtenLength).map fun m => { m with stringLength := writtenLength }

end Precizer.Libmem
