import Precizer.Libmem.Telemetry
import Precizer.Libmem.MemoryRules

/-! # Resizing

`mem_resize` grows, shrinks, clears and releases descriptors in both modes, and keeps the
counters in step by the differences it makes.
-/
namespace Precizer.Libmem
open General

/-- `ZERO_NEW_MEMORY` and `RELEASE_UNUSED` -/
structure ResizeModes where
  zeroNewMemory : Bool
  releaseUnused : Bool
  deriving DecidableEq

/-- `m_resize` without flags. -/
def ResizeModes.plain : ResizeModes := ⟨false,false⟩

/-- The descriptor without its block. -/
def Memory.emptied (m : Memory) : Memory :=
  { m with actuallyAllocatedBytes := 0, length := 0, stringLength := 0, data := none }

def memDelete (s : State) : Answer :=
  let m := s.memory
  if 0 < m.length ∧ m.data = none then s.fail
  else
    let bytes := memGuardedByteSize m m.length
    let payloadBytes := bytes.getD 0
    let overhead := m.actuallyAllocatedBytes - payloadBytes
    let telemetry :=
      if m.data = none then s.telemetry
      else
        (if 0 < m.actuallyAllocatedBytes then
          (s.telemetry.currentHeapReservedBytesReleased m.actuallyAllocatedBytes).totalHeapReservedBytesReleasedAdded
            m.actuallyAllocatedBytes
        else s.telemetry).activeDescriptorsReleased
    let telemetry := if 0 < payloadBytes then telemetry.currentPayloadBytesRemoved payloadBytes else telemetry
    let telemetry := telemetry.currentBlockOverheadBytesRemoved overhead
    let heap :=
      match m.data with
      | none => s.heap
      | some block => s.heap.free block
    ⟨bytes.isSome,m.emptied,telemetry,heap⟩

def roundUpToBlockSize (requestedBytes : ℕ) : Option ℕ :=
  if requestedBytes = 0 then some 0
  else if requestedBytes % memoryBlockBytes = 0 then some requestedBytes
  else
    let padding := memoryBlockBytes - requestedBytes % memoryBlockBytes
    if sizeMax - padding < requestedBytes then none else some (requestedBytes + padding)

/-- The checks on the descriptor; they answer with its payload in bytes. -/
def resizeAccepts (m : Memory) : Option ℕ :=
  if m.singleElementSize = 0 then none
  else if 0 < m.length ∧ m.data = none then none
  else if m.isString = false ∧ m.stringLength ≠ 0 then none
  else
    match memGuardedByteSize m m.length with
    | none => none
    | some payloadBytes =>
      if 0 < m.actuallyAllocatedBytes ∧ m.data = none then none
      else if 0 < m.length ∧ m.actuallyAllocatedBytes < payloadBytes then none
      else if m.isString = true ∧ 0 < m.length ∧ m.length ≤ m.stringLength then none
      else if m.isString = true ∧ m.length = 0 ∧ m.stringLength ≠ 0 then none
      else some payloadBytes

def resizeToNothing (payloadBytes : ℕ) (flags : ResizeModes) (s : State) : Answer :=
  let m := s.memory
  if flags.releaseUnused = true ∧ 0 < m.actuallyAllocatedBytes then
    memDelete { s with telemetry := s.telemetry.releaseUnusedBytesReleased m.actuallyAllocatedBytes }
  else
    let telemetry :=
      if 0 < payloadBytes then
        (s.telemetry.currentPayloadBytesRemoved payloadBytes).blockOverheadBytesAdded payloadBytes
      else s.telemetry
    let cleared : State := { s with memory := { m with length := 0, stringLength := 0 }, telemetry := telemetry }
    if m.isString = true ∧ m.data ≠ none ∧ m.singleElementSize ≤ m.actuallyAllocatedBytes then
      cleared.alter (memWriteZeroTerminator · 0)
    else cleared.succeed

def Telemetry.reserveChanged (t : Telemetry) (m : Memory) (slabBytes : ℕ) : Telemetry :=
  if m.data = none then t.activeDescriptorsAcquired.heapReservedBytesAcquired slabBytes
  else if m.actuallyAllocatedBytes < slabBytes then t.heapReservedBytesAcquired (slabBytes - m.actuallyAllocatedBytes)
  else if slabBytes < m.actuallyAllocatedBytes then
    let reclaimed := m.actuallyAllocatedBytes - slabBytes
    ((t.releaseUnusedBytesReleased reclaimed).currentHeapReservedBytesReleased
      reclaimed).totalHeapReservedBytesReleasedAdded reclaimed
  else t

def Telemetry.payloadChanged (t : Telemetry) (previous total : ℕ) : Telemetry :=
  if previous < total then t.payloadBytesAdded (total - previous)
  else if total < previous then t.currentPayloadBytesRemoved (previous - total)
  else t

def Telemetry.overheadChanged (t : Telemetry) (previous overhead : ℕ) : Telemetry :=
  if previous < overhead then t.blockOverheadBytesAdded (overhead - previous)
  else if overhead < previous then t.currentBlockOverheadBytesRemoved (previous - overhead)
  else t

/-- A fresh block, or another size of the present one where that is needed or allowed. -/
def resizeReserve (allocator : Allocator) (slabBytes : ℕ) (flags : ResizeModes) (s : State) : Answer :=
  let m := s.memory
  let needsGrowth := m.actuallyAllocatedBytes < slabBytes
  let shouldShrink := flags.releaseUnused = true ∧ slabBytes < m.actuallyAllocatedBytes
  if m.data = none ∨ needsGrowth ∨ shouldShrink then
    let answer :=
      match m.data with
      | none => s.heap.malloc allocator slabBytes
      | some block => s.heap.realloc allocator block slabBytes
    match answer with
    | (none,heap) => { s with heap := heap }.fail
    | (some block,heap) =>
      State.succeed ⟨{ m with data := some block, actuallyAllocatedBytes := slabBytes },
        s.telemetry.reserveChanged m slabBytes,heap⟩
  else s.succeed

/-- The bytes that enter the payload are cleared on request. -/
def zeroNewPayload (previous total : ℕ) (flags : ResizeModes) (m : Memory) : Option Memory :=
  if flags.zeroNewMemory = true ∧ previous < total then
    if m.data = none then none else some (m.written previous (List.replicate (total - previous) 0))
  else some m

/-- The new length; a string is cut to leave room for its terminator. -/
def setLength (previousLength previousStringLength newCount : ℕ) (m : Memory) : Option Memory :=
  if m.isString then
    let resulting := if 0 < previousLength then min previousStringLength (newCount - 1) else 0
    memStringTruncate { m with length := newCount, stringLength := resulting } resulting
  else some { m with length := newCount, stringLength := 0 }

def memResize (allocator : Allocator) (newCount : ℕ) (flags : ResizeModes) (s : State) : Answer :=
  let m := s.memory
  match resizeAccepts m with
  | none => s.fail
  | some previous =>
    if newCount = m.length ∧ (newCount ≠ 0 ∨ flags.releaseUnused = false ∨ m.actuallyAllocatedBytes = 0) then s.succeed
    else
      match memGuardedByteSize m newCount with
      | none => s.fail
      | some total =>
        if newCount = 0 then resizeToNothing previous flags s
        else
          match roundUpToBlockSize total with
          | none => s.fail
          | some slabBytes =>
            (((resizeReserve allocator slabBytes flags s).run fun s => s.alter (zeroNewPayload previous total flags)).run
              fun s => { s with telemetry := s.telemetry.payloadChanged previous total }.alter
                (setLength m.length m.stringLength newCount)).run
              fun s => { s with
                telemetry := s.telemetry.overheadChanged (m.actuallyAllocatedBytes - previous)
                  (s.memory.actuallyAllocatedBytes - total) }.succeed

end Precizer.Libmem
