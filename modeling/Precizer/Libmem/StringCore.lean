import Precizer.Libmem.ResizeEffect

/-! # String transfer

`mem_core_string` appends a source to a string or replaces the string by it. The source is
measured in one of three ways, and may lie in the block of the destination itself.
-/
namespace Precizer.Libmem
open General

inductive SourceMode | bounded | unbounded | fixed
  deriving DecidableEq

inductive TransferMode | append | replace
  deriving DecidableEq

/-- Where a source starts: nowhere, at bytes outside the destination, or at an offset of its block. -/
inductive Source
  | null
  | outside (bytes : List UInt8)
  | inside (offset : ℕ)
  deriving DecidableEq

/-- The offset of a source that starts within the reserved bytes of the destination. -/
def Source.offsetWithin (source : Source) (m : Memory) : Option ℕ :=
  match source with
  | .inside offset => if m.data ≠ none ∧ offset < m.actuallyAllocatedBytes then some offset else none
  | _ => none

def Source.bytesFrom (source : Source) (m : Memory) : List UInt8 :=
  match source with
  | .null => []
  | .outside bytes => bytes
  | .inside offset => m.block.drop offset

/-- The bytes to be moved: those of the source, found again if the block has moved. -/
def movedBytes (source : Source) (inside : Option ℕ) (sourceBytes : ℕ) (m resized : Memory) : List UInt8 :=
  (match inside with
    | some offset => resized.block.drop offset
    | none => source.bytesFrom m).take sourceBytes

/-- The checks on a source inside the destination; they answer with the number of visible elements
behind its start. -/
def remainingVisibleElements (m : Memory) (mode : SourceMode) (rangeBytes destinationBytes offset : ℕ) : Option ℕ :=
  if offset % m.singleElementSize ≠ 0 then none
  else
    let outOfBounds : Bool :=
      match mode with
      | .unbounded => destinationBytes ≤ offset
      | .bounded => destinationBytes < offset
      | .fixed => destinationBytes < offset ∨ destinationBytes - offset < rangeBytes
    if outOfBounds then none
    else if m.stringLength < offset / m.singleElementSize then none
    else some (m.stringLength - offset / m.singleElementSize)

/-- The number of visible elements of a source that is not empty from the start. -/
def measureSource (m : Memory) (mode : SourceMode) (rangeBytes : ℕ) (source : Source) : Option ℕ :=
  match memGuardedByteSize m m.length with
  | none => none
  | some destinationBytes =>
    match source.offsetWithin m with
    | some offset =>
      match remainingVisibleElements m mode rangeBytes destinationBytes offset with
      | none => none
      | some remaining =>
        match mode with
        | .bounded => some (min (rangeBytes / m.singleElementSize) remaining)
        | .unbounded => some remaining
        | .fixed => some (rangeBytes / m.singleElementSize - 1)
    | none =>
      match mode with
      | .bounded => memStringMeasureLength (source.bytesFrom m) (some rangeBytes) m.singleElementSize
      | .unbounded => memStringMeasureLength (source.bytesFrom m) none m.singleElementSize
      | .fixed => some (rangeBytes / m.singleElementSize - 1)

/-- `memmove`, if there is a block to move to. -/
def moveBytes (offsetBytes : ℕ) (bytes : List UInt8) (m : Memory) : Option Memory :=
  if m.data = none then none else some (m.written offsetBytes bytes)

/-- The string ends at an index from now on. -/
def terminateString (visibleLength : ℕ) (m : Memory) : Option Memory :=
  (memWriteZeroTerminator m visibleLength).map fun m => { m with stringLength := visibleLength }

/-- The bytes are put in place, with a terminator behind them. -/
def placeString (offsetBytes visibleLength : ℕ) (bytes : List UInt8) (s : State) : Answer :=
  (s.alter (moveBytes offsetBytes bytes)).run fun s => s.alter (terminateString visibleLength)

/-- A source inside the destination is moved to the front before the block shrinks around it. -/
def replaceInside (allocator : Allocator) (offset sourceBytes sourceLength newTotalElements : ℕ) (s : State) : Answer :=
  (placeString 0 sourceLength ((s.memory.block.drop offset).take sourceBytes) s).run
    (memResize allocator newTotalElements .plain)

/-- The block is resized first; a source inside the destination has moved with it. -/
def transferResized (allocator : Allocator) (source : Source) (inside : Option ℕ)
    (offsetBytes sourceBytes visibleLength newTotalElements : ℕ) (s : State) : Answer :=
  (memResize allocator newTotalElements .plain s).run fun resized =>
    placeString offsetBytes visibleLength (movedBytes source inside sourceBytes s.memory resized.memory) resized

def transferMeasured (allocator : Allocator) (transfer : TransferMode) (source : Source) (inside : Option ℕ)
    (sourceLength : ℕ) (s : State) : Answer :=
  let m := s.memory
  if transfer = .append ∧ sourceLength = 0 then s.succeed
  else
    let destinationLength := if transfer = .append then memStringLength m else some 0
    match destinationLength with
    | none => s.fail
    | some destinationLength =>
      match (if transfer = .append then memGuardedAdd destinationLength sourceLength else some sourceLength) with
      | none => s.fail
      | some visibleLength =>
        match memGuardedAdd visibleLength 1 with
        | none => s.fail
        | some newTotalElements =>
          match (if transfer = .append then memGuardedByteSize m destinationLength else some 0) with
          | none => s.fail
          | some offsetBytes =>
            match memGuardedByteSize m sourceLength with
            | none => s.fail
            | some sourceBytes =>
              match transfer,inside with
              | .replace,some offset => replaceInside allocator offset sourceBytes sourceLength newTotalElements s
              | _,_ => transferResized allocator source inside offsetBytes sourceBytes visibleLength newTotalElements s

def memCoreString (allocator : Allocator) (mode : SourceMode) (transfer : TransferMode) (rangeBytes : ℕ)
    (source : Source) (s : State) : Answer :=
  let m := s.memory
  if 0 < m.length ∧ m.data = none then s.fail
  else if m.singleElementSize = 0 then s.fail
  else if m.isString = false then s.fail
  else if source = .null ∧ transfer = .append then s.succeed
  else if source ≠ .null ∧ mode ≠ .unbounded ∧ rangeBytes % m.singleElementSize ≠ 0 then s.fail
  else if mode ≠ .unbounded ∧ rangeBytes = 0 ∧ transfer = .append then s.succeed
  else if source = .null ∨ mode ≠ .unbounded ∧ rangeBytes = 0 then
    transferMeasured allocator transfer source none 0 s
  else
    match measureSource m mode rangeBytes source with
    | none => s.fail
    | some sourceLength => transferMeasured allocator transfer source (source.offsetWithin m) sourceLength s

end Precizer.Libmem
