import Precizer.Libmem.StringCore

/-! # Byte transfer

`mem_core_buffer` appends exact bytes to a data descriptor or replaces its payload by them;
`mem_core_data` takes them from another descriptor or from the destination itself.
-/
namespace Precizer.Libmem
open General

/-- The bytes are moved in once the descriptor has its new length. -/
def transferBuffer (allocator : Allocator) (source : Source) (inside : Option ℕ)
    (offsetBytes sizeBytes newTotalElements : ℕ) (s : State) : Answer :=
  ((memResize allocator newTotalElements .plain s).run fun resized =>
    resized.alter (moveBytes offsetBytes (movedBytes source inside sizeBytes s.memory resized.memory))).run fun s =>
      { s with memory := { s.memory with stringLength := 0, isString := false } }.succeed

def memCoreBuffer (allocator : Allocator) (transfer : TransferMode) (sizeBytes : ℕ) (source : Source) (s : State) :
    Answer :=
  let m := s.memory
  if 0 < m.length ∧ m.data = none then s.fail
  else if m.isString = true then s.fail
  else if m.singleElementSize = 0 then s.fail
  else if source = .null ∧ 0 < sizeBytes then s.fail
  else if source = .null ∨ sizeBytes = 0 then
    if transfer = .append then s.succeed else memResize allocator 0 .plain s
  else if sizeBytes % m.singleElementSize ≠ 0 then s.fail
  else
    let transferElements := sizeBytes / m.singleElementSize
    match (if transfer = .append then memGuardedAdd m.length transferElements else some transferElements) with
    | none => s.fail
    | some newTotalElements =>
      match (if transfer = .append then memGuardedByteSize m m.length else some 0) with
      | none => s.fail
      | some offsetBytes =>
        match memGuardedByteSize m m.length with
        | none => s.fail
        | some destinationBytes =>
          match source.offsetWithin m with
          | some offset =>
            if destinationBytes < offset ∨ destinationBytes - offset < sizeBytes then s.fail
            else transferBuffer allocator source (some offset) offsetBytes sizeBytes newTotalElements s
          | none => transferBuffer allocator source none offsetBytes sizeBytes newTotalElements s

/-- Where the bytes of another descriptor, or of the destination itself, start. -/
def descriptorSource (source : Option Memory) (m : Memory) : Source :=
  match source with
  | none => if m.data = none then .null else .inside 0
  | some other =>
    match other.data with
    | none => .null
    | some block => .outside block

/-- Without another descriptor the source is the destination. -/
def memCoreData (allocator : Allocator) (transfer : TransferMode) (source : Option Memory) (s : State) : Answer :=
  let m := s.memory
  let other := source.getD m
  if 0 < m.length ∧ m.data = none then s.fail
  else if 0 < other.length ∧ other.data = none then s.fail
  else if m.isString = true then s.fail
  else if other.isString = true then s.fail
  else if m.singleElementSize = 0 then s.fail
  else if other.singleElementSize = 0 then s.fail
  else
    match memGuardedByteSize other other.length with
    | none => s.fail
    | some sourceBytes =>
      if sourceBytes % m.singleElementSize ≠ 0 then s.fail
      else memCoreBuffer allocator transfer sourceBytes (descriptorSource source m) s

end Precizer.Libmem
