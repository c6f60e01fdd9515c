import Precizer.Libmem.Memory

/-! # Telemetry and the heap

Every operation works on one descriptor and on what all descriptors share: the byte counters
and the heap. The allocator may answer each request as it likes, within the address space.
-/
namespace Precizer.Libmem

/-- The byte counters and the number of active descriptors. The last field is not a counter of
the source: it records that some decrement took more than its counter held. -/
structure Telemetry where
  currentHeapReservedBytes : ℕ
  totalHeapReservedBytesAcquired : ℕ
  totalHeapReservedBytesReleased : ℕ
  totalReleaseUnusedHeapReservedBytesReleased : ℕ
  currentPayloadBytes : ℕ
  totalPayloadBytesAdded : ℕ
  currentBlockOverheadBytes : ℕ
  totalBlockOverheadBytesAdded : ℕ
  currentActiveDescriptors : ℕ
  wrapped : Bool
  deriving DecidableEq

def Telemetry.start : Telemetry := ⟨0,0,0,0,0,0,0,0,0,false⟩

/-- `__atomic_add_fetch` on a `size_t`. -/
def addFetch (counter amount : ℕ) : ℕ := (counter + amount) % 2 ^ 64

/-- `__atomic_sub_fetch` on a `size_t`. -/
def subFetch (counter amount : ℕ) : ℕ := (counter + (2 ^ 64 - amount % 2 ^ 64)) % 2 ^ 64

namespace Telemetry
variable (t : Telemetry) (amount : ℕ)

def heapReservedBytesAcquired : Telemetry :=
  { t with
    currentHeapReservedBytes := addFetch t.currentHeapReservedBytes amount
    totalHeapReservedBytesAcquired := addFetch t.totalHeapReservedBytesAcquired amount }

def currentHeapReservedBytesReleased : Telemetry :=
  { t with
    currentHeapReservedBytes := subFetch t.currentHeapReservedBytes amount
    wrapped := t.wrapped || decide (t.currentHeapReservedBytes < amount) }

def totalHeapReservedBytesReleasedAdded : Telemetry :=
  { t with totalHeapReservedBytesReleased := addFetch t.totalHeapReservedBytesReleased amount }

def releaseUnusedBytesReleased : Telemetry :=
  { t with
    totalReleaseUnusedHeapReservedBytesReleased := addFetch t.totalReleaseUnusedHeapReservedBytesReleased amount }

def payloadBytesAdded : Telemetry :=
  { t with
    totalPayloadBytesAdded := addFetch t.totalPayloadBytesAdded amount
    currentPayloadBytes := addFetch t.currentPayloadBytes amount }

def currentPayloadBytesRemoved : Telemetry :=
  { t with
    currentPayloadBytes := subFetch t.currentPayloadBytes amount
    wrapped := t.wrapped || decide (t.currentPayloadBytes < amount) }

def blockOverheadBytesAdded : Telemetry :=
  if amount = 0 then t
  else { t with
    currentBlockOverheadBytes := addFetch t.currentBlockOverheadBytes amount
    totalBlockOverheadBytesAdded := addFetch t.totalBlockOverheadBytesAdded amount }

def currentBlockOverheadBytesRemoved : Telemetry :=
  if amount = 0 then t
  else { t with
    currentBlockOverheadBytes := subFetch t.currentBlockOverheadBytes amount
    wrapped := t.wrapped || decide (t.currentBlockOverheadBytes < amount) }

def activeDescriptorsAcquired : Telemetry :=
  { t with currentActiveDescriptors := addFetch t.currentActiveDescriptors 1 }

def activeDescriptorsReleased : Telemetry :=
  { t with
    currentActiveDescriptors := subFetch t.currentActiveDescriptors 1
    wrapped := t.wrapped || decide (t.currentActiveDescriptors < 1) }

end Telemetry

/-- The requests made so far, the live bytes, the blocks handed out and those given back. -/
structure Heap where
  calls : ℕ
  liveBytes : ℕ
  allocations : ℕ
  released : List (List UInt8)
  deriving DecidableEq

def Heap.start : Heap := ⟨0,0,0,[]⟩

/-- The answer to a request by its number and size: nothing, or what the new bytes contain. -/
abbrev Allocator := ℕ → ℕ → Option (ℕ → UInt8)

namespace Heap
variable (heap : Heap)

/-- An allocator cannot serve more than the address space holds. -/
def serve (allocator : Allocator) (kept bytes : ℕ) : Option (ℕ → UInt8) :=
  if kept + bytes ≤ sizeMax then allocator heap.calls bytes else none

def malloc (allocator : Allocator) (bytes : ℕ) : Option (List UInt8) × Heap :=
  match heap.serve allocator heap.liveBytes bytes with
  | none => (none,{ heap with calls := heap.calls + 1 })
  | some fill => (some ((List.range bytes).map fill),
      { heap with
        calls := heap.calls + 1
        liveBytes := heap.liveBytes + bytes
        allocations := heap.allocations + 1 })

def realloc (allocator : Allocator) (block : List UInt8) (bytes : ℕ) : Option (List UInt8) × Heap :=
  match heap.serve allocator (heap.liveBytes - block.length) bytes with
  | none => (none,{ heap with calls := heap.calls + 1 })
  | some fill => (some (block.take bytes ++ (List.range (bytes - block.length)).map fill),
      { heap with
        calls := heap.calls + 1
        liveBytes := heap.liveBytes + bytes - block.length })

def free (block : List UInt8) : Heap :=
  { heap with
    liveBytes := heap.liveBytes - block.length
    released := heap.released ++ [block] }

end Heap

/-- A descriptor and what all descriptors share. -/
structure State where
  memory : Memory
  telemetry : Telemetry
  heap : Heap
  deriving DecidableEq

/-- What an operation leaves, and whether it returned `SUCCESS`. -/
structure Answer where
  succeeded : Bool
  state : State
  deriving DecidableEq

namespace State
variable (s : State)

def succeed : Answer := ⟨true,s⟩
def fail : Answer := ⟨false,s⟩

/-- A step that reads and writes the descriptor only. -/
def alter (change : Memory → Option Memory) : Answer :=
  match change s.memory with
  | none => s.fail
  | some memory => { s with memory := memory }.succeed

end State

/-- `run(...)`: the next step, if nothing has failed. -/
def Answer.run (answer : Answer) (next : State → Answer) : Answer :=
  if answer.succeeded then next answer.state else answer

theorem Answer.run_succeeded {answer : Answer} (h : answer.succeeded = true) (next : State → Answer) :
    answer.run next = next answer.state := by
  rw [Answer.run,if_pos h]

theorem Answer.run_failed {answer : Answer} (h : answer.succeeded = false) (next : State → Answer) :
    answer.run next = answer.state.fail := by
  cases answer
  subst h
  rfl

end Precizer.Libmem
