import Precizer.Libmem.StringSources

/-! # Exact resizing

A resize gives exactly the requested number of elements and keeps what fits into them, or it is
refused for want of address space or memory and leaves the descriptor as it was.
-/
namespace Precizer.Guarantees
open General Libmem

/-- The outcomes of a resize: the exact result, or a refusal that leaves the descriptor alone. A
size or a rounding that overflows is always refused, and so is a block the allocator does not give. -/
structure AtomicResize (allocator : Allocator) (newCount : ℕ) (flags : ResizeModes) (s : State) (answer : Answer) :
    Prop where
  exact : answer.succeeded = true → ExactResize s.memory newCount flags answer.state.memory
  refused : answer.succeeded = false → answer.state.memory = s.memory ∧ ResizeRefusal allocator newCount flags s
  overflow : sizeMax < s.memory.singleElementSize * newCount ∨
    roundUpToBlockSize (s.memory.singleElementSize * newCount) = none → answer.succeeded = false
  exhausted : ∀ slabBytes, newCount ≠ 0 → newCount ≠ s.memory.length →
    roundUpToBlockSize (s.memory.singleElementSize * newCount) = some slabBytes →
    (s.memory.data = none ∨ s.memory.actuallyAllocatedBytes < slabBytes ∨
      flags.releaseUnused = true ∧ slabBytes < s.memory.actuallyAllocatedBytes) →
    s.heap.serve allocator (s.heap.liveBytes - s.memory.block.length) slabBytes = none → answer.succeeded = false

/-- A resize is exact, or refused without a change. -/
theorem memResize_atomic (allocator : Allocator) (newCount : ℕ) (flags : ResizeModes) (s : State)
    (h : Sound s.memory) (hterminated : Terminated s.memory) :
    AtomicResize allocator newCount flags s (memResize allocator newCount flags s) :=
  ⟨memResize_exact h hterminated,memResize_refused h,memResize_overflow h,fun _ => memResize_exhausted h⟩

/-- The string `ABC` is shortened, with an allocator that answers no more. -/
theorem memResize_atomic_again :
    (writtenString 1 [65,66,67,0]).memory.visibleString = [65,66,67] ∧
      AtomicResize (fun _ _ => none) 3 ⟨true,true⟩ (writtenString 1 [65,66,67,0])
        (memResize (fun _ _ => none) 3 ⟨true,true⟩ (writtenString 1 [65,66,67,0])) :=
  ⟨by decide +kernel,memResize_atomic _ _ _ _ (writtenString_keeps (by decide)).1 (writtenString_keeps (by decide)).2⟩

end Precizer.Guarantees
