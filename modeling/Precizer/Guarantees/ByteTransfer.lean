import Precizer.Libmem.BufferRules

/-! # Byte transfer

A transfer of exact bytes has the effect of the list operation on payloads, also when the bytes
are a range of the destination or the payload of a descriptor with other elements.
-/
namespace Precizer.Guarantees
open Libmem

/-- A transfer that succeeds appends or replaces by the bytes, as long as they may be read, and a
transfer that fails leaves the descriptor as it was. -/
structure ByteTransfer (valid : Prop) (transfer : TransferMode) (bytes : List UInt8) (s : State) (answer : Answer) :
    Prop where
  succeeded : valid → answer.succeeded = true → BufferTransferred s.memory transfer bytes answer.state.memory
  failed : answer.succeeded = false → answer.state.memory = s.memory

/-- The source of the first transfer is given by its start and size, that of the second is another
sound descriptor or the destination itself. -/
theorem bytes_transferred (allocator : Allocator) (transfer : TransferMode) (s : State) (h : Sound s.memory) :
    (∀ sizeBytes source, ByteTransfer (ValidBuffer s.memory sizeBytes source) transfer
      ((source.bytesFrom s.memory).take sizeBytes) s (memCoreBuffer allocator transfer sizeBytes source s)) ∧
    ∀ other : Option Memory, ByteTransfer (∀ m, other = some m → Sound m) transfer (other.getD s.memory).payload s
      (memCoreData allocator transfer other s) :=
  ⟨fun _ _ => ⟨memCoreBuffer_succeeded h,memCoreBuffer_failed h⟩,
    fun _ => ⟨memCoreData_succeeded h,memCoreData_failed h⟩⟩

/-- A descriptor of four-byte elements after its first transfer, in a block that was filled with
the byte 7. -/
def writtenBytes (bytes : List UInt8) : State :=
  (memCoreBuffer (fun _ _ => some fun _ => 7) .replace bytes.length (.outside bytes)
    ⟨memInit 4 false,.start,.start⟩).state

theorem sound_writtenBytes (bytes : List UInt8) : Sound (writtenBytes bytes).memory := by
  rw [writtenBytes]
  cases hsucceeded : (memCoreBuffer (fun _ _ => some fun _ => 7) .replace bytes.length (.outside bytes)
      ⟨memInit 4 false,.start,.start⟩).succeeded with
  | false =>
    rw [memCoreBuffer_failed (sound_memInit 4 false) hsucceeded]
    exact sound_memInit 4 false
  | true =>
    have hvalid : ValidBuffer (memInit 4 false) bytes.length (.outside bytes) := Nat.le_refl bytes.length
    exact (memCoreBuffer_succeeded (sound_memInit 4 false) hvalid hsucceeded).sound

/-- Of two elements the second is put in the place of both. -/
theorem bytes_transferred_again :
    (writtenBytes [1,2,3,4,5,6,7,8]).memory.payload = [1,2,3,4,5,6,7,8] ∧
      ByteTransfer (ValidBuffer (writtenBytes [1,2,3,4,5,6,7,8]).memory 4 (.inside 4)) .replace
        (((Source.inside 4).bytesFrom (writtenBytes [1,2,3,4,5,6,7,8]).memory).take 4)
        (writtenBytes [1,2,3,4,5,6,7,8])
        (memCoreBuffer (fun _ _ => some fun _ => 7) .replace 4 (.inside 4) (writtenBytes [1,2,3,4,5,6,7,8])) :=
  ⟨by decide +kernel,(bytes_transferred (fun _ _ => some fun _ => 7) .replace (writtenBytes [1,2,3,4,5,6,7,8])
    (sound_writtenBytes _)).1 4 (.inside 4)⟩

end Precizer.Guarantees
