import Precizer.General.SerializedCalls
import Precizer.General.ExchangeLoops
import Mathlib.Algebra.Group.Fin.Basic

/-! # Telemetry calls

The counters of the telemetry are shared by all threads. Every function of its interface is a few atomic
instructions, one after another.
-/
namespace Precizer.Libmem
open General

/-- `size_t` -/
abbrev Size := Fin (2 ^ 64)

scoped instance sizeNeZero : NeZero (2 ^ 64) := ⟨by decide⟩

/-- The fields of `Telemetry`. -/
inductive Counter
  | currentHeapReservedBytes
  | currentPayloadBytes
  | freshHeapAllocations
  | zeroInitializedPayloadGrowths
  | totalHeapReservedBytesAcquired
  | totalPayloadBytesAdded
  | heapReallocations
  | inPlaceResizes
  | heapBufferReleases
  | totalHeapReservedBytesReleased
  | releaseUnusedShrinks
  | totalReleaseUnusedHeapReservedBytesReleased
  | peakHeapReservedBytes
  | noopResizes
  | heapAllocationFailures
  | expectedHeapAllocationFailures
  | heapReallocationFailures
  | expectedHeapReallocationFailures
  | currentBlockOverheadBytes
  | totalBlockOverheadBytesAdded
  | peakBlockOverheadBytes
  | currentConsecutiveNoopResizes
  | peakConsecutiveNoopResizes
  | dataToStringConversions
  | stringToDataConversions
  | finalizeStringTerminatorAlreadyPresent
  | finalizeStringTerminatorWrittenWhenMissing
  | stringTerminatorWrites
  | currentActiveDescriptors
  | peakActiveDescriptors
  | arithmeticGuardFailures
  | expectedArithmeticGuardFailures
  deriving DecidableEq

def Counter.role : Counter → Role Counter
  | currentHeapReservedBytes => .level
  | currentBlockOverheadBytes => .level
  | currentConsecutiveNoopResizes => .level
  | currentActiveDescriptors => .level
  | peakHeapReservedBytes => .peak currentHeapReservedBytes
  | peakBlockOverheadBytes => .peak currentBlockOverheadBytes
  | peakConsecutiveNoopResizes => .peak currentConsecutiveNoopResizes
  | peakActiveDescriptors => .peak currentActiveDescriptors
  | _ => .total

/-- The functions of `mem_telemetry.h`. -/
inductive TelemetryCall
  | inPlaceResizes
  | freshHeapAllocations
  | zeroInitializedPayloadGrowths
  | heapReallocations
  | noopResizes
  | heapBufferReleases
  | totalHeapReservedBytesReleased (amountOfBytes : Size)
  | releaseUnusedShrinks
  | totalReleaseUnusedHeapReservedBytesReleased (amountOfBytes : Size)
  | heapReservedBytesAcquired (amountOfBytes : Size)
  | payloadBytesAdded (amountOfBytes : Size)
  | currentHeapReservedBytesReleased (amountOfBytes : Size)
  | currentPayloadBytesRemoved (amountOfBytes : Size)
  | heapAllocationFailures
  | expectedHeapAllocationFailures
  | heapReallocationFailures
  | expectedHeapReallocationFailures
  | blockOverheadBytesAdded (amountOfBytes : Size)
  | currentBlockOverheadBytesRemoved (amountOfBytes : Size)
  | consecutiveNoopResizesAdvanced
  | currentConsecutiveNoopResizesReset
  | dataToStringConversions
  | stringToDataConversions
  | finalizeStringTerminatorAlreadyPresent
  | finalizeStringTerminatorWrittenWhenMissing
  | stringTerminatorWrites
  | activeDescriptorsAcquired
  | activeDescriptorsReleased
  | arithmeticGuardFailures
  | expectedArithmeticGuardFailures
  deriving DecidableEq

/-- One `__atomic_fetch_add` of one. -/
def increment (counter : Counter) : Code Counter Size := [.add counter 1]

/-- The call does nothing for no bytes. -/
def unlessZero (amountOfBytes : Size) (code : Code Counter Size) : Code Counter Size :=
  if amountOfBytes = 0 then [] else code

/-- The bodies of the functions. -/
def TelemetryCall.code : TelemetryCall → Code Counter Size
  | inPlaceResizes => increment .inPlaceResizes
  | freshHeapAllocations => increment .freshHeapAllocations
  | zeroInitializedPayloadGrowths => increment .zeroInitializedPayloadGrowths
  | heapReallocations => increment .heapReallocations
  | noopResizes => increment .noopResizes
  | heapBufferReleases => increment .heapBufferReleases
  | totalHeapReservedBytesReleased amountOfBytes => [.add .totalHeapReservedBytesReleased amountOfBytes]
  | releaseUnusedShrinks => increment .releaseUnusedShrinks
  | totalReleaseUnusedHeapReservedBytesReleased amountOfBytes =>
    unlessZero amountOfBytes [.add .totalReleaseUnusedHeapReservedBytesReleased amountOfBytes]
  | heapReservedBytesAcquired amountOfBytes =>
    [.addFetch .currentHeapReservedBytes amountOfBytes,
      .add .totalHeapReservedBytesAcquired amountOfBytes,
      .raise .peakHeapReservedBytes]
  | payloadBytesAdded amountOfBytes =>
    [.add .totalPayloadBytesAdded amountOfBytes,.addFetch .currentPayloadBytes amountOfBytes]
  | currentHeapReservedBytesReleased amountOfBytes => [.sub .currentHeapReservedBytes amountOfBytes]
  | currentPayloadBytesRemoved amountOfBytes => [.sub .currentPayloadBytes amountOfBytes]
  | heapAllocationFailures => increment .heapAllocationFailures
  | expectedHeapAllocationFailures => increment .expectedHeapAllocationFailures
  | heapReallocationFailures => increment .heapReallocationFailures
  | expectedHeapReallocationFailures => increment .expectedHeapReallocationFailures
  | blockOverheadBytesAdded amountOfBytes =>
    unlessZero amountOfBytes
      [.addFetch .currentBlockOverheadBytes amountOfBytes,
        .add .totalBlockOverheadBytesAdded amountOfBytes,
        .raise .peakBlockOverheadBytes]
  | currentBlockOverheadBytesRemoved amountOfBytes =>
    unlessZero amountOfBytes [.sub .currentBlockOverheadBytes amountOfBytes]
  | consecutiveNoopResizesAdvanced =>
    [.addFetch .currentConsecutiveNoopResizes 1,.raise .peakConsecutiveNoopResizes]
  | currentConsecutiveNoopResizesReset => [.store .currentConsecutiveNoopResizes 0]
  | dataToStringConversions => increment .dataToStringConversions
  | stringToDataConversions => increment .stringToDataConversions
  | finalizeStringTerminatorAlreadyPresent => increment .finalizeStringTerminatorAlreadyPresent
  | finalizeStringTerminatorWrittenWhenMissing => increment .finalizeStringTerminatorWrittenWhenMissing
  | stringTerminatorWrites => increment .stringTerminatorWrites
  | activeDescriptorsAcquired => [.addFetch .currentActiveDescriptors 1,.raise .peakActiveDescriptors]
  | activeDescriptorsReleased => [.sub .currentActiveDescriptors 1]
  | arithmeticGuardFailures => increment .arithmeticGuardFailures
  | expectedArithmeticGuardFailures => increment .expectedArithmeticGuardFailures

namespace TelemetryCall

theorem mem_unlessZero {x : Instruction Counter Size} {amountOfBytes : Size} {code : Code Counter Size} :
    x ∈ unlessZero amountOfBytes code ↔ amountOfBytes ≠ 0 ∧ x ∈ code := by
  unfold unlessZero
  split
  · rename_i h
    simp [h]
  · rename_i h
    simp [h]

theorem orderly_unlessZero {amountOfBytes : Size} {code : Code Counter Size} (h : code.orderly Counter.role = true) :
    (unlessZero amountOfBytes code).orderly Counter.role = true := by
  unfold unlessZero
  split
  · rfl
  · exact h

theorem orderly (call : TelemetryCall) : call.code.orderly Counter.role = true := by
  cases call <;> first | rfl | exact orderly_unlessZero rfl

theorem records (call : TelemetryCall) : call.code.Records Counter.role := by
  intro c a p hmem hp
  have hpeak : (p = .peakHeapReservedBytes ∧ c = .currentHeapReservedBytes) ∨
      (p = .peakBlockOverheadBytes ∧ c = .currentBlockOverheadBytes) ∨
      (p = .peakConsecutiveNoopResizes ∧ c = .currentConsecutiveNoopResizes) ∨
      (p = .peakActiveDescriptors ∧ c = .currentActiveDescriptors) := by
    cases p <;> simp_all [Counter.role]
  rcases hpeak with ⟨rfl,rfl⟩ | ⟨rfl,rfl⟩ | ⟨rfl,rfl⟩ | ⟨rfl,rfl⟩ <;> cases call <;>
    simp_all [code,increment,mem_unlessZero]

end TelemetryCall
end Precizer.Libmem
