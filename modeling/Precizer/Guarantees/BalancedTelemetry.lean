import Precizer.Guarantees.StringArrays
import Precizer.Libmem.ArrayBooks

/-! # Balanced telemetry

After every operation of every run the counters are the sums over the live descriptors, whatever
failed on the way.
-/
namespace Precizer.Guarantees
open General Libmem

/-- The counters against the live descriptors. What was acquired and what was released are counted
for ever, so their difference is that of a `size_t`. -/
structure BalancedTelemetry (w : World) : Prop where
  reserved : w.telemetry.currentHeapReservedBytes = (w.live.map fun m => m.actuallyAllocatedBytes).sum
  payload : w.telemetry.currentPayloadBytes = (w.live.map fun m => m.length * m.singleElementSize).sum
  overhead : w.telemetry.currentBlockOverheadBytes =
    (w.live.map fun m => m.actuallyAllocatedBytes - m.length * m.singleElementSize).sum
  covered : ∀ m ∈ w.live, m.length * m.singleElementSize ≤ m.actuallyAllocatedBytes
  active : w.telemetry.currentActiveDescriptors = w.live.countP fun m => m.data.isSome
  acquired : subFetch w.telemetry.totalHeapReservedBytesAcquired w.telemetry.totalHeapReservedBytesReleased =
    w.telemetry.currentHeapReservedBytes
  unwrapped : w.telemetry.wrapped = false

theorem payloadBytes_eq (m : Memory) : m.payloadBytes = m.length * m.singleElementSize :=
  Nat.mul_comm _ _

theorem total_active (live : List Memory) : total Memory.active live = live.countP fun m => m.data.isSome := by
  induction live with
  | nil => rfl
  | cons m live ih =>
    rw [total_cons,ih,List.countP_cons,Nat.add_comm,Memory.active]
    cases m.data <;> rfl

theorem telemetry_balances (layout : DescriptorLayout) (allocator : Allocator) (w : World)
    (hrun : Relation.ReflTransGen (Step layout allocator) World.start w) : BalancedTelemetry w := by
  have h := run_booked hrun
  have hbooks := h.balanced.books
  have haddressable : w.telemetry.currentHeapReservedBytes ≤ sizeMax := by
    rw [hbooks.reserved]
    exact h.balanced.held.trans h.balanced.addressable
  refine ⟨hbooks.reserved,?_,?_,?_,?_,?_,hbooks.unwrapped⟩
  · rw [hbooks.payload,total]
    exact congrArg List.sum (List.map_congr_left fun m _ => payloadBytes_eq m)
  · rw [hbooks.overhead,total]
    have hparts : ∀ m ∈ w.live, m.overheadBytes = m.actuallyAllocatedBytes - m.length * m.singleElementSize := by
      intro m _
      rw [Memory.overheadBytes,payloadBytes_eq]
    exact congrArg List.sum (List.map_congr_left hparts)
  · intro m hm
    rw [← payloadBytes_eq]
    exact (h.sound m hm).covered
  · rw [hbooks.active,total_active]
  · rw [hbooks.acquired,subFetch,addFetch]
    simp only [sizeMax] at haddressable
    omega

/-- A root is created and gets the string `A`. -/
theorem telemetry_balances_appended :
    BalancedTelemetry
      ((memStringArrayCore littleEndian (fun _ _ => some fun _ => 7) .unbounded 1 0 (.outside [65,0])
        ⟨memInit sizeofMemory false,.start,.start⟩).state.among
        ((memStringArrayCore littleEndian (fun _ _ => some fun _ => 7) .unbounded 1 0 (.outside [65,0])
          ⟨memInit sizeofMemory false,.start,.start⟩).appended.toList ++ [])) := by
  apply telemetry_balances littleEndian (fun _ _ => some fun _ => 7)
  have hcreated : Step littleEndian (fun _ _ => some fun _ => 7) World.start ⟨[memInit sizeofMemory false],.start,.start⟩ :=
    .operated (.create sizeofMemory false)
  exact (Relation.ReflTransGen.single hcreated).tail (.append .unbounded 1 0 (.outside [65,0]) (List.Perm.refl _) rfl)

end Precizer.Guarantees
