import Precizer.Guarantees.BalancedTelemetry
import Precizer.Libmem.Moves

/-! # The ledger of the heap

In every state of every run the heap holds the blocks of the live descriptors and nothing else: no
failure on the way loses a block or gives one back twice, and the telemetry shows what the heap holds.
-/
namespace Precizer.Guarantees
open General Libmem

structure HeapLedger (w : World) : Prop where
  bytes : w.heap.liveBytes = (w.live.map fun m => m.actuallyAllocatedBytes).sum
  blocks : w.heap.allocations = w.heap.released.length + w.live.countP fun m => m.data.isSome
  shown : w.telemetry.currentHeapReservedBytes = w.heap.liveBytes ∧
    w.telemetry.currentActiveDescriptors + w.heap.released.length = w.heap.allocations
  nothingLost : (∀ m ∈ w.live, m.data = none) → w.heap.liveBytes = 0 ∧ w.heap.released.length = w.heap.allocations

theorem ledger_move {allocator : Allocator} {w w' : World} (hmove : Move allocator w w') (h : w.Booked)
    (hledger : Ledger w.live w.heap) : Ledger w'.live w'.heap := by
  cases hmove with
  | operated hoperated =>
    cases hoperated with
    | create singleElementSize isString => exact (ledger_idle rfl rfl).mpr hledger
    | @operate m rest operation hlive =>
      exact operation.keepsLedger (s := w.focus m) (h.sound_focus hlive) allocator rest (ledger_perm hlive hledger)
  | @write m m' rest hlive hsound hfootprint =>
    exact keepsLedger_write (s := w.focus m) m' hfootprint rest (ledger_perm hlive hledger)
  | forget hlive hdata =>
    exact (ledger_idle ((h.sound_focus hlive).idle hdata).1 hdata).mp (ledger_perm hlive hledger)
  | reorder hlive => exact ledger_perm hlive hledger

theorem ledger_moves {allocator : Allocator} {w w' : World} (hmoves : Moves allocator w w') (h : w.Booked)
    (hledger : Ledger w.live w.heap) : Ledger w'.live w'.heap := by
  induction hmoves with
  | refl => exact hledger
  | tail hbefore hmove ih => exact ledger_move hmove (Moves.booked hbefore h) ih

theorem run_ledger {layout : DescriptorLayout} {allocator : Allocator} {w : World}
    (hrun : Relation.ReflTransGen (Step layout allocator) World.start w) : Ledger w.live w.heap := by
  induction hrun with
  | refl => exact ⟨rfl,rfl⟩
  | tail hbefore hstep ih =>
    have hbooked := run_booked hbefore
    exact ledger_moves (hstep.moves hbooked) hbooked ih

theorem heap_ledger (layout : DescriptorLayout) (allocator : Allocator) (w : World)
    (hrun : Relation.ReflTransGen (Step layout allocator) World.start w) : HeapLedger w := by
  have hledger := run_ledger hrun
  have hbooks := (run_booked hrun).balanced.books
  have hblocks : w.heap.allocations = w.heap.released.length + w.live.countP fun m => m.data.isSome := by
    rw [hledger.blocks,total_active]
  refine ⟨hledger.bytes,hblocks,⟨?_,?_⟩,fun hidle => ?_⟩
  · rw [hbooks.reserved,hledger.bytes]
  · rw [hbooks.active,hledger.blocks,Nat.add_comm]
  · have hsound := (run_booked hrun).sound
    have hnothing : ∀ m ∈ w.live, m.actuallyAllocatedBytes = 0 := fun m hm => ((hsound m hm).idle (hidle m hm)).1
    have hnone : w.live.countP (fun m => m.data.isSome) = 0 := by
      rw [List.countP_eq_zero]
      intro m hm
      rw [hidle m hm]
      exact Bool.false_ne_true
    refine ⟨?_,?_⟩
    · rw [hledger.bytes,total,List.sum_eq_zero]
      intro bytes hbytes
      obtain ⟨m,hm,rfl⟩ := List.mem_map.mp hbytes
      exact hnothing m hm
    · rw [hblocks,hnone,Nat.add_zero]

/-- A root is created and gets the string `A`. -/
theorem heap_ledger_appended :
    HeapLedger
      ((memStringArrayCore littleEndian (fun _ _ => some fun _ => 7) .unbounded 1 0 (.outside [65,0])
        ⟨memInit sizeofMemory false,.start,.start⟩).state.among
        ((memStringArrayCore littleEndian (fun _ _ => some fun _ => 7) .unbounded 1 0 (.outside [65,0])
          ⟨memInit sizeofMemory false,.start,.start⟩).appended.toList ++ [])) := by
  apply heap_ledger littleEndian (fun _ _ => some fun _ => 7)
  have hcreated : Step littleEndian (fun _ _ => some fun _ => 7) World.start ⟨[memInit sizeofMemory false],.start,.start⟩ :=
    .operated (.create sizeofMemory false)
  exact (Relation.ReflTransGen.single hcreated).tail (.append .unbounded 1 0 (.outside [65,0]) (List.Perm.refl _) rfl)

end Precizer.Guarantees
