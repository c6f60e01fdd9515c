import Precizer.Libmem.Operations

/-! # The ledger of the heap

What the heap has handed out and not got back are the blocks of the live descriptors. Every
operation keeps this, so no block is lost and none is given back twice.
-/
namespace Precizer.Libmem
open General

/-- The live bytes are those of the descriptors, and every block handed out was given back or has an owner. -/
structure Ledger (live : List Memory) (heap : Heap) : Prop where
  bytes : heap.liveBytes = total Memory.actuallyAllocatedBytes live
  blocks : heap.allocations = heap.released.length + total Memory.active live

theorem ledger_perm {live live' : List Memory} {heap : Heap} (hperm : live.Perm live') (h : Ledger live heap) :
    Ledger live' heap := by
  obtain ⟨hbytes,hblocks⟩ := h
  rw [total_perm _ hperm] at hbytes hblocks
  exact ⟨hbytes,hblocks⟩

theorem ledger_cons {m : Memory} {rest : List Memory} {heap : Heap} :
    Ledger (m :: rest) heap ↔
      heap.liveBytes = m.actuallyAllocatedBytes + total Memory.actuallyAllocatedBytes rest ∧
        heap.allocations = heap.released.length + (m.active + total Memory.active rest) := by
  constructor
  · rintro ⟨hbytes,hblocks⟩
    rw [total_cons] at hbytes hblocks
    exact ⟨hbytes,hblocks⟩
  · rintro ⟨hbytes,hblocks⟩
    refine ⟨?_,?_⟩
    · rw [total_cons]
      exact hbytes
    · rw [total_cons]
      exact hblocks

theorem ledger_idle {m : Memory} (hallocated : m.actuallyAllocatedBytes = 0) (hdata : m.data = none) {rest : List Memory}
    {heap : Heap} : Ledger (m :: rest) heap ↔ Ledger rest heap := by
  have hactive : m.active = 0 := if_pos hdata
  rw [ledger_cons,hallocated,hactive,Nat.zero_add,Nat.zero_add]
  exact ⟨fun h => ⟨h.1,h.2⟩,fun h => ⟨h.bytes,h.blocks⟩⟩

/-- The ledger stays right, whatever else is live. -/
def KeepsLedger (s s' : State) : Prop :=
  ∀ rest, Ledger (s.memory :: rest) s.heap → Ledger (s'.memory :: rest) s'.heap

theorem keepsLedger_refl (s : State) : KeepsLedger s s := fun _ h => h

theorem keepsLedger_trans {s t u : State} (hst : KeepsLedger s t) (htu : KeepsLedger t u) : KeepsLedger s u :=
  fun rest h => htu rest (hst rest h)

theorem active_eq {m m' : Memory} (h : m'.data.isSome = m.data.isSome) : m'.active = m.active := by
  rw [Memory.active,Memory.active]
  cases hdata' : m'.data <;> cases hdata : m.data <;> rw [hdata',hdata] at h <;> first | rfl | cases h

theorem keepsLedger_same {s s' : State} (hheap : s'.heap = s.heap)
    (hallocated : s'.memory.actuallyAllocatedBytes = s.memory.actuallyAllocatedBytes)
    (hactive : s'.memory.data.isSome = s.memory.data.isSome) : KeepsLedger s s' := by
  intro rest h
  rw [ledger_cons,hheap,hallocated,active_eq hactive]
  exact ledger_cons.mp h

section
variable {s : State} (h : Sound s.memory)
include h

theorem keepsLedger_memDelete : KeepsLedger s (memDelete s).state := by
  intro rest hledger
  obtain ⟨hbytes,hblocks⟩ := ledger_cons.mp hledger
  rw [ledger_cons,memDelete_memory h,memDelete_heap h]
  change _ = 0 + _ ∧ _ = _ + (0 + _)
  cases hdata : s.memory.data with
  | none =>
    have hnothing : s.memory.actuallyAllocatedBytes = 0 := h.allocated.mp hdata
    have hidle : s.memory.active = 0 := if_pos hdata
    rw [hnothing] at hbytes
    rw [hidle] at hblocks
    exact ⟨hbytes,hblocks⟩
  | some block =>
    have hbusy : s.memory.active = 1 := if_neg (by simp [hdata])
    have hlength : block.length = s.memory.actuallyAllocatedBytes := by
      rw [← h.blockLength,Memory.block,hdata]
      rfl
    rw [hbusy] at hblocks
    simp only [Heap.free,hlength,List.length_append,List.length_singleton]
    omega

theorem keepsLedger_memResize (allocator : Allocator) (newCount : ℕ) (flags : ResizeModes) :
    KeepsLedger s (memResize allocator newCount flags s).state := by
  have hcases := memResize_cases h allocator newCount flags
  generalize memResize allocator newCount flags s = answer at hcases
  cases hcases with
  | refused heap hheap reason =>
    intro rest hledger
    obtain ⟨hbytes,hblocks⟩ := ledger_cons.mp hledger
    rw [ledger_cons]
    dsimp only [State.fail]
    rw [hheap.liveBytes,hheap.allocations,hheap.released]
    exact ⟨hbytes,hblocks⟩
  | kept => exact keepsLedger_refl s
  | released hcount hflag hallocated hdelete =>
    exact keepsLedger_memDelete (s := ⟨s.memory,s.telemetry.releaseUnusedBytesReleased s.memory.actuallyAllocatedBytes,
      s.heap⟩) h
  | emptied hcount hlength hkeep memory hmemory =>
    have hallocated : memory.actuallyAllocatedBytes = s.memory.actuallyAllocatedBytes := by
      rw [hmemory]
      split <;> rfl
    have hactive : memory.data.isSome = s.memory.data.isSome := by
      rw [hmemory]
      split
      · exact Option.isSome_map
      · rfl
    have hkept (t : Telemetry) : KeepsLedger s ⟨memory,t,s.heap⟩ := keepsLedger_same rfl hallocated hactive
    exact hkept _
  | sized hcount hwidth block heap hblock hheap =>
    intro rest hledger
    obtain ⟨hbytes,hblocks⟩ := ledger_cons.mp hledger
    have hbusy : (s.memory.resized block newCount flags).active = 1 := if_neg (Memory.resized_data _ _ _ _)
    have hreleased := congrArg List.length hheap.released
    have hlive := hheap.liveBytes
    have hhanded := hheap.allocations
    rw [ledger_cons]
    dsimp only [State.succeed]
    rw [hbusy,Memory.resized_allocated]
    rw [Memory.active] at hblocks
    refine ⟨by omega,?_⟩
    split at hhanded <;> rename_i hdata
    · rw [if_pos hdata] at hblocks
      omega
    · rw [if_neg hdata] at hblocks
      omega

theorem keepsLedger_memConvertStringToData : KeepsLedger s (memConvertStringToData s).state := by
  rcases memConvertStringToData_cases h with hanswer | hanswer | ⟨-,-,hanswer⟩
  · rw [hanswer]
    exact keepsLedger_refl s
  · rw [hanswer]
    exact keepsLedger_same rfl rfl rfl
  · rw [hanswer]
    exact keepsLedger_same rfl rfl rfl

omit h in
theorem keepsLedger_write (m : Memory) (hm : m.footprint = s.memory.footprint) : KeepsLedger s { s with memory := m } :=
  keepsLedger_same rfl (congrArg Footprint.allocatedBytes hm) (congrArg Footprint.active hm)

omit h in
theorem keepsLedger_tracks : Tracks KeepsLedger where
  refl := keepsLedger_refl
  trans := keepsLedger_trans
  resize allocator newCount flags h _ := keepsLedger_memResize h allocator newCount flags
  write m h := keepsLedger_write m h

theorem Operation.keepsLedger (allocator : Allocator) (operation : Operation) :
    KeepsLedger s (operation.answer allocator s).state := by
  cases operation with
  | resize newCount flags => exact keepsLedger_memResize h allocator newCount flags
  | delete => exact keepsLedger_memDelete h
  | copy source => exact memCopy_tracks keepsLedger_tracks h allocator source
  | data transfer source => exact memCoreData_tracks keepsLedger_tracks h allocator transfer source
  | buffer transfer sizeBytes source => exact memCoreBuffer_tracks keepsLedger_tracks h allocator transfer sizeBytes source
  | string mode transfer rangeBytes source =>
    exact memCoreString_tracks keepsLedger_tracks h allocator mode transfer rangeBytes source
  | concatStrings source => exact memConcatStrings_tracks keepsLedger_tracks h allocator source
  | formattedChar format => exact memFormattedStringChar_tracks keepsLedger_tracks h allocator format
  | formattedWchar format => exact memFormattedStringWchar_tracks keepsLedger_tracks h allocator format
  | truncate n => exact keepsLedger_tracks.alter fun m hm => footprint_memStringTruncate h hm
  | finalize writtenLength flags => exact keepsLedger_tracks.alter fun m hm => footprint_memFinalizeString h hm
  | toString => exact memConvertDataToString_tracks keepsLedger_tracks h allocator
  | toData => exact keepsLedger_memConvertStringToData h

end

end Precizer.Libmem
