import Precizer.Libmem.Books
import Precizer.Libmem.TrackedOperations

/-! # Operations keep the books

A resize, a deletion and a write keep the books balanced, whatever else is live. So does every
operation that is made of them.
-/
namespace Precizer.Libmem
open General

namespace Books
variable {reserved payload overhead active : ℕ} {t : Telemetry} {m : Memory}

theorem reserveChanged (h : Sound m) (slabBytes : ℕ) (hslab : slabBytes ≠ 0)
    (hbooks : Books (m.actuallyAllocatedBytes + reserved) payload overhead (m.active + active) t)
    (hold : m.actuallyAllocatedBytes + reserved < 2 ^ 64) (hnew : slabBytes + reserved < 2 ^ 64) (hactive : active ≤ reserved) :
    Books (slabBytes + reserved) payload overhead (1 + active) (t.reserveChanged m slabBytes) := by
  rw [Telemetry.reserveChanged]
  split
  · next hdata =>
    have hnothing : m.actuallyAllocatedBytes = 0 := h.allocated.mp hdata
    have hidle : m.active = 0 := if_pos hdata
    rw [hnothing,hidle,Nat.zero_add,Nat.zero_add] at hbooks
    have hacquired := hbooks.activeDescriptorsAcquired (by omega)
    have hreserved := hacquired.heapReservedBytesAcquired slabBytes (by omega)
    rwa [Nat.add_comm reserved,Nat.add_comm active] at hreserved
  next hdata =>
  have hbusy : m.active = 1 := if_neg hdata
  rw [hbusy] at hbooks
  split
  · have hgrown := hbooks.heapReservedBytesAcquired (slabBytes - m.actuallyAllocatedBytes) (by omega)
    have hsum : m.actuallyAllocatedBytes + reserved + (slabBytes - m.actuallyAllocatedBytes) = slabBytes + reserved := by omega
    rwa [hsum] at hgrown
  split
  · have hunused := hbooks.releaseUnusedBytesReleased (m.actuallyAllocatedBytes - slabBytes)
    have hshrunk := hunused.heapReservedBytesReleased (m.actuallyAllocatedBytes - slabBytes) (by omega) (by omega)
    have hsum : m.actuallyAllocatedBytes + reserved - (m.actuallyAllocatedBytes - slabBytes) = slabBytes + reserved := by omega
    rwa [hsum] at hshrunk
  · have hsame : m.actuallyAllocatedBytes = slabBytes := by omega
    rwa [hsame] at hbooks

theorem payloadChanged {previous : ℕ} (next : ℕ) (hbooks : Books reserved (previous + payload) overhead active t)
    (hold : previous + payload < 2 ^ 64) (hnew : next + payload < 2 ^ 64) :
    Books reserved (next + payload) overhead active (t.payloadChanged previous next) := by
  rw [Telemetry.payloadChanged]
  split
  · have hadded := hbooks.payloadBytesAdded (next - previous) (by omega)
    have hsum : previous + payload + (next - previous) = next + payload := by omega
    rwa [hsum] at hadded
  split
  · have hremoved := hbooks.currentPayloadBytesRemoved (previous - next) (by omega) hold
    have hsum : previous + payload - (previous - next) = next + payload := by omega
    rwa [hsum] at hremoved
  · have hsame : previous = next := by omega
    rwa [hsame] at hbooks

theorem overheadChanged {previous : ℕ} (next : ℕ) (hbooks : Books reserved payload (previous + overhead) active t)
    (hold : previous + overhead < 2 ^ 64) (hnew : next + overhead < 2 ^ 64) :
    Books reserved payload (next + overhead) active (t.overheadChanged previous next) := by
  rw [Telemetry.overheadChanged]
  split
  · have hadded := hbooks.blockOverheadBytesAdded (next - previous) (by omega)
    have hsum : previous + overhead + (next - previous) = next + overhead := by omega
    rwa [hsum] at hadded
  split
  · have hremoved := hbooks.currentBlockOverheadBytesRemoved (previous - next) (by omega) hold
    have hsum : previous + overhead - (previous - next) = next + overhead := by omega
    rwa [hsum] at hremoved
  · have hsame : previous = next := by omega
    rwa [hsame] at hbooks

end Books

/-- The books stay balanced, whatever else is live. -/
def KeepsBooks (s s' : State) : Prop :=
  ∀ rest, (∀ m ∈ rest, Sound m) → Balanced (s.memory :: rest) s.telemetry s.heap →
    Balanced (s'.memory :: rest) s'.telemetry s'.heap

theorem keepsBooks_refl (s : State) : KeepsBooks s s := fun _ _ h => h

theorem keepsBooks_trans {s t u : State} (hst : KeepsBooks s t) (htu : KeepsBooks t u) : KeepsBooks s u :=
  fun rest hrest h => htu rest hrest (hst rest hrest h)

theorem balanced_cons {m : Memory} {rest : List Memory} {t : Telemetry} {heap : Heap} :
    Balanced (m :: rest) t heap ↔
      Books (m.actuallyAllocatedBytes + total Memory.actuallyAllocatedBytes rest)
        (m.payloadBytes + total Memory.payloadBytes rest) (m.overheadBytes + total Memory.overheadBytes rest)
        (m.active + total Memory.active rest) t ∧
      m.actuallyAllocatedBytes + total Memory.actuallyAllocatedBytes rest ≤ heap.liveBytes ∧ heap.liveBytes ≤ sizeMax := by
  constructor
  · rintro ⟨hbooks,hheld,haddressable⟩
    simp only [total_cons] at hbooks hheld
    exact ⟨hbooks,hheld,haddressable⟩
  · rintro ⟨hbooks,hheld,haddressable⟩
    refine ⟨?_,?_,haddressable⟩
    · simpa only [total_cons] using hbooks
    · simpa only [total_cons] using hheld

/-- The books do not see what is in a block. -/
theorem keepsBooks_write {s : State} (m : Memory) (h : m.footprint = s.memory.footprint) :
    KeepsBooks s { s with memory := m } := by
  intro rest _ hbalanced
  have hpayload : m.payloadBytes = s.memory.payloadBytes := congrArg Footprint.payloadBytes h
  have hreserved : m.actuallyAllocatedBytes = s.memory.actuallyAllocatedBytes := congrArg Footprint.allocatedBytes h
  have hoverhead : m.overheadBytes = s.memory.overheadBytes := by
    rw [Memory.overheadBytes,Memory.overheadBytes,hpayload,hreserved]
  have hactive : m.active = s.memory.active := by
    have hsome : m.data.isSome = s.memory.data.isSome := congrArg Footprint.active h
    rw [Memory.active,Memory.active]
    cases hdata : m.data <;> cases hold : s.memory.data <;> simp_all
  rw [balanced_cons] at hbalanced ⊢
  rw [hpayload,hreserved,hoverhead,hactive]
  exact hbalanced

section
variable {s : State} (h : Sound s.memory)
include h

theorem memDelete_telemetry : (memDelete s).state.telemetry =
    (if 0 < s.memory.payloadBytes then
      (if s.memory.data = none then s.telemetry
        else (if 0 < s.memory.actuallyAllocatedBytes then
          (s.telemetry.currentHeapReservedBytesReleased
            s.memory.actuallyAllocatedBytes).totalHeapReservedBytesReleasedAdded s.memory.actuallyAllocatedBytes
          else s.telemetry).activeDescriptorsReleased).currentPayloadBytesRemoved s.memory.payloadBytes
    else
      if s.memory.data = none then s.telemetry
      else (if 0 < s.memory.actuallyAllocatedBytes then
        (s.telemetry.currentHeapReservedBytesReleased
          s.memory.actuallyAllocatedBytes).totalHeapReservedBytesReleasedAdded s.memory.actuallyAllocatedBytes
        else s.telemetry).activeDescriptorsReleased).currentBlockOverheadBytesRemoved s.memory.overheadBytes := by
  have hbytes : (memGuardedByteSize s.memory s.memory.length).getD 0 = s.memory.payloadBytes := by
    by_cases hwidth : s.memory.singleElementSize = 0
    · rw [memGuardedByteSize,if_pos hwidth,Memory.payloadBytes,hwidth,Nat.zero_mul]
      rfl
    · rw [h.byteSize hwidth]
      rfl
  rw [memDelete]
  dsimp only
  rw [if_neg h.payload_present,hbytes]
  rfl

theorem keepsBooks_memDelete : KeepsBooks s (memDelete s).state := by
  intro rest hrest hbalanced
  obtain ⟨hbooks,hheld,haddressable⟩ := balanced_cons.mp hbalanced
  obtain ⟨hparts,hactive⟩ := total_le hrest
  have hcovered : s.memory.payloadBytes ≤ s.memory.actuallyAllocatedBytes := h.covered
  have hoverhead : s.memory.overheadBytes = s.memory.actuallyAllocatedBytes - s.memory.payloadBytes := rfl
  simp only [sizeMax] at haddressable
  rw [balanced_cons,memDelete_memory h,memDelete_heap h,memDelete_telemetry h]
  change Books (0 + _) (0 + _) (0 + _) (0 + _) _ ∧ 0 + _ ≤ _ ∧ _
  simp only [Nat.zero_add]
  cases hdata : s.memory.data with
  | none =>
    have hnothing : s.memory.actuallyAllocatedBytes = 0 := h.allocated.mp hdata
    have hidle : s.memory.active = 0 := if_pos hdata
    have hpayload : s.memory.payloadBytes = 0 := by omega
    have hfree : s.memory.overheadBytes = 0 := by omega
    rw [hnothing,hpayload,hfree,hidle] at hbooks
    rw [if_neg (by omega),if_pos rfl,hfree]
    simp only [Nat.zero_add,Telemetry.currentBlockOverheadBytesRemoved,if_true] at hbooks ⊢
    exact ⟨hbooks,by omega,haddressable⟩
  | some block =>
    have hallocated : 0 < s.memory.actuallyAllocatedBytes := by
      apply Nat.pos_of_ne_zero
      intro hzero
      rw [h.allocated.mpr hzero] at hdata
      cases hdata
    have hbusy : s.memory.active = 1 := if_neg (by simp [hdata])
    have hlength : block.length = s.memory.actuallyAllocatedBytes := by
      rw [← h.blockLength,Memory.block,hdata]
      rfl
    rw [hbusy] at hbooks
    simp only [reduceCtorEq,if_false,if_pos hallocated]
    have hreleased := hbooks.heapReservedBytesReleased s.memory.actuallyAllocatedBytes (by omega) (by omega)
    have hidle := hreleased.activeDescriptorsReleased (by omega) (by omega)
    simp only [Nat.add_sub_cancel_left] at hidle
    refine ⟨?_,?_,?_⟩
    · split
      · have hpayload := hidle.currentPayloadBytesRemoved s.memory.payloadBytes (by omega) (by omega)
        have hover := hpayload.currentBlockOverheadBytesRemoved s.memory.overheadBytes (by omega) (by omega)
        simpa only [Nat.add_sub_cancel_left] using hover
      · next hempty =>
        have hpayload : s.memory.payloadBytes = 0 := by omega
        have hover := hidle.currentBlockOverheadBytesRemoved s.memory.overheadBytes (by omega) (by omega)
        simpa only [Nat.add_sub_cancel_left,hpayload,Nat.zero_add] using hover
    · simp only [Heap.free,hlength]
      omega
    · simp only [Heap.free,sizeMax]
      omega

theorem keepsBooks_memResize (allocator : Allocator) (newCount : ℕ) (flags : ResizeModes) :
    KeepsBooks s (memResize allocator newCount flags s).state := by
  have hcases := memResize_cases h allocator newCount flags
  generalize memResize allocator newCount flags s = answer at hcases
  intro rest hrest hbalanced
  obtain ⟨hbooks,hheld,haddressable⟩ := balanced_cons.mp hbalanced
  obtain ⟨hparts,hactive⟩ := total_le hrest
  have hcovered : s.memory.payloadBytes ≤ s.memory.actuallyAllocatedBytes := h.covered
  have hoverhead : s.memory.overheadBytes = s.memory.actuallyAllocatedBytes - s.memory.payloadBytes := rfl
  cases hcases with
  | refused heap hheap reason =>
    rw [balanced_cons]
    exact ⟨hbooks,hheld.trans_eq hheap.liveBytes.symm,hheap.liveBytes.trans_le haddressable⟩
  | kept => exact hbalanced
  | released hcount hflag hallocated hdelete =>
    refine keepsBooks_memDelete (s := ⟨s.memory,s.telemetry.releaseUnusedBytesReleased s.memory.actuallyAllocatedBytes,
      s.heap⟩) h rest hrest ?_
    rw [balanced_cons]
    exact ⟨hbooks.releaseUnusedBytesReleased _,hheld,haddressable⟩
  | emptied hcount hlength hkeep memory hmemory =>
    have hmemory : memory.actuallyAllocatedBytes = s.memory.actuallyAllocatedBytes ∧ memory.length = 0 ∧
        memory.active = s.memory.active := by
      rw [hmemory]
      split
      · refine ⟨rfl,rfl,?_⟩
        cases hdata : s.memory.data <;> simp [Memory.active,Memory.zeroAt,Memory.written,hdata]
      · exact ⟨rfl,rfl,rfl⟩
    obtain ⟨hallocated,hlength,hactive'⟩ := hmemory
    have hnothing : memory.payloadBytes = 0 := by
      rw [Memory.payloadBytes,hlength,Nat.mul_zero]
    have hall : memory.overheadBytes = s.memory.overheadBytes + s.memory.payloadBytes := by
      rw [Memory.overheadBytes,hnothing]
      omega
    simp only [sizeMax] at haddressable
    have hremoved := hbooks.currentPayloadBytesRemoved s.memory.payloadBytes (by omega) (by omega)
    have hadded := hremoved.blockOverheadBytesAdded s.memory.payloadBytes (by omega)
    rw [balanced_cons]
    dsimp only [State.succeed]
    rw [hallocated,hnothing,hall,hactive',Nat.zero_add]
    rw [Nat.add_sub_cancel_left,Nat.add_right_comm] at hadded
    exact ⟨hadded,hheld,haddressable⟩
  | sized hcount hwidth block heap hblock hheap =>
    have hfit := hblock.covered
    have hpositive : 0 < block.length :=
      (Nat.mul_pos (Nat.pos_of_ne_zero hwidth) (Nat.pos_of_ne_zero hcount)).trans_le hfit
    have hlive := hheap.liveBytes
    have hlimit := hheap.addressable haddressable
    simp only [sizeMax] at haddressable hlimit
    have hreserve := hbooks.reserveChanged h block.length (by omega) (by omega) (by omega) hactive
    have hpayload := hreserve.payloadChanged (s.memory.singleElementSize * newCount) (by omega) (by omega)
    have hover := hpayload.overheadChanged (block.length - s.memory.singleElementSize * newCount) (by omega) (by omega)
    have hbusy : (s.memory.resized block newCount flags).active = 1 := if_neg (Memory.resized_data _ _ _ _)
    have hnew : (s.memory.resized block newCount flags).payloadBytes = s.memory.singleElementSize * newCount := by
      rw [Memory.payloadBytes,Memory.resized_singleElementSize,Memory.resized_length]
    rw [balanced_cons]
    dsimp only [State.succeed]
    rw [hbusy,Memory.overheadBytes,hnew,Memory.resized_allocated]
    exact ⟨hover,by omega,hlimit⟩

/-- The terminator that leaves the payload of a converted string becomes overhead. -/
theorem keepsBooks_memConvertStringToData : KeepsBooks s (memConvertStringToData s).state := by
  rcases memConvertStringToData_cases h with hanswer | hanswer | ⟨hbyte,hlength,hanswer⟩
  · rw [hanswer]
    exact keepsBooks_refl s
  · rw [hanswer]
    exact keepsBooks_write s.memory.asData rfl
  rw [hanswer]
  intro rest hrest hbalanced
  obtain ⟨hbooks,hheld,haddressable⟩ := balanced_cons.mp hbalanced
  obtain ⟨hparts,-⟩ := total_le hrest
  have hcovered := h.covered
  rw [hbyte,Nat.one_mul] at hcovered
  have hpayload : s.memory.payloadBytes = s.memory.length := by
    rw [Memory.payloadBytes,hbyte,Nat.one_mul]
  have hoverhead : s.memory.overheadBytes = s.memory.actuallyAllocatedBytes - s.memory.payloadBytes := rfl
  have hnext : ({ s.memory with length := s.memory.length - 1 } : Memory).asData.payloadBytes = s.memory.length - 1 := by
    rw [Memory.payloadBytes]
    dsimp only [Memory.asData]
    rw [hbyte,Nat.one_mul]
  have hover : ({ s.memory with length := s.memory.length - 1 } : Memory).asData.overheadBytes = s.memory.overheadBytes + 1 := by
    rw [Memory.overheadBytes,hnext]
    dsimp only [Memory.asData]
    omega
  simp only [sizeMax] at haddressable
  rw [hbyte]
  have hremoved := hbooks.currentPayloadBytesRemoved 1 (by omega) (by omega)
  have hadded := hremoved.blockOverheadBytesAdded 1 (by omega)
  have hpart : s.memory.payloadBytes + total Memory.payloadBytes rest - 1 = s.memory.length - 1 + total Memory.payloadBytes rest := by
    omega
  rw [hpart,Nat.add_right_comm] at hadded
  dsimp only [State.succeed]
  rw [balanced_cons,hnext,hover]
  exact ⟨hadded,hheld,haddressable⟩

omit h in
theorem keepsBooks_tracks : Tracks KeepsBooks where
  refl := keepsBooks_refl
  trans := keepsBooks_trans
  resize allocator newCount flags h _ := keepsBooks_memResize h allocator newCount flags
  write m h := keepsBooks_write m h

end

end Precizer.Libmem
