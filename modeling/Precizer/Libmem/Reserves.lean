import Precizer.Libmem.ResizeEffect

/-! # Whether a reserve is granted

A resize that releases nothing succeeds when the block is large enough already or the allocator
serves a larger one. This can be read off the heap and the size of the block alone.
-/
namespace Precizer.Libmem
open General

/-- The heap, and how much of it a descriptor has. -/
structure Reserve where
  heap : Heap
  allocatedBytes : ℕ

def State.reserve (s : State) : Reserve := ⟨s.heap,s.memory.actuallyAllocatedBytes⟩

namespace Reserve

def Granted (allocator : Allocator) (r : Reserve) (bytes : ℕ) : Prop :=
  bytes ≤ r.allocatedBytes ∨ r.heap.serve allocator (r.heap.liveBytes - r.allocatedBytes) bytes ≠ none

/-- The reserve once so many bytes were granted. -/
def grown (r : Reserve) (bytes : ℕ) : Reserve :=
  if bytes ≤ r.allocatedBytes then r
  else ⟨{ r.heap with
      calls := r.heap.calls + 1
      liveBytes := r.heap.liveBytes + bytes - r.allocatedBytes
      allocations := r.heap.allocations + if r.allocatedBytes = 0 then 1 else 0 },bytes⟩

theorem grown_of_le {r : Reserve} {bytes : ℕ} (h : bytes ≤ r.allocatedBytes) : r.grown bytes = r := if_pos h

end Reserve

section
variable {s : State} (h : Sound s.memory) (allocator : Allocator) {slabBytes : ℕ}
include h

theorem resizeReserve_granted (hslab : slabBytes ≠ 0) :
    ((resizeReserve allocator slabBytes .plain s).succeeded = true ↔ s.reserve.Granted allocator slabBytes) ∧
      ((resizeReserve allocator slabBytes .plain s).succeeded = true →
        (resizeReserve allocator slabBytes .plain s).state.reserve = s.reserve.grown slabBytes) := by
  have hlength := h.blockLength
  by_cases hle : slabBytes ≤ s.memory.actuallyAllocatedBytes
  · have hdata : s.memory.data ≠ none := h.data_ne_none (by omega)
    have hanswer : resizeReserve allocator slabBytes .plain s = s.succeed := by
      rw [resizeReserve,if_neg]
      rintro (hnone | hgrows | hshrinks)
      · exact hdata hnone
      · omega
      · exact Bool.false_ne_true hshrinks.1
    have hgrown : s.reserve.grown slabBytes = s.reserve := Reserve.grown_of_le hle
    rw [hanswer,hgrown]
    exact ⟨⟨fun _ => .inl hle,fun _ => rfl⟩,fun _ => rfl⟩
  · have hgrants : s.reserve.Granted allocator slabBytes ↔
        s.heap.serve allocator (s.heap.liveBytes - s.memory.actuallyAllocatedBytes) slabBytes ≠ none :=
      ⟨fun hcases => hcases.resolve_left hle,.inr⟩
    have hgrown : s.reserve.grown slabBytes = ⟨{ s.heap with
        calls := s.heap.calls + 1
        liveBytes := s.heap.liveBytes + slabBytes - s.memory.actuallyAllocatedBytes
        allocations := s.heap.allocations + if s.memory.actuallyAllocatedBytes = 0 then 1 else 0 },slabBytes⟩ :=
      if_neg hle
    rw [hgrants,hgrown,resizeReserve]
    dsimp only
    rw [if_pos (.inr (.inl (by omega)))]
    cases hdata : s.memory.data with
    | none =>
      have hnothing : s.memory.actuallyAllocatedBytes = 0 := h.allocated.mp hdata
      rw [hnothing,Nat.sub_zero,Heap.malloc]
      cases hserve : s.heap.serve allocator s.heap.liveBytes slabBytes with
      | none => exact ⟨by simp [State.fail],fun hfailed => by cases hfailed⟩
      | some fill => exact ⟨by simp [State.succeed],fun _ => by simp [State.succeed,State.reserve]⟩
    | some old =>
      have hold : old.length = s.memory.actuallyAllocatedBytes := by
        rw [← hlength,Memory.block,hdata]
        rfl
      have hallocated : s.memory.actuallyAllocatedBytes ≠ 0 := fun hzero => by
        rw [h.allocated.mpr hzero] at hdata
        cases hdata
      dsimp only
      rw [Heap.realloc,hold]
      cases hserve : s.heap.serve allocator (s.heap.liveBytes - s.memory.actuallyAllocatedBytes) slabBytes with
      | none => exact ⟨by simp [State.fail],fun hfailed => by cases hfailed⟩
      | some fill => exact ⟨by simp [State.succeed],fun _ => by simp [State.succeed,State.reserve,hallocated]⟩

variable {newCount : ℕ}

theorem memResize_granted (hwidth : s.memory.singleElementSize ≠ 0) (hcount : newCount ≠ 0)
    (hsize : s.memory.singleElementSize * newCount ≤ sizeMax)
    (hslab : roundUpToBlockSize (s.memory.singleElementSize * newCount) = some slabBytes) :
    ((memResize allocator newCount .plain s).succeeded = true ↔ s.reserve.Granted allocator slabBytes) ∧
      ((memResize allocator newCount .plain s).succeeded = true →
        (memResize allocator newCount .plain s).state.reserve = s.reserve.grown slabBytes) := by
  have hpos : slabBytes ≠ 0 := by
    obtain ⟨-,hcovered,-⟩ := roundUpToBlockSize_eq_some hslab hsize
    have hrequested : 0 < s.memory.singleElementSize * newCount := Nat.mul_pos (by omega) (by omega)
    omega
  by_cases hother : newCount = s.memory.length
  · obtain ⟨reserve,hreserve,hrounded⟩ := roundUpToBlockSize_of_le h.slabs h.covered h.addressable
    rw [← hother,hslab] at hrounded
    obtain rfl := Option.some.inj hrounded
    have hanswer : memResize allocator newCount .plain s = s.succeed := by
      rw [hother]
      exact memResize_same h allocator .plain (by omega)
    have hgrown : s.reserve.grown slabBytes = s.reserve := Reserve.grown_of_le hreserve
    rw [hanswer,hgrown]
    exact ⟨⟨fun _ => .inl hreserve,fun _ => rfl⟩,fun _ => rfl⟩
  · obtain ⟨hgranted,hgrown⟩ := resizeReserve_granted h allocator hpos
    rw [← hgranted]
    rcases memResize_reserve h allocator .plain hwidth hcount hother hsize hslab with
      ⟨heap,-,-,hreserve,hanswer⟩ | ⟨block,heap,-,-,hreserve,hanswer⟩
    · rw [hreserve,hanswer]
      exact ⟨⟨nofun,nofun⟩,nofun⟩
    · rw [hreserve] at hgrown
      rw [hreserve,hanswer]
      refine ⟨⟨fun _ => rfl,fun _ => rfl⟩,fun _ => ?_⟩
      rw [← hgrown rfl]
      simp [State.succeed,State.reserve]

end

end Precizer.Libmem
