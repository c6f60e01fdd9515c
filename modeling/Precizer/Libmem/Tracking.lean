import Precizer.Libmem.StringSources

/-! # Steps of an operation

An operation is made of resizes and of writes that leave the size of the descriptor alone. What
holds across each of these, and from one to the next, holds across the whole operation.
-/
namespace Precizer.Libmem
open General

/-- What the heap and the counters see of a descriptor. -/
structure Footprint where
  payloadBytes : ℕ
  allocatedBytes : ℕ
  active : Bool
  deriving DecidableEq

def Memory.footprint (m : Memory) : Footprint :=
  ⟨m.singleElementSize * m.length,m.actuallyAllocatedBytes,m.data.isSome⟩

/-- A relation that holds across every step that releases nothing. -/
structure Tracks (R : State → State → Prop) : Prop where
  refl : ∀ s, R s s
  trans : ∀ {s t u}, R s t → R t u → R s u
  resize : ∀ {s} allocator newCount flags, Sound s.memory → flags.releaseUnused = false →
    R s (memResize allocator newCount flags s).state
  write : ∀ {s} m, m.footprint = s.memory.footprint → R s { s with memory := m }

theorem footprint_written (m : Memory) (offset : ℕ) (bytes : List UInt8) : (m.written offset bytes).footprint = m.footprint := by
  simp [Memory.footprint,Memory.written]

theorem footprint_cutAt (m : Memory) (index : ℕ) : (m.cutAt index).footprint = m.footprint :=
  footprint_written m _ _

theorem footprint_memWriteZeroTerminator {m m' : Memory} {index : ℕ} (h : memWriteZeroTerminator m index = some m') :
    m'.footprint = m.footprint := by
  rw [memWriteZeroTerminator] at h
  split_ifs at h
  split at h
  · cases h
  · split at h
    · cases h
    · split_ifs at h
      rw [← Option.some.inj h,footprint_written]

section
variable {R : State → State → Prop} (hR : Tracks R)
include hR

theorem Tracks.alter {s : State} {change : Memory → Option Memory}
    (hchange : ∀ m', change s.memory = some m' → m'.footprint = s.memory.footprint) : R s (s.alter change).state := by
  rw [State.alter]
  split
  · exact hR.refl s
  · next m' hm' => exact hR.write m' (hchange m' hm')

theorem Tracks.run {s : State} {answer : Answer} {next : State → Answer} (hanswer : R s answer.state)
    (hnext : answer.succeeded = true → R answer.state (next answer.state).state) : R s (answer.run next).state := by
  rw [Answer.run]
  split
  · next hsucceeded => exact hR.trans hanswer (hnext hsucceeded)
  · exact hanswer

theorem placeString_tracks (offsetBytes visibleLength : ℕ) (bytes : List UInt8) (s : State) :
    R s (placeString offsetBytes visibleLength bytes s).state := by
  apply hR.run
  · apply hR.alter
    intro m' hm'
    rw [moveBytes] at hm'
    split_ifs at hm'
    rw [← Option.some.inj hm',footprint_written]
  · intro _
    apply hR.alter
    intro m' hm'
    obtain ⟨written,hwritten,rfl⟩ := Option.map_eq_some_iff.mp hm'
    have hsame := footprint_memWriteZeroTerminator hwritten
    exact hsame

theorem transferResized_tracks {s : State} (h : Sound s.memory) (allocator : Allocator) (source : Source)
    (inside : Option ℕ) (offsetBytes sourceBytes visibleLength newTotalElements : ℕ) :
    R s (transferResized allocator source inside offsetBytes sourceBytes visibleLength newTotalElements s).state :=
  hR.run (hR.resize allocator _ _ h rfl) fun _ => placeString_tracks hR _ _ _ _

variable {s : State} (h : Sound s.memory) (hstring : s.memory.isString = true) (hwidth : s.memory.singleElementSize ≠ 0)
  (allocator : Allocator)
include h hstring hwidth

theorem replaceInside_tracks (offset : ℕ) {sourceLength : ℕ} (hdata : s.memory.data ≠ none)
    (hindex : sourceLength < s.memory.length ∨ s.memory.length = 0 ∧ sourceLength = 0) :
    R s (replaceInside allocator offset (s.memory.singleElementSize * sourceLength) sourceLength (sourceLength + 1)
      s).state := by
  have hbytes : ((s.memory.block.drop offset).take (s.memory.singleElementSize * sourceLength)).length ≤
      s.memory.singleElementSize * sourceLength := List.length_take_le _ _
  obtain ⟨hroom,hcut,-,-⟩ := movedToFront h hstring hdata hindex hbytes
  have hplace := placeString_tracks hR 0 sourceLength
    ((s.memory.block.drop offset).take (s.memory.singleElementSize * sourceLength)) s
  rw [placeString_eq h hwidth hdata hroom] at hplace
  rw [replaceInside,placeString_eq h hwidth hdata hroom]
  exact hR.run hplace fun _ => hR.resize allocator _ _ hcut rfl

theorem transferMeasured_tracks (transfer : TransferMode) (source : Source) {inside : Option ℕ} {sourceLength : ℕ}
    (hwithin : inside ≠ none → s.memory.data ≠ none ∧
      (sourceLength < s.memory.length ∨ s.memory.length = 0 ∧ sourceLength = 0)) :
    R s (transferMeasured allocator transfer source inside sourceLength s).state := by
  rcases transferMeasured_cases h hstring hwidth allocator transfer source inside sourceLength rfl with
    ⟨-,-,hanswer⟩ | hanswer | ⟨offset,-,hoffset,hanswer⟩ | ⟨-,hanswer⟩
  · rw [hanswer]
    exact hR.refl s
  · rw [hanswer]
    exact hR.refl s
  · obtain ⟨hdata,hindex⟩ := hwithin (by simp [hoffset])
    rw [hanswer]
    exact replaceInside_tracks hR h hstring hwidth allocator offset hdata hindex
  · rw [hanswer]
    exact transferResized_tracks hR h allocator _ _ _ _ _ _

end

theorem memCoreString_tracks {R : State → State → Prop} (hR : Tracks R) {s : State} (h : Sound s.memory)
    (allocator : Allocator) (mode : SourceMode) (transfer : TransferMode) (rangeBytes : ℕ) (source : Source) :
    R s (memCoreString allocator mode transfer rangeBytes source s).state := by
  rcases memCoreString_cases h allocator mode transfer rangeBytes source with
    hanswer | ⟨hanswer,-⟩ | ⟨inside,sourceLength,hstring,hwidth,hwithin,-,-,hanswer⟩
  · rw [hanswer]
    exact hR.refl s
  · rw [hanswer]
    exact hR.refl s
  · rw [hanswer]
    exact transferMeasured_tracks hR h hstring hwidth allocator transfer source hwithin

/-- The live bytes of the heap change by those of the descriptor, and nothing is given back. -/
structure HeapStep (s s' : State) : Prop where
  liveBytes : s.memory.actuallyAllocatedBytes ≤ s.heap.liveBytes →
    s'.memory.actuallyAllocatedBytes ≤ s'.heap.liveBytes ∧
      s'.heap.liveBytes + s.memory.actuallyAllocatedBytes = s.heap.liveBytes + s'.memory.actuallyAllocatedBytes
  released : s'.heap.released = s.heap.released

theorem heapStep_tracks : Tracks HeapStep where
  refl s := ⟨fun hle => ⟨hle,rfl⟩,rfl⟩
  trans {s t u} hst htu := by
    refine ⟨fun hle => ?_,htu.released.trans hst.released⟩
    obtain ⟨hle',hlive⟩ := hst.liveBytes hle
    obtain ⟨hle'',hlive'⟩ := htu.liveBytes hle'
    exact ⟨hle'',by omega⟩
  resize {s} allocator newCount flags h hflag := by
    have hcases := memResize_cases h allocator newCount flags
    generalize memResize allocator newCount flags s = answer at hcases
    cases hcases with
    | refused heap hheap reason =>
      refine ⟨fun hle => ?_,hheap.released⟩
      dsimp only [State.fail]
      rw [hheap.liveBytes]
      exact ⟨hle,rfl⟩
    | kept => exact ⟨fun hle => ⟨hle,rfl⟩,rfl⟩
    | released hcount hrelease =>
      rw [hflag] at hrelease
      cases hrelease
    | emptied hcount hlength hkeep memory hmemory =>
      have hsame : memory.actuallyAllocatedBytes = s.memory.actuallyAllocatedBytes := by
        rw [hmemory]
        split <;> rfl
      refine ⟨fun hle => ?_,rfl⟩
      dsimp only [State.succeed]
      rw [hsame]
      exact ⟨hle,rfl⟩
    | sized hcount hwidth block heap hblock hheap =>
      refine ⟨fun hle => ?_,hheap.released⟩
      dsimp only [State.succeed]
      rw [hheap.liveBytes,Memory.resized_allocated]
      omega
  write {s} m hm := by
    have hsame : m.actuallyAllocatedBytes = s.memory.actuallyAllocatedBytes := congrArg Footprint.allocatedBytes hm
    refine ⟨fun hle => ?_,rfl⟩
    dsimp only
    rw [hsame]
    exact ⟨hle,rfl⟩

end Precizer.Libmem
