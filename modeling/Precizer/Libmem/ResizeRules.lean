import Precizer.Libmem.Resize

/-! # What a resize does

All that a resize can do to a sound descriptor, in one case analysis: it is refused, changes
nothing, releases or clears the block, or gives the descriptor another length in a block that
agrees with the old one as far as both go.
-/
namespace Precizer.Libmem
open General

/-- A block in which a resized descriptor may go on. -/
structure Reblocked (m : Memory) (newCount : ℕ) (flags : ResizeModes) (block : List UInt8) : Prop where
  slabs : memoryBlockBytes ∣ block.length
  covered : m.singleElementSize * newCount ≤ block.length
  addressable : block.length ≤ sizeMax
  same : ∀ n ≤ m.actuallyAllocatedBytes, n ≤ block.length → block.take n = m.block.take n
  shrunk : block.length < m.actuallyAllocatedBytes → flags.releaseUnused = true

structure Exchanged (m : Memory) (block : List UInt8) (heap heap' : Heap) : Prop where
  liveBytes : heap'.liveBytes = heap.liveBytes + block.length - m.actuallyAllocatedBytes
  addressable : heap.liveBytes ≤ sizeMax → heap'.liveBytes ≤ sizeMax
  allocations : heap'.allocations = heap.allocations + if m.data = none then 1 else 0
  released : heap'.released = heap.released

structure Asked (heap heap' : Heap) : Prop where
  liveBytes : heap'.liveBytes = heap.liveBytes
  allocations : heap'.allocations = heap.allocations
  released : heap'.released = heap.released

theorem Asked.refl (heap : Heap) : Asked heap heap := ⟨rfl,rfl,rfl⟩

/-- The block after the bytes that enter the payload were cleared, if they are to be. -/
def Memory.cleared (m : Memory) (block : List UInt8) (newCount : ℕ) (flags : ResizeModes) : List UInt8 :=
  let previous := m.singleElementSize * m.length
  let total := m.singleElementSize * newCount
  if flags.zeroNewMemory = true ∧ previous < total then overwrite block previous (List.replicate (total - previous) 0)
  else block

/-- The descriptor with another length in another block, before its string is cut. -/
def Memory.sized (m : Memory) (block : List UInt8) (newCount : ℕ) (flags : ResizeModes) : Memory :=
  { m with
    data := some (m.cleared block newCount flags)
    actuallyAllocatedBytes := block.length
    length := newCount
    stringLength := if 0 < m.length then min m.stringLength (newCount - 1) else 0 }

def Memory.resized (m : Memory) (block : List UInt8) (newCount : ℕ) (flags : ResizeModes) : Memory :=
  if m.isString then (m.sized block newCount flags).cutAt (m.sized block newCount flags).stringLength
  else m.sized block newCount flags

/-- The counters after the descriptor got another length in another block. -/
def Telemetry.resized (t : Telemetry) (m : Memory) (block : List UInt8) (newCount : ℕ) : Telemetry :=
  let previous := m.singleElementSize * m.length
  let total := m.singleElementSize * newCount
  ((t.reserveChanged m block.length).payloadChanged previous total).overheadChanged
    (m.actuallyAllocatedBytes - previous) (block.length - total)

/-- Why a resize may be refused. -/
inductive ResizeRefusal (allocator : Allocator) (newCount : ℕ) (flags : ResizeModes) (s : State) : Prop
  | uninitialized (h : s.memory.singleElementSize = 0)
  | sizeOverflow (h : sizeMax < s.memory.singleElementSize * newCount)
  | roundingOverflow (h : roundUpToBlockSize (s.memory.singleElementSize * newCount) = none)
  | outOfMemory (slabBytes kept : ℕ) (hslab : roundUpToBlockSize (s.memory.singleElementSize * newCount) = some slabBytes)
      (hneeds : s.memory.data = none ∨ s.memory.actuallyAllocatedBytes < slabBytes ∨
        flags.releaseUnused = true ∧ slabBytes < s.memory.actuallyAllocatedBytes)
      (h : s.heap.serve allocator kept slabBytes = none)

/-- What a resize does to a sound descriptor. -/
inductive Resized (allocator : Allocator) (newCount : ℕ) (flags : ResizeModes) (s : State) : Answer → Prop
  | refused (heap : Heap) (hheap : Asked s.heap heap) (reason : ResizeRefusal allocator newCount flags s) :
      Resized allocator newCount flags s { s with heap := heap }.fail
  | kept (hcount : newCount = s.memory.length)
      (hempty : newCount = 0 → flags.releaseUnused = true → s.memory.actuallyAllocatedBytes = 0) :
      Resized allocator newCount flags s s.succeed
  | released (hcount : newCount = 0) (hflag : flags.releaseUnused = true)
      (hallocated : 0 < s.memory.actuallyAllocatedBytes)
      (hdelete : (memDelete { s with telemetry :=
        s.telemetry.releaseUnusedBytesReleased s.memory.actuallyAllocatedBytes }).succeeded = true) :
      Resized allocator newCount flags s
        (memDelete { s with telemetry := s.telemetry.releaseUnusedBytesReleased s.memory.actuallyAllocatedBytes })
  | emptied (hcount : newCount = 0) (hlength : 0 < s.memory.length)
      (hkeep : ¬ (flags.releaseUnused = true ∧ 0 < s.memory.actuallyAllocatedBytes)) (memory : Memory)
      (hmemory : memory = if s.memory.isString then { s.memory.zeroAt 0 with length := 0, stringLength := 0 }
        else { s.memory with length := 0, stringLength := 0 }) :
      Resized allocator newCount flags s (State.succeed ⟨memory,
        (s.telemetry.currentPayloadBytesRemoved (s.memory.singleElementSize * s.memory.length)).blockOverheadBytesAdded
          (s.memory.singleElementSize * s.memory.length),s.heap⟩)
  | sized (hcount : newCount ≠ 0) (hwidth : s.memory.singleElementSize ≠ 0) (block : List UInt8) (heap : Heap)
      (hblock : Reblocked s.memory newCount flags block) (hheap : Exchanged s.memory block s.heap heap) :
      Resized allocator newCount flags s (State.succeed ⟨s.memory.resized block newCount flags,
        s.telemetry.resized s.memory block newCount,heap⟩)

theorem roundUpToBlockSize_eq_some {requested slabBytes : ℕ} (h : roundUpToBlockSize requested = some slabBytes)
    (hrequested : requested ≤ sizeMax) :
    memoryBlockBytes ∣ slabBytes ∧ requested ≤ slabBytes ∧ slabBytes < requested + memoryBlockBytes ∧
      slabBytes ≤ sizeMax := by
  have hslab : 0 < memoryBlockBytes := by decide
  rw [roundUpToBlockSize] at h
  dsimp only at h
  split_ifs at h with hzero hwhole hover
  · obtain rfl := Option.some.inj h
    exact ⟨Nat.dvd_zero _,by omega,by omega,Nat.zero_le _⟩
  · obtain rfl := Option.some.inj h
    exact ⟨Nat.dvd_of_mod_eq_zero hwhole,le_rfl,by omega,hrequested⟩
  · obtain rfl := Option.some.inj h
    simp only [sizeMax,memoryBlockBytes] at *
    omega

theorem roundUpToBlockSize_of_le {requested reserve : ℕ} (hslabs : memoryBlockBytes ∣ reserve)
    (hle : requested ≤ reserve) (hreserve : reserve ≤ sizeMax) :
    ∃ slabBytes ≤ reserve, roundUpToBlockSize requested = some slabBytes := by
  rw [roundUpToBlockSize]
  dsimp only
  split_ifs with hzero hwhole hover
  · exact ⟨0,by omega,rfl⟩
  · exact ⟨requested,hle,rfl⟩
  · simp only [sizeMax,memoryBlockBytes] at *
    omega
  · refine ⟨_,?_,rfl⟩
    simp only [sizeMax,memoryBlockBytes] at *
    omega

theorem length_cleared {m : Memory} {block : List UInt8} {newCount : ℕ} {flags : ResizeModes}
    (hcovered : m.singleElementSize * newCount ≤ block.length) :
    (m.cleared block newCount flags).length = block.length := by
  rw [Memory.cleared]
  split
  · next hgrows =>
    apply length_overwrite
    simp
    omega
  · rfl

section
variable {m : Memory} (h : Sound m)
include h

theorem resizeAccepts_sound (hwidth : m.singleElementSize ≠ 0) :
    resizeAccepts m = some (m.singleElementSize * m.length) := by
  have hdata : ¬(0 < m.length ∧ m.data = none) := h.payload_present
  have hallocated : ¬(0 < m.actuallyAllocatedBytes ∧ m.data = none) := h.heap_present
  have hmode : ¬(m.isString = false ∧ m.stringLength ≠ 0) := fun hboth => hboth.2 (h.dataMode hboth.1)
  have hbytes : memGuardedByteSize m m.length = some (m.singleElementSize * m.length) :=
    h.byteSize hwidth
  have hcovered := h.covered
  have hinside : ¬(m.isString = true ∧ 0 < m.length ∧ m.length ≤ m.stringLength) := by
    rintro ⟨hstring,hlength,hle⟩
    have hcases := h.stringMode hstring
    omega
  have hempty : ¬(m.isString = true ∧ m.length = 0 ∧ m.stringLength ≠ 0) := by
    rintro ⟨hstring,hlength,hne⟩
    have hcases := h.stringMode hstring
    omega
  rw [resizeAccepts,if_neg hwidth,if_neg hdata,if_neg hmode,hbytes]
  dsimp only
  rw [if_neg hallocated,if_neg (by omega),if_neg hinside,if_neg hempty]

theorem Sound.sized (hwidth : m.singleElementSize ≠ 0) {newCount : ℕ} (hcount : newCount ≠ 0)
    {flags : ResizeModes} {block : List UInt8} (hblock : Reblocked m newCount flags block) :
    Sound (m.sized block newCount flags) := by
  have hroom : m.singleElementSize ≤ block.length :=
    (Nat.le_mul_of_pos_right _ (Nat.pos_of_ne_zero hcount)).trans hblock.covered
  refine ⟨length_cleared hblock.covered,?_,fun hzero => absurd hzero hwidth,hblock.covered,fun _ => hroom,
    hblock.addressable,hblock.slabs,?_,fun _ => .inl ?_⟩
  · simp only [Memory.sized,reduceCtorEq,false_iff]
    omega
  · intro hdata
    have hstringLength := h.dataMode hdata
    simp [Memory.sized,hstringLength]
  · simp only [Memory.sized]
    split <;> omega

theorem Sound.resized (hwidth : m.singleElementSize ≠ 0) {newCount : ℕ} (hcount : newCount ≠ 0)
    {flags : ResizeModes} {block : List UInt8} (hblock : Reblocked m newCount flags block) :
    Sound (m.resized block newCount flags) := by
  have hsized := h.sized hwidth hcount hblock
  rw [Memory.resized]
  split
  · next hstring =>
    exact hsized.cutAt hstring ((hsized.stringMode hstring).resolve_right (fun hboth => hcount hboth.1))
  · exact hsized

theorem setLength_sized (hwidth : m.singleElementSize ≠ 0) {newCount : ℕ} (hcount : newCount ≠ 0)
    {flags : ResizeModes} {block : List UInt8} (hblock : Reblocked m newCount flags block) :
    setLength m.length m.stringLength newCount
        { m with
          data := some (m.cleared block newCount flags)
          actuallyAllocatedBytes := block.length } = some (m.resized block newCount flags) := by
  have hsized := h.sized hwidth hcount hblock
  rw [setLength,Memory.resized]
  cases hmode : m.isString with
  | true =>
    have htruncate := memStringTruncate_sound hsized hmode hwidth (m.sized block newCount flags).stringLength
    have hcut : ¬((m.sized block newCount flags).length = 0 ∨
        (m.sized block newCount flags).stringLength < (m.sized block newCount flags).stringLength) := by
      rintro (hzero | hless)
      · exact hcount hzero
      · exact lt_irrefl _ hless
    rw [if_neg hcut] at htruncate
    simpa [Memory.sized,hmode] using htruncate
  | false => simp [Memory.sized,hmode,h.dataMode hmode]

end

section
variable {s : State} (h : Sound s.memory)
include h

/-- The reserve of a sound descriptor changes as a whole or not at all. -/
theorem resizeReserve_cases (allocator : Allocator) {newCount slabBytes : ℕ} (flags : ResizeModes)
    (hslab : roundUpToBlockSize (s.memory.singleElementSize * newCount) = some slabBytes)
    (hsize : s.memory.singleElementSize * newCount ≤ sizeMax) :
    (∃ heap, Asked s.heap heap ∧ ResizeRefusal allocator newCount flags s ∧
      resizeReserve allocator slabBytes flags s = { s with heap := heap }.fail) ∨
    ∃ block heap, Reblocked s.memory newCount flags block ∧ Exchanged s.memory block s.heap heap ∧
      resizeReserve allocator slabBytes flags s = State.succeed
        ⟨{ s.memory with data := some block, actuallyAllocatedBytes := block.length },
          s.telemetry.reserveChanged s.memory block.length,heap⟩ := by
  obtain ⟨hslabs,hcovered,-,haddressable⟩ := roundUpToBlockSize_eq_some hslab hsize
  have hlength := h.blockLength
  rw [resizeReserve]
  split
  · next hmoves =>
    cases hdata : s.memory.data with
    | none =>
      have hnothing : s.memory.actuallyAllocatedBytes = 0 := h.allocated.mp hdata
      cases hserve : s.heap.serve allocator s.heap.liveBytes slabBytes with
      | none =>
        refine .inl ⟨{ s.heap with calls := s.heap.calls + 1 },⟨rfl,rfl,rfl⟩,
          .outOfMemory slabBytes _ hslab (.inl hdata) hserve,?_⟩
        simp [Heap.malloc,hserve]
      | some fill =>
        have hfit : s.heap.liveBytes + slabBytes ≤ sizeMax := by
          by_contra hover
          simp [Heap.serve,hover] at hserve
        refine .inr ⟨(List.range slabBytes).map fill,
          { s.heap with
            calls := s.heap.calls + 1
            liveBytes := s.heap.liveBytes + slabBytes
            allocations := s.heap.allocations + 1 },⟨?_,?_,?_,?_,?_⟩,⟨?_,?_,?_,rfl⟩,?_⟩
        · simpa using hslabs
        · simpa using hcovered
        · simpa using haddressable
        · intro n hn _
          have hzero : n = 0 := by omega
          simp [hzero]
        · simp [hnothing]
        · simp [hnothing]
        · intro _
          exact hfit
        · simp [hdata]
        · simp [Heap.malloc,hserve]
    | some old =>
      have hold : s.memory.block = old := by simp [Memory.block,hdata]
      rw [hold] at hlength
      simp only [hdata,reduceCtorEq,false_or] at hmoves
      cases hserve : s.heap.serve allocator (s.heap.liveBytes - old.length) slabBytes with
      | none =>
        refine .inl ⟨{ s.heap with calls := s.heap.calls + 1 },⟨rfl,rfl,rfl⟩,
          .outOfMemory slabBytes _ hslab (.inr hmoves) hserve,?_⟩
        simp [Heap.realloc,hserve]
      | some fill =>
        have hfit : s.heap.liveBytes - old.length + slabBytes ≤ sizeMax := by
          by_contra hover
          simp [Heap.serve,hover] at hserve
        have hnew : (old.take slabBytes ++ (List.range (slabBytes - old.length)).map fill).length = slabBytes := by
          simp
          omega
        refine .inr ⟨old.take slabBytes ++ (List.range (slabBytes - old.length)).map fill,
          { s.heap with
            calls := s.heap.calls + 1
            liveBytes := s.heap.liveBytes + slabBytes - old.length },⟨?_,?_,?_,?_,?_⟩,⟨?_,?_,?_,rfl⟩,?_⟩
        · rwa [hnew]
        · rwa [hnew]
        · rwa [hnew]
        · intro n hn hnslab
          rw [hnew] at hnslab
          have hshort : n ≤ (old.take slabBytes).length := by
            simp only [List.length_take]
            omega
          rw [List.take_append_of_le_length hshort,List.take_take,Nat.min_eq_left hnslab,hold]
        · rw [hnew]
          intro hless
          exact (hmoves.resolve_left (by omega)).1
        · rw [hnew,hlength]
        · intro hlive
          dsimp only
          omega
        · simp [hdata]
        · simp [Heap.realloc,hserve,hnew]
  · next hstays =>
    simp only [not_or,not_lt] at hstays
    obtain ⟨hdata,hle,hnoshrink⟩ := hstays
    obtain ⟨block,hblock⟩ := Option.ne_none_iff_exists'.mp hdata
    have hsame : s.memory.block = block := by simp [Memory.block,hblock]
    rw [hsame] at hlength
    refine .inr ⟨block,s.heap,⟨?_,?_,?_,?_,?_⟩,⟨?_,fun hlive => hlive,?_,rfl⟩,?_⟩
    · rw [hlength]
      exact h.slabs
    · omega
    · rw [hlength]
      exact h.addressable
    · intro n _ _
      rw [hsame]
    · omega
    · omega
    · simp [hblock]
    · have hmemory : ({ s.memory with data := some block, actuallyAllocatedBytes := block.length } : Memory) = s.memory := by
        rw [← hblock,hlength]
      have htelemetry : s.telemetry.reserveChanged s.memory block.length = s.telemetry := by
        simp [Telemetry.reserveChanged,hblock,hlength]
      rw [hmemory,htelemetry]

theorem memDelete_sound (hwidth : s.memory.singleElementSize ≠ 0) : (memDelete s).succeeded = true := by
  have hdata : ¬(0 < s.memory.length ∧ s.memory.data = none) := h.payload_present
  have hbytes : memGuardedByteSize s.memory s.memory.length = some (s.memory.singleElementSize * s.memory.length) :=
    h.byteSize hwidth
  rw [memDelete]
  dsimp only
  rw [if_neg hdata,hbytes]
  rfl

theorem memDelete_memory : (memDelete s).state.memory = s.memory.emptied := by
  have hdata : ¬(0 < s.memory.length ∧ s.memory.data = none) := h.payload_present
  rw [memDelete]
  dsimp only
  rw [if_neg hdata]

theorem memDelete_heap : (memDelete s).state.heap =
    match s.memory.data with
    | none => s.heap
    | some block => s.heap.free block := by
  have hdata : ¬(0 < s.memory.length ∧ s.memory.data = none) := h.payload_present
  unfold memDelete
  exact congrArg (fun answer : Answer => answer.state.heap) (if_neg hdata)

theorem memResize_reserve (allocator : Allocator) {newCount slabBytes : ℕ} (flags : ResizeModes)
    (hwidth : s.memory.singleElementSize ≠ 0) (hcount : newCount ≠ 0) (hother : newCount ≠ s.memory.length)
    (hsize : s.memory.singleElementSize * newCount ≤ sizeMax)
    (hslab : roundUpToBlockSize (s.memory.singleElementSize * newCount) = some slabBytes) :
    (∃ heap, Asked s.heap heap ∧ ResizeRefusal allocator newCount flags s ∧
      resizeReserve allocator slabBytes flags s = { s with heap := heap }.fail ∧
      memResize allocator newCount flags s = { s with heap := heap }.fail) ∨
    ∃ block heap, Reblocked s.memory newCount flags block ∧ Exchanged s.memory block s.heap heap ∧
      resizeReserve allocator slabBytes flags s = State.succeed
        ⟨{ s.memory with data := some block, actuallyAllocatedBytes := block.length },
          s.telemetry.reserveChanged s.memory block.length,heap⟩ ∧
      memResize allocator newCount flags s = State.succeed ⟨s.memory.resized block newCount flags,
        s.telemetry.resized s.memory block newCount,heap⟩ := by
  have htotal : memGuardedByteSize s.memory newCount = some (s.memory.singleElementSize * newCount) :=
    memGuardedByteSize_eq_some.mpr ⟨hwidth,hsize,rfl⟩
  rw [memResize,resizeAccepts_sound h hwidth]
  dsimp only
  rw [if_neg (fun hboth => hother hboth.1),htotal]
  dsimp only
  rw [if_neg hcount,hslab]
  dsimp only
  rcases resizeReserve_cases h allocator flags hslab hsize with
    ⟨heap,hheap,reason,hfail⟩ | ⟨block,heap,hblock,hheap,hreserve⟩
  · rw [hfail]
    exact .inl ⟨heap,hheap,reason,rfl,rfl⟩
  · have hzero : zeroNewPayload (s.memory.singleElementSize * s.memory.length)
        (s.memory.singleElementSize * newCount) flags
        { s.memory with data := some block, actuallyAllocatedBytes := block.length } =
        some { s.memory with
          data := some (s.memory.cleared block newCount flags)
          actuallyAllocatedBytes := block.length } := by
      rw [zeroNewPayload,Memory.cleared]
      dsimp only
      split <;> rfl
    have hallocated : (s.memory.resized block newCount flags).actuallyAllocatedBytes = block.length := by
      rw [Memory.resized]
      split <;> rfl
    refine .inr ⟨block,heap,hblock,hheap,hreserve,?_⟩
    rw [hreserve]
    simp only [State.succeed,Answer.run,if_true,State.alter,hzero,setLength_sized h hwidth hcount hblock]
    rw [hallocated]
    rfl

theorem memResize_nothing (allocator : Allocator) (flags : ResizeModes) (hwidth : s.memory.singleElementSize ≠ 0) :
    Resized allocator 0 flags s (memResize allocator 0 flags s) := by
  have htotal : memGuardedByteSize s.memory 0 = some (s.memory.singleElementSize * 0) :=
    memGuardedByteSize_eq_some.mpr ⟨hwidth,by simp,rfl⟩
  rw [memResize,resizeAccepts_sound h hwidth]
  dsimp only
  split
  · next hnothing =>
    refine .kept hnothing.1 ?_
    rintro - hflag
    simpa [hflag] using hnothing.2
  next hsomething =>
  rw [htotal]
  dsimp only
  rw [if_pos rfl,resizeToNothing]
  dsimp only
  split
  · next hrelease =>
    exact .released rfl hrelease.1 hrelease.2 (memDelete_sound (s := { s with telemetry := _ }) h hwidth)
  · next hkeep =>
    have hlength : 0 < s.memory.length := by
      by_contra hempty
      have hallocated : ¬(flags.releaseUnused = false ∨ s.memory.actuallyAllocatedBytes = 0) :=
        fun hcases => hsomething ⟨by omega,.inr hcases⟩
      simp only [not_or,Bool.not_eq_false] at hallocated
      exact hkeep ⟨hallocated.1,by omega⟩
    have hpayload : 0 < s.memory.singleElementSize * s.memory.length := Nat.mul_pos (by omega) hlength
    rw [if_pos hpayload]
    split
    · next hstring =>
      have hwrite : memWriteZeroTerminator { s.memory with length := 0, stringLength := 0 } 0 =
          some { s.memory.zeroAt 0 with length := 0, stringLength := 0 } :=
        (memWriteZeroTerminator_eq_some (m := { s.memory with length := 0, stringLength := 0 }) h.addressable).mpr
          ⟨hwidth,hstring.2.1,by simpa using hstring.2.2,rfl⟩
      simp only [State.alter,hwrite]
      exact .emptied rfl hlength hkeep _ (by rw [if_pos hstring.1])
    · next hplain =>
      have hdata : s.memory.isString = false := by
        by_contra hstring
        exact hplain ⟨by simpa using hstring,h.data_of_length hlength,h.room (h.allocated_pos hlength)⟩
      exact .emptied rfl hlength hkeep _ (by simp [hdata])

theorem memResize_same (allocator : Allocator) (flags : ResizeModes) (hlength : 0 < s.memory.length) :
    memResize allocator s.memory.length flags s = s.succeed := by
  have hwidth : s.memory.singleElementSize ≠ 0 := fun hzero => by
    have hempty := (h.initialized hzero).1
    omega
  rw [memResize,resizeAccepts_sound h hwidth]
  dsimp only
  rw [if_pos ⟨rfl,.inl (by omega)⟩]

theorem memResize_cases (allocator : Allocator) (newCount : ℕ) (flags : ResizeModes) :
    Resized allocator newCount flags s (memResize allocator newCount flags s) := by
  by_cases hwidth : s.memory.singleElementSize = 0
  · have haccepts : resizeAccepts s.memory = none := by rw [resizeAccepts,if_pos hwidth]
    rw [memResize,haccepts]
    exact .refused s.heap (Asked.refl _) (.uninitialized hwidth)
  by_cases hcount : newCount = 0
  · subst hcount
    exact memResize_nothing h allocator flags hwidth
  by_cases hother : newCount = s.memory.length
  · subst hother
    rw [memResize_same h allocator flags (by omega)]
    exact .kept rfl (fun hzero => absurd hzero hcount)
  have hstart : ¬(newCount = s.memory.length ∧
      (newCount ≠ 0 ∨ flags.releaseUnused = false ∨ s.memory.actuallyAllocatedBytes = 0)) := fun hboth => hother hboth.1
  cases htotal : memGuardedByteSize s.memory newCount with
  | none =>
    rw [memResize,resizeAccepts_sound h hwidth]
    dsimp only
    rw [if_neg hstart,htotal]
    refine .refused s.heap (Asked.refl _) (.sizeOverflow ?_)
    by_contra hfit
    have hsome := memGuardedByteSize_eq_some.mpr ⟨hwidth,Nat.le_of_not_lt hfit,rfl⟩
    rw [htotal] at hsome
    cases hsome
  | some total =>
    obtain ⟨-,hsize,rfl⟩ := memGuardedByteSize_eq_some.mp htotal
    cases hslab : roundUpToBlockSize (s.memory.singleElementSize * newCount) with
    | none =>
      rw [memResize,resizeAccepts_sound h hwidth]
      dsimp only
      rw [if_neg hstart,htotal]
      dsimp only
      rw [if_neg hcount,hslab]
      exact .refused s.heap (Asked.refl _) (.roundingOverflow hslab)
    | some slabBytes =>
      rcases memResize_reserve h allocator flags hwidth hcount hother hsize hslab with
        ⟨heap,hheap,reason,-,hanswer⟩ | ⟨block,heap,hblock,hheap,-,hanswer⟩
      · rw [hanswer]
        exact .refused heap hheap reason
      · rw [hanswer]
        exact .sized hcount hwidth block heap hblock hheap

end

@[simp] theorem Memory.resized_length (m : Memory) (block : List UInt8) (newCount : ℕ) (flags : ResizeModes) :
    (m.resized block newCount flags).length = newCount := by
  rw [Memory.resized]
  split <;> rfl

@[simp] theorem Memory.resized_singleElementSize (m : Memory) (block : List UInt8) (newCount : ℕ) (flags : ResizeModes) :
    (m.resized block newCount flags).singleElementSize = m.singleElementSize := by
  rw [Memory.resized]
  split <;> rfl

@[simp] theorem Memory.resized_isString (m : Memory) (block : List UInt8) (newCount : ℕ) (flags : ResizeModes) :
    (m.resized block newCount flags).isString = m.isString := by
  rw [Memory.resized]
  split <;> rfl

@[simp] theorem Memory.resized_allocated (m : Memory) (block : List UInt8) (newCount : ℕ) (flags : ResizeModes) :
    (m.resized block newCount flags).actuallyAllocatedBytes = block.length := by
  rw [Memory.resized]
  split <;> rfl

theorem Memory.resized_data (m : Memory) (block : List UInt8) (newCount : ℕ) (flags : ResizeModes) :
    (m.resized block newCount flags).data ≠ none := by
  rw [Memory.resized]
  split <;> simp [Memory.sized,Memory.cutAt,Memory.zeroAt,Memory.written]

section
variable {m : Memory} (h : Sound m) {newCount : ℕ} {flags : ResizeModes} {block : List UInt8}
  (hblock : Reblocked m newCount flags block)
include h

theorem Memory.resized_stringLength :
    (m.resized block newCount flags).stringLength = min m.stringLength (newCount - 1) := by
  have hsized : (m.sized block newCount flags).stringLength = min m.stringLength (newCount - 1) := by
    simp only [Memory.sized]
    split
    · rfl
    · next hlength =>
      have hzero : m.stringLength = 0 := by
        cases hmode : m.isString with
        | true =>
          have hcases := h.stringMode hmode
          omega
        | false => exact h.dataMode hmode
      simp [hzero]
  rw [Memory.resized]
  split
  · exact hsized
  · exact hsized

theorem block_resized : (m.resized block newCount flags).block =
    if m.isString then
      overwrite (m.cleared block newCount flags) (m.singleElementSize * min m.stringLength (newCount - 1))
        (zeroElement UInt8 m.singleElementSize)
    else m.cleared block newCount flags := by
  have hstringLength : (m.resized block newCount flags).stringLength = min m.stringLength (newCount - 1) :=
    Memory.resized_stringLength h
  rw [Memory.resized] at hstringLength ⊢
  split
  · next hmode =>
    rw [if_pos hmode] at hstringLength
    rw [← hstringLength]
    rfl
  · rfl

theorem Sound.stringLength_le : m.stringLength ≤ m.length := by
  cases hmode : m.isString with
  | true =>
    have hcases := h.stringMode hmode
    omega
  | false =>
    have hzero := h.dataMode hmode
    omega

include hblock

theorem take_cleared {n : ℕ} (hold : n ≤ m.singleElementSize * m.length) (hnew : n ≤ m.singleElementSize * newCount) :
    (m.cleared block newCount flags).take n = m.block.take n := by
  have hcovered := h.covered
  have hcoveredNew := hblock.covered
  have hsame := hblock.same n (by omega) (by omega)
  rw [Memory.cleared]
  split
  · next hgrows => rw [take_overwrite_of_le (by omega) hold,hsame]
  · exact hsame

theorem take_resized {n : ℕ} (hold : n ≤ m.singleElementSize * m.length) (hnew : n ≤ m.singleElementSize * newCount)
    (hstring : m.isString = true → n ≤ m.singleElementSize * min m.stringLength (newCount - 1)) :
    (m.resized block newCount flags).block.take n = m.block.take n := by
  have hcleared := take_cleared h hblock hold hnew
  rw [block_resized h]
  split
  · next hmode =>
    have hroom : m.singleElementSize * min m.stringLength (newCount - 1) ≤ (m.cleared block newCount flags).length := by
      have hle : min m.stringLength (newCount - 1) ≤ newCount := by omega
      rw [length_cleared hblock.covered]
      exact (Nat.mul_le_mul_left _ hle).trans hblock.covered
    rw [take_overwrite_of_le hroom (hstring hmode),hcleared]
  · exact hcleared

theorem visibleString_resized :
    (m.resized block newCount flags).visibleString = m.visibleString.take (m.singleElementSize * (newCount - 1)) := by
  have hle := h.stringLength_le
  have hold : min m.stringLength (newCount - 1) ≤ m.length := by omega
  have hnew : min m.stringLength (newCount - 1) ≤ newCount := by omega
  rw [Memory.visibleString,Memory.visibleString,Memory.resized_stringLength h,Memory.resized_singleElementSize,
    take_resized h hblock (Nat.mul_le_mul_left _ hold) (Nat.mul_le_mul_left _ hnew) (fun _ => le_rfl),List.take_take,
    ← Nat.mul_min_mul_left,Nat.min_comm]

theorem payload_resized (hdata : m.isString = false) :
    (m.resized block newCount flags).payload.take (m.singleElementSize * m.length) =
      m.payload.take (m.singleElementSize * newCount) := by
  have hcommon := take_resized h hblock (n := min (m.singleElementSize * m.length) (m.singleElementSize * newCount))
    (by omega) (by omega) (fun hstring => by simp [hdata] at hstring)
  rw [Memory.payload,Memory.payload,List.take_take,List.take_take,Memory.resized_length,Memory.resized_singleElementSize,
    hcommon,Nat.min_comm]

theorem Terminated.resized (hwidth : m.singleElementSize ≠ 0) (hcount : newCount ≠ 0) :
    Terminated (m.resized block newCount flags) := by
  have hsized := h.sized hwidth hcount hblock
  rw [Memory.resized]
  split
  · next hstring =>
    exact Memory.terminated_cutAt hsized ((hsized.stringMode hstring).resolve_right (fun hboth => hcount hboth.1))
  · next hstring =>
    intro hmode
    exact absurd hmode hstring

theorem element_resized (hwidth : m.singleElementSize ≠ 0) (hzero : flags.zeroNewMemory = true) {index : ℕ}
    (hold : m.length ≤ index) (hnew : index < newCount) :
    element m.singleElementSize (m.resized block newCount flags).block index = zeroElement UInt8 m.singleElementSize := by
  have hgrows : m.singleElementSize * m.length < m.singleElementSize * newCount :=
    Nat.mul_lt_mul_of_pos_left (by omega) (by omega)
  have hcovered := hblock.covered
  have hcleared : element m.singleElementSize (m.cleared block newCount flags) index =
      zeroElement UInt8 m.singleElementSize := by
    rw [Memory.cleared,if_pos ⟨hzero,hgrows⟩]
    exact element_zeros (by omega) hold hnew
  rw [block_resized h]
  split
  · have hroom : m.singleElementSize * (min m.stringLength (newCount - 1) + 1) ≤ (m.cleared block newCount flags).length := by
      have hle : min m.stringLength (newCount - 1) + 1 ≤ newCount := by omega
      rw [length_cleared hcovered]
      exact (Nat.mul_le_mul_left _ hle).trans hcovered
    rcases eq_or_ne index (min m.stringLength (newCount - 1)) with rfl | hne
    · exact element_overwrite_self (length_zeroElement _) ((Nat.mul_le_mul_left _ (Nat.le_succ _)).trans hroom)
    · rw [element_overwrite_of_ne (length_zeroElement _) hroom hne,hcleared]
  · exact hcleared

end

end Precizer.Libmem
