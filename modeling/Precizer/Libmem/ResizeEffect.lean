import Precizer.Libmem.ResizeRules

/-! # The effect of a resize

What callers rely on: a successful resize gives exactly the requested number of elements and
keeps what fits into them, a refused one leaves the descriptor as it was.
-/
namespace Precizer.Libmem
open General

/-- What a successful resize leaves of a descriptor. -/
structure ExactResize (m : Memory) (newCount : ℕ) (flags : ResizeModes) (m' : Memory) : Prop where
  length : m'.length = newCount
  format : m'.singleElementSize = m.singleElementSize ∧ m'.isString = m.isString
  payload : m.isString = false →
    m'.payload.take (m.singleElementSize * m.length) = m.payload.take (m.singleElementSize * newCount)
  string : m.isString = true → m'.visibleString = m.visibleString.take (m.singleElementSize * (newCount - 1))
  stringLength : m.isString = true → m'.stringLength = min m.stringLength (newCount - 1)
  terminator : m.isString = true → 0 < newCount →
    element m.singleElementSize m'.block m'.stringLength = zeroElement UInt8 m.singleElementSize
  zeroed : flags.zeroNewMemory = true → ∀ i, m.length ≤ i → i < newCount →
    element m.singleElementSize m'.block i = zeroElement UInt8 m.singleElementSize
  sound : Sound m'
  shrunk : m'.actuallyAllocatedBytes < m.actuallyAllocatedBytes → flags.releaseUnused = true

theorem sound_emptied (m : Memory) : Sound m.emptied where
  blockLength := rfl
  allocated := by simp [Memory.emptied]
  initialized := fun _ => ⟨rfl,rfl⟩
  covered := by simp [Memory.emptied]
  room := fun hpos => absurd hpos (lt_irrefl 0)
  addressable := Nat.zero_le _
  slabs := Nat.dvd_zero _
  dataMode := fun _ => rfl
  stringMode := fun _ => .inr ⟨rfl,rfl⟩

theorem Sound.unused {m : Memory} (h : Sound m) : Sound { m with length := 0, stringLength := 0 } :=
  ⟨h.blockLength,h.allocated,fun hzero => ⟨rfl,(h.initialized hzero).2⟩,by simp,h.room,h.addressable,h.slabs,
    fun _ => rfl,fun _ => .inr ⟨rfl,rfl⟩⟩

theorem ExactResize.terminated {m m' : Memory} {newCount : ℕ} {flags : ResizeModes}
    (hexact : ExactResize m newCount flags m') : Terminated m' := by
  intro hmode hlength
  rw [hexact.format.1]
  exact hexact.terminator (hexact.format.2 ▸ hmode) (hexact.length ▸ hlength)

section
variable {m : Memory}

theorem exactResize_self (h : Sound m) (hterminated : Terminated m) (flags : ResizeModes) : ExactResize m m.length flags m := by
  refine ⟨rfl,⟨rfl,rfl⟩,fun _ => rfl,?_,?_,fun hstring hlength => hterminated hstring hlength,?_,h,fun hless => absurd hless (lt_irrefl _)⟩
  · intro hstring
    have hle : m.stringLength ≤ m.length - 1 := by
      have hcases := h.stringMode hstring
      omega
    have hshort : m.visibleString.length ≤ m.singleElementSize * (m.length - 1) := by
      calc m.visibleString.length ≤ m.singleElementSize * m.stringLength := List.length_take_le _ _
        _ ≤ m.singleElementSize * (m.length - 1) := Nat.mul_le_mul_left _ hle
    rw [List.take_of_length_le hshort]
  · intro hstring
    have hcases := h.stringMode hstring
    omega
  · intro _ i hold hnew
    omega

/-- A descriptor without elements in use, in the block it had or without one. -/
theorem exactResize_nothing {flags : ResizeModes} {m' : Memory} (hlength : m'.length = 0) (hstringLength : m'.stringLength = 0)
    (hformat : m'.singleElementSize = m.singleElementSize ∧ m'.isString = m.isString)
    (hsound : Sound m')
    (hshrunk : m'.actuallyAllocatedBytes < m.actuallyAllocatedBytes → flags.releaseUnused = true) :
    ExactResize m 0 flags m' := by
  refine ⟨hlength,hformat,?_,?_,?_,fun _ hpos => absurd hpos (lt_irrefl 0),?_,hsound,hshrunk⟩
  · intro _
    simp [Memory.payload,hlength]
  · intro _
    simp [Memory.visibleString,hstringLength]
  · intro _
    simp [hstringLength]
  · intro _ i _ hi
    omega

theorem exactResize_resized (h : Sound m) (hwidth : m.singleElementSize ≠ 0) {newCount : ℕ} (hcount : newCount ≠ 0) {flags : ResizeModes}
    {block : List UInt8} (hblock : Reblocked m newCount flags block) :
    ExactResize m newCount flags (m.resized block newCount flags) := by
  have hsound := h.resized hwidth hcount hblock
  have hterminated := Terminated.resized h hblock hwidth hcount
  refine ⟨by simp,⟨by simp,by simp⟩,payload_resized h hblock,fun _ => visibleString_resized h hblock,
    fun _ => Memory.resized_stringLength h,?_,?_,hsound,?_⟩
  · intro hstring hpos
    have hzero := hterminated (by simpa using hstring) (by simpa using hpos)
    simpa using hzero
  · intro hzero i hold hnew
    exact element_resized h hblock hwidth hzero hold hnew
  · intro hless
    exact hblock.shrunk (by simpa using hless)

end

section
variable {s : State} (h : Sound s.memory) (hterminated : Terminated s.memory)
include h

theorem memResize_refused {allocator : Allocator} {newCount : ℕ} {flags : ResizeModes}
    (hfailed : (memResize allocator newCount flags s).succeeded = false) :
    (memResize allocator newCount flags s).state.memory = s.memory ∧ ResizeRefusal allocator newCount flags s := by
  have hcases := memResize_cases h allocator newCount flags
  generalize memResize allocator newCount flags s = answer at hcases hfailed
  cases hcases with
  | refused heap hheap reason => exact ⟨rfl,reason⟩
  | kept => cases hfailed
  | released hcount hflag hallocated hdelete =>
    rw [hdelete] at hfailed
    cases hfailed
  | emptied => cases hfailed
  | sized => cases hfailed

/-- A resize that fits into the present block needs no allocator. -/
theorem memResize_inPlace (allocator : Allocator) {newCount : ℕ} {flags : ResizeModes}
    (hwidth : s.memory.singleElementSize ≠ 0) (hdata : s.memory.data ≠ none)
    (hfit : s.memory.singleElementSize * newCount ≤ s.memory.actuallyAllocatedBytes)
    (hflag : flags.releaseUnused = false) : (memResize allocator newCount flags s).succeeded = true := by
  by_contra hfailed
  obtain ⟨reserve,hreserve,hrounded⟩ := roundUpToBlockSize_of_le h.slabs hfit h.addressable
  have haddressable := h.addressable
  cases (memResize_refused h (Bool.eq_false_iff.mpr hfailed)).2 with
  | uninitialized hzero => exact hwidth hzero
  | sizeOverflow hover => omega
  | roundingOverflow hnone =>
    rw [hrounded] at hnone
    cases hnone
  | outOfMemory slabBytes kept hslab hneeds hserve =>
    rw [hrounded] at hslab
    obtain rfl := Option.some.inj hslab
    rcases hneeds with hnone | hgrows | hshrinks
    · exact hdata hnone
    · omega
    · rw [hflag] at hshrinks
      exact absurd hshrinks.1 Bool.false_ne_true

theorem memResize_sound (allocator : Allocator) (newCount : ℕ) (flags : ResizeModes) :
    Sound (memResize allocator newCount flags s).state.memory ∧
      (memResize allocator newCount flags s).state.memory.singleElementSize = s.memory.singleElementSize ∧
      (memResize allocator newCount flags s).state.memory.isString = s.memory.isString ∧
      ((memResize allocator newCount flags s).succeeded = true →
        (memResize allocator newCount flags s).state.memory.length = newCount) := by
  have hcases := memResize_cases h allocator newCount flags
  generalize memResize allocator newCount flags s = answer at hcases
  cases hcases with
  | refused => exact ⟨h,rfl,rfl,nofun⟩
  | kept hcount => exact ⟨h,rfl,rfl,fun _ => hcount.symm⟩
  | released hcount =>
    have hmemory : (memDelete { s with telemetry :=
        s.telemetry.releaseUnusedBytesReleased s.memory.actuallyAllocatedBytes }).state.memory = s.memory.emptied :=
      memDelete_memory (s := { s with telemetry := _ }) h
    rw [hmemory,hcount]
    exact ⟨sound_emptied _,rfl,rfl,fun _ => rfl⟩
  | emptied hcount hlength hkeep memory hmemory =>
    rw [hmemory,hcount]
    dsimp only [State.succeed]
    split
    · exact ⟨(h.zeroAt hlength).unused,rfl,rfl,fun _ => rfl⟩
    · exact ⟨h.unused,rfl,rfl,fun _ => rfl⟩
  | sized hcount hwidth block heap hblock hheap =>
    exact ⟨h.resized hwidth hcount hblock,Memory.resized_singleElementSize _ _ _ _,Memory.resized_isString _ _ _ _,
      fun _ => Memory.resized_length _ _ _ _⟩

include hterminated

theorem memResize_exact {allocator : Allocator} {newCount : ℕ} {flags : ResizeModes}
    (hsucceeded : (memResize allocator newCount flags s).succeeded = true) :
    ExactResize s.memory newCount flags (memResize allocator newCount flags s).state.memory := by
  have hcases := memResize_cases h allocator newCount flags
  generalize memResize allocator newCount flags s = answer at hcases hsucceeded
  cases hcases with
  | refused => cases hsucceeded
  | kept hcount hempty =>
    rw [hcount]
    exact exactResize_self h hterminated flags
  | released hcount hflag hallocated hdelete =>
    have hmemory : (memDelete { s with telemetry :=
        s.telemetry.releaseUnusedBytesReleased s.memory.actuallyAllocatedBytes }).state.memory = s.memory.emptied :=
      memDelete_memory (s := { s with telemetry := _ }) h
    rw [hcount,hmemory]
    exact exactResize_nothing rfl rfl ⟨rfl,rfl⟩ (sound_emptied _) (fun _ => hflag)
  | emptied hcount hlength hkeep memory hmemory =>
    rw [hcount]
    cases hmode : s.memory.isString with
    | true =>
      rw [if_pos hmode] at hmemory
      rw [hmemory]
      exact exactResize_nothing rfl rfl ⟨rfl,rfl⟩ (h.zeroAt hlength).unused (fun hless => absurd hless (lt_irrefl _))
    | false =>
      rw [if_neg (by simp [hmode])] at hmemory
      rw [hmemory]
      exact exactResize_nothing rfl rfl ⟨rfl,rfl⟩ h.unused (fun hless => absurd hless (lt_irrefl _))
  | sized hcount hwidth block heap hblock hheap => exact exactResize_resized h hwidth hcount hblock

omit hterminated in
theorem memResize_overflow {allocator : Allocator} {newCount : ℕ} {flags : ResizeModes}
    (hover : sizeMax < s.memory.singleElementSize * newCount ∨
      roundUpToBlockSize (s.memory.singleElementSize * newCount) = none) :
    (memResize allocator newCount flags s).succeeded = false := by
  have hfits : ∀ reserve, memoryBlockBytes ∣ reserve → s.memory.singleElementSize * newCount ≤ reserve →
      ¬ reserve ≤ sizeMax := by
    intro reserve hslabs hcovered haddressable
    obtain ⟨slabBytes,-,hslab⟩ := roundUpToBlockSize_of_le hslabs hcovered haddressable
    rcases hover with hsize | hnone
    · omega
    · rw [hslab] at hnone
      cases hnone
  have hcases := memResize_cases h allocator newCount flags
  generalize memResize allocator newCount flags s = answer at hcases
  cases hcases with
  | refused => rfl
  | kept hcount hempty => exact absurd h.addressable (hfits _ h.slabs (hcount ▸ h.covered))
  | released hcount => exact absurd (Nat.zero_le _) (hfits 0 (Nat.dvd_zero _) (by simp [hcount]))
  | emptied hcount => exact absurd (Nat.zero_le _) (hfits 0 (Nat.dvd_zero _) (by simp [hcount]))
  | sized hcount hwidth block heap hblock hheap =>
    exact absurd hblock.addressable (hfits _ hblock.slabs hblock.covered)

omit hterminated in
theorem memResize_exhausted {allocator : Allocator} {newCount slabBytes : ℕ} {flags : ResizeModes} (hcount : newCount ≠ 0)
    (hother : newCount ≠ s.memory.length)
    (hslab : roundUpToBlockSize (s.memory.singleElementSize * newCount) = some slabBytes)
    (hneeds : s.memory.data = none ∨ s.memory.actuallyAllocatedBytes < slabBytes ∨
      flags.releaseUnused = true ∧ slabBytes < s.memory.actuallyAllocatedBytes)
    (hserve : s.heap.serve allocator (s.heap.liveBytes - s.memory.block.length) slabBytes = none) :
    (memResize allocator newCount flags s).succeeded = false := by
  by_cases hwidth : s.memory.singleElementSize = 0
  · have haccepts : resizeAccepts s.memory = none := by rw [resizeAccepts,if_pos hwidth]
    rw [memResize,haccepts]
    rfl
  by_cases hsize : s.memory.singleElementSize * newCount ≤ sizeMax
  · have hreserve : (resizeReserve allocator slabBytes flags s).succeeded = false := by
      rw [resizeReserve,if_pos hneeds]
      cases hdata : s.memory.data with
      | none =>
        simp only [Memory.block,hdata,Option.getD_none,List.length_nil,Nat.sub_zero] at hserve
        simp only [Heap.malloc,hserve]
        rfl
      | some block =>
        simp only [Memory.block,hdata,Option.getD_some] at hserve
        simp only [Heap.realloc,hserve]
        rfl
    rcases memResize_reserve h allocator flags hwidth hcount hother hsize hslab with
      ⟨heap,-,-,-,hanswer⟩ | ⟨block,heap,-,-,hanswer,-⟩
    · rw [hanswer]
      rfl
    · rw [hanswer] at hreserve
      cases hreserve
  · exact memResize_overflow h (.inl (Nat.lt_of_not_le hsize))

theorem memResize_keeps (allocator : Allocator) (newCount : ℕ) (flags : ResizeModes) :
    Sound (memResize allocator newCount flags s).state.memory ∧
      Terminated (memResize allocator newCount flags s).state.memory := by
  cases hresized : (memResize allocator newCount flags s).succeeded with
  | false =>
    rw [(memResize_refused h hresized).1]
    exact ⟨h,hterminated⟩
  | true =>
    have hexact := memResize_exact h hterminated hresized
    exact ⟨hexact.sound,hexact.terminated⟩

omit hterminated in
/-- A string that gets another length ends at a zero element, whatever it ended at before. -/
theorem memResize_string {allocator : Allocator} {newCount : ℕ} {flags : ResizeModes} (hstring : s.memory.isString = true)
    (hcount : newCount ≠ 0) (hsucceeded : (memResize allocator newCount flags s).succeeded = true) :
    ((newCount = s.memory.length → Terminated s.memory) → Terminated (memResize allocator newCount flags s).state.memory) ∧
      ((memResize allocator newCount flags s).state.memory.singleElementSize = s.memory.singleElementSize ∧
        (memResize allocator newCount flags s).state.memory.isString = s.memory.isString) ∧
      (memResize allocator newCount flags s).state.memory.length = newCount ∧
      (memResize allocator newCount flags s).state.memory.stringLength = min s.memory.stringLength (newCount - 1) := by
  have hcases := memResize_cases h allocator newCount flags
  generalize memResize allocator newCount flags s = answer at hcases hsucceeded
  cases hcases with
  | refused => cases hsucceeded
  | kept hsame =>
    have hinside := h.stringMode hstring
    refine ⟨fun hkept => hkept hsame,⟨rfl,rfl⟩,hsame.symm,?_⟩
    simp only [State.succeed]
    omega
  | released hzero => exact absurd hzero hcount
  | emptied hzero => exact absurd hzero hcount
  | sized hnew hwidth block heap hblock =>
    exact ⟨fun _ => Terminated.resized h hblock hwidth hnew,
      ⟨by simp [State.succeed],by simp [State.succeed]⟩,by simp [State.succeed],Memory.resized_stringLength h⟩

end

end Precizer.Libmem
