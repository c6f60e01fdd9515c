import Precizer.Libmem.StringArray

/-! # What an append and a deletion do

An append adds one element with a string of its own, or takes everything back but the reserve
of the root. A deletion gives back the block of every element, then that of the root.
-/
namespace Precizer.Libmem
open General

structure ArrayRoot (m : Memory) : Prop where
  sound : Sound m
  width : m.singleElementSize = sizeofMemory
  mode : m.isString = false

structure Appended (layout : DescriptorLayout) (s : State) (bytes : List UInt8) (singleElementSize : ℕ)
    (appended : Memory) (s' : State) : Prop where
  root : ArrayRoot s'.memory
  length : s'.memory.length = s.memory.length + 1
  payload : s'.memory.payload = s.memory.payload ++ layout.image appended
  string : Transferred (memInit singleElementSize true) .replace bytes appended
  width : singleElementSize ≠ 0
  liveBytes : s.memory.actuallyAllocatedBytes ≤ s.heap.liveBytes →
    s'.heap.liveBytes + s.memory.actuallyAllocatedBytes =
      s.heap.liveBytes + s'.memory.actuallyAllocatedBytes + appended.actuallyAllocatedBytes
  released : s'.heap.released = s.heap.released

/-- A root after a failed append: only its reserve may have grown. -/
structure RolledBack (s s' : State) : Prop where
  root : ArrayRoot s'.memory
  length : s'.memory.length = s.memory.length
  payload : s'.memory.payload = s.memory.payload
  heap : HeapStep s s'

theorem ArrayRoot.terminated {m : Memory} (h : ArrayRoot m) : Terminated m := by
  intro hstring
  rw [h.mode] at hstring
  cases hstring

theorem ArrayRoot.accepted {m : Memory} (h : ArrayRoot m) : isArrayRoot m = true := by
  have hdata : ¬(0 < m.length ∧ m.data = none) := fun hboth => h.sound.data_of_length hboth.1 hboth.2
  simp only [isArrayRoot,decide_eq_true_eq]
  exact ⟨hdata,h.width,h.mode,h.sound.dataMode h.mode⟩

theorem ArrayRoot.width_ne_zero {m : Memory} (h : ArrayRoot m) : m.singleElementSize ≠ 0 := by
  rw [h.width]
  decide

theorem ArrayRoot.length_payload {m : Memory} (h : ArrayRoot m) : m.payload.length = sizeofMemory * m.length := by
  have hcovered := h.sound.covered
  rw [h.width] at hcovered
  rw [Memory.payload,List.length_take,h.sound.blockLength,h.width]
  omega

theorem ArrayRoot.resized {m m' : Memory} (h : ArrayRoot m) {newCount : ℕ} {flags : ResizeModes}
    (hexact : ExactResize m newCount flags m') : ArrayRoot m' :=
  ⟨hexact.sound,hexact.format.1.trans h.width,hexact.format.2.trans h.mode⟩

section
variable {s : State} (h : ArrayRoot s.memory) (layout : DescriptorLayout)
include h

/-- The root that grew by one element has the old ones in front. -/
theorem root_grown {flags : ResizeModes} {resized : Memory} (hexact : ExactResize s.memory (s.memory.length + 1) flags resized) :
    resized.block.take (sizeofMemory * s.memory.length) = s.memory.payload ∧
      sizeofMemory * s.memory.length + sizeofMemory ≤ resized.actuallyAllocatedBytes := by
  have hroot := h.resized hexact
  have hcovered := hexact.sound.covered
  rw [hroot.width,hexact.length,Nat.mul_add,Nat.mul_one] at hcovered
  refine ⟨?_,hcovered⟩
  have hkept := hexact.payload h.mode
  have hlength := h.length_payload
  have hgrown : sizeofMemory * (s.memory.length + 1) = sizeofMemory * s.memory.length + sizeofMemory := Nat.mul_succ _ _
  rw [h.width,Memory.payload,List.take_take,hroot.width,hexact.length,Nat.min_eq_left (by omega)] at hkept
  rw [hkept,List.take_of_length_le (by omega)]

/-- A descriptor written behind the old elements. -/
theorem root_holding {flags : ResizeModes} {resized : Memory} (hexact : ExactResize s.memory (s.memory.length + 1) flags resized)
    (appended : Memory) :
    ArrayRoot (resized.written (sizeofMemory * s.memory.length) (layout.image appended)) ∧
      (resized.written (sizeofMemory * s.memory.length) (layout.image appended)).payload =
        s.memory.payload ++ layout.image appended := by
  have hroot := h.resized hexact
  have himage := layout.length_image appended
  obtain ⟨hfront,hcovered⟩ := root_grown h hexact
  have hdata : resized.data ≠ none := by
    apply hexact.sound.data_of_length
    rw [hexact.length]
    omega
  have hwritten : Sound (resized.written (sizeofMemory * s.memory.length) (layout.image appended)) := by
    apply hexact.sound.written
    omega
  have hfit : sizeofMemory * s.memory.length + (layout.image appended).length = sizeofMemory * (s.memory.length + 1) := by
    rw [himage,Nat.mul_succ]
  refine ⟨⟨hwritten,hroot.width,hroot.mode⟩,?_⟩
  rw [Memory.payload,Memory.written_singleElementSize,Memory.written_length,hroot.width,hexact.length,
    block_take_written hexact.sound (by omega) hdata hfit,hfront]

omit h in
theorem rolledBack_shrunk (allocator : Allocator) {t : State} (ht : ArrayRoot t.memory)
    (hlength : t.memory.length = s.memory.length + 1)
    (hpayload : t.memory.payload.take (sizeofMemory * s.memory.length) = s.memory.payload) (hheap : HeapStep s t) :
    RolledBack s (memResize allocator s.memory.length .plain t).state := by
  have hdata : t.memory.data ≠ none := by
    apply ht.sound.data_of_length
    omega
  have hfit : t.memory.singleElementSize * s.memory.length ≤ t.memory.actuallyAllocatedBytes := by
    have hcovered := ht.sound.covered
    rw [hlength,Nat.mul_add] at hcovered
    omega
  have hsucceeded : (memResize allocator s.memory.length .plain t).succeeded = true :=
    memResize_inPlace ht.sound allocator ht.width_ne_zero hdata hfit rfl
  have hexact := memResize_exact ht.sound ht.terminated hsucceeded
  have hroot := ht.resized hexact
  refine ⟨hroot,hexact.length,?_,heapStep_tracks.trans hheap (heapStep_tracks.resize allocator _ _ ht.sound rfl)⟩
  have hkept := hexact.payload ht.mode
  have hshort := hroot.length_payload
  have hgrown : sizeofMemory * (s.memory.length + 1) = sizeofMemory * s.memory.length + sizeofMemory := Nat.mul_succ _ _
  rw [hexact.length] at hshort
  rw [ht.width,hlength,hpayload,List.take_of_length_le (by omega)] at hkept
  exact hkept

theorem rolledBack_refl : RolledBack s s :=
  ⟨h,rfl,rfl,heapStep_tracks.refl s⟩

variable (allocator : Allocator) (mode : SourceMode) (singleElementSize rangeBytes : ℕ) (source : Source)

/-- An append is refused before the root grows, or while it grows, or copies to a new element. -/
theorem memStringArrayCore_cases :
    let answer := memStringArrayCore layout allocator mode singleElementSize rangeBytes source s
    answer.succeeded = false ∧ answer.appended = none ∧ RolledBack s answer.state ∧
      (answer.state = s ∨ answer.state = (memResize allocator (s.memory.length + 1) ⟨true,false⟩ s).state) ∨
    ∃ (resized copied : Answer), resized = memResize allocator (s.memory.length + 1) ⟨true,false⟩ s ∧
      ExactResize s.memory (s.memory.length + 1) ⟨true,false⟩ resized.state.memory ∧
      HeapStep s resized.state ∧ HeapStep { resized.state with memory := memInit singleElementSize true } copied.state ∧
      copied = memCoreString allocator mode .replace rangeBytes source
        { resized.state with memory := memInit singleElementSize true } ∧ singleElementSize ≠ 0 ∧
      answer =
        if copied.succeeded then
          ⟨true,{ copied.state with
            memory := resized.state.memory.written (sizeofMemory * s.memory.length) (layout.image copied.state.memory) },
            some copied.state.memory⟩
        else
          ⟨false,(memResize allocator s.memory.length .plain { (memDelete copied.state).state with
            memory := resized.state.memory.written (sizeofMemory * s.memory.length)
              (layout.image (memDelete copied.state).state.memory) }).state,none⟩ := by
  dsimp only
  have hrefl := rolledBack_refl h
  rw [memStringArrayCore,if_neg (by simp [h.accepted])]
  dsimp only
  by_cases hwidth : singleElementSize = 0
  · rw [if_pos hwidth]
    exact .inl ⟨rfl,rfl,hrefl,.inl rfl⟩
  rw [if_neg hwidth]
  by_cases hmode : mode = .fixed
  · rw [if_pos hmode]
    exact .inl ⟨rfl,rfl,hrefl,.inl rfl⟩
  rw [if_neg hmode]
  by_cases hresized : (memResize allocator (s.memory.length + 1) ⟨true,false⟩ s).succeeded = false
  · rw [if_pos hresized]
    obtain ⟨hsame,-⟩ := memResize_refused h.sound hresized
    refine .inl ⟨rfl,rfl,⟨?_,?_,?_,heapStep_tracks.resize allocator _ _ h.sound rfl⟩,.inr rfl⟩
    · rw [hsame]
      exact h
    · rw [hsame]
    · rw [hsame]
  have hexact := memResize_exact h.sound h.terminated (by simpa using hresized)
  have hpositive : 0 < (memResize allocator (s.memory.length + 1) ⟨true,false⟩ s).state.memory.length := by
    rw [hexact.length]
    omega
  have hwritable : memDataWritable (memResize allocator (s.memory.length + 1) ⟨true,false⟩ s).state.memory sizeofMemory =
      some (memResize allocator (s.memory.length + 1) ⟨true,false⟩ s).state.memory.block := by
    rw [memDataWritable_sound hexact.sound hpositive,if_pos (h.resized hexact).width]
  rw [if_neg hresized,hwritable,if_neg (by simp)]
  exact .inr ⟨_,_,rfl,hexact,heapStep_tracks.resize allocator _ _ h.sound rfl,
    memCoreString_tracks heapStep_tracks (sound_memInit singleElementSize true) allocator mode .replace rangeBytes source,
    rfl,hwidth,rfl⟩

variable {allocator mode singleElementSize rangeBytes source}

theorem memStringArrayCore_succeeded (hvalid : ValidSource (memInit singleElementSize true) mode rangeBytes source)
    (hsucceeded : (memStringArrayCore layout allocator mode singleElementSize rangeBytes source s).succeeded = true) :
    ∃ appended, (memStringArrayCore layout allocator mode singleElementSize rangeBytes source s).appended = some appended ∧
      Appended layout s (visibleSource (memInit singleElementSize true) mode rangeBytes source) singleElementSize appended
        (memStringArrayCore layout allocator mode singleElementSize rangeBytes source s).state := by
  rcases memStringArrayCore_cases h layout allocator mode singleElementSize rangeBytes source with
    ⟨hfailed,-⟩ | ⟨resized,copied,-,hexact,hheap,hchild,hcopied,hwidth,hanswer⟩
  · rw [hfailed] at hsucceeded
    cases hsucceeded
  · rw [hanswer] at hsucceeded ⊢
    by_cases hcopy : copied.succeeded = true
    · rw [if_pos hcopy]
      have hstring := memCoreString_succeeded (s := { resized.state with memory := memInit singleElementSize true })
        (sound_memInit singleElementSize true) (terminated_memInit singleElementSize true) hvalid (hcopied ▸ hcopy)
      rw [← hcopied] at hstring
      obtain ⟨hroot,hpayload⟩ := root_holding h layout hexact copied.state.memory
      refine ⟨_,rfl,hroot,hexact.length,hpayload,hstring,hwidth,?_,hchild.released.trans hheap.released⟩
      intro hlive
      obtain ⟨-,hroots⟩ := hheap.liveBytes hlive
      obtain ⟨-,hchildren⟩ := hchild.liveBytes (Nat.zero_le _)
      dsimp only [Memory.written,memInit] at hchildren ⊢
      omega
    · rw [if_neg hcopy] at hsucceeded
      cases hsucceeded

theorem memStringArrayCore_failed
    (hfailed : (memStringArrayCore layout allocator mode singleElementSize rangeBytes source s).succeeded = false) :
    (memStringArrayCore layout allocator mode singleElementSize rangeBytes source s).appended = none ∧
      RolledBack s (memStringArrayCore layout allocator mode singleElementSize rangeBytes source s).state := by
  rcases memStringArrayCore_cases h layout allocator mode singleElementSize rangeBytes source with
    ⟨-,hnone,hrolled,-⟩ | ⟨resized,copied,-,hexact,hheap,hchild,hcopied,-,hanswer⟩
  · exact ⟨hnone,hrolled⟩
  · rw [hanswer] at hfailed ⊢
    by_cases hcopy : copied.succeeded = true
    · rw [if_pos hcopy] at hfailed
      cases hfailed
    · rw [if_neg hcopy]
      refine ⟨rfl,?_⟩
      have hfresh := sound_memInit singleElementSize true
      have hsame := memCoreString_failed (s := { resized.state with memory := memInit singleElementSize true })
        hfresh (terminated_memInit singleElementSize true) (by rw [← hcopied]; simpa using hcopy)
      rw [← hcopied] at hsame
      have hcopiedSound : Sound copied.state.memory := by
        rw [hsame]
        exact hfresh
      have hdeleted : (memDelete copied.state).state.heap = copied.state.heap := by
        rw [memDelete_heap hcopiedSound,hsame]
        rfl
      obtain ⟨hroot,hpayload⟩ := root_holding h layout hexact (memDelete copied.state).state.memory
      apply rolledBack_shrunk allocator (t := { (memDelete copied.state).state with
        memory := resized.state.memory.written (sizeofMemory * s.memory.length)
          (layout.image (memDelete copied.state).state.memory) }) hroot hexact.length
      · rw [hpayload]
        exact List.take_left' h.length_payload
      · refine ⟨fun hlive => ?_,?_⟩
        · obtain ⟨hkept,hroots⟩ := hheap.liveBytes hlive
          obtain ⟨-,hchildren⟩ := hchild.liveBytes (Nat.zero_le _)
          rw [hsame] at hchildren
          dsimp only
          rw [hdeleted]
          dsimp only [Memory.written,memInit] at hchildren ⊢
          omega
        · dsimp only
          rw [hdeleted]
          exact hchild.released.trans hheap.released

end

section
variable {elements : List Memory}

/-- The block of one descriptor is given back. -/
theorem memDelete_released {s : State} (h : Sound s.memory) :
    (memDelete s).state.heap.released = s.heap.released ++ s.memory.data.toList ∧
      (memDelete s).state.heap.liveBytes = s.heap.liveBytes - s.memory.actuallyAllocatedBytes := by
  have hblockLength := h.blockLength
  rw [memDelete_heap h]
  cases hdata : s.memory.data with
  | none =>
    simp [Memory.block,hdata] at hblockLength
    simp [← hblockLength]
  | some block =>
    simp [Memory.block,hdata] at hblockLength
    simp [Heap.free,hblockLength]

theorem deleteElements_released (hsound : ∀ m ∈ elements, Sound m ∧ 0 < m.length) (answer : Answer) :
    (deleteElements elements answer).1.succeeded = answer.succeeded ∧
      (deleteElements elements answer).1.state.heap.released = answer.state.heap.released ++ elements.map Memory.block ∧
      (deleteElements elements answer).1.state.heap.liveBytes =
        answer.state.heap.liveBytes - (elements.map Memory.actuallyAllocatedBytes).sum ∧
      (deleteElements elements answer).2 = elements.map Memory.emptied := by
  induction elements generalizing answer with
  | nil => simp [deleteElements]
  | cons m elements ih =>
    obtain ⟨h,hlength⟩ := hsound m List.mem_cons_self
    have hwidth : m.singleElementSize ≠ 0 := by
      intro hzero
      have hempty := (h.initialized hzero).1
      omega
    obtain ⟨block,hblock⟩ := Option.ne_none_iff_exists'.mp (h.data_of_length hlength)
    have hsucceeded := memDelete_sound (s := { answer.state with memory := m }) h hwidth
    have hemptied := memDelete_memory (s := { answer.state with memory := m }) h
    obtain ⟨hreleased,hlive⟩ := memDelete_released (s := { answer.state with memory := m }) h
    obtain ⟨hrest,hrestReleased,hrestLive,hrestEmptied⟩ := ih (fun m' hm' => hsound m' (List.mem_cons_of_mem m hm'))
      ⟨answer.succeeded && (memDelete { answer.state with memory := m }).succeeded,
        (memDelete { answer.state with memory := m }).state⟩
    rw [deleteElements]
    dsimp only
    refine ⟨?_,?_,?_,?_⟩
    · rw [hrest,hsucceeded,Bool.and_true]
    · rw [hrestReleased,hreleased,hblock]
      simp [Memory.block,hblock]
    · rw [hrestLive,hlive,List.map_cons,List.sum_cons,Nat.sub_sub]
    · rw [hrestEmptied,hemptied,List.map_cons]

theorem memArrayDelete_released {s : State} (h : ArrayRoot s.memory) (hcount : elements.length = s.memory.length)
    (hsound : ∀ m ∈ elements, Sound m ∧ 0 < m.length) :
    (memArrayDelete elements s).1.succeeded = true ∧
      (memArrayDelete elements s).1.state.heap.released =
        s.heap.released ++ elements.map Memory.block ++ s.memory.data.toList ∧
      (memArrayDelete elements s).1.state.heap.liveBytes =
        s.heap.liveBytes - (elements.map Memory.actuallyAllocatedBytes).sum - s.memory.actuallyAllocatedBytes ∧
      (memArrayDelete elements s).1.state.memory = s.memory.emptied ∧
      (memArrayDelete elements s).2 = elements.map Memory.emptied := by
  have hroute : memArrayDelete elements s =
      (⟨(deleteElements elements s.succeed).1.succeeded &&
          (memDelete { (deleteElements elements s.succeed).1.state with memory := s.memory }).succeeded,
        (memDelete { (deleteElements elements s.succeed).1.state with memory := s.memory }).state⟩,
        (deleteElements elements s.succeed).2) := by
    rw [memArrayDelete,if_neg (by simp [h.accepted])]
    by_cases hempty : s.memory.length = 0
    · obtain rfl : elements = [] := List.length_eq_zero_iff.mp (hcount.trans hempty)
      rw [if_pos hempty]
      rfl
    · have hwritable : memDataWritable s.memory sizeofMemory = some s.memory.block := by
        rw [memDataWritable_sound h.sound (by omega),if_pos h.width]
      rw [if_neg hempty,hwritable,if_neg (by simp)]
  obtain ⟨hsucceeded,hreleased,hlive,hemptied⟩ := deleteElements_released hsound s.succeed
  have hroot := memDelete_sound (s := { (deleteElements elements s.succeed).1.state with memory := s.memory }) h.sound
    h.width_ne_zero
  obtain ⟨hrootReleased,hrootLive⟩ :=
    memDelete_released (s := { (deleteElements elements s.succeed).1.state with memory := s.memory }) h.sound
  rw [hroute]
  refine ⟨?_,?_,?_,?_,hemptied⟩
  · rw [hsucceeded,hroot]
    rfl
  · dsimp only
    rw [hrootReleased,hreleased]
    rfl
  · dsimp only
    rw [hrootLive,hlive]
    rfl
  · exact memDelete_memory (s := { (deleteElements elements s.succeed).1.state with memory := s.memory }) h.sound

end

end Precizer.Libmem
