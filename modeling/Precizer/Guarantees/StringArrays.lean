import Precizer.Libmem.StringArrayRules

/-! # String arrays

A string array is an append-only list: it reads back as the strings of the appends that
succeeded, a failed append leaves it as it was, and its deletion gives every block back once.
-/
namespace Precizer.Guarantees
open General Libmem

structure AppendCall where
  mode : SourceMode
  singleElementSize : ℕ
  rangeBytes : ℕ
  source : Source

def AppendCall.Valid (call : AppendCall) : Prop :=
  ValidSource (memInit call.singleElementSize true) call.mode call.rangeBytes call.source

def AppendCall.visible (call : AppendCall) : List UInt8 :=
  visibleSource (memInit call.singleElementSize true) call.mode call.rangeBytes call.source

/-- The root with what it shares, and the descriptors it holds. -/
structure StringArray where
  root : State
  elements : List Memory

section
variable (layout : DescriptorLayout) (allocator : Allocator)

def AppendCall.answer (call : AppendCall) (array : StringArray) : ArrayAnswer :=
  memStringArrayCore layout allocator call.mode call.singleElementSize call.rangeBytes call.source array.root

def StringArray.append (array : StringArray) (call : AppendCall) : StringArray :=
  let answer := call.answer layout allocator array
  ⟨answer.state,array.elements ++ answer.appended.toList⟩

def appendAll : List AppendCall → StringArray → StringArray × List AppendCall
  | [],array => (array,[])
  | call :: calls,array =>
    let rest := appendAll calls (array.append layout allocator call)
    (rest.1,if (call.answer layout allocator array).succeeded then call :: rest.2 else rest.2)

end

/-- An array that holds its elements, beside so many live bytes of others. -/
structure HoldsElements (layout : DescriptorLayout) (others : ℕ) (array : StringArray) : Prop where
  root : ArrayRoot array.root.memory
  length : array.elements.length = array.root.memory.length
  payload : array.root.memory.payload = (array.elements.map layout.image).flatten
  elements : ∀ m ∈ array.elements, Sound m ∧ 0 < m.length ∧ Terminated m ∧ m.isString = true
  liveBytes : array.root.heap.liveBytes =
    others + (array.elements.map Memory.actuallyAllocatedBytes).sum + array.root.memory.actuallyAllocatedBytes

/-- What is left of an array after a failed append. -/
structure LeftAlone (array array' : StringArray) : Prop where
  elements : array'.elements = array.elements
  length : array'.root.memory.length = array.root.memory.length
  payload : array'.root.memory.payload = array.root.memory.payload
  liveBytes : array'.root.heap.liveBytes + array.root.memory.actuallyAllocatedBytes =
    array.root.heap.liveBytes + array'.root.memory.actuallyAllocatedBytes
  released : array'.root.heap.released = array.root.heap.released

section
variable {layout : DescriptorLayout} {allocator : Allocator} {others : ℕ} {array : StringArray}
  (h : HoldsElements layout others array)
include h

theorem HoldsElements.leftAlone {call : AppendCall} (hfailed : (call.answer layout allocator array).succeeded = false) :
    LeftAlone array (array.append layout allocator call) := by
  obtain ⟨hnone,hrolled⟩ := memStringArrayCore_failed h.root layout hfailed
  have hlive := h.liveBytes
  refine ⟨?_,hrolled.length,hrolled.payload,(hrolled.heap.liveBytes (by omega)).2,hrolled.heap.released⟩
  show array.elements ++ (call.answer layout allocator array).appended.toList = array.elements
  rw [AppendCall.answer,hnone]
  simp

theorem HoldsElements.append {call : AppendCall} (hvalid : call.Valid) :
    HoldsElements layout others (array.append layout allocator call) ∧
      (array.append layout allocator call).elements.map Memory.visibleString = array.elements.map Memory.visibleString ++
        (if (call.answer layout allocator array).succeeded then [call.visible] else []) ∧
      (array.append layout allocator call).root.heap.released = array.root.heap.released := by
  have hlive := h.liveBytes
  cases hanswer : (call.answer layout allocator array).succeeded with
  | false =>
    have hleft := h.leftAlone hanswer
    have hrolled := (memStringArrayCore_failed h.root layout hanswer).2
    refine ⟨⟨hrolled.root,?_,?_,?_,?_⟩,?_,hleft.released⟩
    · rw [hleft.elements,hleft.length,h.length]
    · rw [hleft.elements,hleft.payload,h.payload]
    · rw [hleft.elements]
      exact h.elements
    · have hsame := hleft.liveBytes
      rw [hleft.elements]
      omega
    · rw [hleft.elements]
      simp
  | true =>
    obtain ⟨appended,hsome,happended⟩ := memStringArrayCore_succeeded h.root layout hvalid hanswer
    have helements : (array.append layout allocator call).elements = array.elements ++ [appended] := by
      show array.elements ++ (call.answer layout allocator array).appended.toList = _
      rw [AppendCall.answer,hsome]
      rfl
    refine ⟨⟨happended.root,?_,?_,?_,?_⟩,?_,happended.released⟩
    · rw [helements,List.length_append,h.length]
      exact happended.length.symm
    · rw [helements,List.map_append,List.flatten_append,← h.payload]
      exact happended.payload.trans (by simp)
    · intro m hm
      rw [helements] at hm
      rcases List.mem_append.mp hm with hold | hnew
      · exact h.elements m hold
      · obtain rfl := List.mem_singleton.mp hnew
        have hstring := happended.string
        refine ⟨hstring.sound,?_,hstring.terminated,hstring.format.2⟩
        by_contra hempty
        have hunused := (hstring.unused (by omega)).1
        cases hunused
    · have hgrown := happended.liveBytes (by omega)
      rw [helements,List.map_append,List.sum_append,List.map_singleton,List.sum_singleton]
      change (array.append layout allocator call).root.heap.liveBytes + _ =
        _ + (array.append layout allocator call).root.memory.actuallyAllocatedBytes + _ at hgrown
      omega
    · rw [helements,List.map_append]
      have hvisible : appended.visibleString = call.visible := happended.string.visible
      simp [hvisible]

theorem HoldsElements.run {calls : List AppendCall} (hvalid : ∀ call ∈ calls, call.Valid) :
    HoldsElements layout others (appendAll layout allocator calls array).1 ∧
      (appendAll layout allocator calls array).1.elements.map Memory.visibleString =
        array.elements.map Memory.visibleString ++ (appendAll layout allocator calls array).2.map AppendCall.visible ∧
      (appendAll layout allocator calls array).1.root.heap.released = array.root.heap.released := by
  induction calls generalizing array with
  | nil => exact ⟨h,by simp [appendAll],rfl⟩
  | cons call calls ih =>
    obtain ⟨hnext,hstrings,hreleased⟩ := h.append (hvalid call List.mem_cons_self)
    obtain ⟨hlast,hrest,hrestReleased⟩ := ih hnext fun other hother => hvalid other (List.mem_cons_of_mem call hother)
    refine ⟨hlast,?_,hrestReleased.trans hreleased⟩
    rw [appendAll]
    dsimp only
    rw [hrest,hstrings,List.append_assoc]
    split <;> simp

/-- The descriptors are read back by their index. -/
theorem HoldsElements.element {index : ℕ} (hindex : index < array.elements.length) :
    element sizeofMemory array.root.memory.block index = layout.image array.elements[index] := by
  have hroom : sizeofMemory * (index + 1) ≤ sizeofMemory * array.root.memory.length := by
    apply Nat.mul_le_mul_left
    rw [← h.length]
    exact hindex
  have hpayload : array.root.memory.block.take (sizeofMemory * array.root.memory.length) =
      (array.elements.map layout.image).flatten := by
    rw [← h.payload,Memory.payload,h.root.width]
  have hrows : ∀ row ∈ array.elements.map layout.image, row.length = sizeofMemory := by
    intro row hrow
    obtain ⟨m,-,rfl⟩ := List.mem_map.mp hrow
    exact layout.length_image m
  rw [← element_take hroom,hpayload,element_flatten hrows (by simpa using hindex),List.getElem_map]

end

/-- What a deletion leaves: the blocks of the elements and of the root are given back, one after
another, and no others. -/
structure DeletedOnce (array : StringArray) (heap : Heap) (deleted : Answer × List Memory) : Prop where
  succeeded : deleted.1.succeeded = true
  released : deleted.1.state.heap.released =
    heap.released ++ array.elements.map Memory.block ++ array.root.memory.data.toList
  liveBytes : deleted.1.state.heap.liveBytes = heap.liveBytes
  emptied : deleted.1.state.memory = array.root.memory.emptied ∧ deleted.2 = array.elements.map Memory.emptied

/-- An array that has grown by appends, in a heap with other blocks. -/
structure AppendOnly (layout : DescriptorLayout) (allocator : Allocator) (heap : Heap) (array : StringArray)
    (successful : List AppendCall) : Prop where
  strings : array.elements.map Memory.visibleString = successful.map AppendCall.visible
  length : array.root.memory.length = successful.length
  readBack : ∀ index (hindex : index < array.elements.length),
    element sizeofMemory array.root.memory.block index = layout.image array.elements[index]
  elements : ∀ m ∈ array.elements, Sound m ∧ Terminated m ∧ m.isString = true ∧ m.data ≠ none
  failed : ∀ call : AppendCall, (call.answer layout allocator array).succeeded = false →
    LeftAlone array (array.append layout allocator call)
  deleted : DeletedOnce array heap (memArrayDelete array.elements array.root)

def StringArray.start (telemetry : Telemetry) (heap : Heap) : StringArray :=
  ⟨⟨memInit sizeofMemory false,telemetry,heap⟩,[]⟩

theorem holdsElements_start (layout : DescriptorLayout) (telemetry : Telemetry) (heap : Heap) :
    HoldsElements layout heap.liveBytes (StringArray.start telemetry heap) where
  root := ⟨sound_memInit sizeofMemory false,rfl,rfl⟩
  length := rfl
  payload := rfl
  elements := fun _ hm => by cases hm
  liveBytes := rfl

theorem stringArray_appendOnly (layout : DescriptorLayout) (allocator : Allocator) (telemetry : Telemetry) (heap : Heap)
    (calls : List AppendCall) (hvalid : ∀ call ∈ calls, call.Valid) :
    AppendOnly layout allocator heap (appendAll layout allocator calls (StringArray.start telemetry heap)).1
      (appendAll layout allocator calls (StringArray.start telemetry heap)).2 := by
  obtain ⟨h,hstrings,hreleased⟩ := (holdsElements_start layout telemetry heap).run hvalid
  have hstrings' : (appendAll layout allocator calls (StringArray.start telemetry heap)).1.elements.map Memory.visibleString =
      (appendAll layout allocator calls (StringArray.start telemetry heap)).2.map AppendCall.visible := hstrings
  have hlength := congrArg List.length hstrings'
  rw [List.length_map,List.length_map] at hlength
  refine ⟨hstrings',h.length.symm.trans hlength,fun index hindex => h.element hindex,?_,fun call hfailed => h.leftAlone hfailed,?_⟩
  · intro m hm
    obtain ⟨hsound,hpositive,hterminated,hstring⟩ := h.elements m hm
    exact ⟨hsound,hterminated,hstring,hsound.data_of_length hpositive⟩
  · obtain ⟨hsucceeded,hblocks,hlive,hroot,hemptied⟩ := memArrayDelete_released h.root h.length
      fun m hm => ⟨(h.elements m hm).1,(h.elements m hm).2.1⟩
    refine ⟨hsucceeded,?_,?_,hroot,hemptied⟩
    · rw [hblocks,hreleased]
      rfl
    · have htotal := h.liveBytes
      omega

/-- The fields as words of eight bytes, the lowest first, with one address for every block. -/
def littleEndian : DescriptorLayout where
  image m := [m.singleElementSize,m.actuallyAllocatedBytes,m.length,m.stringLength,m.isString.toNat,
    if m.data = none then 0 else memoryBlockBytes].flatMap fun word =>
      (List.range 8).map fun i => UInt8.ofNat (word / 256 ^ i)
  length_image m := by simp [sizeofMemory]

/-- The strings `A` and, of the bytes `BC`, the first. -/
theorem stringArray_appendOnly_two :
    AppendOnly littleEndian (fun _ _ => some fun _ => 7) .start
      (appendAll littleEndian (fun _ _ => some fun _ => 7)
        [⟨.unbounded,1,0,.outside [65,0]⟩,⟨.bounded,1,1,.outside [66,67]⟩] (StringArray.start .start .start)).1
      (appendAll littleEndian (fun _ _ => some fun _ => 7)
        [⟨.unbounded,1,0,.outside [65,0]⟩,⟨.bounded,1,1,.outside [66,67]⟩] (StringArray.start .start .start)).2 := by
  apply stringArray_appendOnly
  intro call hcall
  simp only [List.mem_cons,List.not_mem_nil,or_false] at hcall
  rcases hcall with rfl | rfl
  · show firstZero 1 2 [(65 : UInt8),0] < 2
    decide
  · intro hshort
    exact absurd hshort (by decide)

end Precizer.Guarantees
