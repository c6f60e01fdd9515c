import Precizer.Libmem.Tracking

/-! # String arrays

The elements of a root descriptor are string descriptors. An append grows the root by one
element, initialises it and copies a source to it; when the copy fails, the element is deleted
and the root gets its old length back.
-/
namespace Precizer.Libmem
open General

/-- `sizeof(memory)` -/
def sizeofMemory : ℕ := 48

/-- What an append leaves of the root, and the element it has added. -/
structure ArrayAnswer where
  succeeded : Bool
  state : State
  appended : Option Memory
  deriving DecidableEq

/-- The root of an array is a data descriptor of descriptors. -/
def isArrayRoot (m : Memory) : Bool :=
  ¬(0 < m.length ∧ m.data = none) ∧ m.singleElementSize = sizeofMemory ∧ m.isString = false ∧ m.stringLength = 0

structure DescriptorLayout where
  image : Memory → List UInt8
  length_image : ∀ m, (image m).length = sizeofMemory

/-- The state is the root's, whose payload holds the images of its elements. -/
def memStringArrayCore (layout : DescriptorLayout) (allocator : Allocator) (mode : SourceMode) (singleElementSize rangeBytes : ℕ) (source : Source)
    (s : State) : ArrayAnswer :=
  if isArrayRoot s.memory = false then ⟨false,s,none⟩
  else if singleElementSize = 0 then ⟨false,s,none⟩
  else if mode = .fixed then ⟨false,s,none⟩
  else
    let nextIndex := s.memory.length
    let resized := memResize allocator (nextIndex + 1) ⟨true,false⟩ s
    if resized.succeeded = false then ⟨false,resized.state,none⟩
    else if memDataWritable resized.state.memory sizeofMemory = none then
      ⟨false,(memResize allocator nextIndex .plain resized.state).state,none⟩
    else
      let copied := memCoreString allocator mode .replace rangeBytes source
        { resized.state with memory := memInit singleElementSize true }
      let holding (element : Memory) :=
        resized.state.memory.written (sizeofMemory * nextIndex) (layout.image element)
      if copied.succeeded then
        ⟨true,{ copied.state with memory := holding copied.state.memory },some copied.state.memory⟩
      else
        let deleted := memDelete copied.state
        ⟨false,(memResize allocator nextIndex .plain
          { deleted.state with memory := holding deleted.state.memory }).state,none⟩

/-- The elements are deleted one after another, whatever the answers are. -/
def deleteElements : List Memory → Answer → Answer × List Memory
  | [],answer => (answer,[])
  | element :: elements,answer =>
    let deleted := memDelete { answer.state with memory := element }
    let rest := deleteElements elements ⟨answer.succeeded && deleted.succeeded,deleted.state⟩
    (rest.1,deleted.state.memory :: rest.2)

/-- The elements of the root are given with it, and answered with what is left of them. -/
def memArrayDelete (elements : List Memory) (s : State) : Answer × List Memory :=
  if isArrayRoot s.memory = false then (s.fail,elements)
  else
    let deleted :=
      if s.memory.length = 0 then (s.succeed,elements)
      else if memDataWritable s.memory sizeofMemory = none then (s.fail,elements)
      else deleteElements elements s.succeed
    let root := memDelete { deleted.1.state with memory := s.memory }
    (⟨deleted.1.succeeded && root.succeeded,root.state⟩,deleted.2)

end Precizer.Libmem
