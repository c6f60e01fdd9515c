import Precizer.Libmem.BufferRules
import Precizer.Libmem.Tracking

/-! # Copies between descriptors

The visible string of another descriptor, or of the destination itself, is transferred as a fixed
range that ends with its terminator. Data is transferred as it is.
-/
namespace Precizer.Libmem
open General

/-- The length of a string that its own metadata contradicts. -/
def inconsistentString (m : Memory) : Prop :=
  m.length = 0 ∧ m.stringLength ≠ 0 ∨ 0 < m.length ∧ m.length ≤ m.stringLength

instance (m : Memory) : Decidable (inconsistentString m) := inferInstanceAs (Decidable (_ ∨ _))

def visibleRange (m : Memory) : Option ℕ := (memGuardedAdd m.stringLength 1).bind (memGuardedByteSize m)

def memConcatStrings (allocator : Allocator) (source : Option Memory) (s : State) : Answer :=
  let m := s.memory
  let other := source.getD m
  if 0 < other.length ∧ other.data = none then s.fail
  else if m.isString = false ∨ other.isString = false then s.fail
  else if m.singleElementSize ≠ other.singleElementSize then s.fail
  else if inconsistentString m then s.fail
  else if inconsistentString other then s.fail
  else
    match visibleRange other with
    | none => s.fail
    | some bytes => memCoreString allocator .fixed .append bytes (descriptorSource source m) s

def memCopy (allocator : Allocator) (source : Option Memory) (s : State) : Answer :=
  let m := s.memory
  let other := source.getD m
  if 0 < m.length ∧ m.data = none then s.fail
  else if 0 < other.length ∧ other.data = none then s.fail
  else if m.singleElementSize = 0 then s.fail
  else if other.singleElementSize = 0 then s.fail
  else if m.isString ≠ other.isString then s.fail
  else if m.isString = true then
    if m.singleElementSize ≠ other.singleElementSize then s.fail
    else if inconsistentString other then s.fail
    else
      match visibleRange other with
      | none => s.fail
      | some bytes => memCoreString allocator .fixed .replace bytes (descriptorSource source m) s
  else memCoreData allocator .replace source s

section
variable (allocator : Allocator) (s : State)

/-- A copy or an append is refused, or it is a transfer. -/
theorem memConcatStrings_cases (source : Option Memory) :
    memConcatStrings allocator source s = s.fail ∨
    ∃ bytes, (source.getD s.memory).isString = true ∧ s.memory.singleElementSize = (source.getD s.memory).singleElementSize ∧
      visibleRange (source.getD s.memory) = some bytes ∧
      memConcatStrings allocator source s =
        memCoreString allocator .fixed .append bytes (descriptorSource source s.memory) s := by
  rw [memConcatStrings]
  split
  · exact .inl rfl
  split
  · exact .inl rfl
  next hmodes =>
  split
  · exact .inl rfl
  next hwidth =>
  split
  · exact .inl rfl
  split
  · exact .inl rfl
  split
  · exact .inl rfl
  · next bytes hbytes =>
    exact .inr ⟨bytes,by simpa using (not_or.mp hmodes).2,not_not.mp hwidth,hbytes,rfl⟩

theorem memCopy_cases (source : Option Memory) :
    memCopy allocator source s = s.fail ∨
    (∃ bytes, (source.getD s.memory).isString = true ∧ s.memory.singleElementSize = (source.getD s.memory).singleElementSize ∧
      visibleRange (source.getD s.memory) = some bytes ∧
      memCopy allocator source s = memCoreString allocator .fixed .replace bytes (descriptorSource source s.memory) s) ∨
    memCopy allocator source s = memCoreData allocator .replace source s := by
  rw [memCopy]
  split
  · exact .inl rfl
  split
  · exact .inl rfl
  split
  · exact .inl rfl
  split
  · exact .inl rfl
  split
  · exact .inl rfl
  next hmodes =>
  split
  · next hstring =>
    split
    · exact .inl rfl
    next hwidth =>
    split
    · exact .inl rfl
    split
    · exact .inl rfl
    · next bytes hbytes =>
      exact .inr (.inl ⟨bytes,(not_not.mp hmodes).symm.trans hstring,not_not.mp hwidth,hbytes,rfl⟩)
  · exact .inr (.inr rfl)

end

theorem fixedRange_visible {m : Memory} (h : Sound m) {source : Option Memory} (hsource : ∀ other, source = some other → Sound other)
    {bytes : ℕ} (hstring : (source.getD m).isString = true)
    (hwidth : m.singleElementSize = (source.getD m).singleElementSize)
    (hbytes : visibleRange (source.getD m) = some bytes) :
    FixedRange m .fixed bytes (descriptorSource source m) := by
  obtain ⟨total,htotal,hsize⟩ := Option.bind_eq_some_iff.mp hbytes
  obtain ⟨-,rfl⟩ := memGuardedAdd_eq_some.mp htotal
  obtain ⟨hne,-,rfl⟩ := memGuardedByteSize_eq_some.mp hsize
  have hread {other : Memory} (hother : Sound other) (hmode : other.isString = true) (hne : other.singleElementSize ≠ 0)
      (hdata : other.data ≠ none) :
      other.singleElementSize * (other.stringLength + 1) ≤ other.actuallyAllocatedBytes ∧ 0 < other.actuallyAllocatedBytes := by
    have hallocated : 0 < other.actuallyAllocatedBytes := by
      apply Nat.pos_of_ne_zero
      exact fun hzero => hdata (hother.allocated.mpr hzero)
    refine ⟨?_,hallocated⟩
    rcases hother.stringMode hmode with hinside | ⟨-,hzero⟩
    · exact hother.covers hinside
    · rw [hzero,Nat.zero_add,Nat.mul_one]
      exact hother.room hallocated
  refine ⟨rfl,?_⟩
  cases source with
  | none =>
    rw [descriptorSource]
    by_cases hdata : m.data = none
    · rw [if_pos hdata]
      trivial
    · rw [if_neg hdata]
      exact ⟨(hread h hstring hne hdata).2,by simp⟩
  | some other =>
    have hother := hsource other rfl
    cases hblock : other.data with
    | none => simp [descriptorSource,hblock]
    | some block =>
      have hlength := hother.blockLength
      simp only [Memory.block,hblock,Option.getD_some] at hlength
      have hcovers := (hread hother hstring hne (by simp [hblock])).1
      simp only [descriptorSource,hblock,Option.getD_some]
      omega

section
variable {s : State} (h : Sound s.memory) (hterminated : Terminated s.memory) {source : Option Memory}
  (hsource : ∀ other, source = some other → Sound other) (allocator : Allocator)
include h hterminated hsource

theorem memCoreData_keeps (transfer : TransferMode) :
    Sound (memCoreData allocator transfer source s).state.memory ∧
      Terminated (memCoreData allocator transfer source s).state.memory := by
  cases hsucceeded : (memCoreData allocator transfer source s).succeeded with
  | false =>
    rw [memCoreData_failed h hsucceeded]
    exact ⟨h,hterminated⟩
  | true =>
    have htransferred := memCoreData_succeeded h hsource hsucceeded
    refine ⟨htransferred.sound,fun hstring => ?_⟩
    rw [htransferred.format.2] at hstring
    cases hstring

theorem memConcatStrings_keeps :
    Sound (memConcatStrings allocator source s).state.memory ∧
      Terminated (memConcatStrings allocator source s).state.memory := by
  rcases memConcatStrings_cases allocator s source with hanswer | ⟨bytes,hstring,hwidth,hbytes,hanswer⟩
  · rw [hanswer]
    exact ⟨h,hterminated⟩
  · rw [hanswer]
    exact memCoreString_keeps h hterminated (.inr (fixedRange_visible h hsource hstring hwidth hbytes))

theorem memCopy_keeps :
    Sound (memCopy allocator source s).state.memory ∧ Terminated (memCopy allocator source s).state.memory := by
  rcases memCopy_cases allocator s source with hanswer | ⟨bytes,hstring,hwidth,hbytes,hanswer⟩ | hanswer
  · rw [hanswer]
    exact ⟨h,hterminated⟩
  · rw [hanswer]
    exact memCoreString_keeps h hterminated (.inr (fixedRange_visible h hsource hstring hwidth hbytes))
  · rw [hanswer]
    exact memCoreData_keeps h hterminated hsource allocator .replace

end

end Precizer.Libmem
