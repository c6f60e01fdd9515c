import Precizer.Libmem.DescriptorCopy
import Precizer.Libmem.Conversions
import Precizer.Libmem.FormattedRules

/-! # Operations keep descriptors sound

Whatever a string ends with, and whatever stands in a source, an operation leaves metadata that
agrees with the block, whether it succeeds or not.
-/
namespace Precizer.Libmem
open General

section
variable {s : State} (h : Sound s.memory) (allocator : Allocator)
include h

theorem alter_sound {change : Memory → Option Memory} (hchange : ∀ m, change s.memory = some m → Sound m) :
    Sound (s.alter change).state.memory := by
  rw [State.alter]
  split
  · exact h
  · next m hm => exact hchange m hm

theorem transferResized_sound (hstring : s.memory.isString = true) (hwidth : s.memory.singleElementSize ≠ 0)
    (source : Source) (inside : Option ℕ) (kept sourceLength : ℕ) :
    Sound (transferResized allocator source inside (s.memory.singleElementSize * kept)
      (s.memory.singleElementSize * sourceLength) (kept + sourceLength) (kept + sourceLength + 1) s).state.memory := by
  obtain ⟨hsound,hsame,hmode,hlength⟩ := memResize_sound h allocator (kept + sourceLength + 1) .plain
  rw [transferResized]
  cases hresized : (memResize allocator (kept + sourceLength + 1) .plain s).succeeded with
  | false =>
    rw [Answer.run_failed hresized]
    exact hsound
  | true =>
    have hindex : kept + sourceLength < (memResize allocator (kept + sourceLength + 1) .plain s).state.memory.length := by
      rw [hlength hresized]
      exact Nat.lt_succ_self _
    have hcovers := hsound.covers hindex
    have hbytes : (movedBytes source inside (s.memory.singleElementSize * sourceLength) s.memory
        (memResize allocator (kept + sourceLength + 1) .plain s).state.memory).length ≤
          s.memory.singleElementSize * sourceLength := List.length_take_le _ _
    rw [Answer.run_succeeded hresized,
      placeString_eq hsound (by rwa [hsame]) (hsound.data_of_length (Nat.zero_lt_of_lt hindex)) hcovers]
    rw [hsame,Nat.mul_add,Nat.mul_add] at hcovers
    exact (hsound.written (by omega)).cutAt (hmode.trans hstring) hindex

theorem replaceInside_sound (hstring : s.memory.isString = true) (hwidth : s.memory.singleElementSize ≠ 0)
    (offset : ℕ) {sourceLength : ℕ} (hdata : s.memory.data ≠ none)
    (hindex : sourceLength < s.memory.length ∨ s.memory.length = 0 ∧ sourceLength = 0) :
    Sound (replaceInside allocator offset (s.memory.singleElementSize * sourceLength) sourceLength (sourceLength + 1)
      s).state.memory := by
  have hbytes : ((s.memory.block.drop offset).take (s.memory.singleElementSize * sourceLength)).length ≤
      s.memory.singleElementSize * sourceLength := List.length_take_le _ _
  obtain ⟨hroom,hcut,-,-⟩ := movedToFront h hstring hdata hindex hbytes
  rw [replaceInside,placeString_eq h hwidth hdata hroom,Answer.run_succeeded rfl]
  exact (memResize_sound hcut allocator (sourceLength + 1) .plain).1

theorem memCoreString_sound (mode : SourceMode) (transfer : TransferMode) (rangeBytes : ℕ) (source : Source) :
    Sound (memCoreString allocator mode transfer rangeBytes source s).state.memory := by
  rcases memCoreString_cases h allocator mode transfer rangeBytes source with
    hanswer | ⟨hanswer,-⟩ | ⟨inside,sourceLength,hstring,hwidth,hroom,-,-,hanswer⟩
  · rw [hanswer]
    exact h
  · rw [hanswer]
    exact h
  rw [hanswer]
  rcases transferMeasured_cases h hstring hwidth allocator transfer source inside sourceLength rfl with
    ⟨-,-,hmeasured⟩ | hmeasured | ⟨offset,-,hoffset,hmeasured⟩ | ⟨-,hmeasured⟩
  · rw [hmeasured]
    exact h
  · rw [hmeasured]
    exact h
  · obtain ⟨hdata,hindex⟩ := hroom (by simp [hoffset])
    rw [hmeasured]
    exact replaceInside_sound h allocator hstring hwidth offset hdata hindex
  · rw [hmeasured]
    exact transferResized_sound h allocator hstring hwidth source inside _ sourceLength

theorem transferBuffer_sound (source : Source) (inside : Option ℕ) (kept : ℕ) {count : ℕ} (hcount : count ≠ 0) :
    Sound (transferBuffer allocator source inside (s.memory.singleElementSize * kept) (s.memory.singleElementSize * count)
      (kept + count) s).state.memory := by
  obtain ⟨hsound,hsame,-,hlength⟩ := memResize_sound h allocator (kept + count) .plain
  rw [transferBuffer]
  cases hresized : (memResize allocator (kept + count) .plain s).succeeded with
  | false =>
    rw [Answer.run_failed hresized,Answer.run_failed rfl]
    exact hsound
  | true =>
    have hcovered := hsound.covered
    rw [hsame,hlength hresized,Nat.mul_add] at hcovered
    have hdata : (memResize allocator (kept + count) .plain s).state.memory.data ≠ none := by
      apply hsound.data_of_length
      rw [hlength hresized]
      omega
    have hbytes : (movedBytes source inside (s.memory.singleElementSize * count) s.memory
        (memResize allocator (kept + count) .plain s).state.memory).length ≤ s.memory.singleElementSize * count :=
      List.length_take_le _ _
    rw [Answer.run_succeeded hresized,State.alter,moveBytes,if_neg hdata,Answer.run_succeeded rfl]
    exact (hsound.written (by omega)).asData le_rfl

theorem memCoreBuffer_sound (transfer : TransferMode) (sizeBytes : ℕ) (source : Source) :
    Sound (memCoreBuffer allocator transfer sizeBytes source s).state.memory := by
  rcases memCoreBuffer_cases h allocator transfer sizeBytes source with
    hanswer | ⟨-,-,⟨-,hanswer⟩ | ⟨kept,count,-,hcount,-,-,-,hanswer⟩⟩
  · rw [hanswer]
    exact h
  · rw [hanswer]
    split
    · exact h
    · exact (memResize_sound h allocator 0 .plain).1
  · rw [hanswer]
    exact transferBuffer_sound h allocator source _ kept hcount

theorem memCoreData_sound (transfer : TransferMode) (source : Option Memory) :
    Sound (memCoreData allocator transfer source s).state.memory := by
  rcases memCoreData_cases allocator transfer source s with hanswer | hanswer
  · rw [hanswer]
    exact h
  · rw [hanswer]
    exact memCoreBuffer_sound h allocator transfer _ _

theorem memConcatStrings_sound (source : Option Memory) : Sound (memConcatStrings allocator source s).state.memory := by
  rcases memConcatStrings_cases allocator s source with hanswer | ⟨bytes,-,-,-,hanswer⟩
  · rw [hanswer]
    exact h
  · rw [hanswer]
    exact memCoreString_sound h allocator .fixed .append bytes _

theorem memCopy_sound (source : Option Memory) : Sound (memCopy allocator source s).state.memory := by
  rcases memCopy_cases allocator s source with hanswer | ⟨bytes,-,-,-,hanswer⟩ | hanswer
  · rw [hanswer]
    exact h
  · rw [hanswer]
    exact memCoreString_sound h allocator .fixed .replace bytes _
  · rw [hanswer]
    exact memCoreData_sound h allocator .replace source

theorem memConvertDataToString_sound : Sound (memConvertDataToString allocator s).state.memory := by
  cases hmode : s.memory.isString with
  | true =>
    rw [memConvertDataToString_string h allocator hmode]
    exact h
  | false =>
    obtain ⟨hbecame,hsame⟩ := memConvertDataToString_data h allocator hmode
    cases hsucceeded : (memConvertDataToString allocator s).succeeded with
    | true => exact (hbecame hsucceeded).sound
    | false =>
      rw [hsame hsucceeded]
      exact h

end

section
variable {s : State} (h : Sound s.memory)
include h

/-- A string of bytes may lose its terminator when it becomes data, and the books say so. -/
theorem memConvertStringToData_cases :
    memConvertStringToData s = s.fail ∨ memConvertStringToData s = { s with memory := s.memory.asData }.succeed ∨
    s.memory.singleElementSize = 1 ∧ 0 < s.memory.length ∧
      memConvertStringToData s = State.succeed ⟨{ s.memory with length := s.memory.length - 1 }.asData,
        (s.telemetry.currentPayloadBytesRemoved s.memory.singleElementSize).blockOverheadBytesAdded
          s.memory.singleElementSize,s.heap⟩ := by
  rw [memConvertStringToData,if_neg h.payload_present]
  dsimp only
  split
  · exact .inl rfl
  split
  · exact .inl rfl
  next hwide =>
  split
  · next hlast =>
    split
    · exact .inl rfl
    · split
      · exact .inr (.inr ⟨by_contra fun hwidth => hwide ⟨hlast.1,hwidth⟩,hlast.2.1,rfl⟩)
      · exact .inr (.inl rfl)
  · exact .inr (.inl rfl)

theorem memConvertStringToData_sound : Sound (memConvertStringToData s).state.memory := by
  rcases memConvertStringToData_cases h with hanswer | hanswer | ⟨-,-,hanswer⟩
  · rw [hanswer]
    exact h
  · rw [hanswer]
    exact h.asData le_rfl
  · rw [hanswer]
    exact h.asData (Nat.sub_le _ _)

end

section
variable {m m' : Memory} (h : Sound m)
include h

theorem memStringTruncate_cases {n : ℕ} (hanswer : memStringTruncate m n = some m') :
    m' = m ∨ m.isString = true ∧ n < m.length ∧ m' = m.cutAt n := by
  have hwidth : m.singleElementSize ≠ 0 := fun hzero => by
    simp [memStringTruncate,hzero] at hanswer
  have hstring : m.isString = true := by
    by_contra hdata
    simp [memStringTruncate,hdata] at hanswer
  rw [memStringTruncate_sound h hstring hwidth] at hanswer
  obtain rfl := Option.some.inj hanswer
  split
  · exact .inl rfl
  · next hcut =>
    have hinside := h.stringMode hstring
    exact .inr ⟨hstring,by omega,rfl⟩

end

end Precizer.Libmem
