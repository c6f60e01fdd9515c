import Precizer.Libmem.SoundOperations

/-! # Steps of the other operations

Byte transfers, copies, formatted texts and the conversion of data are made of resizes and writes
too, so what holds across these holds across them.
-/
namespace Precizer.Libmem
open General

theorem footprint_memStringTruncate {m m' : Memory} (h : Sound m) {n : ℕ} (hanswer : memStringTruncate m n = some m') :
    m'.footprint = m.footprint := by
  rcases memStringTruncate_cases h hanswer with rfl | ⟨-,-,rfl⟩
  · rfl
  · exact footprint_cutAt m n

theorem footprint_memFinalizeString {m m' : Memory} (h : Sound m) {writtenLength : ℕ} {flags : TerminatorWriteMode}
    (hanswer : memFinalizeString m writtenLength flags = some m') : m'.footprint = m.footprint := by
  obtain ⟨-,-,rfl⟩ := memFinalizeString_sound h hanswer
  exact footprint_cutAt m writtenLength

/-- What `vswprintf` writes stays within its buffer. -/
theorem length_vswprintf (format : WideFormat) (capacity : ℕ) :
    (format.vswprintf capacity).2.length ≤ sizeofWchar * capacity := by
  rw [WideFormat.vswprintf]
  split
  · exact format.leftoverFits capacity
  · next text htext =>
    split
    · next hfits =>
      have hwhole : sizeofWchar * (text.length / sizeofWchar) = text.length :=
        Nat.mul_div_cancel' (format.renderedWhole text htext)
      have hroom : sizeofWchar * (text.length / sizeofWchar + 1) ≤ sizeofWchar * capacity := Nat.mul_le_mul_left _ hfits
      rw [Nat.mul_add,Nat.mul_one,hwhole] at hroom
      rw [List.length_append,length_zeroElement]
      exact hroom
    · exact format.leftoverFits capacity

section
variable {R : State → State → Prop} (hR : Tracks R)
include hR

section
variable {s : State} (h : Sound s.memory) (allocator : Allocator)
include h

theorem transferBuffer_tracks (source : Source) (inside : Option ℕ) (offsetBytes sizeBytes newTotalElements : ℕ) :
    R s (transferBuffer allocator source inside offsetBytes sizeBytes newTotalElements s).state := by
  apply hR.run
  · apply hR.run
    · exact hR.resize allocator _ _ h rfl
    · intro _
      apply hR.alter
      intro m' hm'
      rw [moveBytes] at hm'
      split_ifs at hm'
      rw [← Option.some.inj hm',footprint_written]
  · intro _
    exact hR.write _ rfl

theorem memCoreBuffer_tracks (transfer : TransferMode) (sizeBytes : ℕ) (source : Source) :
    R s (memCoreBuffer allocator transfer sizeBytes source s).state := by
  rcases memCoreBuffer_cases h allocator transfer sizeBytes source with
    hanswer | ⟨-,-,⟨-,hanswer⟩ | ⟨kept,count,-,-,-,-,-,hanswer⟩⟩
  · rw [hanswer]
    exact hR.refl s
  · rw [hanswer]
    split
    · exact hR.refl s
    · exact hR.resize allocator 0 .plain h rfl
  · rw [hanswer]
    exact transferBuffer_tracks hR h allocator _ _ _ _ _

theorem memCoreData_tracks (transfer : TransferMode) (source : Option Memory) :
    R s (memCoreData allocator transfer source s).state := by
  rcases memCoreData_cases allocator transfer source s with hanswer | hanswer
  · rw [hanswer]
    exact hR.refl s
  · rw [hanswer]
    exact memCoreBuffer_tracks hR h allocator transfer _ _

theorem memConcatStrings_tracks (source : Option Memory) : R s (memConcatStrings allocator source s).state := by
  rcases memConcatStrings_cases allocator s source with hanswer | ⟨bytes,-,-,-,hanswer⟩
  · rw [hanswer]
    exact hR.refl s
  · rw [hanswer]
    exact memCoreString_tracks hR h allocator .fixed .append bytes _

theorem memCopy_tracks (source : Option Memory) : R s (memCopy allocator source s).state := by
  rcases memCopy_cases allocator s source with hanswer | ⟨bytes,-,-,-,hanswer⟩ | hanswer
  · rw [hanswer]
    exact hR.refl s
  · rw [hanswer]
    exact memCoreString_tracks hR h allocator .fixed .replace bytes _
  · rw [hanswer]
    exact memCoreData_tracks hR h allocator .replace source

omit h in
theorem finishConversion_tracks (measuredLength : ℕ) : R s (finishConversion measuredLength s).state := by
  rw [finishConversion]
  split
  · exact hR.refl s
  · split
    · exact hR.write _ rfl
    · next m hm =>
      have hsame := footprint_memWriteZeroTerminator hm
      exact hR.write _ hsame

theorem memConvertDataToString_tracks : R s (memConvertDataToString allocator s).state := by
  cases hmode : s.memory.isString with
  | true =>
    rw [memConvertDataToString_string h allocator hmode]
    exact hR.refl s
  | false =>
    rcases Nat.eq_zero_or_pos s.memory.length with hempty | hlength
    · rw [memConvertDataToString_empty h allocator hmode hempty]
      split
      · exact hR.refl s
      · exact hR.write _ rfl
    · rw [memConvertDataToString_eq h allocator hmode hlength]
      split
      · exact hR.refl s
      · apply hR.run
        · split
          · exact hR.resize allocator _ _ h rfl
          · exact hR.refl s
        · intro _
          exact finishConversion_tracks hR _

theorem memFormattedStringChar_tracks (format : Option NarrowFormat) :
    R s (memFormattedStringChar allocator format s).state := by
  rw [memFormattedStringChar.eq_def]
  split
  · exact hR.refl s
  split
  · exact hR.refl s
  split
  · exact hR.refl s
  split
  · exact hR.refl s
  · next text =>
    apply hR.run
    · exact hR.resize allocator _ _ h rfl
    · intro _
      have hprinted := footprint_written (memResize allocator (text.length + 1) .plain s).state.memory 0 (text ++ [0])
      exact hR.write _ hprinted

/-- Each attempt is a resize and a write within the new buffer. -/
theorem wideAttempts_tracks (format : WideFormat) (hwidth : s.memory.singleElementSize = sizeofWchar)
    (left guessedLength : ℕ) : R s (wideAttempts allocator format left guessedLength s).2.state := by
  induction left generalizing guessedLength s with
  | zero =>
    rw [wideAttempts.eq_def]
    dsimp only
    have hresize := hR.resize allocator (guessedLength + 1) .plain h rfl
    have hprinted := hR.trans hresize (hR.write ((memResize allocator (guessedLength + 1) .plain s).state.memory.written 0
      (format.vswprintf (guessedLength + 1)).2) (footprint_written _ _ _))
    split
    · exact hresize
    · split
      · exact hprinted
      · exact hprinted
      · next hdoublings => cases hdoublings
  | succ left ih =>
    rw [wideAttempts.eq_def]
    dsimp only
    have hresize := hR.resize allocator (guessedLength + 1) .plain h rfl
    obtain ⟨hsound,hsame,-,hlength⟩ := memResize_sound h allocator (guessedLength + 1) .plain
    split
    · exact hresize
    next hresized =>
    have hsucceeded : (memResize allocator (guessedLength + 1) .plain s).succeeded = true := by simpa using hresized
    have hprinted := hR.trans hresize (hR.write ((memResize allocator (guessedLength + 1) .plain s).state.memory.written 0
      (format.vswprintf (guessedLength + 1)).2) (footprint_written _ _ _))
    split
    · exact hprinted
    · next hdoublings => cases hdoublings
    · next doublings hnone hdoublings =>
      obtain rfl := Nat.succ.inj hdoublings
      split
      · exact hprinted
      · have hbytes := length_vswprintf format (guessedLength + 1)
        have hcovered := hsound.covered
        rw [hlength hsucceeded,hsame,hwidth] at hcovered
        have hnext : Sound ((memResize allocator (guessedLength + 1) .plain s).state.memory.written 0
            (format.vswprintf (guessedLength + 1)).2) := hsound.written (by omega)
        apply hR.trans hprinted
        apply ih
        · exact hnext
        · exact hsame.trans hwidth

theorem memFormattedStringWchar_tracks (format : Option WideFormat) :
    R s (memFormattedStringWchar allocator format s).state := by
  rw [memFormattedStringWchar.eq_def]
  split
  · exact hR.refl s
  next hmode =>
  split
  · exact hR.refl s
  next format =>
  split
  · exact hR.refl s
  next hwidth =>
  have hwidth : s.memory.singleElementSize = sizeofWchar := not_not.mp hwidth
  have hattempts := wideAttempts_tracks hR h allocator format hwidth maxDoublings 128
  have hend := wideAttempts_from_start h (by simpa using hmode) hwidth allocator format
  generalize wideAttempts allocator format maxDoublings 128 s = attempts at hattempts hend
  cases hend with
  | refused => exact hattempts
  | givenUp => exact hattempts
  | @printed state count doublings hgranted hfits hsound hterminated hwithin =>
    apply hR.trans hattempts
    have hrecorded : R state { state with memory := { state.memory with stringLength := count } } := hR.write _ rfl
    exact hR.trans hrecorded (hR.resize allocator _ _ hsound rfl)

end

end

end Precizer.Libmem
