import Precizer.Libmem.StringCore

/-! # What a string transfer does

On a sound string a measured transfer either leaves the whole descriptor alone or puts the
measured bytes behind what it keeps of the old string, wherever they came from.
-/
namespace Precizer.Libmem
open General

structure Transferred (m : Memory) (transfer : TransferMode) (bytes : List UInt8) (m' : Memory) : Prop where
  visible : m'.visibleString = (if transfer = .append then m.visibleString else []) ++ bytes
  stringLength : m.singleElementSize * m'.stringLength = m'.visibleString.length
  format : m'.singleElementSize = m.singleElementSize ∧ m'.isString = true
  sound : Sound m'
  terminated : Terminated m'
  unused : m'.length = 0 → transfer = .append ∧ m' = m

section
variable {m : Memory} (h : Sound m)
include h

theorem length_visibleString : m.visibleString.length = m.singleElementSize * m.stringLength := by
  have hle : m.singleElementSize * m.stringLength ≤ m.block.length := by
    rw [h.blockLength]
    exact (Nat.mul_le_mul_left _ h.stringLength_le).trans h.covered
  simp [Memory.visibleString,hle]

theorem visibleString_cutAt {index : ℕ} (hdata : m.data ≠ none)
    (hroom : m.singleElementSize * (index + 1) ≤ m.actuallyAllocatedBytes) :
    (m.cutAt index).visibleString = m.block.take (m.singleElementSize * index) := by
  have hblock : (m.cutAt index).block = overwrite m.block (m.singleElementSize * index)
      (zeroElement UInt8 m.singleElementSize) := Memory.block_written hdata
  rw [Nat.mul_add] at hroom
  have hlength := h.blockLength
  calc (m.cutAt index).visibleString
      = (m.cutAt index).block.take (m.singleElementSize * index) := rfl
    _ = m.block.take (m.singleElementSize * index) := by
      rw [hblock,take_overwrite_of_le (by omega) (Nat.le_refl _)]

theorem Sound.cutAt_of_room (hstring : m.isString = true) {index : ℕ}
    (hroom : m.singleElementSize * (index + 1) ≤ m.actuallyAllocatedBytes)
    (hindex : index < m.length ∨ m.length = 0 ∧ index = 0) : Sound (m.cutAt index) := by
  rw [Nat.mul_add,Nat.mul_one] at hroom
  have hfit : m.singleElementSize * index + (zeroElement UInt8 m.singleElementSize).length ≤ m.actuallyAllocatedBytes := by
    rwa [length_zeroElement]
  have hwritten : Sound (m.zeroAt index) := h.written hfit
  exact ⟨hwritten.blockLength,hwritten.allocated,hwritten.initialized,hwritten.covered,hwritten.room,
    hwritten.addressable,hwritten.slabs,fun hdata => Bool.noConfusion (hstring.symm.trans hdata),fun _ => hindex⟩

theorem block_take_written {offset n : ℕ} {bytes : List UInt8} (hoffset : offset ≤ m.actuallyAllocatedBytes)
    (hdata : m.data ≠ none) (hn : offset + bytes.length = n) :
    (m.written offset bytes).block.take n = m.block.take offset ++ bytes := by
  rw [Memory.block_written hdata,← hn,take_overwrite (by rwa [h.blockLength])]

end

theorem placeString_eq {s : State} (hsound : Sound s.memory) (hwidth : s.memory.singleElementSize ≠ 0)
    (hdata : s.memory.data ≠ none) {offsetBytes visibleLength : ℕ} {bytes : List UInt8}
    (hroom : s.memory.singleElementSize * (visibleLength + 1) ≤ s.memory.actuallyAllocatedBytes) :
    placeString offsetBytes visibleLength bytes s =
      { s with memory := (s.memory.written offsetBytes bytes).cutAt visibleLength }.succeed := by
  have hwritten : (s.memory.written offsetBytes bytes).data ≠ none := by
    simpa [Memory.written] using hdata
  have hwrite : memWriteZeroTerminator (s.memory.written offsetBytes bytes) visibleLength =
      some ((s.memory.written offsetBytes bytes).zeroAt visibleLength) :=
    (memWriteZeroTerminator_eq_some (m := s.memory.written offsetBytes bytes) hsound.addressable).mpr ⟨hwidth,hwritten,hroom,rfl⟩
  simp [placeString,State.alter,moveBytes,hdata,State.succeed,Answer.run,terminateString,hwrite,Memory.cutAt]

/-- A source that was measured: its bytes are there, and inside the destination they are visible. -/
structure Measured (m : Memory) (source : Source) (inside : Option ℕ) (sourceLength : ℕ) : Prop where
  outside : inside = none → m.singleElementSize * sourceLength ≤ (source.bytesFrom m).length
  within : ∀ offset, inside = some offset → source.bytesFrom m = m.block.drop offset ∧ m.data ≠ none ∧
    ∃ index, offset = m.singleElementSize * index ∧ index + sourceLength ≤ m.stringLength

theorem Measured.length {m : Memory} {source : Source} {inside : Option ℕ} {sourceLength : ℕ} (h : Sound m)
    (hmeasured : Measured m source inside sourceLength) :
    ((source.bytesFrom m).take (m.singleElementSize * sourceLength)).length = m.singleElementSize * sourceLength := by
  have hlong : m.singleElementSize * sourceLength ≤ (source.bytesFrom m).length := by
    cases inside with
    | none => exact hmeasured.outside rfl
    | some offset =>
      obtain ⟨hbytes,-,index,rfl,hend⟩ := hmeasured.within offset rfl
      have hcovered := h.covered
      have hvisible : m.singleElementSize * (index + sourceLength) ≤ m.singleElementSize * m.length :=
        Nat.mul_le_mul_left _ (hend.trans h.stringLength_le)
      rw [Nat.mul_add] at hvisible
      rw [hbytes,List.length_drop,h.blockLength]
      omega
  rw [List.length_take,Nat.min_eq_left hlong]

section
variable {s : State} (h : Sound s.memory) (hterminated : Terminated s.memory) (hstring : s.memory.isString = true)
  (hwidth : s.memory.singleElementSize ≠ 0) {allocator : Allocator} {source : Source} {inside : Option ℕ}
include h hterminated hstring hwidth

omit hstring in
theorem transferResized_cases (allocator : Allocator) (source : Source) (inside : Option ℕ)
    (offsetBytes sourceBytes visibleLength : ℕ) :
    (∃ state : State, transferResized allocator source inside offsetBytes sourceBytes visibleLength (visibleLength + 1) s =
        state.fail ∧ state.memory = s.memory) ∨
    ∃ resized : State, ExactResize s.memory (visibleLength + 1) .plain resized.memory ∧
      transferResized allocator source inside offsetBytes sourceBytes visibleLength (visibleLength + 1) s =
        { resized with memory := (resized.memory.written offsetBytes
          (movedBytes source inside sourceBytes s.memory resized.memory)).cutAt visibleLength }.succeed := by
  rw [transferResized]
  cases hresize : (memResize allocator (visibleLength + 1) .plain s).succeeded with
  | false =>
    rw [Answer.run_failed hresize]
    exact .inl ⟨_,rfl,(memResize_refused h hresize).1⟩
  | true =>
    have hexact := memResize_exact h hterminated hresize
    have hindex : visibleLength < (memResize allocator (visibleLength + 1) .plain s).state.memory.length := by
      rw [hexact.length]
      omega
    have hroom := hexact.sound.covers hindex
    have hdata := hexact.sound.data_of_length (by rw [hexact.length]; omega)
    refine .inr ⟨(memResize allocator (visibleLength + 1) .plain s).state,hexact,?_⟩
    rw [Answer.run_succeeded hresize]
    exact placeString_eq hexact.sound (by rwa [hexact.format.1]) hdata hroom

omit hterminated hwidth in
theorem movedBytes_eq {visibleLength sourceLength : ℕ} {resized : Memory}
    (hexact : ExactResize s.memory (visibleLength + 1) .plain resized)
    (hmeasured : Measured s.memory source inside sourceLength)
    (hvisible : inside ≠ none → s.memory.stringLength ≤ visibleLength) :
    movedBytes source inside (s.memory.singleElementSize * sourceLength) s.memory resized =
      (source.bytesFrom s.memory).take (s.memory.singleElementSize * sourceLength) := by
  cases inside with
  | none => rfl
  | some offset =>
    obtain ⟨hbytes,-,index,rfl,hend⟩ := hmeasured.within offset rfl
    have hlong := hvisible (by simp)
    have hstringLength : resized.stringLength = s.memory.stringLength := by
      rw [hexact.stringLength hstring]
      omega
    have hsame := hexact.string hstring
    rw [List.take_of_length_le (by
      rw [length_visibleString h]
      exact Nat.mul_le_mul_left _ (by omega)),Memory.visibleString,hexact.format.1,hstringLength] at hsame
    rw [movedBytes,hbytes]
    apply window_of_take hsame
    rw [← Nat.mul_add]
    exact Nat.mul_le_mul_left _ hend

omit hterminated hwidth in
theorem transferred_resized {transfer : TransferMode} {kept sourceLength : ℕ} {resized : Memory}
    (hkept : kept = if transfer = .append then s.memory.stringLength else 0)
    (hinside : inside ≠ none → transfer = .append)
    (hexact : ExactResize s.memory (kept + sourceLength + 1) .plain resized)
    (hmeasured : Measured s.memory source inside sourceLength) :
    Transferred s.memory transfer ((source.bytesFrom s.memory).take (s.memory.singleElementSize * sourceLength))
      ((resized.written (s.memory.singleElementSize * kept)
        (movedBytes source inside (s.memory.singleElementSize * sourceLength) s.memory resized)).cutAt
          (kept + sourceLength)) := by
  have hwidth' : resized.singleElementSize = s.memory.singleElementSize := hexact.format.1
  have hdata := hexact.sound.data_of_length (by rw [hexact.length]; omega)
  have hindex : kept + sourceLength < resized.length := by
    rw [hexact.length]
    omega
  have hroom := hexact.sound.covers hindex
  have hsourceLength := hmeasured.length h
  have hmoved := movedBytes_eq h hstring hexact hmeasured (by
    intro hne
    rw [if_pos (hinside hne)] at hkept
    omega)
  rw [hmoved]
  rw [hwidth'] at hroom
  generalize (source.bytesFrom s.memory).take (s.memory.singleElementSize * sourceLength) = bytes at hsourceLength
  have hsum : s.memory.singleElementSize * kept + bytes.length = s.memory.singleElementSize * (kept + sourceLength) := by
    rw [hsourceLength,Nat.mul_add]
  have hnext : s.memory.singleElementSize * (kept + sourceLength + 1) =
      s.memory.singleElementSize * (kept + sourceLength) + s.memory.singleElementSize := by ring
  have hwritten : Sound (resized.written (s.memory.singleElementSize * kept) bytes) :=
    hexact.sound.written (by omega)
  have hdataWritten : (resized.written (s.memory.singleElementSize * kept) bytes).data ≠ none := by
    simpa [Memory.written] using hdata
  have hbefore : resized.block.take (s.memory.singleElementSize * kept) =
      if transfer = .append then s.memory.visibleString else [] := by
    rw [hkept]
    split
    · next happend =>
      rw [if_pos happend] at hkept
      have hstringLength : resized.stringLength = s.memory.stringLength := by
        rw [hexact.stringLength hstring]
        omega
      have hall : s.memory.visibleString.length ≤ s.memory.singleElementSize * (kept + sourceLength + 1 - 1) := by
        rw [length_visibleString h]
        exact Nat.mul_le_mul_left _ (by omega)
      have hsame := hexact.string hstring
      rwa [List.take_of_length_le hall,Memory.visibleString,hwidth',hstringLength] at hsame
    · simp
  have hvisible : ((resized.written (s.memory.singleElementSize * kept) bytes).cutAt (kept + sourceLength)).visibleString =
      (if transfer = .append then s.memory.visibleString else []) ++ bytes := by
    have hcut := visibleString_cutAt hwritten hdataWritten (by simpa [hwidth'] using hroom)
    rw [hcut,← hbefore,Memory.written_singleElementSize,hwidth']
    exact block_take_written hexact.sound (by omega) hdata hsum
  refine ⟨hvisible,?_,⟨hwidth',hexact.format.2.trans hstring⟩,?_,Memory.terminated_cutAt hwritten hindex,?_⟩
  · rw [length_visibleString (hwritten.cutAt (hexact.format.2.trans hstring) hindex)]
    simp [hwidth']
  · exact hwritten.cutAt (hexact.format.2.trans hstring) hindex
  · intro hzero
    simp only [Memory.cutAt_length,Memory.written_length] at hzero
    omega

omit hterminated hwidth in
theorem movedToFront {sourceLength : ℕ} {bytes : List UInt8} (hdata : s.memory.data ≠ none)
    (hindex : sourceLength < s.memory.length ∨ s.memory.length = 0 ∧ sourceLength = 0)
    (hbytes : bytes.length ≤ s.memory.singleElementSize * sourceLength) :
    s.memory.singleElementSize * (sourceLength + 1) ≤ s.memory.actuallyAllocatedBytes ∧
    Sound ((s.memory.written 0 bytes).cutAt sourceLength) ∧ Terminated ((s.memory.written 0 bytes).cutAt sourceLength) ∧
    ((s.memory.written 0 bytes).cutAt sourceLength).visibleString =
      (s.memory.written 0 bytes).block.take (s.memory.singleElementSize * sourceLength) := by
  have hroom : s.memory.singleElementSize * (sourceLength + 1) ≤ s.memory.actuallyAllocatedBytes := by
    rcases hindex with hinside | ⟨-,hzero⟩
    · exact h.covers hinside
    · have hallocated : s.memory.actuallyAllocatedBytes ≠ 0 := fun hzero => hdata (h.allocated.mpr hzero)
      simpa [hzero] using h.room (Nat.pos_of_ne_zero hallocated)
  have hnext : s.memory.singleElementSize * (sourceLength + 1) =
      s.memory.singleElementSize * sourceLength + s.memory.singleElementSize := by ring
  have hwritten : Sound (s.memory.written 0 bytes) := h.written (by omega)
  refine ⟨hroom,hwritten.cutAt_of_room hstring (by simpa using hroom) (by simpa using hindex),?_,
    visibleString_cutAt hwritten (Memory.data_written hdata) (by simpa using hroom)⟩
  intro hmode hlength
  have hinside : sourceLength < (s.memory.written 0 bytes).length := by
    simp only [Memory.cutAt_length,Memory.written_length] at hlength ⊢
    omega
  exact Memory.terminated_cutAt hwritten hinside hmode hlength

omit hterminated in
theorem replaceInside_succeeded (allocator : Allocator) (offset : ℕ) {sourceLength : ℕ} (hdata : s.memory.data ≠ none)
    (hindex : sourceLength < s.memory.length ∨ s.memory.length = 0 ∧ sourceLength = 0) :
    (replaceInside allocator offset (s.memory.singleElementSize * sourceLength) sourceLength (sourceLength + 1)
      s).succeeded = true := by
  have hbytes : ((s.memory.block.drop offset).take (s.memory.singleElementSize * sourceLength)).length ≤
      s.memory.singleElementSize * sourceLength := List.length_take_le _ _
  obtain ⟨hroom,hcut,-,-⟩ := movedToFront h hstring hdata hindex hbytes
  rw [replaceInside,placeString_eq h hwidth hdata hroom,Answer.run_succeeded rfl]
  dsimp only [State.succeed]
  apply memResize_inPlace
  · exact hcut
  · exact hwidth
  · simpa [Memory.cutAt,Memory.zeroAt,Memory.written] using hdata
  · simpa using hroom
  · rfl

omit hterminated in
theorem replaceInside_exact {offset sourceLength : ℕ} (hmeasured : Measured s.memory source (some offset) sourceLength) :
    Transferred s.memory .replace ((source.bytesFrom s.memory).take (s.memory.singleElementSize * sourceLength))
      (replaceInside allocator offset (s.memory.singleElementSize * sourceLength) sourceLength (sourceLength + 1)
        s).state.memory := by
  obtain ⟨hbytes,hdata,index,-,hend⟩ := hmeasured.within offset rfl
  have hcases := h.stringMode hstring
  have hindex : sourceLength < s.memory.length ∨ s.memory.length = 0 ∧ sourceLength = 0 := by omega
  have hsourceLength := hmeasured.length h
  have hsucceeded := replaceInside_succeeded h hstring hwidth allocator offset hdata hindex
  rw [hbytes] at hsourceLength ⊢
  obtain ⟨hroom,hcut,hterminatedCut,hvisible⟩ := movedToFront h hstring hdata hindex hsourceLength.le
  rw [replaceInside,placeString_eq h hwidth hdata hroom,Answer.run_succeeded rfl] at hsucceeded ⊢
  dsimp only [State.succeed] at hsucceeded ⊢
  generalize (s.memory.block.drop offset).take (s.memory.singleElementSize * sourceLength) = bytes at *
  have hfront : ((s.memory.written 0 bytes).cutAt sourceLength).visibleString = bytes := by
    have htake : (s.memory.written 0 bytes).block.take (s.memory.singleElementSize * sourceLength) =
        s.memory.block.take 0 ++ bytes := block_take_written h (Nat.zero_le _) hdata (by omega)
    rw [hvisible]
    simpa using htake
  have hexact := memResize_exact hcut hterminatedCut hsucceeded
  have hformat := hexact.format
  refine ⟨?_,?_,⟨hformat.1,hformat.2.trans hstring⟩,hexact.sound,hexact.terminated,?_⟩
  · have hkept := hexact.string hstring
    rw [hfront,List.take_of_length_le (by simp [hsourceLength])] at hkept
    simpa using hkept
  · rw [length_visibleString hexact.sound,hformat.1]
    rfl
  · intro hzero
    rw [hexact.length] at hzero
    omega

omit hwidth in
theorem transferred_nothing : Transferred s.memory .append [] s.memory :=
  ⟨by simp,(length_visibleString h).symm,⟨rfl,hstring⟩,h,hterminated,fun _ => ⟨rfl,rfl⟩⟩

omit hterminated in
theorem transferMeasured_cases (allocator : Allocator) (transfer : TransferMode) (source : Source) (inside : Option ℕ)
    (sourceLength : ℕ) {kept : ℕ} (hkept : kept = if transfer = .append then s.memory.stringLength else 0) :
    (transfer = .append ∧ sourceLength = 0 ∧
      transferMeasured allocator transfer source inside sourceLength s = s.succeed) ∨
    transferMeasured allocator transfer source inside sourceLength s = s.fail ∨
    (∃ offset, transfer = .replace ∧ inside = some offset ∧
      transferMeasured allocator transfer source inside sourceLength s =
        replaceInside allocator offset (s.memory.singleElementSize * sourceLength) sourceLength (sourceLength + 1) s) ∨
    ((inside ≠ none → transfer = .append) ∧
      transferMeasured allocator transfer source inside sourceLength s =
        transferResized allocator source inside (s.memory.singleElementSize * kept)
          (s.memory.singleElementSize * sourceLength) (kept + sourceLength) (kept + sourceLength + 1) s) := by
  have hdata : ¬(0 < s.memory.length ∧ s.memory.data = none) := h.payload_present
  have hdestination : (if transfer = .append then memStringLength s.memory else some 0) = some kept := by
    rw [hkept,memStringLength,if_neg hdata,if_neg hwidth,if_pos hstring]
    split <;> rfl
  rw [transferMeasured]
  dsimp only
  split
  · next hnothing => exact .inl ⟨hnothing.1,hnothing.2,rfl⟩
  right
  rw [hdestination]
  dsimp only
  have hvisible : (if transfer = .append then memGuardedAdd kept sourceLength else some sourceLength) = none ∨
      (if transfer = .append then memGuardedAdd kept sourceLength else some sourceLength) = some (kept + sourceLength) := by
    split
    · next happend =>
      rw [memGuardedAdd]
      split
      · exact .inl rfl
      · exact .inr rfl
    · next happend =>
      rw [if_neg happend] at hkept
      simp [hkept]
  have hoffset : (if transfer = .append then memGuardedByteSize s.memory kept else some 0) = none ∨
      (if transfer = .append then memGuardedByteSize s.memory kept else some 0) =
        some (s.memory.singleElementSize * kept) := by
    split
    · next happend =>
      cases hbytes : memGuardedByteSize s.memory kept with
      | none => exact .inl rfl
      | some bytes =>
        obtain ⟨-,-,rfl⟩ := memGuardedByteSize_eq_some.mp hbytes
        exact .inr rfl
    · next happend =>
      rw [if_neg happend] at hkept
      simp [hkept]
  rcases hvisible with hvisible | hvisible
  · rw [hvisible]
    exact .inl rfl
  rw [hvisible]
  dsimp only
  cases htotal : memGuardedAdd (kept + sourceLength) 1 with
  | none => exact .inl rfl
  | some total =>
    obtain ⟨-,rfl⟩ := memGuardedAdd_eq_some.mp htotal
    dsimp only
    rcases hoffset with hoffset | hoffset
    · rw [hoffset]
      exact .inl rfl
    rw [hoffset]
    dsimp only
    cases hsource : memGuardedByteSize s.memory sourceLength with
    | none => exact .inl rfl
    | some sourceBytes =>
      obtain ⟨-,-,rfl⟩ := memGuardedByteSize_eq_some.mp hsource
      dsimp only
      right
      cases transfer with
      | append => exact .inr ⟨fun _ => rfl,rfl⟩
      | replace =>
        cases inside with
        | none => exact .inr ⟨fun hne => absurd rfl hne,rfl⟩
        | some offset =>
          have hzero : kept = 0 := by simpa using hkept
          refine .inl ⟨offset,rfl,rfl,?_⟩
          simp [hzero]

theorem transferMeasured_succeeded {transfer : TransferMode} {sourceLength : ℕ}
    (hmeasured : Measured s.memory source inside sourceLength)
    (hsucceeded : (transferMeasured allocator transfer source inside sourceLength s).succeeded = true) :
    Transferred s.memory transfer ((source.bytesFrom s.memory).take (s.memory.singleElementSize * sourceLength))
      (transferMeasured allocator transfer source inside sourceLength s).state.memory := by
  rcases transferMeasured_cases h hstring hwidth allocator transfer source inside sourceLength rfl with
    ⟨happend,hzero,hnothing⟩ | hfailed | ⟨offset,htransfer,hoffset,hinside⟩ | ⟨happend,hresized⟩
  · rw [hnothing,happend,hzero]
    simpa [State.succeed] using transferred_nothing h hterminated hstring
  · rw [hfailed] at hsucceeded
    cases hsucceeded
  · rw [hinside,htransfer]
    rw [hoffset] at hmeasured
    exact replaceInside_exact h hstring hwidth hmeasured
  · rw [hresized] at hsucceeded ⊢
    rcases transferResized_cases h hterminated hwidth allocator source inside _ _ _ with ⟨state,hfailed,-⟩ | ⟨resized,hexact,hplaced⟩
    · rw [hfailed] at hsucceeded
      cases hsucceeded
    · rw [hplaced]
      exact transferred_resized h hstring rfl happend hexact hmeasured

theorem transferMeasured_failed {transfer : TransferMode} {sourceLength : ℕ}
    (hwithin : inside ≠ none → s.memory.data ≠ none ∧
      (sourceLength < s.memory.length ∨ s.memory.length = 0 ∧ sourceLength = 0))
    (hfailed : (transferMeasured allocator transfer source inside sourceLength s).succeeded = false) :
    (transferMeasured allocator transfer source inside sourceLength s).state.memory = s.memory := by
  rcases transferMeasured_cases h hstring hwidth allocator transfer source inside sourceLength rfl with
    ⟨-,-,hnothing⟩ | hrefused | ⟨offset,-,hoffset,hinside⟩ | ⟨-,hresized⟩
  · rw [hnothing]
    rfl
  · rw [hrefused]
    rfl
  · obtain ⟨hdata,hindex⟩ := hwithin (by simp [hoffset])
    rw [hinside,replaceInside_succeeded h hstring hwidth allocator offset hdata hindex] at hfailed
    cases hfailed
  · rw [hresized] at hfailed ⊢
    rcases transferResized_cases h hterminated hwidth allocator source inside _ _ _ with ⟨state,hstate,hmemory⟩ | ⟨resized,-,hplaced⟩
    · rw [hstate]
      exact hmemory
    · rw [hplaced] at hfailed
      cases hfailed

end

end Precizer.Libmem
