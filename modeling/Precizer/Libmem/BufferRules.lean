import Precizer.Libmem.BufferCore
import Precizer.Libmem.StringRules

/-! # What a byte transfer does

On a sound data descriptor a byte transfer either leaves the descriptor alone or puts the
source bytes behind what it keeps of the old payload.
-/
namespace Precizer.Libmem
open General

structure BufferTransferred (m : Memory) (transfer : TransferMode) (bytes : List UInt8) (m' : Memory) : Prop where
  payload : m'.payload = (if transfer = .append then m.payload else []) ++ bytes
  length : m'.length = (if transfer = .append then m.length else 0) + bytes.length / m.singleElementSize
  format : m'.singleElementSize = m.singleElementSize ∧ m'.isString = false
  sound : Sound m'

/-- A source of exact bytes that may be read. -/
def ValidBuffer (m : Memory) (sizeBytes : ℕ) (source : Source) : Prop :=
  match source with
  | .null => True
  | .outside bytes => sizeBytes ≤ bytes.length
  | .inside offset => offset + sizeBytes ≤ m.singleElementSize * m.length

section
variable {s : State} (h : Sound s.memory) (hdataMode : s.memory.isString = false)
include h hdataMode

theorem memResize_plain_block {allocator : Allocator} {newCount : ℕ}
    (hsucceeded : (memResize allocator newCount .plain s).succeeded = true) :
    (memResize allocator newCount .plain s).state.memory.block.take s.memory.actuallyAllocatedBytes = s.memory.block := by
  have hall : s.memory.block.take s.memory.actuallyAllocatedBytes = s.memory.block := by
    rw [← h.blockLength,List.take_length]
  have hcases := memResize_cases h allocator newCount .plain
  generalize memResize allocator newCount .plain s = answer at hcases hsucceeded
  cases hcases with
  | refused => cases hsucceeded
  | kept => exact hall
  | released hcount hflag => cases hflag
  | emptied hcount hlength hkeep memory hmemory =>
    rw [if_neg (by simp [hdataMode])] at hmemory
    rw [hmemory]
    exact hall
  | sized hcount hwidth block heap hblock hheap =>
    have hgrows : s.memory.actuallyAllocatedBytes ≤ block.length := by
      by_contra hshrinks
      exact Bool.false_ne_true (hblock.shrunk (by omega))
    have hplain : (s.memory.resized block newCount .plain).block = block := by
      rw [block_resized h,if_neg (by simp [hdataMode]),Memory.cleared,if_neg (by simp [ResizeModes.plain])]
    dsimp only [State.succeed]
    rw [hplain,hblock.same _ le_rfl hgrows,hall]

theorem transferBuffer_failed {allocator : Allocator} {source : Source} {inside : Option ℕ}
    {offsetBytes sizeBytes newTotalElements : ℕ} (hcount : newTotalElements ≠ 0)
    (hfailed : (transferBuffer allocator source inside offsetBytes sizeBytes newTotalElements s).succeeded = false) :
    (transferBuffer allocator source inside offsetBytes sizeBytes newTotalElements s).state.memory = s.memory := by
  rw [transferBuffer] at hfailed ⊢
  cases hresize : (memResize allocator newTotalElements .plain s).succeeded with
  | false =>
    rw [Answer.run_failed hresize]
    exact (memResize_refused h hresize).1
  | true =>
    have hterminated : Terminated s.memory := fun hmode => by simp [hdataMode] at hmode
    have hexact := memResize_exact h hterminated hresize
    have hdata := hexact.sound.data_of_length (by rw [hexact.length]; omega)
    rw [Answer.run_succeeded hresize] at hfailed
    simp [State.alter,moveBytes,hdata,State.succeed,Answer.run] at hfailed

theorem transferBuffer_exact {allocator : Allocator} {transfer : TransferMode} {source : Source} {inside : Option ℕ}
    {kept count : ℕ} (hkept : kept = if transfer = .append then s.memory.length else 0) (hcount : count ≠ 0)
    (houtside : inside = none → s.memory.singleElementSize * count ≤ (source.bytesFrom s.memory).length)
    (hinside : ∀ offset, inside = some offset → source.bytesFrom s.memory = s.memory.block.drop offset ∧
      offset + s.memory.singleElementSize * count ≤ s.memory.singleElementSize * s.memory.length)
    (hwidth : s.memory.singleElementSize ≠ 0)
    (hsucceeded : (transferBuffer allocator source inside (s.memory.singleElementSize * kept)
      (s.memory.singleElementSize * count) (kept + count) s).succeeded = true) :
    BufferTransferred s.memory transfer ((source.bytesFrom s.memory).take (s.memory.singleElementSize * count))
      (transferBuffer allocator source inside (s.memory.singleElementSize * kept)
        (s.memory.singleElementSize * count) (kept + count) s).state.memory := by
  have hcovered := h.covered
  rw [transferBuffer] at hsucceeded ⊢
  cases hresize : (memResize allocator (kept + count) .plain s).succeeded with
  | false =>
    rw [Answer.run_failed hresize] at hsucceeded
    cases hsucceeded
  | true =>
    have hterminated : Terminated s.memory := fun hmode => by simp [hdataMode] at hmode
    have hexact := memResize_exact h hterminated hresize
    have hblock := memResize_plain_block h hdataMode hresize
    rw [Answer.run_succeeded hresize]
    generalize (memResize allocator (kept + count) .plain s).state = resized at *
    have hdata := hexact.sound.data_of_length (by rw [hexact.length]; omega)
    have hsame : resized.memory.block.take s.memory.actuallyAllocatedBytes =
        s.memory.block.take s.memory.actuallyAllocatedBytes := by
      rw [hblock,← h.blockLength,List.take_length]
    have hmoved : movedBytes source inside (s.memory.singleElementSize * count) s.memory resized.memory =
        (source.bytesFrom s.memory).take (s.memory.singleElementSize * count) := by
      cases inside with
      | none => rfl
      | some offset =>
        obtain ⟨hbytes,hend⟩ := hinside offset rfl
        rw [movedBytes,hbytes]
        exact window_of_take hsame (by omega)
    have hlength : ((source.bytesFrom s.memory).take (s.memory.singleElementSize * count)).length =
        s.memory.singleElementSize * count := by
      rw [List.length_take]
      cases inside with
      | none => exact Nat.min_eq_left (houtside rfl)
      | some offset =>
        obtain ⟨hbytes,hend⟩ := hinside offset rfl
        rw [hbytes,List.length_drop,h.blockLength]
        omega
    simp only [State.alter,moveBytes,if_neg hdata,State.succeed,Answer.run_succeeded,hmoved]
    generalize (source.bytesFrom s.memory).take (s.memory.singleElementSize * count) = bytes at hlength
    have hroom : s.memory.singleElementSize * kept + bytes.length ≤ resized.memory.actuallyAllocatedBytes := by
      have hfit := hexact.sound.covered
      rwa [hexact.format.1,hexact.length,Nat.mul_add,← hlength] at hfit
    have hwritten := hexact.sound.written hroom
    have hmode : resized.memory.isString = false := hexact.format.2.trans hdataMode
    have hkeptLength : s.memory.singleElementSize * kept ≤ s.memory.singleElementSize * s.memory.length := by
      apply Nat.mul_le_mul_left
      rw [hkept]
      split <;> omega
    have hbefore : resized.memory.block.take (s.memory.singleElementSize * kept) =
        if transfer = .append then s.memory.payload else [] := by
      have htake := congrArg (List.take (s.memory.singleElementSize * kept)) hsame
      rw [List.take_take,List.take_take,Nat.min_eq_left (by omega)] at htake
      rw [htake,hkept]
      split
      · rfl
      · simp
    have hsum : s.memory.singleElementSize * kept + bytes.length = s.memory.singleElementSize * (kept + count) := by
      rw [hlength,Nat.mul_add]
    refine ⟨?_,?_,⟨hexact.format.1,rfl⟩,?_⟩
    · calc (resized.memory.written (s.memory.singleElementSize * kept) bytes).block.take
            (resized.memory.singleElementSize * resized.memory.length)
          = resized.memory.block.take (s.memory.singleElementSize * kept) ++ bytes := by
            rw [hexact.format.1,hexact.length]
            exact block_take_written hexact.sound (by omega) hdata hsum
        _ = (if transfer = .append then s.memory.payload else []) ++ bytes := by rw [hbefore]
    · rw [hlength,Nat.mul_div_cancel_left _ (Nat.pos_of_ne_zero hwidth),← hkept]
      exact hexact.length
    · exact ⟨hwritten.blockLength,hwritten.allocated,hwritten.initialized,hwritten.covered,hwritten.room,
        hwritten.addressable,hwritten.slabs,fun _ => rfl,fun hstring => by cases hstring⟩

theorem bufferTransferred_nothing {allocator : Allocator} {transfer : TransferMode}
    (hsucceeded : (if transfer = .append then s.succeed else memResize allocator 0 .plain s).succeeded = true) :
    BufferTransferred s.memory transfer []
      (if transfer = .append then s.succeed else memResize allocator 0 .plain s).state.memory := by
  have hterminated : Terminated s.memory := fun hmode => by simp [hdataMode] at hmode
  split
  · next happend => exact ⟨by simp [happend,State.succeed],by simp [happend,State.succeed],⟨rfl,hdataMode⟩,h⟩
  · next hreplace =>
    rw [if_neg hreplace] at hsucceeded
    have hexact := memResize_exact h hterminated hsucceeded
    refine ⟨?_,?_,⟨hexact.format.1,hexact.format.2.trans hdataMode⟩,hexact.sound⟩
    · simp [hreplace,Memory.payload,hexact.length]
    · simp [hreplace,hexact.length]

end

theorem memCoreBuffer_cases {s : State} (h : Sound s.memory) (allocator : Allocator) (transfer : TransferMode)
    (sizeBytes : ℕ) (source : Source) :
    memCoreBuffer allocator transfer sizeBytes source s = s.fail ∨
    s.memory.isString = false ∧ s.memory.singleElementSize ≠ 0 ∧
      ((source = .null ∨ sizeBytes = 0) ∧
        memCoreBuffer allocator transfer sizeBytes source s =
          (if transfer = .append then s.succeed else memResize allocator 0 .plain s) ∨
      ∃ kept count, kept = (if transfer = .append then s.memory.length else 0) ∧ count ≠ 0 ∧ source ≠ .null ∧
        sizeBytes = s.memory.singleElementSize * count ∧
        (∀ offset, source.offsetWithin s.memory = some offset →
          offset + sizeBytes ≤ s.memory.singleElementSize * s.memory.length) ∧
        memCoreBuffer allocator transfer sizeBytes source s =
          transferBuffer allocator source (source.offsetWithin s.memory) (s.memory.singleElementSize * kept)
            (s.memory.singleElementSize * count) (kept + count) s) := by
  rw [memCoreBuffer]
  split
  · exact .inl rfl
  split
  · exact .inl rfl
  next hmode =>
  split
  · exact .inl rfl
  next hwidth =>
  split
  · exact .inl rfl
  split
  · next hnothing => exact .inr ⟨by simpa using hmode,hwidth,.inl ⟨hnothing,rfl⟩⟩
  next hnothing =>
  split
  · exact .inl rfl
  next halign =>
  have hbytes : memGuardedByteSize s.memory s.memory.length = some (s.memory.singleElementSize * s.memory.length) :=
    h.byteSize hwidth
  have hwhole : s.memory.singleElementSize * (sizeBytes / s.memory.singleElementSize) = sizeBytes :=
    Nat.mul_div_cancel' (Nat.dvd_of_mod_eq_zero (by omega))
  have hcount : sizeBytes / s.memory.singleElementSize ≠ 0 := by
    intro hzero
    rw [hzero] at hwhole
    exact hnothing (.inr (by omega))
  dsimp only
  generalize hkept : (if transfer = .append then s.memory.length else 0) = kept
  have htotal : (if transfer = .append then memGuardedAdd s.memory.length (sizeBytes / s.memory.singleElementSize)
      else some (sizeBytes / s.memory.singleElementSize)) = none ∨
      (if transfer = .append then memGuardedAdd s.memory.length (sizeBytes / s.memory.singleElementSize)
      else some (sizeBytes / s.memory.singleElementSize)) = some (kept + sizeBytes / s.memory.singleElementSize) := by
    rw [← hkept,memGuardedAdd]
    split_ifs
    · exact .inl rfl
    · exact .inr rfl
    · exact .inr (by simp)
  have hoffset : (if transfer = .append then memGuardedByteSize s.memory s.memory.length else some 0) =
      some (s.memory.singleElementSize * kept) := by
    rw [← hkept]
    split
    · exact hbytes
    · simp
  rcases htotal with htotal | htotal
  · rw [htotal]
    exact .inl rfl
  rw [htotal,hoffset,hbytes]
  dsimp only
  cases hwithin : source.offsetWithin s.memory with
  | none =>
    refine .inr ⟨by simpa using hmode,hwidth,.inr ⟨kept,_,rfl,hcount,fun heq => hnothing (.inl heq),hwhole.symm,?_,?_⟩⟩
    · intro offset hsome
      cases hsome
    · rw [hwhole]
  | some offset =>
    dsimp only
    split
    · exact .inl rfl
    · next hinside =>
      refine .inr ⟨by simpa using hmode,hwidth,.inr ⟨kept,_,rfl,hcount,fun heq => hnothing (.inl heq),hwhole.symm,?_,?_⟩⟩
      · rintro offset' hsome
        obtain rfl := Option.some.inj hsome
        omega
      · rw [hwhole]

theorem memCoreData_cases (allocator : Allocator) (transfer : TransferMode) (other : Option Memory) (s : State) :
    memCoreData allocator transfer other s = s.fail ∨
    memCoreData allocator transfer other s =
      memCoreBuffer allocator transfer ((other.getD s.memory).singleElementSize * (other.getD s.memory).length)
        (descriptorSource other s.memory) s := by
  rw [memCoreData]
  split
  · exact .inl rfl
  split
  · exact .inl rfl
  split
  · exact .inl rfl
  split
  · exact .inl rfl
  split
  · exact .inl rfl
  split
  · exact .inl rfl
  split
  · exact .inl rfl
  · next sourceBytes hbytes =>
    obtain ⟨-,-,rfl⟩ := memGuardedByteSize_eq_some.mp hbytes
    split
    · exact .inl rfl
    · exact .inr rfl

theorem descriptorSource_payload {m : Memory} {other : Option Memory} (h : ∀ m', other = some m' → Sound m') :
    ValidBuffer m ((other.getD m).singleElementSize * (other.getD m).length) (descriptorSource other m) ∧
      ((descriptorSource other m).bytesFrom m).take ((other.getD m).singleElementSize * (other.getD m).length) =
        (other.getD m).payload := by
  cases other with
  | none =>
    rw [descriptorSource]
    split
    · next hnone => simp [ValidBuffer,Source.bytesFrom,Memory.payload,Memory.block,hnone]
    · exact ⟨by simp [ValidBuffer],by simp [Source.bytesFrom,Memory.payload]⟩
  | some m' =>
    have hsound := h m' rfl
    cases hblock : m'.data with
    | none => simp [descriptorSource,ValidBuffer,Source.bytesFrom,Memory.payload,Memory.block,hblock]
    | some block =>
      have hlength := hsound.blockLength
      have hcovered := hsound.covered
      simp only [Memory.block,hblock,Option.getD_some] at hlength
      refine ⟨?_,?_⟩
      · simp only [descriptorSource,hblock,ValidBuffer,Option.getD_some]
        omega
      · simp [descriptorSource,hblock,Source.bytesFrom,Memory.payload,Memory.block]

section
variable {s : State} (h : Sound s.memory) {allocator : Allocator} {transfer : TransferMode} {sizeBytes : ℕ} {source : Source}
include h

theorem memCoreBuffer_failed
    (hfailed : (memCoreBuffer allocator transfer sizeBytes source s).succeeded = false) :
    (memCoreBuffer allocator transfer sizeBytes source s).state.memory = s.memory := by
  rcases memCoreBuffer_cases h allocator transfer sizeBytes source with
    hrefused | ⟨hmode,hwidth,⟨hnothing,hanswer⟩ | ⟨kept,count,hkept,hcount,-,-,-,hanswer⟩⟩
  · rw [hrefused]
    rfl
  · rw [hanswer] at hfailed ⊢
    split
    · rfl
    · next hreplace =>
      rw [if_neg hreplace] at hfailed
      exact (memResize_refused h hfailed).1
  · rw [hanswer] at hfailed ⊢
    exact transferBuffer_failed h hmode (by omega) hfailed

theorem memCoreBuffer_succeeded (hvalid : ValidBuffer s.memory sizeBytes source)
    (hsucceeded : (memCoreBuffer allocator transfer sizeBytes source s).succeeded = true) :
    BufferTransferred s.memory transfer ((source.bytesFrom s.memory).take sizeBytes)
      (memCoreBuffer allocator transfer sizeBytes source s).state.memory := by
  rcases memCoreBuffer_cases h allocator transfer sizeBytes source with
    hrefused | ⟨hmode,hwidth,⟨hnothing,hanswer⟩ | ⟨kept,count,hkept,hcount,hnull,hsize,hinside,hanswer⟩⟩
  · rw [hrefused] at hsucceeded
    cases hsucceeded
  · rw [hanswer] at hsucceeded ⊢
    have hempty : (source.bytesFrom s.memory).take sizeBytes = [] := by
      rcases hnothing with rfl | rfl
      · simp [Source.bytesFrom]
      · simp
    rw [hempty]
    exact bufferTransferred_nothing h hmode hsucceeded
  · rw [hanswer] at hsucceeded ⊢
    rw [hsize]
    apply transferBuffer_exact h hmode hkept hcount _ _ hwidth hsucceeded
    · intro hwithin
      cases source with
      | null => exact absurd rfl hnull
      | outside bytes => exact hsize ▸ hvalid
      | inside offset =>
        have hend : offset + sizeBytes ≤ s.memory.singleElementSize * s.memory.length := hvalid
        have hcovered := h.covered
        have hlength := h.blockLength
        rw [Source.bytesFrom,List.length_drop]
        omega
    · intro offset hwithin
      have hend := hinside offset hwithin
      cases source with
      | null => cases hwithin
      | outside bytes => cases hwithin
      | inside start =>
        simp only [Source.offsetWithin] at hwithin
        split at hwithin
        · obtain rfl := Option.some.inj hwithin
          exact ⟨rfl,hsize ▸ hend⟩
        · cases hwithin

theorem memCoreData_failed {other : Option Memory}
    (hfailed : (memCoreData allocator transfer other s).succeeded = false) :
    (memCoreData allocator transfer other s).state.memory = s.memory := by
  rcases memCoreData_cases allocator transfer other s with hanswer | hanswer
  · rw [hanswer]
    rfl
  · rw [hanswer] at hfailed ⊢
    exact memCoreBuffer_failed h hfailed

/-- The payload of the other descriptor, or of the destination itself, is moved. -/
theorem memCoreData_succeeded {other : Option Memory} (hother : ∀ m, other = some m → Sound m)
    (hsucceeded : (memCoreData allocator transfer other s).succeeded = true) :
    BufferTransferred s.memory transfer (other.getD s.memory).payload
      (memCoreData allocator transfer other s).state.memory := by
  rcases memCoreData_cases allocator transfer other s with hanswer | hanswer
  · rw [hanswer] at hsucceeded
    cases hsucceeded
  · obtain ⟨hvalid,hpayload⟩ := @descriptorSource_payload s.memory other hother
    rw [hanswer] at hsucceeded ⊢
    rw [← hpayload]
    exact memCoreBuffer_succeeded h hvalid hsucceeded

end

end Precizer.Libmem
