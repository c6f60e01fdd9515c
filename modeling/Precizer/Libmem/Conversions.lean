import Precizer.Libmem.ResizeEffect
import Precizer.Libmem.StringRules

/-! # Conversions between data and strings

Data becomes a string that ends at its first zero element, or at a terminator behind its last
element. A string of bytes becomes data by giving up its mode, and its terminator where that is
the last byte in use.
-/
namespace Precizer.Libmem
open General

/-- The end of the conversion; the mode changes also when the terminator could not be written. -/
def finishConversion (measuredLength : ℕ) (s : State) : Answer :=
  if s.memory.data = none then s.fail
  else
    match memWriteZeroTerminator s.memory measuredLength with
    | none => { s with memory := { s.memory with stringLength := measuredLength, isString := true } }.fail
    | some memory => { s with memory := { memory with stringLength := measuredLength, isString := true } }.succeed

def memConvertDataToString (allocator : Allocator) (s : State) : Answer :=
  let m := s.memory
  if 0 < m.length ∧ m.data = none then s.fail
  else if m.isString = false ∧ m.stringLength ≠ 0 then s.fail
  else if m.singleElementSize = 0 then s.fail
  else if m.isString = true ∧ m.length = 0 ∧ m.stringLength ≠ 0 then s.fail
  else if m.isString = true ∧ 0 < m.length ∧ m.length ≤ m.stringLength then s.fail
  else if m.isString = true then s.succeed
  else if m.length = 0 then { s with memory := { m with stringLength := 0, isString := true } }.succeed
  else
    match memFindZeroTerminator m with
    | none => s.fail
    | some measuredLength =>
      match memGuardedAdd measuredLength 1 with
      | none => s.fail
      | some requiredElements =>
        (if m.length < requiredElements then memResize allocator requiredElements .plain s else s.succeed).run
          (finishConversion measuredLength)

/-- The descriptor in data mode. -/
def Memory.asData (m : Memory) : Memory := { m with stringLength := 0, isString := false }

def memConvertStringToData (s : State) : Answer :=
  let m := s.memory
  if 0 < m.length ∧ m.data = none then s.fail
  else if m.isString = true ∧ m.singleElementSize = 0 then s.fail
  else if m.isString = true ∧ m.singleElementSize ≠ 1 then s.fail
  else if m.isString = true ∧ 0 < m.length ∧ m.stringLength = m.length - 1 then
    match memGuardedByteSize m (m.length - 1) with
    | none => s.fail
    | some terminatorOffset =>
      if memIsZeroElement (m.block.drop terminatorOffset) m.singleElementSize then
        State.succeed ⟨{ m with length := m.length - 1 }.asData,
          (s.telemetry.currentPayloadBytesRemoved m.singleElementSize).blockOverheadBytesAdded m.singleElementSize,s.heap⟩
      else { s with memory := m.asData }.succeed
  else { s with memory := m.asData }.succeed

/-- A string that was made of data: what is visible of it ends at the first zero element of the data. -/
structure BecameString (m m' : Memory) : Prop where
  visible : m'.visibleString = visibleElements m.singleElementSize m.length m.payload
  stringLength : m'.stringLength = firstZero m.singleElementSize m.length m.payload
  length : m'.length = if m'.stringLength < m.length then m.length else if m.length = 0 then 0 else m.length + 1
  payload : m'.payload.take (m.singleElementSize * m.length) = m.payload
  format : m'.singleElementSize = m.singleElementSize ∧ m'.isString = true
  sound : Sound m'
  terminated : Terminated m'

def Memory.turned (m : Memory) (index : ℕ) : Memory := { m.cutAt index with isString := true }

section
variable {m : Memory} (h : Sound m)
include h

theorem Sound.turned {index : ℕ} (hindex : index < m.length) : Sound (m.turned index) ∧ Terminated (m.turned index) := by
  have hzero := h.zeroAt hindex
  have hterminated := Memory.element_zeroAt h hindex
  exact ⟨⟨hzero.blockLength,hzero.allocated,hzero.initialized,hzero.covered,hzero.room,hzero.addressable,hzero.slabs,nofun,
    fun _ => .inl hindex⟩,fun _ _ => hterminated⟩

theorem memFindZeroTerminator_sound (hlength : 0 < m.length) :
    memFindZeroTerminator m = some (firstZero m.singleElementSize m.length m.payload) := by
  have hwidth : m.singleElementSize ≠ 0 := fun hzero => by
    have hempty := (h.initialized hzero).1
    omega
  have hdata : ¬(0 < m.length ∧ m.data = none) := h.payload_present
  have hbytes : memGuardedByteSize m m.length = some (m.singleElementSize * m.length) :=
    h.byteSize hwidth
  rw [memFindZeroTerminator,if_neg hwidth,if_neg hdata,if_neg (by omega),hbytes,Option.bind_some,
    memStringMeasureLength_limit hwidth,Nat.mul_div_cancel_left _ (Nat.pos_of_ne_zero hwidth),Memory.payload,firstZero_take]

theorem length_payload : m.payload.length = m.singleElementSize * m.length := by
  rw [Memory.payload,List.length_take,h.blockLength]
  exact Nat.min_eq_left h.covered

theorem visibleString_turned {index : ℕ} (hindex : index < m.length) :
    (m.turned index).visibleString = m.block.take (m.singleElementSize * index) ∧
      (m.turned index).payload.take (m.singleElementSize * index) = m.block.take (m.singleElementSize * index) := by
  have hdata := h.data_of_length (by omega)
  have hvisible : (m.turned index).visibleString = m.block.take (m.singleElementSize * index) :=
    visibleString_cutAt h hdata (h.covers hindex)
  refine ⟨hvisible,?_⟩
  have hle : m.singleElementSize * index ≤ m.singleElementSize * m.length := Nat.mul_le_mul_left _ hindex.le
  calc (m.turned index).payload.take (m.singleElementSize * index)
      = ((m.turned index).block.take (m.singleElementSize * m.length)).take (m.singleElementSize * index) := rfl
    _ = (m.turned index).visibleString := by
      rw [List.take_take,Nat.min_eq_left hle]
      rfl
    _ = m.block.take (m.singleElementSize * index) := hvisible

theorem becameString_found (hfound : firstZero m.singleElementSize m.length m.payload < m.length) :
    BecameString m (m.turned (firstZero m.singleElementSize m.length m.payload)) := by
  have hfirst : firstZero m.singleElementSize m.length m.payload = firstZero m.singleElementSize m.length m.block := by
    rw [Memory.payload,firstZero_take]
  have hzero : element m.singleElementSize m.block (firstZero m.singleElementSize m.length m.payload) =
      zeroElement UInt8 m.singleElementSize := by
    rw [hfirst] at hfound ⊢
    exact element_firstZero hfound
  have hsame : (m.turned (firstZero m.singleElementSize m.length m.payload)).payload = m.payload := by
    rw [Memory.turned,Memory.cutAt,Memory.zeroAt_of_zero hzero]
    rfl
  obtain ⟨hsound,hterminated⟩ := h.turned hfound
  refine ⟨?_,rfl,(if_pos hfound).symm,?_,⟨rfl,rfl⟩,hsound,hterminated⟩
  · have hle : m.singleElementSize * firstZero m.singleElementSize m.length m.payload ≤ m.singleElementSize * m.length :=
      Nat.mul_le_mul_left _ hfound.le
    calc (m.turned (firstZero m.singleElementSize m.length m.payload)).visibleString
        = m.block.take (m.singleElementSize * firstZero m.singleElementSize m.length m.payload) :=
          (visibleString_turned h hfound).1
      _ = visibleElements m.singleElementSize m.length m.payload := by
        rw [visibleElements,Memory.payload,List.take_take]
        rw [Memory.payload] at hle
        rw [Nat.min_eq_left hle]
  · rw [hsame]
    exact List.take_of_length_le (length_payload h).le

omit h in
/-- Data without one becomes a string in a descriptor with room for a terminator. -/
theorem becameString_extended {resized : Memory} (h : Sound m) (hdata : m.isString = false) (hlength : m.length ≠ 0)
    (hexact : ExactResize m (m.length + 1) .plain resized)
    (hmissing : firstZero m.singleElementSize m.length m.payload = m.length) : BecameString m (resized.turned m.length) := by
  have hindex : m.length < resized.length := by
    rw [hexact.length]
    exact Nat.lt_succ_self _
  obtain ⟨hsound,hterminated⟩ := hexact.sound.turned hindex
  obtain ⟨hvisible,hpayload⟩ := visibleString_turned hexact.sound hindex
  have hblock : resized.block.take (m.singleElementSize * m.length) = m.payload := by
    have hkept := hexact.payload hdata
    have hold : m.singleElementSize * m.length ≤ m.singleElementSize * (m.length + 1) := Nat.mul_le_mul_left _ (Nat.le_succ _)
    rw [List.take_of_length_le ((length_payload h).le.trans hold),Memory.payload,List.take_take,hexact.format.1,hexact.length,
      Nat.min_eq_left hold] at hkept
    exact hkept
  rw [hexact.format.1,hblock] at hvisible hpayload
  refine ⟨?_,hmissing.symm,?_,hpayload,⟨hexact.format.1,rfl⟩,hsound,hterminated⟩
  · rw [hvisible,visibleElements,hmissing]
    exact (List.take_of_length_le (length_payload h).le).symm
  · have hstringLength : (resized.turned m.length).stringLength = m.length := rfl
    rw [hstringLength,if_neg (lt_irrefl _),if_neg hlength]
    exact hexact.length

end

theorem finishConversion_eq {s : State} (h : Sound s.memory) {index : ℕ} (hindex : index < s.memory.length) :
    finishConversion index s = { s with memory := s.memory.turned index }.succeed := by
  rw [finishConversion,if_neg (h.data_of_length (by omega)),memWriteZeroTerminator_sound h hindex]
  rfl

section
variable {s : State} (h : Sound s.memory)
include h

theorem memConvertDataToString_eq (allocator : Allocator) (hdata : s.memory.isString = false) (hlength : 0 < s.memory.length) :
    memConvertDataToString allocator s =
      match memGuardedAdd (firstZero s.memory.singleElementSize s.memory.length s.memory.payload) 1 with
      | none => s.fail
      | some requiredElements =>
        (if s.memory.length < requiredElements then memResize allocator requiredElements .plain s else s.succeed).run
          (finishConversion (firstZero s.memory.singleElementSize s.memory.length s.memory.payload)) := by
  have hwidth : s.memory.singleElementSize ≠ 0 := fun hzero => by
    have hempty := (h.initialized hzero).1
    omega
  have hblock : ¬(0 < s.memory.length ∧ s.memory.data = none) := h.payload_present
  have hstringLength := h.dataMode hdata
  have hmode : ¬s.memory.isString = true := by simp [hdata]
  rw [memConvertDataToString,if_neg hblock,if_neg (fun hboth => hboth.2 hstringLength),if_neg hwidth,if_neg (fun hboth => hmode hboth.1),
    if_neg (fun hboth => hmode hboth.1),if_neg hmode,if_neg (by omega),memFindZeroTerminator_sound h hlength]

theorem memConvertDataToString_empty (allocator : Allocator) (hdata : s.memory.isString = false) (hempty : s.memory.length = 0) :
    memConvertDataToString allocator s =
      if s.memory.singleElementSize = 0 then s.fail
      else { s with memory := { s.memory with stringLength := 0, isString := true } }.succeed := by
  have hstringLength := h.dataMode hdata
  rw [memConvertDataToString]
  simp [hdata,hempty,hstringLength]

omit h in
theorem becameString_empty {m : Memory} (h : Sound m) (hempty : m.length = 0) :
    BecameString m { m with stringLength := 0, isString := true } := by
  refine ⟨?_,?_,?_,?_,⟨rfl,rfl⟩,?_,?_⟩
  · simp [Memory.visibleString,visibleElements,hempty,firstZero]
  · simp [hempty,firstZero]
  · simp [hempty]
  · simp [Memory.payload,hempty]
  · exact ⟨h.blockLength,h.allocated,h.initialized,h.covered,h.room,h.addressable,h.slabs,fun hdata => Bool.noConfusion hdata,
      fun _ => .inr ⟨hempty,rfl⟩⟩
  · intro _ hlength
    exact absurd hempty (Nat.pos_iff_ne_zero.mp hlength)

theorem memConvertDataToString_data (allocator : Allocator) (hdata : s.memory.isString = false) :
    ((memConvertDataToString allocator s).succeeded = true →
      BecameString s.memory (memConvertDataToString allocator s).state.memory) ∧
    ((memConvertDataToString allocator s).succeeded = false → (memConvertDataToString allocator s).state.memory = s.memory) := by
  rcases Nat.eq_zero_or_pos s.memory.length with hempty | hlength
  · rw [memConvertDataToString_empty h allocator hdata hempty]
    split
    · exact ⟨nofun,fun _ => rfl⟩
    · exact ⟨fun _ => becameString_empty h hempty,nofun⟩
  · rw [memConvertDataToString_eq h allocator hdata hlength]
    have hle := firstZero_le s.memory.singleElementSize s.memory.length s.memory.payload
    cases hadd : memGuardedAdd (firstZero s.memory.singleElementSize s.memory.length s.memory.payload) 1 with
    | none => exact ⟨nofun,fun _ => rfl⟩
    | some requiredElements =>
      obtain ⟨-,rfl⟩ := memGuardedAdd_eq_some.mp hadd
      dsimp only
      rcases Nat.lt_or_eq_of_le hle with hfound | hmissing
      · rw [if_neg (by omega),Answer.run_succeeded rfl]
        have hfinish : finishConversion (firstZero s.memory.singleElementSize s.memory.length s.memory.payload) s.succeed.state = _ :=
          finishConversion_eq h hfound
        rw [hfinish]
        exact ⟨fun _ => becameString_found h hfound,nofun⟩
      · rw [hmissing,if_pos (Nat.lt_succ_self _)]
        cases hresize : (memResize allocator (s.memory.length + 1) .plain s).succeeded with
        | false =>
          rw [Answer.run_failed hresize]
          exact ⟨nofun,fun _ => (memResize_refused h hresize).1⟩
        | true =>
          have hterminated : Terminated s.memory := fun hstring => by simp [hdata] at hstring
          have hexact := memResize_exact h hterminated hresize
          have hindex : s.memory.length < (memResize allocator (s.memory.length + 1) .plain s).state.memory.length := by
            rw [hexact.length]
            exact Nat.lt_succ_self _
          rw [Answer.run_succeeded hresize,finishConversion_eq hexact.sound hindex]
          exact ⟨fun _ => becameString_extended h hdata (by omega) hexact hmissing,nofun⟩

theorem memConvertDataToString_string (allocator : Allocator) (hstring : s.memory.isString = true) :
    (memConvertDataToString allocator s).state = s := by
  have hblock : ¬(0 < s.memory.length ∧ s.memory.data = none) := h.payload_present
  have hmode := h.stringMode hstring
  have hempty : ¬(s.memory.isString = true ∧ s.memory.length = 0 ∧ s.memory.stringLength ≠ 0) := by
    omega
  have hbounds : ¬(s.memory.isString = true ∧ 0 < s.memory.length ∧ s.memory.length ≤ s.memory.stringLength) := by
    omega
  rw [memConvertDataToString,if_neg hblock,if_neg (fun hboth => by simp [hstring] at hboth)]
  split
  · rfl
  · rfl

theorem memConvertDataToString_succeeded (allocator : Allocator) (hdata : s.memory.isString = false)
    (hwidth : s.memory.singleElementSize ≠ 0)
    (hroom : 0 < s.memory.length → firstZero s.memory.singleElementSize s.memory.length s.memory.payload < s.memory.length ∨
      s.memory.singleElementSize * (s.memory.length + 1) ≤ s.memory.actuallyAllocatedBytes) :
    (memConvertDataToString allocator s).succeeded = true := by
  rcases Nat.eq_zero_or_pos s.memory.length with hempty | hlength
  · rw [memConvertDataToString_empty h allocator hdata hempty,if_neg hwidth]
    rfl
  · have hle := firstZero_le s.memory.singleElementSize s.memory.length s.memory.payload
    have hcovered := h.covered
    have haddressable := h.addressable
    have hcount : s.memory.length ≤ s.memory.singleElementSize * s.memory.length :=
      Nat.le_mul_of_pos_left _ (Nat.pos_of_ne_zero hwidth)
    have hcountNext : s.memory.length + 1 ≤ s.memory.singleElementSize * (s.memory.length + 1) :=
      Nat.le_mul_of_pos_left _ (Nat.pos_of_ne_zero hwidth)
    have hadd : memGuardedAdd (firstZero s.memory.singleElementSize s.memory.length s.memory.payload) 1 =
        some (firstZero s.memory.singleElementSize s.memory.length s.memory.payload + 1) :=
      memGuardedAdd_eq_some.mpr ⟨by omega,rfl⟩
    rw [memConvertDataToString_eq h allocator hdata hlength,hadd]
    dsimp only
    rcases Nat.lt_or_eq_of_le hle with hfound | hmissing
    · rw [if_neg (by omega),Answer.run_succeeded rfl]
      have hfinish : finishConversion (firstZero s.memory.singleElementSize s.memory.length s.memory.payload) s.succeed.state = _ :=
        finishConversion_eq h hfound
      rw [hfinish]
      rfl
    · have hresize : (memResize allocator (s.memory.length + 1) .plain s).succeeded = true :=
        memResize_inPlace h allocator hwidth (h.data_of_length hlength) ((hroom hlength).resolve_left (by omega)) rfl
      have hterminated : Terminated s.memory := fun hstring => by simp [hdata] at hstring
      have hexact := memResize_exact h hterminated hresize
      have hindex : s.memory.length < (memResize allocator (s.memory.length + 1) .plain s).state.memory.length := by
        rw [hexact.length]
        exact Nat.lt_succ_self _
      rw [hmissing,if_pos (Nat.lt_succ_self _),Answer.run_succeeded hresize,finishConversion_eq hexact.sound hindex]
      rfl

omit h in
theorem memConvertStringToData_failed (hfailed : (memConvertStringToData s).succeeded = false) :
    (memConvertStringToData s).state = s := by
  rw [memConvertStringToData] at hfailed ⊢
  split at hfailed
  · next hcheck => rw [if_pos hcheck]; rfl
  next hblock =>
  rw [if_neg hblock]
  split at hfailed
  · next hcheck => rw [if_pos hcheck]; rfl
  next huninitialized =>
  rw [if_neg huninitialized]
  split at hfailed
  · next hcheck => rw [if_pos hcheck]; rfl
  next hwide =>
  rw [if_neg hwide]
  split at hfailed
  · next hcanonical =>
    rw [if_pos hcanonical]
    cases hoffset : memGuardedByteSize s.memory (s.memory.length - 1) with
    | none => rfl
    | some terminatorOffset =>
      rw [hoffset] at hfailed
      dsimp only at hfailed
      split at hfailed
      · cases hfailed
      · cases hfailed
  · cases hfailed

omit h in
/-- The descriptor in data mode with no more elements than before. -/
theorem Sound.asData {m : Memory} (h : Sound m) {count : ℕ} (hcount : count ≤ m.length) : Sound { m with length := count }.asData where
  blockLength := h.blockLength
  allocated := h.allocated
  initialized := by
    intro hzero
    obtain ⟨hlength,hallocated⟩ := h.initialized hzero
    exact ⟨Nat.le_zero.mp (hcount.trans hlength.le),hallocated⟩
  covered := (Nat.mul_le_mul_left _ hcount).trans h.covered
  room := h.room
  addressable := h.addressable
  slabs := h.slabs
  dataMode := fun _ => rfl
  stringMode := nofun

/-- A string of bytes loses its mode, and its terminator if nothing is in use behind it. -/
theorem memConvertStringToData_string (hterminated : Terminated s.memory) (hstring : s.memory.isString = true)
    (hbyte : s.memory.singleElementSize = 1) :
    (memConvertStringToData s).succeeded = true ∧ (memConvertStringToData s).state.memory =
      { s.memory with length :=
          if s.memory.stringLength + 1 = s.memory.length then s.memory.length - 1 else s.memory.length }.asData := by
  have hblock : ¬(0 < s.memory.length ∧ s.memory.data = none) := h.payload_present
  rw [memConvertStringToData,if_neg hblock,if_neg (by omega),if_neg (by omega)]
  by_cases hcanonical : s.memory.stringLength + 1 = s.memory.length
  · have haddressable := h.addressable
    have hcovered := h.covered
    have hoffset : memGuardedByteSize s.memory (s.memory.length - 1) = some (s.memory.singleElementSize * (s.memory.length - 1)) := by
      refine memGuardedByteSize_eq_some.mpr ⟨by omega,?_,rfl⟩
      rw [hbyte,Nat.one_mul] at hcovered ⊢
      omega
    have hzero := hterminated hstring (by omega)
    have hlast : s.memory.length - 1 = s.memory.stringLength := by omega
    have helement : memIsZeroElement (s.memory.block.drop (s.memory.singleElementSize * (s.memory.length - 1)))
        s.memory.singleElementSize = true := by
      rw [hlast]
      simpa [memIsZeroElement,hbyte,element] using hzero
    rw [if_pos ⟨hstring,by omega,by omega⟩,hoffset]
    dsimp only
    rw [if_pos helement,if_pos hcanonical]
    exact ⟨rfl,rfl⟩
  · rw [if_neg (by omega),if_neg hcanonical]
    exact ⟨rfl,rfl⟩

end

end Precizer.Libmem
