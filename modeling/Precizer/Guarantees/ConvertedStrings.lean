import Precizer.Libmem.Conversions

/-! # Converted strings and data

Data that is made a string and data again is the data it was, except for a single zero byte at its
end. A string that is made data and a string again ends at its first zero byte.
-/
namespace Precizer.Guarantees
open General Libmem

/-- A payload whose only zero byte is its last one. -/
def EndsInItsOnlyZero (payload front : List UInt8) : Prop := payload = front ++ [0] ∧ 0 ∉ front

/-- Bytes after a conversion to a string and back. -/
structure DataRestored (m m' : Memory) : Prop where
  same : (∀ front, ¬EndsInItsOnlyZero m.payload front) → m'.payload = m.payload ∧ m'.length = m.length
  lost : ∀ front, EndsInItsOnlyZero m.payload front → m'.payload = front ∧ m'.length + 1 = m.length
  dataMode : m'.isString = false

/-- What conversions keep of a sound descriptor. -/
structure ConversionRules (allocator : Allocator) (s : State) : Prop where
  dataRestored : s.memory.isString = false → s.memory.singleElementSize = 1 →
    (memConvertDataToString allocator s).succeeded = true →
      (memConvertStringToData (memConvertDataToString allocator s).state).succeeded = true ∧
        DataRestored s.memory (memConvertStringToData (memConvertDataToString allocator s).state).state.memory
  stringRestored : s.memory.isString = true → s.memory.singleElementSize = 1 →
    (memConvertStringToData s).succeeded = true ∧
      (memConvertDataToString allocator (memConvertStringToData s).state).succeeded = true ∧
        (memConvertDataToString allocator (memConvertStringToData s).state).state.memory.visibleString =
          s.memory.visibleString.takeWhile (· ≠ 0)
  visible : s.memory.isString = false → (memConvertDataToString allocator s).succeeded = true →
    (memConvertDataToString allocator s).state.memory.isString = true ∧
      (memConvertDataToString allocator s).state.memory.visibleString =
        visibleElements s.memory.singleElementSize s.memory.length s.memory.payload
  toStringFailed : (memConvertDataToString allocator s).succeeded = false →
    (memConvertDataToString allocator s).state.memory = s.memory
  toDataFailed : (memConvertStringToData s).succeeded = false → (memConvertStringToData s).state.memory = s.memory

/-- The place of the only zero byte. -/
theorem firstZero_of_endsInItsOnlyZero {payload front : List UInt8} (h : EndsInItsOnlyZero payload front) :
    firstZero 1 payload.length payload = front.length := by
  obtain ⟨rfl,hfront⟩ := h
  apply firstZero_eq (by simp)
  · intro _
    exact element_one.mpr (by simp)
  · intro index hindex helement
    have hzero := element_one.mp helement
    rw [List.getElem?_append_left hindex] at hzero
    exact hfront (List.mem_of_getElem? hzero)

theorem endsInItsOnlyZero_of_firstZero {payload : List UInt8} (h : firstZero 1 payload.length payload + 1 = payload.length) :
    EndsInItsOnlyZero payload (payload.take (firstZero 1 payload.length payload)) := by
  have hzero := element_one.mp (element_firstZero (by omega : firstZero 1 payload.length payload < payload.length))
  generalize hindex : firstZero 1 payload.length payload = index at h hzero
  constructor
  · have hlast : payload.drop index = [0] := by
      rw [List.drop_eq_getElem_cons (by omega),List.drop_of_length_le (by omega)]
      rw [List.getElem?_eq_getElem (by omega)] at hzero
      rw [Option.some.inj hzero]
    rw [← hlast,List.take_append_drop]
  · intro hmem
    obtain ⟨position,hposition,hbyte⟩ := List.mem_take_iff_getElem.mp hmem
    have hbefore : position < firstZero 1 payload.length payload := by omega
    apply element_of_lt_firstZero hbefore
    rw [element_one,List.getElem?_eq_getElem (by omega),hbyte]

theorem firstZero_lt_of_zero {width count index : ℕ} {bytes : List UInt8} (hindex : index < count)
    (hzero : element width bytes index = zeroElement UInt8 width) : firstZero width count bytes < count := by
  by_contra hmissing
  exact element_of_lt_firstZero (by omega : index < firstZero width count bytes) hzero

theorem dataRestored_of_becameString {m m' : Memory} (h : Sound m) (hbyte : m.singleElementSize = 1) (hbecame : BecameString m m') :
    DataRestored m { m' with length := if m'.stringLength + 1 = m'.length then m'.length - 1 else m'.length }.asData := by
  have hlength : m.payload.length = m.length := by
    rw [length_payload h,hbyte,Nat.one_mul]
  have hwidth : m'.singleElementSize = 1 := hbecame.format.1.trans hbyte
  have hfirst := hbecame.stringLength
  have hroom := hbecame.length
  have hle : m'.stringLength ≤ m.length := by
    rw [hfirst]
    exact firstZero_le _ _ _
  have hblock : m'.block.take m.length = m.payload := by
    have hpayload := hbecame.payload
    rw [Memory.payload,List.take_take,hwidth,hbyte,Nat.one_mul,Nat.one_mul] at hpayload
    have hmin : min m.length m'.length = m.length := by
      split_ifs at hroom <;> omega
    rwa [hmin] at hpayload
  have hcount : (if m'.stringLength + 1 = m'.length then m'.length - 1 else m'.length) =
      if m'.stringLength + 1 = m.length then m.length - 1 else m.length := by
    split_ifs at hroom ⊢ <;> omega
  rw [hbyte,← hlength] at hfirst
  rw [hcount]
  constructor
  · intro hother
    have hkept : m'.stringLength + 1 ≠ m.length := by
      intro honly
      rw [hfirst,← hlength] at honly
      exact hother _ (endsInItsOnlyZero_of_firstZero honly)
    rw [if_neg hkept]
    refine ⟨?_,rfl⟩
    rw [← hblock,Memory.payload,Memory.asData]
    dsimp only
    rw [hwidth,Nat.one_mul]
    rfl
  · intro front hfront
    have hposition := firstZero_of_endsInItsOnlyZero hfront
    have hpayload : m.payload.length = front.length + 1 := by
      rw [hfront.1]
      simp
    have honly : m'.stringLength + 1 = m.length := by omega
    rw [if_pos honly]
    refine ⟨?_,?_⟩
    · have hshort : m.length - 1 = front.length := by omega
      have hbefore : m'.block.take front.length = (m'.block.take m.length).take front.length := by
        rw [List.take_take,Nat.min_eq_left (by omega)]
      rw [Memory.payload,Memory.asData]
      dsimp only
      rw [hwidth,Nat.one_mul,hshort]
      show m'.block.take front.length = front
      rw [hbefore,hblock,hfront.1,List.take_left]
    · show m.length - 1 + 1 = m.length
      omega
  · rfl

/-- A string that was made data spells, up to its first zero byte, what was visible up to there. -/
theorem takeWhile_payload {m : Memory} (h : Sound m) (hterminated : Terminated m) (hstring : m.isString = true)
    (hbyte : m.singleElementSize = 1) :
    ({ m with length := if m.stringLength + 1 = m.length then m.length - 1 else m.length }.asData.payload).takeWhile (· ≠ 0) =
      m.visibleString.takeWhile (· ≠ 0) := by
  have hcases := h.stringMode hstring
  have hpayload : ∀ count, { m with length := count }.asData.payload = m.block.take count := by
    intro count
    rw [Memory.payload,Memory.asData]
    dsimp only
    rw [hbyte,Nat.one_mul]
    rfl
  have hvisible : m.visibleString = m.block.take m.stringLength := by
    rw [Memory.visibleString,hbyte,Nat.one_mul]
  rw [hpayload,hvisible]
  by_cases hcanonical : m.stringLength + 1 = m.length
  · have hshort : m.length - 1 = m.stringLength := by omega
    rw [if_pos hcanonical,hshort]
  · rw [if_neg hcanonical]
    rcases hcases with hinside | ⟨hempty,hnothing⟩
    · have hzero := hterminated hstring (by omega)
      rw [hbyte,element_one] at hzero
      obtain ⟨hless,hlast⟩ := List.getElem?_eq_some_iff.mp hzero
      have hsplit : m.block.take m.length =
          m.block.take m.stringLength ++ 0 :: (m.block.drop (m.stringLength + 1)).take (m.length - m.stringLength - 1) := by
        have hmore : m.length = m.stringLength + (m.length - m.stringLength - 1 + 1) := by omega
        conv_lhs => rw [hmore,List.take_add,List.drop_eq_getElem_cons hless,hlast,List.take_succ_cons]
      rw [hsplit,List.takeWhile_append]
      split
      · next hclean =>
        have hnone : (0 :: (m.block.drop (m.stringLength + 1)).take (m.length - m.stringLength - 1)).takeWhile (· ≠ 0) = [] :=
          List.takeWhile_cons_of_neg (by simp)
        rw [hnone,List.append_nil]
        exact ((List.takeWhile_prefix _).eq_of_length hclean).symm
      · rfl
    · rw [hempty,hnothing]

section
variable {s : State} (h : Sound s.memory) (hterminated : Terminated s.memory)
include h

theorem data_restored (allocator : Allocator) (hdata : s.memory.isString = false) (hbyte : s.memory.singleElementSize = 1)
    (hsucceeded : (memConvertDataToString allocator s).succeeded = true) :
    (memConvertStringToData (memConvertDataToString allocator s).state).succeeded = true ∧
      DataRestored s.memory (memConvertStringToData (memConvertDataToString allocator s).state).state.memory := by
  have hbecame := (memConvertDataToString_data h allocator hdata).1 hsucceeded
  obtain ⟨hback,hmemory⟩ := memConvertStringToData_string hbecame.sound hbecame.terminated hbecame.format.2
    (hbecame.format.1.trans hbyte)
  rw [hmemory]
  exact ⟨hback,dataRestored_of_becameString h hbyte hbecame⟩

include hterminated

theorem terminator_room (hstring : s.memory.isString = true) (hbyte : s.memory.singleElementSize = 1) {m : Memory}
    (hm : m = { s.memory with length :=
      if s.memory.stringLength + 1 = s.memory.length then s.memory.length - 1 else s.memory.length }.asData)
    (hlength : 0 < m.length) :
    firstZero m.singleElementSize m.length m.payload < m.length ∨
      m.singleElementSize * (m.length + 1) ≤ m.actuallyAllocatedBytes := by
  have hcovered := h.covered
  have hcases := h.stringMode hstring
  rw [hbyte] at hcovered
  by_cases hcanonical : s.memory.stringLength + 1 = s.memory.length
  · refine .inr ?_
    rw [hm,if_pos hcanonical]
    show s.memory.singleElementSize * (s.memory.length - 1 + 1) ≤ s.memory.actuallyAllocatedBytes
    rw [hbyte]
    omega
  · refine .inl ?_
    rw [if_neg hcanonical] at hm
    subst hm
    have hinside : s.memory.stringLength < s.memory.length :=
      hcases.resolve_right fun hboth => absurd hboth.1 (Nat.pos_iff_ne_zero.mp hlength)
    have hzero := hterminated hstring (by omega)
    apply firstZero_lt_of_zero hinside
    rw [Memory.payload]
    show element s.memory.singleElementSize (s.memory.block.take (s.memory.singleElementSize * s.memory.length))
      s.memory.stringLength = zeroElement UInt8 s.memory.singleElementSize
    rw [element_take (Nat.mul_le_mul_left _ hinside)]
    exact hzero

theorem string_restored (allocator : Allocator) (hstring : s.memory.isString = true) (hbyte : s.memory.singleElementSize = 1) :
    (memConvertStringToData s).succeeded = true ∧
      (memConvertDataToString allocator (memConvertStringToData s).state).succeeded = true ∧
        (memConvertDataToString allocator (memConvertStringToData s).state).state.memory.visibleString =
          s.memory.visibleString.takeWhile (· ≠ 0) := by
  obtain ⟨hsucceeded,hmemory⟩ := memConvertStringToData_string h hterminated hstring hbyte
  have htake := takeWhile_payload h hterminated hstring hbyte
  have hcount : (if s.memory.stringLength + 1 = s.memory.length then s.memory.length - 1 else s.memory.length) ≤
      s.memory.length := by
    split <;> omega
  have hsound := h.asData hcount
  have hroom := terminator_room h hterminated hstring hbyte hmemory
  have hmode : (memConvertStringToData s).state.memory.isString = false := by
    rw [hmemory]
    rfl
  have hwidth : (memConvertStringToData s).state.memory.singleElementSize = 1 := by
    rw [hmemory]
    exact hbyte
  rw [← hmemory] at htake hsound
  have hback := memConvertDataToString_succeeded hsound allocator hmode (by omega) hroom
  have hvisible := ((memConvertDataToString_data hsound allocator hmode).1 hback).visible
  have hlength : (memConvertStringToData s).state.memory.payload.length = (memConvertStringToData s).state.memory.length := by
    rw [length_payload hsound,hwidth,Nat.one_mul]
  rw [hwidth,← hlength,visibleElements_one,htake] at hvisible
  exact ⟨hsucceeded,hback,hvisible⟩

end

/-- Bytes come back from a string as they were or without their only zero byte, a string comes back
up to its first zero byte, and what fails changes nothing. -/
theorem conversions_restore (allocator : Allocator) (s : State) (h : Sound s.memory) (hterminated : Terminated s.memory) :
    ConversionRules allocator s := by
  constructor
  · exact data_restored h allocator
  · exact string_restored h hterminated allocator
  · intro hdata hsucceeded
    have hbecame := (memConvertDataToString_data h allocator hdata).1 hsucceeded
    exact ⟨hbecame.format.2,hbecame.visible⟩
  · intro hfailed
    cases hmode : s.memory.isString with
    | true => rw [memConvertDataToString_string h allocator hmode]
    | false => exact (memConvertDataToString_data h allocator hmode).2 hfailed
  · intro hfailed
    rw [memConvertStringToData_failed hfailed]

/-- The string `a`, a zero byte, `b` in a block of its own. -/
def spacedString : Memory := ⟨1,4096,4,3,true,some ([97,0,98] ++ List.replicate 4093 0)⟩

theorem sound_spacedString : Sound spacedString ∧ Terminated spacedString := by
  constructor
  · constructor <;> simp [-List.reduceReplicate,spacedString,Memory.block,sizeMax,memoryBlockBytes]
  · intro _ _
    exact element_one.mpr (by simp [-List.reduceReplicate,spacedString,Memory.block])

theorem spacedString_restores : ConversionRules (fun _ _ => none) ⟨spacedString,.start,.start⟩ :=
  conversions_restore _ _ sound_spacedString.1 sound_spacedString.2

/-- Back from data, the string ends at the zero byte in it. -/
theorem spacedString_cut :
    ¬∀ (allocator : Allocator) (s : State), Sound s.memory → Terminated s.memory → s.memory.isString = true →
      s.memory.singleElementSize = 1 → (memConvertStringToData s).succeeded = true →
        (memConvertDataToString allocator (memConvertStringToData s).state).succeeded = true →
          (memConvertDataToString allocator (memConvertStringToData s).state).state.memory.visibleString =
            s.memory.visibleString := by
  intro hall
  obtain ⟨hsound,hterminated⟩ := sound_spacedString
  obtain ⟨hdata,hback,hvisible⟩ := string_restored (s := ⟨spacedString,.start,.start⟩) hsound hterminated (fun _ _ => none) rfl rfl
  have hsame := hall (fun _ _ => none) ⟨spacedString,.start,.start⟩ hsound hterminated rfl rfl hdata hback
  rw [hvisible] at hsame
  have htext : spacedString.visibleString = [97,0,98] := by
    simp [-List.reduceReplicate,spacedString,Memory.visibleString,Memory.block]
  rw [htext] at hsame
  exact absurd hsame (by decide)

end Precizer.Guarantees
