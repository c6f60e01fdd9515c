import Precizer.Libmem.Memory

/-! # Sound descriptors

What every descriptor keeps to: the block has the recorded size, a whole number of slabs that
covers the elements in use, and a string ends within them at a zero element. On such a
descriptor the checks of the terminator functions come down to a bound on the index.
-/
namespace Precizer.Libmem
open General

/-- The metadata agrees with the block. -/
structure Sound (m : Memory) : Prop where
  blockLength : m.block.length = m.actuallyAllocatedBytes
  allocated : m.data = none ↔ m.actuallyAllocatedBytes = 0
  initialized : m.singleElementSize = 0 → m.length = 0 ∧ m.actuallyAllocatedBytes = 0
  covered : m.singleElementSize * m.length ≤ m.actuallyAllocatedBytes
  room : 0 < m.actuallyAllocatedBytes → m.singleElementSize ≤ m.actuallyAllocatedBytes
  addressable : m.actuallyAllocatedBytes ≤ sizeMax
  slabs : memoryBlockBytes ∣ m.actuallyAllocatedBytes
  dataMode : m.isString = false → m.stringLength = 0
  stringMode : m.isString = true → m.stringLength < m.length ∨ m.length = 0 ∧ m.stringLength = 0

def Terminated (m : Memory) : Prop :=
  m.isString = true → 0 < m.length →
    element m.singleElementSize m.block m.stringLength = zeroElement UInt8 m.singleElementSize

theorem sound_memInit (singleElementSize : ℕ) (isString : Bool) : Sound (memInit singleElementSize isString) where
  blockLength := rfl
  allocated := by simp [memInit]
  initialized := fun _ => ⟨rfl,rfl⟩
  covered := by simp [memInit]
  room := fun hpos => absurd hpos (lt_irrefl 0)
  addressable := Nat.zero_le _
  slabs := Nat.dvd_zero _
  dataMode := fun _ => rfl
  stringMode := fun _ => .inr ⟨rfl,rfl⟩

theorem terminated_memInit (singleElementSize : ℕ) (isString : Bool) : Terminated (memInit singleElementSize isString) :=
  fun _ hlength => absurd hlength (lt_irrefl 0)

theorem memGuardedByteSize_eq_some {m : Memory} {count bytes : ℕ} :
    memGuardedByteSize m count = some bytes ↔
      m.singleElementSize ≠ 0 ∧ m.singleElementSize * count ≤ sizeMax ∧ bytes = m.singleElementSize * count := by
  rw [memGuardedByteSize]
  split
  · next hzero => simp [hzero]
  · next hzero =>
    have hlt : sizeMax / m.singleElementSize < count ↔ sizeMax < m.singleElementSize * count := by
      rw [Nat.div_lt_iff_lt_mul (by omega),Nat.mul_comm]
    simp only [hlt]
    split
    · simp [hzero]
      omega
    · simp [hzero,eq_comm]
      omega

theorem memGuardedAdd_eq_some {left right sum : ℕ} :
    memGuardedAdd left right = some sum ↔ left + right ≤ sizeMax ∧ sum = left + right := by
  rw [memGuardedAdd]
  split
  · simp
    omega
  · simp [eq_comm]
    omega

theorem measureElements_eq {width : ℕ} (hwidth : width ≠ 0) (turns : ℕ) (view : List UInt8) :
    measureElements width turns view = firstZero width turns view := by
  induction turns generalizing view with
  | zero => rfl
  | succ turns ih => simp [measureElements,firstZero,memIsZeroElement,hwidth,ih]

/-- The search of the standard library stops there too. -/
theorem firstZero_one (count : ℕ) (bytes : List UInt8) :
    firstZero 1 count bytes = ((bytes.take count).findIdx? (· = 0)).getD count := by
  induction count generalizing bytes with
  | zero => simp [firstZero]
  | succ count ih =>
    cases bytes with
    | nil => simp [firstZero,zeroElement,ih]
    | cons byte rest =>
      by_cases hbyte : byte = 0
      · simp [firstZero,zeroElement,hbyte,List.findIdx?_cons]
      · simp only [firstZero,zeroElement,List.take_succ_cons,List.take_zero,List.replicate_one,List.cons.injEq,
          hbyte,false_and,if_false,List.drop_succ_cons,List.drop_zero,List.findIdx?_cons,decide_false,
          Bool.false_eq_true,ih]
        cases (rest.take count).findIdx? (· = 0) <;> simp

theorem memStringMeasureLength_limit {width : ℕ} (hwidth : width ≠ 0) (source : List UInt8) (limit : ℕ) :
    memStringMeasureLength source (some limit) width = some (firstZero width (limit / width) source) := by
  rw [memStringMeasureLength,if_neg hwidth]
  split
  · next hone => simp [hone,firstZero_one]
  · simp [measureElements_eq hwidth]

theorem memStringMeasureLength_unlimited {width : ℕ} (hwidth : width ≠ 0) (source : List UInt8) :
    memStringMeasureLength source none width = some (firstZero width (source.length / width) source) := by
  rw [memStringMeasureLength,if_neg hwidth]
  split
  · next hone =>
    simp only [hone,Nat.div_one,firstZero_one,List.take_length,Option.some.injEq]
    rw [List.findIdx_eq_getD_findIdx?]
  · simp [measureElements_eq hwidth]

theorem memWriteZeroTerminator_eq_some {m m' : Memory} {index : ℕ} (haddressable : m.actuallyAllocatedBytes ≤ sizeMax) :
    memWriteZeroTerminator m index = some m' ↔ m.singleElementSize ≠ 0 ∧ m.data ≠ none ∧
      m.singleElementSize * (index + 1) ≤ m.actuallyAllocatedBytes ∧ m' = m.zeroAt index := by
  have hnext : m.singleElementSize * (index + 1) = m.singleElementSize * index + m.singleElementSize := by ring
  rw [memWriteZeroTerminator,hnext]
  split
  · next hzero => simp [hzero]
  split
  · next hdata => simp [hdata]
  next hzero hdata =>
  cases hoffset : memGuardedByteSize m index with
  | none =>
    have hover : ¬ m.singleElementSize * index ≤ sizeMax := by
      intro hle
      have hsome := memGuardedByteSize_eq_some.mpr ⟨hzero,hle,rfl⟩
      rw [hoffset] at hsome
      cases hsome
    simp
    omega
  | some offset =>
    obtain ⟨-,hle,rfl⟩ := memGuardedByteSize_eq_some.mp hoffset
    dsimp only
    cases hrequired : memGuardedAdd (m.singleElementSize * index) m.singleElementSize with
    | none =>
      have hover : ¬ m.singleElementSize * index + m.singleElementSize ≤ sizeMax := by
        intro hle
        have hsome := memGuardedAdd_eq_some.mpr ⟨hle,rfl⟩
        rw [hrequired] at hsome
        cases hsome
      simp
      omega
    | some required =>
      obtain ⟨-,rfl⟩ := memGuardedAdd_eq_some.mp hrequired
      dsimp only
      split
      · simp
        omega
      · simp only [Option.some.injEq,Memory.zeroAt]
        exact ⟨fun h => ⟨hzero,hdata,by omega,h.symm⟩,fun h => h.2.2.2.symm⟩

namespace Memory
variable {m : Memory}

theorem block_written {offset : ℕ} {bytes : List UInt8} (hdata : m.data ≠ none) :
    (m.written offset bytes).block = overwrite m.block offset bytes := by
  obtain ⟨block,hblock⟩ := Option.ne_none_iff_exists'.mp hdata
  simp [written,Memory.block,hblock]

theorem data_written {offset : ℕ} {bytes : List UInt8} (hdata : m.data ≠ none) : (m.written offset bytes).data ≠ none := by
  simpa [written] using hdata

@[simp] theorem written_singleElementSize (offset : ℕ) (bytes : List UInt8) :
    (m.written offset bytes).singleElementSize = m.singleElementSize := rfl

@[simp] theorem written_length (offset : ℕ) (bytes : List UInt8) : (m.written offset bytes).length = m.length := rfl

@[simp] theorem written_isString (offset : ℕ) (bytes : List UInt8) : (m.written offset bytes).isString = m.isString := rfl

@[simp] theorem written_stringLength (offset : ℕ) (bytes : List UInt8) :
    (m.written offset bytes).stringLength = m.stringLength := rfl

@[simp] theorem written_allocated (offset : ℕ) (bytes : List UInt8) :
    (m.written offset bytes).actuallyAllocatedBytes = m.actuallyAllocatedBytes := rfl

theorem written_before {offset : ℕ} {before bytes : List UInt8}
    (h : offset + before.length + bytes.length ≤ m.block.length) :
    (m.written (offset + before.length) bytes).written offset before = m.written offset (before ++ bytes) := by
  cases hdata : m.data with
  | none => simp [written,hdata]
  | some block =>
    have hblock : m.block = block := by simp [Memory.block,hdata]
    rw [hblock] at h
    simp [written,hdata,overwrite_before h]

theorem zeroAt_of_zero {index : ℕ}
    (h : element m.singleElementSize m.block index = zeroElement UInt8 m.singleElementSize) : m.zeroAt index = m := by
  cases hdata : m.data with
  | none => cases m; simp_all [zeroAt,written]
  | some block =>
    have hblock : m.block = block := by simp [Memory.block,hdata]
    have hsame : overwrite block (m.singleElementSize * index) (zeroElement UInt8 m.singleElementSize) = block := by
      apply overwrite_window
      rwa [length_zeroElement,← hblock]
    cases m
    simp_all [zeroAt,written]

end Memory

namespace Sound
variable {m : Memory}

theorem data_ne_none (h : Sound m) (hallocated : m.actuallyAllocatedBytes ≠ 0) : m.data ≠ none :=
  fun hdata => hallocated (h.allocated.mp hdata)

theorem allocated_pos (h : Sound m) (hlength : 0 < m.length) : 0 < m.actuallyAllocatedBytes := by
  have hwidth : m.singleElementSize ≠ 0 := fun hzero => by
    have hlength := (h.initialized hzero).1
    omega
  have hpos : 0 < m.singleElementSize * m.length := Nat.mul_pos (by omega) hlength
  have hcovered := h.covered
  omega

theorem data_of_length (h : Sound m) (hlength : 0 < m.length) : m.data ≠ none :=
  h.data_ne_none (Nat.pos_iff_ne_zero.mp (h.allocated_pos hlength))

theorem payload_present (h : Sound m) : ¬(0 < m.length ∧ m.data = none) :=
  fun hboth => h.data_of_length hboth.1 hboth.2

theorem heap_present (h : Sound m) : ¬(0 < m.actuallyAllocatedBytes ∧ m.data = none) :=
  fun hboth => h.data_ne_none (Nat.pos_iff_ne_zero.mp hboth.1) hboth.2

theorem byteSize (h : Sound m) (hwidth : m.singleElementSize ≠ 0) :
    memGuardedByteSize m m.length = some (m.singleElementSize * m.length) :=
  memGuardedByteSize_eq_some.mpr ⟨hwidth,h.covered.trans h.addressable,rfl⟩

theorem covers (h : Sound m) {index : ℕ} (hindex : index < m.length) :
    m.singleElementSize * (index + 1) ≤ m.actuallyAllocatedBytes :=
  (Nat.mul_le_mul_left _ hindex).trans h.covered

theorem written (h : Sound m) {offset : ℕ} {bytes : List UInt8}
    (hfit : offset + bytes.length ≤ m.actuallyAllocatedBytes) : Sound (m.written offset bytes) := by
  cases hdata : m.data with
  | none =>
    have hsame : m.written offset bytes = m := by
      cases m
      simp_all [Memory.written]
    rwa [hsame]
  | some block =>
    refine ⟨?_,?_,h.initialized,h.covered,h.room,h.addressable,h.slabs,h.dataMode,h.stringMode⟩
    · rw [Memory.block_written (by simp [hdata]),length_overwrite (by rwa [h.blockLength]),h.blockLength]
      rfl
    · have hallocated : m.actuallyAllocatedBytes ≠ 0 := fun hzero => by
        rw [h.allocated.mpr hzero] at hdata
        cases hdata
      simpa [Memory.written,hdata] using hallocated

theorem zeroAt (h : Sound m) {index : ℕ} (hindex : index < m.length) : Sound (m.zeroAt index) := by
  apply h.written
  have hcovers := h.covers hindex
  rw [Nat.mul_add] at hcovers
  simpa using hcovers

theorem withStringLength (h : Sound m) (hstring : m.isString = true) {n : ℕ} (hn : n < m.length) :
    Sound { m with stringLength := n } :=
  ⟨h.blockLength,h.allocated,h.initialized,h.covered,h.room,h.addressable,h.slabs,
    fun hdata => by simp [hstring] at hdata,fun _ => .inl hn⟩

end Sound

def Memory.cutAt (m : Memory) (index : ℕ) : Memory := { m.zeroAt index with stringLength := index }

namespace Memory
variable (m : Memory) (index : ℕ)

@[simp] theorem cutAt_singleElementSize : (m.cutAt index).singleElementSize = m.singleElementSize := rfl

@[simp] theorem cutAt_length : (m.cutAt index).length = m.length := rfl

@[simp] theorem cutAt_isString : (m.cutAt index).isString = m.isString := rfl

@[simp] theorem cutAt_stringLength : (m.cutAt index).stringLength = index := rfl

@[simp] theorem cutAt_allocated : (m.cutAt index).actuallyAllocatedBytes = m.actuallyAllocatedBytes := rfl

end Memory

theorem Sound.cutAt {m : Memory} (h : Sound m) (hstring : m.isString = true) {index : ℕ} (hindex : index < m.length) :
    Sound (m.cutAt index) := (h.zeroAt hindex).withStringLength hstring hindex

theorem Memory.element_zeroAt {m : Memory} (h : Sound m) {index : ℕ} (hindex : index < m.length) :
    element m.singleElementSize (m.zeroAt index).block index = zeroElement UInt8 m.singleElementSize := by
  have hroom : m.singleElementSize * index ≤ m.block.length := by
    have hcovers := h.covers hindex
    rw [Nat.mul_add] at hcovers
    rw [h.blockLength]
    omega
  have hblock : (m.zeroAt index).block = overwrite m.block (m.singleElementSize * index)
      (zeroElement UInt8 m.singleElementSize) := Memory.block_written (h.data_of_length (by omega))
  rw [hblock]
  exact element_overwrite_self (length_zeroElement _) hroom

theorem Memory.terminated_cutAt {m : Memory} (h : Sound m) {index : ℕ} (hindex : index < m.length) :
    Terminated (m.cutAt index) := fun _ _ => Memory.element_zeroAt h hindex

section
variable {m : Memory} (h : Sound m)
include h

theorem memWriteZeroTerminator_sound {index : ℕ} (hindex : index < m.length) :
    memWriteZeroTerminator m index = some (m.zeroAt index) := by
  have hwidth : m.singleElementSize ≠ 0 := fun hzero => by
    have hlength := (h.initialized hzero).1
    omega
  exact (memWriteZeroTerminator_eq_some h.addressable).mpr
    ⟨hwidth,h.data_of_length (by omega),h.covers hindex,rfl⟩

theorem memDataWritable_sound (hlength : 0 < m.length) (expectedSingleElementSize : ℕ) :
    memDataWritable m expectedSingleElementSize =
      if m.singleElementSize = expectedSingleElementSize then some m.block else none := by
  have hwidth : m.singleElementSize ≠ 0 := fun hzero => by
    have hempty := (h.initialized hzero).1
    omega
  have hdata := h.data_of_length hlength
  obtain ⟨block,hblock⟩ := Option.ne_none_iff_exists'.mp hdata
  have hcovered := h.covered
  have hbytes : memGuardedByteSize m m.length = some (m.singleElementSize * m.length) :=
    h.byteSize hwidth
  rw [memDataWritable,if_neg hwidth,if_neg (fun hboth => hdata hboth.1),if_neg (fun hboth => hdata hboth.2),hbytes]
  dsimp only
  rw [if_neg (by omega)]
  split <;> simp_all [Memory.block]

/-- A string is only ever made shorter. -/
theorem memStringTruncate_sound (hstring : m.isString = true) (hwidth : m.singleElementSize ≠ 0) (n : ℕ) :
    memStringTruncate m n = some (if m.length = 0 ∨ m.stringLength < n then m else m.cutAt n) := by
  have hdata : ¬(0 < m.length ∧ m.data = none) := h.payload_present
  have hallocated : ¬(0 < m.actuallyAllocatedBytes ∧ m.data = none) := h.heap_present
  have hnotData : ¬ m.isString = false := by simp [hstring]
  rw [memStringTruncate,if_neg hwidth,if_neg hdata,if_neg hallocated,if_neg hnotData]
  by_cases hlength : m.length = 0
  · simp [hlength]
  have hbytes : memGuardedByteSize m m.length = some (m.singleElementSize * m.length) :=
    h.byteSize hwidth
  have hinside : m.stringLength < m.length := (h.stringMode hstring).resolve_right (fun hboth => hlength hboth.1)
  have hcovered := h.covered
  rw [if_neg hlength,hbytes]
  dsimp only
  rw [if_neg (by omega),if_neg (by omega)]
  by_cases hlonger : m.stringLength < n
  · simp [hlonger]
  have hcut : ¬(m.length = 0 ∨ m.stringLength < n) := by omega
  rw [if_neg hlonger,if_neg hcut]
  by_cases hzero : n = m.stringLength ∧
      memIsZeroElement (m.block.drop (m.singleElementSize * m.stringLength)) m.singleElementSize = true
  · obtain ⟨rfl,hzero⟩ := hzero
    have helement : element m.singleElementSize m.block m.stringLength = zeroElement UInt8 m.singleElementSize := by
      simpa [memIsZeroElement,hwidth,element] using hzero
    rw [if_pos ⟨rfl,hzero⟩,Memory.cutAt,Memory.zeroAt_of_zero helement]
  · rw [if_neg hzero,memWriteZeroTerminator_sound h (by omega)]
    rfl

/-- A known flag and an index in use are all that is asked for. -/
theorem memFinalizeString_eq_some (hstring : m.isString = true) {writtenLength : ℕ} (hwritten : writtenLength < m.length)
    {flags : TerminatorWriteMode} (hflags : flags ≠ .unknown) :
    memFinalizeString m writtenLength flags = some (m.cutAt writtenLength) := by
  have hwidth : m.singleElementSize ≠ 0 := fun hzero => by
    have hlength := (h.initialized hzero).1
    omega
  have hdata : ¬(0 < m.length ∧ m.data = none) := h.payload_present
  have hallocated : ¬(0 < m.actuallyAllocatedBytes ∧ m.data = none) := h.heap_present
  have hnotData : ¬ m.isString = false := by simp [hstring]
  have hcovers := h.covers hwritten
  have haddressable := h.addressable
  rw [Nat.mul_add,Nat.mul_one] at hcovers
  have hoffset : memGuardedByteSize m writtenLength = some (m.singleElementSize * writtenLength) :=
    memGuardedByteSize_eq_some.mpr ⟨hwidth,by omega,rfl⟩
  have hrequired : memGuardedAdd (m.singleElementSize * writtenLength) m.singleElementSize =
      some (m.singleElementSize * writtenLength + m.singleElementSize) :=
    memGuardedAdd_eq_some.mpr ⟨by omega,rfl⟩
  rw [memFinalizeString,if_neg hwidth,if_neg hdata,if_neg hallocated,if_neg hnotData,if_neg hflags,
    if_neg (by omega),if_neg (by omega),hoffset]
  dsimp only
  rw [hrequired]
  dsimp only
  rw [if_neg (by omega)]
  split
  · next hmissing =>
    have helement : element m.singleElementSize m.block writtenLength = zeroElement UInt8 m.singleElementSize := by
      simpa [memIsZeroElement,hwidth,element] using hmissing.2
    rw [Memory.cutAt,Memory.zeroAt_of_zero helement]
  · rw [memWriteZeroTerminator_sound h hwritten]
    rfl

theorem memFinalizeString_sound {writtenLength : ℕ} {flags : TerminatorWriteMode} {m' : Memory}
    (hanswer : memFinalizeString m writtenLength flags = some m') :
    m.isString = true ∧ writtenLength < m.length ∧ m' = m.cutAt writtenLength := by
  have hstring : m.isString = true := by
    by_contra hdata
    simp [memFinalizeString,hdata] at hanswer
  have hwritten : writtenLength < m.length := by
    by_contra hlong
    simp [memFinalizeString,not_lt.mp hlong] at hanswer
  have hflags : flags ≠ .unknown := by
    rintro rfl
    simp [memFinalizeString] at hanswer
  rw [memFinalizeString_eq_some h hstring hwritten hflags] at hanswer
  exact ⟨hstring,hwritten,(Option.some.inj hanswer).symm⟩

end

end Precizer.Libmem
