import Precizer.Libmem.MemoryRules

/-! # Measurement of raw strings

`mem_string_measure_length` reads an object byte by byte, with offsets of the type `size_t`, and
with the searches of the standard library for elements of one byte. What it makes of a read
behind the object is not defined.
-/
namespace Precizer.Libmem
open General

/-- The bytes of an object from a pointer on; the difference of two pointers into it fits in `ptrdiff_t`. -/
structure RawString where
  bytes : List UInt8
  small : bytes.length < 2 ^ 63

inductive Measurement
  | outside
  | unfinished
  | failure
  | success (length : UInt64) (terminatorFound : Bool)
  deriving DecidableEq

namespace Raw

/-- The loop of `mem_is_zero_element` over the bytes that are left of the element. -/
def zeroFrom (bytes : List UInt8) (position : ℕ) : ℕ → Option Bool
  | 0 => some true
  | rest + 1 =>
    match bytes[position]? with
    | none => none
    | some byte => if byte ≠ 0 then some false else zeroFrom bytes (position + 1) rest

def memIsZeroElement (bytes : List UInt8) (position : ℕ) (singleElementSize : UInt64) : Option Bool :=
  if singleElementSize = 0 then some false
  else if singleElementSize = 1 then bytes[position]?.map (· = 0)
  else zeroFrom bytes position singleElementSize.toNat

/-- `memchr` for a zero byte; it reads no further than the byte it finds. -/
def memchr (bytes : List UInt8) (count : ℕ) : Option (Option ℕ) :=
  match (bytes.take count).findIdx? (· = 0) with
  | some index => some (some index)
  | none => if count ≤ bytes.length then some none else none

def strlen (bytes : List UInt8) : Option ℕ := bytes.findIdx? (· = 0)

/-- The loop with a limit, with so many turns at most. -/
def boundedScan (bytes : List UInt8) (sourceLimitBytes singleElementSize : UInt64) : ℕ → UInt64 → UInt64 → Measurement
  | 0,_,_ => .unfinished
  | turns + 1,elementOffset,measuredLength =>
    if elementOffset + singleElementSize ≤ sourceLimitBytes then
      match memIsZeroElement bytes elementOffset.toNat singleElementSize with
      | none => .outside
      | some true => .success measuredLength true
      | some false =>
        boundedScan bytes sourceLimitBytes singleElementSize turns (elementOffset + singleElementSize) (measuredLength + 1)
    else .success measuredLength false

/-- The loop without a limit, which moves the pointer itself. -/
def unboundedScan (bytes : List UInt8) (singleElementSize : UInt64) : ℕ → ℕ → UInt64 → Measurement
  | 0,_,_ => .unfinished
  | turns + 1,position,measuredLength =>
    match memIsZeroElement bytes position singleElementSize with
    | none => .outside
    | some true => .success measuredLength true
    | some false => unboundedScan bytes singleElementSize turns (position + singleElementSize.toNat) (measuredLength + 1)

def elementScan (turns : ℕ) (bytes : List UInt8) (sourceLimitBytes singleElementSize : UInt64)
    (sourceLimitIsActive : Bool) : Measurement :=
  if sourceLimitIsActive then boundedScan bytes sourceLimitBytes singleElementSize turns 0 0
  else unboundedScan bytes singleElementSize turns 0 0

/-- The fast path for elements of one byte. -/
def byteScan (bytes : List UInt8) (sourceLimitBytes : UInt64) (sourceLimitIsActive : Bool) : Measurement :=
  if sourceLimitIsActive then
    match memchr bytes sourceLimitBytes.toNat with
    | none => .outside
    | some none => .success sourceLimitBytes false
    | some (some index) => .success (UInt64.ofNat index) true
  else
    match strlen bytes with
    | none => .outside
    | some length => .success (UInt64.ofNat length) true

/-- A `NULL` pointer is `none`; `lengthOut` says whether there is a place for the length. -/
def memStringMeasureLength (turns : ℕ) (sourceString : Option RawString) (sourceLimitBytes singleElementSize : UInt64)
    (sourceLimitIsActive lengthOut : Bool) : Measurement :=
  match sourceString with
  | none => .failure
  | some source =>
    if lengthOut = false then .failure
    else if singleElementSize = 0 then .failure
    else if singleElementSize = 1 then byteScan source.bytes sourceLimitBytes sourceLimitIsActive
    else elementScan turns source.bytes sourceLimitBytes singleElementSize sourceLimitIsActive

end Raw

/-- The first zero element is at the length, or there is none among so many elements. -/
structure MeasuredAt (width : ℕ) (elements : Option ℕ) (bytes : List UInt8) (length : ℕ) (terminatorFound : Bool) : Prop where
  before : ∀ index < length, element width bytes index ≠ zeroElement UInt8 width
  found : terminatorFound = true → element width bytes length = zeroElement UInt8 width ∧ ∀ count ∈ elements, length < count
  missing : terminatorFound = false → elements = some length

def elementsRead (length : ℕ) (terminatorFound : Bool) : ℕ := if terminatorFound then length + 1 else length

/-- What a caller promises: a zero element, or the whole elements of the limit. -/
def Readable (width : ℕ) (elements : Option ℕ) (bytes : List UInt8) : Prop :=
  (∃ count ∈ elements, width * count ≤ bytes.length) ∨
    ∃ index, (∀ count ∈ elements, index < count) ∧ element width bytes index = zeroElement UInt8 width

theorem zero_element_within {width index : ℕ} {bytes : List UInt8} (hwidth : width ≠ 0)
    (h : element width bytes index = zeroElement UInt8 width) : width * (index + 1) ≤ bytes.length := by
  have hlength := congrArg List.length h
  rw [element,List.length_take,List.length_drop,length_zeroElement] at hlength
  rw [Nat.mul_add]
  omega

theorem Readable.measured {width : ℕ} {elements : Option ℕ} {bytes : List UInt8} (hwidth : width ≠ 0)
    (h : Readable width elements bytes) :
    ∃ length found, MeasuredAt width elements bytes length found ∧ width * elementsRead length found ≤ bytes.length := by
  by_cases hzero : ∃ index, (∀ count ∈ elements, index < count) ∧ element width bytes index = zeroElement UInt8 width
  · classical
    have hfirst := Nat.find_spec hzero
    refine ⟨Nat.find hzero,true,⟨?_,fun _ => ⟨hfirst.2,hfirst.1⟩,nofun⟩,zero_element_within hwidth hfirst.2⟩
    intro index hindex helement
    apply Nat.find_min hzero hindex
    refine ⟨?_,helement⟩
    intro count hcount
    exact hindex.trans (hfirst.1 count hcount)
  · obtain ⟨count,hcount,hroom⟩ := h.resolve_right hzero
    refine ⟨count,false,⟨?_,nofun,fun _ => hcount⟩,hroom⟩
    intro index hindex helement
    apply hzero
    refine ⟨index,?_,helement⟩
    intro other hother
    rwa [← Option.some.inj (hcount.symm.trans hother)]

theorem MeasuredAt.of_take {width length : ℕ} {found : Bool} {elements : Option ℕ} {bytes other : List UInt8}
    (h : MeasuredAt width elements bytes length found) (hroom : width * elementsRead length found ≤ bytes.length)
    (hsame : other.take (width * elementsRead length found) = bytes.take (width * elementsRead length found)) :
    MeasuredAt width elements other length found ∧ width * elementsRead length found ≤ other.length := by
  have helement : ∀ index < elementsRead length found, element width other index = element width bytes index := by
    intro index hindex
    have hwithin : width * (index + 1) ≤ width * elementsRead length found := Nat.mul_le_mul_left _ hindex
    rw [← element_take hwithin,hsame,element_take hwithin]
  have hlength := congrArg List.length hsame
  rw [List.length_take,List.length_take] at hlength
  refine ⟨⟨?_,?_,h.missing⟩,by omega⟩
  · intro index hindex
    rw [helement index]
    · exact h.before index hindex
    · rw [elementsRead]
      split <;> omega
  · intro hfound
    rw [helement length]
    · exact h.found hfound
    · rw [elementsRead,if_pos hfound]
      exact Nat.lt_succ_self length

theorem zeroFrom_eq {bytes : List UInt8} {position count : ℕ} (h : position + count ≤ bytes.length) :
    Raw.zeroFrom bytes position count = some (decide ((bytes.drop position).take count = List.replicate count 0)) := by
  induction count generalizing position with
  | zero => simp [Raw.zeroFrom]
  | succ count ih =>
    have hposition : position < bytes.length := by omega
    rw [Raw.zeroFrom,List.getElem?_eq_getElem hposition,List.drop_eq_getElem_cons hposition,List.take_succ_cons,
      List.replicate_succ]
    dsimp only
    rw [ih (by omega)]
    split
    · next hbyte => simp [hbyte]
    · next hbyte => simp [not_not.mp hbyte]

theorem rawMemIsZeroElement_eq {bytes : List UInt8} {width : UInt64} {index : ℕ} (hwidth : width ≠ 0)
    (h : width.toNat * (index + 1) ≤ bytes.length) :
    Raw.memIsZeroElement bytes (width.toNat * index) width =
      some (decide (element width.toNat bytes index = zeroElement UInt8 width.toNat)) := by
  rw [Nat.mul_add,Nat.mul_one] at h
  rw [Raw.memIsZeroElement,if_neg hwidth]
  split
  · next hone =>
    subst hone
    have hsize : (1 : UInt64).toNat = 1 := rfl
    have hposition : 1 * index < bytes.length := Nat.lt_of_succ_le h
    rw [hsize,List.getElem?_eq_getElem hposition,element,List.drop_eq_getElem_cons hposition,List.take_succ_cons,zeroElement]
    simp
  · exact zeroFrom_eq h

section
variable {bytes : List UInt8} {limit width : UInt64} {length : ℕ} {found : Bool}

theorem boundedScan_eq (hsmall : bytes.length < 2 ^ 63) (hwidth : width ≠ 0)
    (h : MeasuredAt width.toNat (some (limit.toNat / width.toNat)) bytes length found)
    (hroom : width.toNat * elementsRead length found ≤ bytes.length) {turns index : ℕ} {elementOffset measuredLength : UInt64}
    (hturns : length < index + turns) (hindex : index ≤ length) (hoffset : elementOffset.toNat = width.toNat * index)
    (hmeasured : measuredLength.toNat = index) :
    Raw.boundedScan bytes limit width turns elementOffset measuredLength = .success (UInt64.ofNat length) found := by
  have hpositive : 0 < width.toNat := by
    apply Nat.pos_of_ne_zero
    intro hzero
    exact hwidth (UInt64.toNat_inj.mp hzero)
  have hlimit := limit.toNat_lt
  have hrange := width.toNat_lt
  induction turns generalizing index elementOffset measuredLength with
  | zero => omega
  | succ turns ih =>
    have hsum : (elementOffset + width).toNat = (width.toNat * index + width.toNat) % 2 ^ 64 := by
      rw [UInt64.toNat_add,hoffset]
    have hlength : measuredLength = UInt64.ofNat index := by
      rw [← hmeasured,UInt64.ofNat_toNat]
    have hturn : elementOffset + width ≤ limit ↔ (width.toNat * index + width.toNat) % 2 ^ 64 ≤ limit.toNat := by
      rw [UInt64.le_iff_toNat_le,hsum]
    rw [Raw.boundedScan]
    by_cases hlast : index = length ∧ found = false
    · obtain ⟨rfl,rfl⟩ := hlast
      have hcount : limit.toNat / width.toNat = index := Option.some.inj (h.missing rfl)
      have hover : limit.toNat < width.toNat * index + width.toNat := by
        have hmod := Nat.div_add_mod limit.toNat width.toNat
        have hless := Nat.mod_lt limit.toNat hpositive
        rw [hcount] at hmod
        omega
      have hnowrap : width.toNat * index + width.toNat < 2 ^ 64 := by
        cases index with
        | zero => omega
        | succ index =>
          have hread : width.toNat * (index + 1) ≤ bytes.length := hroom
          rw [Nat.mul_add] at hread ⊢
          omega
      rw [Nat.mod_eq_of_lt hnowrap] at hturn
      have hend : ¬elementOffset + width ≤ limit := fun hcontinue => absurd (hturn.mp hcontinue) (Nat.not_le_of_gt hover)
      rw [if_neg hend,hlength]
    · have hread : index + 1 ≤ elementsRead length found := by
        rw [elementsRead]
        split
        · omega
        · next hmissing => grind
      have hcount : index < limit.toNat / width.toNat := by
        cases found with
        | true => exact Nat.lt_of_le_of_lt hindex ((h.found rfl).2 _ rfl)
        | false =>
          have hend : limit.toNat / width.toNat = length := Option.some.inj (h.missing rfl)
          grind
      have hwithin : width.toNat * (index + 1) ≤ limit.toNat :=
        (Nat.mul_le_mul_left _ hcount).trans (Nat.mul_div_le _ _)
      rw [Nat.mul_add,Nat.mul_one] at hwithin
      rw [Nat.mod_eq_of_lt (by omega)] at hturn
      rw [if_pos (hturn.mpr hwithin),hoffset,
        rawMemIsZeroElement_eq hwidth ((Nat.mul_le_mul_left _ hread).trans hroom)]
      rcases Nat.lt_or_eq_of_le hindex with hless | rfl
      · rw [decide_eq_false (h.before index hless)]
        dsimp only
        apply ih (by omega : length < index + 1 + turns) hless
        · rw [hsum,Nat.mod_eq_of_lt (by omega),Nat.mul_add,Nat.mul_one]
        · have hnext : limit.toNat / width.toNat ≤ limit.toNat := Nat.div_le_self _ _
          rw [UInt64.toNat_add,hmeasured]
          exact Nat.mod_eq_of_lt (by change index + 1 < _; omega)
      · have hfound : found = true := by grind
        rw [decide_eq_true (h.found hfound).1,hlength,hfound]

theorem unboundedScan_eq (hsmall : bytes.length < 2 ^ 63) (hwidth : width ≠ 0)
    (h : MeasuredAt width.toNat none bytes length found) (hroom : width.toNat * elementsRead length found ≤ bytes.length)
    {turns index : ℕ} {measuredLength : UInt64} (hturns : length < index + turns) (hindex : index ≤ length)
    (hmeasured : measuredLength.toNat = index) :
    Raw.unboundedScan bytes width turns (width.toNat * index) measuredLength = .success (UInt64.ofNat length) found := by
  have hfound : found = true := by
    cases found with
    | true => rfl
    | false => exact absurd (h.missing rfl) nofun
  subst hfound
  have hpositive : 0 < width.toNat := by
    apply Nat.pos_of_ne_zero
    intro hzero
    exact hwidth (UInt64.toNat_inj.mp hzero)
  have hread : width.toNat * (length + 1) ≤ bytes.length := hroom
  have hlong : length + 1 ≤ bytes.length := (Nat.le_mul_of_pos_left _ hpositive).trans hread
  induction turns generalizing index measuredLength with
  | zero => omega
  | succ turns ih =>
    rw [Raw.unboundedScan,rawMemIsZeroElement_eq hwidth ((Nat.mul_le_mul_left _ (by omega)).trans hread)]
    rcases Nat.lt_or_eq_of_le hindex with hless | rfl
    · have hcounted : (measuredLength + 1).toNat = index + 1 := by
        rw [UInt64.toNat_add,hmeasured]
        exact Nat.mod_eq_of_lt (by change index + 1 < _; omega)
      have hnext := ih (by omega : length < index + 1 + turns) hless hcounted
      rw [decide_eq_false (h.before index hless)]
      rwa [Nat.mul_add,Nat.mul_one] at hnext
    · rw [decide_eq_true (h.found rfl).1,← hmeasured,UInt64.ofNat_toNat]

theorem findIdx?_measured {count : ℕ} (h : MeasuredAt 1 (some count) bytes length found) :
    (bytes.take count).findIdx? (· = 0) = if found then some length else none := by
  cases found with
  | true =>
    obtain ⟨hzero,hcount⟩ := h.found rfl
    have hless := hcount count rfl
    obtain ⟨hlength,hbyte⟩ := List.getElem?_eq_some_iff.mp (element_one.mp hzero)
    rw [if_pos rfl,List.findIdx?_eq_some_iff_getElem]
    refine ⟨by simp; omega,by simpa using hbyte,?_⟩
    intro index hindex
    have hbefore := mt element_one.mpr (h.before index hindex)
    rw [List.getElem?_eq_getElem (by omega)] at hbefore
    simpa using hbefore
  | false =>
    obtain rfl : count = length := Option.some.inj (h.missing rfl)
    rw [if_neg nofun,List.findIdx?_eq_none_iff]
    intro byte hbyte
    obtain ⟨index,hindex,rfl⟩ := List.mem_take_iff_getElem.mp hbyte
    have hbefore := mt element_one.mpr (h.before index (by omega))
    rw [List.getElem?_eq_getElem (by omega)] at hbefore
    simpa using hbefore

end

def limitElements (sourceLimitBytes singleElementSize : UInt64) (sourceLimitIsActive : Bool) : Option ℕ :=
  if sourceLimitIsActive then some (sourceLimitBytes.toNat / singleElementSize.toNat) else none

section
variable {bytes : List UInt8} {limit width : UInt64} {active : Bool} {length : ℕ} {found : Bool}

theorem elementScan_eq (hsmall : bytes.length < 2 ^ 63) (hwidth : width ≠ 0)
    (h : MeasuredAt width.toNat (limitElements limit width active) bytes length found)
    (hroom : width.toNat * elementsRead length found ≤ bytes.length) {turns : ℕ} (hturns : length < turns) :
    Raw.elementScan turns bytes limit width active = .success (UInt64.ofNat length) found := by
  cases active with
  | true => exact boundedScan_eq hsmall hwidth h hroom (by omega) (Nat.zero_le length) (Nat.mul_zero _).symm rfl
  | false => exact unboundedScan_eq hsmall hwidth h hroom (by omega) (Nat.zero_le length) rfl

theorem byteScan_eq (h : MeasuredAt 1 (limitElements limit 1 active) bytes length found)
    (hroom : 1 * elementsRead length found ≤ bytes.length) :
    Raw.byteScan bytes limit active = .success (UInt64.ofNat length) found := by
  have hsize : limit.toNat / (1 : UInt64).toNat = limit.toNat := Nat.div_one _
  cases active with
  | true =>
    rw [limitElements,if_pos rfl,hsize] at h
    rw [Raw.byteScan,if_pos rfl,Raw.memchr,findIdx?_measured h]
    cases found with
    | true => rfl
    | false =>
      obtain rfl : limit.toNat = length := Option.some.inj (h.missing rfl)
      have hread : limit.toNat ≤ bytes.length := by
        rwa [Nat.one_mul] at hroom
      simp [hread]
  | false =>
    have hfound : found = true := by
      cases found with
      | true => rfl
      | false => exact absurd (h.missing rfl) nofun
    subst hfound
    have hall : MeasuredAt 1 (some bytes.length) bytes length true := by
      refine ⟨h.before,fun _ => ⟨(h.found rfl).1,?_⟩,nofun⟩
      rintro count ⟨⟩
      rw [Nat.one_mul] at hroom
      exact hroom
    have hfind := findIdx?_measured hall
    rw [List.take_length] at hfind
    rw [Raw.byteScan,if_neg nofun,Raw.strlen,hfind]
    rfl

/-- The scan of the list of bytes finds the same length. -/
theorem memStringMeasureLength_measured (hwidth : width ≠ 0)
    (h : MeasuredAt width.toNat (limitElements limit width active) bytes length found)
    (hroom : width.toNat * elementsRead length found ≤ bytes.length) :
    memStringMeasureLength bytes (if active then some limit.toNat else none) width.toNat = some length := by
  have hne : width.toNat ≠ 0 := fun hzero => hwidth (UInt64.toNat_inj.mp hzero)
  cases active with
  | true =>
    rw [limitElements,if_pos rfl] at h
    rw [if_pos rfl,memStringMeasureLength_limit hne]
    congr 1
    cases found with
    | true =>
      obtain ⟨hzero,hcount⟩ := h.found rfl
      exact firstZero_eq (hcount _ rfl).le (fun _ => hzero) h.before
    | false =>
      have hcount := Option.some.inj (h.missing rfl)
      exact firstZero_eq hcount.ge (fun hless => absurd hless (by omega)) h.before
  | false =>
    rw [if_neg nofun,memStringMeasureLength_unlimited hne]
    congr 1
    cases found with
    | true =>
      have hlast : length + 1 ≤ bytes.length / width.toNat := by
        rw [Nat.le_div_iff_mul_le (Nat.pos_of_ne_zero hne),Nat.mul_comm]
        exact hroom
      exact firstZero_eq (Nat.le_of_succ_le hlast) (fun _ => (h.found rfl).1) h.before
    | false => exact absurd (h.missing rfl) nofun

theorem rawMemStringMeasureLength_measured {source : RawString} (hwidth : width ≠ 0)
    (h : MeasuredAt width.toNat (limitElements limit width active) source.bytes length found)
    (hroom : width.toNat * elementsRead length found ≤ source.bytes.length) {turns : ℕ} (hturns : length < turns) :
    Raw.memStringMeasureLength turns (some source) limit width active true = .success (UInt64.ofNat length) found := by
  rw [Raw.memStringMeasureLength,if_neg nofun,if_neg hwidth]
  split
  · next hone =>
    subst hone
    exact byteScan_eq h hroom
  · exact elementScan_eq source.small hwidth h hroom hturns

end

end Precizer.Libmem
