import Precizer.Libmem.StringMeasure

/-! # Measured strings

The measurement of a string is a scan for its first zero element. It looks at no element behind
that one and at none outside the limit.
-/
namespace Precizer.Guarantees
open General Libmem

structure MeasuredExactly (source : RawString) (limit width : UInt64) (active : Bool) (length : UInt64) (found : Bool) :
    Prop where
  scan : MeasuredAt width.toNat (limitElements limit width active) source.bytes length.toNat found
  within : width.toNat * elementsRead length.toNat found ≤ source.bytes.length
  limited : active = true → width.toNat * elementsRead length.toNat found ≤ limit.toNat
  measured : ∀ turns, source.bytes.length < turns →
    Raw.memStringMeasureLength turns (some source) limit width active true = .success length found
  anyWidth : ∀ turns, source.bytes.length < turns →
    Raw.elementScan turns source.bytes limit width active = .success length found
  /-- Other bytes behind the elements that are looked at, or none, change nothing. -/
  reads : ∀ other : RawString, other.bytes.take (width.toNat * elementsRead length.toNat found) =
      source.bytes.take (width.toNat * elementsRead length.toNat found) →
    ∀ turns, other.bytes.length < turns →
      Raw.memStringMeasureLength turns (some other) limit width active true = .success length found
  list : memStringMeasureLength source.bytes (if active then some limit.toNat else none) width.toNat = some length.toNat

/-- Every string that a caller may pass is measured by its elements. -/
theorem string_measurement_exact (source : RawString) (limit width : UInt64) (active : Bool) (hwidth : width ≠ 0)
    (h : Readable width.toNat (limitElements limit width active) source.bytes) :
    ∃ length found, MeasuredExactly source limit width active length found := by
  have hne : width.toNat ≠ 0 := fun hzero => hwidth (UInt64.toNat_inj.mp hzero)
  obtain ⟨length,found,hmeasured,hroom⟩ := h.measured hne
  have hlength : ∀ bytes : List UInt8, width.toNat * elementsRead length found ≤ bytes.length → length ≤ bytes.length := by
    intro bytes hbytes
    have hread : length ≤ elementsRead length found := by
      rw [elementsRead]
      split <;> omega
    exact hread.trans ((Nat.le_mul_of_pos_left _ (Nat.pos_of_ne_zero hne)).trans hbytes)
  have hsmall := source.small
  have hfits : (UInt64.ofNat length).toNat = length := by
    have hle := hlength source.bytes hroom
    exact UInt64.toNat_ofNat_of_lt' (by change length < 2 ^ 64; omega)
  refine ⟨UInt64.ofNat length,found,?_⟩
  constructor
  · rwa [hfits]
  · rwa [hfits]
  · intro hactive
    rw [hfits]
    rw [limitElements,if_pos hactive] at hmeasured
    have hcount : elementsRead length found ≤ limit.toNat / width.toNat := by
      cases found with
      | true => exact (hmeasured.found rfl).2 _ rfl
      | false => exact (Option.some.inj (hmeasured.missing rfl)).ge
    exact (Nat.mul_le_mul_left _ hcount).trans (Nat.mul_div_le _ _)
  · intro turns hturns
    exact rawMemStringMeasureLength_measured hwidth hmeasured hroom ((hlength _ hroom).trans_lt hturns)
  · intro turns hturns
    exact elementScan_eq hsmall hwidth hmeasured hroom ((hlength _ hroom).trans_lt hturns)
  · intro other hsame turns hturns
    rw [hfits] at hsame
    obtain ⟨hother,hotherRoom⟩ := hmeasured.of_take hroom hsame
    exact rawMemStringMeasureLength_measured hwidth hother hotherRoom ((hlength _ hotherRoom).trans_lt hturns)
  · rw [hfits]
    exact memStringMeasureLength_measured hwidth hmeasured hroom

/-- Elements of two bytes, with two zero bytes across the first two of them. -/
theorem wide_string_measured : ∃ length found,
    MeasuredExactly ⟨[1,0,0,2,0,0],by decide⟩ 6 2 true length found :=
  string_measurement_exact ⟨[1,0,0,2,0,0],by decide⟩ 6 2 true (by decide) (.inl ⟨3,rfl,by decide⟩)

end Precizer.Guarantees
