import Precizer.Rational.UnitBuffers

/-! # Rendered durations and sizes

The text of a duration or of a size spells the number. A buffer that is too small holds a
terminated beginning of it, and 50 bytes are enough for every duration.
-/
namespace Precizer.Guarantees
open General Rational Logger

/-- How a number is split into units and written to buffers. -/
structure Lossless (units : List TextUnit) (split : ℤ → Option (List ℤ))
    (render : ℤ → ByteFormat → Option (List UInt8) → Option (Option (List UInt8))) (value : ℕ) : Prop where
  split : split value = some ((splitUnits units value).map Int.ofNat)
  total : (unitAmounts units (splitUnits units value)).sum = value
  descending : (units.map TextUnit.size).Pairwise (· > ·)
  below : ∀ (index : ℕ) (unit : TextUnit), units[index]? = some unit →
    ((unitAmounts units (splitUnits units value)).drop (index + 1)).sum < unit.size
  reads : readUnits units (shownText .fullView units value) = some value
  unterminated : ∀ format, 0 ∉ shownText format units value
  fills : ∀ format, Fills (shownText format units value) (render value format)

theorem mem_trailing {tokens : List (List UInt8)} {byte : UInt8} (h : byte ∈ trailing tokens) :
    byte = 32 ∨ ∃ token ∈ tokens, byte ∈ token := by
  obtain ⟨line,hline,hbyte⟩ := List.mem_flatten.mp h
  obtain ⟨token,htoken,rfl⟩ := List.mem_map.mp hline
  rcases List.mem_append.mp hbyte with hmem | hspace
  · exact .inr ⟨token,htoken,hmem⟩
  · exact .inl (List.mem_singleton.mp hspace)

section
variable {units : List TextUnit} (htable : UnitTable units)
include htable

theorem trailing_shownTokens {value : ℕ} (hvalue : value ≠ 0) (format : ByteFormat) :
    trailing (shownTokens format units value) = shownText format units value ++ [32] := by
  rw [shownText,if_neg hvalue]
  exact (trailing_eq (shownTokens_ne_nil htable hvalue format) fun token htoken => mem_shownTokens htable htoken).1

theorem shownText_ne_zero (hnames : ∀ unit ∈ units, (0 : UInt8) ∉ unit.name) (format : ByteFormat) (value : ℕ) :
    0 ∉ shownText format units value := by
  have htoken : ∀ unit ∈ units, ∀ count, (0 : UInt8) ∉ decimalText count ++ unit.name := by
    intro unit hunit count hmem
    rcases List.mem_append.mp hmem with hdigit | hname
    · exact absurd (isDigit_of_mem_decimalText hdigit) (by decide)
    · exact hnames unit hunit hname
  intro hmem
  by_cases hzero : value = 0
  · obtain ⟨unit,hlast,-⟩ := Option.map_eq_some_iff.mp htable.smallest
    rw [shownText,if_pos hzero,hlast] at hmem
    exact htoken unit (List.mem_of_getLast? hlast) 0 hmem
  · have htrailing : (0 : UInt8) ∈ trailing (shownTokens format units value) := by
      rw [trailing_shownTokens htable hzero]
      exact List.mem_append_left _ hmem
    rcases mem_trailing htrailing with hspace | ⟨token,hshown,hbyte⟩
    · exact absurd hspace (by decide)
    · have hall : token ∈ unitTokens units (splitUnits units value) := by
        cases format with
        | fullView => exact hshown
        | majorView => exact List.mem_of_mem_take hshown
      obtain ⟨unit,hunit,count,rfl⟩ := mem_unitTokens (List.Subset.refl units) _ hall
      exact htoken unit hunit count hbyte

theorem lossless_of_rule {append : Filled → ℤ → List UInt8 → Option Filled} {Holds : ℕ → List UInt8 → Filled → Prop}
    (rule : AppendRule append Holds) (hdescending : (units.map TextUnit.size).Pairwise (· > ·))
    (hpositive : ∀ unit ∈ units, 0 < unit.size) (hnames : ∀ unit ∈ units, (0 : UInt8) ∉ unit.name)
    {fits : ℤ → Option ℤ} {value : ℕ} (hfits : ∀ n : ℕ, n ≤ value → fits n = some (n : ℤ))
    {zeroText : List UInt8} (hzeroText : zeroText = decimalText 0 ++ (units.getLast?.map TextUnit.name).getD []) :
    Lossless units (fun total => splitChecked fits total (divisors units) [])
      (formUnits zeroText (fun total => splitChecked fits total (divisors units) []) units append) value := by
  have hsplit : splitChecked fits value (divisors units) [] = some ((splitUnits units value).map Int.ofNat) :=
    splitChecked_eq hfits htable.smallest [] (by simp)
  constructor
  · exact hsplit
  · exact sum_unitAmounts htable.smallest value
  · exact hdescending
  · intro index unit hunit
    exact unitAmounts_below htable.smallest hpositive value hunit
  · exact readUnits_unitsText htable value
  · intro format
    exact shownText_ne_zero htable hnames format value
  · exact rule.formUnits_fills htable hsplit hzeroText

end

/-- The digits that are enough for each count, the number below a bound. -/
def WidthsFit : ℕ → List TextUnit → List ℕ → Prop
  | bound,unit :: units,width :: widths =>
    0 < width ∧ 0 < unit.size ∧ bound ≤ unit.size * 10 ^ width ∧ WidthsFit unit.size units widths
  | _,units,widths => units = [] ∧ widths = []

theorem length_trailing_le {units : List TextUnit} {widths : List ℕ} {bound value : ℕ} (hvalue : value < bound)
    (hwidths : WidthsFit bound units widths) :
    (trailing (unitTokens units (splitUnits units value))).length ≤
      (units.zipWith (fun unit width => width + unit.name.length + 1) widths).sum := by
  induction units generalizing widths bound value with
  | nil => simp [unitTokens,trailing]
  | cons unit units ih =>
    cases widths with
    | nil => exact absurd hwidths.1 (List.cons_ne_nil unit units)
    | cons width widths =>
      obtain ⟨hwidth,hsize,hbound,hrest⟩ := hwidths
      have hcount : value / unit.size < 10 ^ width := Nat.div_lt_of_lt_mul (by omega)
      have hdigits := length_decimalText_le hwidth hcount
      have hnext := ih (Nat.mod_lt value hsize) hrest
      rw [splitUnits,unitTokens,List.zipWith_cons_cons,List.sum_cons]
      split
      · omega
      · simp only [trailing,List.map_cons,List.flatten_cons,List.length_append,List.length_singleton] at hnext ⊢
        omega

theorem durationUnits_table : UnitTable durationUnits :=
  ⟨by decide,by decide +kernel,by decide⟩

theorem byteUnits_table : UnitTable byteUnits :=
  ⟨by decide,by decide +kernel,by decide⟩

theorem length_duration_lt {value : ℕ} (hvalue : value < 2 ^ 63) (format : ByteFormat) :
    (shownText format durationUnits value).length < 50 := by
  by_cases hzero : value = 0
  · have htext : shownText format durationUnits value = decimalText 0 ++ ascii "ns" := by
      rw [shownText,if_pos hzero]
      rfl
    rw [htext]
    decide +kernel
  · have hwidths : WidthsFit (2 ^ 63) durationUnits [3,2,1,1,2,2,2,3,3,3] := by
      simp [WidthsFit,durationUnits]
    have hall := length_trailing_le hvalue hwidths
    have hsum : (durationUnits.zipWith (fun unit width => width + unit.name.length + 1) [3,2,1,1,2,2,2,3,3,3]).sum = 50 := by
      decide
    have hshown : (trailing (shownTokens format durationUnits value)).length ≤
        (trailing (unitTokens durationUnits (splitUnits durationUnits value))).length := by
      cases format with
      | fullView => exact le_rfl
      | majorView =>
        rw [shownTokens,trailing,trailing]
        exact ((List.take_sublist 1 _).map _).flatten.length_le
    have htext := congrArg List.length (trailing_shownTokens durationUnits_table hzero format)
    rw [List.length_append,List.length_singleton] at htext
    omega

/-- The texts of all durations and sizes spell them, and the 50 bytes for a duration are always enough. -/
theorem rendered_units_lossless :
    (∀ nanoseconds : Int64, 0 ≤ nanoseconds.toInt →
      Lossless durationUnits asadate formDateR nanoseconds.toInt.toNat ∧
        ∀ (format : ByteFormat) (buffer : List UInt8), buffer.length = 50 →
          ∃ after, formDateR nanoseconds.toInt format (some buffer) =
            some (some (shownText format durationUnits nanoseconds.toInt.toNat ++ 0 :: after))) ∧
      ∀ bytes : UInt64, Lossless byteUnits tobyte bkbmbgbtbpbebR bytes.toNat := by
  constructor
  · intro nanoseconds hnonneg
    have hbound := nanoseconds.toInt_lt
    have hvalue : (nanoseconds.toInt.toNat : ℤ) = nanoseconds.toInt := Int.toNat_of_nonneg hnonneg
    have hlossless : Lossless durationUnits asadate formDateR nanoseconds.toInt.toNat := by
      apply lossless_of_rule durationUnits_table catdateR_rule (by decide) (by decide) (by decide) _ (by decide +kernel)
      intro n hn
      exact if_pos (by omega)
    refine ⟨hlossless,?_⟩
    intro format buffer hbuffer
    have hne : buffer ≠ [] := by
      rintro rfl
      simp at hbuffer
    obtain ⟨written,after,hrender,-,-,hwhole⟩ := (hlossless.fills format).fills buffer hne
    have hshort := length_duration_lt (by omega : nanoseconds.toInt.toNat < 2 ^ 63) format
    rw [hwhole (by omega),hvalue] at hrender
    exact ⟨after,hrender⟩
  · intro bytes
    have hbound := bytes.toNat_lt
    apply lossless_of_rule byteUnits_table catbyteR_rule (by decide) (by decide) (by decide) _ (by decide +kernel)
    intro n hn
    exact if_pos (by omega)

theorem rendered_hour : Lossless durationUnits asadate formDateR 3600000000000 :=
  (rendered_units_lossless.1 3600000000000 (by decide)).1

end Precizer.Guarantees
