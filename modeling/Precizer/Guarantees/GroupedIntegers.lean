import Precizer.Rational.GroupedInteger

/-! # Grouped integers

An integer is written with its digits in groups of three, as long as the buffer holds the text
and its terminator; otherwise the buffer holds the empty string.
-/
namespace Precizer.Guarantees
open General Rational

/-- The text is returned if it fits together with its terminator. -/
structure GroupedExactly (value : ℤ) (result : Option (List UInt8)) (answer : FormAnswer) : Prop where
  renders : Renders (groupedText value) (result.getD []).length answer
  text : answer.text = if (groupedText value).length < (result.getD []).length then groupedText value else []
  value : (groupedText value).length < (result.getD []).length →
    parseInteger (answer.text.filter (· ≠ 44)) = some value

theorem groupedText_ne_zero (value : ℤ) : ∀ byte ∈ groupedText value, byte ≠ 0 := by
  intro byte hbyte
  rw [groupedText] at hbyte
  rcases List.mem_append.mp hbyte with hsign | hdigits
  · split at hsign
    · rw [List.mem_singleton.mp hsign]
      decide
    · cases hsign
  · exact groupThrees_ne_zero _ byte hdigits

theorem parseInteger_groupedText (value : ℤ) : parseInteger ((groupedText value).filter (· ≠ 44)) = some value := by
  have hdigits : (groupThrees (decimalText value.natAbs)).filter (· ≠ 44) = decimalText value.natAbs :=
    filter_groupThrees fun _ => isDigit_of_mem_decimalText
  have hparse := parseDecimal_decimalText value.natAbs
  rw [groupedText,List.filter_append,hdigits]
  by_cases hnegative : value < 0
  · rw [if_pos hnegative]
    have hminus : [(45 : UInt8)].filter (· ≠ 44) = [45] := by decide
    rw [hminus,List.singleton_append,parseInteger,hparse,Option.map_some]
    congr 1
    simp only [Int.ofNat_eq_natCast]
    omega
  · rw [if_neg hnegative,List.filter_nil,List.nil_append,parseInteger.eq_def]
    split
    · next rest hrest =>
      have hminus : IsDigit 45 := by
        apply isDigit_of_mem_decimalText (n := value.natAbs)
        rw [hrest]
        exact List.mem_cons_self
      exact absurd hminus (by decide)
    · rw [hparse,Option.map_some]
      congr 1
      simp only [Int.ofNat_eq_natCast]
      omega

theorem groupedExactly_of_renders {value : ℤ} {result : Option (List UInt8)} {answer : FormAnswer}
    (h : Renders (groupedText value) (result.getD []).length answer) : GroupedExactly value result answer := by
  have htext : answer.text = if (groupedText value).length < (result.getD []).length then groupedText value else [] := by
    by_cases hshort : (groupedText value).length < (result.getD []).length
    · obtain ⟨after,rfl⟩ := h.fits hshort
      have hall : ∀ byte ∈ groupedText value, decide (byte ≠ 0) = true := by
        intro byte hbyte
        simpa using groupedText_ne_zero value byte hbyte
      rw [if_pos hshort,FormAnswer.text,if_neg (by simp),List.takeWhile_append_of_pos hall]
      simp
    · rw [if_neg hshort]
      by_cases hsize : (result.getD []).length = 0
      · rw [h.nothing hsize]
        rfl
      · obtain ⟨after,rfl⟩ := h.empty (by omega) (by omega)
        rfl
  refine ⟨h,htext,?_⟩
  intro hshort
  rw [htext,if_pos hshort]
  exact parseInteger_groupedText value

/-- Every value of either type, with every buffer: no write leaves the buffer, and the text is
exact. -/
theorem grouped_integers_exact (result : Option (List UInt8)) :
    (∀ val : UInt64, ∃ answer, formUintmaxR val result = some answer ∧ GroupedExactly val.toNat result answer) ∧
    ∀ val : Int64, ∃ answer, formIntmaxR val result = some answer ∧ GroupedExactly val.toInt result answer := by
  constructor
  · intro val
    obtain ⟨answer,hanswer,hrenders⟩ := formUintmaxWithSignR_renders val false result
    have hsign : ¬(val.toNat : ℤ) < 0 := by omega
    refine ⟨answer,hanswer,groupedExactly_of_renders ?_⟩
    rw [groupedText,if_neg hsign,Int.natAbs_natCast]
    exact hrenders
  · intro val
    have hsign : (decide (val < 0) = true) = (val.toInt < 0) := by
      rw [decide_eq_true_eq,Int64.lt_iff_toInt_lt]
      rfl
    obtain ⟨answer,hanswer,hrenders⟩ := formUintmaxWithSignR_renders
      (if val < 0 then (-(val + 1)).toUInt64 + 1 else val.toUInt64) (decide (val < 0)) result
    refine ⟨answer,?_,groupedExactly_of_renders ?_⟩
    · rw [formIntmaxR]
      simpa using hanswer
    · rw [toNat_magnitude] at hrenders
      simp only [hsign] at hrenders
      exact hrenders

end Precizer.Guarantees
