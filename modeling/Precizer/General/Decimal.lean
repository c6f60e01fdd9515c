import Mathlib.Tactic

/-! # Decimal texts

The decimal text of a number without leading zeros, the value a text spells, and the text with
its digits in groups of three counted from the right.
-/
namespace Precizer.General

/-- The digit of a number below ten. -/
def digitByte (d : ℕ) : UInt8 := UInt8.ofNat (48 + d)

def decimalText (n : ℕ) : List UInt8 :=
  if n < 10 then [digitByte n] else decimalText (n / 10) ++ [digitByte (n % 10)]
termination_by n
decreasing_by omega

def IsDigit (byte : UInt8) : Prop := 48 ≤ byte.toNat ∧ byte.toNat ≤ 57

instance : DecidablePred IsDigit := fun _ => inferInstanceAs (Decidable (_ ∧ _))

/-- The number spelled by digits. -/
def digitsValue (bytes : List UInt8) : ℕ := bytes.foldl (fun value byte => 10 * value + (byte.toNat - 48)) 0

/-- A number is a text of digits only. -/
def parseDecimal (bytes : List UInt8) : Option ℕ :=
  if bytes ≠ [] ∧ bytes.all (IsDigit ·) then some (digitsValue bytes) else none

/-- A number, or a number after a minus. -/
def parseInteger (bytes : List UInt8) : Option ℤ :=
  match bytes with
  | 45 :: digits => (parseDecimal digits).map fun n => -Int.ofNat n
  | digits => (parseDecimal digits).map Int.ofNat

/-- A comma wherever a positive multiple of three digits follows. -/
def groupThrees : List UInt8 → List UInt8
  | [] => []
  | digit :: digits =>
    if digits ≠ [] ∧ digits.length % 3 = 0 then digit :: 44 :: groupThrees digits else digit :: groupThrees digits

theorem toNat_digitByte {d : ℕ} (h : d < 10) : (digitByte d).toNat = 48 + d := by
  rw [digitByte,UInt8.toNat_ofNat']
  omega

theorem isDigit_digitByte {d : ℕ} (h : d < 10) : IsDigit (digitByte d) := by
  rw [IsDigit,toNat_digitByte h]
  omega

theorem decimalText_eq (n : ℕ) :
    decimalText n = (if 0 < n / 10 then decimalText (n / 10) else []) ++ [digitByte (n % 10)] := by
  rw [decimalText]
  by_cases hless : n < 10
  · rw [if_pos hless,if_neg (by omega),Nat.mod_eq_of_lt hless]
    rfl
  · rw [if_neg hless,if_pos (by omega)]

theorem decimalText_ne_nil (n : ℕ) : decimalText n ≠ [] := by
  rw [decimalText_eq]
  simp

theorem isDigit_of_mem_decimalText {n : ℕ} {byte : UInt8} (h : byte ∈ decimalText n) : IsDigit byte := by
  induction n using Nat.strong_induction_on with
  | _ n ih =>
    rw [decimalText_eq] at h
    rcases List.mem_append.mp h with hfront | hlast
    · split at hfront
      · next hmore => exact ih (n / 10) (by omega) hfront
      · cases hfront
    · rw [List.mem_singleton.mp hlast]
      exact isDigit_digitByte (Nat.mod_lt _ (by omega))

theorem digitsValue_append (bytes : List UInt8) (byte : UInt8) :
    digitsValue (bytes ++ [byte]) = 10 * digitsValue bytes + (byte.toNat - 48) := by
  simp [digitsValue]

theorem digitsValue_decimalText (n : ℕ) : digitsValue (decimalText n) = n := by
  induction n using Nat.strong_induction_on with
  | _ n ih =>
    rw [decimalText_eq,digitsValue_append,toNat_digitByte (Nat.mod_lt _ (by omega))]
    split
    · next hmore =>
      rw [ih (n / 10) (by omega)]
      omega
    · next hlast =>
      have hzero : digitsValue [] = 0 := rfl
      omega

theorem parseDecimal_decimalText (n : ℕ) : parseDecimal (decimalText n) = some n := by
  have hall : (decimalText n).all (IsDigit ·) = true :=
    List.all_eq_true.mpr fun byte hbyte => decide_eq_true (isDigit_of_mem_decimalText hbyte)
  rw [parseDecimal,if_pos ⟨decimalText_ne_nil n,hall⟩,digitsValue_decimalText]

/-- So many digits suffice for the numbers below a power of ten. -/
theorem length_decimalText_le {n k : ℕ} (hk : 0 < k) (h : n < 10 ^ k) : (decimalText n).length ≤ k := by
  induction k generalizing n with
  | zero => omega
  | succ k ih =>
    rw [decimalText_eq,List.length_append,List.length_singleton]
    split
    · next hmore =>
      have hk' : 0 < k := by
        by_contra hzero
        obtain rfl : k = 0 := by omega
        simp only [Nat.zero_add,pow_one] at h
        omega
      have hrest : n / 10 < 10 ^ k := by
        rw [Nat.div_lt_iff_lt_mul (by omega)]
        rwa [pow_succ] at h
      have hlength := ih hk' hrest
      omega
    · simp

/-- Without the commas the digits are back. -/
theorem filter_groupThrees {digits : List UInt8} (h : ∀ byte ∈ digits, IsDigit byte) :
    (groupThrees digits).filter (· ≠ 44) = digits := by
  induction digits with
  | nil => rfl
  | cons digit digits ih =>
    have hdigit : digit ≠ 44 := by
      intro hcomma
      have hrange := h digit List.mem_cons_self
      rw [hcomma] at hrange
      exact absurd hrange.1 (by decide)
    have hrest := ih fun byte hbyte => h byte (List.mem_cons_of_mem digit hbyte)
    rw [groupThrees]
    split <;> simpa [hdigit] using hrest

theorem groupThrees_append (front digits : List UInt8) :
    ∃ before, groupThrees (front ++ digits) = before ++ groupThrees digits ∧ front.length ≤ before.length := by
  induction front with
  | nil => exact ⟨[],rfl,le_rfl⟩
  | cons digit front ih =>
    obtain ⟨before,hbefore,hlength⟩ := ih
    rw [List.cons_append,groupThrees,hbefore]
    split
    · exact ⟨digit :: 44 :: before,rfl,by simp; omega⟩
    · exact ⟨digit :: before,rfl,by simp; omega⟩

theorem mem_groupThrees {digits : List UInt8} {byte : UInt8} (h : byte ∈ groupThrees digits) : byte ∈ digits ∨ byte = 44 := by
  induction digits with
  | nil => cases h
  | cons digit digits ih =>
    rw [groupThrees] at h
    split at h <;> simp only [List.mem_cons] at h ⊢ <;> tauto

end Precizer.General
