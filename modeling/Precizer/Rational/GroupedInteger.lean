import Precizer.General.Blocks
import Precizer.General.Decimal

/-! # Grouped integers

`form_uintmax_r` and `form_intmax_r` write their digits backwards from the end of the buffer and
move the text to its start. A write outside the buffer is undefined.
-/
namespace Precizer.Rational
open General

/-- What a formatter returns: the buffer it was given, or the constant empty string. -/
structure FormAnswer where
  literal : Bool
  buffer : List UInt8
  deriving DecidableEq

/-- The C string that is returned. -/
def FormAnswer.text (answer : FormAnswer) : List UInt8 := if answer.literal then [] else answer.buffer.takeWhile (· ≠ 0)

def formWriteEmpty (result : List UInt8) : Option FormAnswer :=
  if result = [] then some ⟨true,result⟩ else (write? result 0 [0]).map fun result => ⟨false,result⟩

/-- How the digit loop ends: with a write outside, without room, or at the position it has reached. -/
inductive FormEnd
  | outside
  | noRoom (result : List UInt8)
  | stopped (result : List UInt8) (write : ℕ)
  deriving DecidableEq

/-- The loop from a position of the buffer, with so many digits in the present group. -/
def formDigits (val : ℕ) (result : List UInt8) (write group : ℕ) : FormEnd :=
  if write = 0 then .noRoom result
  else
    let separated := if group = 3 then write? result (write - 1) [44] else some result
    let next := if group = 3 then write - 1 else write
    let inGroup := if group = 3 then 0 else group
    match separated with
    | none => .outside
    | some result =>
      if next = 0 then .noRoom result
      else
        match write? result (next - 1) [digitByte (val % 10)] with
        | none => .outside
        | some result =>
          if 0 < val / 10 then formDigits (val / 10) result (next - 1) (inGroup + 1) else .stopped result (next - 1)
termination_by val
decreasing_by omega

/-- `memmove` to the start of the buffer. -/
def formMove (result : List UInt8) (write : ℕ) : Option FormAnswer :=
  if write = 0 then some ⟨false,result⟩
  else (move? result 0 write (result.length - write)).map fun result => ⟨false,result⟩

/-- Without a buffer the argument is `NULL`. -/
def formUintmaxWithSignR (val : UInt64) (negative : Bool) (result : Option (List UInt8)) : Option FormAnswer :=
  match result with
  | none => some ⟨true,[]⟩
  | some result =>
    if result = [] then some ⟨true,result⟩
    else
      (write? result (result.length - 1) [0]).bind fun terminated =>
        match formDigits val.toNat terminated (result.length - 1) 0 with
        | .outside => none
        | .noRoom result => formWriteEmpty result
        | .stopped result write =>
          if negative then
            if write = 0 then formWriteEmpty result
            else (write? result (write - 1) [45]).bind fun result => formMove result (write - 1)
          else formMove result write

def formUintmaxR (val : UInt64) (result : Option (List UInt8)) : Option FormAnswer :=
  formUintmaxWithSignR val false result

def formIntmaxR (val : Int64) (result : Option (List UInt8)) : Option FormAnswer :=
  let negative := val < 0
  let magnitude := if negative then (-(val + 1)).toUInt64 + 1 else val.toUInt64
  formUintmaxWithSignR magnitude negative result

section
variable (front : List UInt8)

/-- The digits of the present group behind the text that is written. -/
def digitsInGroup (digits : List UInt8) : ℕ := if digits = [] then 0 else (digits.length - 1) % 3 + 1

theorem digitsInGroup_eq_three {digits : List UInt8} :
    digitsInGroup digits = 3 ↔ digits ≠ [] ∧ digits.length % 3 = 0 := by
  rw [digitsInGroup]
  by_cases hempty : digits = []
  · simp [hempty]
  · have hpos := List.length_pos_iff.mpr hempty
    rw [if_neg hempty]
    constructor
    · intro h
      exact ⟨hempty,by omega⟩
    · rintro ⟨-,h⟩
      omega

theorem digitsInGroup_cons (digit : UInt8) (digits : List UInt8) :
    digitsInGroup (digit :: digits) = (if digitsInGroup digits = 3 then 0 else digitsInGroup digits) + 1 := by
  by_cases hempty : digits = []
  · simp [digitsInGroup,hempty]
  · have hpos := List.length_pos_iff.mpr hempty
    simp only [digitsInGroup,if_neg hempty,if_neg (List.cons_ne_nil digit digits),List.length_cons,Nat.add_sub_cancel]
    split <;> omega

theorem write?_before (byte old : UInt8) (after : List UInt8) :
    write? (front ++ old :: after) front.length [byte] = some (front ++ byte :: after) := by
  have hwrite : write? (front ++ old :: after) front.length [byte] = some (front ++ [byte] ++ (old :: after).drop 1) :=
    write?_append (by simp)
  simpa using hwrite

theorem formDigits_turn (val : ℕ) (digits : List UInt8) :
    (∃ rest, rest.length + (groupThrees (digitByte (val % 10) :: digits)).length =
        front.length + (groupThrees digits).length ∧
      formDigits val (front ++ groupThrees digits ++ [0]) front.length (digitsInGroup digits) =
        if 0 < val / 10 then
          formDigits (val / 10) (rest ++ groupThrees (digitByte (val % 10) :: digits) ++ [0]) rest.length
            (digitsInGroup (digitByte (val % 10) :: digits))
        else .stopped (rest ++ groupThrees (digitByte (val % 10) :: digits) ++ [0]) rest.length) ∨
    front.length + (groupThrees digits).length < (groupThrees (digitByte (val % 10) :: digits)).length ∧
      ∃ result, result.length = front.length + (groupThrees digits).length + 1 ∧
        formDigits val (front ++ groupThrees digits ++ [0]) front.length (digitsInGroup digits) = .noRoom result := by
  rcases List.eq_nil_or_concat front with rfl | ⟨before,last,rfl⟩
  · refine .inr ⟨?_,groupThrees digits ++ [0],by simp,?_⟩
    · rw [groupThrees]
      split <;> simp
    · rw [formDigits,if_pos (by simp)]
      simp
  rw [List.concat_eq_append]
  have hlength : (before ++ [last]).length = before.length + 1 := by simp
  have hlist : before ++ [last] ++ groupThrees digits ++ [0] = before ++ last :: (groupThrees digits ++ [0]) := by simp
  rw [hlength,hlist,digitsInGroup_cons,formDigits,if_neg (Nat.succ_ne_zero _)]
  by_cases hgroup : digitsInGroup digits = 3
  · have hgrouped : groupThrees (digitByte (val % 10) :: digits) = digitByte (val % 10) :: 44 :: groupThrees digits := by
      rw [groupThrees,if_pos (digitsInGroup_eq_three.mp hgroup)]
    rw [hgrouped]
    simp only [if_pos hgroup,Nat.add_sub_cancel,write?_before]
    rcases List.eq_nil_or_concat before with rfl | ⟨rest,old,rfl⟩
    · refine .inr ⟨by simp; omega,44 :: (groupThrees digits ++ [0]),?_,?_⟩
      · simp
        omega
      · rw [List.length_nil,if_pos rfl]
        rfl
    · rw [List.concat_eq_append]
      have hrest : (rest ++ [old]).length = rest.length + 1 := by simp
      have hcomma : rest ++ [old] ++ 44 :: (groupThrees digits ++ [0]) =
          rest ++ old :: 44 :: (groupThrees digits ++ [0]) := by simp
      refine .inl ⟨rest,by simp; omega,?_⟩
      rw [hrest,hcomma,if_neg (Nat.succ_ne_zero _),Nat.add_sub_cancel,write?_before]
      simp
  · have hgrouped : groupThrees (digitByte (val % 10) :: digits) = digitByte (val % 10) :: groupThrees digits := by
      rw [groupThrees,if_neg (fun h => hgroup (digitsInGroup_eq_three.mpr h))]
    rw [hgrouped]
    refine .inl ⟨before,by simp; omega,?_⟩
    simp only [if_neg hgroup,if_neg (Nat.succ_ne_zero _),Nat.add_sub_cancel,write?_before]
    simp

theorem formDigits_cases (val : ℕ) (digits : List UInt8) :
    (∃ rest, rest.length + (groupThrees (decimalText val ++ digits)).length = front.length + (groupThrees digits).length ∧
      formDigits val (front ++ groupThrees digits ++ [0]) front.length (digitsInGroup digits) =
        .stopped (rest ++ groupThrees (decimalText val ++ digits) ++ [0]) rest.length) ∨
    front.length + (groupThrees digits).length < (groupThrees (decimalText val ++ digits)).length ∧
      ∃ result, result.length = front.length + (groupThrees digits).length + 1 ∧
        formDigits val (front ++ groupThrees digits ++ [0]) front.length (digitsInGroup digits) = .noRoom result := by
  induction val using Nat.strong_induction_on generalizing front digits with
  | _ val ih =>
    have hsplit : decimalText val ++ digits =
        (if 0 < val / 10 then decimalText (val / 10) else []) ++ digitByte (val % 10) :: digits := by
      rw [decimalText_eq,List.append_assoc,List.singleton_append]
    obtain ⟨more,hmore,-⟩ := groupThrees_append (if 0 < val / 10 then decimalText (val / 10) else [])
      (digitByte (val % 10) :: digits)
    rcases formDigits_turn front val digits with ⟨rest,hrest,hturn⟩ | ⟨hfull,result,hresult,hturn⟩
    · rw [hturn,hsplit]
      by_cases hnext : 0 < val / 10
      · rw [if_pos hnext,if_pos hnext,← hrest]
        exact ih (val / 10) (by omega) rest (digitByte (val % 10) :: digits)
      · rw [if_neg hnext,if_neg hnext,List.nil_append]
        exact .inl ⟨rest,hrest,rfl⟩
    · refine .inr ⟨?_,result,hresult,hturn⟩
      rw [hsplit,hmore,List.length_append]
      omega

end

theorem formMove_text (rest text : List UInt8) :
    ∃ after, after.length = rest.length ∧
      formMove (rest ++ text ++ [0]) rest.length = some ⟨false,text ++ 0 :: after⟩ := by
  rw [formMove]
  by_cases hempty : rest.length = 0
  · obtain rfl := List.length_eq_zero_iff.mp hempty
    exact ⟨[],rfl,by simp⟩
  · have hmove : move? ([] ++ rest ++ (text ++ [0]) ++ []) ([] : List UInt8).length
        (([] : List UInt8).length + rest.length) (text ++ [0]).length =
          some ([] ++ (text ++ [0]) ++ (rest ++ (text ++ [0]) ++ []).drop (text ++ [0]).length) := move?_append
    have hcount : (rest ++ text ++ [0]).length - rest.length = (text ++ [0]).length := by
      simp
    rw [if_neg hempty,hcount]
    simp only [List.nil_append,List.append_nil,List.length_nil,Nat.zero_add] at hmove
    refine ⟨(rest ++ (text ++ [0])).drop (text ++ [0]).length,by simp,?_⟩
    rw [List.append_assoc,hmove]
    simp

theorem formWriteEmpty_buffer {result : List UInt8} (h : result ≠ []) :
    ∃ after, after.length + 1 = result.length ∧ formWriteEmpty result = some ⟨false,0 :: after⟩ := by
  obtain ⟨first,after,rfl⟩ := List.exists_cons_of_ne_nil h
  refine ⟨after,rfl,?_⟩
  have hwrite := write?_before [] 0 first after
  simp only [List.nil_append,List.length_nil] at hwrite
  rw [formWriteEmpty,if_neg h,hwrite]
  rfl

/-- The magnitude of a signed value, the least one included. -/
theorem toNat_magnitude (val : Int64) :
    (if val < 0 then (-(val + 1)).toUInt64 + 1 else val.toUInt64).toNat = val.toInt.natAbs := by
  have hbits : val.toInt = if 2 * val.toUInt64.toNat < 2 ^ 64 then (val.toUInt64.toNat : ℤ)
      else (val.toUInt64.toNat : ℤ) - (2 ^ 64 : ℕ) := BitVec.toInt_eq_toNat_cond val.toBitVec
  have hrange := val.toUInt64.toNat_lt
  have hneg : val < 0 ↔ val.toInt < 0 := by
    rw [Int64.lt_iff_toInt_lt]
    rfl
  have hone : (Int64.toUInt64 1).toNat = 1 := rfl
  have hone' : (1 : UInt64).toNat = 1 := rfl
  simp only [hneg]
  split
  · rw [Int64.toUInt64_neg,Int64.toUInt64_add,UInt64.toNat_add,UInt64.toNat_neg,UInt64.toNat_add]
    simp only [UInt64.size]
    rw [hone,hone']
    split at hbits <;> omega
  · split at hbits <;> omega

/-- The text of an integer: a minus for a negative one, then its digits in groups. -/
def groupedText (value : ℤ) : List UInt8 :=
  (if value < 0 then [45] else []) ++ groupThrees (decimalText value.natAbs)

/-- What a formatter makes of a buffer: the text with its terminator, or the empty string. -/
structure Renders (text : List UInt8) (size : ℕ) (answer : FormAnswer) : Prop where
  kept : answer.buffer.length = size
  fits : text.length < size → ∃ after, answer = ⟨false,text ++ 0 :: after⟩
  empty : 0 < size → size ≤ text.length → ∃ after, answer = ⟨false,0 :: after⟩
  nothing : size = 0 → answer = ⟨true,[]⟩

theorem renders_text {text after : List UInt8} {size : ℕ} (h : text.length + after.length + 1 = size) :
    Renders text size ⟨false,text ++ 0 :: after⟩ := by
  refine ⟨?_,fun _ => ⟨after,rfl⟩,?_,?_⟩
  · simp
    omega
  · intro _ hlong
    omega
  · intro hzero
    omega

theorem renders_empty {text after : List UInt8} {size : ℕ} (h : after.length + 1 = size) (hlong : size ≤ text.length) :
    Renders text size ⟨false,0 :: after⟩ := by
  refine ⟨h,?_,fun _ _ => ⟨after,rfl⟩,?_⟩
  · intro hshort
    omega
  · intro hzero
    omega

theorem renders_nothing (text : List UInt8) : Renders text 0 ⟨true,[]⟩ :=
  ⟨rfl,fun h => absurd h (Nat.not_lt_zero _),fun h => absurd h (lt_irrefl 0),fun _ => rfl⟩

theorem groupThrees_ne_zero (n : ℕ) : ∀ byte ∈ groupThrees (decimalText n), byte ≠ 0 := by
  intro byte hbyte hzero
  rcases mem_groupThrees hbyte with hdigit | hcomma
  · have hrange := (isDigit_of_mem_decimalText hdigit).1
    rw [hzero] at hrange
    exact absurd hrange (by decide)
  · rw [hzero] at hcomma
    exact absurd hcomma (by decide)

/-- The digits and the sign are written from the right, and then moved. -/
theorem formUintmaxWithSignR_renders (val : UInt64) (negative : Bool) (result : Option (List UInt8)) :
    ∃ answer, formUintmaxWithSignR val negative result = some answer ∧
      Renders ((if negative then [45] else []) ++ groupThrees (decimalText val.toNat)) (result.getD []).length answer := by
  cases result with
  | none => exact ⟨_,rfl,renders_nothing _⟩
  | some result =>
    rcases List.eq_nil_or_concat result with rfl | ⟨front,last,rfl⟩
    · exact ⟨_,rfl,renders_nothing _⟩
    have hlength : (front ++ [last]).length - 1 = front.length := by simp
    have hsize : (front ++ [last]).length = front.length + 1 := by simp
    rw [List.concat_eq_append,Option.getD_some,formUintmaxWithSignR,if_neg (by simp),hlength,
      write?_before front 0 last [],Option.bind_some,hsize]
    have hcases := formDigits_cases front val.toNat []
    have hstart : digitsInGroup [] = 0 := rfl
    simp only [groupThrees,List.append_nil,List.length_nil,Nat.add_zero,hstart] at hcases
    generalize groupThrees (decimalText val.toNat) = digits at hcases
    rcases hcases with ⟨rest,hrest,hstopped⟩ | ⟨hfull,left,hleft,hnoRoom⟩
    · rw [hstopped]
      cases negative with
      | false =>
        obtain ⟨after,hafter,hmove⟩ := formMove_text rest digits
        exact ⟨_,hmove,renders_text (by simp; omega)⟩
      | true =>
        rcases List.eq_nil_or_concat rest with rfl | ⟨before,old,rfl⟩
        · have hne : [] ++ digits ++ [(0 : UInt8)] ≠ [] := by simp
          obtain ⟨after,hafter,hempty⟩ := formWriteEmpty_buffer hne
          simp only [List.nil_append,List.length_append,List.length_nil,List.length_singleton] at hafter hrest
          exact ⟨_,hempty,renders_empty (by omega) (by simp; omega)⟩
        · have hbefore : (before ++ [old]).length = before.length + 1 := by simp
          have hold : before ++ [old] ++ digits ++ [0] = before ++ old :: (digits ++ [0]) := by simp
          have hminus : before ++ 45 :: (digits ++ [0]) = before ++ (45 :: digits) ++ [0] := by simp
          obtain ⟨after,hafter,hmove⟩ := formMove_text before (45 :: digits)
          rw [List.concat_eq_append,hbefore] at hrest ⊢
          dsimp only
          rw [if_pos rfl,if_neg (Nat.succ_ne_zero _),Nat.add_sub_cancel,hold,write?_before,Option.bind_some,hminus,hmove]
          exact ⟨_,rfl,renders_text (by simp; omega)⟩
    · have hne : left ≠ [] := by
        rintro rfl
        simp at hleft
      obtain ⟨after,hafter,hempty⟩ := formWriteEmpty_buffer hne
      rw [hnoRoom]
      exact ⟨_,hempty,renders_empty (by omega) (by simp; omega)⟩

end Precizer.Rational
