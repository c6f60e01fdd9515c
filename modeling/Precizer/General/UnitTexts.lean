import Precizer.General.Decimal

/-! # Texts in several units

A number is split into counts of units of falling size, and written as the counts that are not
zero with the names of their units. The text spells the number.
-/
namespace Precizer.General

structure TextUnit where
  name : List UInt8
  size : ℕ
  deriving DecidableEq

/-- The count of each unit in what the units before it have left. -/
def splitUnits : List TextUnit → ℕ → List ℕ
  | [],_ => []
  | unit :: units,value => value / unit.size :: splitUnits units (value % unit.size)

def unitAmounts (units : List TextUnit) (counts : List ℕ) : List ℕ :=
  units.zipWith (fun unit count => count * unit.size) counts

/-- The counts that are not zero, each with the name of its unit. -/
def unitTokens : List TextUnit → List ℕ → List (List UInt8)
  | unit :: units,count :: counts =>
    if count = 0 then unitTokens units counts else (decimalText count ++ unit.name) :: unitTokens units counts
  | _,_ => []

/-- The tokens between spaces; zero is written in the smallest unit. -/
def unitsText (units : List TextUnit) (value : ℕ) : List UInt8 :=
  if value = 0 then decimalText 0 ++ (units.getLast?.map TextUnit.name).getD []
  else [32].intercalate (unitTokens units (splitUnits units value))

def readToken (units : List TextUnit) (token : List UInt8) : Option ℕ :=
  (units.find? fun unit => unit.name = token.dropWhile (IsDigit ·)).bind fun unit =>
    (parseDecimal (token.takeWhile (IsDigit ·))).map (· * unit.size)

def readUnits (units : List TextUnit) (text : List UInt8) : Option ℕ :=
  ((text.splitOn 32).mapM (readToken units)).map List.sum

/-- Units with different names, without digits and spaces in them, down to the unit of one. -/
structure UnitTable (units : List TextUnit) : Prop where
  names : (units.map TextUnit.name).Nodup
  plain : ∀ unit ∈ units, unit.name ≠ [] ∧ ∀ byte ∈ unit.name, ¬IsDigit byte ∧ byte ≠ 32
  smallest : units.getLast?.map TextUnit.size = some 1

/-- The amounts add up to the number. -/
theorem sum_unitAmounts {units : List TextUnit} (h : units.getLast?.map TextUnit.size = some 1) (value : ℕ) :
    (unitAmounts units (splitUnits units value)).sum = value := by
  induction units generalizing value with
  | nil => simp at h
  | cons unit units ih =>
    rw [splitUnits,unitAmounts,List.zipWith_cons_cons,List.sum_cons]
    cases units with
    | nil =>
      have hone : unit.size = 1 := by simpa using h
      simp [splitUnits,hone]
    | cons next units =>
      have hrest := ih (by simpa using h) (value % unit.size)
      rw [unitAmounts] at hrest
      rw [hrest,Nat.mul_comm]
      exact Nat.div_add_mod value unit.size

theorem unitAmounts_below {units : List TextUnit} (h : units.getLast?.map TextUnit.size = some 1)
    (hpositive : ∀ unit ∈ units, 0 < unit.size) (value : ℕ) {index : ℕ} {unit : TextUnit} (hunit : units[index]? = some unit) :
    ((unitAmounts units (splitUnits units value)).drop (index + 1)).sum < unit.size := by
  induction units generalizing value index with
  | nil => simp at hunit
  | cons first units ih =>
    rw [splitUnits,unitAmounts,List.zipWith_cons_cons,List.drop_succ_cons]
    cases units with
    | nil =>
      have hpos := hpositive unit (List.mem_of_getElem? hunit)
      simpa [splitUnits] using hpos
    | cons next units =>
      have hlast : (next :: units).getLast?.map TextUnit.size = some 1 := by simpa using h
      cases index with
      | zero =>
        obtain rfl : first = unit := by simpa using hunit
        have hsum := sum_unitAmounts hlast (value % first.size)
        rw [unitAmounts] at hsum
        rw [List.drop_zero,hsum]
        exact Nat.mod_lt _ (hpositive first List.mem_cons_self)
      | succ index =>
        exact ih hlast (fun other hother => hpositive other (List.mem_cons_of_mem first hother)) _ (by simpa using hunit)

theorem find_name {units : List TextUnit} (hnames : (units.map TextUnit.name).Nodup) {unit : TextUnit} (hunit : unit ∈ units) :
    (units.find? fun other => other.name = unit.name) = some unit := by
  induction units with
  | nil => cases hunit
  | cons first units ih =>
    rw [List.map_cons,List.nodup_cons] at hnames
    rcases List.mem_cons.mp hunit with rfl | hrest
    · simp
    · have hother : first.name ≠ unit.name := fun heq => hnames.1 (heq ▸ List.mem_map_of_mem hrest)
      rw [List.find?_cons_of_neg (by simpa using hother)]
      exact ih hnames.2 hrest

section
variable {units : List TextUnit} (h : UnitTable units)
include h

theorem readToken_token {unit : TextUnit} (hunit : unit ∈ units) (count : ℕ) :
    readToken units (decimalText count ++ unit.name) = some (count * unit.size) := by
  obtain ⟨hnonempty,hplain⟩ := h.plain unit hunit
  obtain ⟨first,name,hname⟩ := List.exists_cons_of_ne_nil hnonempty
  have hfirst : ¬IsDigit first := by
    apply (hplain first ?_).1
    rw [hname]
    exact List.mem_cons_self
  have hdigits : ∀ byte ∈ decimalText count, decide (IsDigit byte) = true := by
    intro byte hbyte
    simpa using isDigit_of_mem_decimalText hbyte
  have hdrop : (decimalText count ++ unit.name).dropWhile (IsDigit ·) = unit.name := by
    rw [List.dropWhile_append_of_pos hdigits,hname,List.dropWhile_cons_of_neg (by simpa using hfirst)]
  have htake : (decimalText count ++ unit.name).takeWhile (IsDigit ·) = decimalText count := by
    rw [List.takeWhile_append_of_pos hdigits,hname,List.takeWhile_cons_of_neg (by simpa using hfirst),List.append_nil]
  rw [readToken,hdrop,htake,find_name h.names hunit,Option.bind_some,parseDecimal_decimalText,Option.map_some]

theorem readToken_tokens {part : List TextUnit} (hpart : part ⊆ units) (counts : List ℕ) :
    ∃ amounts, (unitTokens part counts).mapM (readToken units) = some amounts ∧
      amounts.sum = (unitAmounts part counts).sum := by
  induction part generalizing counts with
  | nil => exact ⟨[],by cases counts <;> simp [unitTokens],by simp [unitAmounts]⟩
  | cons unit part ih =>
    cases counts with
    | nil => exact ⟨[],by simp [unitTokens],by simp [unitAmounts]⟩
    | cons count counts =>
      obtain ⟨amounts,hamounts,hsum⟩ := ih (fun other hother => hpart (List.mem_cons_of_mem unit hother)) counts
      rw [unitTokens,unitAmounts,List.zipWith_cons_cons,List.sum_cons]
      rw [unitAmounts] at hsum
      split
      · next hzero => exact ⟨amounts,hamounts,by rw [hsum,hzero]; simp⟩
      · refine ⟨count * unit.size :: amounts,?_,by rw [List.sum_cons,hsum]⟩
        simp [List.mapM_cons,readToken_token h (hpart List.mem_cons_self),hamounts]

theorem space_notMem_token {unit : TextUnit} (hunit : unit ∈ units) (count : ℕ) : 32 ∉ decimalText count ++ unit.name := by
  intro hspace
  rcases List.mem_append.mp hspace with hdigits | hname
  · exact absurd (isDigit_of_mem_decimalText hdigits) (by decide)
  · exact ((h.plain unit hunit).2 32 hname).2 rfl

omit h in
theorem mem_unitTokens {part : List TextUnit} (hpart : part ⊆ units) (counts : List ℕ) {token : List UInt8}
    (htoken : token ∈ unitTokens part counts) : ∃ unit ∈ units, ∃ count, token = decimalText count ++ unit.name := by
  induction part generalizing counts with
  | nil => cases counts <;> cases htoken
  | cons unit part ih =>
    cases counts with
    | nil => cases htoken
    | cons count counts =>
      have hrest := @ih (fun other hother => hpart (List.mem_cons_of_mem unit hother)) counts
      rw [unitTokens] at htoken
      split at htoken
      · exact hrest htoken
      · rcases List.mem_cons.mp htoken with rfl | hmem
        · exact ⟨unit,hpart List.mem_cons_self,count,rfl⟩
        · exact hrest hmem

theorem unitTokens_ne_nil {value : ℕ} (hvalue : value ≠ 0) : unitTokens units (splitUnits units value) ≠ [] := by
  intro hnil
  obtain ⟨amounts,hamounts,hsum⟩ := readToken_tokens h (List.Subset.refl units) (splitUnits units value)
  rw [hnil] at hamounts
  have hempty : amounts = [] := by simpa using hamounts.symm
  rw [sum_unitAmounts h.smallest,hempty] at hsum
  exact hvalue hsum.symm

/-- The text spells the number. -/
theorem readUnits_unitsText (value : ℕ) : readUnits units (unitsText units value) = some value := by
  rw [readUnits,unitsText]
  by_cases hzero : value = 0
  · obtain ⟨unit,hlast,hone⟩ := Option.map_eq_some_iff.mp h.smallest
    have hunit : unit ∈ units := List.mem_of_getLast? hlast
    have hsingle : ([32].intercalate [decimalText 0 ++ unit.name]).splitOn 32 = [decimalText 0 ++ unit.name] :=
      List.splitOn_intercalate 32 (fun token htoken => List.mem_singleton.mp htoken ▸ space_notMem_token h hunit 0)
        (List.cons_ne_nil _ _)
    rw [List.intercalate_singleton] at hsingle
    rw [if_pos hzero,hzero,hlast,Option.map_some,Option.getD_some,hsingle]
    simp [List.mapM_cons,readToken_token h hunit]
  · obtain ⟨amounts,hamounts,hsum⟩ := readToken_tokens h (List.Subset.refl units) (splitUnits units value)
    rw [sum_unitAmounts h.smallest] at hsum
    have hspaces : ∀ token ∈ unitTokens units (splitUnits units value), 32 ∉ token := by
      intro token htoken
      obtain ⟨unit,hunit,count,rfl⟩ := mem_unitTokens (List.Subset.refl units) _ htoken
      exact space_notMem_token h hunit count
    rw [if_neg hzero,List.splitOn_intercalate 32 hspaces (unitTokens_ne_nil h hzero),hamounts,Option.map_some,hsum]

end

end Precizer.General
