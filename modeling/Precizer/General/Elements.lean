import Mathlib.Tactic
import Precizer.General.Blocks

/-! # Elements of a block

A block is read as elements of one width. A text in it ends before the first element that
consists of zeros only.
-/
namespace Precizer.General

variable {α : Type*}

def element (width : ℕ) (bytes : List α) (index : ℕ) : List α := (bytes.drop (width * index)).take width

theorem element_zero (width : ℕ) (bytes : List α) : element width bytes 0 = bytes.take width := by
  simp [element]

theorem element_succ (width index : ℕ) (bytes : List α) :
    element width bytes (index + 1) = element width (bytes.drop width) index := by
  simp [element,List.drop_drop,Nat.mul_add,Nat.add_comm]

theorem element_drop (width index : ℕ) (bytes : List α) (first : ℕ) :
    element width (bytes.drop (width * first)) index = element width bytes (first + index) := by
  simp [element,List.drop_drop,Nat.mul_add]

theorem element_take {width index n : ℕ} {bytes : List α} (h : width * (index + 1) ≤ n) :
    element width (bytes.take n) index = element width bytes index := by
  have hwidth : min width (n - width * index) = width := by
    rw [Nat.mul_add] at h
    omega
  rw [element,List.drop_take,List.take_take,hwidth,element]

theorem element_flatten {width : ℕ} {rows : List (List α)} (hrows : ∀ row ∈ rows, row.length = width) {index : ℕ}
    (h : index < rows.length) : element width rows.flatten index = rows[index] := by
  induction rows generalizing index with
  | nil => simp at h
  | cons row rows ih =>
    have hrow := hrows row List.mem_cons_self
    cases index with
    | zero =>
      rw [element_zero,List.flatten_cons,List.take_left' hrow]
      rfl
    | succ index =>
      rw [element_succ,List.flatten_cons,List.drop_left' hrow,
        ih (fun other hother => hrows other (List.mem_cons_of_mem row hother)) (by simpa using h)]
      rfl

theorem element_overwrite_self {width index : ℕ} {bytes written : List α} (hwritten : written.length = width)
    (h : width * index ≤ bytes.length) : element width (overwrite bytes (width * index) written) index = written := by
  have hwindow : ((overwrite bytes (width * index) written).drop (width * index)).take written.length = written :=
    window_overwrite h
  rwa [hwritten] at hwindow

theorem element_overwrite_of_ne {width index other : ℕ} {bytes written : List α} (hwritten : written.length = width)
    (h : width * (index + 1) ≤ bytes.length) (hne : other ≠ index) :
    element width (overwrite bytes (width * index) written) other = element width bytes other := by
  have hnext : width * (index + 1) = width * index + width := by ring
  rcases Nat.lt_or_gt_of_ne hne with hless | hmore
  · have hbefore : width * (other + 1) ≤ width * index := Nat.mul_le_mul_left _ hless
    rw [← element_take hbefore,take_overwrite_of_le (by omega) le_rfl,element_take hbefore]
  · have hafter : width * (index + 1) ≤ width * other := Nat.mul_le_mul_left _ hmore
    rw [element,drop_overwrite (by omega) (by omega),element]

theorem element_overwrite_front {width count : ℕ} {bytes written : List α} (hwritten : written.length = width * count)
    (h : written.length ≤ bytes.length) (index : ℕ) :
    element width (overwrite bytes 0 written) index =
      if index < count then element width written index else element width bytes index := by
  split
  · next hless =>
    have hend : width * (index + 1) ≤ width * count := Nat.mul_le_mul_left _ hless
    rw [Nat.mul_add,Nat.mul_one] at hend
    rw [element,window_within_overwrite (Nat.zero_le _) (Nat.zero_le _) (by omega),Nat.sub_zero,element]
  · next hmore =>
    have hstart : width * count ≤ width * index := Nat.mul_le_mul_left _ (Nat.le_of_not_lt hmore)
    rw [element,drop_overwrite (by omega) (by omega),element]

variable [Zero α]

def zeroElement (α : Type*) [Zero α] (width : ℕ) : List α := List.replicate width 0

@[simp] theorem length_zeroElement (width : ℕ) : (zeroElement α width).length = width := by
  simp [zeroElement]

theorem element_zeros {width index first last : ℕ} {bytes : List α} (hroom : width * first ≤ bytes.length)
    (hfirst : first ≤ index) (hlast : index < last) :
    element width (overwrite bytes (width * first) (List.replicate (width * last - width * first) 0)) index =
      zeroElement α width := by
  have hstart : width * first ≤ width * index := Nat.mul_le_mul_left _ hfirst
  have hend : width * index + width ≤ width * last := by
    calc width * index + width = width * (index + 1) := by ring
      _ ≤ width * last := Nat.mul_le_mul_left _ hlast
  have hmin : min width (width * last - width * first - (width * index - width * first)) = width := by omega
  rw [element,window_within_overwrite hroom hstart (by simp; omega),List.drop_replicate,List.take_replicate,hmin,
    zeroElement]

variable [DecidableEq α]

/-- The number of elements before the first zero one, within a count. -/
def firstZero (width : ℕ) : ℕ → List α → ℕ
  | 0,_ => 0
  | count + 1,bytes =>
    if bytes.take width = zeroElement α width then 0 else firstZero width count (bytes.drop width) + 1

def visibleElements (width count : ℕ) (bytes : List α) : List α := bytes.take (width * firstZero width count bytes)

theorem firstZero_le (width count : ℕ) (bytes : List α) : firstZero width count bytes ≤ count := by
  induction count generalizing bytes with
  | zero => simp [firstZero]
  | succ count ih =>
    rw [firstZero]
    split
    · omega
    · have hrest := ih (bytes.drop width)
      omega

theorem element_of_lt_firstZero {width count : ℕ} {bytes : List α} {index : ℕ}
    (h : index < firstZero width count bytes) : element width bytes index ≠ zeroElement α width := by
  induction count generalizing bytes index with
  | zero => simp [firstZero] at h
  | succ count ih =>
    rw [firstZero] at h
    split at h
    · omega
    · next hfirst =>
      cases index with
      | zero => rwa [element_zero]
      | succ index =>
        rw [element_succ]
        exact ih (by omega)

theorem element_firstZero {width count : ℕ} {bytes : List α} (h : firstZero width count bytes < count) :
    element width bytes (firstZero width count bytes) = zeroElement α width := by
  induction count generalizing bytes with
  | zero => omega
  | succ count ih =>
    rw [firstZero] at h ⊢
    split
    · next hfirst => rwa [element_zero]
    · next hfirst =>
      rw [if_neg hfirst] at h
      rw [element_succ]
      exact ih (by omega)

theorem firstZero_within {width count : ℕ} {bytes : List α} (hwidth : width ≠ 0)
    (h : firstZero width count bytes < count) : width * (firstZero width count bytes + 1) ≤ bytes.length := by
  have hlength := congrArg List.length (element_firstZero h)
  rw [element,List.length_take,List.length_drop,length_zeroElement] at hlength
  rw [Nat.mul_add]
  omega

theorem firstZero_eq {width count index : ℕ} {bytes : List α} (hindex : index ≤ count)
    (hzero : index < count → element width bytes index = zeroElement α width)
    (hbefore : ∀ i < index, element width bytes i ≠ zeroElement α width) :
    firstZero width count bytes = index := by
  have hle := firstZero_le width count bytes
  rcases Nat.lt_trichotomy (firstZero width count bytes) index with hless | heq | hmore
  · exact absurd (element_firstZero (by omega)) (hbefore _ hless)
  · exact heq
  · exact absurd (hzero (by omega)) (element_of_lt_firstZero hmore)

theorem firstZero_take {width count : ℕ} (bytes : List α) : firstZero width count (bytes.take (width * count)) = firstZero width count bytes := by
  have hle := firstZero_le width count bytes
  apply firstZero_eq hle
  · intro hless
    rw [element_take (Nat.mul_le_mul_left _ hless)]
    exact element_firstZero hless
  · intro i hi
    rw [element_take (Nat.mul_le_mul_left _ (by omega))]
    exact element_of_lt_firstZero hi

omit [DecidableEq α] in
theorem element_one {bytes : List α} {index : ℕ} : element 1 bytes index = zeroElement α 1 ↔ bytes[index]? = some 0 := by
  rw [element,Nat.one_mul]
  rcases Nat.lt_or_ge index bytes.length with hless | hmore
  · rw [List.drop_eq_getElem_cons hless,List.take_succ_cons,List.getElem?_eq_getElem hless]
    simp [zeroElement]
  · rw [List.drop_of_length_le hmore,List.getElem?_eq_none hmore]
    simp [zeroElement]

theorem visibleElements_one (bytes : List α) : visibleElements 1 bytes.length bytes = bytes.takeWhile (· ≠ 0) := by
  rw [visibleElements,Nat.one_mul]
  induction bytes with
  | nil => rfl
  | cons byte bytes ih =>
    rw [List.length_cons,firstZero]
    by_cases hzero : byte = 0
    · simp [hzero,zeroElement]
    · simp [hzero,zeroElement,ih]

end Precizer.General
