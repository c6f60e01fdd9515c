import Precizer.Digest.Sha512Resume
import Precizer.Digest.Standard
import Precizer.General.Elements

/-! # Calls with pointers

The functions of the library take a context, its input and its output by pointers. Between two
calls the context may be copied byte by byte, as it is for the database.
-/
namespace Precizer.Digest
open General

/-- `sha512_update`; a `NULL` pointer is `none`. -/
def sha512UpdateAt (md : Option SHA512Context) (input : Option (List UInt8)) : SHA512Status × Option SHA512Context :=
  match md,input with
  | none,_ => (.cryptInvalidArg,none)
  | some md,none => (.cryptInvalidArg,some md)
  | some md,some input => ((sha512Update md input).1,some (sha512Update md input).2)

/-- `sha512_final`, with what was at the output before. -/
def sha512FinalAt (md : Option SHA512Context) (out : Option Sha512Digest) :
    SHA512Status × Option SHA512Context × Option Sha512Digest :=
  match md,out with
  | none,_ => (.cryptInvalidArg,none,out)
  | some md,none => (.cryptInvalidArg,some md,none)
  | some md,some out =>
    match sha512Final md with
    | (.cryptOk,md',digest) => (.cryptOk,some md',some digest)
    | (status,md',_) => (status,some md',some out)

/-- The bytes of a context in memory: `length`, `state`, `curlen` and `buf`. -/
def SHA512Context.image (md : SHA512Context) : List UInt8 :=
  leBytes 8 md.length.toNat ++ ((md.state.toList.map fun w => leBytes 8 w.toNat).flatten ++ (leBytes 8 md.curlen ++ md.buf.toList))

def SHA512Context.ofImage (bytes : List UInt8) : SHA512Context :=
  ⟨UInt64.ofNat (leValue (bytes.take 8)),
    Vector.ofFn fun i => UInt64.ofNat (leValue (element 8 (bytes.drop 8) i)),
    leValue ((bytes.drop 72).take 8),
    Vector.ofFn fun i => (bytes.drop 80).getD i 0⟩

theorem ofImage_image {md : SHA512Context} (h : md.curlen < 2 ^ 64) : SHA512Context.ofImage md.image = md := by
  have hrows : ∀ row ∈ md.state.toList.map fun w => leBytes 8 w.toNat, row.length = 8 := by
    intro row hrow
    obtain ⟨w,-,rfl⟩ := List.mem_map.mp hrow
    exact leBytes_length 8 w.toNat
  have hstate : ((md.state.toList.map fun w => leBytes 8 w.toNat).flatten).length = 64 := by
    rw [List.length_flatten,List.map_map]
    have hlengths : (md.state.toList.map (List.length ∘ fun w => leBytes 8 w.toNat)) = List.replicate 8 8 := by
      apply List.eq_replicate_iff.mpr
      refine ⟨by simp,?_⟩
      intro n hn
      obtain ⟨w,-,rfl⟩ := List.mem_map.mp hn
      exact leBytes_length 8 w.toNat
    rw [hlengths]
    rfl
  have hdrop8 : md.image.drop 8 = (md.state.toList.map fun w => leBytes 8 w.toNat).flatten ++
      (leBytes 8 md.curlen ++ md.buf.toList) := List.drop_left' (leBytes_length 8 _)
  have hdrop72 : md.image.drop 72 = leBytes 8 md.curlen ++ md.buf.toList := by
    have hsplit : md.image.drop 72 = (md.image.drop 8).drop 64 := by rw [List.drop_drop]
    rw [hsplit,hdrop8,List.drop_left' hstate]
  have hdrop80 : md.image.drop 80 = md.buf.toList := by
    have hsplit : md.image.drop 80 = (md.image.drop 72).drop 8 := by rw [List.drop_drop]
    rw [hsplit,hdrop72,List.drop_left' (leBytes_length 8 _)]
  have hlength : md.image.take 8 = leBytes 8 md.length.toNat := List.take_left' (leBytes_length 8 _)
  have hword : ∀ w : UInt64, leValue (leBytes 8 w.toNat) = w.toNat :=
    fun w => leValue_leBytes_of_lt (by simpa using w.toNat_lt)
  have hwords : (Vector.ofFn fun i : Fin 8 => UInt64.ofNat (leValue (element 8
      ((md.state.toList.map fun w => leBytes 8 w.toNat).flatten ++ (leBytes 8 md.curlen ++ md.buf.toList)) i))) = md.state := by
    apply Vector.ext
    intro i hi
    have hindex : i < (md.state.toList.map fun w => leBytes 8 w.toNat).length := by simpa using hi
    have hwithin : 8 * (i + 1) ≤ ((md.state.toList.map fun w => leBytes 8 w.toNat).flatten).length := by
      rw [hstate]
      omega
    have helement : element 8 ((md.state.toList.map fun w => leBytes 8 w.toNat).flatten ++
        (leBytes 8 md.curlen ++ md.buf.toList)) i = leBytes 8 md.state[i].toNat := by
      rw [← element_take hwithin,List.take_left,element_flatten hrows hindex]
      simp
    rw [Vector.getElem_ofFn,helement,hword,UInt64.ofNat_toNat]
  have hbuf : (Vector.ofFn fun i : Fin 128 => md.buf.toList.getD i 0) = md.buf := by
    apply Vector.ext
    intro i hi
    simp [List.getD_eq_getElem?_getD]
  rw [SHA512Context.ofImage,hlength,hdrop8,hdrop72,hdrop80,hword,UInt64.ofNat_toNat,List.take_left' (leBytes_length 8 _),
    leValue_leBytes_of_lt (by simpa using h),hwords,hbuf]

section
variable {md : SHA512Context}

theorem check_iff (inlen : ℕ) : sha512CheckAvailableBytes md inlen = .cryptOk ↔ md.curlen < 128 ∧ md.Fits inlen := by
  constructor
  · intro hcheck
    have hinUse : md.curlen < 128 := by
      by_contra hdamaged
      rw [sha512CheckAvailableBytes,if_pos (by omega)] at hcheck
      cases hcheck
    have hfits := (check_continues (.refl hinUse) inlen).mp hcheck
    rw [List.length_nil,Nat.zero_add] at hfits
    exact ⟨hinUse,hfits⟩
  · rintro ⟨hinUse,hfits⟩
    rw [check_continues (.refl hinUse),List.length_nil,Nat.zero_add]
    exact hfits

theorem update_status (input : List UInt8) : (sha512Update md input).1 = sha512CheckAvailableBytes md input.length := by
  rw [sha512Update]
  cases hcheck : sha512CheckAvailableBytes md input.length <;> rfl

theorem update_unchanged {input : List UInt8} (h : (sha512Update md input).1 ≠ .cryptOk) : (sha512Update md input).2 = md := by
  rw [update_status] at h
  rw [sha512Update]
  cases hcheck : sha512CheckAvailableBytes md input.length with
  | cryptOk => exact absurd hcheck h
  | cryptInvalidArg => rfl
  | cryptHashOverflow => rfl

theorem final_status : (sha512Final md).1 = sha512CheckAvailableBytes md 0 := by
  rw [sha512Final]
  cases hcheck : sha512CheckAvailableBytes md 0 <;> rfl

theorem final_unchanged (h : (sha512Final md).1 ≠ .cryptOk) : (sha512Final md).2.1 = md := by
  rw [final_status] at h
  rw [sha512Final]
  cases hcheck : sha512CheckAvailableBytes md 0 with
  | cryptOk => exact absurd hcheck h
  | cryptInvalidArg => rfl
  | cryptHashOverflow => rfl

theorem Continues.bits {md₀ : SHA512Context} {m : List UInt8} (h : Continues md₀ md m) :
    md.length.toNat + 8 * md.curlen = md₀.length.toNat + 8 * (md₀.curlen + m.length) := by
  have hlength := h.length
  have hcurlen := h.curlen
  omega

theorem final_length (h : (sha512Final md).1 = .cryptOk) :
    (sha512Final md).2.1.length.toNat = md.length.toNat + 8 * md.curlen := by
  rw [final_status] at h
  obtain ⟨hinUse,hfits⟩ := (check_iff 0).mp h
  have hlength : (sha512Final md).2.1.length = md.length + UInt64.ofNat md.curlen * 8 := by
    rw [sha512Final,h]
  rw [SHA512Context.Fits,Nat.add_zero] at hfits
  rw [hlength]
  simp only [UInt64.toNat_add,UInt64.toNat_mul,UInt64.reduceToNat,UInt64.toNat_ofNat']
  omega

end

end Precizer.Digest
