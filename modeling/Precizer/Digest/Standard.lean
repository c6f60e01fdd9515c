import Precizer.Digest.Sha512Stream
import Mathlib.Data.Nat.Prime.Basic
import Mathlib.Data.Fintype.Basic
import Mathlib.Tactic.FinCases

/-! # The standard's hash function

The standard gives the words of the message schedule by a recurrence and moves eight working
variables on in each round. The source leaves the variables in place and moves their roles.
-/
namespace Precizer.Digest
open General

namespace Standard

def ch (x y z : UInt64) : UInt64 := (x &&& y) ^^^ (~~~x &&& z)
def maj (x y z : UInt64) : UInt64 := (x &&& y) ^^^ (x &&& z) ^^^ (y &&& z)

/-- The words of the message schedule. -/
def word (block : List UInt8) (t : ℕ) : UInt64 :=
  if t < 16 then load64H block (8 * t)
  else gamma1 (word block (t - 2)) + word block (t - 7) + gamma0 (word block (t - 15)) + word block (t - 16)
termination_by t

/-- One round on the working variables from `a` to `h`. -/
def round (k w : UInt64) (v : Vector UInt64 8) : Vector UInt64 8 :=
  let t1 := v[7] + bigSigma1 v[4] + ch v[4] v[5] v[6] + k + w
  let t2 := bigSigma0 v[0] + maj v[0] v[1] v[2]
  #v[t1 + t2,v[0],v[1],v[2],v[3] + t1,v[4],v[5],v[6]]

def compress (state : Vector UInt64 8) (block : List UInt8) : Vector UInt64 8 :=
  state.zipWith (· + ·) ((List.finRange 80).foldl (fun v (i : Fin 80) => round (roundConstants.get i) (word block i) v) state)

def sha512 (message : List UInt8) : Sha512Digest :=
  storeState (absorb compress 128 initialState (message ++ standardPadding message.length)).1

/-- The first 64 bits of the fraction of a root. -/
def IsRootFraction (degree n : ℕ) (k : UInt64) : Prop :=
  ∃ whole < 32, (whole * 2 ^ 64 + k.toNat) ^ degree ≤ n * 2 ^ (64 * degree) ∧
    n * 2 ^ (64 * degree) < (whole * 2 ^ 64 + k.toNat + 1) ^ degree

instance (degree n : ℕ) (k : UInt64) : Decidable (IsRootFraction degree n k) :=
  inferInstanceAs (Decidable (∃ whole < 32, _))

def primes : List ℕ := (List.range 410).filter Nat.Prime

/-- A number below 441 is prime when no smaller number below 21 divides it. -/
theorem prime_iff {n : ℕ} (hn : n < 441) : Nat.Prime n ↔ 2 ≤ n ∧ ∀ m < 21, 2 ≤ m → m < n → n % m ≠ 0 := by
  rw [Nat.prime_def_lt']
  refine and_congr_right fun htwo => ⟨fun h m _ hm hlt hmod => h m hm hlt (Nat.dvd_of_mod_eq_zero hmod),fun h => ?_⟩
  rintro m hm hlt ⟨k,rfl⟩
  have hk : 2 ≤ k := by
    by_contra hsmall
    obtain rfl | rfl : k = 0 ∨ k = 1 := by omega
    · omega
    · omega
  rcases Nat.lt_or_ge m 21 with hm' | hm'
  · exact h m hm' hm hlt (Nat.mul_mod_right m k)
  · have hk' : k < 21 := by
      by_contra hbig
      have hprod : 21 * 21 ≤ m * k := Nat.mul_le_mul hm' (not_lt.mp hbig)
      omega
    exact h k hk' hk ((Nat.lt_mul_iff_one_lt_left (by omega)).mpr hm) (Nat.mul_mod_left m k)

theorem primes_eq : primes = (List.range 410).filter fun n => 2 ≤ n ∧ ∀ m < 21, 2 ≤ m → m < n → n % m ≠ 0 := by
  refine List.filter_congr fun n hn => ?_
  have hlt := List.mem_range.mp hn
  rw [decide_eq_decide]
  exact prime_iff (by omega)

end Standard

theorem tables_rootFractions : List.Forall₂ (Standard.IsRootFraction 3) Standard.primes roundConstants.toList ∧
    List.Forall₂ (Standard.IsRootFraction 2) (Standard.primes.take 8) initialState.toList := by
  rw [Standard.primes_eq]
  decide +kernel

theorem choose_eq (x y z : UInt64) : choose x y z = Standard.ch x y z := by
  apply UInt64.toBitVec_inj.mp
  apply BitVec.eq_of_getLsbD_eq
  intro i hi
  simp only [choose,Standard.ch,UInt64.toBitVec_xor,UInt64.toBitVec_and,UInt64.toBitVec_not,BitVec.getLsbD_xor,
    BitVec.getLsbD_and,BitVec.getLsbD_not]
  cases x.toBitVec.getLsbD i <;> cases y.toBitVec.getLsbD i <;> cases z.toBitVec.getLsbD i <;> simp [hi]

theorem majority_eq (x y z : UInt64) : majority x y z = Standard.maj x y z := by
  apply UInt64.toBitVec_inj.mp
  apply BitVec.eq_of_getLsbD_eq
  intro i hi
  simp only [majority,Standard.maj,UInt64.toBitVec_xor,UInt64.toBitVec_and,UInt64.toBitVec_or,BitVec.getLsbD_xor,
    BitVec.getLsbD_and,BitVec.getLsbD_or]
  cases x.toBitVec.getLsbD i <;> cases y.toBitVec.getLsbD i <;> cases z.toBitVec.getLsbD i <;> rfl

/-- The schedule of the source holds the words, newest first. -/
theorem messageSchedule_eq (block : List UInt8) (n : ℕ) :
    messageSchedule block n = ((List.range n).map (Standard.word block)).reverse := by
  induction n with
  | zero => rfl
  | succ n ih =>
    have hback : ∀ k, 0 < k → k ≤ n → (messageSchedule block n).getD (k - 1) 0 = Standard.word block (n - k) := by
      intro k hpos hle
      have hindex : n - 1 - (k - 1) = n - k := by omega
      rw [ih,List.getD_eq_getElem?_getD,List.getElem?_reverse (by simp; omega)]
      simp only [List.length_map,List.length_range,hindex]
      rw [List.getElem?_map,List.getElem?_range (by omega)]
      rfl
    rw [messageSchedule,List.range_succ,List.map_append,List.reverse_append,← ih]
    dsimp only [List.map_cons,List.map_nil,List.reverse_singleton,List.singleton_append]
    congr 1
    rw [Standard.word]
    split
    · rfl
    · rw [hback 2 (by omega) (by omega),hback 7 (by omega) (by omega),hback 15 (by omega) (by omega),
        hback 16 (by omega) (by omega)]

/-- The place of a working variable before the given round. -/
def role (r n : ℕ) : Fin 8 := ⟨(r + 80 - n) % 8,by omega⟩

theorem role_val (r n : ℕ) : (role r n).val = (r + 80 - n) % 8 := rfl

theorem role_eq {n : ℕ} (hn : n ≤ 80) (r r' : ℕ) : role r n = role r' n ↔ r % 8 = r' % 8 := by
  rw [Fin.ext_iff,role_val,role_val]
  omega

theorem role_succ {n : ℕ} (hn : n < 80) (r : ℕ) : role r (n + 1) = role (r + 7) n := by
  rw [Fin.ext_iff,role_val,role_val]
  omega

/-- The working variables stand in the places of their roles. -/
def Roles (s v : Vector UInt64 8) (n : ℕ) : Prop := ∀ r : Fin 8, s[role r n] = v[r]

theorem set_role {n : ℕ} (hn : n ≤ 80) (s : Vector UInt64 8) (r r' : ℕ) (x : UInt64) :
    (s.set (role r n) x)[role r' n] = if r % 8 = r' % 8 then x else s[role r' n] := by
  have hsame := role_eq hn r r'
  rw [Fin.ext_iff] at hsame
  rw [Fin.getElem_fin,Vector.getElem_set]
  simp only [hsame]
  rfl

theorem rnd_roles {w : Vector UInt64 80} {s v : Vector UInt64 8} {i : Fin 80} (h : Roles s v i) :
    Roles (rnd w s i) (Standard.round (roundConstants.get i) (w.get i) v) (i + 1) := by
  have hle : i.val ≤ 80 := i.isLt.le
  have hget : ∀ r : Fin 8, s[role r i] = v[r] := h
  have hrnd : rnd w s i =
      let t0 := s[role 7 i] + bigSigma1 s[role 4 i] + choose s[role 4 i] s[role 5 i] s[role 6 i] + roundConstants.get i + w.get i
      (s.set (role 3 i) (s[role 3 i] + t0)).set (role 7 i)
        (t0 + (bigSigma0 s[role 0 i] + majority s[role 0 i] s[role 1 i] s[role 2 i])) := rfl
  have hnext : ∀ r : Fin 8, (rnd w s i)[role r (i + 1)] = (rnd w s i)[role (r + 7) i] :=
    fun r => congrArg (fun place : Fin 8 => (rnd w s i)[place]) (role_succ i.isLt r)
  have hback : ∀ r, s[role (r + 8) i] = s[role r i] :=
    fun r => congrArg (fun place : Fin 8 => s[place]) ((role_eq hle (r + 8) r).mpr (by omega))
  have h0 : s[role 0 i] = v[0] := hget 0
  have h1 : s[role 1 i] = v[1] := hget 1
  have h2 : s[role 2 i] = v[2] := hget 2
  have h3 : s[role 3 i] = v[3] := hget 3
  have h4 : s[role 4 i] = v[4] := hget 4
  have h5 : s[role 5 i] = v[5] := hget 5
  have h6 : s[role 6 i] = v[6] := hget 6
  have h7 : s[role 7 i] = v[7] := hget 7
  intro r
  rw [hnext,hrnd]
  dsimp only
  rw [set_role hle,set_role hle,h0,h1,h2,h3,h4,h5,h6,h7,choose_eq,majority_eq]
  fin_cases r
  · simp [Standard.round]
  · exact (hback 0).trans h0
  · exact (hback 1).trans h1
  · exact (hback 2).trans h2
  · simp [Standard.round]
  · exact (hback 4).trans h4
  · exact (hback 5).trans h5
  · exact (hback 6).trans h6

theorem foldl_roles {w : Vector UInt64 80} (state : Vector UInt64 8) {n : ℕ} (hn : n ≤ 80) :
    Roles (((List.finRange 80).take n).foldl (rnd w) state)
      (((List.finRange 80).take n).foldl (fun v (i : Fin 80) => Standard.round (roundConstants.get i) (w.get i) v) state) n := by
  induction n with
  | zero =>
    intro r
    have hplace : role r 0 = r := by
      rw [Fin.ext_iff,role_val]
      omega
    exact congrArg (fun place : Fin 8 => state[place]) hplace
  | succ n ih =>
    have hlength : n < (List.finRange 80).length := by
      rw [List.length_finRange]
      omega
    have htake : (List.finRange 80).take (n + 1) = (List.finRange 80).take n ++ [⟨n,by omega⟩] := by
      rw [List.take_succ_eq_append_getElem hlength,List.getElem_finRange]
      rfl
    rw [htake,List.foldl_append,List.foldl_append]
    exact rnd_roles (ih (by omega))

theorem sha512Compress_standard : sha512Compress = Standard.compress := by
  funext state block
  have hword : (Vector.ofFn fun i : Fin 80 => (messageSchedule block 80).reverse.getD i 0) =
      Vector.ofFn fun i : Fin 80 => Standard.word block i := by
    congr 1
    funext i
    rw [messageSchedule_eq,List.reverse_reverse,List.getD_eq_getElem?_getD,List.getElem?_map,List.getElem?_range i.isLt]
    rfl
  have hroles := foldl_roles (w := Vector.ofFn fun i : Fin 80 => Standard.word block i) state le_rfl
  have hall : (List.finRange 80).take 80 = List.finRange 80 := List.take_of_length_le (by simp)
  have hfold : (List.finRange 80).foldl (rnd (Vector.ofFn fun i : Fin 80 => Standard.word block i)) state =
      (List.finRange 80).foldl (fun v (i : Fin 80) => Standard.round (roundConstants.get i) (Standard.word block i) v) state := by
    have hwords : ∀ i : Fin 80, (Vector.ofFn fun i : Fin 80 => Standard.word block i).get i = Standard.word block i :=
      fun i => Vector.getElem_ofFn i.isLt
    simp only [hall,hwords] at hroles
    apply Vector.ext
    intro r hr
    have hplace : role r 80 = ⟨r,hr⟩ := by
      rw [Fin.ext_iff,role_val]
      show (r + 80 - 80) % 8 = r
      omega
    have hvariable := (congrArg (fun place : Fin 8 => ((List.finRange 80).foldl
      (rnd (Vector.ofFn fun i : Fin 80 => Standard.word block i)) state)[place]) hplace).symm.trans (hroles ⟨r,hr⟩)
    exact hvariable
  rw [sha512Compress,hword,hfold]
  rfl

theorem sha512_standard (message : List UInt8) : sha512 message = Standard.sha512 message := by
  rw [sha512,sha512Compress_standard]
  rfl

end Precizer.Digest
