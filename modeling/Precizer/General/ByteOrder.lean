import Mathlib.Data.Nat.Basic
import Mathlib.Data.List.Basic
import Mathlib.Tactic.Ring

/-! # Fixed-width byte encodings

Little-endian bytes of a natural number and the number a byte list spells. A number
is spelled by its bytes at every width that holds it.
-/
namespace Precizer.General

def leBytes : ℕ → ℕ → List UInt8
  | 0,_ => []
  | n + 1,v => UInt8.ofNat v :: leBytes n (v / 256)

def leValue : List UInt8 → ℕ
  | [] => 0
  | b :: bs => b.toNat + 256 * leValue bs

def beBytes (n v : ℕ) : List UInt8 := (leBytes n v).reverse

def beValue (bs : List UInt8) : ℕ := leValue bs.reverse

@[simp] theorem leBytes_length (n v : ℕ) : (leBytes n v).length = n := by
  induction n generalizing v with
  | zero => rfl
  | succ n ih => simp [leBytes,ih]

@[simp] theorem beBytes_length (n v : ℕ) : (beBytes n v).length = n := by simp [beBytes]

theorem leValue_leBytes (n v : ℕ) : leValue (leBytes n v) = v % 256 ^ n := by
  induction n generalizing v with
  | zero => simp [leBytes,leValue,Nat.mod_one]
  | succ n ih =>
    have hb : (UInt8.ofNat v).toNat = v % 256 := by simp
    rw [leBytes,leValue,ih,hb,Nat.pow_succ,Nat.mul_comm (256 ^ n) 256,Nat.mod_mul]

theorem leValue_leBytes_of_lt {n v : ℕ} (h : v < 256 ^ n) : leValue (leBytes n v) = v := by
  rw [leValue_leBytes,Nat.mod_eq_of_lt h]

theorem leBytes_zero (n : ℕ) : leBytes n 0 = List.replicate n 0 := by
  induction n with
  | zero => rfl
  | succ n ih => simp [leBytes,ih,List.replicate_succ]

theorem leBytes_add (a b v : ℕ) : leBytes (a + b) v = leBytes a v ++ leBytes b (v / 256 ^ a) := by
  induction a generalizing v with
  | zero => simp [leBytes]
  | succ a ih =>
    rw [Nat.succ_add,leBytes,leBytes,ih,Nat.div_div_eq_div_mul,← Nat.pow_succ']
    rfl

theorem beBytes_add_of_lt {a v : ℕ} (b : ℕ) (h : v < 256 ^ a) :
    beBytes (a + b) v = List.replicate b 0 ++ beBytes a v := by
  rw [beBytes,leBytes_add,Nat.div_eq_of_lt h,leBytes_zero,List.reverse_append,List.reverse_replicate]
  rfl

end Precizer.General
