import Mathlib.Data.List.Basic
import Mathlib.Tactic.Common

/-! # Absorbing a message block by block

An iterated hash feeds every complete block of its input to a compression
function and keeps the unfinished tail. Absorbing a message in pieces is the same
as absorbing it at once, whatever the pieces are.
-/
namespace Precizer.General

variable {S B : Type*} (compress : S → List B → S) (n : ℕ)

/-- Compress the complete blocks of the message; the remaining tail is returned. -/
def absorb (s : S) (m : List B) : S × List B :=
  if 0 < n ∧ n ≤ m.length then absorb (compress s (m.take n)) (m.drop n) else (s,m)
termination_by m.length
decreasing_by simp; omega

variable {compress n}

theorem absorb_short {s : S} {m : List B} (h : m.length < n) : absorb compress n s m = (s,m) := by
  rw [absorb,if_neg (by omega)]

theorem absorb_full {s : S} {m : List B} (hn : 0 < n) (h : n ≤ m.length) :
    absorb compress n s m = absorb compress n (compress s (m.take n)) (m.drop n) := by
  rw [absorb,if_pos ⟨hn,h⟩]

@[simp] theorem absorb_nil (s : S) : absorb compress n s [] = (s,[]) := by
  rw [absorb]
  split
  · rename_i h
    exact absurd h.2 (Nat.not_le.mpr h.1)
  · rfl

theorem absorb_append (s : S) (a b : List B) :
    absorb compress n s (a ++ b) =
      absorb compress n (absorb compress n s a).1 ((absorb compress n s a).2 ++ b) := by
  fun_induction absorb compress n s a with
  | case1 s a h ih =>
    rw [absorb_full h.1 (by simp; omega),List.take_append_of_le_length h.2,
      List.drop_append_of_le_length h.2,ih]
  | case2 => rfl

theorem absorb_cons_block {s : S} {a b : List B} (hn : 0 < n) (h : a.length = n) :
    absorb compress n s (a ++ b) = absorb compress n (compress s a) b := by
  subst h
  rw [absorb_full hn (by simp),List.take_left,List.drop_left]

theorem absorb_fill {s : S} {a b : List B} (hn : 0 < n)
    (h : ((absorb compress n s a).2 ++ b).length = n) :
    absorb compress n s (a ++ b) =
      (compress (absorb compress n s a).1 ((absorb compress n s a).2 ++ b),[]) := by
  rw [absorb_append,← List.append_nil ((absorb compress n s a).2 ++ b),absorb_cons_block hn h,
    absorb_nil,List.append_nil]

end Precizer.General
