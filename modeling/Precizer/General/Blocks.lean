import Mathlib.Data.List.Basic
import Mathlib.Tactic.Common

/-! # Blocks of memory

A block is a list whose length never changes: a write replaces a window of it. A checked write
or move is undefined when it would leave the block.
-/
namespace Precizer.General

variable {α : Type*}

def overwrite (block : List α) (offset : ℕ) (bytes : List α) : List α :=
  block.take offset ++ bytes ++ block.drop (offset + bytes.length)

def write? (block : List α) (offset : ℕ) (bytes : List α) : Option (List α) :=
  if offset + bytes.length ≤ block.length then some (overwrite block offset bytes) else none

/-- The move of a window to another place of the same block, if both stay within it. -/
def move? (block : List α) (destination source count : ℕ) : Option (List α) :=
  if source + count ≤ block.length then write? block destination ((block.drop source).take count) else none

theorem overwrite_append (before after bytes : List α) :
    overwrite (before ++ after) before.length bytes = before ++ bytes ++ after.drop bytes.length := by
  simp [overwrite,List.drop_append]

theorem length_overwrite {block bytes : List α} {offset : ℕ} (h : offset + bytes.length ≤ block.length) :
    (overwrite block offset bytes).length = block.length := by
  simp [overwrite]
  omega

theorem write?_append {before after bytes : List α} (h : bytes.length ≤ after.length) :
    write? (before ++ after) before.length bytes = some (before ++ bytes ++ after.drop bytes.length) := by
  simp [write?,overwrite_append,h]

/-- A window is moved to the left, over what stood there. -/
theorem move?_append {before gap bytes after : List α} :
    move? (before ++ gap ++ bytes ++ after) before.length (before.length + gap.length) bytes.length =
      some (before ++ bytes ++ (gap ++ bytes ++ after).drop bytes.length) := by
  have hwindow : ((before ++ gap ++ bytes ++ after).drop (before.length + gap.length)).take bytes.length = bytes := by
    rw [List.append_assoc (before ++ gap),← List.length_append,List.drop_left,List.take_left]
  have hblock : before ++ gap ++ bytes ++ after = before ++ (gap ++ bytes ++ after) := by simp
  have hroom : before.length + gap.length + bytes.length ≤ (before ++ gap ++ bytes ++ after).length := by
    simp
    omega
  rw [move?,if_pos hroom,hwindow,hblock,write?_append]
  simp
  omega

theorem window_of_take {block other : List α} {n offset count : ℕ} (h : block.take n = other.take n)
    (hwindow : offset + count ≤ n) : (block.drop offset).take count = (other.drop offset).take count := by
  have hwithin : ∀ bytes : List α, (bytes.drop offset).take count = ((bytes.take n).drop offset).take count := by
    intro bytes
    rw [List.drop_take,List.take_take,Nat.min_eq_left (by omega)]
  rw [hwithin block,h,← hwithin other]

theorem overwrite_window {block bytes : List α} {offset : ℕ} (h : (block.drop offset).take bytes.length = bytes) :
    overwrite block offset bytes = block := by
  calc overwrite block offset bytes
      = block.take offset ++ (bytes ++ (block.drop offset).drop bytes.length) := by
        rw [overwrite,List.append_assoc,List.drop_drop]
    _ = block.take offset ++ ((block.drop offset).take bytes.length ++ (block.drop offset).drop bytes.length) := by
        rw [h]
    _ = block := by rw [List.take_append_drop,List.take_append_drop]

theorem take_overwrite_of_le {block bytes : List α} {offset n : ℕ} (hoffset : offset ≤ block.length)
    (h : n ≤ offset) : (overwrite block offset bytes).take n = block.take n := by
  have hbefore : n ≤ (block.take offset).length := by
    simp only [List.length_take]
    omega
  rw [overwrite,List.append_assoc,List.take_append_of_le_length hbefore,List.take_take,Nat.min_eq_left h]

theorem take_overwrite {block bytes : List α} {offset : ℕ} (h : offset ≤ block.length) :
    (overwrite block offset bytes).take (offset + bytes.length) = block.take offset ++ bytes := by
  have hlength : (block.take offset ++ bytes).length = offset + bytes.length := by
    simp [Nat.min_eq_left h]
  rw [overwrite,← hlength,List.take_left]

theorem window_within_overwrite {block bytes : List α} {offset start n : ℕ} (hoffset : offset ≤ block.length)
    (hstart : offset ≤ start) (hend : start + n ≤ offset + bytes.length) :
    ((overwrite block offset bytes).drop start).take n = (bytes.drop (start - offset)).take n := by
  have hbefore : (block.take offset).length = offset := by simp [hoffset]
  have hwithin : n ≤ (bytes.drop (start - offset)).length := by
    simp
    omega
  rw [overwrite,List.append_assoc,List.drop_append,hbefore,List.drop_eq_nil_of_le (by omega),List.nil_append,
    List.drop_append_of_le_length (by omega),List.take_append_of_le_length hwithin]

/-- A write right before another one is one write with it. -/
theorem overwrite_before {block before bytes : List α} {offset : ℕ}
    (h : offset + before.length + bytes.length ≤ block.length) :
    overwrite (overwrite block (offset + before.length) bytes) offset before =
      overwrite block offset (before ++ bytes) := by
  have hroom : offset + before.length ≤ block.length := by omega
  have hinner : (block.take (offset + before.length)).length = offset + before.length := by simp [hroom]
  have htake : (overwrite block (offset + before.length) bytes).take offset = block.take offset :=
    take_overwrite_of_le hroom (by omega)
  have hdrop : (overwrite block (offset + before.length) bytes).drop (offset + before.length) =
      bytes ++ block.drop (offset + before.length + bytes.length) := by
    rw [overwrite,List.append_assoc,List.drop_append,hinner,Nat.sub_self,List.drop_zero,
      List.drop_eq_nil_of_le (by omega),List.nil_append]
  calc overwrite (overwrite block (offset + before.length) bytes) offset before
      = block.take offset ++ before ++ (bytes ++ block.drop (offset + before.length + bytes.length)) := by
        rw [overwrite,htake,hdrop]
    _ = overwrite block offset (before ++ bytes) := by
        rw [overwrite,List.length_append,Nat.add_assoc]
        simp

theorem window_overwrite {block bytes : List α} {offset : ℕ} (h : offset ≤ block.length) :
    ((overwrite block offset bytes).drop offset).take bytes.length = bytes := by
  rw [window_within_overwrite h (Nat.le_refl _) (Nat.le_refl _),Nat.sub_self,List.drop_zero,List.take_length]

theorem drop_overwrite {block bytes : List α} {offset n : ℕ} (hroom : offset + bytes.length ≤ block.length)
    (h : offset + bytes.length ≤ n) : (overwrite block offset bytes).drop n = block.drop n := by
  have hlength : (block.take offset ++ bytes).length = offset + bytes.length := by
    simp
    omega
  rw [overwrite,List.drop_append,hlength,List.drop_drop,List.drop_eq_nil_of_le (by omega),List.nil_append]
  congr 1
  omega

end Precizer.General
