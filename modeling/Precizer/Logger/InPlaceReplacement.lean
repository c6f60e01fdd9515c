import Precizer.General.Blocks
import Precizer.Logger.Markup

/-! # Replacement in place

The logger replaces inside one allocation. A growing text is first moved to the end of its
larger block, so that the result is written to the left of what is still to be read. Every
write and every search is modelled on the block itself; a write that would leave it is undefined.
-/
namespace Precizer.Logger
open General

structure TextBuffer where
  block : List Byte
  textLength : ℕ
  deriving DecidableEq

def cString (block : List Byte) (position : ℕ) : List Byte := (block.drop position).takeWhile (· ≠ 0)

/-- The distance of the first occurrence inside the C string. -/
def strstr (block : List Byte) (position : ℕ) (search : List Byte) : Option ℕ :=
  firstMatch search (cString block position)

/-- `realloc`: the kept bytes, then whatever the larger allocation contains. -/
def reallocBlock (fill : ℕ → Byte) (block : List Byte) (size : ℕ) : List Byte :=
  block.take size ++ (List.range (size - block.length)).map fill

/-- The counting loop. The fuel bounds its turns. -/
def countMatches (block search : List Byte) : ℕ → ℕ → Option ℕ
  | 0,_ => none
  | fuel + 1,position =>
    match strstr block position search with
    | none => some 0
    | some distance => (countMatches block search fuel (position + distance + search.length)).map (· + 1)

def replaceMatches (search replacement : List Byte) : ℕ → List Byte → ℕ → ℕ → Option (List Byte)
  | 0,_,_,_ => none
  | fuel + 1,block,source,destination =>
    match strstr block source search with
    | none => move? block destination source ((cString block source).length + 1)
    | some prefixLength =>
      match move? block destination source prefixLength with
      | none => none
      | some block =>
        match write? block (destination + prefixLength) replacement with
        | none => none
        | some block => replaceMatches search replacement fuel block (source + prefixLength + search.length)
            (destination + prefixLength + replacement.length)

/-- A longer replacement: the text moves to the end of the larger allocation first. -/
def replaceGrowing (realloc : ℕ → Option (ℕ → Byte)) (search replacement : List Byte) (text : TextBuffer)
    (matchCount : ℕ) : Option (Bool × TextBuffer) :=
  let growth := replacement.length - search.length
  if (sizeMax - text.textLength - 1) / growth < matchCount then some (false,text)
  else
    let resultLength := text.textLength + matchCount * growth
    match realloc (resultLength + 1) with
    | none => some (false,text)
    | some fill =>
      match move? (reallocBlock fill text.block (resultLength + 1)) (resultLength - text.textLength) 0
          (text.textLength + 1) with
      | none => none
      | some block =>
        (replaceMatches search replacement (block.length + 1) block (resultLength - text.textLength) 0).map
          fun block => (true,⟨block,resultLength⟩)

/-- The in-place replacement on a block; `none` stands for an access outside it. -/
def replaceAllInPlace (realloc : ℕ → Option (ℕ → Byte)) (search replacement : List Byte) (text : TextBuffer) :
    Option (Bool × TextBuffer) :=
  if search = [] ∨ text.textLength = sizeMax then some (false,text)
  else
    match countMatches text.block search (text.block.length + 1) 0 with
    | none => none
    | some matchCount =>
      if matchCount = 0 then some (true,text)
      else if search.length < replacement.length then replaceGrowing realloc search replacement text matchCount
      else
        (replaceMatches search replacement (text.block.length + 1) text.block 0 0).map
          fun block => (true,⟨block,text.textLength - matchCount * (search.length - replacement.length)⟩)

variable {search replacement : List Byte}

theorem cString_append {before text : List Byte} (htext : 0 ∉ text) (after : List Byte) :
    cString (before ++ text ++ 0 :: after) before.length = text := by
  have hkept : ∀ b ∈ text, (b ≠ 0) = true := fun b hb => by simpa using fun h : b = 0 => htext (h ▸ hb)
  simp only [cString,List.append_assoc,List.drop_left]
  rw [List.takeWhile_append_of_pos (by simpa using hkept)]
  simp

theorem matchCount_firstMatch (hsearch : search ≠ []) {text before after : List Byte}
    (h : firstMatch search text = some before.length) (hsplit : text = before ++ search ++ after) :
    matchCount search text = matchCount search after + 1 := by
  induction before generalizing text with
  | nil =>
    obtain ⟨x,rest,hcons⟩ := List.exists_cons_of_ne_nil hsearch
    have hmatch : search <+: x :: (rest ++ after) := ⟨after,by simp [hcons]⟩
    have htext : text = x :: (rest ++ after) := by simp [hsplit,hcons]
    rw [htext,matchCount,if_pos hmatch]
    simp [hcons]
  | cons x before ih =>
    have htext : text = x :: (before ++ search ++ after) := by simp [hsplit]
    have hmatch : ¬ search <+: x :: (before ++ search ++ after) := by
      intro hmatch
      rw [htext,firstMatch,if_pos hmatch] at h
      simp at h
    rw [htext,firstMatch,if_neg hmatch] at h
    have hlater : firstMatch search (before ++ search ++ after) = some before.length := by
      obtain ⟨d,hd,hlength⟩ := Option.map_eq_some_iff.mp h
      have hsame : d = before.length := by simpa using hlength
      rw [hd,hsame]
    rw [htext,matchCount,if_neg hmatch]
    exact ih hlater rfl

theorem matchCount_firstMatch_none {text : List Byte} (h : firstMatch search text = none) :
    matchCount search text = 0 := by
  induction text with
  | nil => rw [matchCount]
  | cons x rest ih =>
    by_cases hmatch : search <+: x :: rest
    · simp [firstMatch,hmatch] at h
    · simp only [firstMatch,hmatch,if_false,Option.map_eq_none_iff] at h
      rw [matchCount,if_neg hmatch,ih h]

theorem length_replaceAll (hsearch : search ≠ []) (text : List Byte) :
    (replaceAll search replacement text).length + matchCount search text * search.length =
      text.length + matchCount search text * replacement.length := by
  induction hlength : text.length using Nat.strong_induction_on generalizing text with
  | _ n ih =>
    cases hfirst : firstMatch search text with
    | none => simp [firstMatch_none hfirst,matchCount_firstMatch_none hfirst,hlength]
    | some distance =>
      obtain ⟨skipped,rest,hsplit,rfl,hreplaced⟩ := @firstMatch_some _ _ _ replacement hsearch _ _ hfirst
      have hpos := List.length_pos_of_ne_nil hsearch
      have hcount := congrArg List.length hsplit
      simp only [List.length_append] at hcount
      have hrest := ih rest.length (by omega) rest rfl
      rw [hreplaced,matchCount_firstMatch hsearch hfirst hsplit]
      simp only [List.length_append,Nat.add_mul,Nat.one_mul]
      omega

theorem countMatches_eq (hsearch : search ≠ []) {fuel : ℕ} {before text after : List Byte} (htext : 0 ∉ text)
    (hfuel : text.length < fuel) :
    countMatches (before ++ text ++ 0 :: after) search fuel before.length = some (matchCount search text) := by
  induction fuel generalizing before text with
  | zero => omega
  | succ fuel ih =>
    rw [countMatches,strstr,cString_append htext]
    cases hfirst : firstMatch search text with
    | none => simp [matchCount_firstMatch_none hfirst]
    | some distance =>
      obtain ⟨skipped,rest,hsplit,rfl,-⟩ := @firstMatch_some _ _ _ [] hsearch _ _ hfirst
      have hrest : 0 ∉ rest := fun h => htext (by simp [hsplit,h])
      have hpos := List.length_pos_of_ne_nil hsearch
      have hshorter : rest.length < fuel := by
        have hcount := congrArg List.length hsplit
        simp at hcount
        omega
      have hnext := @ih (before ++ skipped ++ search) rest hrest hshorter
      have hblock : before ++ text ++ 0 :: after = before ++ skipped ++ search ++ rest ++ 0 :: after := by simp [hsplit]
      have hposition : before.length + skipped.length + search.length = (before ++ skipped ++ search).length := by
        simp
        omega
      rw [hblock]
      dsimp only
      rw [hposition,hnext,matchCount_firstMatch hsearch hfirst hsplit]
      rfl

/-- The writing loop: the result so far, a gap, and the text still to be read. The gap holds the
growth of all remaining matches. -/
theorem replaceMatches_eq (hsearch : search ≠ []) {fuel : ℕ} {written gap text after : List Byte} (htext : 0 ∉ text)
    (hfuel : text.length < fuel)
    (hgap : matchCount search text * (replacement.length - search.length) ≤ gap.length) :
    ∃ spare, replaceMatches search replacement fuel (written ++ gap ++ text ++ 0 :: after)
        (written.length + gap.length) written.length =
      some (written ++ replaceAll search replacement text ++ 0 :: spare) := by
  induction fuel generalizing written gap text with
  | zero => omega
  | succ fuel ih =>
    have hstring : cString (written ++ gap ++ text ++ 0 :: after) (written.length + gap.length) = text := by
      rw [← List.length_append]
      exact cString_append htext after
    rw [replaceMatches,strstr,hstring]
    cases hfirst : firstMatch search text with
    | none =>
      have hblock : written ++ gap ++ text ++ 0 :: after = written ++ gap ++ (text ++ [0]) ++ after := by simp
      have hlength : text.length + 1 = (text ++ [0]).length := by simp
      dsimp only
      rw [hblock,hlength,move?_append,firstMatch_none hfirst]
      exact ⟨(gap ++ (text ++ [0]) ++ after).drop (text ++ [0]).length,by simp⟩
    | some distance =>
      obtain ⟨skipped,rest,hsplit,rfl,hreplaced⟩ := @firstMatch_some _ _ _ replacement hsearch _ _ hfirst
      have hrest : 0 ∉ rest := fun h => htext (by simp [hsplit,h])
      have hpos := List.length_pos_of_ne_nil hsearch
      have hshorter : rest.length < fuel := by
        have hcount := congrArg List.length hsplit
        simp at hcount
        omega
      have hcount := matchCount_firstMatch hsearch hfirst hsplit
      rw [hcount,Nat.add_mul,Nat.one_mul] at hgap
      -- what the prefix and the replacement overwrite lies left of the unread rest
      let left := gap ++ skipped ++ search
      have hblock : written ++ gap ++ text ++ 0 :: after =
          written ++ gap ++ skipped ++ (search ++ rest ++ 0 :: after) := by simp [hsplit]
      have hleft : gap ++ skipped ++ (search ++ rest ++ 0 :: after) = left ++ (rest ++ 0 :: after) := by simp [left]
      have hroom : skipped.length + replacement.length ≤ left.length := by
        simp only [left,List.length_append]
        omega
      dsimp only
      rw [hblock,move?_append,hleft,List.drop_append_of_le_length (by omega)]
      dsimp only
      have hposition : written.length + skipped.length = (written ++ skipped).length := by simp
      have hfits : replacement.length ≤ (left.drop skipped.length ++ (rest ++ 0 :: after)).length := by
        simp
        omega
      rw [hposition,write?_append hfits,List.drop_append_of_le_length (by rw [List.length_drop]; omega),List.drop_drop]
      dsimp only
      have hnext := @ih (written ++ skipped ++ replacement) (left.drop (skipped.length + replacement.length)) rest
        hrest hshorter (by
          simp only [List.length_drop,left,List.length_append]
          omega)
      obtain ⟨spare,hnext⟩ := hnext
      refine ⟨spare,?_⟩
      have hsource : written.length + gap.length + skipped.length + search.length =
          (written ++ skipped ++ replacement).length + (left.drop (skipped.length + replacement.length)).length := by
        simp only [List.length_drop,List.length_append,left] at hroom ⊢
        omega
      have hdestination : (written ++ skipped).length + replacement.length =
          (written ++ skipped ++ replacement).length := by simp [Nat.add_assoc]
      have hshape : written ++ skipped ++ replacement ++
          (left.drop (skipped.length + replacement.length) ++ (rest ++ 0 :: after)) =
          written ++ skipped ++ replacement ++ left.drop (skipped.length + replacement.length) ++ rest ++ 0 :: after := by
        simp
      rw [hsource,hdestination,hshape,hnext,hreplaced]
      simp

theorem reallocBlock_append (fill : ℕ → Byte) {kept : List Byte} {size : ℕ} (hsize : kept.length ≤ size)
    (spare : List Byte) :
    ∃ tail, reallocBlock fill (kept ++ spare) size = kept ++ tail ∧ kept.length + tail.length = size := by
  refine ⟨spare.take (size - kept.length) ++
    (List.range (size - (kept ++ spare).length)).map fill,?_,?_⟩
  · rw [reallocBlock,List.take_append,List.take_of_length_le hsize,List.append_assoc]
  · simp
    omega

theorem move_to_end {text tail : List Byte} {offset : ℕ} (htail : tail.length = offset) :
    ∃ gap, gap.length = offset ∧ move? (text ++ tail) offset 0 text.length = some (gap ++ text) := by
  refine ⟨(text ++ tail).take offset,by simp; omega,?_⟩
  have hroom : offset + text.length ≤ (text ++ tail).length := by simp; omega
  rw [move?,if_pos (by simp),write?,List.drop_zero,List.take_left,if_pos hroom,overwrite,
    List.drop_of_length_le (by simp; omega),List.append_nil]

section Refinement

variable (realloc : ℕ → Option (ℕ → Byte)) {content spare : List Byte} (hfree : 0 ∉ content) (hsearch : search ≠ [])
include hfree hsearch

theorem replaceGrowing_eq (hgrows : search.length < replacement.length) :
    if (sizeMax - content.length - 1) / (replacement.length - search.length) < matchCount search content ∨
        realloc ((replaceAll search replacement content).length + 1) = none then
      replaceGrowing realloc search replacement ⟨content ++ 0 :: spare,content.length⟩ (matchCount search content) =
        some (false,⟨content ++ 0 :: spare,content.length⟩)
    else ∃ rest,
      replaceGrowing realloc search replacement ⟨content ++ 0 :: spare,content.length⟩ (matchCount search content) =
        some (true,⟨replaceAll search replacement content ++ 0 :: rest,
          (replaceAll search replacement content).length⟩) := by
  have hlength := @length_replaceAll search replacement hsearch content
  have hgrowth : content.length + matchCount search content * (replacement.length - search.length) =
      (replaceAll search replacement content).length := by
    rw [Nat.mul_sub]
    have hmore := Nat.mul_le_mul_left (matchCount search content) (Nat.le_of_lt hgrows)
    omega
  rw [replaceGrowing]
  dsimp only
  rw [hgrowth]
  by_cases hoverflow : (sizeMax - content.length - 1) / (replacement.length - search.length) <
      matchCount search content
  · rw [if_pos (.inl hoverflow),if_pos hoverflow]
  · rw [if_neg hoverflow]
    cases hrealloc : realloc ((replaceAll search replacement content).length + 1) with
    | none => rw [if_pos (.inr rfl)]
    | some fill =>
      rw [if_neg (by simp [hoverflow])]
      obtain ⟨tail,hblock,htail⟩ := @reallocBlock_append fill (content ++ [0])
        ((replaceAll search replacement content).length + 1) (by simp; omega) spare
      obtain ⟨gap,hgap,hmoved⟩ := @move_to_end (content ++ [0]) tail
        ((replaceAll search replacement content).length - content.length) (by simp at htail; omega)
      rw [List.append_assoc,List.singleton_append] at hblock
      rw [List.length_append,List.length_singleton] at hmoved
      have hroom : matchCount search content * (replacement.length - search.length) ≤ gap.length := by omega
      obtain ⟨rest,hresult⟩ := @replaceMatches_eq search replacement hsearch
        ((gap ++ (content ++ [0])).length + 1) [] gap content [] hfree (by simp; omega) hroom
      dsimp only
      rw [hblock,hmoved]
      rw [List.nil_append,List.append_assoc,List.length_nil,Nat.zero_add,hgap] at hresult
      dsimp only
      rw [hresult]
      exact ⟨rest,by simp⟩

theorem replaceMatches_within (hshrinks : replacement.length ≤ search.length) :
    ∃ rest, replaceMatches search replacement ((content ++ 0 :: spare).length + 1) (content ++ 0 :: spare) 0 0 =
      some (replaceAll search replacement content ++ 0 :: rest) := by
  have hroom : matchCount search content * (replacement.length - search.length) ≤ ([] : List Byte).length := by
    rw [Nat.sub_eq_zero_of_le hshrinks]
    simp
  exact @replaceMatches_eq search replacement hsearch ((content ++ 0 :: spare).length + 1) [] [] content spare hfree
    (by simp) hroom

omit hsearch in
/-- The algorithm on the block computes the replacement of the text, within the block, and a
refusal leaves the text as it is. -/
theorem replaceAllInPlace_eq :
    match rationalLoggerReplaceAll (realloc ((replaceAll search replacement content).length + 1)).isSome search
        replacement content with
    | none => replaceAllInPlace realloc search replacement ⟨content ++ 0 :: spare,content.length⟩ =
        some (false,⟨content ++ 0 :: spare,content.length⟩)
    | some replaced => ∃ rest, replaceAllInPlace realloc search replacement ⟨content ++ 0 :: spare,content.length⟩ =
        some (true,⟨replaced ++ 0 :: rest,replaced.length⟩) := by
  rw [replaceAllInPlace,rationalLoggerReplaceAll]
  by_cases hvalid : search = [] ∨ content.length = sizeMax
  · rw [if_pos hvalid,if_pos hvalid]
  · rw [if_neg hvalid,if_neg hvalid]
    have hsearch : search ≠ [] := fun h => hvalid (.inl h)
    have hcounted : countMatches (content ++ 0 :: spare) search ((content ++ 0 :: spare).length + 1) 0 =
        some (matchCount search content) := @countMatches_eq search hsearch _ [] content spare hfree (by simp)
    dsimp only
    rw [hcounted]
    dsimp only
    by_cases hcount : matchCount search content = 0
    · rw [if_pos hcount,if_pos hcount]
      exact ⟨spare,rfl⟩
    · rw [if_neg hcount,if_neg hcount]
      by_cases hgrows : search.length < replacement.length
      · have hgrowing := @replaceGrowing_eq search replacement realloc content spare hfree hsearch hgrows
        rw [if_pos hgrows]
        split at hgrowing
        · rename_i hrefused
          rw [if_pos ⟨hgrows,hrefused.imp_right fun h => by simp [h]⟩]
          exact hgrowing
        · rename_i hgranted
          rw [if_neg (fun h => hgranted (h.2.imp_right fun h => by simpa using h))]
          exact hgrowing
      · rw [if_neg hgrows,if_neg (fun h => hgrows h.1)]
        have hlength := @length_replaceAll search replacement hsearch content
        have hshrinks : content.length - matchCount search content * (search.length - replacement.length) =
            (replaceAll search replacement content).length := by
          rw [Nat.mul_sub]
          have hless := Nat.mul_le_mul_left (matchCount search content) (Nat.le_of_not_lt hgrows)
          omega
        obtain ⟨rest,hresult⟩ := @replaceMatches_within search replacement content spare hfree hsearch
          (Nat.le_of_not_lt hgrows)
        rw [hresult,hshrinks]
        exact ⟨rest,rfl⟩

end Refinement

/-- A replacement is refused when the result with its terminator overflows or has no memory. -/
theorem rationalLoggerReplaceAll_eq_none {content : List Byte} (hsearch : search ≠ []) (granted : Bool) :
    rationalLoggerReplaceAll granted search replacement content = none ↔ content.length = sizeMax ∨
      content.length < (replaceAll search replacement content).length ∧
        (sizeMax ≤ (replaceAll search replacement content).length ∨ granted = false) := by
  have hlength := @length_replaceAll search replacement hsearch content
  rw [rationalLoggerReplaceAll]
  by_cases hmax : content.length = sizeMax
  · simp [hmax]
  · rw [if_neg (by simp [hmax,hsearch])]
    by_cases hcount : matchCount search content = 0
    · have hsame : (replaceAll search replacement content).length = content.length := by
        simpa [hcount] using hlength
      simp [hcount,hmax,hsame]
    · by_cases hgrows : search.length < replacement.length
      · obtain ⟨growth,hgrowth⟩ := Nat.exists_eq_add_of_lt hgrows
        have hdifference : replacement.length - search.length = growth + 1 := by omega
        have hresult : (replaceAll search replacement content).length =
            content.length + matchCount search content * (growth + 1) := by
          have hreplacement : replacement.length = search.length + (growth + 1) := by omega
          rw [hreplacement,Nat.mul_add] at hlength
          omega
        have hoverflow : (sizeMax - content.length - 1) / (growth + 1) < matchCount search content ↔
            sizeMax - content.length - 1 < matchCount search content * (growth + 1) :=
          Nat.div_lt_iff_lt_mul (Nat.succ_pos growth)
        have hmore : 0 < matchCount search content * (growth + 1) :=
          Nat.mul_pos (Nat.pos_of_ne_zero hcount) (Nat.succ_pos growth)
        have hexceeds : sizeMax - content.length - 1 < matchCount search content * (growth + 1) ↔
            sizeMax ≤ content.length + matchCount search content * (growth + 1) := by omega
        have hlonger : content.length < content.length + matchCount search content * (growth + 1) := by omega
        simp only [hcount,hgrows,hdifference,hoverflow,hmax,hresult,hexceeds,hlonger,if_false,true_and,false_or,
          ite_eq_left_iff,reduceCtorEq,imp_false,not_not]
      · have hless := Nat.mul_le_mul_left (matchCount search content) (Nat.le_of_not_lt hgrows)
        have hshort : ¬ content.length < (replaceAll search replacement content).length := by omega
        simp [hcount,hgrows,hmax,hshort]

end Precizer.Logger
