import Mathlib.Tactic

/-! # The decoder of the logger

The logger decodes one UTF-8 sequence at the start of a byte range by itself. What it accepts
beyond ASCII is exactly the encoding of one character.
-/
namespace Precizer.Logger

/-- The expected length, the payload bits of the leading byte and the lowest code point of its
length. -/
def leadingByte (firstByte : ℕ) : Option (ℕ × ℕ × ℕ) :=
  if 0xC2 ≤ firstByte ∧ firstByte ≤ 0xDF then some (2,firstByte &&& 0x1F,0x80)
  else if 0xE0 ≤ firstByte ∧ firstByte ≤ 0xEF then some (3,firstByte &&& 0x0F,0x800)
  else if 0xF0 ≤ firstByte ∧ firstByte ≤ 0xF4 then some (4,firstByte &&& 0x07,0x10000)
  else none

def decodeContinuation : ℕ → List UInt8 → Option ℕ
  | decodedCodepoint,[] => some decodedCodepoint
  | decodedCodepoint,continuationByte :: rest =>
    if continuationByte.toNat &&& 0xC0 ≠ 0x80 then none
    else decodeContinuation (decodedCodepoint <<< 6 ||| (continuationByte.toNat &&& 0x3F)) rest

/-- The number of bytes consumed and the code point; `none` stands for the length 0. -/
def loggerLineDecodeUtf8 : List UInt8 → Option (ℕ × ℕ)
  | [] => none
  | firstByte :: rest =>
    if firstByte.toNat < 0x80 then some (1,firstByte.toNat)
    else
      match leadingByte firstByte.toNat with
      | none => none
      | some (expectedLen,bits,lowestCodepoint) =>
        if rest.length + 1 < expectedLen then none
        else
          match decodeContinuation bits (rest.take (expectedLen - 1)) with
          | none => none
          | some decodedCodepoint =>
            if decodedCodepoint < lowestCodepoint then none
            else if 0xD800 ≤ decodedCodepoint ∧ decodedCodepoint ≤ 0xDFFF then none
            else if 0x10FFFF < decodedCodepoint then none
            else some (expectedLen,decodedCodepoint)

theorem continuation_iff (byte : UInt8) :
    byte.toNat &&& 0xC0 = 0x80 ↔ 0x80 ≤ byte.toNat ∧ byte.toNat < 0xC0 := by
  have hall : ∀ n < 256, n &&& 0xC0 = 0x80 ↔ 0x80 ≤ n ∧ n < 0xC0 := by decide +kernel
  exact hall byte.toNat byte.toNat_lt

theorem decodeContinuation_cons {codepoint n : ℕ} {byte : UInt8} {rest : List UInt8} :
    decodeContinuation codepoint (byte :: rest) = some n ↔ 0x80 ≤ byte.toNat ∧ byte.toNat < 0xC0 ∧
      decodeContinuation (codepoint * 64 + byte.toNat % 64) rest = some n := by
  have hmask : byte.toNat &&& 0x3F = byte.toNat % 64 := Nat.and_two_pow_sub_one_eq_mod byte.toNat 6
  have hshift : codepoint <<< 6 ||| byte.toNat % 64 = codepoint * 64 + byte.toNat % 64 := by
    rw [← Nat.shiftLeft_add_eq_or_of_lt (Nat.mod_lt _ (by decide : 0 < 2 ^ 6)),Nat.shiftLeft_eq]
  rw [decodeContinuation,hmask,hshift]
  by_cases hshape : byte.toNat &&& 0xC0 = 0x80
  · rw [if_neg (not_not.mpr hshape)]
    exact ⟨fun h => ⟨((continuation_iff byte).mp hshape).1,((continuation_iff byte).mp hshape).2,h⟩,fun h => h.2.2⟩
  · rw [if_pos hshape]
    refine ⟨fun h => ?_,fun h => absurd ((continuation_iff byte).mpr ⟨h.1,h.2.1⟩) hshape⟩
    cases h

theorem leadingByte_eq {firstByte : ℕ} {expectedLen bits lowest : ℕ}
    (h : leadingByte firstByte = some (expectedLen,bits,lowest)) :
    (expectedLen = 2 ∧ bits = firstByte % 32 ∧ lowest = 0x80 ∧ 0xC2 ≤ firstByte ∧ firstByte ≤ 0xDF) ∨
    (expectedLen = 3 ∧ bits = firstByte % 16 ∧ lowest = 0x800 ∧ 0xE0 ≤ firstByte ∧ firstByte ≤ 0xEF) ∨
    (expectedLen = 4 ∧ bits = firstByte % 8 ∧ lowest = 0x10000 ∧ 0xF0 ≤ firstByte ∧ firstByte ≤ 0xF4) := by
  unfold leadingByte at h
  split at h
  · rename_i hrange
    cases h
    exact .inl ⟨rfl,Nat.and_two_pow_sub_one_eq_mod firstByte 5,rfl,hrange⟩
  · split at h
    · rename_i hrange
      cases h
      exact .inr (.inl ⟨rfl,Nat.and_two_pow_sub_one_eq_mod firstByte 4,rfl,hrange⟩)
    · split at h
      · rename_i hrange
        cases h
        exact .inr (.inr ⟨rfl,Nat.and_two_pow_sub_one_eq_mod firstByte 3,rfl,hrange⟩)
      · cases h

theorem leadingByte_two {firstByte : ℕ} (hlow : 0xC2 ≤ firstByte) (hhigh : firstByte ≤ 0xDF) :
    leadingByte firstByte = some (2,firstByte % 32,0x80) := by
  rw [leadingByte,if_pos ⟨hlow,hhigh⟩,← Nat.and_two_pow_sub_one_eq_mod firstByte 5]

theorem leadingByte_three {firstByte : ℕ} (hlow : 0xE0 ≤ firstByte) (hhigh : firstByte ≤ 0xEF) :
    leadingByte firstByte = some (3,firstByte % 16,0x800) := by
  rw [leadingByte,if_neg (by omega),if_pos ⟨hlow,hhigh⟩,← Nat.and_two_pow_sub_one_eq_mod firstByte 4]

theorem leadingByte_four {firstByte : ℕ} (hlow : 0xF0 ≤ firstByte) (hhigh : firstByte ≤ 0xF4) :
    leadingByte firstByte = some (4,firstByte % 8,0x10000) := by
  rw [leadingByte,if_neg (by omega),if_neg (by omega),if_pos ⟨hlow,hhigh⟩,
    ← Nat.and_two_pow_sub_one_eq_mod firstByte 3]

theorem ofNat_eq (byte : UInt8) {n : ℕ} (h : n = byte.toNat) : UInt8.ofNat n = byte := by
  rw [h,UInt8.ofNat_toNat]

theorem exists_char {codepoint : ℕ} (hsurrogate : ¬ (0xD800 ≤ codepoint ∧ codepoint ≤ 0xDFFF))
    (hrange : ¬ 0x10FFFF < codepoint) : ∃ c : Char, c.val.toNat = codepoint := by
  have hvalid : codepoint.isValidChar := by
    unfold Nat.isValidChar
    omega
  exact ⟨Char.ofNatAux codepoint hvalid,rfl⟩

theorem decode_iff {firstByte : UInt8} {rest : List UInt8} {consumed codepoint : ℕ}
    (hfirst : ¬ firstByte.toNat < 0x80) :
    loggerLineDecodeUtf8 (firstByte :: rest) = some (consumed,codepoint) ↔
      ∃ bits lowest, leadingByte firstByte.toNat = some (consumed,bits,lowest) ∧ consumed ≤ rest.length + 1 ∧
        decodeContinuation bits (rest.take (consumed - 1)) = some codepoint ∧ lowest ≤ codepoint ∧
        ¬ (0xD800 ≤ codepoint ∧ codepoint ≤ 0xDFFF) ∧ ¬ 0x10FFFF < codepoint := by
  rw [loggerLineDecodeUtf8,if_neg hfirst]
  constructor
  · intro h
    split at h
    · cases h
    · rename_i expectedLen bits lowest hleading
      split at h
      · cases h
      · rename_i hcomplete
        split at h
        · cases h
        · rename_i decoded hdecoded
          split_ifs at h with hlowest hsurrogate hrange
          cases h
          exact ⟨bits,lowest,hleading,Nat.le_of_not_lt hcomplete,hdecoded,Nat.le_of_not_lt hlowest,hsurrogate,hrange⟩
  · rintro ⟨bits,lowest,hleading,hcomplete,hdecoded,hlowest,hsurrogate,hrange⟩
    simp only [hleading,hdecoded,if_neg (Nat.not_lt.mpr hcomplete),if_neg (Nat.not_lt.mpr hlowest),
      if_neg hsurrogate,if_neg hrange]

theorem exists_cons {n : ℕ} {rest : List UInt8} (h : n + 1 ≤ rest.length) :
    ∃ byte more, rest = byte :: more ∧ n ≤ more.length := by
  cases rest with
  | nil => simp at h
  | cons byte more => exact ⟨byte,more,rfl,Nat.le_of_succ_le_succ h⟩

theorem decode_sound {firstByte : UInt8} {rest : List UInt8} {consumed codepoint : ℕ}
    (hfirst : ¬ firstByte.toNat < 0x80)
    (h : loggerLineDecodeUtf8 (firstByte :: rest) = some (consumed,codepoint)) :
    ∃ c : Char, c.val.toNat = codepoint ∧ 0x80 ≤ codepoint ∧
      (firstByte :: rest).take consumed = String.utf8EncodeChar c := by
  obtain ⟨bits,lowest,hleading,hcomplete,hdecoded,hlowest,hsurrogate,hrange⟩ := (decode_iff hfirst).mp h
  obtain ⟨c,hc⟩ := exists_char hsurrogate hrange
  rcases leadingByte_eq hleading with ⟨rfl,rfl,rfl,hlow,hhigh⟩ | ⟨rfl,rfl,rfl,hlow,hhigh⟩ |
    ⟨rfl,rfl,rfl,hlow,hhigh⟩
  · obtain ⟨b,more,rfl,-⟩ := exists_cons (Nat.le_of_succ_le_succ hcomplete)
    obtain ⟨hb,hb',hvalue⟩ := decodeContinuation_cons.mp hdecoded
    have hvalue := Option.some.inj hvalue
    refine ⟨c,hc,hlowest,?_⟩
    simp only [String.utf8EncodeChar,hc]
    rw [if_neg (by omega),if_pos (by omega),ofNat_eq firstByte (by omega),
      ofNat_eq b (by omega)]
    rfl
  · obtain ⟨b,more,rfl,hmore⟩ := exists_cons (Nat.le_of_succ_le_succ hcomplete)
    obtain ⟨d,last,rfl,-⟩ := exists_cons hmore
    obtain ⟨hb,hb',hvalue⟩ := decodeContinuation_cons.mp hdecoded
    obtain ⟨hd,hd',hvalue⟩ := decodeContinuation_cons.mp hvalue
    have hvalue := Option.some.inj hvalue
    refine ⟨c,hc,by omega,?_⟩
    simp only [String.utf8EncodeChar,hc]
    rw [if_neg (by omega),if_neg (by omega),if_pos (by omega),ofNat_eq firstByte (by omega),
      ofNat_eq b (by omega),ofNat_eq d (by omega)]
    rfl
  · obtain ⟨b,more,rfl,hmore⟩ := exists_cons (Nat.le_of_succ_le_succ hcomplete)
    obtain ⟨d,others,rfl,hothers⟩ := exists_cons hmore
    obtain ⟨e,last,rfl,-⟩ := exists_cons hothers
    obtain ⟨hb,hb',hvalue⟩ := decodeContinuation_cons.mp hdecoded
    obtain ⟨hd,hd',hvalue⟩ := decodeContinuation_cons.mp hvalue
    obtain ⟨he,he',hvalue⟩ := decodeContinuation_cons.mp hvalue
    have hvalue := Option.some.inj hvalue
    refine ⟨c,hc,by omega,?_⟩
    simp only [String.utf8EncodeChar,hc]
    rw [if_neg (by omega),if_neg (by omega),if_neg (by omega),ofNat_eq firstByte (by omega),
      ofNat_eq b (by omega),ofNat_eq d (by omega),ofNat_eq e (by omega)]
    rfl

theorem toNat_ofNat {n : ℕ} (h : n < 256) : (UInt8.ofNat n).toNat = n := by
  rw [UInt8.toNat_ofNat']
  exact Nat.mod_eq_of_lt h

theorem decodeContinuation_ofNat {codepoint n : ℕ} (hlow : 0x80 ≤ n) (hhigh : n < 0xC0) (rest : List UInt8) :
    decodeContinuation codepoint (UInt8.ofNat n :: rest) = decodeContinuation (codepoint * 64 + n % 64) rest := by
  have hn : (UInt8.ofNat n).toNat = n := toNat_ofNat (by omega)
  apply Option.ext
  intro value
  have hiff := @decodeContinuation_cons codepoint value (UInt8.ofNat n) rest
  rw [hn] at hiff
  exact hiff.trans ⟨fun h => h.2.2,fun h => ⟨hlow,hhigh,h⟩⟩

/-- The encoding of a character beyond ASCII is accepted, whatever follows it. -/
theorem decode_complete {c : Char} (hc : 0x80 ≤ c.val.toNat) (rest : List UInt8) :
    loggerLineDecodeUtf8 (String.utf8EncodeChar c ++ rest) =
      some ((String.utf8EncodeChar c).length,c.val.toNat) := by
  have hvalid : c.val.toNat < 0xD800 ∨ 0xDFFF < c.val.toNat ∧ c.val.toNat < 0x110000 := c.valid
  generalize hv : c.val.toNat = v at hc hvalid
  simp only [String.utf8EncodeChar,hv]
  rw [if_neg (by omega)]
  split
  · have hfirst : (UInt8.ofNat (v / 64 % 32 + 0xC0)).toNat = v / 64 % 32 + 0xC0 := toNat_ofNat (by omega)
    refine (decode_iff (by omega)).mpr ⟨_,_,leadingByte_two (by omega) (by omega),by simp,?_,hc,by omega,by omega⟩
    have hvalue : (UInt8.ofNat (v / 64 % 32 + 0xC0)).toNat % 32 * 64 + (v % 64 + 0x80) % 64 = v := by omega
    exact (decodeContinuation_ofNat (by omega) (by omega) _).trans (congrArg some hvalue)
  · split
    · have hfirst : (UInt8.ofNat (v / 4096 % 16 + 0xE0)).toNat = v / 4096 % 16 + 0xE0 := toNat_ofNat (by omega)
      refine (decode_iff (by omega)).mpr ⟨_,_,leadingByte_three (by omega) (by omega),by simp,?_,by omega,by omega,
        by omega⟩
      have hvalue : ((UInt8.ofNat (v / 4096 % 16 + 0xE0)).toNat % 16 * 64 + (v / 64 % 64 + 0x80) % 64) * 64 +
          (v % 64 + 0x80) % 64 = v := by omega
      exact (decodeContinuation_ofNat (by omega) (by omega) _).trans
        ((decodeContinuation_ofNat (by omega) (by omega) _).trans (congrArg some hvalue))
    · have hfirst : (UInt8.ofNat (v / 262144 % 8 + 0xF0)).toNat = v / 262144 % 8 + 0xF0 := toNat_ofNat (by omega)
      refine (decode_iff (by omega)).mpr ⟨_,_,leadingByte_four (by omega) (by omega),by simp,?_,by omega,by omega,
        by omega⟩
      have hvalue : (((UInt8.ofNat (v / 262144 % 8 + 0xF0)).toNat % 8 * 64 + (v / 4096 % 64 + 0x80) % 64) * 64 +
          (v / 64 % 64 + 0x80) % 64) * 64 + (v % 64 + 0x80) % 64 = v := by omega
      exact (decodeContinuation_ofNat (by omega) (by omega) _).trans
        ((decodeContinuation_ofNat (by omega) (by omega) _).trans
          ((decodeContinuation_ofNat (by omega) (by omega) _).trans (congrArg some hvalue)))

end Precizer.Logger
