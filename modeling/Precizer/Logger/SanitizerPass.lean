import Precizer.General.Blocks
import Precizer.Logger.Markup

/-! # The two passes of the sanitizer

One function measures the sanitized text and writes it: without an output buffer it only adds
up the lengths, with one it stores every fragment where the lengths put it.
-/
namespace Precizer.Logger
open General

/-- The measured length of a turn: escaping one byte takes four. -/
def fragmentLength (byte : Byte) (rest : List Byte) : ℕ :=
  if (nextFragment byte rest).2 then (nextFragment byte rest).1 * 4 else (nextFragment byte rest).1

/-- The loop over the input. A length of `none` stands for `SIZE_MAX`; the whole result is `none`
when a byte would be stored outside the buffer. -/
def loggerLineSanitizePass (outputLen : ℕ) (output : Option (List Byte)) :
    List Byte → Option (Option ℕ × Option (List Byte))
  | [] => some (some outputLen,output)
  | byte :: rest =>
    if intMax - outputLen < fragmentLength byte rest ∨ sizeMax - outputLen - 1 < fragmentLength byte rest then
      some (none,output)
    else
      match output with
      | none =>
        loggerLineSanitizePass (outputLen + fragmentLength byte rest) none (rest.drop ((nextFragment byte rest).1 - 1))
      | some buffer =>
        match write? buffer outputLen (writtenFragment byte rest) with
        | none => none
        | some buffer => loggerLineSanitizePass (outputLen + fragmentLength byte rest) (some buffer)
            (rest.drop ((nextFragment byte rest).1 - 1))
termination_by input => input.length

theorem length_writtenFragment (byte : Byte) (rest : List Byte) :
    (writtenFragment byte rest).length = fragmentLength byte rest := by
  have hwithin := nextFragment_within byte rest
  rw [writtenFragment,fragmentLength]
  split
  · rw [length_hexEscapes,List.length_take,List.length_cons]
    omega
  · rw [List.length_take,List.length_cons]
    omega

theorem sanitizePass_measure (outputLen : ℕ) (input : List Byte) (hlen : outputLen ≤ intMax) :
    loggerLineSanitizePass outputLen none input =
      some (if outputLen + (sanitized input).length ≤ intMax then some (outputLen + (sanitized input).length) else none,
        none) := by
  induction hlength : input.length using Nat.strong_induction_on generalizing input outputLen with
  | _ n ih =>
    cases input with
    | nil => simp [loggerLineSanitizePass,hlen]
    | cons byte rest =>
      have hshorter : (rest.drop ((nextFragment byte rest).1 - 1)).length < n := by
        simp only [List.length_drop,← hlength,List.length_cons]
        omega
      have hfragment := length_writtenFragment byte rest
      have hsize : intMax < sizeMax := by decide
      rw [loggerLineSanitizePass,sanitized_cons,List.length_append,hfragment]
      by_cases hroom : intMax - outputLen < fragmentLength byte rest
      · rw [if_pos (.inl hroom),if_neg (by omega)]
      · rw [if_neg (by omega),ih _ hshorter _ _ (by omega) rfl,Nat.add_assoc]

theorem sanitizePass_write (before room input : List Byte) (hroom : (sanitized input).length ≤ room.length)
    (hfits : before.length + (sanitized input).length ≤ intMax) :
    loggerLineSanitizePass before.length (some (before ++ room)) input =
      some (some (before.length + (sanitized input).length),
        some (before ++ sanitized input ++ room.drop (sanitized input).length)) := by
  induction hlength : input.length using Nat.strong_induction_on generalizing input before room with
  | _ n ih =>
    cases input with
    | nil => simp [loggerLineSanitizePass]
    | cons byte rest =>
      have hshorter : (rest.drop ((nextFragment byte rest).1 - 1)).length < n := by
        simp only [List.length_drop,← hlength,List.length_cons]
        omega
      have hfragment := length_writtenFragment byte rest
      have hsize : intMax < sizeMax := by decide
      rw [sanitized_cons,List.length_append,hfragment] at hroom hfits
      have hnext := ih _ hshorter (before ++ writtenFragment byte rest) (room.drop (writtenFragment byte rest).length) _
        (by rw [List.length_drop,hfragment]; omega) (by rw [List.length_append,hfragment]; omega) rfl
      rw [List.length_append,hfragment] at hnext
      rw [loggerLineSanitizePass,if_neg (by omega),write?_append (by omega)]
      dsimp only
      rw [hfragment,hnext,sanitized_cons,List.length_append,hfragment,List.drop_drop]
      simp [Nat.add_assoc]

/-- The text a byte string is rewritten to: a permitted character is kept, a byte that starts
none is escaped. -/
inductive Sanitizes : List Byte → List Byte → Prop where
  | empty : Sanitizes [] []
  | kept {c : Char} {rest written : List Byte} (hc : Permitted c) (hrest : Sanitizes rest written) :
      Sanitizes (String.utf8EncodeChar c ++ rest) (String.utf8EncodeChar c ++ written)
  | escaped {byte : Byte} {rest written : List Byte}
      (hbyte : ∀ c, Permitted c → ¬ String.utf8EncodeChar c <+: byte :: rest) (hrest : Sanitizes rest written) :
      Sanitizes (byte :: rest) (loggerLineAppendHexEscape byte ++ written)

theorem sanitized_kept {c : Char} (hc : Permitted c) (rest : List Byte) :
    sanitized (String.utf8EncodeChar c ++ rest) = String.utf8EncodeChar c ++ sanitized rest := by
  obtain ⟨byte,tail,hbytes⟩ : ∃ byte tail, String.utf8EncodeChar c = byte :: tail :=
    List.exists_cons_of_ne_nil String.utf8EncodeChar_ne_nil
  rw [hbytes,List.cons_append,sanitized_cons,writtenFragment,nextFragment_char hc hbytes]
  simp

theorem sanitized_continuation {byte : Byte} (hlow : 0x80 ≤ byte.toNat) (hhigh : byte.toNat < 0xC0) (rest : List Byte) :
    sanitized (byte :: rest) = loggerLineAppendHexEscape byte ++ sanitized rest := by
  have hleading : leadingByte byte.toNat = none := by
    rw [leadingByte,if_neg (by omega),if_neg (by omega),if_neg (by omega)]
  have hnone : loggerLineDecodeUtf8 (byte :: rest) = none := by
    rw [loggerLineDecodeUtf8,if_neg (by omega),hleading]
  have hfragment : nextFragment byte rest = (1,true) := by
    rw [nextFragment,if_neg (by omega),hnone]
  rw [sanitized_cons,writtenFragment,hfragment]
  simp

theorem utf8EncodeChar_control {c : Char} (hlow : 0x80 ≤ c.val.toNat) (hhigh : c.val.toNat ≤ 0x9F) :
    String.utf8EncodeChar c = [0xC2,UInt8.ofNat c.val.toNat] := by
  have hfirst : c.val.toNat / 64 % 32 + 0xC0 = 0xC2 := by omega
  have hsecond : c.val.toNat % 64 + 0x80 = c.val.toNat := by omega
  simp only [String.utf8EncodeChar]
  rw [if_neg (by omega),if_pos (by omega),hfirst,hsecond]
  rfl

theorem sanitized_escaped {byte : Byte} {rest : List Byte}
    (hbyte : ∀ c, Permitted c → ¬ String.utf8EncodeChar c <+: byte :: rest) :
    sanitized (byte :: rest) = loggerLineAppendHexEscape byte ++ sanitized rest := by
  by_cases hascii : byte.toNat < 0x80
  · have hcontrol : controlByte byte = true := by
      by_contra hsafe
      obtain ⟨c,hc,hencoded⟩ := exists_ascii hascii
      exact hbyte c (permitted_ascii hascii hc (by simpa using hsafe)) ⟨rest,by simp [hencoded]⟩
    have hfragment : nextFragment byte rest = (1,true) := by rw [nextFragment,if_pos hascii,hcontrol]
    rw [sanitized_cons,writtenFragment,hfragment]
    simp
  · cases hdecoded : loggerLineDecodeUtf8 (byte :: rest) with
    | none =>
      have hfragment : nextFragment byte rest = (1,true) := by rw [nextFragment,if_neg hascii,hdecoded]
      rw [sanitized_cons,writtenFragment,hfragment]
      simp
    | some decoded =>
      obtain ⟨consumed,codepoint⟩ := decoded
      obtain ⟨c,rfl,hlow,hencoded⟩ := decode_sound hascii hdecoded
      have hhigh : c.val.toNat ≤ 0x9F := by
        by_contra hprintable
        refine hbyte c (.inr (.inr (.inr (by omega)))) ?_
        rw [← hencoded]
        exact List.take_prefix consumed _
      -- both bytes of the control are escaped, as they are one after the other
      have hwithin := (nextFragment_within byte rest).2
      have hfragment : nextFragment byte rest = (consumed,true) := by
        rw [nextFragment,if_neg hascii,hdecoded]
        simp only [hlow,hhigh,decide_true,Bool.and_self]
      rw [hfragment] at hwithin
      have hlength := congrArg List.length hencoded
      rw [utf8EncodeChar_control hlow hhigh] at hencoded hlength
      have hconsumed : consumed = 2 := by
        simp at hlength hwithin
        omega
      subst hconsumed
      cases rest with
      | nil => simp at hwithin
      | cons second rest =>
        have hsecond : second = UInt8.ofNat c.val.toNat := by
          simp at hencoded
          exact hencoded.2
        have hvalue : second.toNat = c.val.toNat := by rw [hsecond,toNat_ofNat (by omega)]
        rw [sanitized_cons,writtenFragment,hfragment,sanitized_continuation (by omega) (by omega)]
        simp

/-- The relation has exactly one result, the sanitized text. -/
theorem sanitizes_iff {input written : List Byte} : Sanitizes input written ↔ written = sanitized input := by
  constructor
  · intro h
    induction h with
    | empty => rw [sanitized_nil]
    | kept hc hrest ih => rw [sanitized_kept hc,ih]
    | escaped hbyte hrest ih => rw [sanitized_escaped hbyte,ih]
  · rintro rfl
    induction hlength : input.length using Nat.strong_induction_on generalizing input with
    | _ n ih =>
      cases input with
      | nil =>
        rw [sanitized_nil]
        exact .empty
      | cons byte rest =>
        by_cases hstarts : ∃ c, Permitted c ∧ String.utf8EncodeChar c <+: byte :: rest
        · obtain ⟨c,hc,after,hafter⟩ := hstarts
          have hpos := List.length_pos_of_ne_nil (@String.utf8EncodeChar_ne_nil c)
          have hcount := congrArg List.length hafter
          rw [List.length_append] at hcount
          rw [← hafter,sanitized_kept hc]
          exact .kept hc (ih after.length (by omega) rfl)
        · have hbyte : ∀ c, Permitted c → ¬ String.utf8EncodeChar c <+: byte :: rest :=
            fun c hc hstart => hstarts ⟨c,hc,hstart⟩
          rw [sanitized_escaped hbyte]
          exact .escaped hbyte (ih rest.length (by simp [← hlength]) rfl)

end Precizer.Logger
