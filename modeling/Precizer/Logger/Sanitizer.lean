import Precizer.Logger.Utf8

/-! # Sanitized lines

The sanitizer copies printable ASCII, newlines, carriage returns, tabs and encoded characters
that are no controls, and writes every other byte as `\xNN`. Its result is a text: the
encoding of characters that a terminal only displays.
-/
namespace Precizer.Logger

abbrev Byte := UInt8

def intMax : ℕ := 2 ^ 31 - 1

/-- `0123456789ABCDEF` -/
def hexDigit (n : ℕ) : Byte := UInt8.ofNat (if n < 10 then 48 + n else 55 + n)

/-- `\xNN` -/
def loggerLineAppendHexEscape (byte : Byte) : List Byte :=
  [92,120,hexDigit (byte.toNat >>> 4),hexDigit (byte.toNat &&& 0x0F)]

/-- An ASCII control that is not kept for layout. -/
def controlByte (byte : Byte) : Bool :=
  byte ≠ 10 && byte ≠ 13 && byte ≠ 9 && (byte.toNat < 0x20 || byte = 0x7F)

/-- One turn of the loop: the bytes it consumes and whether they need an escape. -/
def nextFragment (byte : Byte) (rest : List Byte) : ℕ × Bool :=
  if byte.toNat < 0x80 then (1,controlByte byte)
  else
    match loggerLineDecodeUtf8 (byte :: rest) with
    | none => (1,true)
    | some (decodedLen,codepoint) => (decodedLen,0x80 ≤ codepoint && codepoint ≤ 0x9F)

def writtenFragment (byte : Byte) (rest : List Byte) : List Byte :=
  if (nextFragment byte rest).2 then
    ((byte :: rest).take (nextFragment byte rest).1).flatMap loggerLineAppendHexEscape
  else (byte :: rest).take (nextFragment byte rest).1

/-- The loop after `outputLen` bytes; `none` stands for `SIZE_MAX`. A length below `INT_MAX`
also leaves room for the terminator. -/
def loggerLineSanitizeText (outputLen : ℕ) : List Byte → Option (List Byte)
  | [] => some []
  | byte :: rest =>
    if intMax - outputLen < (writtenFragment byte rest).length then none
    else (loggerLineSanitizeText (outputLen + (writtenFragment byte rest).length)
      (rest.drop ((nextFragment byte rest).1 - 1))).map (writtenFragment byte rest ++ ·)
termination_by input => input.length

/-- The line after the sanitizer; without memory or beyond the limit it is suppressed. -/
def loggerLineSanitizeForTerminal (allocated : Bool) (line : List Byte) : Option (List Byte) :=
  match loggerLineSanitizeText 0 line with
  | none => none
  | some sanitizedLine =>
    if sanitizedLine.length = line.length then some line
    else if allocated then some sanitizedLine else none

def sanitized : List Byte → List Byte
  | [] => []
  | byte :: rest => writtenFragment byte rest ++ sanitized (rest.drop ((nextFragment byte rest).1 - 1))
termination_by input => input.length

@[simp] theorem sanitized_nil : sanitized [] = [] := by rw [sanitized]

theorem sanitized_cons (byte : Byte) (rest : List Byte) : sanitized (byte :: rest) =
    writtenFragment byte rest ++ sanitized (rest.drop ((nextFragment byte rest).1 - 1)) := by
  rw [sanitized]

theorem loggerLineSanitizeText_eq (outputLen : ℕ) (input : List Byte) (hlen : outputLen ≤ intMax) :
    loggerLineSanitizeText outputLen input =
      if outputLen + (sanitized input).length ≤ intMax then some (sanitized input) else none := by
  induction hlength : input.length using Nat.strong_induction_on generalizing input outputLen with
  | _ n ih =>
    cases input with
    | nil => simp [loggerLineSanitizeText,hlen]
    | cons byte rest =>
      have hshorter : (rest.drop ((nextFragment byte rest).1 - 1)).length < n := by
        rw [List.length_drop,← hlength,List.length_cons]
        omega
      rw [loggerLineSanitizeText,sanitized_cons,List.length_append]
      by_cases hroom : intMax - outputLen < (writtenFragment byte rest).length
      · rw [if_pos hroom,if_neg (by omega)]
      · rw [if_neg hroom,ih _ hshorter _ _ (by omega) rfl,Nat.add_assoc]
        split
        · rfl
        · rfl

/-- A character a terminal only displays or lays out. -/
def Permitted (c : Char) : Prop :=
  c.val.toNat = 10 ∨ c.val.toNat = 13 ∨ c.val.toNat = 9 ∨
    0x20 ≤ c.val.toNat ∧ c.val.toNat ≠ 0x7F ∧ ¬ (0x80 ≤ c.val.toNat ∧ c.val.toNat ≤ 0x9F)

def DisplayText (bytes : List Byte) : Prop :=
  ∃ characters : List Char, (∀ c ∈ characters, Permitted c) ∧ bytes = characters.flatMap String.utf8EncodeChar

theorem DisplayText.nil : DisplayText [] := ⟨[],by simp,rfl⟩

theorem DisplayText.append {a b : List Byte} (ha : DisplayText a) (hb : DisplayText b) : DisplayText (a ++ b) := by
  obtain ⟨characters,hpermitted,rfl⟩ := ha
  obtain ⟨others,hothers,rfl⟩ := hb
  refine ⟨characters ++ others,?_,List.flatMap_append.symm⟩
  intro c hc
  exact (List.mem_append.mp hc).elim (hpermitted c) (hothers c)

theorem DisplayText.single {c : Char} (h : Permitted c) : DisplayText (String.utf8EncodeChar c) :=
  ⟨[c],by simpa using h,by simp⟩

theorem exists_ascii {byte : Byte} (h : byte.toNat < 0x80) :
    ∃ c : Char, c.val.toNat = byte.toNat ∧ String.utf8EncodeChar c = [byte] := by
  obtain ⟨c,hc⟩ := @exists_char byte.toNat (by omega) (by omega)
  refine ⟨c,hc,?_⟩
  simp only [String.utf8EncodeChar,hc]
  rw [if_pos (by omega),UInt8.ofNat_toNat]

theorem controlByte_eq_false {byte : Byte} (h : byte.toNat < 0x80) : controlByte byte = false ↔
    byte.toNat = 10 ∨ byte.toNat = 13 ∨ byte.toNat = 9 ∨ 0x20 ≤ byte.toNat ∧ byte.toNat ≠ 0x7F := by
  have hall : ∀ n < 128, controlByte (UInt8.ofNat n) = false ↔ n = 10 ∨ n = 13 ∨ n = 9 ∨ 0x20 ≤ n ∧ n ≠ 0x7F := by
    decide +kernel
  have hbyte := hall byte.toNat h
  rwa [UInt8.ofNat_toNat] at hbyte

theorem permitted_ascii {c : Char} {byte : Byte} (h : byte.toNat < 0x80) (hc : c.val.toNat = byte.toNat)
    (hsafe : controlByte byte = false) : Permitted c := by
  have hcases := (controlByte_eq_false h).mp hsafe
  unfold Permitted
  rw [hc]
  omega

theorem DisplayText.ascii {bytes : List Byte} (h : ∀ b ∈ bytes, b.toNat < 0x80 ∧ controlByte b = false) :
    DisplayText bytes := by
  induction bytes with
  | nil => exact .nil
  | cons byte rest ih =>
    obtain ⟨hascii,hsafe⟩ := h byte List.mem_cons_self
    obtain ⟨c,hc,hbytes⟩ := exists_ascii hascii
    have hfirst : DisplayText [byte] := hbytes ▸ .single (permitted_ascii hascii hc hsafe)
    exact hfirst.append (ih (fun b hb => h b (List.mem_cons_of_mem byte hb)))

theorem hexDigit_ascii : ∀ n < 16, (hexDigit n).toNat < 0x80 ∧ controlByte (hexDigit n) = false := by
  decide +kernel

theorem loggerLineAppendHexEscape_text (byte : Byte) : DisplayText (loggerLineAppendHexEscape byte) := by
  have hbound := byte.toNat_lt
  have hhigh : byte.toNat >>> 4 < 16 := by
    rw [Nat.shiftRight_eq_div_pow]
    omega
  have hlow : byte.toNat &&& 0x0F < 16 := by
    rw [show (0x0F : ℕ) = 2 ^ 4 - 1 from rfl,Nat.and_two_pow_sub_one_eq_mod]
    exact Nat.mod_lt _ (by decide)
  refine .ascii ?_
  intro b hb
  simp only [loggerLineAppendHexEscape,List.mem_cons,List.not_mem_nil,or_false] at hb
  rcases hb with rfl | rfl | rfl | rfl
  · decide
  · decide
  · exact hexDigit_ascii _ hhigh
  · exact hexDigit_ascii _ hlow

theorem hexEscapes_text (bytes : List Byte) : DisplayText (bytes.flatMap loggerLineAppendHexEscape) := by
  induction bytes with
  | nil => exact .nil
  | cons byte rest ih => exact (loggerLineAppendHexEscape_text byte).append ih

theorem writtenFragment_text (byte : Byte) (rest : List Byte) : DisplayText (writtenFragment byte rest) := by
  unfold writtenFragment
  split
  · exact hexEscapes_text _
  · rename_i hkept
    unfold nextFragment at hkept ⊢
    split at hkept
    · rename_i hascii
      rw [if_pos hascii]
      refine .ascii ?_
      intro b hb
      rw [List.take_succ_cons,List.take_zero,List.mem_singleton] at hb
      exact hb ▸ ⟨hascii,Bool.eq_false_of_not_eq_true hkept⟩
    · rename_i hascii
      rw [if_neg hascii]
      split at hkept
      · exact absurd rfl hkept
      · rename_i decodedLen codepoint hdecoded
        obtain ⟨c,hc,hlow,hbytes⟩ := decode_sound hascii hdecoded
        rw [hbytes]
        refine .single (.inr (.inr (.inr ?_)))
        simp only [Bool.and_eq_true,decide_eq_true_eq] at hkept
        omega

/-- Whatever the line contains, its sanitized form is only displayed. -/
theorem sanitized_text (input : List Byte) : DisplayText (sanitized input) := by
  induction hlength : input.length using Nat.strong_induction_on generalizing input with
  | _ n ih =>
    cases input with
    | nil => rw [sanitized_nil]; exact .nil
    | cons byte rest =>
      rw [sanitized_cons]
      refine (writtenFragment_text byte rest).append (ih _ ?_ _ rfl)
      rw [List.length_drop,← hlength,List.length_cons]
      omega

theorem utf8EncodeChar_ascii {c : Char} (h : c.val.toNat < 0x80) :
    String.utf8EncodeChar c = [UInt8.ofNat c.val.toNat] := by
  simp only [String.utf8EncodeChar]
  rw [if_pos (by omega)]

theorem nextFragment_char {c : Char} (h : Permitted c) {byte : Byte} {tail : List Byte}
    (hbytes : String.utf8EncodeChar c = byte :: tail) (rest : List Byte) :
    nextFragment byte (tail ++ rest) = (tail.length + 1,false) := by
  by_cases hascii : c.val.toNat < 0x80
  · rw [utf8EncodeChar_ascii hascii] at hbytes
    obtain ⟨rfl,rfl⟩ := List.cons.inj hbytes
    have hvalue : (UInt8.ofNat c.val.toNat).toNat = c.val.toNat := toNat_ofNat (by omega)
    have hsafe : controlByte (UInt8.ofNat c.val.toNat) = false := by
      apply (controlByte_eq_false (by omega)).mpr
      rw [hvalue]
      unfold Permitted at h
      omega
    rw [nextFragment,if_pos (by omega),hsafe]
    rfl
  · have hdecoded := decode_complete (Nat.le_of_not_lt hascii) rest
    rw [hbytes,List.cons_append] at hdecoded
    have hfirst : ¬ byte.toNat < 0x80 := by
      intro hfirst
      rw [loggerLineDecodeUtf8,if_pos hfirst] at hdecoded
      have hpair := Prod.mk.inj (Option.some.inj hdecoded)
      omega
    rw [nextFragment,if_neg hfirst,hdecoded]
    have hprintable : (decide (0x80 ≤ c.val.toNat) && decide (c.val.toNat ≤ 0x9F)) = false := by
      rw [← Bool.decide_and]
      apply decide_eq_false
      unfold Permitted at h
      omega
    exact Prod.ext rfl hprintable

theorem sanitized_of_text {bytes : List Byte} (h : DisplayText bytes) : sanitized bytes = bytes := by
  obtain ⟨characters,hpermitted,rfl⟩ := h
  induction characters with
  | nil => exact sanitized_nil
  | cons c rest ih =>
    have hrest := ih (fun d hd => hpermitted d (List.mem_cons_of_mem c hd))
    obtain ⟨byte,tail,hbytes⟩ : ∃ byte tail, String.utf8EncodeChar c = byte :: tail :=
      List.exists_cons_of_ne_nil String.utf8EncodeChar_ne_nil
    rw [List.flatMap_cons,hbytes,List.cons_append,sanitized_cons,writtenFragment,
      nextFragment_char (hpermitted c List.mem_cons_self) hbytes]
    rw [if_neg (by simp),Nat.add_sub_cancel,List.drop_left,hrest,List.take_succ_cons,List.take_left,
      List.cons_append]

theorem decodeContinuation_mem {codepoint n : ℕ} {bytes : List Byte}
    (h : decodeContinuation codepoint bytes = some n) : ∀ b ∈ bytes, 0x80 ≤ b.toNat := by
  induction bytes generalizing codepoint with
  | nil => simp
  | cons byte rest ih =>
    obtain ⟨hlow,-,hrest⟩ := decodeContinuation_cons.mp h
    intro b hb
    rcases List.mem_cons.mp hb with rfl | hb
    · exact hlow
    · exact ih hrest b hb

theorem decode_append_ascii {c : Byte} (hc : c.toNat < 0x80) {byte : Byte} (hbyte : ¬ byte.toNat < 0x80)
    (before after : List Byte) :
    loggerLineDecodeUtf8 (byte :: (before ++ c :: after)) = loggerLineDecodeUtf8 (byte :: before) := by
  apply Option.ext
  rintro ⟨consumed,codepoint⟩
  rw [decode_iff hbyte,decode_iff hbyte]
  constructor
  · rintro ⟨bits,lowest,hleading,hcomplete,hdecoded,hrange⟩
    have hwithin : consumed ≤ before.length + 1 := by
      by_contra hbeyond
      have hmem : c ∈ (before ++ c :: after).take (consumed - 1) := by
        rw [List.take_append,List.mem_append]
        refine .inr ?_
        rw [show consumed - 1 - before.length = consumed - 2 - before.length + 1 by omega,List.take_succ_cons]
        exact List.mem_cons_self
      have hlow := decodeContinuation_mem hdecoded c hmem
      omega
    rw [List.take_append_of_le_length (by omega)] at hdecoded
    exact ⟨bits,lowest,hleading,hwithin,hdecoded,hrange⟩
  · rintro ⟨bits,lowest,hleading,hcomplete,hdecoded,hrange⟩
    rw [← List.take_append_of_le_length (by omega : consumed - 1 ≤ before.length)] at hdecoded
    refine ⟨bits,lowest,hleading,?_,hdecoded,hrange⟩
    rw [List.length_append]
    omega

theorem nextFragment_append_ascii {c : Byte} (hc : c.toNat < 0x80) (byte : Byte) (before after : List Byte) :
    nextFragment byte (before ++ c :: after) = nextFragment byte before := by
  unfold nextFragment
  split
  · rfl
  · rename_i hbyte
    rw [decode_append_ascii hc hbyte]

theorem nextFragment_within (byte : Byte) (rest : List Byte) :
    1 ≤ (nextFragment byte rest).1 ∧ (nextFragment byte rest).1 ≤ rest.length + 1 := by
  unfold nextFragment
  split
  · exact ⟨Nat.le_refl _,Nat.le_add_left _ _⟩
  · rename_i hbyte
    split
    · exact ⟨Nat.le_refl _,Nat.le_add_left _ _⟩
    · rename_i decodedLen codepoint hdecoded
      obtain ⟨bits,lowest,hleading,hcomplete,-⟩ := (decode_iff hbyte).mp hdecoded
      refine ⟨?_,hcomplete⟩
      rcases leadingByte_eq hleading with h | h | h <;> omega

theorem length_hexEscapes (bytes : List Byte) :
    (bytes.flatMap loggerLineAppendHexEscape).length = 4 * bytes.length := by
  induction bytes with
  | nil => rfl
  | cons byte rest ih =>
    rw [List.flatMap_cons,List.length_append,ih,List.length_cons,loggerLineAppendHexEscape]
    simp only [List.length_cons,List.length_nil]
    omega

/-- An escape is longer than what it stands for. -/
theorem writtenFragment_length (byte : Byte) (rest : List Byte) :
    writtenFragment byte rest = (byte :: rest).take (nextFragment byte rest).1 ∨
      (nextFragment byte rest).1 < (writtenFragment byte rest).length := by
  have hwithin := nextFragment_within byte rest
  unfold writtenFragment
  split
  · right
    rw [length_hexEscapes,List.length_take,List.length_cons]
    omega
  · exact .inl rfl

/-- A line only keeps its length when it is not changed. -/
theorem sanitized_length (input : List Byte) :
    input.length ≤ (sanitized input).length ∧ ((sanitized input).length = input.length → sanitized input = input) := by
  induction hlength : input.length using Nat.strong_induction_on generalizing input with
  | _ n ih =>
    cases input with
    | nil => simp [← hlength]
    | cons byte rest =>
      have hwithin := nextFragment_within byte rest
      have hcount : rest.length + 1 = n := hlength
      have hdropped : (rest.drop ((nextFragment byte rest).1 - 1)).length = n - (nextFragment byte rest).1 := by
        rw [List.length_drop]
        omega
      have hshorter : n - (nextFragment byte rest).1 < n := by omega
      obtain ⟨hle,hsame⟩ := ih _ hshorter _ hdropped
      rw [sanitized_cons,List.length_append]
      rcases writtenFragment_length byte rest with hkept | hescaped
      · have hwritten : (writtenFragment byte rest).length = (nextFragment byte rest).1 := by
          rw [hkept,List.length_take,List.length_cons]
          omega
        refine ⟨by omega,fun heq => ?_⟩
        rw [hsame (by omega),hkept]
        have hdrop : rest.drop ((nextFragment byte rest).1 - 1) = (byte :: rest).drop (nextFragment byte rest).1 := by
          obtain ⟨k,hk⟩ : ∃ k, (nextFragment byte rest).1 = k + 1 := ⟨(nextFragment byte rest).1 - 1,by omega⟩
          rw [hk,Nat.add_sub_cancel,List.drop_succ_cons]
        rw [hdrop,List.take_append_drop]
      · exact ⟨by omega,fun heq => by omega⟩

theorem sanitized_append_ascii {c : Byte} (hc : c.toNat < 0x80) (before after : List Byte) :
    sanitized (before ++ c :: after) = sanitized before ++ sanitized (c :: after) := by
  induction hlength : before.length using Nat.strong_induction_on generalizing before with
  | _ n ih =>
    cases before with
    | nil => simp
    | cons byte rest =>
      have hwithin := nextFragment_within byte rest
      have hshorter : (rest.drop ((nextFragment byte rest).1 - 1)).length < n := by
        rw [List.length_drop,← hlength,List.length_cons]
        omega
      rw [List.cons_append,sanitized_cons,sanitized_cons,writtenFragment,writtenFragment,
        nextFragment_append_ascii hc,List.drop_append_of_le_length (by omega),ih _ hshorter _ rfl,
        ← List.cons_append,List.take_append_of_le_length (by rw [List.length_cons]; exact hwithin.2),List.append_assoc]

end Precizer.Logger
