import Precizer.Logger.SanitizerPass

/-! # The exact sanitizer

What the sanitizer measures is what it writes, and what it writes is the input with exactly the
unsafe bytes escaped.
-/
namespace Precizer.Guarantees
open Logger

/-- For every byte string whose result fits an `int`: the pass measures the length of the result,
and with any buffer of that size it writes exactly that number of bytes and touches no other
byte; the text keeps every encoding of a permitted character and escapes every other byte in
order; and the sanitizer leaves its own result unchanged. -/
theorem exact_sanitizer (input : List Byte) (hfits : (sanitized input).length ≤ intMax) :
    ∃ written, loggerLineSanitizePass 0 none input = some (some written.length,none) ∧ Sanitizes input written ∧
      (∀ buffer, written.length ≤ buffer.length →
        loggerLineSanitizePass 0 (some buffer) input =
          some (some written.length,some (written ++ buffer.drop written.length))) ∧
      loggerLineSanitizePass 0 none written = some (some written.length,none) ∧
      ∀ buffer, written.length ≤ buffer.length →
        loggerLineSanitizePass 0 (some buffer) written =
          some (some written.length,some (written ++ buffer.drop written.length)) := by
  have hstable : sanitized (sanitized input) = sanitized input := sanitized_of_text (sanitized_text input)
  refine ⟨sanitized input,?_,sanitizes_iff.mpr rfl,?_,?_,?_⟩
  · rw [sanitizePass_measure 0 _ (Nat.zero_le _),Nat.zero_add,if_pos hfits]
  · intro buffer hroom
    simpa using sanitizePass_write [] buffer input hroom (by simpa using hfits)
  · rw [sanitizePass_measure 0 _ (Nat.zero_le _),hstable,Nat.zero_add,if_pos hfits]
  · intro buffer hroom
    have hwrite := sanitizePass_write [] buffer (sanitized input) (by rwa [hstable]) (by simpa [hstable] using hfits)
    simpa [hstable] using hwrite

/-- An embedded NUL, an overlong encoding and a C1 control beside a character that is kept. -/
theorem exact_sanitizer_small :
    loggerLineSanitizePass 0 none [0,0xC0,0x80,0xC2,0x90,0xC3,0xA9] = some (some 22,none) ∧
      ∃ written, written.length = 22 ∧ Sanitizes [0,0xC0,0x80,0xC2,0x90,0xC3,0xA9] written := by
  have hmeasured : loggerLineSanitizePass 0 none [0,0xC0,0x80,0xC2,0x90,0xC3,0xA9] = some (some 22,none) := by
    decide +kernel
  obtain ⟨written,hlength,hwritten,-⟩ := exact_sanitizer [0,0xC0,0x80,0xC2,0x90,0xC3,0xA9] (by decide +kernel)
  rw [hmeasured] at hlength
  exact ⟨hmeasured,written,by simpa using hlength.symm,hwritten⟩

end Precizer.Guarantees
