import Precizer.Logger.MachineRules
import Precizer.Logger.PlainText

/-! # Full output

In full output the logger is in one of three modes. A call of every level without decoration
writes its payload as it is when a terminal displays it and it contains no marker; what is handed
to the callback is always displayed.
-/
namespace Precizer.Logger

/-- The modes `update_logger_mode` chooses from in full output. -/
def fullModes : List LogModes := [{ regular := true },{ verbose := true },{ testing := true }]

/-- `EVERY` -/
def everyLevel : LogModes := { regular := true,verbose := true,testing := true }

/-- `EVERY|UNDECOR` -/
def everyUndecorLevel : LogModes := { everyLevel with undecor := true }

theorem displayText_nonzero {text : List Byte} (h : DisplayText text) : (0 : Byte) ∉ text := by
  obtain ⟨characters,hpermitted,rfl⟩ := h
  intro hmem
  obtain ⟨c,hc,hbyte⟩ := List.mem_flatMap.mp hmem
  by_cases hascii : c.val.toNat < 0x80
  · rw [utf8EncodeChar_ascii hascii,List.mem_singleton] at hbyte
    have hzero := congrArg UInt8.toNat hbyte
    rw [toNat_ofNat (by omega),UInt8.toNat_zero] at hzero
    have hsafe := hpermitted c hc
    unfold Permitted at hsafe
    omega
  · have hhigh := utf8EncodeChar_high (Nat.le_of_not_lt hascii) 0 hbyte
    exact absurd hhigh (by decide)

theorem deliver_remembered {rememberIsRequested : Bool} {rememberLine line m : List Byte}
    (h : (deliver rememberIsRequested rememberLine line).remembered = some m) : m = rememberLine := by
  unfold deliver at h
  dsimp only at h
  split at h
  · exact (Option.some.inj h).symm
  · cases h

theorem displayText_removed {text : List Byte} (h : DisplayText text) : DisplayText (styled false decorations text) :=
  displayText_of_displayed (styled_displayed false (List.Subset.refl _) (h.displayed _))

theorem writeLine_remembered {memory : LineMemory} {stylesEnabled rememberIsRequested : Bool} {text m : List Byte}
    (htext : DisplayText text) (hlength : text.length ≤ intMax)
    (h : (writeLine memory stylesEnabled rememberIsRequested text).remembered = some m) : DisplayText m := by
  have hplain : rationalLoggerMarkupReplace memory.replaced false text = some (styled false decorations text) :=
    replaceDecorations_plain decorations_rule memory.replaced (sizeMax_of_intMax hlength)
  unfold writeLine at h
  split at h
  · rw [deliver_remembered h]
    exact htext
  · cases rememberIsRequested with
    | false =>
      simp only [Bool.false_and,Bool.false_eq_true,↓reduceIte] at h
      split at h
      · cases h
      · simp [deliver] at h
    | true =>
      cases stylesEnabled with
      | true =>
        simp only [Bool.and_self,↓reduceIte,hplain] at h
        split at h
        · cases h
        · rename_i hline
          split at hline
          · obtain rfl := Option.some.inj hline
            split at h
            · cases h
            · rw [deliver_remembered h]
              exact displayText_removed htext
          · cases hline
      | false =>
        simp only [Bool.and_false,Bool.false_eq_true,↓reduceIte,hplain] at h
        rw [deliver_remembered h]
        exact displayText_removed htext

theorem rationalLogger_remembered {loggerMode : LogModes} {memory : LineMemory} {stylesEnabled callback : Bool}
    {call : LogCall} {m : List Byte}
    (h : (rationalLogger loggerMode memory stylesEnabled callback call).remembered = some m) : DisplayText m := by
  unfold rationalLogger at h
  split at h
  · cases h
  · split at h
    · cases h
    · rename_i htext
      obtain ⟨rfl,hlength⟩ := loggerLineSanitizeForTerminal_some htext
      exact writeLine_remembered (sanitized_text _) hlength h

theorem matchCount_without {search text : List Byte} (h : ¬ search <:+: text) : matchCount search text = 0 := by
  induction text with
  | nil => rw [matchCount]
  | cons x rest ih =>
    rw [matchCount,if_neg (fun hstart => h hstart.isInfix)]
    exact ih (fun hwithin => h (hwithin.trans (List.suffix_cons x rest).isInfix))

theorem replaceDecorations_without {rules : List (List Byte × List Byte)} (hrules : ∀ rule ∈ rules, Rule rule)
    (reallocated stylesEnabled : Bool) {text : List Byte} (hlength : text.length < sizeMax)
    (h : ∀ rule ∈ rules, ¬ rule.1 <:+: text) : replaceDecorations reallocated stylesEnabled rules text = some text := by
  induction rules with
  | nil => rfl
  | cons rule rules ih =>
    have hvalid : ¬ (rule.1 = [] ∨ text.length = sizeMax) := by
      rintro (hempty | hmax)
      · exact (hrules rule List.mem_cons_self).ne_nil hempty
      · omega
    have hcount := matchCount_without (h rule List.mem_cons_self)
    rw [replaceDecorations,rationalLoggerReplaceAll,if_neg hvalid,if_pos hcount]
    exact ih (fun r hr => hrules r (List.mem_cons_of_mem _ hr)) (fun r hr => h r (List.mem_cons_of_mem _ hr))

theorem loggerLine_full {loggerMode : LogModes} (hmode : loggerMode ∈ fullModes) {call : LogCall}
    (hlevel : call.level = everyUndecorLevel) {payload : List Byte} (hpayload : call.payload = some payload)
    (hlength : payload.length ≤ intMax) : loggerLine loggerMode true call = some payload := by
  have hpieces : loggerLinePieces loggerMode call = [some payload] := by
    simp only [fullModes,List.mem_cons,List.not_mem_nil,or_false] at hmode
    rcases hmode with rfl | rfl | rfl
    · simp [loggerLinePieces,payloadIsVisible,everyUndecorLevel,everyLevel,hlevel,hpayload]
    · simp [loggerLinePieces,payloadIsVisible,everyUndecorLevel,everyLevel,hlevel,hpayload]
    · simp [loggerLinePieces,payloadIsVisible,everyUndecorLevel,everyLevel,hlevel,hpayload]
  rw [loggerLine,hpieces]
  simp only [List.foldlM_cons,List.foldlM_nil,loggerLineAppendVa,List.length_nil,Nat.sub_zero,List.nil_append]
  rw [if_neg (Nat.not_lt.mpr hlength)]
  rfl

theorem rationalLogger_verbatim {loggerMode : LogModes} (hmode : loggerMode ∈ fullModes) (stylesEnabled callback : Bool)
    {call : LogCall} (hlevel : call.level = everyUndecorLevel) {payload : List Byte} (hpayload : call.payload = some payload)
    (hdisplayed : DisplayText payload) (hmarker : MarkerFree payload) (hlength : payload.length ≤ intMax) :
    (rationalLogger loggerMode .available stylesEnabled callback call).terminal = payload := by
  have hsame := sanitized_of_text hdisplayed
  have hline : loggerLine loggerMode LineMemory.available.appended call = some payload :=
    loggerLine_full hmode hlevel hpayload hlength
  have htext : loggerLineSanitizeForTerminal LineMemory.available.sanitized payload = some payload := by
    have hroom : (sanitized payload).length ≤ intMax := by rwa [hsame]
    exact (loggerLineSanitizeForTerminal_available payload).trans (by rw [if_pos hroom,hsame])
  have hquiet : (call.level.remember && callback) = false := by
    rw [hlevel]
    rfl
  have hreplaced : rationalLoggerMarkupReplace LineMemory.available.replaced stylesEnabled payload = some payload :=
    replaceDecorations_without decorations_rule _ _ (sizeMax_of_intMax hlength) hmarker
  rw [rationalLogger,hline]
  dsimp only
  rw [htext,hquiet]
  unfold writeLine
  simp only [Bool.false_and,Bool.false_eq_true,↓reduceIte,hreplaced]
  split <;> rfl

end Precizer.Logger
