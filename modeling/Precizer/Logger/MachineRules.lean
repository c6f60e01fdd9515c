import Precizer.Logger.MachineLine

/-! # What machine output does to a path

A call prints the sanitized payload with its markers replaced. The result may be cut at bytes
that no marker contains, and a marker at the end of a path leaves no trace in it.
-/
namespace Precizer.Logger
open General Traversal Database

/-- The byte occurs in no marker. -/
def Unmarked (b : Byte) : Prop := ∀ rule ∈ decorations, b ∉ rule.1

instance (b : Byte) : Decidable (Unmarked b) := by
  unfold Unmarked
  infer_instance

theorem styled_append_cons {b : Byte} {rules : List (List Byte × List Byte)} (hrules : rules ⊆ decorations)
    (hb : Unmarked b) (stylesEnabled : Bool) (before after : List Byte) :
    styled stylesEnabled rules (before ++ b :: after) =
      styled stylesEnabled rules before ++ b :: styled stylesEnabled rules after := by
  induction rules generalizing before after with
  | nil => rfl
  | cons rule rules ih =>
    have hmem := hrules List.mem_cons_self
    have hstep := @replaceAll_append_cons_of_notMem Byte _ rule.1 (if stylesEnabled then rule.2 else []) b
      (hb rule hmem) (decorations_rule rule hmem).ne_nil before after
    have hrest := ih (fun r hr => hrules (List.mem_cons_of_mem _ hr))
      (replaceAll rule.1 (if stylesEnabled then rule.2 else []) before)
      (replaceAll rule.1 (if stylesEnabled then rule.2 else []) after)
    exact (congrArg (styled stylesEnabled rules) hstep).trans hrest

theorem not_marker_of_notMem {text : List Byte} (h : atSign ∉ text) : ∀ rule ∈ decorations, ¬ rule.1 <:+: text := by
  intro rule hrule hwithin
  obtain ⟨rest,hhead,-⟩ := (decorations_rule rule hrule).head
  exact h (hwithin.subset (hhead ▸ List.mem_cons_self))

theorem styled_length (rules : List (List Byte × List Byte)) (hrules : rules ⊆ decorations) (text : List Byte) :
    (styled false rules text).length ≤ text.length := by
  induction rules generalizing text with
  | nil => exact Nat.le_refl _
  | cons rule rules ih =>
    have hrule := decorations_rule rule (hrules List.mem_cons_self)
    have hle := @length_replaceAll_le _ _ rule.1 [] hrule.ne_nil (Nat.zero_le _) text
    exact (ih (fun r hr => hrules (List.mem_cons_of_mem _ hr)) _).trans hle

theorem sizeMax_of_intMax {n : ℕ} (h : n ≤ intMax) : n < sizeMax := by
  unfold intMax at h
  unfold sizeMax
  omega

theorem writeLine_plain (memory : LineMemory) (rememberIsRequested : Bool) {text : List Byte}
    (hlength : text.length ≤ intMax) :
    (writeLine memory false rememberIsRequested text).terminal = styled false decorations text := by
  unfold writeLine
  split
  · rename_i hopen
    exact (styled_unopened hopen false).symm
  · rw [if_neg (by simp),rationalLoggerMarkupReplace,
      replaceDecorations_plain decorations_rule memory.replaced (sizeMax_of_intMax hlength)]
    rfl

section Slog

variable {level : LogModes} (hlevel : level.machine = true) (hundecor : level.undecor = true)
include hlevel hundecor

theorem loggerLine_machine (payload : List Byte) :
    loggerLine machineMode true ⟨level,[],[],[],[],some payload⟩ =
      if payload.length ≤ intMax then some payload else none := by
  have hpieces : loggerLinePieces machineMode ⟨level,[],[],[],[],some payload⟩ = [some payload] := by
    simp [loggerLinePieces,machineMode,hlevel,hundecor]
  rw [loggerLine,hpieces]
  simp only [List.foldlM_cons,List.foldlM_nil,loggerLineAppendVa,List.length_nil,Nat.sub_zero,List.nil_append]
  by_cases hroom : payload.length ≤ intMax
  · rw [if_neg (Nat.not_lt.mpr hroom),if_pos hroom]
    rfl
  · rw [if_pos (Nat.lt_of_not_le hroom),if_neg hroom]
    rfl

theorem slog_eq (stylesEnabled callback : Bool) (payload : List Byte) :
    slog stylesEnabled callback level payload =
      if (sanitized payload).length ≤ intMax then
        (writeLine .available stylesEnabled (level.remember && callback) (sanitized payload)).terminal
      else [] := by
  have hgrowth := (sanitized_length payload).1
  have hline : loggerLine machineMode LineMemory.available.appended ⟨level,[],[],[],[],some payload⟩ = _ :=
    loggerLine_machine hlevel hundecor payload
  have htext : loggerLineSanitizeForTerminal LineMemory.available.sanitized payload = _ :=
    loggerLineSanitizeForTerminal_available payload
  unfold slog rationalLogger
  rw [hline]
  by_cases hroom : (sanitized payload).length ≤ intMax
  · rw [if_pos (hgrowth.trans hroom),if_pos hroom]
    dsimp only
    rw [htext,if_pos hroom]
  · rw [if_neg hroom]
    by_cases hpayload : payload.length ≤ intMax
    · rw [if_pos hpayload]
      dsimp only
      rw [htext,if_neg hroom]
      rfl
    · rw [if_neg hpayload]
      rfl

theorem slog_plain (callback : Bool) (payload : List Byte) : slog false callback level payload =
    if (sanitized payload).length ≤ intMax then styled false decorations (sanitized payload) else [] := by
  rw [slog_eq hlevel hundecor]
  split
  · rename_i hroom
    exact writeLine_plain _ _ hroom
  · rfl

end Slog

theorem sanitized_ascii_cons {b : Byte} (hascii : b.toNat < 0x80) (hsafe : controlByte b = false)
    (rest : List Byte) : sanitized (b :: rest) = b :: sanitized rest := by
  have hfragment : nextFragment b rest = (1,false) := by rw [nextFragment,if_pos hascii,hsafe]
  rw [sanitized_cons,writtenFragment,hfragment]
  rfl

theorem sanitized_ascii_append {text : List Byte} (h : ∀ b ∈ text, b.toNat < 0x80 ∧ controlByte b = false)
    (rest : List Byte) : sanitized (text ++ rest) = text ++ sanitized rest := by
  induction text with
  | nil => rfl
  | cons b text ih =>
    obtain ⟨hascii,hsafe⟩ := h b List.mem_cons_self
    rw [List.cons_append,sanitized_ascii_cons hascii hsafe,ih (fun b hb => h b (List.mem_cons_of_mem _ hb))]
    rfl

theorem sanitized_cut {b : Byte} (hascii : b.toNat < 0x80) (hsafe : controlByte b = false)
    (before after : List Byte) : sanitized (before ++ b :: after) = sanitized before ++ b :: sanitized after := by
  rw [sanitized_append_ascii hascii,sanitized_ascii_cons hascii hsafe]

def shown (path : List Byte) : List Byte := styled false decorations (sanitized path)

theorem shown_cut {b : Byte} (hascii : b.toNat < 0x80) (hsafe : controlByte b = false) (hb : Unmarked b)
    (before after : List Byte) : shown (before ++ b :: after) = shown before ++ b :: shown after := by
  unfold shown
  rw [sanitized_cut hascii hsafe,styled_append_cons (List.Subset.refl _) hb]

theorem shown_displayed (path : List Byte) : Displayed [] (shown path) :=
  styled_displayed false (List.Subset.refl _) ((sanitized_text path).displayed _)

theorem displayText_of_displayed {bytes : List Byte} (h : Displayed [] bytes) : DisplayText bytes := by
  obtain ⟨segments,hsafe,rfl⟩ := h
  induction segments with
  | nil => exact .nil
  | cons segment rest ih =>
    refine DisplayText.append ?_ (ih (fun s hs => hsafe s (List.mem_cons_of_mem _ hs)))
    have hsegment := hsafe segment List.mem_cons_self
    cases segment with
    | character c => exact .single hsegment
    | sequence s => exact absurd hsegment List.not_mem_nil

/-- A text that loses a marker gets shorter. -/
theorem styled_eq_self {rules : List (List Byte × List Byte)} (hrules : rules ⊆ decorations) {text : List Byte}
    (h : (styled false rules text).length = text.length) : ∀ rule ∈ rules, ¬ rule.1 <:+: text := by
  induction rules with
  | nil => simp
  | cons rule rules ih =>
    have hrest : rules ⊆ decorations := fun r hr => hrules (List.mem_cons_of_mem rule hr)
    have hne := (decorations_rule rule (hrules List.mem_cons_self)).ne_nil
    have hle : (styled false (rule :: rules) text).length ≤ (replaceAll rule.1 [] text).length :=
      styled_length rules hrest _
    have hunmatched : ¬ rule.1 <:+: text := by
      intro hwithin
      have hlt := length_removeAll_lt hne hwithin
      omega
    have hstep : styled false (rule :: rules) text = styled false rules text :=
      congrArg (styled false rules) (@replaceAll_without Byte _ rule.1 [] text hunmatched)
    intro r hr
    rcases List.mem_cons.mp hr with rfl | hr
    · exact hunmatched
    · exact ih hrest (hstep ▸ h) r hr

/-- The path is shown as it is exactly when a terminal displays it as it is and it contains no
marker. -/
theorem shown_eq_self (path : List Byte) :
    shown path = path ↔ DisplayText path ∧ ∀ rule ∈ decorations, ¬ rule.1 <:+: path := by
  constructor
  · intro h
    have htext : DisplayText path := h ▸ displayText_of_displayed (shown_displayed path)
    refine ⟨htext,styled_eq_self (List.Subset.refl _) ?_⟩
    have hlength := congrArg List.length h
    unfold shown at hlength
    rwa [sanitized_of_text htext] at hlength
  · rintro ⟨htext,hmarkers⟩
    unfold shown
    rw [sanitized_of_text htext,styled_without hmarkers]

theorem decorations_apart : ∀ rule ∈ decorations, ∀ other ∈ decorations,
    rule.1 <+: other.1 ∨ other.1 <+: rule.1 → rule = other := by
  decide +kernel

theorem styled_esc (stylesEnabled : Bool) {rules : List (List Byte × List Byte)} (hrules : rules ⊆ decorations)
    (text : List Byte) : ∃ rest, styled stylesEnabled rules (escByte :: text) = escByte :: rest := by
  have hunmarked : Unmarked escByte := by decide +kernel
  have hcut := styled_append_cons hrules hunmarked stylesEnabled [] text
  rw [List.nil_append] at hcut
  have hempty : styled stylesEnabled rules [] = [] := styled_without (by
    intro rule hrule hwithin
    exact (decorations_rule rule (hrules hrule)).ne_nil (List.infix_nil.mp hwithin)) stylesEnabled
  rw [hempty] at hcut
  exact ⟨_,hcut⟩

theorem styled_marker {rules : List (List Byte × List Byte)} (hrules : rules ⊆ decorations)
    {rule : List Byte × List Byte} (hrule : rule ∈ rules) (text : List Byte) :
    ∃ rest, styled true rules (rule.1 ++ text) = escByte :: rest := by
  induction rules generalizing text with
  | nil => exact absurd hrule List.not_mem_nil
  | cons first rules ih =>
    have hmem := hrules List.mem_cons_self
    have hrest : rules ⊆ decorations := fun r hr => hrules (List.mem_cons_of_mem first hr)
    by_cases hsame : first = rule
    · subst hsame
      have hstep := @replaceAll_search_append Byte _ first.1 first.2 (decorations_rule first hmem).ne_nil text
      obtain ⟨tail,htail⟩ := (decorations_rule first hmem).escapes
      obtain ⟨rest,hstyled⟩ := styled_esc true hrest (tail ++ replaceAll first.1 first.2 text)
      refine ⟨rest,(congrArg (styled true rules) hstep).trans ?_⟩
      rw [← List.cons_append,← htail] at hstyled
      exact hstyled
    · have hlater := (List.mem_cons.mp hrule).resolve_left (fun h => hsame h.symm)
      obtain ⟨tail,hhead,htail⟩ := (decorations_rule rule (hrules hrule)).head
      obtain ⟨pattern,hpattern,-⟩ := (decorations_rule first hmem).head
      have hunmatched : ¬ first.1 <+: rule.1 ++ text := fun hstart =>
        hsame (decorations_apart first hmem rule (hrules hrule)
          (List.prefix_or_prefix_of_prefix hstart (List.prefix_append rule.1 text)))
      have hstep : replaceAll first.1 first.2 (rule.1 ++ text) = rule.1 ++ replaceAll first.1 first.2 text := by
        rw [hhead,List.cons_append] at hunmatched ⊢
        rw [replaceAll_unmatched hunmatched,hpattern,replaceAll_append_of_head_notMem htail]
        rfl
      obtain ⟨rest,hstyled⟩ := ih hrest hlater (replaceAll first.1 first.2 text)
      exact ⟨rest,(congrArg (styled true rules) hstep).trans hstyled⟩

end Precizer.Logger
